import Mathlib.Data.List.Sort

/-! Lists in an order that is one on their own elements only. -/

namespace WeakOrders

variable {α β : Type} {l l' : List α} {x y : α}

/-- Nothing is before what it follows. -/
def Ordered (before : α → α → Bool) (l : List α) : Prop :=
  l.Pairwise fun x y => before y x = false

/-- What a sort asks of its order, on what it sorts. -/
structure StrictWeak (before : α → α → Bool) (l : List α) : Prop where
  irrefl : ∀ x ∈ l, before x x = false
  trans : ∀ x ∈ l, ∀ y ∈ l, ∀ z ∈ l, before x y = true → before y z = true → before x z = true
  incomparable : ∀ x ∈ l, ∀ y ∈ l, ∀ z ∈ l, before x y = false → before y x = false →
    before y z = false → before z y = false → before x z = false

/-- Never both before and behind, and what is not behind goes together. -/
structure Weak (p : α → Prop) (before : α → α → Bool) : Prop where
  asymm : ∀ x y, p x → p y → before x y = true → before y x = false
  notBehind : ∀ x y z, p x → p y → p z → before y x = false → before z y = false →
    before z x = false

theorem Weak.mono {p q : α → Prop} {before : α → α → Bool} (h : Weak p before)
    (hpq : ∀ x, q x → p x) : Weak q before where
  asymm x y hx hy := h.asymm x y (hpq x hx) (hpq y hy)
  notBehind x y z hx hy hz := h.notBehind x y z (hpq x hx) (hpq y hy) (hpq z hz)

theorem Weak.irrefl {p : α → Prop} {before : α → α → Bool} (h : Weak p before) (hx : p x) :
    before x x = false := by
  by_contra hb
  have hb := Bool.of_not_eq_false hb
  have hb' := h.asymm x x hx hx hb
  rw [hb] at hb'
  exact Bool.false_ne_true hb'.symm

theorem Weak.strictWeak {before : α → α → Bool} (h : Weak (· ∈ l) before) :
    StrictWeak before l where
  irrefl x hx := h.irrefl hx
  trans x hx y hy z hz hxy hyz := by
    by_contra hxz
    have := h.notBehind y z x hy hz hx (h.asymm y z hy hz hyz) (Bool.eq_false_iff.mpr hxz)
    rw [hxy] at this
    exact Bool.false_ne_true this.symm
  incomparable x hx y hy z hz hxy _ hyz _ := h.notBehind z y x hz hy hx hyz hxy

theorem StrictWeak.total {before : α → α → Bool} (h : StrictWeak before l) (hx : x ∈ l)
    (hy : y ∈ l) : before y x = false ∨ before x y = false := by
  by_contra hne
  rw [not_or] at hne
  have hxx := h.trans x hx y hy x hx (Bool.of_not_eq_false hne.2) (Bool.of_not_eq_false hne.1)
  rw [h.irrefl x hx] at hxx
  exact Bool.false_ne_true hxx

theorem StrictWeak.notBehind {before : α → α → Bool} (h : StrictWeak before l) {z : α}
    (hx : x ∈ l) (hy : y ∈ l) (hz : z ∈ l) (hyx : before y x = false) (hzy : before z y = false) :
    before z x = false := by
  by_contra hzx
  have hzx := Bool.of_not_eq_false hzx
  have hxy : before x y = false := by
    by_contra hxy
    have := h.trans z hz x hx y hy hzx (Bool.of_not_eq_false hxy)
    rw [hzy] at this
    exact Bool.false_ne_true this
  have hyz : before y z = false := by
    by_contra hyz
    have := h.trans y hy z hz x hx (Bool.of_not_eq_false hyz) hzx
    rw [hyx] at this
    exact Bool.false_ne_true this
  have := h.incomparable z hz y hy x hx hzy hyz hyx hxy
  rw [hzx] at this
  exact Bool.false_ne_true this.symm

/-- A sort that meets what is asked of one. -/
def sortedBy (before : α → α → Bool) (l : List α) : List α :=
  (l.attach.insertionSort fun x y => before y.1 x.1 = false).map (·.1)

theorem sortedBy_perm (before : α → α → Bool) (l : List α) : (sortedBy before l).Perm l := by
  have h := (List.perm_insertionSort (fun x y : {x // x ∈ l} => before y.1 x.1 = false)
    l.attach).map (·.1)
  rw [List.attach_map_subtype_val] at h
  exact h

theorem sortedBy_ordered {before : α → α → Bool} (h : StrictWeak before l) :
    Ordered before (sortedBy before l) := by
  have htotal : Std.Total fun x y : {x // x ∈ l} => before y.1 x.1 = false :=
    ⟨fun x y => h.total x.2 y.2⟩
  have htrans : IsTrans {x // x ∈ l} fun x y => before y.1 x.1 = false :=
    ⟨fun x y z hyx hzy => h.notBehind x.2 y.2 z.2 hyx hzy⟩
  exact List.pairwise_map.mpr (List.pairwise_insertionSort _ l.attach)

theorem sortedBy_eq (before : α → α → Bool) (l : List α) :
    sortedBy before l = l.insertionSort fun x y => before y x = false := by
  rw [sortedBy, List.map_insertionSort (fun x y : {x // x ∈ l} => before y.1 x.1 = false)
    (fun x y => before y x = false) (·.1) l.attach (by simp), List.attach_map_subtype_val]

theorem sortedBy_map (before : β → β → Bool) (f : α → β) (l : List α) :
    sortedBy before (l.map f) = (sortedBy (fun x y => before (f x) (f y)) l).map f := by
  rw [sortedBy_eq, sortedBy_eq, List.map_insertionSort (fun x y => before (f y) (f x) = false)
    (fun x y => before y x = false) f l (by simp)]

theorem orderedInsert_congr {r r' : α → α → Prop} [DecidableRel r] [DecidableRel r']
    (h : ∀ y ∈ l, r x y ↔ r' x y) : l.orderedInsert r x = l.orderedInsert r' x := by
  induction l with
  | nil => rfl
  | cons y l ih =>
    rw [List.orderedInsert, List.orderedInsert, ih fun z hz => h z (List.mem_cons_of_mem _ hz)]
    by_cases hxy : r x y
    · rw [if_pos hxy, if_pos ((h y List.mem_cons_self).mp hxy)]
    · rw [if_neg hxy, if_neg fun hxy' => hxy ((h y List.mem_cons_self).mpr hxy')]

/-- The sort is stable: it asks only whether what comes later is to come before. -/
theorem sortedBy_congr {before before' : α → α → Bool}
    (h : l.Pairwise fun x y => before y x = before' y x) :
    sortedBy before l = sortedBy before' l := by
  rw [sortedBy_eq, sortedBy_eq]
  induction l with
  | nil => rfl
  | cons x l ih =>
    obtain ⟨hx, hl⟩ := List.pairwise_cons.mp h
    rw [List.insertionSort_cons, List.insertionSort_cons, ih hl]
    refine orderedInsert_congr fun y hy => ?_
    rw [hx y ((List.mem_insertionSort _).mp hy)]

/-- By one order, and by another where it does not decide. -/
def thenBy (first second : α → α → Bool) (x y : α) : Bool :=
  first x y || !first y x && second x y

theorem thenBy_eq_false {first second : α → α → Bool} : thenBy first second x y = false ↔
    first x y = false ∧ (first y x = false → second x y = false) := by
  cases hxy : first x y <;> cases hyx : first y x <;> simp [thenBy, hxy, hyx]

theorem Weak.thenBy {p : α → Prop} {first second : α → α → Bool} (h : Weak p first)
    (h' : Weak p second) : Weak p (thenBy first second) where
  asymm x y hx hy hxy := by
    rw [thenBy_eq_false]
    cases hf : first x y with
    | true => exact ⟨h.asymm x y hx hy hf, fun hf' => absurd hf'.symm Bool.false_ne_true⟩
    | false =>
      cases hf' : first y x with
      | true => simp [WeakOrders.thenBy, hf, hf'] at hxy
      | false =>
        have hs : second x y = true := by simpa [WeakOrders.thenBy, hf, hf'] using hxy
        exact ⟨rfl, fun _ => h'.asymm x y hx hy hs⟩
  notBehind x y z hx hy hz hyx hzy := by
    rw [thenBy_eq_false] at hyx hzy ⊢
    refine ⟨h.notBehind x y z hx hy hz hyx.1 hzy.1, fun hxz => ?_⟩
    -- where the first does not decide between the ends, it does not in between
    have hxy : first x y = false := h.notBehind y z x hy hz hx hzy.1 hxz
    have hyz : first y z = false := h.notBehind z x y hz hx hy hxz hyx.1
    exact h'.notBehind x y z hx hy hz (hyx.2 hxy) (hzy.2 hyz)

theorem weak_of_rank (p : α → Prop) (rank : α → Int) :
    Weak p fun x y => decide (rank x < rank y) where
  asymm x y _ _ h := by
    rw [decide_eq_true_eq] at h
    exact decide_eq_false (by omega)
  notBehind x y z _ _ _ hyx hzy := by
    rw [decide_eq_false_iff_not] at hyx hzy
    exact decide_eq_false (by omega)

/-- What is to come before comes before. -/
theorem Ordered.lt {before : α → α → Bool} (h : Ordered before l)
    (hirrefl : ∀ x, before x x = false) {i j : Nat} (hi : i < l.length) (hj : j < l.length)
    (hij : before l[i] l[j] = true) : i < j := by
  by_contra hji
  rcases Nat.lt_or_eq_of_le (Nat.le_of_not_lt hji) with hlt | heq
  · have := List.pairwise_iff_getElem.mp h j i hj hi hlt
    rw [this] at hij
    exact Bool.false_ne_true hij
  · subst heq
    rw [hirrefl] at hij
    exact Bool.false_ne_true hij

theorem Ordered.no_cycle {before : α → α → Bool} (h : Ordered before l)
    (hirrefl : ∀ x, before x x = false) {z : α} (hx : x ∈ l) (hy : y ∈ l) (hz : z ∈ l)
    (hxy : before x y = true) (hyz : before y z = true) : before z x = false := by
  obtain ⟨i, hi, rfl⟩ := List.mem_iff_getElem.mp hx
  obtain ⟨j, hj, rfl⟩ := List.mem_iff_getElem.mp hy
  obtain ⟨k, hk, rfl⟩ := List.mem_iff_getElem.mp hz
  have hij := h.lt hirrefl hi hj hxy
  have hjk := h.lt hirrefl hj hk hyz
  by_contra hki
  have := h.lt hirrefl hk hi (Bool.of_not_eq_false hki)
  omega

/-- Of two lists that are the same as far as is looked at, neither has two elements the other
way round. -/
theorem Ordered.no_exchange {before : α → α → Bool} {f : α → β} (h : Ordered before l)
    (h' : Ordered before l') (hirrefl : ∀ x, before x x = false) (he : l.map f = l'.map f)
    (hnodup : (l.map f).Nodup) {x' y' : α} (hx : x ∈ l) (hy : y ∈ l) (hx' : x' ∈ l')
    (hy' : y' ∈ l') (hfx : f x = f x') (hfy : f y = f y') (hxy : before x y = true) :
    before y' x' = false := by
  have hplace : ∀ {i i' : Nat} (hi : i < l.length) (hi' : i' < l'.length),
      f l[i] = f l'[i'] → i = i' := by
    intro i i' hi hi' hf
    apply (List.getElem?_inj (by simpa using hi) hnodup).mp
    rw [List.getElem?_map, he, List.getElem?_map, List.getElem?_eq_getElem hi,
      List.getElem?_eq_getElem hi']
    exact congrArg some hf
  obtain ⟨i, hi, rfl⟩ := List.mem_iff_getElem.mp hx
  obtain ⟨j, hj, rfl⟩ := List.mem_iff_getElem.mp hy
  obtain ⟨i', hi', rfl⟩ := List.mem_iff_getElem.mp hx'
  obtain ⟨j', hj', rfl⟩ := List.mem_iff_getElem.mp hy'
  have hii := hplace hi hi' hfx
  have hjj := hplace hj hj' hfy
  have hij := h.lt hirrefl hi hj hxy
  by_contra hji
  have := h'.lt hirrefl hj' hi' (Bool.of_not_eq_false hji)
  omega

/-- Two lists in one order, which distinguishes what it does not order, are the same as far
as they have the same elements. -/
theorem map_eq_of_ordered {before : α → α → Bool} {f : α → β} {p : α → Prop}
    (hweak : Weak p before) (hl : ∀ x ∈ l, p x) (hl' : ∀ x ∈ l', p x)
    (htie : ∀ x y, p x → p y → before x y = false → before y x = false → f x = f y)
    (hsame : ∀ x y, p x → p y → f x = f y → before x y = false)
    (h : Ordered before l) (h' : Ordered before l') (hperm : (l.map f).Perm (l'.map f)) :
    l.map f = l'.map f := by
  let r : β → β → Prop := fun a b => ∃ x y, p x ∧ p y ∧ f x = a ∧ f y = b ∧ before y x = false
  have hr : ∀ m : List α, (∀ x ∈ m, p x) → Ordered before m → (m.map f).Pairwise r := by
    intro m hm hordered
    apply List.pairwise_map.mpr
    exact hordered.imp_of_mem fun {x y} hx hy hxy => ⟨x, y, hm x hx, hm y hy, rfl, rfl, hxy⟩
  apply List.Perm.eq_of_pairwise _ (hr l hl h) (hr l' hl' h') hperm
  rintro a b - - ⟨x, y, hx, hy, rfl, rfl, hxy⟩ ⟨y', x', hy', hx', hfy, hfx, hyx⟩
  have hy'x := hweak.notBehind y' x' x hy' hx' hx hyx (hsame x x' hx hx' hfx.symm)
  have hyx := hweak.notBehind y y' x hy hy' hx (hsame y' y hy' hy hfy) hy'x
  exact htie x y hx hy hyx hxy

end WeakOrders
