import Hazkey.WeakOrders

/-! The first elements of a list in order, when the list is known to be pruned without
losing them. -/

namespace Pruning

open WeakOrders

variable {α β γ : Type} {less : α → α → Bool} {l l' w : List α} {x y : α} {k : Nat}

/-- A strict order that decides between any two elements of the list. -/
structure StrictTotal (less : α → α → Bool) (l : List α) : Prop where
  irrefl : ∀ x, less x x = false
  trans : ∀ x y z, less x y = true → less y z = true → less x z = true
  total : ∀ x ∈ l, ∀ y ∈ l, x ≠ y → less x y = true ∨ less y x = true

def Increasing (less : α → α → Bool) (l : List α) : Prop :=
  l.Pairwise fun x y => less x y = true

theorem StrictTotal.of_weak (h : Weak (fun _ => True) less)
    (htotal : ∀ x ∈ l, ∀ y ∈ l, x ≠ y → less x y = true ∨ less y x = true) :
    StrictTotal less l where
  irrefl x := h.irrefl trivial
  trans x y z := by
    have hstrict : StrictWeak less [x, y, z] := (h.mono fun _ _ => trivial).strictWeak
    exact hstrict.trans x (by simp) y (by simp) z (by simp)
  total := htotal

theorem StrictTotal.asymm (h : StrictTotal less l) (hxy : less x y = true) :
    less y x = false := by
  by_contra hyx
  have hxx := h.trans x y x hxy (Bool.of_not_eq_false hyx)
  rw [h.irrefl x] at hxx
  cases hxx

theorem StrictTotal.mono (h : StrictTotal less l) (hsub : ∀ x ∈ l', x ∈ l) :
    StrictTotal less l' where
  irrefl := h.irrefl
  trans := h.trans
  total x hx y hy := h.total x (hsub x hx) y (hsub y hy)

theorem StrictTotal.strictWeak (h : StrictTotal less l) : StrictWeak less l where
  irrefl x _ := h.irrefl x
  trans x _ y _ z _ := h.trans x y z
  incomparable x hx y hy z _ hxy hyx hyz hzy := by
    by_cases heq : x = y
    · rwa [heq]
    · rcases h.total x hx y hy heq with hlt | hlt
      · rw [hxy] at hlt
        cases hlt
      · rw [hyx] at hlt
        cases hlt

theorem StrictTotal.sortedBy_increasing (h : StrictTotal less l) (hn : l.Nodup) :
    Increasing less (sortedBy less l) := by
  have hperm := sortedBy_perm less l
  have hnodup : (sortedBy less l).Nodup := hperm.nodup_iff.mpr hn
  refine List.Pairwise.imp_of_mem ?_ ((sortedBy_ordered h.strictWeak).and hnodup)
  intro x y hx hy hxy
  have htotal := h.total x (hperm.mem_iff.mp hx) y (hperm.mem_iff.mp hy) hxy.2
  exact htotal.resolve_right (by simp [hxy.1])

theorem Increasing.nodup (hl : Increasing less l) (h : StrictTotal less l) : l.Nodup := by
  refine hl.imp fun {x y} hxy heq => ?_
  rw [heq, h.irrefl y] at hxy
  cases hxy

/-- There is one list of given elements in order. -/
theorem Increasing.unique (hl : Increasing less l) (hl' : Increasing less l')
    (h : StrictTotal less l) (hmem : ∀ x, x ∈ l ↔ x ∈ l') : l = l' := by
  have h' : StrictTotal less l' := h.mono fun x => (hmem x).mpr
  have hperm : l.Perm l' := (List.perm_ext_iff_of_nodup (hl.nodup h) (hl'.nodup h')).mpr hmem
  refine List.Perm.eq_of_pairwise ?_ hl hl' hperm
  intro x y _ _ hxy hyx
  rw [h.asymm hxy] at hyx
  cases hyx

theorem Increasing.take_before (hl : Increasing less l) (hx : x ∈ l.take k) (hy : y ∈ l)
    (hnot : y ∉ l.take k) : less x y = true := by
  have hdrop : y ∈ l.drop k := by
    rw [← List.take_append_drop k l] at hy
    exact (List.mem_append.mp hy).resolve_left hnot
  have hsplit := hl
  rw [Increasing, ← List.take_append_drop k l] at hsplit
  exact (List.pairwise_append.mp hsplit).2.2 x hx y hdrop

/-- What comes after `k` others is not among the first `k`. -/
theorem Increasing.not_mem_take (hl : Increasing less l) (h : StrictTotal less l)
    (hw : w.Nodup) (hlen : k ≤ w.length) (hbefore : ∀ y ∈ w, y ∈ l ∧ less y x = true) :
    x ∉ l.take k := by
  intro hx
  have hnot : x ∉ w := by
    intro hmem
    have hxx := (hbefore x hmem).2
    rw [h.irrefl x] at hxx
    cases hxx
  have hsub : x :: w ⊆ l.take k := by
    rintro y (_ | ⟨_, hy⟩)
    · exact hx
    · obtain ⟨hyl, hyx⟩ := hbefore y hy
      by_contra hout
      have hxy := hl.take_before hx hyl hout
      rw [h.asymm hyx] at hxy
      cases hxy
  have hle := (List.subperm_of_subset (hw.cons hnot) hsub).length_le
  rw [List.length_cons, List.length_take] at hle
  omega

/-- Elements that come after `k` of those that are kept can be left out. -/
theorem Increasing.take_pruned (hl : Increasing less l) (hl' : Increasing less l')
    (h : StrictTotal less l) (hsub : ∀ x ∈ l', x ∈ l)
    (hk : ∀ x ∈ l, x ∉ l' → ∃ w : List α, w.Nodup ∧ k ≤ w.length ∧
      ∀ y ∈ w, y ∈ l' ∧ less y x = true) : l.take k = l'.take k := by
  classical
  have hfilter : l' = l.filter (· ∈ l') := by
    refine hl'.unique (hl.filter _) (h.mono hsub) fun x => ?_
    rw [List.mem_filter, decide_eq_true_eq]
    exact ⟨fun hx => ⟨hsub x hx, hx⟩, fun hx => hx.2⟩
  have hkept : ∀ x ∈ l.take k, x ∈ l' := by
    intro x hx
    by_contra hnot
    obtain ⟨w, hw, hlen, hbefore⟩ := hk x (List.mem_of_mem_take hx) hnot
    exact hl.not_mem_take h hw hlen (fun y hy => ⟨hsub y (hbefore y hy).1, (hbefore y hy).2⟩) hx
  have hsplit : l' = l.take k ++ (l.drop k).filter (· ∈ l') := by
    calc l' = (l.take k ++ l.drop k).filter (· ∈ l') := by rwa [List.take_append_drop]
      _ = l.take k ++ (l.drop k).filter (· ∈ l') := by
        rw [List.filter_append, List.filter_eq_self.mpr fun x hx => by simpa using hkept x hx]
  rw [hsplit, List.take_append, List.take_take, Nat.min_self]
  by_cases hlen : l.length ≤ k
  · rw [List.drop_eq_nil_of_le hlen]
    simp
  · rw [List.length_take, Nat.min_eq_left (by omega), Nat.sub_self, List.take_zero,
      List.append_nil]

/-- An order of pairs in which an earlier first part wins against every pair whose second part
is no earlier, and an earlier second part wins where the first parts agree. -/
structure Extends (lessFirst : β → β → Bool) (lessSecond : γ → γ → Bool)
    (less : α → α → Bool) (join : β → γ → α) : Prop where
  injective : ∀ b c b' c', join b c = join b' c' → b = b' ∧ c = c'
  first : ∀ b c b' c', lessFirst b b' = true → (c = c' ∨ lessSecond c c' = true) →
    less (join b c) (join b' c') = true
  second : ∀ b c c', lessSecond c c' = true → less (join b c) (join b c') = true

variable {lessFirst : β → β → Bool} {lessSecond : γ → γ → Bool} {join : β → γ → α}
  {firsts : List β} {seconds : List γ} {b : β} {c : γ}

/-- What is left out of the grid comes after `k` of what is kept. -/
theorem Extends.outside (h : Extends lessFirst lessSecond less join)
    (hfirsts : Increasing lessFirst firsts) (htotal : StrictTotal lessFirst firsts)
    (hseconds : Increasing lessSecond seconds) (htotal' : StrictTotal lessSecond seconds)
    (hk : 1 ≤ k) (hb : b ∈ firsts) (hc : c ∈ seconds)
    (hout : b ∉ firsts.take k ∨ c ∉ seconds.take k) :
    ∃ w : List α, w.Nodup ∧ k ≤ w.length ∧ ∀ y ∈ w,
      (∃ b' ∈ firsts.take k, ∃ c' ∈ seconds.take k, y = join b' c') ∧
        less y (join b c) = true := by
  by_cases hbk : b ∈ firsts.take k
  · have hck : c ∉ seconds.take k := hout.resolve_left (by simpa using hbk)
    have hlen : k ≤ seconds.length := by
      by_contra hlt
      exact hck (by rwa [List.take_of_length_le (by omega)])
    refine ⟨(seconds.take k).map (join b), ?_, by simp [hlen], ?_⟩
    · refine List.Nodup.map ?_ ((hseconds.nodup htotal').sublist (List.take_sublist k _))
      exact fun c c' heq => (h.injective b c b c' heq).2
    · intro y hy
      obtain ⟨c', hc', rfl⟩ := List.mem_map.mp hy
      exact ⟨⟨b, hbk, c', hc', rfl⟩, h.second b c' c (hseconds.take_before hc' hc hck)⟩
  · have hlen : k ≤ firsts.length := by
      by_contra hlt
      exact hbk (by rwa [List.take_of_length_le (by omega)])
    obtain ⟨c', hc', hbefore⟩ : ∃ c' ∈ seconds.take k, c' = c ∨ lessSecond c' c = true := by
      by_cases hck : c ∈ seconds.take k
      · exact ⟨c, hck, .inl rfl⟩
      · obtain ⟨c', rest, hcons⟩ := List.exists_cons_of_ne_nil (List.ne_nil_of_mem hc)
        have hmem : c' ∈ seconds.take k := by
          rw [hcons, List.take_cons (by omega)]
          exact List.mem_cons_self
        exact ⟨c', hmem, .inr (hseconds.take_before hmem hc hck)⟩
    refine ⟨(firsts.take k).map (join · c'), ?_, by simp [hlen], ?_⟩
    · refine List.Nodup.map ?_ ((hfirsts.nodup htotal).sublist (List.take_sublist k _))
      exact fun b b' heq => (h.injective b c' b' c' heq).1
    · intro y hy
      obtain ⟨b', hb', rfl⟩ := List.mem_map.mp hy
      exact ⟨⟨b', hb', c', hc', rfl⟩,
        h.first b' c' b c (hfirsts.take_before hb' hb hbk) hbefore⟩

/-- The first `k` pairs are made of the first `k` of each part. -/
theorem Extends.take_eq (h : Extends lessFirst lessSecond less join)
    (hfirsts : Increasing lessFirst firsts) (htotal : StrictTotal lessFirst firsts)
    (hseconds : Increasing lessSecond seconds) (htotal' : StrictTotal lessSecond seconds)
    (hk : 1 ≤ k) (hl : Increasing less l) (hl' : Increasing less l')
    (hless : StrictTotal less l)
    (hgrid : ∀ x, x ∈ l ↔ ∃ b ∈ firsts, ∃ c ∈ seconds, x = join b c)
    (hgrid' : ∀ x, x ∈ l' ↔ ∃ b ∈ firsts.take k, ∃ c ∈ seconds.take k, x = join b c) :
    l.take k = l'.take k := by
  refine hl.take_pruned hl' hless (fun x hx => ?_) fun x hx hnot => ?_
  · obtain ⟨b, hb, c, hc, heq⟩ := (hgrid' x).mp hx
    exact (hgrid x).mpr ⟨b, List.mem_of_mem_take hb, c, List.mem_of_mem_take hc, heq⟩
  · obtain ⟨b, hb, c, hc, rfl⟩ := (hgrid x).mp hx
    have hout : b ∉ firsts.take k ∨ c ∉ seconds.take k := by
      by_contra hin
      rw [not_or, not_not, not_not] at hin
      exact hnot ((hgrid' _).mpr ⟨b, hin.1, c, hin.2, rfl⟩)
    obtain ⟨w, hw, hlen, hbefore⟩ := h.outside hfirsts htotal hseconds htotal' hk hb hc hout
    refine ⟨w, hw, hlen, fun y hy => ⟨(hgrid' y).mpr ?_, (hbefore y hy).2⟩⟩
    exact (hbefore y hy).1

end Pruning
