import Mathlib.Data.List.Basic

/-! Runs that may fail and that leave a trace of events, also when they fail. -/

namespace TracedRuns

structure Traced (ε σ α : Type) where
  result : Except ε α
  events : List σ

variable {ε σ τ α β : Type}

namespace Traced

def bind (x : Traced ε σ α) (f : α → Traced ε σ β) : Traced ε σ β :=
  match x.result with
  | .error e => ⟨.error e, x.events⟩
  | .ok a => ⟨(f a).result, x.events ++ (f a).events⟩

instance : Monad (Traced ε σ) where
  pure a := ⟨.ok a, []⟩
  bind := Traced.bind

def fail (e : ε) : Traced ε σ α := ⟨.error e, []⟩

def note (s : σ) : Traced ε σ Unit := ⟨.ok (), [s]⟩

/-- The values of those elements that have one. -/
def collect (f : α → Traced ε σ (Option β)) : List α → Traced ε σ (List β)
  | [] => pure []
  | a :: rest => do
    let found ← f a
    let others ← collect f rest
    return found.toList ++ others

/-! ## Results -/

variable {x : Traced ε σ α} {f : α → Traced ε σ β}

theorem bind_of_ok {a : α} (h : x.result = .ok a) :
    x >>= f = ⟨(f a).result, x.events ++ (f a).events⟩ := by
  change Traced.bind x f = _
  rw [Traced.bind, h]

theorem bind_of_error {e : ε} (h : x.result = .error e) : x >>= f = ⟨.error e, x.events⟩ := by
  change Traced.bind x f = _
  rw [Traced.bind, h]

theorem bind_eq_ok {b : β} :
    (x >>= f).result = .ok b ↔ ∃ a, x.result = .ok a ∧ (f a).result = .ok b := by
  cases h : x.result with
  | error e => simp [bind_of_error h]
  | ok a => simp [bind_of_ok h]

theorem bind_eq_error {e : ε} : (x >>= f).result = .error e ↔
    x.result = .error e ∨ ∃ a, x.result = .ok a ∧ (f a).result = .error e := by
  cases h : x.result with
  | error e => simp [bind_of_error h]
  | ok a => simp [bind_of_ok h]

theorem pure_eq_ok {a b : α} : (pure a : Traced ε σ α).result = .ok b ↔ b = a := by
  change (Except.ok a : Except ε α) = .ok b ↔ _
  rw [Except.ok.injEq, eq_comm]

theorem fail_ne_ok {e : ε} {a : α} : (fail e : Traced ε σ α).result ≠ .ok a := by
  intro h
  cases h

theorem note_eq_ok {s : σ} {u : Unit} : (note s : Traced ε σ Unit).result = .ok u ↔ True :=
  iff_true_intro rfl

/-- What is collected when the elements say when they fail and what they give. -/
theorem collect_eq_ok {f : α → Traced ε σ (Option β)} {p : α → Prop} {g : α → Option β}
    (h : ∀ a value, (f a).result = .ok value ↔ p a ∧ value = g a) {l : List α} {found : List β} :
    (collect f l).result = .ok found ↔ (∀ a ∈ l, p a) ∧ found = l.filterMap g := by
  induction l generalizing found with
  | nil => simp [collect, pure_eq_ok]
  | cons a rest ih =>
    have hcons : (a :: rest).filterMap g = (g a).toList ++ rest.filterMap g := by
      cases hg : g a <;> simp [hg]
    simp only [collect, bind_eq_ok, pure_eq_ok, ih, h, List.forall_mem_cons, hcons]
    constructor
    · rintro ⟨value, ⟨ha, rfl⟩, others, ⟨hrest, rfl⟩, rfl⟩
      exact ⟨⟨ha, hrest⟩, rfl⟩
    · rintro ⟨⟨ha, hrest⟩, rfl⟩
      exact ⟨_, ⟨ha, rfl⟩, _, ⟨hrest, rfl⟩, rfl⟩

theorem exists_of_collect_eq_error {f : α → Traced ε σ (Option β)} {l : List α} {e : ε}
    (h : (collect f l).result = .error e) : ∃ a ∈ l, (f a).result = .error e := by
  induction l with
  | nil => cases h
  | cons a rest ih =>
    rcases bind_eq_error.mp h with h | ⟨_, -, h⟩
    · exact ⟨a, List.mem_cons_self, h⟩
    · rcases bind_eq_error.mp h with h | ⟨_, -, h⟩
      · obtain ⟨other, hother, h⟩ := ih h
        exact ⟨other, List.mem_cons_of_mem a hother, h⟩
      · cases h

theorem collect_eq_nil {f : α → Traced ε σ (Option β)} {l : List α} :
    (collect f l).result = .ok [] ↔ ∀ a ∈ l, (f a).result = .ok none := by
  induction l with
  | nil => simp [collect, pure_eq_ok]
  | cons a rest ih =>
    simp only [collect, bind_eq_ok, pure_eq_ok, List.forall_mem_cons, ← ih]
    constructor
    · rintro ⟨value, hvalue, others, hothers, hnil⟩
      obtain ⟨hvalue', rfl⟩ := List.append_eq_nil_iff.mp hnil.symm
      rw [Option.toList_eq_nil_iff.mp hvalue'] at hvalue
      exact ⟨hvalue, hothers⟩
    · rintro ⟨hvalue, hothers⟩
      exact ⟨none, hvalue, [], hothers, rfl⟩

/-- Only one element has a value. -/
theorem collect_eq_singleton {f : α → Traced ε σ (Option β)} {l : List α} (hl : l.Nodup) {b : β} :
    (collect f l).result = .ok [b] ↔ ∃ a ∈ l, (f a).result = .ok (some b) ∧
      ∀ other ∈ l, other ≠ a → (f other).result = .ok none := by
  induction l with
  | nil => simp [collect, pure_eq_ok]
  | cons a rest ih =>
    obtain ⟨ha, hrest⟩ := List.nodup_cons.mp hl
    simp only [collect, bind_eq_ok, pure_eq_ok]
    constructor
    · rintro ⟨value, hvalue, others, hothers, hsingle⟩
      cases value with
      | none =>
        obtain rfl : [b] = others := hsingle
        obtain ⟨a', ha', hvalue', hothers⟩ := (ih hrest).mp hothers
        refine ⟨a', List.mem_cons_of_mem a ha', hvalue', fun other hother hne => ?_⟩
        rcases List.mem_cons.mp hother with rfl | hother
        · exact hvalue
        · exact hothers other hother hne
      | some c =>
        obtain ⟨rfl, rfl⟩ : b = c ∧ others = [] := by simpa using hsingle
        refine ⟨a, List.mem_cons_self, hvalue, fun other hother hne => ?_⟩
        exact collect_eq_nil.mp hothers other ((List.mem_cons.mp hother).resolve_left hne)
    · rintro ⟨a', ha', hvalue, hothers⟩
      rcases List.mem_cons.mp ha' with rfl | ha'
      · refine ⟨some b, hvalue, [], collect_eq_nil.mpr fun other hother => ?_, rfl⟩
        exact hothers other (List.mem_cons_of_mem _ hother) (ne_of_mem_of_not_mem hother ha)
      · have hhead := hothers a List.mem_cons_self (ne_of_mem_of_not_mem ha' ha).symm
        refine ⟨none, hhead, [b], (ih hrest).mpr ⟨a', ha', hvalue, fun other hother hne => ?_⟩, rfl⟩
        exact hothers other (List.mem_cons_of_mem _ hother) hne

/-! ## Events -/

/-- Only good events, and no failure but those that are allowed. -/
structure Sound (good : σ → Prop) (allowed : ε → Prop) (x : Traced ε σ α) : Prop where
  events : ∀ s ∈ x.events, good s
  failure : ∀ e, x.result = .error e → allowed e

variable {good : σ → Prop} {allowed : ε → Prop}

theorem Sound.mono {good' : σ → Prop} {allowed' : ε → Prop} (h : Sound good allowed x)
    (hgood : ∀ s, good s → good' s) (hallowed : ∀ e, allowed e → allowed' e) :
    Sound good' allowed' x :=
  ⟨fun s hs => hgood s (h.events s hs), fun e he => hallowed e (h.failure e he)⟩

theorem Sound.pure (a : α) : Sound good allowed (pure a : Traced ε σ α) :=
  ⟨fun _ h => absurd h List.not_mem_nil, fun _ h => by cases h⟩

theorem Sound.fail {e : ε} (h : allowed e) : Sound good allowed (fail e : Traced ε σ α) :=
  ⟨fun _ h => absurd h List.not_mem_nil, fun _ he => by cases he; exact h⟩

theorem Sound.note {s : σ} (h : good s) : Sound good allowed (note s : Traced ε σ Unit) :=
  ⟨fun _ hs => List.mem_singleton.mp hs ▸ h, fun _ he => by cases he⟩

theorem Sound.bind (hx : Sound good allowed x)
    (hf : ∀ a, x.result = .ok a → Sound good allowed (f a)) : Sound good allowed (x >>= f) := by
  cases h : x.result with
  | error e =>
    rw [bind_of_error h]
    refine ⟨hx.events, fun e' he => ?_⟩
    cases he
    exact hx.failure e h
  | ok a =>
    rw [bind_of_ok h]
    refine ⟨fun s hs => ?_, (hf a h).failure⟩
    rcases List.mem_append.mp hs with hs | hs
    · exact hx.events s hs
    · exact (hf a h).events s hs

theorem Sound.collect {f : α → Traced ε σ (Option β)} {l : List α}
    (h : ∀ a ∈ l, Sound good allowed (f a)) : Sound good allowed (collect f l) := by
  induction l with
  | nil => exact .pure []
  | cons a rest ih =>
    rw [List.forall_mem_cons] at h
    exact h.1.bind fun found _ => (ih h.2).bind fun others _ => .pure _

/-- What is noted of one kind. -/
def seen (kind : σ → Option τ) (x : Traced ε σ α) : List τ := x.events.filterMap kind

variable {kind : σ → Option τ}

theorem seen_bind_of_ok {a : α} (h : x.result = .ok a) :
    seen kind (x >>= f) = seen kind x ++ seen kind (f a) := by
  rw [seen, bind_of_ok h, List.filterMap_append, seen, seen]

theorem seen_bind_of_error {e : ε} (h : x.result = .error e) :
    seen kind (x >>= f) = seen kind x := by
  rw [seen, bind_of_error h, seen]

theorem Sound.seen_eq_nil (h : Sound good allowed x) (hkind : ∀ s, good s → kind s = none) :
    seen kind x = [] :=
  List.filterMap_eq_nil_iff.mpr fun s hs => hkind s (h.events s hs)

theorem seen_bind_of_rest (h : ∀ a, seen kind (f a) = []) : seen kind (x >>= f) = seen kind x := by
  cases hx : x.result with
  | error e => exact seen_bind_of_error hx
  | ok a => rw [seen_bind_of_ok hx, h, List.append_nil]

/-- After a part that notes nothing of the kind, the rest notes all of it. -/
theorem seen_bind_of_nil (h : seen kind x = []) : seen kind (x >>= f) = [] ∨
    ∃ a, x.result = .ok a ∧ seen kind (x >>= f) = seen kind (f a) := by
  cases hx : x.result with
  | error e => exact .inl (by rw [seen_bind_of_error hx, h])
  | ok a => exact .inr ⟨a, rfl, by rw [seen_bind_of_ok hx, h, List.nil_append]⟩

end Traced

end TracedRuns
