import Mathlib.Data.List.Sort
import Mathlib.Order.Basic

/-! Going along a list of stops, one stop at a time or several at once. -/

namespace Stops

variable {α : Type} (r : α → α → Prop) [DecidableRel r]

/-- The stops that are still to come. -/
def beyond (stops : List α) (x : α) : List α := stops.filter (r x ·)

/-- Behind the last stop there is nowhere to go. -/
def next (stops : List α) (x : α) : α := ((beyond r stops x).head?).getD x

def advance (stops : List α) : Nat → α → α
  | 0, x => x
  | n + 1, x => advance stops n (next r stops x)

/-- Several stops at once. -/
def jump (stops : List α) (n : Nat) (x : α) : α :=
  ((beyond r stops x)[min n ((beyond r stops x).length - 1)]?).getD x

variable {r} {stops : List α} {x y : α} {rest : List α}

theorem beyond_of_cons [IsTrans α r] [Std.Irrefl r] (hs : stops.Pairwise r)
    (h : beyond r stops x = y :: rest) : beyond r stops y = rest := by
  have hmem : y ∈ beyond r stops x := h ▸ List.mem_cons_self
  have hxy : r x y := of_decide_eq_true (List.mem_filter.mp hmem).2
  have hpair : (y :: rest).Pairwise r := h ▸ hs.filter _
  calc beyond r stops y = (beyond r stops x).filter (r y ·) := by
        rw [beyond, beyond, List.filter_filter]
        refine List.filter_congr fun z _ => ?_
        by_cases hyz : r y z
        · simp [hyz, trans_of r hxy hyz]
        · simp [hyz]
    _ = rest := by
        rw [h, List.filter_cons_of_neg (by simpa using irrefl_of r y)]
        exact List.filter_eq_self.mpr fun z hz => by simpa using List.rel_of_pairwise_cons hpair hz

theorem next_of_nil (h : beyond r stops x = []) : next r stops x = x := by
  simp [next, h]

theorem advance_of_nil (h : beyond r stops x = []) (n : Nat) : advance r stops n x = x := by
  induction n with
  | zero => rfl
  | succ n ih => rw [advance, next_of_nil h, ih]

theorem jump_eq_advance [IsTrans α r] [Std.Irrefl r] (hs : stops.Pairwise r) (n : Nat) (x : α) :
    jump r stops n x = advance r stops (n + 1) x := by
  induction n generalizing x with
  | zero => simp [jump, advance, next, List.head?_eq_getElem?]
  | succ n ih =>
    cases hx : beyond r stops x with
    | nil => rw [advance_of_nil hx, jump, hx]; rfl
    | cons y rest =>
      have hnext : next r stops x = y := by simp [next, hx]
      have hy : beyond r stops y = rest := beyond_of_cons hs hx
      rw [advance, hnext, ← ih y, jump, jump, hx, hy]
      cases rest with
      | nil => simp
      | cons z rest =>
        have hmin : min (n + 1) ((y :: z :: rest).length - 1) =
            min n ((z :: rest).length - 1) + 1 := by
          simp only [List.length_cons]
          omega
        have hlt : min n ((z :: rest).length - 1) < (z :: rest).length := by
          simp only [List.length_cons]
          omega
        rw [hmin, List.getElem?_cons_succ, List.getElem?_eq_getElem hlt]
        rfl

theorem next_eq_or (stops : List α) (x : α) :
    next r stops x = x ∧ beyond r stops x = [] ∨
      next r stops x ∈ stops ∧ r x (next r stops x) := by
  cases h : beyond r stops x with
  | nil => exact .inl ⟨next_of_nil h, rfl⟩
  | cons y rest =>
    have hmem : y ∈ beyond r stops x := h ▸ List.mem_cons_self
    have hnext : next r stops x = y := by simp [next, h]
    rw [hnext]
    exact .inr ⟨(List.mem_filter.mp hmem).1, of_decide_eq_true (List.mem_filter.mp hmem).2⟩

/-- Where there is a stop to come, a stop is reached. -/
theorem advance_mem (hx : x ∈ stops ∨ ∃ y ∈ stops, r x y) (n : Nat) :
    advance r stops (n + 1) x ∈ stops := by
  induction n generalizing x with
  | zero =>
    rw [advance, advance]
    rcases next_eq_or (r := r) stops x with ⟨hstay, hnil⟩ | ⟨hmem, -⟩
    · rw [hstay]
      refine hx.resolve_right fun ⟨y, hy, hr⟩ => ?_
      have : y ∈ beyond r stops x := List.mem_filter.mpr ⟨hy, by simpa using hr⟩
      rw [hnil] at this
      cases this
    · exact hmem
  | succ n ih =>
    rw [advance]
    rcases next_eq_or (r := r) stops x with ⟨hstay, -⟩ | ⟨hmem, -⟩
    · rw [hstay]
      exact ih hx
    · exact ih (.inl hmem)

/-- More stops lead farther, or as far. -/
theorem advance_mono [IsTrans α r] (stops : List α) {m n : Nat} (h : m ≤ n) (x : α) :
    advance r stops m x = advance r stops n x ∨
      r (advance r stops m x) (advance r stops n x) := by
  induction n generalizing m x with
  | zero =>
    obtain rfl : m = 0 := by omega
    exact .inl rfl
  | succ n ih =>
    cases m with
    | succ m => exact ih (Nat.le_of_succ_le_succ h) _
    | zero =>
      have hrest := ih (Nat.zero_le n) (next r stops x)
      simp only [advance] at hrest ⊢
      rcases next_eq_or (r := r) stops x with ⟨hstay, -⟩ | ⟨-, hr⟩
      · rw [hstay] at hrest ⊢
        exact hrest
      · rcases hrest with heq | hr'
        · exact .inr (heq ▸ hr)
        · exact .inr (trans_of r hr hr')

end Stops
