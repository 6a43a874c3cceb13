import Mathlib.Data.Finset.Card
import Mathlib.Logic.Function.Basic

/-! Accounts of tokens: who holds which, and that a token that is held is valid
and held once. -/

namespace FenceAccounts

variable {H V : Type} [DecidableEq H]

/-- Every holder's token is valid, and no two hold the same. -/
structure Accounts (held : H → Option V) (valid : Finset V) : Prop where
  mem : ∀ x v, held x = some v → v ∈ valid
  distinct : ∀ x y v, held x = some v → held y = some v → x = y

/-- Every valid token is held by someone. -/
def Complete (held : H → Option V) (valid : Finset V) : Prop := ∀ v ∈ valid, ∃ x, held x = some v

/-- One holder hands its token, if it has any, over to another. -/
def handOver (held : H → Option V) (a b : H) : H → Option V :=
  Function.update (Function.update held a none) b (held a)

variable {held : H → Option V} {valid : Finset V} {a b : H} {v : V}

theorem update_none_eq_some {x : H} {w : V} (h : Function.update held a none x = some w) :
    x ≠ a ∧ held x = some w := by
  by_cases hx : x = a
  · subst hx
    simp at h
  · rw [Function.update_of_ne hx] at h
    exact ⟨hx, h⟩

theorem update_some_eq_some {x : H} {w : V} (h : Function.update held a (some v) x = some w) :
    x = a ∧ w = v ∨ x ≠ a ∧ held x = some w := by
  by_cases hx : x = a
  · subst hx
    rw [Function.update_self] at h
    exact .inl ⟨rfl, (Option.some.inj h).symm⟩
  · rw [Function.update_of_ne hx] at h
    exact .inr ⟨hx, h⟩

namespace Accounts

theorem drop (h : Accounts held valid) (a : H) : Accounts (Function.update held a none) valid where
  mem x w hw := h.mem x w (update_none_eq_some hw).2
  distinct x y w hx hy := h.distinct x y w (update_none_eq_some hx).2 (update_none_eq_some hy).2

/-- A token that is released is held by nobody. -/
theorem release [DecidableEq V] (h : Accounts held valid) (ha : held a = some v) :
    Accounts (Function.update held a none) (valid.erase v) where
  mem x w hw := by
    obtain ⟨hx, hw⟩ := update_none_eq_some hw
    refine Finset.mem_erase.mpr ⟨fun he => hx ?_, h.mem x w hw⟩
    exact h.distinct x a v (he ▸ hw) ha
  distinct := (h.drop a).distinct

theorem acquire [DecidableEq V] (h : Accounts held valid) (a : H) (hv : v ∉ valid) :
    Accounts (Function.update held a (some v)) (insert v valid) where
  mem x w hw := by
    rcases update_some_eq_some hw with ⟨-, rfl⟩ | ⟨-, hw⟩
    · exact Finset.mem_insert_self _ _
    · exact Finset.mem_insert_of_mem (h.mem x w hw)
  distinct x y w hx hy := by
    rcases update_some_eq_some hx with ⟨rfl, rfl⟩ | ⟨-, hx⟩
    · rcases update_some_eq_some hy with ⟨rfl, -⟩ | ⟨-, hy⟩
      · rfl
      · exact absurd (h.mem y w hy) hv
    · rcases update_some_eq_some hy with ⟨-, hwv⟩ | ⟨-, hy⟩
      · exact absurd (hwv ▸ h.mem x w hx) hv
      · exact h.distinct x y w hx hy

theorem move (h : Accounts held valid) (a b : H) : Accounts (handOver held a b) valid := by
  unfold handOver
  cases ha : held a with
  | none => exact (h.drop a).drop b
  | some v =>
    constructor
    · intro x w hw
      rcases update_some_eq_some hw with ⟨-, rfl⟩ | ⟨-, hw⟩
      · exact h.mem a w ha
      · exact h.mem x w (update_none_eq_some hw).2
    · intro x y w hx hy
      rcases update_some_eq_some hx with ⟨rfl, rfl⟩ | ⟨-, hx⟩
      · rcases update_some_eq_some hy with ⟨rfl, -⟩ | ⟨-, hy⟩
        · rfl
        · obtain ⟨hya, hy⟩ := update_none_eq_some hy
          exact absurd (h.distinct y a w hy ha) hya
      · obtain ⟨hxa, hx⟩ := update_none_eq_some hx
        rcases update_some_eq_some hy with ⟨-, hwv⟩ | ⟨-, hy⟩
        · exact absurd (h.distinct x a v (hwv ▸ hx) ha) hxa
        · exact h.distinct x y w hx (update_none_eq_some hy).2

end Accounts

namespace Complete

theorem drop (h : Complete held valid) (ha : held a = none) :
    Complete (Function.update held a none) valid := by
  rw [Function.update_eq_self_iff.mpr ha.symm]
  exact h

theorem release [DecidableEq V] (h : Complete held valid) (ha : held a = some v) :
    Complete (Function.update held a none) (valid.erase v) := by
  intro w hw
  obtain ⟨hwv, hw⟩ := Finset.mem_erase.mp hw
  obtain ⟨x, hx⟩ := h w hw
  refine ⟨x, ?_⟩
  rw [Function.update_of_ne, hx]
  rintro rfl
  exact hwv (Option.some.inj (hx.symm.trans ha))

theorem acquire [DecidableEq V] (h : Complete held valid) (ha : held a = none) :
    Complete (Function.update held a (some v)) (insert v valid) := by
  intro w hw
  rcases Finset.mem_insert.mp hw with rfl | hw
  · exact ⟨a, Function.update_self _ _ _⟩
  · obtain ⟨x, hx⟩ := h w hw
    refine ⟨x, ?_⟩
    rw [Function.update_of_ne, hx]
    rintro rfl
    rw [ha] at hx
    cases hx

theorem move (h : Complete held valid) (hb : held b = none) (hab : a ≠ b) :
    Complete (handOver held a b) valid := by
  intro w hw
  obtain ⟨x, hx⟩ := h w hw
  unfold handOver
  by_cases hxa : x = a
  · subst hxa
    exact ⟨b, by rw [Function.update_self, hx]⟩
  · refine ⟨x, ?_⟩
    rw [Function.update_of_ne, Function.update_of_ne hxa, hx]
    rintro rfl
    rw [hb] at hx
    cases hx

end Complete

end FenceAccounts
