import Hazkey.HybridSteps
import Hazkey.FenceAccounts

/-! Who holds the fences of the gate, and how each step hands them on. -/

namespace Hazkey

open FenceAccounts

/-- Who can hold a fence: a converter, a foreground thread that has taken one to
release it, a piece of work, or a foreground thread that suspends speculation. -/
inductive FenceHolder
  | candidate (c : Nat)
  | releasing (n : Nat)
  | work (j : Nat)
  | suspension (n i : Nat)
  deriving DecidableEq

def FenceHolder.isSuspension : FenceHolder → Bool
  | .suspension _ _ => true
  | _ => false

namespace HybridSystem

/-- The suspensions of a thread are numbered from the first on. -/
def held (s : HybridSystem) : FenceHolder → Option UInt64
  | .candidate c => (s.converters c).candidateFence
  | .releasing n => s.fenceToRelease n
  | .work j => s.workFence j
  | .suspension n i => (s.suspensions n).reverse[i]?

variable {s s' : HybridSystem} {n c j : Nat}

/-- The parts of the memory that hold fences agree. -/
theorem held_congr
    (hcandidate : ∀ c, (s'.converters c).candidateFence = (s.converters c).candidateFence)
    (hreleasing : s'.fenceToRelease = s.fenceToRelease) (hwork : s'.workFence = s.workFence)
    (hsuspensions : s'.suspensions = s.suspensions) : s'.held = s.held := by
  funext x
  cases x with
  | candidate c => exact hcandidate c
  | releasing n => exact congrFun hreleasing n
  | work j => exact congrFun hwork j
  | suspension n i =>
    unfold held
    rw [hsuspensions]

theorem held_eq_update {a : FenceHolder} {v : Option UInt64} (ha : s'.held a = v)
    (h : ∀ x, x ≠ a → s'.held x = s.held x) : s'.held = Function.update s.held a v := by
  funext x
  by_cases hx : x = a
  · subst hx
    rw [ha, Function.update_self]
  · rw [h x hx, Function.update_of_ne hx]

theorem held_withConverter (f : MozcFirstHybrid → MozcFirstHybrid) :
    (s.withConverter c f).held =
      Function.update s.held (.candidate c) (f (s.converters c)).candidateFence := by
  refine held_eq_update (by simp [held, withConverter]) fun x hx => ?_
  cases x with
  | candidate k =>
    have hk : k ≠ c := fun h => hx (congrArg _ h)
    simp only [held, withConverter, Function.update_of_ne hk]
  | releasing k => rfl
  | work k => rfl
  | suspension k i => rfl

theorem held_releasing (v : Option UInt64) :
    { s with fenceToRelease := Function.update s.fenceToRelease n v }.held =
      Function.update s.held (.releasing n) v := by
  refine held_eq_update (by simp [held]) fun x hx => ?_
  cases x with
  | releasing k =>
    have hk : k ≠ n := fun h => hx (congrArg _ h)
    simp only [held, Function.update_of_ne hk]
  | candidate k => rfl
  | work k => rfl
  | suspension k i => rfl

theorem held_work (v : Option UInt64) :
    { s with workFence := Function.update s.workFence j v }.held =
      Function.update s.held (.work j) v := by
  refine held_eq_update (by simp [held]) fun x hx => ?_
  cases x with
  | work k =>
    have hk : k ≠ j := fun h => hx (congrArg _ h)
    simp only [held, Function.update_of_ne hk]
  | candidate k => rfl
  | releasing k => rfl
  | suspension k i => rfl

/-- A new suspension, and its end, concern the last number only. -/
theorem held_suspensions {l : List UInt64} {i : Nat} {v : Option UInt64}
    (hi : l.reverse[i]? = v) (hl : ∀ k, k ≠ i → l.reverse[k]? = (s.suspensions n).reverse[k]?) :
    { s with suspensions := Function.update s.suspensions n l }.held =
      Function.update s.held (.suspension n i) v := by
  refine held_eq_update (by simp [held, hi]) fun x hx => ?_
  cases x with
  | suspension m k =>
    by_cases hm : m = n
    · subst hm
      have hk : k ≠ i := fun h => hx (congrArg _ h)
      simp only [held, Function.update_self, hl k hk]
    · simp only [held, Function.update_of_ne hm]
  | candidate k => rfl
  | releasing k => rfl
  | work k => rfl

theorem held_push (v : UInt64) :
    { s with suspensions := Function.update s.suspensions n (v :: s.suspensions n) }.held =
      Function.update s.held (.suspension n (s.suspensions n).length) (some v) := by
  refine held_suspensions (by simp) fun k hk => ?_
  rw [List.reverse_cons]
  by_cases hlt : k < (s.suspensions n).length
  · rw [List.getElem?_append_left (by simpa using hlt)]
  · rw [List.getElem?_eq_none, List.getElem?_eq_none] <;> simp <;> omega

theorem held_pop {v : UInt64} {rest : List UInt64} (h : s.suspensions n = v :: rest) :
    { s with suspensions := Function.update s.suspensions n rest }.held =
      Function.update s.held (.suspension n rest.length) none := by
  refine held_suspensions (by simp) fun k hk => ?_
  rw [h, List.reverse_cons]
  by_cases hlt : k < rest.length
  · rw [List.getElem?_append_left (by simpa using hlt)]
  · rw [List.getElem?_eq_none, List.getElem?_eq_none] <;> simp <;> omega

theorem held_last {v : UInt64} {rest : List UInt64} (h : s.suspensions n = v :: rest) :
    s.held (.suspension n rest.length) = some v := by
  simp [held, h]

/-- A change under the lock of a converter that takes its fence or leaves it. -/
theorem held_taken {f : MozcFirstHybrid} {r : Option UInt64 × MozcFirstHybrid}
    (hr : Handed (s.converters c) r) (hf : f = r.2) :
    { s.withConverter c fun _ => f with
        fenceToRelease := Function.update s.fenceToRelease n r.1 }.held =
      Function.update s.held (.releasing n) none ∨
    { s.withConverter c fun _ => f with
        fenceToRelease := Function.update s.fenceToRelease n r.1 }.held =
      handOver s.held (.candidate c) (.releasing n) := by
  subst hf
  have hheld := held_releasing (s := s.withConverter c fun _ => r.2) (n := n) r.1
  rw [held_withConverter] at hheld
  have hsame : s.held (.candidate c) = (s.converters c).candidateFence := rfl
  rcases hr with ⟨hn, hfence⟩ | ⟨fence, hsome, hfence, hnone⟩
  · refine .inl (hheld.trans ?_)
    rw [hn, hfence, ← hsame, Function.update_eq_self]
  · refine .inr (hheld.trans ?_)
    unfold handOver
    rw [hsome, hnone, hsame, hfence]

/-- Finished work keeps its fence, drops it, or leaves it to the converter. -/
theorem held_completed {workID : UInt64} {step : Option PreparedStep}
    {r : Bool × MozcFirstHybrid}
    (hr : Completed (s.converters c) workID (step.map fun step => (step, s.workFence j)) r)
    (hs : s' = { s.withConverter c fun _ => r.2 with
      workFence := if r.1 = true then s.workFence else Function.update s.workFence j none }) :
    s'.held = s.held ∨
    (step = none ∨ s.workFence j = none) ∧ s'.held = Function.update s.held (.work j) none ∨
    (∃ context, (s.converters c).speculationState = .pending workID context) ∧
      s'.held = handOver s.held (.work j) (.candidate c) := by
  subst hs
  obtain ⟨released, h⟩ := r
  have hconverter := held_withConverter (s := s) (c := c) fun _ => h
  have hfence : s.held (.candidate c) = (s.converters c).candidateFence := rfl
  rcases hr.handed with ⟨hsame, hreleased⟩ | ⟨fence, hreleased, hprepared, hcandidate, hpending⟩
  · dsimp only at hsame
    rw [hsame, ← hfence, Function.update_eq_self] at hconverter
    rcases hreleased with hreleased | ⟨hreleased, hnone⟩
    · dsimp only at hreleased
      subst hreleased
      exact .inl hconverter
    · dsimp only at hreleased
      subst hreleased
      refine .inr (.inl ⟨?_, ?_⟩)
      · cases step with
        | none => exact .inl rfl
        | some step => exact .inr hnone
      · have hwork := held_work (s := s.withConverter c fun _ => h) (j := j) none
        rw [hconverter] at hwork
        exact hwork
  · dsimp only at hreleased hcandidate
    subst hreleased
    refine .inr (.inr ⟨hpending, ?_⟩)
    have hwork := held_work (s := s.withConverter c fun _ => h) (j := j) none
    have hj : s.held (.work j) = some fence := by
      cases step with
      | none => cases hprepared
      | some step => exact hprepared
    refine hwork.trans ?_
    rw [hconverter, hcandidate]
    unfold handOver
    rw [hj, Function.update_comm (fun h => FenceHolder.noConfusion h)]

end HybridSystem

end Hazkey
