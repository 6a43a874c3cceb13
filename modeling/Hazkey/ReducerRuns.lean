import Hazkey.ReducerSteps
import Hazkey.ServiceRuns

/-! The reducer between requests: its runs from a fresh session, with every
kind of call a server makes to it, and the invariant of all of them. -/

namespace Hazkey

open ServiceProgram

variable [SwiftText] [RecoveryCodec]

/-- Restarts background preparation after maintenance. -/
def resumeSpeculativeConversionAfterMaintenance : ReducerM Unit := prepareSpeculativeConversion

/-- The methods of the reducer. -/
inductive ReducerCall
  | reduce (action : ImeAction) (requestID : Text) (expectedRevision : Option UInt64)
      (provider : Option PinnedCompositionPolicy)
  | pinCompositionPolicy (policy : PinnedCompositionPolicy)
  | invalidateCandidatesForExternalDictionaryChange
  | resumeSpeculativeConversionAfterMaintenance
  | finalizePendingLearning (commit : Bool)

/-- A request is answered with a result, any other call with none. -/
def ReducerCall.program : ReducerCall → ReducerM (Option ImeReductionResult)
  | .reduce action requestID expectedRevision provider => do
    let result ← Hazkey.reduce action requestID expectedRevision provider
    pure (some result)
  | .pinCompositionPolicy policy => do
    let _ ← Hazkey.pinCompositionPolicy policy
    pure none
  | .invalidateCandidatesForExternalDictionaryChange => do
    Hazkey.invalidateCandidatesForExternalDictionaryChange
    pure none
  | .resumeSpeculativeConversionAfterMaintenance => do
    Hazkey.resumeSpeculativeConversionAfterMaintenance
    pure none
  | .finalizePendingLearning commit => do
    Hazkey.finalizePendingLearning commit
    pure none

abbrev ReducerMove := Move ReducerCall converterPort ImeReducer (Option ImeReductionResult)

/-- The moves of a reducer that was opened with a fresh session. -/
def ReducerRun (policy : PinnedCompositionPolicy) (stagedLearningEnabled : Bool)
    (moves : List ReducerMove) (r : ImeReducer) : Prop :=
  Runs ReducerCall.program (.initial (.initial policy) stagedLearningEnabled) moves r

/-- The states of a reducer between calls, whatever its client and its converter do. -/
def Reachable (r : ImeReducer) : Prop :=
  ∃ policy stagedLearningEnabled moves, ReducerRun policy stagedLearningEnabled moves r

/-- The answers that occur in a trace. -/
def Seen (t : List (Event converterPort ImeReducer)) : Promise :=
  fun c a => ∃ s, ⟨s, c, a⟩ ∈ t

variable {P : Promise} {r r' r₁ : ImeReducer} {t : List (Event converterPort ImeReducer)}
  {action : ImeAction} {requestID : Text} {expectedRevision : Option UInt64}
  {provider : Option PinnedCompositionPolicy} {result : ImeReductionResult}

/-! Requests. -/

/-- How a request is answered: from the cache, by a refusal, or by its action. -/
inductive Answered (r : ImeReducer) (action : ImeAction) (requestID : Text)
    (expectedRevision : Option UInt64) (provider : Option PinnedCompositionPolicy)
    (t : List (Event converterPort ImeReducer)) (result : ImeReductionResult) :
    ImeReducer → Prop
  | replayed (entry : CachedRequest) (hl : r.requestCache.lookup requestID = some entry)
      (hm : entry.action = action ∧ entry.expectedRevision = expectedRevision) (ht : t = [])
      (hr : result = entry.result) :
      Answered r action requestID expectedRevision provider t result r
  | reused (entry : CachedRequest) (hl : r.requestCache.lookup requestID = some entry)
      (hm : ¬ (entry.action = action ∧ entry.expectedRevision = expectedRevision))
      {message : String} {r' : ImeReducer}
      (hY : (failure .invalidAction message).Yields r t result r') :
      Answered r action requestID expectedRevision provider t result r'
  | stale (hl : r.requestCache.lookup requestID = none)
      (hm : ¬ (expectedRevision.all fun e => e = r.session.revision) = true)
      {message : String} {r₁ : ImeReducer}
      (hY : (failure .staleRevision message).Yields r t result r₁) :
      Answered r action requestID expectedRevision provider t result
        (r₁.cache requestID ⟨action, expectedRevision, result⟩)
  | performed (hl : r.requestCache.lookup requestID = none)
      (hm : (expectedRevision.all fun e => e = r.session.revision) = true) {r₁ : ImeReducer}
      (hY : (perform action provider).Yields r t result r₁) :
      Answered r action requestID expectedRevision provider t result
        (r₁.cache requestID ⟨action, expectedRevision, result⟩)

omit [RecoveryCodec] [SwiftText] in
theorem cached_yields {result' : ImeReductionResult}
    (h : (cached result' action requestID expectedRevision).Yields r t result r') :
    t = [] ∧ result = result' ∧ r' = r.cache requestID ⟨action, expectedRevision, result'⟩ := h

theorem reduce_answered (h : (reduce action requestID expectedRevision provider).Yields r t result
    r') : Answered r action requestID expectedRevision provider t result r' := by
  obtain ⟨t₁, t₂, q, u, rfl, ⟨rfl, hq, hu⟩, hbody⟩ := Prog.yields_bind.mp h
  rw [hq, hu] at hbody
  rw [List.nil_append]
  cases hl : r.requestCache.lookup requestID with
  | some entry =>
    simp only [hl] at hbody
    split at hbody
    · rename_i hm
      obtain ⟨rfl, rfl, rfl⟩ := hbody
      exact .replayed entry hl hm rfl rfl
    · rename_i hm
      exact .reused entry hl hm hbody
  | none =>
    simp only [hl] at hbody
    split at hbody
    · rename_i hm
      obtain ⟨t₃, t₄, a, v, rfl, hY, hcached⟩ := Prog.yields_bind.mp hbody
      obtain ⟨rfl, rfl, rfl⟩ := cached_yields hcached
      rw [List.append_nil]
      exact .performed hl hm hY
    · rename_i hm
      obtain ⟨t₃, t₄, a, v, rfl, hY, hcached⟩ := Prog.yields_bind.mp hbody
      obtain ⟨rfl, rfl, rfl⟩ := cached_yields hcached
      rw [List.append_nil]
      exact .stale hl hm hY

omit [RecoveryCodec] [SwiftText] in
@[simp] theorem session_cache (r : ImeReducer) (requestID : Text) (cached : CachedRequest) :
    (r.cache requestID cached).session = r.session := by
  unfold ImeReducer.cache
  split <;> rfl

omit [SwiftText] [RecoveryCodec] in
/-- What a trace shows may be promised of it. -/
theorem honoured_seen (t : List (Event converterPort ImeReducer)) :
    (portContract (Seen t)).Honoured t := fun e he _ => ⟨e.state, he⟩

omit [SwiftText] [RecoveryCodec] in
/-- A rule of the session, of one run. -/
theorem Meets.yields {α : Type} {p : ReducerM α} {Q : α → CompositionSession → Prop} {a : α}
    (h : Meets (Seen t) p Q r.session) (hY : p.Yields r t a r') :
    (∀ e ∈ t, Benign e.state.session e.call) ∧ Q a r'.session :=
  Prog.wp.sound h hY (honoured_seen t)

end Hazkey
