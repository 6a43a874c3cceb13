import Hazkey.Evaluation

/-! A secure boundary erases what a session held: two sessions that agree on
what may cross it go on alike. -/

namespace Hazkey

open ServiceProgram

attribute [local instance] scalarText byteCodec

section

variable [SwiftText] [RecoveryCodec]

/-- What may cross the boundary. -/
structure Agree (r₁ r₂ : ImeReducer) : Prop where
  revision : r₁.session.revision = r₂.session.revision
  nextCandidateGeneration :
    r₁.session.nextCandidateGeneration = r₂.session.nextCandidateGeneration
  nextEffectID : r₁.session.nextEffectID = r₂.session.nextEffectID
  compositionRevision : r₁.compositionRevision = r₂.compositionRevision
  policy : r₁.session.policy = r₂.session.policy
  stagedLearningEnabled : r₁.stagedLearningEnabled = r₂.stagedLearningEnabled

/-- The calls that change the security domain: a request that is carried out, or
a new policy for a session at rest. -/
inductive Crosses (r : ImeReducer) : ReducerCall → Prop
  | secureInputChanged {flag : Bool} {requestID : Text} {expectedRevision : Option UInt64}
      (provider : Option PinnedCompositionPolicy) (h : r.session.policy.secureInput ≠ flag)
      (hp : Performed r requestID expectedRevision) :
      Crosses r (.reduce (.lifecycle (.secureInputChanged flag)) requestID expectedRevision
        provider)
  | pinCompositionPolicy {policy : PinnedCompositionPolicy}
      (h : r.session.policy.secureInput ≠ policy.secureInput)
      (hi : r.session.phase = .idle ∧ r.session.composingText.isEmpty = true) :
      Crosses r (.pinCompositionPolicy policy)

/-- The answers depend on nothing from before the last purge. -/
def Forgets {W : Type} (answer : (c : converterPort.Call) → W → converterPort.Answer c × W) : Prop :=
  ∀ w w', (answer .purgeSensitiveState w).2 = (answer .purgeSensitiveState w').2

/-- What a boundary leaves of a reducer: a fresh session that keeps the counters. -/
def ImeReducer.crossed (r : ImeReducer) (policy : PinnedCompositionPolicy) : ImeReducer where
  session :=
    { CompositionSession.initial policy with
      revision := r.session.revision
      nextCandidateGeneration := r.session.nextCandidateGeneration
      nextEffectID := r.session.nextEffectID }
  requestCache := []
  requestOrder := []
  compositionRevision := ⟨r.compositionRevision.rawValue + 1⟩
  stagedLearningEnabled := r.stagedLearningEnabled

variable {W : Type} {answer : (c : converterPort.Call) → W → converterPort.Answer c × W} {w w₁ w₂ : W}
  {r r₁ r₂ r' : ImeReducer} {t : List ConverterEvent}

omit [SwiftText] [RecoveryCodec] in
theorem exec_resolvePendingLearning {commit : Bool} :
    ((resolvePendingLearning commit).exec answer w r).2.2 =
      { r with session := { r.session with pendingLearningTransactions := [] } } :=
  (resolvePendingLearning_yields (Prog.exec_yields answer (resolvePendingLearning commit) w r)).1

omit [SwiftText] [RecoveryCodec] in
/-- The purge forgets which tokens were discarded before it. -/
theorem exec_purged {α : Type} (hf : Forgets answer) (k : ReducerM α) (w' : W) :
    (do
      invalidateSpeculation .secureTransition
      let _ ← resolvePendingLearning false
      purgeConverterSensitiveState
      k : ReducerM α).exec answer w r =
    k.exec answer (answer .purgeSensitiveState w').2
      { r with
        session := { r.session with pendingLearningTransactions := [] }
        requestCache := []
        requestOrder := []
        compositionRevision := ⟨r.compositionRevision.rawValue + 1⟩ } := by
  rw [Prog.exec_bind, Prog.exec_bind, exec_resolvePendingLearning, hf w']
  rfl

omit [SwiftText] [RecoveryCodec] in
theorem exec_clearSecurityDomainState {α : Type} (k : ReducerM α) :
    (do
      clearSecurityDomainState
      k : ReducerM α).exec answer w r =
    k.exec answer (answer .retireCandidateWindow w).2
      { r with session := r.session.clearSecurityDomain } := rfl

omit [RecoveryCodec] in
/-- The same session is left whatever was there. -/
theorem clearSecurityDomain_crossed (h : Coherent r.session) (policy : PinnedCompositionPolicy)
    (hp : policy.projectRevision = r.session.policy.projectRevision) :
    ({ r.session with
      pendingLearningTransactions := []
      policy := policy } : CompositionSession).clearSecurityDomain =
      (r.crossed policy).session := by
  have hproject : r.session.context.projectRevision = policy.projectRevision :=
    h.sound.project.trans hp.symm
  simp only [CompositionSession.clearSecurityDomain, ImeReducer.crossed,
    CompositionSession.initial, hproject]

/-- The state of the converter after a boundary. -/
def crossedService (answer : (c : converterPort.Call) → W → converterPort.Answer c × W) (w : W) : W :=
  (answer .retireCandidateWindow (answer .purgeSensitiveState w).2).2

theorem exec_secureInputChanged (hf : Forgets answer) (h : Coherent r.session) {flag : Bool}
    {requestID : Text} {expectedRevision : Option UInt64}
    {provider : Option PinnedCompositionPolicy} (hne : r.session.policy.secureInput ≠ flag)
    (hp : Performed r requestID expectedRevision) (w' : W) :
    (reduce (.lifecycle (.secureInputChanged flag)) requestID expectedRevision
      provider).exec answer w r =
    (do
      advanceRevision
      let result ← success []
      cached result (.lifecycle (.secureInputChanged flag)) requestID expectedRevision :
      ReducerM ImeReductionResult).exec answer (crossedService answer w')
        (r.crossed { r.session.policy with secureInput := flag }) := by
  have hbody : (reduce (.lifecycle (.secureInputChanged flag)) requestID expectedRevision
      provider).exec answer w r =
      (do
        let result ← lifecycle (.secureInputChanged flag)
        cached result (.lifecycle (.secureInputChanged flag)) requestID expectedRevision :
        ReducerM ImeReductionResult).exec answer w r := by
    unfold reduce
    rw [Prog.exec_bind]
    simp only [Prog.read, Prog.exec, hp.1, if_pos hp.2]
    rfl
  have hlifecycle : (lifecycle (.secureInputChanged flag)).exec answer w r =
      (do
        invalidateSpeculation .secureTransition
        let _ ← resolvePendingLearning false
        purgeConverterSensitiveState
        update fun s => { s with policy := { s.policy with secureInput := flag } }
        clearSecurityDomainState
        advanceRevision
        success [] : ReducerM ImeReductionResult).exec answer w r := by
    unfold lifecycle
    rw [Prog.exec_bind]
    exact congrArg (fun p => Prog.exec answer p w r) (if_pos hne)
  rw [hbody, Prog.exec_bind, hlifecycle, exec_purged hf _ w']
  have hcrossed := clearSecurityDomain_crossed h
    { r.session.policy with secureInput := flag } rfl
  have hafter : (do
      update fun s => { s with policy := { s.policy with secureInput := flag } }
      clearSecurityDomainState
      advanceRevision
      success [] : ReducerM ImeReductionResult).exec answer (answer .purgeSensitiveState w').2
        { r with
          session := { r.session with pendingLearningTransactions := [] }
          requestCache := []
          requestOrder := []
          compositionRevision := ⟨r.compositionRevision.rawValue + 1⟩ } =
      (do
        advanceRevision
        success [] : ReducerM ImeReductionResult).exec answer (crossedService answer w')
        (r.crossed { r.session.policy with secureInput := flag }) := by
    rw [Prog.exec_bind, exec_clearSecurityDomainState]
    have hr : r.crossed { r.session.policy with secureInput := flag } =
        { r with
          session := (r.crossed { r.session.policy with secureInput := flag }).session
          requestCache := []
          requestOrder := []
          compositionRevision := ⟨r.compositionRevision.rawValue + 1⟩ } := rfl
    rw [hr, ← hcrossed]
    rfl
  rw [hafter]
  simp only [Prog.exec_bind]

omit [SwiftText] [RecoveryCodec] in
theorem exec_pinCompositionPolicy (hf : Forgets answer) {policy : PinnedCompositionPolicy}
    (hne : r.session.policy.secureInput ≠ policy.secureInput)
    (hi : r.session.phase = .idle ∧ r.session.composingText.isEmpty = true) (w' : W) :
    (pinCompositionPolicy policy).exec answer w r =
      (true, crossedService answer w', r.crossed policy) := by
  have hbody : (pinCompositionPolicy policy).exec answer w r =
      (do
        invalidateSpeculation .secureTransition
        let _ ← resolvePendingLearning false
        purgeConverterSensitiveState
        clearSecurityDomainState
        update fun s =>
          { s with
            policy := policy
            context := { s.context with projectRevision := policy.projectRevision } }
        pure true : ReducerM Bool).exec answer w r := by
    unfold pinCompositionPolicy
    rw [Prog.exec_bind]
    exact congrArg (fun p => Prog.exec answer p w r) ((if_pos hi).trans (if_pos hne))
  rw [hbody, exec_purged hf _ w', exec_clearSecurityDomainState]
  rfl

omit [SwiftText] [RecoveryCodec] in
/-- The two sessions are one after the boundary. -/
theorem Agree.crossed (h : Agree r₁ r₂) (policy : PinnedCompositionPolicy) :
    r₁.crossed policy = r₂.crossed policy := by
  simp only [ImeReducer.crossed, h.revision, h.nextCandidateGeneration, h.nextEffectID,
    h.compositionRevision, h.stagedLearningEnabled]

/-- Sessions that agree on what may cross a boundary are indistinguishable from
it on, to a client of a converter that forgets at a purge. -/
theorem secure_boundary_noninterference (hf : Forgets answer) (h₁ : Reachable r₁)
    (h₂ : Reachable r₂) (ha : Agree r₁ r₂) {boundary : ReducerCall} (hc₁ : Crosses r₁ boundary)
    (hc₂ : Crosses r₂ boundary) (calls : List ReducerCall) :
    (execMoves answer ReducerCall.program (boundary :: calls) w₁ r₁).1.map (·.value) =
      (execMoves answer ReducerCall.program (boundary :: calls) w₂ r₂).1.map (·.value) := by
  have hexec : boundary.program.exec answer w₁ r₁ = boundary.program.exec answer w₂ r₂ := by
    cases hc₁ with
    | secureInputChanged provider hne hp =>
      cases hc₂ with
      | secureInputChanged _ hne' hp' =>
        simp only [ReducerCall.program, Prog.exec_bind]
        rw [exec_secureInputChanged hf h₁.held.coherent hne hp w₁,
          exec_secureInputChanged hf h₂.held.coherent hne' hp' w₁, ha.policy, ha.crossed]
    | pinCompositionPolicy hne hi =>
      cases hc₂ with
      | pinCompositionPolicy hne' hi' =>
        simp only [ReducerCall.program, Prog.exec_bind]
        rw [exec_pinCompositionPolicy hf hne hi w₁,
          exec_pinCompositionPolicy hf hne' hi' w₁, ha.crossed]
  simp only [execMoves, List.map_cons, hexec]

end

/-- Two compositions of other text, and then the same text behind the boundary. -/
theorem secure_boundary_noninterference_insertion :
    let left := (evaluate .standard [request (.insertText ['a']) "1"]).2.2
    let right := (evaluate .standard [request (.insertText ['b']) "2"]).2.2
    let calls := [request (.lifecycle (.secureInputChanged true)) "3",
      request (.insertText ['c']) "4", request .startConversion "5", request .commitAll "6"]
    left.session.composingText ≠ right.session.composingText ∧
      (execMoves noopConverter ReducerCall.program calls () left).1.map (·.value) =
        (execMoves noopConverter ReducerCall.program calls () right).1.map (·.value) :=
  ⟨by decide +kernel, secure_boundary_noninterference (fun _ _ => rfl) (evaluate_reachable _ _)
    (evaluate_reachable _ _) ⟨by decide +kernel, by decide +kernel, by decide +kernel,
      by decide +kernel, by decide +kernel, by decide +kernel⟩
    (.secureInputChanged _ (by decide +kernel) ⟨by decide +kernel, rfl⟩)
    (.secureInputChanged _ (by decide +kernel) ⟨by decide +kernel, rfl⟩) _⟩

end Hazkey
