import Hazkey.ReducerRuns
import Hazkey.Publication

/-! Relations between the states around a program and the calls it makes. A
relation that the small steps of the reducer meet holds of all its programs. -/

namespace Hazkey

open ServiceProgram

set_option synthInstance.maxSize 400

abbrev ConverterEvent := Event converterPort ImeReducer

/-- Updates that keep what is pending and the policy. -/
class Keeps (f : CompositionSession → CompositionSession) : Prop where
  pending : ∀ s, (f s).pendingLearningTransactions = s.pendingLearningTransactions
  policy : ∀ s, (f s).policy = s.policy

instance (phase : CompositionSession → ImePhase) (composingText : CompositionSession → CompositionBuffer)
    (activeBoundary : CompositionSession → Option Nat)
    (candidates : CompositionSession → Option CandidateSet)
    (segments : CompositionSession → List CompositionSegment)
    (activeSegmentIndex : CompositionSession → Option Nat)
    (revision nextCandidateGeneration nextEffectID : CompositionSession → UInt64)
    (context : CompositionSession → SessionContext)
    (recoveryCheckpoint : CompositionSession → Option RecoveryCheckpoint)
    (reconversionReplacement : CompositionSession → Option ReconversionReplacement)
    (unicodeInputBuffer : CompositionSession → Text)
    (phaseBeforeUnicodeInput : CompositionSession → Option ImePhase)
    (livePresentation : CompositionSession → LivePresentationState) :
    Keeps fun s =>
      { s with
        phase := phase s
        composingText := composingText s
        activeBoundary := activeBoundary s
        candidates := candidates s
        segments := segments s
        activeSegmentIndex := activeSegmentIndex s
        revision := revision s
        nextCandidateGeneration := nextCandidateGeneration s
        nextEffectID := nextEffectID s
        context := context s
        recoveryCheckpoint := recoveryCheckpoint s
        reconversionReplacement := reconversionReplacement s
        unicodeInputBuffer := unicodeInputBuffer s
        phaseBeforeUnicodeInput := phaseBeforeUnicodeInput s
        livePresentation := livePresentation s } :=
  ⟨fun _ => rfl, fun _ => rfl⟩

instance : Keeps fun s => s.advanceRevision := ⟨fun _ => rfl, fun _ => rfl⟩
instance : Keeps fun s => s.clearLivePresentation := ⟨fun _ => rfl, fun _ => rfl⟩
instance : Keeps fun s => s.clearConversion := ⟨fun _ => rfl, fun _ => rfl⟩
instance : Keeps fun s => s.clearSegments := ⟨fun _ => rfl, fun _ => rfl⟩

instance (c : CandidateSet) : Keeps fun s => s.syncActiveSegment c where
  pending s := by
    unfold CompositionSession.syncActiveSegment
    repeat' split
    all_goals rfl
  policy s := by
    unfold CompositionSession.syncActiveSegment
    repeat' split
    all_goals rfl

/-- Values for the replacement that name none where there was none. -/
class Dwindles (f : CompositionSession → Option ReconversionReplacement) : Prop where
  dwindles : ∀ s, s.reconversionReplacement = none → f s = none

instance : Dwindles fun s => s.reconversionReplacement := ⟨fun _ => id⟩
instance : Dwindles fun _ => none := ⟨fun _ _ => rfl⟩

instance (c : CompositionSession → Prop) [∀ s, Decidable (c s)] :
    Dwindles fun s => if c s then none else s.reconversionReplacement where
  dwindles s h := by
    split
    · rfl
    · exact h

/-- Updates that name no text to replace. -/
class Unreplacing (f : CompositionSession → CompositionSession) : Prop where
  replacement : ∀ s, s.reconversionReplacement = none → (f s).reconversionReplacement = none

instance (phase : CompositionSession → ImePhase) (composingText : CompositionSession → CompositionBuffer)
    (activeBoundary : CompositionSession → Option Nat)
    (candidates : CompositionSession → Option CandidateSet)
    (segments : CompositionSession → List CompositionSegment)
    (activeSegmentIndex : CompositionSession → Option Nat)
    (revision nextCandidateGeneration nextEffectID : CompositionSession → UInt64)
    (context : CompositionSession → SessionContext)
    (policy : CompositionSession → PinnedCompositionPolicy)
    (recoveryCheckpoint : CompositionSession → Option RecoveryCheckpoint)
    (reconversionReplacement : CompositionSession → Option ReconversionReplacement)
    [h : Dwindles reconversionReplacement]
    (unicodeInputBuffer : CompositionSession → Text)
    (phaseBeforeUnicodeInput : CompositionSession → Option ImePhase)
    (livePresentation : CompositionSession → LivePresentationState)
    (pendingLearningTransactions : CompositionSession → List PendingLearningTransaction) :
    Unreplacing fun s =>
      { phase := phase s
        composingText := composingText s
        activeBoundary := activeBoundary s
        candidates := candidates s
        segments := segments s
        activeSegmentIndex := activeSegmentIndex s
        revision := revision s
        nextCandidateGeneration := nextCandidateGeneration s
        nextEffectID := nextEffectID s
        context := context s
        policy := policy s
        recoveryCheckpoint := recoveryCheckpoint s
        reconversionReplacement := reconversionReplacement s
        unicodeInputBuffer := unicodeInputBuffer s
        phaseBeforeUnicodeInput := phaseBeforeUnicodeInput s
        livePresentation := livePresentation s
        pendingLearningTransactions := pendingLearningTransactions s } :=
  ⟨h.dwindles⟩

instance : Unreplacing fun s => s.advanceRevision := ⟨fun _ => id⟩
instance : Unreplacing fun s => s.clearLivePresentation := ⟨fun _ => id⟩
instance : Unreplacing fun s => s.clearConversion := ⟨fun _ => id⟩
instance : Unreplacing fun s => s.clearSegments := ⟨fun _ => id⟩

instance (c : CandidateSet) : Unreplacing fun s => s.syncActiveSegment c where
  replacement s := by
    unfold CompositionSession.syncActiveSegment
    repeat' split
    all_goals exact id

/-- The calls that neither teach the converter, nor settle a staged token, nor purge. -/
def Plain : ConverterCall → Prop
  | .stageLearning _ _ | .updateLearningData _ | .commitStagedLearning _
  | .discardStagedLearning _ | .purgeSensitiveState => False
  | _ => True

abbrev ReducerRelation := ImeReducer → List ConverterEvent → ImeReducer → Prop

/-- The relations met by the updates of the session and by plain calls. -/
class Steady (R : ReducerRelation) : Prop extends Prog.Composes R where
  update : ∀ (f : CompositionSession → CompositionSession) [Keeps f] [Unreplacing f]
    (r : ImeReducer), R r [] { r with session := f r.session }
  invalidate : ∀ (r : ImeReducer) (revision : CompositionRevision),
    R r [] { r with compositionRevision := revision }
  ask : ∀ c, Plain c → ∀ r a, R r [⟨r, c, a⟩] r

/-- The relations met by the end of what is pending and by a purge, too. -/
class Settles (R : ReducerRelation) : Prop extends Steady R where
  resolve : ∀ commit, Prog.Frames R (resolvePendingLearning commit)
  purge : Prog.Frames R purgeConverterSensitiveState

/-- The relations met by the steps that change the policy, too. -/
class Admits (R : ReducerRelation) : Prop extends Settles R where
  pin : ∀ policy, Prog.Frames R (pinCompositionPolicy policy)
  transition : ∀ flag {α : Type} (p : ReducerM α), Prog.Frames R p → Prog.Frames R (do
    purgeConverterSensitiveState
    Hazkey.update fun s => { s with policy := { s.policy with secureInput := flag } }
    clearSecurityDomainState
    p)

/-- The relations met by updates that name a text to replace, too. -/
class Replaces (R : ReducerRelation) : Prop where
  replace : ∀ (f : CompositionSession → CompositionSession) [Keeps f] (r : ImeReducer),
    R r [] { r with session := f r.session }

/-- The relations met by a restore. -/
class Revives (R : ReducerRelation) : Prop where
  restore : ∀ (c : RecoveryCheckpoint) (r : ImeReducer),
    R r [] { r with session := r.session.restored c }

/-- The relations met by what a commit teaches the converter, too. -/
class Teaches (R : ReducerRelation) : Prop extends Settles R where
  learn : ∀ candidates origin reading, Prog.Frames R (learn candidates origin reading)

section

variable {α : Type} {R : ReducerRelation} [h : Steady R]

instance (f : CompositionSession → CompositionSession) [Keeps f] [Unreplacing f] :
    Prog.Frames R (update f) := Prog.frames_modify fun r => h.update f r

instance (priority := low) [hr : Replaces R] (f : CompositionSession → CompositionSession)
    [Keeps f] : Prog.Frames R (update f) := Prog.frames_modify fun r => hr.replace f r

instance : Prog.Frames R session := by
  unfold session
  infer_instance

theorem frames_converter {c : ConverterCall} (hc : Plain c) : Prog.Frames R (converter c) :=
  Prog.frames_ask fun r a => h.ask c hc r a

/-- A query makes plain calls and ends where it began. -/
theorem frames_query {p : ReducerM α} (hp : p.Asks IsDisplay) : Prog.Frames R p where
  frame s t a s' hY := by
    obtain ⟨rfl, hd⟩ := hp.yields hY
    clear hY
    induction t with
    | nil => exact h.refl _
    | cons e t ih =>
      obtain ⟨u, c, b⟩ := e
      obtain ⟨rfl, i, rfl⟩ := hd _ (List.mem_cons_self ..)
      exact h.trans u [_] u t u (h.ask (.display i) trivial u b)
        (ih fun e he => hd e (List.mem_cons_of_mem _ he))

instance :
    @Prog.Frames _ _ Bool R (converter .supportsSegmentEditing) :=
  frames_converter trivial

instance (i : CompositionInput) :
    @Prog.Frames _ _ CompositionDisplay R (converter (.display i)) :=
  frames_converter trivial

instance (i : CompositionInput) (n : Int) :
    @Prog.Frames _ _ Int R (converter (.inputCursorPosition i n)) :=
  frames_converter trivial

instance (i : CompositionInput) (o : ConversionOptions) :
    @Prog.Frames _ _ (Except String ConversionOutput) R (converter (.candidates i o)) :=
  frames_converter trivial

instance (i : CompositionInput) (o : ConversionOptions) :
    @Prog.Frames _ _ (Except String ConversionOutput) R (converter (.segmentCandidates i o)) :=
  frames_converter trivial

instance (i : CompositionInput) (o : ConversionOptions) :
    @Prog.Frames _ _ (Except String RealtimeConversionOutput) R (converter (.realtimeCandidates i o)) :=
  frames_converter trivial

instance (i : CompositionInput) (o : ConversionOptions) :
    @Prog.Frames _ _ (Except String ConversionOutput) R (converter (.predictions i o)) :=
  frames_converter trivial

instance (c : ConverterCandidate) :
    @Prog.Frames _ _ Unit R (converter (.setCompletedData c)) :=
  frames_converter trivial

instance :
    @Prog.Frames _ _ Unit R (converter .commitLearning) :=
  frames_converter trivial

instance (c : ConverterCandidate) :
    @Prog.Frames _ _ Unit R (converter (.forget c)) :=
  frames_converter trivial

instance :
    @Prog.Frames _ _ Unit R (converter .stopComposition) :=
  frames_converter trivial

instance (c : SpeculativeConversionContext) :
    @Prog.Frames _ _ Unit R (converter (.prepareSpeculativeConversion c)) :=
  frames_converter trivial

instance (c : SpeculationInvalidationReason) :
    @Prog.Frames _ _ Unit R (converter (.invalidateSpeculativeConversion c)) :=
  frames_converter trivial

instance (c : CompositionRevision) :
    @Prog.Frames _ _ Unit R (converter (.lockCandidateOrder c)) :=
  frames_converter trivial

instance :
    @Prog.Frames _ _ Unit R (converter .retireCandidateWindow) :=
  frames_converter trivial

instance (s : CompositionSession) : Prog.Frames R (presentation s) :=
  frames_query (presentation_asks s)

instance (s : CompositionSession) : Prog.Frames R (visibleComposition s) :=
  frames_query (visibleComposition_asks s)

instance (s : CompositionSession) : Prog.Frames R (validMaterializedLivePrefix s) :=
  frames_query (validMaterializedLivePrefix_asks s)

instance (s : CompositionSession) : Prog.Frames R (currentDisplay s) :=
  frames_query (currentDisplay_asks s)

instance [SwiftText] (s : CompositionSession) :
    Prog.Frames R (shouldScheduleLiveConversion s) :=
  frames_query (shouldScheduleLiveConversion_asks s)

instance (s : CompositionSession) : Prog.Frames R (shouldDirectCommitVisibleSuffix s) :=
  frames_query (shouldDirectCommitVisibleSuffix_asks s)

instance (effects : List ClientEffect) : Prog.Frames R (snapshot effects) := by
  unfold snapshot
  infer_instance

instance (effects : List ClientEffect) : Prog.Frames R (success effects) := by
  unfold success
  infer_instance

instance (status : ImeReductionStatus) (message : String) :
    Prog.Frames R (failure status message) := by
  unfold failure
  infer_instance

instance (error : String) : Prog.Frames R (converterFailed error) := by
  unfold converterFailed
  infer_instance

instance (candidates : List ConverterCandidate) :
    Prog.Frames R (completeCandidates candidates) := by
  induction candidates with
  | nil => exact Prog.frames_pure ()
  | cons c cs ih =>
    unfold completeCandidates
    infer_instance

/-! Helpers. -/

instance : Prog.Frames R advanceRevision := by
  unfold advanceRevision
  infer_instance

instance : Prog.Frames R clearLivePresentation := by
  unfold clearLivePresentation
  infer_instance

instance : Prog.Frames R allocateCandidateGeneration := by
  unfold allocateCandidateGeneration
  infer_instance

instance : Prog.Frames R allocateEffectID := by
  unfold allocateEffectID
  infer_instance

instance : Prog.Frames R clearConversionState := by
  unfold clearConversionState
  infer_instance

instance : Prog.Frames R clearSegmentedConversion := by
  unfold clearSegmentedConversion
  infer_instance

instance : Prog.Frames R clearSecurityDomainState := by
  unfold clearSecurityDomainState
  infer_instance

instance (reason : SpeculationInvalidationReason) :
    Prog.Frames R (invalidateSpeculation reason) := by
  have hcount : Prog.Frames R (Prog.modify (I := converterPort) fun r : ImeReducer =>
      { r with compositionRevision := ⟨r.compositionRevision.rawValue + 1⟩ }) :=
    Prog.frames_modify fun r => h.invalidate r _
  unfold invalidateSpeculation
  infer_instance

instance : Prog.Frames R lockCandidateOrder := by
  unfold lockCandidateOrder
  infer_instance

instance : Prog.Frames R prepareSpeculativeConversion := by
  unfold prepareSpeculativeConversion
  infer_instance

end

section

variable {α : Type} {R : ReducerRelation}

instance [h : Admits R] (policy : PinnedCompositionPolicy) :
    Prog.Frames R (pinCompositionPolicy policy) := h.pin policy

instance [h : Revives R] (c : RecoveryCheckpoint) : Prog.Frames R (update (·.restored c)) :=
  Prog.frames_modify fun r => h.restore c r

variable [h : Settles R]

instance (commit : Bool) : Prog.Frames R (resolvePendingLearning commit) := h.resolve commit

instance : Prog.Frames R purgeConverterSensitiveState := h.purge

instance : Prog.Frames R endConverterComposition := by
  unfold endConverterComposition
  infer_instance

/-! Conversion. -/

instance :
    Prog.Frames R retireCandidateWindowIfNoLearnableCandidateRemains := by
  unfold retireCandidateWindowIfNoLearnableCandidateRemains
  infer_instance

instance (c : CandidateSet) :
    Prog.Frames R (syncActiveSegmentCandidates c) := by
  unfold syncActiveSegmentCandidates
  infer_instance

instance (live : CandidateSnapshot) :
    Prog.Frames R (materializePrefix live) := by
  unfold materializePrefix
  infer_instance

instance : Prog.Frames R refreshPredictions := by
  unfold refreshPredictions
  refine .bind inferInstance fun s => ?_
  split
  · refine .bind inferInstance fun _ => .bind inferInstance fun output => ?_
    cases output <;> infer_instance
  · infer_instance

instance [SwiftText] : Prog.Frames R refreshRealtimeCandidates := by
  unfold refreshRealtimeCandidates
  refine .bind inferInstance fun s => ?_
  split
  · refine .bind inferInstance fun display => .bind inferInstance fun output => ?_
    cases output with
    | error e => infer_instance
    | ok output =>
      dsimp only
      generalize (if shouldPublishLiveCandidate s display = true then output.liveCandidate
        else none) = live
      cases live <;> infer_instance
  · infer_instance

instance (input : CompositionInput) (options : ConversionOptions) :
    Prog.Frames R (clauseCandidates input options) := by
  unfold clauseCandidates
  cases input.targetCount <;> infer_instance

instance (output : ConversionOutput) (remaining : List CompositionElement) (count : Nat)
    (left : Text) : Prog.Frames R (matchingCandidates output remaining count left) := by
  unfold matchingCandidates
  infer_instance

instance (preferred : List (Nat × Text)) (fuel offset : Nat) (forced : List Nat) (left : Text)
    (remaining : List CompositionElement) :
    Prog.Frames R (buildSegmentsFrom preferred fuel offset forced left remaining) := by
  induction fuel generalizing offset forced left remaining with
  | zero => exact Prog.frames_pure _
  | succ fuel ih =>
    unfold buildSegmentsFrom
    split
    · infer_instance
    · refine .bind inferInstance fun s => .bind inferInstance fun output => ?_
      cases output <;> infer_instance

instance (elements : List CompositionElement) (forced : List Nat)
    (preferred : List (Nat × Text)) (left : Text) :
    Prog.Frames R (buildSegments elements forced preferred left) := by
  unfold buildSegments
  infer_instance

instance (n : Int) :
    Prog.Frames R (activateSegment n) := by
  unfold activateSegment
  infer_instance

instance (isReconversion advance : Bool) :
    Prog.Frames R (convertLegacy isReconversion advance) := by
  unfold convertLegacy
  refine .bind inferInstance fun s => .bind inferInstance fun output => ?_
  cases output with
  | error e => infer_instance
  | ok output =>
    dsimp only
    split
    · infer_instance
    · infer_instance

instance (advance : Bool) : Prog.Frames R (convert advance) := by
  unfold convert
  refine .bind inferInstance fun s => ?_
  split
  · infer_instance
  · refine .bind inferInstance fun _ => .bind inferInstance fun supported => ?_
    split
    · refine .bind inferInstance fun _ => .bind inferInstance fun built => ?_
      cases built <;> infer_instance
    · infer_instance

end

/-! Relations that overlook the converter, what is pending and the cache. -/

/-- The relations met by every call and by every change of what is pending. -/
class Overlooks (R : ReducerRelation) : Prop extends Steady R where
  call : ∀ c r a, R r [⟨r, c, a⟩] r
  pend : ∀ (f : CompositionSession → List PendingLearningTransaction) (r : ImeReducer),
    R r [] { r with session := { r.session with pendingLearningTransactions := f r.session } }
  empty : ∀ r : ImeReducer, R r [] { r with requestCache := [], requestOrder := [] }

section

variable {R : ReducerRelation} [h : Overlooks R]

theorem frames_call (c : ConverterCall) : @Prog.Frames _ _ c.Answer R (converter c) :=
  Prog.frames_ask fun r a => h.call c r a

theorem frames_pend (f : CompositionSession → List PendingLearningTransaction) :
    Prog.Frames R (update fun s => { s with pendingLearningTransactions := f s }) :=
  Prog.frames_modify fun r => h.pend f r

theorem frames_resolveTransactions (commit : Bool)
    (transactions : List PendingLearningTransaction) :
    Prog.Frames R (resolveTransactions commit transactions) := by
  induction transactions with
  | nil => exact Prog.frames_pure ()
  | cons x xs ih =>
    have hcommit := frames_call (R := R) (.commitStagedLearning x.token)
    have hdiscard := frames_call (R := R) (.discardStagedLearning x.token)
    unfold resolveTransactions resolveStagedLearning
    infer_instance

theorem Overlooks.settles : Settles R where
  resolve commit := by
    have hall := frames_resolveTransactions (R := R) commit
    have hempty := frames_pend (R := R) fun _ => []
    unfold resolvePendingLearning
    infer_instance
  purge := by
    have hcall := frames_call (R := R) .purgeSensitiveState
    have hempty : Prog.Frames R (Prog.modify (I := converterPort) fun r : ImeReducer =>
        { r with requestCache := [], requestOrder := [] }) := Prog.frames_modify h.empty
    unfold purgeConverterSensitiveState clearRequestCache
    infer_instance

theorem frames_updateCandidates (candidates : List ConverterCandidate) :
    Prog.Frames R (updateCandidates candidates) := by
  induction candidates with
  | nil => exact Prog.frames_pure ()
  | cons c cs ih =>
    have hupdate := frames_call (R := R) (.updateLearningData c)
    unfold updateCandidates
    infer_instance

theorem frames_stageCandidate (origin : LearningOrigin) (reading : Text)
    (candidate : ConverterCandidate) :
    Prog.Frames R (stageCandidate origin reading candidate) := by
  have hupdate := frames_call (R := R) (.updateLearningData candidate)
  unfold stageCandidate
  refine .bind (frames_call _) fun token => ?_
  cases token with
  | none => infer_instance
  | some token => exact .bind (frames_pend _) fun _ => inferInstance

theorem frames_stageCandidates (origin : LearningOrigin) (reading : Text)
    (candidates : List ConverterCandidate) :
    Prog.Frames R (stageCandidates origin reading candidates) := by
  induction candidates with
  | nil => exact Prog.frames_pure false
  | cons c cs ih =>
    have hfirst := frames_stageCandidate (R := R) origin reading c
    unfold stageCandidates
    infer_instance

theorem Overlooks.teaches : Teaches R where
  toSettles := Overlooks.settles
  learn candidates origin reading := by
    have hupdate := frames_updateCandidates (R := R)
    have hstage := frames_stageCandidates (R := R) origin reading
    unfold learn
    dsimp only
    infer_instance

end

end Hazkey
