import Hazkey.ExecutionGate
import Hazkey.Session
import Mathlib.Data.List.AList

/-! The state of a Mozc-first hybrid converter and the changes that it makes of
it under its lock. -/

namespace Hazkey

inductive Backend
  | mozc
  | hazkey
  deriving DecidableEq, Repr

/-- H0 keeps the first candidate of Mozc; H1 is for diagnosis only. -/
inductive HybridPromotionPolicy
  | preserveMozcTop1
  | oneSidedConsensus
  deriving DecidableEq, Repr

structure CandidateRoute where
  backend : Backend
  original : ConverterCandidate
  deriving DecidableEq

structure StagedRoute where
  backend : Backend
  original : ConverterLearningToken
  deriving DecidableEq

structure PreparedStep where
  input : CompositionInput
  options : ConversionOptions
  output : ConversionOutput
  deriving DecidableEq

inductive SpeculationState
  | idle
  | pending (workID : UInt64) (context : SpeculativeConversionContext)
  | ready (workID : UInt64) (context : SpeculativeConversionContext) (step : PreparedStep)
  | frozen (revision : CompositionRevision) (context : Option SpeculativeConversionContext)
      (step : Option PreparedStep)
  deriving DecidableEq

/-- Of the diagnostics only the counts of fences and of started work are kept. -/
structure MozcFirstHybrid where
  promotionPolicy : HybridPromotionPolicy := .preserveMozcTop1
  speculationState : SpeculationState := .idle
  activeWorkCount : Int := 0
  outstandingWorkCountValue : Int := 0
  nextSpeculationWorkID : UInt64 := 1
  prefetchStarted : Int := 0
  candidateFencesAcquired : Int := 0
  candidateFencesReleased : Int := 0
  nextSourceID : UInt64 := 1
  candidateRoutes : AList fun _ : Text => CandidateRoute := ∅
  candidateRouteOrder : List Text := []
  nextLearningTokenID : UInt64 := 1
  stagedRoutes : AList fun _ : ConverterLearningToken => StagedRoute := ∅
  dirtyBackends : Finset Backend := ∅
  candidateFence : Option UInt64 := none
  candidateFencePublished : Bool := false
  candidateFenceDeferredForLearning : Bool := false

/-- The counters of work, sources and tokens skip zero when they wrap around. -/
def nextCounter (n : UInt64) : UInt64 := if n = 0xFFFFFFFFFFFFFFFF then 1 else n + 1

namespace MozcFirstHybrid

def nothingStaged (h : MozcFirstHybrid) : Bool := h.stagedRoutes.keys = []

def discardFrozenStepLocked (h : MozcFirstHybrid) : MozcFirstHybrid :=
  match h.speculationState with
  | .frozen revision context (some _) =>
    { h with speculationState := .frozen revision context none }
  | _ => h

/-- A prepared step and its fence form one capability: they go together. -/
def takeCandidateFenceLocked (h : MozcFirstHybrid) : Option UInt64 × MozcFirstHybrid :=
  let h := h.discardFrozenStepLocked
  match h.candidateFence with
  | none => (none, h)
  | some fence =>
    (some fence,
      { h with
        candidateFence := none
        candidateFencePublished := false
        candidateFenceDeferredForLearning := false
        candidateFencesReleased := h.candidateFencesReleased + 1 })

/-- Takes the fence where no learning and no window needs it. -/
def takeUnneededFence (h : MozcFirstHybrid) : Option UInt64 × MozcFirstHybrid :=
  if h.nothingStaged = true ∧ h.candidateFencePublished = false ∧
      h.candidateFenceDeferredForLearning = false then h.takeCandidateFenceLocked
  else (none, h)

/-! Speculation. The operations answer with the fence that is to be released. -/

/-- Work under a new number, in place of the speculation under way. -/
def replaceSpeculation (h : MozcFirstHybrid) (context : SpeculativeConversionContext) :
    Option UInt64 × MozcFirstHybrid :=
  let taken := h.takeUnneededFence
  (taken.1,
    { taken.2 with
      nextSpeculationWorkID := nextCounter taken.2.nextSpeculationWorkID
      prefetchStarted := taken.2.prefetchStarted + 1
      speculationState := .pending taken.2.nextSpeculationWorkID context })

/-- Whether the speculation under way is already the one asked for. -/
def speculatesFor (h : MozcFirstHybrid) (context : SpeculativeConversionContext) : Bool :=
  match h.speculationState with
  | .idle => false
  | .pending _ current => current = context
  | .ready _ current _ => current = context
  | .frozen revision _ _ => revision = context.revision

/-- The number of the work to submit, if any. -/
def prepareLocked (h : MozcFirstHybrid) (context : SpeculativeConversionContext) :
    Option UInt64 × Option UInt64 × MozcFirstHybrid :=
  if h.speculatesFor context = true then (none, none, h)
  else (some h.nextSpeculationWorkID, h.replaceSpeculation context)

def idled (h : MozcFirstHybrid) : MozcFirstHybrid := { h with speculationState := .idle }

def invalidateLocked (h : MozcFirstHybrid) (reason : SpeculationInvalidationReason) :
    Option UInt64 × MozcFirstHybrid :=
  if reason = .commit ∧ h.candidateFence ≠ none then
    (none, { h.idled with candidateFenceDeferredForLearning := true })
  else if h.candidateFencePublished = true then (none, h.idled)
  else if h.nothingStaged = true then h.idled.takeCandidateFenceLocked
  else (none, h.idled)

def unpublished (h : MozcFirstHybrid) : MozcFirstHybrid :=
  ({ h with candidateFencePublished := false }).discardFrozenStepLocked

def retireLocked (h : MozcFirstHybrid) : Option UInt64 × MozcFirstHybrid :=
  if h.candidateFencePublished = true then
    if h.unpublished.nothingStaged = true ∧
        h.unpublished.candidateFenceDeferredForLearning = false then
      h.unpublished.takeCandidateFenceLocked
    else (none, h.unpublished)
  else (none, h)

/-- What `lockCandidateOrder` leaves where there is no speculation for the revision. -/
def missLocked (h : MozcFirstHybrid) (revision : CompositionRevision) :
    Option UInt64 × MozcFirstHybrid :=
  let taken := h.takeUnneededFence
  (taken.1, { taken.2 with speculationState := .frozen revision none none })

def lockLocked (h : MozcFirstHybrid) (revision : CompositionRevision) (learningRevision : UInt64) :
    Option UInt64 × MozcFirstHybrid :=
  match h.speculationState with
  | .idle => h.missLocked revision
  | .frozen current _ _ => if current = revision then (none, h) else h.missLocked revision
  | .ready _ context step =>
    if context.revision = revision then
      if context.learningRevision = learningRevision then
        (none, { h with speculationState := .frozen revision (some context) (some step) })
      else
        ({ h with
          speculationState := .frozen revision (some context) none }).takeCandidateFenceLocked
    else h.missLocked revision
  | .pending _ context =>
    if context.revision = revision then
      (none, { h with speculationState := .frozen revision (some context) none })
    else h.missLocked revision

/-! What the worker finds and leaves. -/

def speculationIsPending (h : MozcFirstHybrid) (workID : UInt64)
    (context : SpeculativeConversionContext) : Bool :=
  h.speculationState = .pending workID context

/-- The context to work for, brought up to the learning revision. -/
def admitLocked (h : MozcFirstHybrid) (workID learningRevision : UInt64) :
    Option SpeculativeConversionContext × MozcFirstHybrid :=
  match h.speculationState with
  | .pending currentWorkID current =>
    if currentWorkID = workID then
      if current.learningRevision = learningRevision then (some current, h)
      else
        let refreshed := { current with learningRevision := learningRevision }
        (some refreshed, { h with speculationState := .pending currentWorkID refreshed })
    else (none, h)
  | _ => (none, h)

/-- Whether the fence of the work is still the worker's, to be released. -/
def completeLocked (h : MozcFirstHybrid) (workID : UInt64)
    (context : SpeculativeConversionContext) (prepared : Option (PreparedStep × Option UInt64))
    (learningRevision : UInt64) : Bool × MozcFirstHybrid :=
  if h.speculationIsPending workID context = true then
    if context.learningRevision = learningRevision then
      match prepared with
      | some (step, fence) =>
        let h := { h with speculationState := .ready workID context step }
        match fence with
        | some fence =>
          (false, { h with
            candidateFence := some fence
            candidateFencePublished := false
            candidateFenceDeferredForLearning := false
            candidateFencesAcquired := h.candidateFencesAcquired + 1 })
        | none => (false, h)
      | none => (false, { h with speculationState := .idle })
    else (true, { h with speculationState := .idle })
  else (true, h)

def frozenOutput (h : MozcFirstHybrid) (input : CompositionInput) (options : ConversionOptions) :
    Option ConversionOutput :=
  match h.speculationState with
  | .frozen _ _ (some step) =>
    if step.input = input ∧ step.options = options then some step.output else none
  | _ => none

/-! The fence of a published window. -/

def publishLocked (h : MozcFirstHybrid) : MozcFirstHybrid :=
  { h with candidateFencePublished := h.candidateFence.isSome }

def releaseUnusedLocked (h : MozcFirstHybrid) : Option UInt64 × MozcFirstHybrid :=
  if h.nothingStaged = true ∧ h.candidateFenceDeferredForLearning = false then
    h.takeCandidateFenceLocked
  else (none, h)

def releaseUnpublishedFrozenLocked (h : MozcFirstHybrid) : Option UInt64 × MozcFirstHybrid :=
  match h.speculationState with
  | .frozen _ _ _ => h.takeUnneededFence
  | _ => (none, h)

/-- Takes the fence that a finished commit has deferred. -/
def takeDeferredFence (h : MozcFirstHybrid) : Option UInt64 × MozcFirstHybrid :=
  if h.candidateFenceDeferredForLearning = true ∧ h.nothingStaged = true ∧
      Backend.hazkey ∉ h.dirtyBackends then h.takeCandidateFenceLocked
  else (none, h)

def takeDiscardedFence (h : MozcFirstHybrid) : Option UInt64 × MozcFirstHybrid :=
  if h.candidateFenceDeferredForLearning = true ∧ h.nothingStaged = true then
    h.takeCandidateFenceLocked
  else (none, h)

/-! Routes. -/

/-- A candidate under a name of this converter; only those of Hazkey can be learnt. -/
def routeLocked (h : MozcFirstHybrid) (candidate : ConverterCandidate) (backend : Backend) :
    ConverterCandidate × MozcFirstHybrid :=
  let sourceID := "hybrid-".toList ++ decimal h.nextSourceID.toNat
  ({ text := candidate.text
     annotation := candidate.annotation
     consumingCount := max 1 candidate.consumingCount
     sourceID := some sourceID
     provenance := candidate.provenance
     isLearnable := backend = .hazkey && candidate.isLearnable && candidate.sourceID.isSome },
    { h with
      nextSourceID := nextCounter h.nextSourceID
      candidateRoutes := h.candidateRoutes.insert sourceID ⟨backend, candidate⟩
      candidateRouteOrder := h.candidateRouteOrder ++ [sourceID] })

def candidateRoute (h : MozcFirstHybrid) (candidate : ConverterCandidate) :
    Option CandidateRoute :=
  candidate.sourceID.bind fun sourceID => h.candidateRoutes.lookup sourceID

def trimCandidateRoutes (h : MozcFirstHybrid) : MozcFirstHybrid :=
  let excess := h.candidateRouteOrder.length - 512
  { h with
    candidateRouteOrder := h.candidateRouteOrder.drop excess
    candidateRoutes := (h.candidateRouteOrder.take excess).foldl (fun routes sourceID =>
      routes.erase sourceID) h.candidateRoutes }

def dirty (h : MozcFirstHybrid) (backend : Backend) : MozcFirstHybrid :=
  { h with dirtyBackends := insert backend h.dirtyBackends }

def stageLocked (h : MozcFirstHybrid) (backend : Backend) (childToken : ConverterLearningToken) :
    ConverterLearningToken × MozcFirstHybrid :=
  let token : ConverterLearningToken :=
    ⟨"hybrid-learning-".toList ++ decimal h.nextLearningTokenID.toNat⟩
  (token,
    { h with
      nextLearningTokenID := nextCounter h.nextLearningTokenID
      stagedRoutes := h.stagedRoutes.insert token ⟨backend, childToken⟩
      candidateFenceDeferredForLearning := h.candidateFenceDeferredForLearning ||
        (backend = .hazkey && h.candidateFence.isSome) })

def unstageLocked (h : MozcFirstHybrid) (token : ConverterLearningToken) :
    Option StagedRoute × MozcFirstHybrid :=
  (h.stagedRoutes.lookup token, { h with stagedRoutes := h.stagedRoutes.erase token })

/-- What a purge empties before it takes the fence. -/
def emptied (h : MozcFirstHybrid) : MozcFirstHybrid :=
  { h with
    speculationState := .idle
    candidateRoutes := ∅
    candidateRouteOrder := []
    stagedRoutes := ∅
    dirtyBackends := ∅ }

def purgeLocked (h : MozcFirstHybrid) : Option UInt64 × MozcFirstHybrid :=
  h.emptied.takeCandidateFenceLocked

end MozcFirstHybrid

end Hazkey
