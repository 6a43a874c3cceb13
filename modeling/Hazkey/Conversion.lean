import Hazkey.Presentation

/-! Learning, candidate windows and the conversion of a composition into segments. -/

namespace Hazkey

open ServiceProgram

namespace CompositionSession

def clearLivePresentation (s : CompositionSession) : CompositionSession :=
  { s with livePresentation := .empty }

def clearConversion (s : CompositionSession) : CompositionSession :=
  { s with candidates := none, activeBoundary := none, segments := [], activeSegmentIndex := none }

def clearSegments (s : CompositionSession) : CompositionSession :=
  { s with segments := [], activeSegmentIndex := none }

/-- What `clearSecurityDomainState` leaves of a session. -/
def clearSecurityDomain (s : CompositionSession) : CompositionSession :=
  { s with
    composingText := .empty
    context := { s.context with leftContext := [], rightContext := [] }
    candidates := none
    activeBoundary := none
    segments := []
    activeSegmentIndex := none
    reconversionReplacement := none
    unicodeInputBuffer := []
    phaseBeforeUnicodeInput := none
    livePresentation := .empty
    recoveryCheckpoint := none
    phase := .idle }

def conversionOptions (s : CompositionSession) (leftContext : Text) : ConversionOptions where
  allowLearning := s.policy.allowsLearning && !s.policy.secureInput
  zenzaiEnabled := s.policy.zenzaiEnabled && !s.policy.secureInput
  secureInput := s.policy.secureInput
  leftContext := leftContext
  rightContext := s.context.rightContext
  suggestionListMode := s.policy.suggestionListMode
  suggestionListLimit := s.policy.suggestionListLimit

def speculativeContext (s : CompositionSession) (revision : CompositionRevision) :
    SpeculativeConversionContext where
  revision := revision
  input := s.currentInput
  options := s.conversionOptions s.context.leftContext
  projectRevision := s.policy.projectRevision

end CompositionSession

def advanceRevision : ReducerM Unit := update (·.advanceRevision)

def clearLivePresentation : ReducerM Unit := update (·.clearLivePresentation)

def allocateCandidateGeneration : ReducerM UInt64 := do
  update fun s => { s with nextCandidateGeneration := s.nextCandidateGeneration + 1 }
  let s ← session
  pure s.nextCandidateGeneration

def allocateEffectID : ReducerM UInt64 := do
  let s ← session
  update fun s => { s with nextEffectID := s.nextEffectID + 1 }
  pure s.nextEffectID

def clearRequestCache : ReducerM Unit :=
  Prog.modify fun r => { r with requestCache := [], requestOrder := [] }

def purgeConverterSensitiveState : ReducerM Unit := do
  converter .purgeSensitiveState
  clearRequestCache

def endConverterComposition : ReducerM Unit := do
  let s ← session
  if s.policy.secureInput then purgeConverterSensitiveState else converter .stopComposition

/-- Also the rollback of a half-built list of segments, so the window is
retired even when nothing of it reached the session. -/
def clearConversionState : ReducerM Unit := do
  converter .retireCandidateWindow
  update (·.clearConversion)

def clearSegmentedConversion : ReducerM Unit := do
  let s ← session
  Prog.when (s.segments ≠ []) (converter .retireCandidateWindow)
  update (·.clearSegments)

def clearSecurityDomainState : ReducerM Unit := do
  update fun s =>
    { s with
      composingText := .empty
      context := { s.context with leftContext := [], rightContext := [] } }
  clearConversionState
  update fun s =>
    { s with
      reconversionReplacement := none
      unicodeInputBuffer := []
      phaseBeforeUnicodeInput := none
      livePresentation := .empty
      recoveryCheckpoint := none
      phase := .idle }

def invalidateSpeculation (reason : SpeculationInvalidationReason) : ReducerM Unit := do
  Prog.modify fun r =>
    { r with compositionRevision := ⟨r.compositionRevision.rawValue + 1⟩ }
  converter (.invalidateSpeculativeConversion reason)

def lockCandidateOrder : ReducerM Unit := do
  let r ← Prog.read
  converter (.lockCandidateOrder r.compositionRevision)

def prepareSpeculativeConversion : ReducerM Unit := do
  let r ← Prog.read
  Prog.when (r.session.phase = .composing ∧ r.session.composingText.isEmpty = false ∧
      r.session.policy.secureInput = false ∧ r.session.composingText.atEnd)
    (converter (.prepareSpeculativeConversion (r.session.speculativeContext r.compositionRevision)))

/-! Staged learning. -/

def resolveStagedLearning (commit : Bool) (token : ConverterLearningToken) : ReducerM Unit :=
  if commit then converter (.commitStagedLearning token)
  else converter (.discardStagedLearning token)

def resolveTransactions (commit : Bool) : List PendingLearningTransaction → ReducerM Unit
  | [] => pure ()
  | transaction :: rest => do
    resolveStagedLearning commit transaction.token
    resolveTransactions commit rest

/-- Whether there was anything to resolve. -/
def resolvePendingLearning (commit : Bool) : ReducerM Bool := do
  let s ← session
  if s.pendingLearningTransactions = [] then pure false
  else do
    update fun s => { s with pendingLearningTransactions := [] }
    resolveTransactions commit s.pendingLearningTransactions
    Prog.when commit (converter .commitLearning)
    pure true

/-- The converter candidate a learnt snapshot stands for; it is learnable by default. -/
def CandidateSnapshot.learningCandidate (c : CandidateSnapshot) : ConverterCandidate where
  text := c.text
  annotation := c.annotation
  consumingCount := max 1 c.consumingCount
  sourceID := c.sourceID
  provenance := c.provenance

def completeCandidates : List ConverterCandidate → ReducerM Unit
  | [] => pure ()
  | candidate :: rest => do
    Prog.when (candidate.provenance ≠ .builtInGuard) (converter (.setCompletedData candidate))
    completeCandidates rest

/-- The path of clients that predate staged learning. -/
def updateCandidates : List ConverterCandidate → ReducerM Unit
  | [] => pure ()
  | candidate :: rest => do
    Prog.when (candidate.provenance ≠ .builtInGuard) (converter (.updateLearningData candidate))
    updateCandidates rest

def stageCandidate (origin : LearningOrigin) (reading : Text) (candidate : ConverterCandidate) :
    ReducerM Bool := do
  let token ← converter (.stageLearning candidate reading)
  match token with
  | some token => do
    update fun s =>
      { s with
        pendingLearningTransactions := s.pendingLearningTransactions ++
          [⟨token, reading, candidate.text, origin, s.revision⟩] }
    pure false
  | none =>
    if candidate.provenance ≠ .builtInGuard then do
      converter (.updateLearningData candidate)
      pure true
    else pure false

/-- Whether some candidate was learnt immediately. -/
def stageCandidates (origin : LearningOrigin) (reading : Text) :
    List ConverterCandidate → ReducerM Bool
  | [] => pure false
  | candidate :: rest => do
    let immediate ← stageCandidate origin reading candidate
    let later ← stageCandidates origin reading rest
    pure (immediate || later)

def learn (candidates : List CandidateSnapshot) (origin : LearningOrigin) (reading : Text) :
    ReducerM Unit := do
  let learnable := (candidates.filter (·.isLearnable)).map (·.learningCandidate)
  if learnable = [] then pure ()
  else do
    completeCandidates learnable
    let r ← Prog.read
    if r.session.policy.allowsLearning = true ∧ r.session.policy.secureInput = false then
      if r.stagedLearningEnabled then do
        let immediate ← stageCandidates origin reading learnable
        Prog.when immediate (converter .commitLearning)
      else do
        updateCandidates learnable
        Prog.when (learnable.any fun c => c.provenance ≠ .builtInGuard) (converter .commitLearning)
    else pure ()

/-! Candidate windows. -/

def clampCount (count : Int) (limit : Nat) : Nat := (min (max count 1) limit).toNat

def snapshotPageSize (pageSize : Int) (count : Nat) : Int := max 1 (min pageSize count)

/-- A candidate as the session keeps it, with the count of input it consumes. -/
def ConverterCandidate.toSnapshot (c : ConverterCandidate) (id : Text) (consumingCount : Nat) :
    CandidateSnapshot where
  id := id
  text := c.text
  annotation := c.annotation
  consumingCount := consumingCount
  sourceID := c.sourceID
  provenance := c.provenance
  isLearnable := c.isLearnable

/-- The identifier of `makeSnapshot`, which is also used without a generation. -/
def snapshotID (generation : UInt64) (index : Nat) : Text :=
  if generation = 0 then "realtime-".toList ++ decimal index else candidateID generation index

/-- The items of a window: each consumes at most the whole composition. -/
def windowItems (candidates : List ConverterCandidate) (id : Nat → Text) (limit : Nat) :
    List CandidateSnapshot :=
  candidates.zipIdx.map fun (candidate, index) =>
    candidate.toSnapshot (id index) (clampCount candidate.consumingCount limit)

def shouldPublishLiveCandidate (s : CompositionSession) [SwiftText] (display : CompositionDisplay) :
    Bool :=
  if s.composingText.atEnd then
    match s.policy.autoConvertMode with
    | .disabled => false
    | .always => true
    | .forMultipleChars => 1 < characterCount display.text
  else false

/-- The prefix a live candidate stands for, with the reading it was made from. -/
def materializePrefix (live : CandidateSnapshot) : ReducerM Unit := do
  let s ← session
  let consumed := min (max live.consumingCount 1) s.composingText.elements.length
  let sourceElements := s.composingText.elements.take consumed
  let reading ← converter (.display (s.readingInput sourceElements s.context.leftContext))
  update fun s =>
    { s with
      livePresentation := { s.livePresentation with
        materializedPrefix := some ⟨live.text, consumed, sourceElements, reading.text, some live⟩ } }

def refreshRealtimeCandidates [SwiftText] : ReducerM Unit := do
  let s ← session
  if s.phase = .composing ∧ s.composingText.isEmpty = false then do
    let display ← converter (.display s.currentInput)
    let output ← converter
      (.realtimeCandidates s.currentInput (s.conversionOptions s.context.leftContext))
    match output with
    | .error _ => do
      clearLivePresentation
      clearConversionState
    | .ok output => do
      let count := s.composingText.elements.length
      let live := if shouldPublishLiveCandidate s display then output.liveCandidate else none
      if output.candidates = [] ∧ live = none then do
        clearLivePresentation
        clearConversionState
      else do
        clearSegmentedConversion
        let generation ← allocateCandidateGeneration
        update fun s =>
          { s with
            candidates := some {
              generation := generation
              items := windowItems output.candidates (snapshotID generation) count
              selectedIndex := none
              pageSize := if output.candidates = [] then 0
                else snapshotPageSize output.pageSize output.candidates.length
              origin := .prediction
              liveCandidate := live.map fun c =>
                c.toSnapshot (decimal generation.toNat ++ "-live".toList)
                  (clampCount c.consumingCount count) }
            activeBoundary := none }
        match live with
        | some c =>
          materializePrefix (c.toSnapshot (snapshotID 0 0) (clampCount c.consumingCount count))
        | none =>
          update fun s =>
            { s with livePresentation := { s.livePresentation with materializedPrefix := none } }
        update fun s =>
          { s with livePresentation := { s.livePresentation with pendingRevision := none } }
  else pure ()

def refreshPredictions : ReducerM Unit := do
  let s ← session
  if s.phase = .composing ∧ s.composingText.isEmpty = false then do
    clearLivePresentation
    let output ← converter
      (.predictions s.currentInput (s.conversionOptions s.context.leftContext))
    match output with
    | .error _ => clearConversionState
    | .ok output =>
      if output.candidates = [] then do
        clearConversionState
        clearLivePresentation
      else do
        clearSegmentedConversion
        let generation ← allocateCandidateGeneration
        update fun s =>
          { s with
            candidates := some {
              generation := generation
              items := windowItems output.candidates (candidateID generation)
                s.composingText.elements.length
              selectedIndex := none
              pageSize := snapshotPageSize output.pageSize output.candidates.length
              origin := .prediction
              liveCandidate := none }
            activeBoundary := none }
  else pure ()

/-! Segments. -/

/-- Reads a candidate result for the first clause, at a forced length if there is one. -/
def clauseCandidates (input : CompositionInput) (options : ConversionOptions) :
    ReducerM (Except String ConversionOutput) :=
  match input.targetCount with
  | some _ => converter (.candidates input options)
  | none => converter (.segmentCandidates input options)

/-- The candidates of exactly the clause, or its reading when there are none. -/
def matchingCandidates (output : ConversionOutput) (remaining : List CompositionElement)
    (segmentCount : Nat) (leftContext : Text) : ReducerM (List ConverterCandidate) := do
  let found := output.candidates.filter fun c =>
    clampCount c.consumingCount remaining.length = segmentCount
  if found = [] then do
    let s ← session
    let display ← converter (.display (s.readingInput (remaining.take segmentCount) leftContext))
    pure [{ text := display.text, consumingCount := max 1 segmentCount }]
  else pure found

def segmentItems (candidates : List ConverterCandidate) (generation : UInt64)
    (segmentCount : Nat) : List CandidateSnapshot :=
  candidates.zipIdx.map fun (candidate, index) =>
    candidate.toSnapshot (candidateID generation index) segmentCount

/-- The preferred text's place among the items, the first where it has none. -/
def preferredIndex (items : List CandidateSnapshot) (preferredText : Option Text) : Nat :=
  (preferredText.bind fun text => items.findIdx? fun c => c.text = text).getD 0

/-- The loop of `buildSegments` at an offset, over what remains from there. A
pass consumes at least one element, so their number bounds the passes. -/
def buildSegmentsFrom (preferredTexts : List (Nat × Text)) :
    Nat → Nat → List Nat → Text → List CompositionElement →
      ReducerM (Except String (List CompositionSegment))
  | 0, _, _, _, _ => pure (.ok [])
  | fuel + 1, offset, forced, leftContext, remaining =>
    if remaining = [] then pure (.ok [])
    else do
      let s ← session
      let forcedCount := forced.head?.map fun f => min (max f 1) remaining.length
      let output ← clauseCandidates
        (s.input remaining remaining.length leftContext forcedCount)
        (s.conversionOptions leftContext)
      match output with
      | .error e => pure (.error e)
      | .ok output => do
        let segmentCount := forcedCount.getD (clampCount
          ((output.candidates.head?.map (·.consumingCount)).getD remaining.length) remaining.length)
        let found ← matchingCandidates output remaining segmentCount leftContext
        let generation ← allocateCandidateGeneration
        let items := segmentItems found generation segmentCount
        let selectedIndex := preferredIndex items (preferredTexts.lookup offset)
        let candidates : CandidateSet := {
          generation := generation
          items := items
          selectedIndex := some selectedIndex
          pageSize := snapshotPageSize output.pageSize items.length
          origin := .conversion
          liveCandidate := none }
        let rest ← buildSegmentsFrom preferredTexts fuel (offset + segmentCount) forced.tail
          (leftContext ++ ((candidates.selectedCandidate.map (·.text)).getD []))
          (remaining.drop segmentCount)
        pure (rest.map fun segments => ⟨segmentCount, candidates⟩ :: segments)

def buildSegments (elements : List CompositionElement) (forcedLeadingCounts : List Nat)
    (preferredTextsByStart : List (Nat × Text)) (initialLeftContext : Text) :
    ReducerM (Except String (List CompositionSegment)) :=
  buildSegmentsFrom preferredTextsByStart elements.length 0 forcedLeadingCounts
    initialLeftContext elements

def activateSegment (requestedIndex : Int) : ReducerM Unit := do
  let s ← session
  if s.segments = [] then clearConversionState
  else
    update fun s =>
      let index := (min (max requestedIndex 0) (s.segments.length - 1 : Nat)).toNat
      { s with
        activeSegmentIndex := some index
        candidates := s.segments[index]?.map (·.candidates)
        activeBoundary := s.segments[index]?.map (·.inputCount) }

/-- Puts a changed candidate set back into the active segment. -/
def CompositionSession.syncActiveSegment (s : CompositionSession) (candidates : CandidateSet) :
    CompositionSession :=
  match s.activeSegmentIndex with
  | none => s
  | some index =>
    match s.segments[index]? with
    | none => s
    | some segment =>
      { s with
        segments := s.segments.set index { segment with candidates := candidates }
        activeBoundary := some segment.inputCount }

def syncActiveSegmentCandidates (candidates : CandidateSet) : ReducerM Unit :=
  update (·.syncActiveSegment candidates)

def retireCandidateWindowIfNoLearnableCandidateRemains : ReducerM Unit := do
  let s ← session
  let active := (s.candidates.map fun c => c.items.any (·.isLearnable)).getD false
  let segmented := s.segments.any fun segment => segment.candidates.items.any (·.isLearnable)
  Prog.when (active = false ∧ segmented = false) (converter .retireCandidateWindow)

def converterFailed (error : String) : ReducerM ImeReductionResult :=
  failure .converterUnavailable ("converter failed: " ++ error)

def phaseAfterConversion (isReconversion : Bool) (phase : ImePhase) : ImePhase :=
  if isReconversion then .reconverting else phase

/-- The path of converters without segments. -/
def convertLegacy (isReconversion advance : Bool) : ReducerM ImeReductionResult := do
  let s ← session
  let output ← converter (.candidates
    (s.input s.composingText.elements s.composingText.cursor s.context.leftContext
      s.activeBoundary)
    (s.conversionOptions s.context.leftContext))
  match output with
  | .error e => do
    endConverterComposition
    update fun s => { s with phase := phaseAfterConversion isReconversion .composing }
    clearConversionState
    Prog.when advance advanceRevision
    converterFailed e
  | .ok output =>
    if output.candidates = [] then do
      endConverterComposition
      update fun s => { s with phase := phaseAfterConversion isReconversion .composing }
      clearConversionState
      Prog.when advance advanceRevision
      success []
    else do
      let generation ← allocateCandidateGeneration
      let items := windowItems output.candidates (snapshotID generation)
        s.composingText.elements.length
      update fun s =>
        { s with
          activeBoundary := items.head?.map (·.consumingCount)
          candidates := some {
            generation := generation
            items := items
            selectedIndex := some 0
            pageSize := snapshotPageSize output.pageSize items.length
            origin := .conversion
            liveCandidate := none } }
      clearSegmentedConversion
      update fun s => { s with phase := phaseAfterConversion isReconversion .previewing }
      Prog.when advance advanceRevision
      success []

def convert (advance : Bool) : ReducerM ImeReductionResult := do
  let s ← session
  let isReconversion := decide (s.phase = .reconverting)
  if s.composingText.isEmpty then do
    update fun s => { s with phase := .idle }
    clearConversionState
    Prog.when advance advanceRevision
    success []
  else do
    lockCandidateOrder
    let supportsSegmentEditing ← converter .supportsSegmentEditing
    if supportsSegmentEditing then do
      endConverterComposition
      let built ← buildSegments s.composingText.elements [] [] s.context.leftContext
      match built with
      | .ok segments => do
        update fun s => { s with segments := segments }
        activateSegment 0
        update fun s =>
          { s with
            composingText := s.composingText.moveCursorToEnd
            phase := phaseAfterConversion isReconversion .previewing }
        Prog.when advance advanceRevision
        success []
      | .error e => do
        endConverterComposition
        update fun s => { s with phase := phaseAfterConversion isReconversion .composing }
        clearConversionState
        Prog.when advance advanceRevision
        converterFailed e
    else convertLegacy isReconversion advance

end Hazkey
