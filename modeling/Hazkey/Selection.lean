import Hazkey.Editing

/-! Conversion, the choice of candidates and segments, commit and cancel. -/

namespace Hazkey

open ServiceProgram

variable [SwiftText]

def startConversion : ReducerM ImeReductionResult := do
  let _ ← resolvePendingLearning true
  clearLivePresentation
  let s ← session
  if s.candidates.map (·.origin) = some .prediction then do
    endConverterComposition
    clearConversionState
    convert true
  else convert true

/-- The phases in which candidates can be navigated. -/
def ImePhase.holdsCandidates (p : ImePhase) : Prop :=
  p = .composing ∨ p = .previewing ∨ p = .selecting ∨ p = .reconverting

instance (p : ImePhase) : Decidable p.holdsCandidates :=
  inferInstanceAs (Decidable (_ ∨ _ ∨ _ ∨ _))

/-- The phases in which an explicit conversion is under way. -/
def ImePhase.converted (p : ImePhase) : Prop :=
  p = .previewing ∨ p = .selecting ∨ p = .reconverting

instance (p : ImePhase) : Decidable p.converted :=
  inferInstanceAs (Decidable (_ ∨ _ ∨ _))

/-- Moves the selection by a number of items, within the window. -/
def CandidateSet.navigate (c : CandidateSet) (delta : Int) : CandidateSet :=
  { c with
    selectedIndex := some
      (min (max (c.selectedIndex.getD 0 + delta) 0) ((c.items.length : Int) - 1)).toNat }

/-- Puts a navigated candidate set in place and publishes it. -/
def selectNavigated (candidates : CandidateSet) : ReducerM ImeReductionResult := do
  lockCandidateOrder
  update fun s => { s with candidates := some candidates }
  syncActiveSegmentCandidates candidates
  update fun s =>
    { s with
      activeBoundary := if s.activeSegmentIndex = none then
          candidates.selectedCandidate.map (·.consumingCount)
        else s.activeBoundary
      phase := .selecting }
  advanceRevision
  success []

def navigateFrom (step : CandidateSet → Int) (message : String) :
    ReducerM ImeReductionResult := do
  let s ← session
  match s.candidates with
  | none => failure .invalidAction message
  | some candidates =>
    if candidates.items ≠ [] ∧ s.phase.holdsCandidates then
      selectNavigated (candidates.navigate (step candidates))
    else failure .invalidAction message

/-- A composition with no candidates to choose from yet. -/
def CompositionSession.unconverted (s : CompositionSession) : Prop :=
  s.phase = .composing ∧ (s.candidates.all fun c => c.items.isEmpty) = true

instance (s : CompositionSession) : Decidable s.unconverted :=
  inferInstanceAs (Decidable (_ ∧ _))

def navigateCandidate (delta : Int) : ReducerM ImeReductionResult := do
  clearLivePresentation
  let s ← session
  if s.unconverted then do
    endConverterComposition
    clearConversionState
    let conversion ← convert false
    if conversion.status = .success then do
      let s ← session
      if s.candidates = none then do
        advanceRevision
        success []
      else navigateFrom (fun _ => delta) "candidate navigation requires candidates"
    else pure conversion
  else navigateFrom (fun _ => delta) "candidate navigation requires candidates"

def navigateCandidatePage (delta : Int) : ReducerM ImeReductionResult := do
  clearLivePresentation
  navigateFrom (fun c => delta * max c.pageSize 1) "candidate paging requires candidates"

def selectCandidate (id : Text) (generation : UInt64) : ReducerM ImeReductionResult := do
  let s ← session
  match (s.candidates.filter fun c => c.generation = generation).bind fun c =>
      (c.items.findIdx? fun item => item.id = id).map fun i => (c, i) with
  | none => failure .staleCandidate "candidate generation or id is stale"
  | some (candidates, index) => do
    lockCandidateOrder
    let selected := { candidates with selectedIndex := some index }
    update fun s => { s with candidates := some selected }
    syncActiveSegmentCandidates selected
    clearLivePresentation
    update fun s => { s with phase := .selecting }
    advanceRevision
    success []

/-- The candidate of the window on show with an identifier. -/
def CompositionSession.candidate (s : CompositionSession) (id : Text) (generation : UInt64) :
    Option CandidateSnapshot :=
  (s.candidates.filter fun c => c.generation = generation).bind fun c =>
    c.items.find? fun item => item.id = id

def forgetCandidate (id : Text) (generation : UInt64) : ReducerM ImeReductionResult := do
  clearLivePresentation
  let s ← session
  if s.policy.secureInput = false then
    match s.candidate id generation with
    | none => failure .staleCandidate "candidate generation or id is stale"
    | some candidate =>
      if s.policy.allowsLearning = true ∧ candidate.isLearnable = true then do
        converter (.forget {
          text := candidate.text
          annotation := candidate.annotation
          consumingCount := max 1 candidate.consumingCount
          sourceID := candidate.sourceID })
        advanceRevision
        success []
      else do
        advanceRevision
        success []
  else failure .secureInputViolation "learning is disabled for secure input"

/-! Segments. -/

def moveActiveSegment (delta : Int) : ReducerM ImeReductionResult := do
  let s ← session
  match s.activeSegmentIndex with
  | none => failure .invalidAction "segment movement requires converted segments"
  | some activeIndex =>
    if s.segments ≠ [] ∧ s.phase.converted then do
      lockCandidateOrder
      activateSegment (min (max (activeIndex + delta) 0) ((s.segments.length : Int) - 1))
      update fun s => { s with phase := .selecting }
      advanceRevision
      success []
    else failure .invalidAction "segment movement requires converted segments"

/-- The phase of an unconverted composition. -/
def CompositionSession.editablePhase (s : CompositionSession) : ImePhase :=
  if s.reconversionReplacement = none then .composing else .reconverting

def legacyBoundary (activeBoundary : Option Nat) (count : Nat) (delta : Int) : Nat :=
  match activeBoundary with
  | some boundary => (min (max (boundary + delta) 1) count).toNat
  | none => if 0 < delta then 1 else (min (max (count + delta) 1) count).toNat

def resizeLegacySegment (delta : Int) : ReducerM ImeReductionResult := do
  let s ← session
  let newBoundary := legacyBoundary s.activeBoundary s.composingText.elements.length delta
  if s.activeBoundary = some newBoundary then success []
  else do
    invalidateSpeculation .segmentResize
    endConverterComposition
    update fun s => { s with activeBoundary := some newBoundary, candidates := none }
    clearSegmentedConversion
    update fun s => { s with phase := s.editablePhase }
    let s ← session
    let converted ← convertLegacy (s.phase = .reconverting) false
    if converted.status = .success then do
      update fun s => { s with phase := if s.candidates = none then s.phase else .selecting }
      advanceRevision
      success []
    else pure converted

/-- The segments a resize keeps: those before the active one. -/
def CompositionSession.keptSegments (s : CompositionSession) : List CompositionSegment :=
  if s.activeSegmentIndex.getD 0 < s.segments.length then
    s.segments.take (s.activeSegmentIndex.getD 0)
  else []

def segmentsTotal (segments : List CompositionSegment) : Nat := (segments.map (·.inputCount)).sum

def segmentsText (segments : List CompositionSegment) : Text :=
  joinedTexts (segments.filterMap (·.selectedCandidate))

/-- The selections from the kept segments on, by their offset after these; a
later entry of one offset comes first. -/
def preferredTexts (prefixTotal : Nat) :
    Nat → List CompositionSegment → List (Nat × Text) → List (Nat × Text)
  | _, [], found => found
  | start, segment :: rest, found =>
    preferredTexts prefixTotal (start + segment.inputCount) rest
      (match segment.selectedCandidate with
        | some selected => if prefixTotal ≤ start then (start - prefixTotal, selected.text) :: found
            else found
        | none => found)

/-- Rebuilds the segments from the active one on, the first at the new length. -/
def rebuildSegments (kept : List CompositionSegment) (suffix : List CompositionElement)
    (newCount : Nat) (leftContext : Text) : ReducerM ImeReductionResult := do
  let s ← session
  invalidateSpeculation .segmentResize
  endConverterComposition
  let rebuilt ← buildSegments suffix [newCount]
    (preferredTexts (segmentsTotal kept) 0 s.segments []) leftContext
  match rebuilt with
  | .ok rebuiltSuffix => do
    update fun s => { s with segments := kept ++ rebuiltSuffix }
    activateSegment (s.activeSegmentIndex.getD 0)
    retireCandidateWindowIfNoLearnableCandidateRemains
    update fun s => { s with phase := .selecting }
    advanceRevision
    success []
  | .error e => do
    update fun s => { s with phase := s.editablePhase }
    clearConversionState
    advanceRevision
    converterFailed e

def resizeSegment (delta : Int) : ReducerM ImeReductionResult := do
  let s ← session
  if s.composingText.isEmpty = false ∧ s.phase.holdsCandidates then do
    let supportsSegmentEditing ← converter .supportsSegmentEditing
    if supportsSegmentEditing then do
      let kept := s.keptSegments
      let current := s.segments[s.activeSegmentIndex.getD 0]?.map (·.inputCount)
      let leftContext := s.context.leftContext ++ segmentsText kept
      let suffix := s.composingText.elements.drop (segmentsTotal kept)
      let startingCursor := current.getD (if 0 < delta then 0 else suffix.length)
      let movedBoundary ← converter
        (.inputCursorPosition (s.input suffix startingCursor leftContext none) delta)
      let firstStableBoundary ← converter
        (.inputCursorPosition (s.input suffix 0 leftContext none) 1)
      let stableBoundary := if 0 < movedBoundary then movedBoundary else firstStableBoundary
      if 0 < stableBoundary then
        let newCount := (min stableBoundary suffix.length).toNat
        if current = some newCount then success []
        else rebuildSegments kept suffix newCount leftContext
      else success []
    else resizeLegacySegment delta
  else failure .invalidAction "segment resizing requires an active segment"

/-! Commit and cancel. -/

/-- Delivers the first elements of the composition as `text`. -/
def deliver (count : Nat) (text : Text) (candidates : List CandidateSnapshot) (reading : Text) :
    ReducerM (List ClientEffect) := do
  invalidateSpeculation .commit
  let _ ← resolvePendingLearning true
  update fun s => { s with composingText := s.composingText.removePrefix count }
  let deleted ← takeReconversionReplacementEffect
  let effectID ← allocateEffectID
  appendCommittedText text
  learn candidates .explicitConversion reading
  let s ← session
  -- an undo could only cancel a commit with no suffix left under IME control
  Prog.when (s.composingText.isEmpty = false) (do
    let _ ← resolvePendingLearning true
    pure ())
  pure (deleted ++ [.commitText effectID text])

def commitSegments (committed : List CompositionSegment) (reading : Text) :
    ReducerM ImeReductionResult := do
  let candidates := committed.filterMap (·.selectedCandidate)
  if candidates.length = committed.length then do
    let effects ← deliver (segmentsTotal committed) (joinedTexts candidates) candidates reading
    endConverterComposition
    clearConversionState
    update fun s => { s with composingText := s.composingText.moveCursorToEnd }
    let s ← session
    if s.composingText.isEmpty then do
      update fun s => { s with phase := .idle }
      advanceRevision
      success effects
    else do
      update fun s => { s with phase := .composing }
      -- best effort: a converter failure must not hide the commit
      let _ ← convert false
      advanceRevision
      success effects
  else failure .invalidAction "no candidate is selected"

def commitCandidate (candidate : CandidateSnapshot) (reading : Text) :
    ReducerM ImeReductionResult := do
  let s ← session
  let count := min candidate.consumingCount s.composingText.elements.length
  if 0 < count then do
    let effects ← deliver count candidate.text [candidate] reading
    clearConversionState
    clearLivePresentation
    update fun s =>
      { s with
        phase := if s.composingText.isEmpty then .idle else .composing
        composingText := s.composingText.moveCursorToEnd }
    advanceRevision
    let s ← session
    if s.composingText.isEmpty = false then do
      let _ ← convert false
      success effects
    else do
      endConverterComposition
      success effects
  else failure .invalidAction "candidate consumes no input"

def commitSelectedCandidate : ReducerM ImeReductionResult := do
  let s ← session
  let display ← currentDisplay s
  match s.activeSegmentIndex.filter (· < s.segments.length) with
  | some activeIndex => commitSegments (s.segments.take (activeIndex + 1)) display.text
  | none =>
    match s.candidates.bind (·.selectedCandidate) with
    | some candidate => commitCandidate candidate display.text
    | none => failure .invalidAction "no candidate is selected"

def cancel : ReducerM ImeReductionResult := do
  invalidateSpeculation .cancel
  let resolvedLearning ← resolvePendingLearning false
  clearLivePresentation
  let s ← session
  match s.phase with
  | .selecting =>
    if s.candidates.map (·.origin) = some .prediction then do
      endConverterComposition
      clearConversionState
      update fun s => { s with phase := .composing }
      advanceRevision
      prepareSpeculativeConversion
      success []
    else do
      update fun s =>
        { s with
          phase := if s.reconversionReplacement = none then .previewing else .reconverting }
      advanceRevision
      prepareSpeculativeConversion
      success []
  | .previewing => do
    endConverterComposition
    update fun s => { s with phase := .composing }
    clearConversionState
    advanceRevision
    prepareSpeculativeConversion
    success []
  | .unicodeInput => do
    finishUnicodeInput
    advanceRevision
    prepareSpeculativeConversion
    success []
  | .idle => do
    Prog.when resolvedLearning advanceRevision
    success []
  | .composing | .reconverting => do
    endConverterComposition
    update fun s => { s with composingText := .empty }
    clearConversionState
    update fun s => { s with reconversionReplacement := none, phase := .idle }
    advanceRevision
    prepareSpeculativeConversion
    success []

end Hazkey
