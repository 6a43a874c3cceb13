import Hazkey.Session

/-! The reducer's state and what it publishes of it. -/

namespace Hazkey

open ServiceProgram

structure CachedRequest where
  action : ImeAction
  expectedRevision : Option UInt64
  result : ImeReductionResult
  deriving DecidableEq

/-- The reducer apart from its converter, which is the service its programs call. -/
structure ImeReducer where
  session : CompositionSession
  requestCache : List (Text × CachedRequest)
  requestOrder : List Text
  compositionRevision : CompositionRevision
  stagedLearningEnabled : Bool
  deriving DecidableEq

def ImeReducer.initial (session : CompositionSession) (stagedLearningEnabled : Bool) :
    ImeReducer where
  session := session
  requestCache := []
  requestOrder := []
  compositionRevision := ⟨0⟩
  stagedLearningEnabled := stagedLearningEnabled

abbrev ReducerM := Prog converterPort ImeReducer

def session : ReducerM CompositionSession := do
  let r ← Prog.read
  pure r.session

def update (f : CompositionSession → CompositionSession) : ReducerM Unit :=
  Prog.modify fun r => { r with session := f r.session }

def converter (c : ConverterCall) : ReducerM c.Answer := Prog.ask (I := converterPort) c

namespace CompositionSession

/-- The input the session hands the converter for a run of its elements. -/
def input (s : CompositionSession) (elements : List CompositionElement) (cursor : Int)
    (leftContext : Text) (targetCount : Option Nat) : CompositionInput where
  elements := elements
  cursor := cursor
  leftContext := leftContext
  targetCount := targetCount
  mappedTableName := s.policy.inputTableName

def currentInput (s : CompositionSession) : CompositionInput :=
  s.input s.composingText.elements s.composingText.cursor s.context.leftContext none

/-- A whole run of elements, read with the cursor at its end. -/
def readingInput (s : CompositionSession) (elements : List CompositionElement)
    (leftContext : Text) : CompositionInput :=
  s.input elements elements.length leftContext none

def suffixInput (s : CompositionSession) (count : Nat) : CompositionInput :=
  let boundary := min count s.composingText.elements.length
  let elements := s.composingText.elements.drop boundary
  s.input elements (min (s.composingText.cursor - boundary) elements.length : Nat)
    s.context.leftContext none

/-- The materialized prefix, unless the session no longer begins with what it was made from. -/
def matchingLivePrefix (s : CompositionSession) : Option MaterializedLivePrefix :=
  if s.policy.secureInput = false ∧ s.phase = .composing ∧ s.composingText.atEnd then
    s.livePresentation.materializedPrefix.filter fun p =>
      0 < p.consumedElementCount ∧ p.consumedElementCount ≤ s.composingText.elements.length ∧
        s.composingText.elements.take p.consumedElementCount = p.sourceElements
  else none

/-- The active segment, if the list of segments has it. -/
def activeSegment (s : CompositionSession) : Option CompositionSegment :=
  s.activeSegmentIndex.bind fun i => s.segments[i]?

end CompositionSession

def currentDisplay (s : CompositionSession) : ReducerM CompositionDisplay :=
  converter (.display s.currentInput)

def suffixDisplay (s : CompositionSession) (count : Nat) : ReducerM CompositionDisplay :=
  converter (.display (s.suffixInput count))

def validMaterializedLivePrefix (s : CompositionSession) :
    ReducerM (Option MaterializedLivePrefix) :=
  match s.matchingLivePrefix with
  | none => pure none
  | some p => do
    let reading ← converter (.display (s.readingInput p.sourceElements s.context.leftContext))
    pure (if reading.text = p.sourceReading then some p else none)

structure VisibleComposition where
  spans : List PreeditSpan
  text : Text
  caretUtf8ByteOffset : Option Nat
  learnableCandidates : List CandidateSnapshot
  deriving DecidableEq

def PreeditSpan.nonempty (spans : List PreeditSpan) : List PreeditSpan :=
  spans.filter fun span => span.text ≠ []

def PreeditSpan.joined (spans : List PreeditSpan) : Text := (spans.map (·.text)).flatten

def joinedTexts (candidates : List CandidateSnapshot) : Text :=
  (candidates.map (·.text)).flatten

/-- What is shown while a segment is active. -/
def CompositionSession.segmentedComposition (s : CompositionSession) (activeIndex : Nat) :
    VisibleComposition :=
  let spans := (s.segments.zipIdx.filterMap fun (segment, index) =>
    (segment.selectedCandidate.filter fun c => c.text ≠ []).map fun c =>
      PreeditSpan.mk c.text (if index = activeIndex then .active else .underline))
  let selected := s.segments.filterMap (·.selectedCandidate)
  { spans := spans
    text := PreeditSpan.joined spans
    caretUtf8ByteOffset := some (utf8Count
      (joinedTexts ((s.segments.take (activeIndex + 1)).filterMap (·.selectedCandidate))))
    learnableCandidates := selected }

/-- A candidate in place of the elements it consumes, before the rest. -/
def candidateWithSuffix (s : CompositionSession) (candidate : CandidateSnapshot)
    (boundary : Nat) : ReducerM VisibleComposition := do
  let suffix ← suffixDisplay s boundary
  let spans := PreeditSpan.nonempty [⟨candidate.text, .active⟩, ⟨suffix.text, .underline⟩]
  pure ⟨spans, PreeditSpan.joined spans, some (utf8Count candidate.text), [candidate]⟩

def prefixWithSuffix (s : CompositionSession) (p : MaterializedLivePrefix) :
    ReducerM VisibleComposition := do
  let suffix ← suffixDisplay s p.consumedElementCount
  let spans := PreeditSpan.nonempty [⟨p.text, .active⟩, ⟨suffix.text, .underline⟩]
  pure ⟨spans, PreeditSpan.joined spans, some (utf8Count p.text + suffix.caretUtf8ByteOffset),
    p.candidate.toList⟩

/-- The reading itself. -/
def readingComposition (s : CompositionSession) : ReducerM VisibleComposition :=
  if s.composingText.isEmpty then pure ⟨[], [], none, []⟩
  else do
    let display ← currentDisplay s
    pure ⟨PreeditSpan.nonempty [⟨display.text, .underline⟩], display.text,
      some display.caretUtf8ByteOffset, []⟩

/-- The branches of the visible composition, in the order they are tried. -/
inductive ShownBranch
  | segments (activeIndex : Nat)
  | candidate (candidate : CandidateSnapshot) (boundary : Nat)
  | reading

def CompositionSession.shownBranch (s : CompositionSession) : ShownBranch :=
  match s.activeSegmentIndex.filter (· < s.segments.length) with
  | some activeIndex => .segments activeIndex
  | none =>
    match s.candidates.bind (·.selectedCandidate) with
    | some selected => .candidate selected (s.activeBoundary.getD selected.consumingCount)
    | none =>
      match s.candidates.bind (·.liveCandidate) with
      | some live =>
        if s.phase = .composing then
          .candidate live (min (max live.consumingCount 1) s.composingText.elements.length)
        else .reading
      | none => .reading

def visibleComposition (s : CompositionSession) : ReducerM VisibleComposition :=
  match s.shownBranch with
  | .segments activeIndex => pure (s.segmentedComposition activeIndex)
  | .candidate candidate boundary => candidateWithSuffix s candidate boundary
  | .reading => do
    let p ← validMaterializedLivePrefix s
    match p with
    | some p => prefixWithSuffix s p
    | none => readingComposition s

def auxiliaryText (s : CompositionSession) (visible : VisibleComposition) :
    ReducerM (Option Text) :=
  if s.policy.secureInput = false ∧ s.composingText.isEmpty = false ∧
      (s.phase = .composing ∨ s.phase = .reconverting) then do
    let display ← currentDisplay s
    let reading := display.text
    if reading = [] then pure none
    else
      match s.policy.auxTextMode with
      | .disabled => pure none
      | .always => pure (some reading)
      | .whenCursorNotAtEnd =>
        if s.composingText.cursor < s.composingText.elements.length ∨
            s.livePresentation.pendingRevision ≠ none ∨ visible.text ≠ reading then
          pure (some reading)
        else pure none
  else pure none

/-- The preedit, the caret and the auxiliary text. -/
def presentation (s : CompositionSession) :
    ReducerM (List PreeditSpan × Option Nat × Option Text) :=
  if s.phase = .unicodeInput then do
    let display ← currentDisplay s
    let marker := 'u' :: s.unicodeInputBuffer
    pure (PreeditSpan.nonempty [⟨display.text, .underline⟩, ⟨marker, .active⟩],
      some (utf8Count display.text + utf8Count marker),
      some ("Unicode U+".toList ++ s.unicodeInputBuffer.map Char.toUpper))
  else do
    let visible ← visibleComposition s
    let aux ← auxiliaryText s visible
    pure (visible.spans, visible.caretUtf8ByteOffset, aux)

namespace CompositionSession

def candidateWindow (s : CompositionSession) : CandidateWindowSnapshot :=
  (s.candidates.map (·.snapshot)).getD .empty

def publishedRecovery (s : CompositionSession) : Option RecoveryCheckpoint :=
  if s.policy.secureInput then none else s.recoveryCheckpoint

/-- The snapshot of a session with what is shown of it. -/
def snapshotShowing (s : CompositionSession)
    (shown : List PreeditSpan × Option Nat × Option Text) (effects : List ClientEffect) :
    SessionSnapshot where
  revision := s.revision
  phase := s.phase
  preedit := shown.1
  caretUtf8ByteOffset := shown.2.1
  candidateWindow := s.candidateWindow
  aux := shown.2.2
  pendingLearning := s.pendingLearningTransactions ≠ []
  recovery := s.publishedRecovery
  effects := effects

end CompositionSession

def snapshot (effects : List ClientEffect) : ReducerM SessionSnapshot := do
  let s ← session
  let shown ← presentation s
  pure (s.snapshotShowing shown effects)

def success (effects : List ClientEffect) : ReducerM ImeReductionResult := do
  let shown ← snapshot effects
  pure ⟨.success, none, shown⟩

def failure (status : ImeReductionStatus) (message : String) : ReducerM ImeReductionResult := do
  let shown ← snapshot []
  pure ⟨status, some message, shown⟩

end Hazkey
