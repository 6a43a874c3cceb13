import Hazkey.Conversion

/-! Policy pinning, the edits of a composition and what follows each of them. -/

namespace Hazkey

open ServiceProgram

variable [SwiftText]

/-- Whether the security domain changed. -/
def pinCompositionPolicy (policy : PinnedCompositionPolicy) : ReducerM Bool := do
  let s ← session
  if s.phase = .idle ∧ s.composingText.isEmpty = true then
    if s.policy.secureInput ≠ policy.secureInput then do
      invalidateSpeculation .secureTransition
      -- before the purge, which destroys the converter's tokens
      let _ ← resolvePendingLearning false
      purgeConverterSensitiveState
      clearSecurityDomainState
      update fun s =>
        { s with
          policy := policy
          context := { s.context with projectRevision := policy.projectRevision } }
      pure true
    else do
      update fun s =>
        { s with
          policy := policy
          context := { s.context with projectRevision := policy.projectRevision } }
      pure false
  else pure false

def pinCompositionPolicyIfNeeded (provider : Option PinnedCompositionPolicy) : ReducerM Bool := do
  let s ← session
  if s.phase = .idle ∧ s.composingText.isEmpty = true then
    match provider with
    | some policy => pinCompositionPolicy policy
    | none => pure false
  else pure false

def shouldScheduleLiveConversion (s : CompositionSession) : ReducerM Bool :=
  if s.phase = .composing ∧ s.composingText.isEmpty = false ∧ s.policy.secureInput = false ∧
      s.composingText.atEnd then
    match s.policy.autoConvertMode with
    | .disabled => pure false
    | .always => pure true
    | .forMultipleChars => do
      let display ← currentDisplay s
      pure (1 < characterCount display.text)
  else pure false

def takeReconversionReplacementEffect : ReducerM (List ClientEffect) := do
  let s ← session
  match s.reconversionReplacement with
  | none => pure []
  | some replacement => do
    update fun s => { s with reconversionReplacement := none }
    let effectID ← allocateEffectID
    pure [.deleteSurroundingText effectID replacement.before replacement.after]

/-- The visible composition with every segment's selection in place. -/
def CompositionSession.withSelectedSegments (s : CompositionSession)
    (visible : VisibleComposition) : VisibleComposition :=
  if s.segments = [] then visible
  else
    let selected := s.segments.filterMap (·.selectedCandidate)
    ⟨visible.spans, joinedTexts selected, some (utf8Count (joinedTexts selected)), selected⟩

def appendCommittedText (text : Text) : ReducerM Unit :=
  update fun s =>
    { s with
      context := if s.policy.secureInput then s.context
        else { s.context with leftContext := s.context.leftContext ++ text } }

def commitAll (learningOrigin : LearningOrigin) : ReducerM ImeReductionResult := do
  let resolvedLearning ← resolvePendingLearning true
  let s ← session
  if s.composingText.isEmpty then do
    -- a resolution is visible even with no preedit left to commit
    Prog.when resolvedLearning advanceRevision
    success []
  else do
    let reading ← currentDisplay s
    let shown ← visibleComposition s
    if (s.segments.filterMap (·.selectedCandidate)).length = s.segments.length then do
      let visible := s.withSelectedSegments shown
      invalidateSpeculation .commit
      let deleted ← takeReconversionReplacementEffect
      let effectID ← allocateEffectID
      appendCommittedText visible.text
      learn visible.learnableCandidates learningOrigin reading.text
      update fun s => { s with composingText := .empty }
      clearConversionState
      clearLivePresentation
      update fun s => { s with phase := .idle }
      advanceRevision
      endConverterComposition
      success (deleted ++ [.commitText effectID visible.text])
    else failure .invalidAction "a converted segment has no selection"

def shouldDirectCommitVisibleSuffix (s : CompositionSession) : ReducerM Bool :=
  if s.policy.directCommitTargets.isEmpty = false ∧ s.phase = .composing ∧
      s.composingText.atEnd then do
    let visible ← visibleComposition s
    match visible.text.getLast? with
    | none => pure false
    | some scalar => pure (s.policy.directCommitTargets.contains scalar)
  else pure false

def clearPendingRevision : ReducerM Unit :=
  update fun s =>
    { s with livePresentation := { s.livePresentation with pendingRevision := none } }

/-- Refreshes the window after an edit, now or after the delay of the policy. -/
def refreshAfterEdit : ReducerM ImeReductionResult := do
  let s ← session
  if s.policy.autoConvertMode = .disabled then do
    refreshPredictions
    clearPendingRevision
    advanceRevision
    success []
  else do
    let scheduled ← shouldScheduleLiveConversion s
    if scheduled then
      let delay := min s.policy.liveConversionDelayMilliseconds 1000
      if delay = 0 then do
        refreshRealtimeCandidates
        advanceRevision
        success []
      else do
        -- reserved before the checkpoint is cut, so recovery cannot reuse it
        let effectID ← allocateEffectID
        let scheduledRevision := s.revision + 1
        advanceRevision
        update fun s =>
          { s with
            livePresentation :=
              { s.livePresentation with pendingRevision := some scheduledRevision } }
        success [.scheduleLiveConversion effectID delay scheduledRevision]
    else do
      clearPendingRevision
      advanceRevision
      success []

def finishInteractiveEdit : ReducerM ImeReductionResult := do
  let s ← session
  let directCommit ← shouldDirectCommitVisibleSuffix s
  if directCommit then commitAll .directCommit
  else do
    prepareSpeculativeConversion
    refreshAfterEdit

/-! Editing. -/

def preserveMaterializedLivePrefixForEditing : ReducerM Unit := do
  let s ← session
  if s.phase = .composing ∧ s.composingText.atEnd then
    match s.candidates.bind (·.liveCandidate) with
    | none => pure ()
    | some live => materializePrefix live
  else pure ()

def insertText (text : Text) (provider : Option PinnedCompositionPolicy) :
    ReducerM ImeReductionResult := do
  let s ← session
  if text ≠ [] ∧ s.phase ≠ .selecting ∧ s.phase ≠ .unicodeInput then do
    invalidateSpeculation .edit
    let _ ← pinCompositionPolicyIfNeeded provider
    update fun s =>
      { s with
        reconversionReplacement := if s.phase = .idle then none else s.reconversionReplacement }
    let _ ← resolvePendingLearning true
    preserveMaterializedLivePrefixForEditing
    let s ← session
    Prog.when (s.candidates ≠ none) endConverterComposition
    update fun s =>
      { s with
        phase := .composing
        composingText := s.composingText.insert text .mapped s.policy.keymap }
    clearConversionState
    finishInteractiveEdit
  else failure .invalidAction "text input is not valid in the current phase"

def normalizeAfterEditing : ReducerM Unit := do
  let s ← session
  Prog.when (s.candidates ≠ none) endConverterComposition
  if s.composingText.isEmpty then do
    Prog.when (s.policy.secureInput = true) purgeConverterSensitiveState
    update fun s => { s with phase := .idle }
    clearConversionState
    clearLivePresentation
    update fun s => { s with reconversionReplacement := none }
  else do
    update fun s => { s with phase := .composing }
    clearConversionState
    let s ← session
    let valid ← validMaterializedLivePrefix s
    Prog.when (valid = none) clearLivePresentation

/-- Both ways of leaving Unicode input end in the phase of the composition. -/
def finishUnicodeInput : ReducerM Unit :=
  update fun s =>
    { s with
      unicodeInputBuffer := []
      phaseBeforeUnicodeInput := none
      phase := if s.composingText.isEmpty then .idle else .composing }

/-- `removeLast` of a nonempty text. -/
def removeLastCharacter (text : Text) : Text := (SwiftText.characters text).dropLast.flatten

def deleteBackward : ReducerM ImeReductionResult := do
  invalidateSpeculation .edit
  let _ ← resolvePendingLearning false
  let s ← session
  if s.phase = .unicodeInput then do
    if s.unicodeInputBuffer = [] then do
      finishUnicodeInput
      advanceRevision
      success []
    else do
      update fun s => { s with unicodeInputBuffer := removeLastCharacter s.unicodeInputBuffer }
      advanceRevision
      success []
  else do
    update fun s => { s with composingText := s.composingText.deleteBackward }
    normalizeAfterEditing
    finishInteractiveEdit

def deleteForward : ReducerM ImeReductionResult := do
  let _ ← resolvePendingLearning false
  let s ← session
  if s.phase ≠ .unicodeInput then do
    invalidateSpeculation .edit
    update fun s => { s with composingText := s.composingText.deleteForward }
    normalizeAfterEditing
    finishInteractiveEdit
  else failure .invalidAction "forward delete is not valid during Unicode input"

/-- The end of every cursor movement. -/
def finishCursorMovement : ReducerM ImeReductionResult := do
  endConverterComposition
  update fun s => { s with phase := .composing }
  clearLivePresentation
  clearConversionState
  finishInteractiveEdit

def moveCursor (offset : Int) : ReducerM ImeReductionResult := do
  let s ← session
  if s.phase = .composing ∨ s.phase = .previewing then do
    invalidateSpeculation .cursorMove
    let nextCursor ← converter (.inputCursorPosition s.currentInput offset)
    update fun s =>
      { s with composingText := s.composingText.moveCursor (nextCursor - s.composingText.cursor) }
    finishCursorMovement
  else failure .invalidAction "cursor movement requires a composing session"

def moveCursorToEdge (move : CompositionBuffer → CompositionBuffer) :
    ReducerM ImeReductionResult := do
  let s ← session
  if s.phase = .composing ∨ s.phase = .previewing then do
    invalidateSpeculation .cursorMove
    update fun s => { s with composingText := move s.composingText }
    finishCursorMovement
  else failure .invalidAction "edge movement requires a composing session"

def applyLiveConversion (scheduledRevision : UInt64) : ReducerM ImeReductionResult := do
  let s ← session
  if scheduledRevision = s.revision then do
    let scheduled ← shouldScheduleLiveConversion s
    if scheduled then do
      refreshRealtimeCandidates
      clearPendingRevision
      advanceRevision
      success []
    else do
      clearPendingRevision
      success []
  else success []

end Hazkey
