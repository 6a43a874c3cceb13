import Hazkey.Selection

/-! Transforms, reconversion, Unicode input, recovery and lifecycle; the
reducer itself and the request cache around it. -/

namespace Hazkey

open ServiceProgram

variable [SwiftText]

/-! Text transforms. -/

def ImeTextTransform.isAlphabet : ImeTextTransform → Bool
  | .alphabetFullwidth | .alphabetHalfwidth => true
  | .hiragana | .katakanaFullwidth | .katakanaHalfwidth => false

def transformElements (elements : List CompositionElement) (transform : ImeTextTransform) :
    List CompositionElement :=
  elements.map fun e =>
    .make (transformText e.text transform) e.composingCount .direct none none

def CompositionSession.hasConversionPresentation (s : CompositionSession) : Prop :=
  s.candidates ≠ none ∨ s.activeBoundary ≠ none ∨ s.segments ≠ [] ∨ s.activeSegmentIndex ≠ none ∨
    s.livePresentation.materializedPrefix ≠ none ∨ s.livePresentation.pendingRevision ≠ none

instance (s : CompositionSession) : Decidable s.hasConversionPresentation :=
  inferInstanceAs (Decidable (_ ∨ _ ∨ _ ∨ _ ∨ _ ∨ _))

/-- The alphabet transforms of a composition under edit work on its raw elements. -/
def transformComposition (transform : ImeTextTransform) (resolvedLearning : Bool) :
    ReducerM ImeReductionResult := do
  let s ← session
  let elements := transformElements s.composingText.elements transform
  let transformed := (elements.map (·.text)).flatten
  if transformed = [] then do
    Prog.when resolvedLearning advanceRevision
    success []
  else if transformed = s.composingText.text ∧
      (s.composingText.elements.all fun e => e.inputStyle = .direct) = true ∧
      ¬ s.hasConversionPresentation then do
    Prog.when resolvedLearning advanceRevision
    success []
  else do
    invalidateSpeculation .edit
    clearLivePresentation
    endConverterComposition
    clearConversionState
    update fun s => { s with composingText := .make elements s.composingText.cursor }
    advanceRevision
    prepareSpeculativeConversion
    success []

/-- The raw text under the active segment. -/
def CompositionSession.rawTextForActiveSegment (s : CompositionSession)
    (fallbackConsumingCount : Nat) : Text :=
  let elements := s.composingText.elements
  let fallback := ((elements.take fallbackConsumingCount).map (·.text)).flatten
  match s.activeSegmentIndex with
  | none => fallback
  | some activeIndex =>
    match s.segments[activeIndex]? with
    | none => fallback
    | some active =>
      let before := s.segments.take activeIndex
      let start := segmentsTotal before
      if (before.all fun segment => 0 < segment.inputCount) = true ∧ 0 < active.inputCount ∧
          start + active.inputCount ≤ elements.length then
        (((elements.drop start).take active.inputCount).map (·.text)).flatten
      else fallback

/-- The selected item replaced by text the converter does not know. -/
def CandidateSet.retext (c : CandidateSet) (index : Nat) (transformed : Text) : CandidateSet :=
  { c with
    items := c.items.modify index fun old =>
      { id := old.id
        text := transformed
        annotation := old.annotation
        consumingCount := old.consumingCount
        sourceID := none
        provenance := .unknown
        isLearnable := false } }

/-- The candidate set with a selected item, and its place. -/
def CompositionSession.selection (s : CompositionSession) : Option (CandidateSet × Nat) :=
  s.candidates.bind fun c => (c.selectedIndex.filter (· < c.items.length)).map fun i => (c, i)

/-- The text the transform of a selected item starts from. -/
def CompositionSession.selectedSource (s : CompositionSession) (transform : ImeTextTransform)
    (candidates : CandidateSet) (index : Nat) : Text :=
  match candidates.items[index]? with
  | none => []
  | some selected =>
    if transform.isAlphabet = true ∧ s.phase.converted then
      s.rawTextForActiveSegment selected.consumingCount
    else selected.text

def transformSelection (transform : ImeTextTransform) (resolvedLearning : Bool) :
    ReducerM ImeReductionResult := do
  clearLivePresentation
  let s ← session
  match s.selection with
  | some (candidates, index) => do
    let transformed := transformText (s.selectedSource transform candidates index) transform
    if transformed = [] then do
      Prog.when resolvedLearning advanceRevision
      success []
    else do
      invalidateSpeculation .edit
      let replaced := candidates.retext index transformed
      update fun s => { s with candidates := some replaced }
      syncActiveSegmentCandidates replaced
      retireCandidateWindowIfNoLearnableCandidateRemains
      update fun s => { s with phase := .selecting }
      advanceRevision
      success []
  | none => do
    let display ← currentDisplay s
    let transformed := transformText display.text transform
    if transformed = [] then do
      Prog.when resolvedLearning advanceRevision
      success []
    else do
      invalidateSpeculation .edit
      endConverterComposition
      clearConversionState
      update fun s =>
        { s with
          composingText := CompositionBuffer.empty.insert transformed .direct []
          phase := .composing }
      advanceRevision
      prepareSpeculativeConversion
      success []

def transformActiveSegment (transform : ImeTextTransform) : ReducerM ImeReductionResult := do
  let s ← session
  let resolvedLearning ← resolvePendingLearning (s.phase = .idle)
  if s.phase = .composing ∧ transform.isAlphabet = true then
    transformComposition transform resolvedLearning
  else transformSelection transform resolvedLearning

/-! Reconversion. -/

def reconvert (text leftContext rightContext : Text) (deleteBefore deleteAfter : Int)
    (provider : Option PinnedCompositionPolicy) : ReducerM ImeReductionResult := do
  if text ≠ [] ∧ 0 ≤ deleteBefore ∧ 0 ≤ deleteAfter then
    let replacementCount := deleteBefore + deleteAfter
    if replacementCount = 0 ∨ replacementCount = text.length then do
      let securityDomainChanged ← pinCompositionPolicyIfNeeded provider
      let s ← session
      if s.policy.secureInput = false then do
        invalidateSpeculation .edit
        let _ ← resolvePendingLearning true
        clearLivePresentation
        endConverterComposition
        update fun s =>
          { s with
            composingText := CompositionBuffer.empty.insert text .direct []
            context := { s.context with leftContext := leftContext, rightContext := rightContext }
            reconversionReplacement :=
              if 0 < replacementCount then some ⟨deleteBefore, deleteAfter⟩ else none
            phase := .reconverting }
        clearConversionState
        convert true
      else do
        -- the transition erased the previous domain, so it is published even
        -- though reconversion itself is forbidden
        Prog.when securityDomainChanged advanceRevision
        failure .secureInputViolation
          "surrounding-text reconversion is disabled for secure input"
    else failure .invalidAction "reconversion replacement range does not match selected text"
  else failure .invalidAction "reconversion text must not be empty"

/-! Unicode input. -/

def hexDigit (c : Char) : Bool :=
  (0x30 ≤ c.toNat && c.toNat ≤ 0x39) || (0x41 ≤ c.toNat && c.toNat ≤ 0x46) ||
    (0x61 ≤ c.toNat && c.toNat ≤ 0x66)

def lowercaseHexDigit (c : Char) : Bool :=
  (0x30 ≤ c.toNat && c.toNat ≤ 0x39) || (0x61 ≤ c.toNat && c.toNat ≤ 0x66)

def hexDigitValue (c : Char) : Nat :=
  if c.toNat ≤ 0x39 then c.toNat - 0x30
  else if c.toNat ≤ 0x46 then c.toNat - 0x41 + 10
  else c.toNat - 0x61 + 10

/-- `UInt32(_:radix:)` of hexadecimal digits. -/
def hexValue (buffer : Text) : Option Nat :=
  if buffer ≠ [] ∧ buffer.all hexDigit = true then
    let value := buffer.foldl (fun v c => 16 * v + hexDigitValue c) 0
    if value < 2 ^ 32 then some value else none
  else none

def unicodeScalar (value : Nat) : Option Char :=
  if value.isValidChar then some (Char.ofNat value) else none

def beginUnicodeInput (provider : Option PinnedCompositionPolicy) :
    ReducerM ImeReductionResult := do
  let s ← session
  if s.phase = .idle ∨ s.phase = .composing then do
    invalidateSpeculation .edit
    let _ ← pinCompositionPolicyIfNeeded provider
    endConverterComposition
    let _ ← resolvePendingLearning true
    clearLivePresentation
    update fun s => { s with phaseBeforeUnicodeInput := some s.phase, unicodeInputBuffer := [] }
    clearConversionState
    update fun s => { s with phase := .unicodeInput }
    advanceRevision
    success []
  else failure .invalidAction "Unicode input can begin only while idle or composing"

def appendUnicodeDigit (digit : Text) : ReducerM ImeReductionResult := do
  let s ← session
  if s.phase = .unicodeInput ∧ characterCount digit = 1 ∧ digit.all hexDigit = true ∧
      characterCount s.unicodeInputBuffer < 8 then do
    invalidateSpeculation .edit
    update fun s =>
      { s with unicodeInputBuffer := s.unicodeInputBuffer ++ digit.map Char.toLower }
    advanceRevision
    success []
  else failure .invalidAction "Unicode input requires one hexadecimal digit"

def commitUnicodeInput : ReducerM ImeReductionResult := do
  let s ← session
  if s.phase = .unicodeInput then
    match (hexValue s.unicodeInputBuffer).bind unicodeScalar with
    | none => failure .invalidAction "Unicode scalar is invalid"
    | some scalar => do
      invalidateSpeculation .edit
      update fun s => { s with composingText := s.composingText.insert [scalar] .direct [] }
      finishUnicodeInput
      advanceRevision
      prepareSpeculativeConversion
      success []
  else failure .invalidAction "Unicode scalar is invalid"

/-! Context, recovery and lifecycle. -/

def updateContext (leftContext rightContext : Text) : ReducerM ImeReductionResult := do
  let s ← session
  if s.phase = .idle then do
    invalidateSpeculation .cursorMove
    update fun s =>
      { s with
        context := { s.context with
          leftContext := if s.policy.secureInput then [] else leftContext
          rightContext := if s.policy.secureInput then [] else rightContext } }
    advanceRevision
    success []
  else failure .invalidAction "surrounding context is pinned while composing"

def CompositionElement.wellFormed (e : CompositionElement) : Bool :=
  characterCount e.text = 1 && (e.mappedIntention.map characterCount).getD 0 ≤ 1 &&
    (e.mappedInputOverride.map characterCount).getD 0 ≤ 1

def PinnedCompositionPolicy.wellFormed (p : PinnedCompositionPolicy) : Bool :=
  p.liveConversionDelayMilliseconds ≤ 1000 && p.keymap.length ≤ 4096 &&
    p.keymap.all fun (key, rule) =>
      characterCount key = 1 && characterCount rule.intention = 1 &&
        (rule.inputOverride.map characterCount).getD 0 ≤ 1

/-- The replacement deletes the text the composition was read from. -/
def ReconversionReplacement.spans (r : ReconversionReplacement) (composition : CompositionBuffer) :
    Bool :=
  0 ≤ r.before && 0 ≤ r.after && r.before ≤ 2147483647 && r.after ≤ 2147483647 &&
    r.before + r.after = composition.text.length

def validUnicodeBuffer (buffer : Text) : Bool :=
  characterCount buffer ≤ 8 && buffer.all lowercaseHexDigit

def checkpointIsWellFormed (c : RecoveryCheckpoint) : Bool :=
  let unicodeBuffer := c.unicodeInputBuffer.getD []
  c.composition.elements.all CompositionElement.wellFormed && c.policy.wellFormed &&
    (c.reconversionReplacement.all fun r => r.spans c.composition) &&
    validUnicodeBuffer unicodeBuffer &&
    (if c.phase = .unicodeInput then
      c.phaseBeforeUnicodeInput = some .idle || c.phaseBeforeUnicodeInput = some .composing
    else unicodeBuffer = [] && c.phaseBeforeUnicodeInput = none)

/-- The policy of a restored session. Recovery bytes are the client's: they may
keep a stricter policy but enable nothing the current one denies. -/
def restoredPolicy (current recovered : PinnedCompositionPolicy) : PinnedCompositionPolicy :=
  { recovered.rebindLegacySuggestionListLimit current.suggestionListLimit with
    inputTableName := current.inputTableName
    allowsLearning := current.allowsLearning && recovered.allowsLearning
    zenzaiEnabled := current.zenzaiEnabled && recovered.zenzaiEnabled
    secureInput := false }

def CompositionSession.restored (s : CompositionSession) (c : RecoveryCheckpoint) :
    CompositionSession :=
  { s with
    composingText := c.composition
    phase := if c.phase = .unicodeInput then .unicodeInput
      else if c.composition.isEmpty then .idle else .composing
    revision := c.revision
    nextCandidateGeneration := c.nextCandidateGeneration + 1
    nextEffectID := c.nextEffectID
    context := ⟨c.leftContext, c.rightContext, c.policy.projectRevision⟩
    policy := restoredPolicy s.policy c.policy
    reconversionReplacement := c.reconversionReplacement
    unicodeInputBuffer := c.unicodeInputBuffer.getD []
    phaseBeforeUnicodeInput := c.phaseBeforeUnicodeInput }

def restoreCheckpoint [RecoveryCodec] (data : Data) : ReducerM ImeReductionResult := do
  let s ← session
  if s.policy.secureInput = false then
    match RecoveryCodec.decode data with
    | none => failure .invalidAction "recovery checkpoint is malformed"
    | some c =>
      if c.policy.secureInput = false then
        if s.revision ≤ c.revision then
          if c.revision < 0xFFFFFFFFFFFFFFFF ∧ c.nextCandidateGeneration < 0xFFFFFFFFFFFFFFFF ∧
              0 < c.nextEffectID ∧ c.nextEffectID < 0xFFFFFFFFFFFFFFFF ∧
              checkpointIsWellFormed c = true then do
            invalidateSpeculation .restore
            let _ ← resolvePendingLearning false
            clearLivePresentation
            endConverterComposition
            clearConversionState
            update (·.restored c)
            advanceRevision
            prepareSpeculativeConversion
            success []
          else failure .invalidAction "recovery checkpoint contains invalid state"
        else failure .staleRevision "recovery checkpoint is stale"
      else failure .secureInputViolation "secure input checkpoints are not restorable"
  else failure .secureInputViolation "secure input sessions cannot restore checkpoints"

/-- Keeps the editable reading and drops what the converter owns. -/
def releasePresentation : ReducerM Unit := do
  clearConversionState
  clearLivePresentation
  update fun s => { s with phase := if s.composingText.isEmpty then .idle else .composing }

def lifecycle (event : ImeLifecycleEvent) : ReducerM ImeReductionResult := do
  let s ← session
  let secure := s.policy.secureInput
  match event with
  | .secureInputChanged flag =>
    if secure ≠ flag then do
      invalidateSpeculation .secureTransition
      let _ ← resolvePendingLearning false
      purgeConverterSensitiveState
      update fun s => { s with policy := { s.policy with secureInput := flag } }
      clearSecurityDomainState
      advanceRevision
      success []
    else do
      invalidateSpeculation .lifecycle
      advanceRevision
      success []
  | .deactivate | .focusChanged => do
    invalidateSpeculation .lifecycle
    if secure then do
      let _ ← resolvePendingLearning false
      purgeConverterSensitiveState
      clearSecurityDomainState
      advanceRevision
      success []
    else do
      let _ ← resolvePendingLearning true
      endConverterComposition
      releasePresentation
      advanceRevision
      success []
  | .capabilityChanged _ => do
    invalidateSpeculation .lifecycle
    advanceRevision
    success []
  | .serverRestarted => do
    invalidateSpeculation .lifecycle
    let _ ← resolvePendingLearning false
    purgeConverterSensitiveState
    if secure then do
      clearSecurityDomainState
      advanceRevision
      success []
    else do
      releasePresentation
      advanceRevision
      success []

/-- The switch of `reduce`. -/
def perform [RecoveryCodec] (action : ImeAction) (provider : Option PinnedCompositionPolicy) :
    ReducerM ImeReductionResult :=
  match action with
  | .insertText text => insertText text provider
  | .deleteBackward => deleteBackward
  | .deleteForward => deleteForward
  | .moveCursor offset => moveCursor offset
  | .moveCursorToStart => moveCursorToEdge (·.moveCursorToStart)
  | .moveCursorToEnd => moveCursorToEdge (·.moveCursorToEnd)
  | .startConversion => startConversion
  | .navigateCandidate delta => navigateCandidate delta
  | .navigateCandidatePage delta => navigateCandidatePage delta
  | .resizeSegment delta => resizeSegment delta
  | .moveActiveSegment delta => moveActiveSegment delta
  | .applyLiveConversion scheduledRevision => applyLiveConversion scheduledRevision
  | .resolvePendingLearning commit => do
    let _ ← resolvePendingLearning commit
    advanceRevision
    success []
  | .commitSelected => commitSelectedCandidate
  | .commitAll => commitAll .explicitConversion
  | .cancel => cancel
  | .selectCandidate id generation => selectCandidate id generation
  | .transformActiveSegment transform => transformActiveSegment transform
  | .forgetCandidate id generation => forgetCandidate id generation
  | .reconvert text leftContext rightContext deleteBefore deleteAfter =>
    reconvert text leftContext rightContext deleteBefore deleteAfter provider
  | .beginUnicodeInput => beginUnicodeInput provider
  | .appendUnicodeDigit digit => appendUnicodeDigit digit
  | .commitUnicodeInput => commitUnicodeInput
  | .updateContext leftContext rightContext => updateContext leftContext rightContext
  | .restoreCheckpoint data => restoreCheckpoint data
  | .lifecycle event => lifecycle event

/-! The request cache. -/

def requestCacheLimit : Nat := 128

namespace ImeReducer

/-- Drops the oldest requests until at most `limit` are left. -/
def evict (r : ImeReducer) (limit : Nat) : ImeReducer :=
  let evicted := r.requestOrder.take (r.requestOrder.length - limit)
  { r with
    requestOrder := r.requestOrder.drop (r.requestOrder.length - limit)
    requestCache := r.requestCache.filter fun entry => entry.1 ∉ evicted }

/-- Secure input needs one result for an immediate retry and keeps no more. -/
def cache (r : ImeReducer) (requestID : Text) (cached : CachedRequest) : ImeReducer :=
  if requestID = [] then r
  else
    evict
      { r with
        requestCache := (r.requestCache.filter fun entry => entry.1 ≠ requestID) ++
          [(requestID, cached)]
        requestOrder := r.requestOrder ++ [requestID] }
      (if r.session.policy.secureInput then 1 else requestCacheLimit)

end ImeReducer

def cached (result : ImeReductionResult) (action : ImeAction) (requestID : Text)
    (expectedRevision : Option UInt64) : ReducerM ImeReductionResult := do
  Prog.modify fun r => r.cache requestID ⟨action, expectedRevision, result⟩
  pure result

def reduce [RecoveryCodec] (action : ImeAction) (requestID : Text)
    (expectedRevision : Option UInt64) (provider : Option PinnedCompositionPolicy) :
    ReducerM ImeReductionResult := do
  let r ← Prog.read
  match r.requestCache.lookup requestID with
  | some entry =>
    if entry.action = action ∧ entry.expectedRevision = expectedRevision then pure entry.result
    else failure .invalidAction "request_id was reused with a different action"
  | none =>
    if (expectedRevision.all fun e => e = r.session.revision) = true then do
      let result ← perform action provider
      cached result action requestID expectedRevision
    else do
      let result ← failure .staleRevision "expected revision does not match the current session"
      cached result action requestID expectedRevision

/-! What the server does to a reducer between requests. -/

/-- Keeps the effects of the answered requests and gives them the current snapshot. -/
def rebasedRequests : List (Text × CachedRequest) → ReducerM (List (Text × CachedRequest))
  | [] => pure []
  | (requestID, entry) :: rest => do
    let shown ← snapshot entry.result.snapshot.effects
    let later ← rebasedRequests rest
    pure ((requestID, { entry with result := { entry.result with snapshot := shown } }) :: later)

def rebaseRequestCacheToCurrentSnapshot : ReducerM Unit := do
  let r ← Prog.read
  let requestCache ← rebasedRequests r.requestCache
  Prog.modify fun r => { r with requestCache := requestCache }

def invalidateCandidatesForExternalDictionaryChange : ReducerM Unit := do
  invalidateSpeculation .dictionaryChange
  let s ← session
  Prog.when (s.candidates ≠ none ∨ s.segments ≠ [] ∨
      s.livePresentation.materializedPrefix ≠ none) (do
    endConverterComposition
    clearLivePresentation
    clearConversionState
    update fun s => { s with phase := if s.composingText.isEmpty then .idle else .composing }
    advanceRevision
    rebaseRequestCacheToCurrentSnapshot)

def finalizePendingLearning (commit : Bool) : ReducerM Unit := do
  let resolved ← resolvePendingLearning commit
  Prog.when resolved (do
    advanceRevision
    rebaseRequestCacheToCurrentSnapshot)

end Hazkey
