import Hazkey.ActionMapper
import Hazkey.ServiceEmbedding
import Hazkey.SessionClient
import Hazkey.SnapshotRenderer

/-! The adapter of one input context: it maps keys to actions of the session client, shows
the snapshots it gets, and applies their effects. -/

namespace Hazkey.SessionClient

open ServiceProgram

/-! The wire form of the actions. -/

/-- Seven bits a byte, the least significant first. -/
def varintBytes : Nat → Nat → Data
  | 0, n => [UInt8.ofNat n]
  | more + 1, n =>
    if n < 128 then [UInt8.ofNat n] else UInt8.ofNat (n % 128 + 128) :: varintBytes more (n / 128)

/-- Of at most 64 bits. -/
def varint (n : Nat) : Data := varintBytes 9 n

/-- A default is not written. -/
def varintField (field n : Nat) : Data := if n = 0 then [] else varint (field * 8) ++ varint n

/-- A negative number is written as one of 64 bits. -/
def intField (field : Nat) (value : Int) : Data := varintField field (value % 0x10000000000000000).toNat

def bytesField (field : Nat) (bytes : Data) : Data :=
  if bytes = [] then [] else varint (field * 8 + 2) ++ varint bytes.length ++ bytes

/-! What is shown of a snapshot. -/

/-- What of a snapshot the session client does not look into. -/
structure SnapshotRest where
  caretUtf8ByteOffset : Option UInt32 := none
  candidateWindow : CandidateWindowSnapshot := {}

def SessionSnapshot.shown (snapshot : SessionSnapshot) (rest : SnapshotRest) : ShownSnapshot where
  phase := snapshot.phase
  preedit := snapshot.preedit
  caretUtf8ByteOffset := rest.caretUtf8ByteOffset
  candidateWindow := rest.candidateWindow
  pendingLearning := snapshot.pendingLearning

structure CandidateList where
  items : List CandidateSnapshot
  generation : UInt64
  pageSize : Int
  globalCursorIndex : Option Int
  deriving DecidableEq

/-- A cast to the machine's int. -/
def asInt (n : UInt32) : Int := n.toInt32.toInt

def CandidateWindowSnapshot.boundedPageSize (window : CandidateWindowSnapshot) : Int :=
  max 1 (asInt window.pageSize)

/-- The index that is selected; the first one if none is. -/
def CandidateWindowSnapshot.selected (window : CandidateWindowSnapshot) : Int :=
  (window.selectedIndex.map asInt).getD 0

def candidateList (snapshot : ShownSnapshot) : Option CandidateList :=
  if snapshot.candidateWindow.items = [] then none
  else
    some
      { items := snapshot.candidateWindow.items
        generation := snapshot.candidateWindow.generation
        pageSize := snapshot.candidateWindow.boundedPageSize
        globalCursorIndex := snapshot.candidateWindow.selectedIndex.map asInt }

/-! Effects and the frontend. -/

inductive EffectBody
  | unspecified
  | commitText (text : Text)
  | deleteSurroundingText (before after : Int)
  | switchInputMode (mode : Text)
  | notify (message : Text)
  | scheduleLiveConversion (delayMsec : UInt32) (scheduledRevision : UInt64)

class EffectCodec where
  decodeEffect : Data → EffectBody

inductive Utf8String
  | valid (text : Text)
  | invalid (bytes : Data)

def Utf8String.bytes : Utf8String → Data
  | .valid text => utf8 text
  | .invalid bytes => bytes

/-- Cursor and anchor count scalars. -/
structure SurroundingText where
  text : Utf8String
  cursor : UInt32
  anchor : UInt32

structure EngineConfig where
  normalSpaceFullwidth : Bool := false
  preeditCursorPositionAtBeginning : Bool := false

structure LiveConversion where
  effectID : UInt64
  delayMsec : UInt32
  scheduledRevision : UInt64
  deriving DecidableEq

structure HazkeyState where
  server : ClientState
  snapshot : ShownSnapshot := { phase := .idle }
  protocolAvailable : Bool := true
  liveConversion : Option LiveConversion := none

/-- What the adapter asks of its surroundings: the calls of its session client, the rest of
a snapshot, the configuration, the surrounding text where the frontend has a valid one, and
the outputs. That an action is handed to the session client is noted by the model only. -/
inductive FrontendRequest
  | client (request : ClientRequest)
  | rest (snapshot : SessionSnapshot)
  | config
  | surroundingText
  | transacts (action : Action)
  | render (preedit : PanelText) (candidates : Option CandidateList)
  | resetPanel
  | auxDown (text : Text)
  | commitString (text : Text)
  | deleteSurroundingText (offset : Int) (size : Nat)
  | filter
  | filterAndAccept

@[reducible] def FrontendRequest.Answer : FrontendRequest → Type
  | .client request => request.Answer
  | .rest snapshot =>
    { rest : SnapshotRest // rest.candidateWindow.items.length = snapshot.candidateItems }
  | .config => EngineConfig
  | .surroundingText => Option SurroundingText
  | _ => Unit

abbrev frontendPort : Interface where
  Call := FrontendRequest
  Answer := FrontendRequest.Answer

abbrev FrontM := Prog frontendPort HazkeyState
abbrev FrontEvent := Event frontendPort HazkeyState

def request (c : FrontendRequest) : FrontM c.Answer := Prog.ask (I := frontendPort) c

def HazkeyState.discarded (s : HazkeyState) : HazkeyState :=
  { s with snapshot := { phase := .idle }, liveConversion := none }

def discardLocalComposition : FrontM Unit := do
  Prog.modify (·.discarded)
  request .resetPanel

def cancelLiveConversionTimer : FrontM Unit :=
  Prog.modify fun s => { s with liveConversion := none }

/-- The recovery handler of the session discards what is on show. -/
def serveClient : (c : ClientRequest) → FrontM c.Answer
  | .recoveryHandler => do
    request (.client .recoveryHandler)
    discardLocalComposition
  | .transport channel purpose frame tryConnect =>
    request (.client (.transport channel purpose frame tryConnect))
  | .othersDraw => request (.client .othersDraw)

def clientEvent (e : FrontEvent) : Option ClientEvent :=
  match e with
  | ⟨s, .client c, a⟩ => some ⟨s.server, c, a⟩
  | _ => none

def sessionHost : Host clientPort frontendPort ClientState HazkeyState where
  get := (·.server)
  put server s := { s with server := server }
  get_put _ _ := rfl
  serve := serveClient
  guest := clientEvent
  serves := by
    intro c s t a s' h
    cases c with
    | recoveryHandler =>
      obtain ⟨_, _, rfl, _, _, rfl, rfl, rfl, rfl⟩ := h
      exact ⟨rfl, rfl⟩
    | transport channel purpose frame tryConnect =>
      obtain ⟨_, _, rfl, rfl, rfl, rfl⟩ := h
      exact ⟨rfl, rfl⟩
    | othersDraw =>
      obtain ⟨_, _, rfl, rfl, rfl, rfl⟩ := h
      exact ⟨rfl, rfl⟩

/-- What the session client does inside the adapter. -/
def ofClient {α : Type} (p : ClientM α) : FrontM α := sessionHost.embed p

def inputPhaseFor : ImePhase → HazkeyInputPhase
  | .composing => .composing
  | .previewing => .previewing
  | .selecting => .selecting
  | .reconverting => .reconverting
  | .unicodeInput => .unicodeInput
  | _ => .idle

def idlePendingLearning (snapshot : ShownSnapshot) : Bool :=
  inputPhaseFor snapshot.phase = .idle && snapshot.pendingLearning

def renderV2Snapshot : FrontM Unit := do
  let config ← request .config
  let s ← Prog.read
  request (.render (renderPreedit s.snapshot config.preeditCursorPositionAtBeginning)
    (candidateList s.snapshot))

section

variable [WireCodec] [EffectCodec]

/-- The last notification is shown. -/
def applyEffect (effect : ClientEffect) (notification : Option Text) : FrontM (Option Text) := do
  let fresh ← ofClient (shouldApplyEffect effect.effectID)
  if fresh = false then pure notification
  else
    match EffectCodec.decodeEffect effect.body with
    | .commitText text => do
      request (.commitString text)
      pure notification
    | .deleteSurroundingText before after => do
      Prog.when (0 ≤ before ∧ 0 ≤ after ∧ before + after ≤ 0xFFFFFFFF)
        (request (.deleteSurroundingText (-before) (before + after).toNat))
      pure notification
    | .switchInputMode mode => pure (some ("Input mode: ".toList ++ mode))
    | .notify message => pure (some message)
    | .scheduleLiveConversion delayMsec scheduledRevision => do
      Prog.modify fun s =>
        { s with
          liveConversion := some ⟨effect.effectID, min delayMsec 1000, scheduledRevision⟩ }
      pure notification
    | .unspecified => pure notification

def applyEffects : List ClientEffect → Option Text → FrontM (Option Text)
  | [], notification => pure notification
  | effect :: effects, notification => do
    let notification ← applyEffect effect notification
    applyEffects effects notification

def showNotification : Option Text → FrontM Unit
  | none => pure ()
  | some text => request (.auxDown text)

/-- Without an answer the last confirmed snapshot stays on show. -/
def applyV2Response (response : Option ResponseEnvelope) : FrontM Bool :=
  match response with
  | none => do
    renderV2Snapshot
    pure false
  | some r =>
    match r.resultSnapshot with
    | none => pure false
    | some snapshot => do
      let rest ← request (.rest snapshot)
      Prog.modify fun s => { s with snapshot := snapshot.shown rest.1 }
      let notification ← applyEffects snapshot.effects none
      renderV2Snapshot
      showNotification notification
      pure r.trusted

def transact (action : Action) : FrontM Bool := do
  request (.transacts action)
  let response ← ofClient (transactV2 ⟨[], 0, some action⟩ true)
  applyV2Response response

def resolvePendingLearning (commit : Bool) : FrontM Bool := do
  let response ← ofClient (transactV2DurableBestEffort ⟨[], 0, some (.resolvePendingLearning commit)⟩)
  applyV2Response response

def flushDeferredActions (tryConnect requireSuccess : Bool) : FrontM Bool := do
  let flushed ← ofClient (flushPendingV2 tryConnect)
  if flushed.response.isSome = true then do
    let succeeded ← applyV2Response flushed.response
    pure (flushed.completed && (!requireSuccess || succeeded))
  else pure flushed.completed

/-! The actions. -/

def updateSurroundingContext (surrounding : Option SurroundingText) : Action :=
  .other 27 <|
    match surrounding with
    | none => []
    | some x =>
      if x.cursor.toNat ≤ 0x7FFFFFFF then bytesField 1 x.text.bytes ++ varintField 2 x.cursor.toNat
      else []

/-- Secure input has no surrounding text. -/
def readSurroundingText : FrontM (Option SurroundingText) := do
  let s ← Prog.read
  if s.server.session.context.secureInput = true then pure none else request .surroundingText

def updateSurroundingTextV2 : FrontM Unit := do
  let surrounding ← readSurroundingText
  let _ ← transact (updateSurroundingContext surrounding)
  pure ()

def transformNumber : HazkeySemanticActionKind → Int
  | .transformHiragana => 1
  | .transformKatakanaFullwidth => 2
  | .transformKatakanaHalfwidth => 3
  | .transformAlphabetFullwidth => 4
  | .transformAlphabetHalfwidth => 5
  | _ => 0

/-- None for the kinds that are not dispatched. -/
def dispatchedAction (action : HazkeySemanticAction) (insertedText : Text) : Option Action :=
  match action.kind with
  | .insertText => some (.insertText insertedText)
  | .deleteBackward => some (.other 11 [])
  | .deleteForward => some (.other 12 [])
  | .moveCursor => some (.other 13 (intField 1 action.value))
  | .moveCursorToStart => some (.other 14 (intField 1 1))
  | .moveCursorToEnd => some (.other 14 (intField 1 2))
  | .startConversion => some (.other 15 [])
  | .navigateCandidate => some (.other 16 (intField 1 action.value))
  | .navigateCandidatePage => some (.other 17 (intField 1 action.value))
  | .resizeSegment => some (.other 18 (intField 1 action.value))
  | .moveActiveSegment => some (.other 32 (intField 1 action.value))
  | .commitSelected => some (.other 19 [])
  | .commitAll => some (.other 20 [])
  | .cancel => some (.other 21 [])
  | .beginUnicodeInput => some (.other 29 [])
  | .appendUnicodeDigit => some (.other 30 (bytesField 1 (utf8 insertedText)))
  | .commitUnicodeInput => some .commitUnicodeInput
  | .selectCandidate | .forgetCandidate | .reconvert | .consume | .passThrough => none
  | kind => some (.transformActiveSegment (transformNumber kind))

def dispatchV2 (action : HazkeySemanticAction) (insertedText : Text) : FrontM Bool :=
  match dispatchedAction action insertedText with
  | none => pure false
  | some dispatched => transact dispatched

/-- None if the index is outside the list. -/
def CandidateWindowSnapshot.candidateAt (window : CandidateWindowSnapshot) (index : Int) :
    Option CandidateSnapshot :=
  if index < 0 then none else window.items[index.toNat]?

/-- A candidate is named by its id and the generation of its window. -/
def namedCandidate (field : Nat) (generation : UInt64) (item : CandidateSnapshot) : Action :=
  .other field (bytesField 1 (utf8 item.id) ++ varintField 2 generation.toNat)

def selectCandidate (generation : UInt64) (item : CandidateSnapshot) : Action :=
  namedCandidate 22 generation item

def forgetCandidate (generation : UInt64) (item : CandidateSnapshot) : Action :=
  namedCandidate 25 generation item

def transactCandidate (name : UInt64 → CandidateSnapshot → Action) (index : Int) :
    FrontM Unit := do
  let s ← Prog.read
  match s.snapshot.candidateWindow.candidateAt index with
  | none => pure ()
  | some item => do
    let _ ← transact (name s.snapshot.candidateWindow.generation item)
    pure ()

def selectV2Candidate (index : Int) : FrontM Unit := transactCandidate selectCandidate index

def forgetV2Candidate (index : Int) : FrontM Unit := transactCandidate forgetCandidate index

/-- None without a selection that is a part of a valid text. -/
def reconversion (surrounding : SurroundingText) : Option Action :=
  match surrounding.text with
  | .invalid _ => none
  | .valid text =>
    if surrounding.cursor = surrounding.anchor ∨
        text.length < max surrounding.cursor.toNat surrounding.anchor.toNat then none
    else
      some (.reconvert
        ((text.drop (min surrounding.cursor.toNat surrounding.anchor.toNat)).take
          (max surrounding.cursor.toNat surrounding.anchor.toNat -
            min surrounding.cursor.toNat surrounding.anchor.toNat))
        (text.take (min surrounding.cursor.toNat surrounding.anchor.toNat))
        (text.drop (max surrounding.cursor.toNat surrounding.anchor.toNat))
        (if surrounding.anchor < surrounding.cursor then surrounding.cursor - surrounding.anchor
          else 0)
        (if surrounding.anchor < surrounding.cursor then 0
          else surrounding.anchor - surrounding.cursor))

def reconvertV2Selection : FrontM Bool := do
  let surrounding ← readSurroundingText
  match surrounding.bind reconversion with
  | none => pure false
  | some action => transact action

/-! Keys. -/

/-- The index in the list of what a row of the selected page stands for. -/
def CandidateWindowSnapshot.rowIndex (window : CandidateWindowSnapshot) (row : Nat) : Int :=
  window.selected.tdiv window.boundedPageSize * window.boundedPageSize + row

/-- With candidates a selection key precedes what the key stands for otherwise. -/
def keyAction [Keyboard] (event : KeyEvent) (snapshot : ShownSnapshot)
    (normalSpaceFullwidth : Bool) : Option HazkeySemanticAction :=
  match if snapshot.candidateWindow.items = [] then none else selectionRow event with
  | some row =>
    some { kind := .selectCandidate, value := snapshot.candidateWindow.rowIndex row }
  | none =>
    (mapHazkeyKey event.key (inputPhaseFor snapshot.phase) normalSpaceFullwidth).or
      (if isInputableEvent event = true then some { kind := .insertText } else none)

/-- The key goes to the application, and closes the window of the learning. -/
def passThrough (before : ShownSnapshot) : FrontM Unit := do
  Prog.when (idlePendingLearning before = true) (do
    let _ ← resolvePendingLearning true
    pure ())
  request .filter

/-- A key the application gets instead must not be replayed. -/
def concludeKey (action : HazkeySemanticAction) (before : ShownSnapshot)
    (dispatchSucceeded : Bool) : FrontM Unit :=
  if shouldAcceptHazkeyDispatch action (inputPhaseFor before.phase) dispatchSucceeded = false then do
    ofClient abandonUnconfirmedInput
    discardLocalComposition
    request .filter
  else request .filterAndAccept

def insertedText [Keyboard] (event : KeyEvent) (action : HazkeySemanticAction) : Text :=
  if event.key.sym = FcitxKey.space then
    (if action.fullwidth = true then "　".toList else " ".toList)
  else Keyboard.keySymToUTF8 event.key.sym

/-- A space that is confirmed outside a composition is committed at once. -/
def insertKey [Keyboard] (event : KeyEvent) (action : HazkeySemanticAction)
    (before : ShownSnapshot) : FrontM Unit := do
  Prog.when (inputPhaseFor before.phase = .idle) updateSurroundingTextV2
  if insertedText event action = [] then passThrough before
  else do
    let succeeded ← dispatchV2 action (insertedText event action)
    Prog.when (succeeded = true ∧ inputPhaseFor before.phase = .idle ∧
      event.key.sym = FcitxKey.space) (do
        let _ ← dispatchV2 { kind := .commitAll } []
        pure ())
    concludeKey action before succeeded

def performKey [Keyboard] (event : KeyEvent) (action : HazkeySemanticAction)
    (before : ShownSnapshot) : FrontM Unit :=
  match action.kind with
  | .selectCandidate => do
    selectV2Candidate action.value
    concludeKey action before true
  | .forgetCandidate => do
    forgetV2Candidate before.candidateWindow.selected
    concludeKey action before true
  | .reconvert => do
    let succeeded ← reconvertV2Selection
    if succeeded = false then passThrough before else concludeKey action before true
  | .insertText => insertKey event action before
  | .appendUnicodeDigit => do
    let succeeded ← dispatchV2 action (Keyboard.keySymToUTF8 event.key.sym)
    concludeKey action before succeeded
  | _ => do
    let succeeded ← dispatchV2 action []
    concludeKey action before succeeded

def mapKeyEvent [Keyboard] (event : KeyEvent) : FrontM Unit := do
  let config ← request .config
  let s ← Prog.read
  match keyAction event s.snapshot config.normalSpaceFullwidth with
  | none => passThrough s.snapshot
  | some action =>
    if action.kind = .passThrough then passThrough s.snapshot
    else do
      cancelLiveConversionTimer
      if action.kind = .consume then request .filterAndAccept
      else performKey event action s.snapshot

def HazkeyClientSession.hasDeferredWork (s : HazkeyClientSession) : Bool :=
  s.journal.pending ≠ [] || s.replayedEffects ≠ []

/-- Deferred work comes before the key is mapped. -/
def recoverFirst : FrontM Bool := do
  let s ← Prog.read
  if s.server.session.hasDeferredWork = true then do
    let bounded ← flushDeferredActions false false
    if bounded = true then pure true else flushDeferredActions true false
  else pure true

/-- These keys take the learning back, and are for the application, too. -/
def interpretKey [Keyboard] (event : KeyEvent) : FrontM Unit := do
  let s ← Prog.read
  if idlePendingLearning s.snapshot = true ∧
      isPendingLearningCancellationKey event.key = true then do
    let _ ← resolvePendingLearning false
    request .filter
  else mapKeyEvent event

def keyEventV2 [Keyboard] (event : KeyEvent) : FrontM Unit :=
  if event.isRelease = true then pure ()
  else do
    let recovered ← recoverFirst
    if recovered = false then do
      Prog.modify fun s => { s with protocolAvailable := false }
      request .filterAndAccept
    else interpretKey event

end

end Hazkey.SessionClient
