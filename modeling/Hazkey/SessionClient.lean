import Hazkey.RecoveryJournal
import Hazkey.ServiceRuns

/-! The session client of the addon: one input context's session on the server, its
recovery journal, and the programs that exchange its frames. -/

namespace Hazkey.SessionClient

open ServiceProgram

structure HazkeyClientContextTransition where
  contextChanged : Bool
  enteredSecure : Bool
  clearPreedit : Bool
  reopenSession : Bool
  allowSurroundingText : Bool

def evaluateHazkeyClientContextTransition (previous next : ClientContext) :
    HazkeyClientContextTransition where
  contextChanged := previous ≠ next
  enteredSecure := !previous.secureInput && next.secureInput
  clearPreedit := previous.secureInput ≠ next.secureInput || previous.program ≠ next.program
  reopenSession := previous ≠ next
  allowSurroundingText := !next.secureInput

structure HazkeyProtocolCapabilities where
  protocolVersion : UInt32 := 1
  featureBits : UInt64 := 0
  maxSnapshotVersion : UInt32 := 0
  recoverySupport : Bool := false
  idempotentRequestSupport : Bool := false
  persistentLearningAvailable : Option Bool := none
  deriving DecidableEq

def HazkeyProtocolCapabilities.supportsV2 (c : HazkeyProtocolCapabilities) : Bool :=
  2 ≤ c.protocolVersion && c.idempotentRequestSupport

/-- The map of a server's effect ids into the client's own sequence. -/
structure EffectNamespace where
  hasEffectNamespaceAnchor : Bool := false
  rawEffectAnchor : UInt64 := 0
  globalEffectAnchor : UInt64 := 0
  highestRawEffectID : UInt64 := 0
  deriving DecidableEq

structure HazkeyClientSession where
  context : ClientContext
  id : Text := []
  capabilities : HazkeyProtocolCapabilities := {}
  revision : UInt64 := 0
  effectLedger : HazkeyEffectLedger := {}
  effectNamespace : EffectNamespace := {}
  nextGlobalEffectID : UInt64 := 1
  journal : HazkeyRecoveryJournal := {}
  replayedEffects : List ClientEffect := []
  recoveryCheckpoint : Data := []
  fallbackComposition : Text := []
  reconversionFallbackUnsafe : Bool := false
  unicodeFallbackUnsafe : Bool := false
  directFallbackUnsafe : Bool := false
  presentationFallbackUnsafe : Bool := false
  hasRecoveryHandler : Bool := true
  deriving DecidableEq

namespace HazkeyClientSession

def clearReplayedEffects (s : HazkeyClientSession) : HazkeyClientSession :=
  { s with replayedEffects := [] }

def clearEffects (s : HazkeyClientSession) : HazkeyClientSession :=
  { s with
    effectNamespace := {}
    nextGlobalEffectID := 1
    effectLedger := {}
    replayedEffects := [] }

def beginFreshEffectNamespace (s : HazkeyClientSession) : HazkeyClientSession :=
  { s with effectNamespace := {} }

def isLocalTextFallbackSemanticallySafe (s : HazkeyClientSession) : Bool :=
  !s.reconversionFallbackUnsafe && !s.unicodeFallbackUnsafe

def canUseStoredTextFallback (s : HazkeyClientSession) : Bool :=
  s.fallbackComposition ≠ [] && s.isLocalTextFallbackSemanticallySafe &&
    !s.directFallbackUnsafe && !s.presentationFallbackUnsafe

def withSafeFallback (s : HazkeyClientSession) : HazkeyClientSession :=
  { s with
    reconversionFallbackUnsafe := false
    unicodeFallbackUnsafe := false
    directFallbackUnsafe := false
    presentationFallbackUnsafe := false }

def holdsRecoveryMaterial (s : HazkeyClientSession) : Bool :=
  s.recoveryCheckpoint ≠ [] || s.fallbackComposition ≠ []

def bound (s : HazkeyClientSession) (id : Text) (revision : UInt64) : HazkeyClientSession :=
  { s with id := id, revision := revision }

def withRevision (s : HazkeyClientSession) (revision : UInt64) : HazkeyClientSession :=
  { s with revision := revision }

def withJournal (s : HazkeyClientSession) (journal : HazkeyRecoveryJournal) :
    HazkeyClientSession :=
  { s with journal := journal }

def withNamespace (s : HazkeyClientSession) (effectNamespace : EffectNamespace) :
    HazkeyClientSession :=
  { s with effectNamespace := effectNamespace }

def opened (s : HazkeyClientSession) (result : OpenSessionResult) : HazkeyClientSession :=
  { s with
    id := result.sessionID
    capabilities :=
      { protocolVersion := if result.protocolVersion = 0 then 1 else result.protocolVersion
        featureBits := result.featureBits
        maxSnapshotVersion := result.maxSnapshotVersion
        recoverySupport := result.recoverySupport
        idempotentRequestSupport := result.idempotentRequestSupport
        persistentLearningAvailable := result.persistentLearningAvailable }
    revision := 0 }

def inContext (s : HazkeyClientSession) (context : ClientContext) : HazkeyClientSession :=
  { s with context := context }

/-- Forgets what could bring the input back. -/
def cleared (s : HazkeyClientSession) : HazkeyClientSession :=
  { s.withSafeFallback.clearEffects with
    recoveryCheckpoint := []
    fallbackComposition := []
    journal := s.journal.clear }

def hasPendingLearningResolution [WireCodec] (s : HazkeyClientSession) : Bool :=
  s.journal.pending.any fun x =>
    ((WireCodec.parseAction x.serializedAction).bind (·.learningDecision)).isSome

/-- The first decision that is journaled. -/
def journaledDecision [WireCodec] (s : HazkeyClientSession) : Option Bool :=
  s.journal.pending.findSome? fun x =>
    (WireCodec.parseAction x.serializedAction).bind (·.learningDecision)

/-! Effects. -/

/-- The first id that is seen of a namespace becomes its anchor. -/
def anchored (s : HazkeyClientSession) (rawID : UInt64) : EffectNamespace :=
  if s.effectNamespace.hasEffectNamespaceAnchor then s.effectNamespace
  else
    { s.effectNamespace with
      hasEffectNamespaceAnchor := true
      rawEffectAnchor := rawID
      globalEffectAnchor := s.nextGlobalEffectID }

/-- The id of an effect in the client's sequence; zero for one that must not be applied. -/
def normalizeEffect (s : HazkeyClientSession) (effect : ClientEffect) :
    ClientEffect × HazkeyClientSession :=
  let rawID := effect.effectID
  if rawID = 0 then (effect, s)
  else
    let anchored := s.anchored rawID
    if rawID < anchored.rawEffectAnchor then
      ({ effect with effectID := 0 }, s.withNamespace anchored)
    else
      let delta := rawID - anchored.rawEffectAnchor
      if 0xFFFFFFFFFFFFFFFF - anchored.globalEffectAnchor < delta then
        ({ effect with effectID := 0 }, s.withNamespace anchored)
      else
        let globalID := anchored.globalEffectAnchor + delta
        ({ effect with effectID := globalID },
          { s with
            effectNamespace :=
              { anchored with highestRawEffectID := max anchored.highestRawEffectID rawID }
            nextGlobalEffectID :=
              if globalID = 0xFFFFFFFFFFFFFFFF then globalID
              else max s.nextGlobalEffectID (globalID + 1) })

def normalizeEffects : List ClientEffect → HazkeyClientSession →
    List ClientEffect × HazkeyClientSession
  | [], s => ([], s)
  | effect :: effects, s =>
    let first := s.normalizeEffect effect
    let rest := normalizeEffects effects first.2
    (first.1 :: rest.1, rest.2)

end HazkeyClientSession

/-- The effects of a response, of whichever kind it is. -/
def responseEffects (response : ResponseEnvelope) : List ClientEffect :=
  match response.payload with
  | .sessionSnapshot snapshot => snapshot.effects
  | .handleImeActionResult result => (result.snapshot.map (·.effects)).getD []
  | _ => []

/-- The effects a caller finds in the result of an action. -/
def resultEffects (response : ResponseEnvelope) : List ClientEffect :=
  (response.resultSnapshot.map (·.effects)).getD []

namespace HazkeyClientSession

def normalizeEffectIDs (s : HazkeyClientSession) (response : ResponseEnvelope) :
    ResponseEnvelope × HazkeyClientSession :=
  let normalized := normalizeEffects (responseEffects response) s
  (response.mapSnapshot (·.withEffects normalized.1), normalized.2)

def collectResponseEffects (s : HazkeyClientSession) (response : ResponseEnvelope) :
    HazkeyClientSession :=
  { s with replayedEffects := s.replayedEffects ++ resultEffects response }

/-- Puts the effects that were collected before those of the response, if it has a
snapshot to carry them. -/
def attachReplayedEffects (s : HazkeyClientSession) (response : ResponseEnvelope) :
    ResponseEnvelope × HazkeyClientSession :=
  if s.replayedEffects = [] ∨ response.resultSnapshot = none then (response, s)
  else
    (response.mapResult fun x => x.withEffects (s.replayedEffects ++ x.effects),
      s.clearReplayedEffects)

/-! Snapshots. -/

def reconverts (snapshotAction : HandleImeAction) : Bool :=
  match snapshotAction.action with
  | some (.reconvert ..) => true
  | _ => false

def surfaces (snapshotAction : HandleImeAction) : Bool :=
  match snapshotAction.action with
  | some .commitUnicodeInput | some (.transformActiveSegment _) => true
  | _ => false

/-- Whether a text fallback would show what the snapshot shows. -/
def withFallbackGuards (s : HazkeyClientSession) (snapshot : SessionSnapshot)
    (snapshotAction : HandleImeAction) : HazkeyClientSession :=
  { s with
    reconversionFallbackUnsafe :=
      if snapshot.phase = .idle then false
      else if reconverts snapshotAction = true ∨ snapshot.phase = .reconverting then true
      else s.reconversionFallbackUnsafe
    directFallbackUnsafe :=
      if snapshot.phase = .idle then false
      else if surfaces snapshotAction = true then true
      else s.directFallbackUnsafe
    unicodeFallbackUnsafe := snapshot.phase = .unicodeInput
    presentationFallbackUnsafe :=
      snapshot.phase ≠ .composing || snapshot.candidateItems ≠ 0 ||
        snapshot.preedit.any fun span => span.style = .active }

/-- Secure text is not kept; the rest replaces what was kept before. -/
def withRecoveryMaterial [WireCodec] (s : HazkeyClientSession) (snapshot : SessionSnapshot) :
    HazkeyClientSession :=
  if s.context.secureInput then
    { s with
      recoveryCheckpoint := []
      fallbackComposition := []
      journal := s.journal.confirmSnapshot [] }
  else
    { s with
      recoveryCheckpoint := snapshot.recovery.getD s.recoveryCheckpoint
      fallbackComposition := (snapshot.preedit.map (·.text)).flatten
      journal := match WireCodec.serializeSnapshot snapshot with
        | some serializedSnapshot => s.journal.confirmSnapshot serializedSnapshot
        | none => s.journal }

/-- A failure snapshot gives the revision only. -/
def updateSnapshot [WireCodec] (s : HazkeyClientSession) (response : ResponseEnvelope)
    (snapshotAction : HandleImeAction) : HazkeyClientSession :=
  match response.resultSnapshot with
  | none => s
  | some snapshot =>
    if response.trusted = true then
      ((s.withRevision snapshot.revision).withFallbackGuards snapshot
        snapshotAction).withRecoveryMaterial snapshot
    else s.withRevision snapshot.revision

end HazkeyClientSession

/-! The world of the client. -/

inductive Channel
  | normal
  | bestEffort
  | lifecycle
  deriving DecidableEq, Repr

/-- What a frame is sent for; it is of the model only. -/
inductive FramePurpose
  | opening
  | closing
  | journaled
  | direct
  | restore
  | fallback
  | disposal
  | handOff
  deriving DecidableEq, Repr

inductive ClientRequest
  | transport (channel : Channel) (purpose : FramePurpose) (request : RequestEnvelope)
      (tryConnect : Bool)
  | othersDraw
  | recoveryHandler

/-- Other sessions draw request numbers, too. -/
@[reducible] def ClientRequest.Answer : ClientRequest → Type
  | .transport .. => Option ResponseEnvelope
  | .othersDraw => Nat
  | .recoveryHandler => Unit

abbrev clientPort : Interface where
  Call := ClientRequest
  Answer := ClientRequest.Answer

structure ClientState where
  session : HazkeyClientSession
  nextRequestID : Nat := 1

abbrev ClientM := Prog clientPort ClientState
abbrev ClientEvent := Event clientPort ClientState

def session : ClientM HazkeyClientSession := do
  let s ← Prog.read
  pure s.session

def update (f : HazkeyClientSession → HazkeyClientSession) : ClientM Unit :=
  Prog.modify fun s => { s with session := f s.session }

def transport (channel : Channel) (purpose : FramePurpose) (request : RequestEnvelope)
    (tryConnect : Bool) : ClientM (Option ResponseEnvelope) :=
  Prog.ask (I := clientPort) (.transport channel purpose request tryConnect)

def othersDraw : ClientM Nat := Prog.ask (I := clientPort) .othersDraw

def callRecoveryHandler : ClientM Unit := do
  let s ← session
  Prog.when (s.hasRecoveryHandler = true) (Prog.ask (I := clientPort) .recoveryHandler)

/-- The counter belongs to the process. -/
def drawRequestID (label : String) : ClientM Text := do
  let others ← othersDraw
  let s ← Prog.read
  Prog.modify fun s => { s with nextRequestID := s.nextRequestID + others + 1 }
  pure (label.toList ++ decimal (s.nextRequestID + others))

/-- Runs a function of the journal that tells whether it took effect. -/
def journaling (f : HazkeyRecoveryJournal → Bool × HazkeyRecoveryJournal) : ClientM Bool := do
  let s ← session
  update fun s => s.withJournal (f s.journal).2
  pure (f s.journal).1

def currentClientFeatures : UInt64 := 3

/-- The session an answer opens. -/
def openedSession (response : Option ResponseEnvelope) : Option OpenSessionResult :=
  response.bind fun r =>
    match r.payload with
    | .openSessionResult result =>
      if r.status = .success ∧ result.sessionID ≠ [] then some result else none
    | _ => none

def openSession (tryConnect : Bool) : ClientM Bool := do
  let s ← session
  let response ← transport .normal .opening
    ⟨[], .openSession s.context currentClientFeatures⟩ tryConnect
  match openedSession response with
  | none => pure false
  | some result => do
    update (·.opened result)
    pure true

def ensureOpen (tryConnect : Bool) : ClientM Bool := do
  let s ← session
  if s.id = [] then openSession tryConnect else pure true

/-- Refuses while anything is deferred; without an answer the session is gone, too. -/
def close (tryConnect : Bool) : ClientM Bool := do
  let s ← session
  if s.id = [] then pure (s.journal.pending = [] && s.replayedEffects = [])
  else if s.journal.pending ≠ [] ∨ s.replayedEffects ≠ [] then pure false
  else do
    let response ← transport .lifecycle .closing ⟨[], .closeSession s.id⟩ tryConnect
    match response with
    | none => do
      update (·.bound [] 0)
      pure false
    | some r =>
      if r.status = .success ∨ r.status = .sessionNotFound then do
        update (·.bound [] 0)
        pure true
      else pure false

/-- A resolution of the learning, and the end of the session behind it. -/
def disposeSession (purpose : FramePurpose) (label : String) (commit : Bool) : ClientM Unit := do
  let s ← session
  Prog.when (s.context.secureInput = false) (do
    let requestID ← drawRequestID label
    let _ ← transport .lifecycle purpose
      ⟨s.id, .handleImeAction ⟨requestID, s.revision, some (.resolvePendingLearning commit)⟩⟩
      false
    pure ())
  let _ ← transport .lifecycle .closing ⟨[], .closeSession s.id⟩ false
  pure ()

def discardServerNamespacePreservingRecovery : ClientM Unit := do
  let s ← session
  Prog.when (s.id ≠ []) (do
    disposeSession .disposal "fcitx-uncertain-recovery-discard-" false
    update (·.bound [] 0))

section

variable [WireCodec]

/-- A decision that is journaled precedes the preferred one. -/
def finalizeWithoutUITarget (preferredCommit : Bool) : ClientM Unit := do
  let s ← session
  let commit := s.journaledDecision.getD preferredCommit
  Prog.when (s.id ≠ []) (disposeSession .handOff "fcitx-abandon-" commit)
  update fun s => (s.bound [] 0).cleared

def abandonUnconfirmedInput : ClientM Unit := finalizeWithoutUITarget false

def abandonRejectedRecovery : ClientM Unit := do
  finalizeWithoutUITarget false
  callRecoveryHandler

/-! One action. -/

def send (channel : Channel) (purpose : FramePurpose) (action : HandleImeAction)
    (tryConnect : Bool) : ClientM (Option ResponseEnvelope) := do
  let s ← session
  transport channel purpose ⟨s.id, .handleImeAction action⟩ tryConnect

/-- A frame that got no answer may be sent again to a server that knows it again. -/
def exchange (channel : Channel) (purpose : FramePurpose) (action : HandleImeAction)
    (tryConnect resends : Bool) : ClientM (Option ResponseEnvelope) := do
  let response ← send channel purpose action tryConnect
  let s ← session
  if response = none ∧ resends = true ∧ s.capabilities.idempotentRequestSupport = true then
    send channel purpose action tryConnect
  else pure response

def normalizing (response : ResponseEnvelope) : ClientM ResponseEnvelope := do
  let s ← session
  update fun s => (s.normalizeEffectIDs response).2
  pure (s.normalizeEffectIDs response).1

/-- Takes a restored namespace over, with its effects. -/
def takeOver (response : ResponseEnvelope) (action : HandleImeAction) : ClientM Unit := do
  let normalized ← normalizing response
  update (·.collectResponseEffects normalized)
  update (·.updateSnapshot normalized action)

inductive RecoveryStep
  | untried
  | recovered
  | uncertain
  | rejected
  deriving DecidableEq

def recoverByCheckpoint (tryConnect : Bool) : ClientM RecoveryStep := do
  let s ← session
  if s.recoveryCheckpoint = [] then pure .untried
  else do
    let requestID ← drawRequestID "fcitx-recover-"
    let restore : HandleImeAction := ⟨requestID, 0, some (.restoreCheckpoint s.recoveryCheckpoint)⟩
    let response ← exchange .normal .restore restore tryConnect true
    match response with
    | none => pure .uncertain
    | some r =>
      if isSuccessfulImeResponse (some r) = true then do
        takeOver r restore
        pure .recovered
      else if isUncertainImeResponse (some r) = true then pure .uncertain
      else pure .rejected

def recoverByFallback (tryConnect : Bool) : ClientM RecoveryStep := do
  let s ← session
  if s.canUseStoredTextFallback = true ∧ s.context.secureInput = false then do
    let requestID ← drawRequestID "fcitx-fallback-"
    let fallback : HandleImeAction := ⟨requestID, 0, some (.insertText s.fallbackComposition)⟩
    let response ← exchange .normal .fallback fallback tryConnect true
    match response with
    | none => pure .uncertain
    | some r =>
      if isSuccessfulImeResponse (some r) = true then do
        update fun s => s.beginFreshEffectNamespace.withSafeFallback
        takeOver r fallback
        pure .recovered
      else if isUncertainImeResponse (some r) = true then pure .uncertain
      else pure .rejected
  else pure .untried

/-- Gives an uncertain replacement up, and keeps the binding to the dead session. -/
def retainStaleBinding (staleSessionID : Text) (staleRevision : UInt64) : ClientM Unit := do
  discardServerNamespacePreservingRecovery
  update (·.bound staleSessionID staleRevision)

/-- Brings the composition into a session that was opened for a lost one; false ends
the transaction. -/
def recoverSession (staleSessionID : Text) (staleRevision : UInt64) (tryConnect : Bool) :
    ClientM Bool := do
  let s ← session
  let restored ← recoverByCheckpoint tryConnect
  match restored with
  | .recovered => pure true
  | .uncertain => do
    retainStaleBinding staleSessionID staleRevision
    pure false
  | _ => do
    update (·.withRevision 0)
    let inserted ← recoverByFallback tryConnect
    match inserted with
    | .recovered => pure true
    | .uncertain => do
      retainStaleBinding staleSessionID staleRevision
      pure false
    | _ =>
      if s.holdsRecoveryMaterial = true then
        if (s.fallbackComposition ≠ [] ∧ s.canUseStoredTextFallback = false) ∨
            restored = .rejected ∨ inserted = .rejected then do
          abandonRejectedRecovery
          pure false
        else pure true
      else do
        update (·.beginFreshEffectNamespace)
        callRecoveryHandler
        pure true

/-- A session in place of one the server does not know; false ends the transaction. -/
def replaceLostSession (tryConnect : Bool) : ClientM Bool := do
  let stale ← session
  update (·.bound [] stale.revision)
  let opened ← openSession tryConnect
  if opened = false then do
    update (·.bound stale.id stale.revision)
    pure false
  else do
    let s ← session
    if s.capabilities.supportsV2 = false then do
      retainStaleBinding stale.id stale.revision
      pure false
    else recoverSession stale.id stale.revision tryConnect

/-- What the caller gets of a response, and the session learns from it. -/
def concludeV2 (response : Option ResponseEnvelope) (action : HandleImeAction) :
    ClientM (Option ResponseEnvelope) :=
  match response with
  | none => pure none
  | some r =>
    if r.status = .sessionNotFound then pure none
    else do
      let normalized ← normalizing (if r.trusted = true then r else r.stripped)
      update (·.updateSnapshot normalized action)
      pure (some normalized)

/-- Also the action as it was sent last. -/
def executeV2 (purpose : FramePurpose) (action : HandleImeAction) (tryConnect : Bool)
    (allowSessionRecovery : Bool) (channel : Channel) :
    ClientM (Option ResponseEnvelope × HandleImeAction) := do
  let opened ← ensureOpen tryConnect
  if opened = false then pure (none, action)
  else do
    let response ← exchange channel purpose action tryConnect (channel = .normal)
    if (response.any fun r => r.status = .sessionNotFound) = true then
      if allowSessionRecovery = false then pure (none, action)
      else do
        let continues ← replaceLostSession tryConnect
        if continues = false then pure (none, action)
        else do
          let s ← session
          let rebased := action.rebased s.revision
          let response ← exchange channel purpose rebased tryConnect true
          let response ← concludeV2 response rebased
          pure (response, rebased)
    else do
      let response ← concludeV2 response action
      pure (response, action)

/-! The journal. -/

/-- Replaces an entry by the action under another id; never sent so far. -/
def replaceEntry (requestID : Text) (action : HandleImeAction) : ClientM Bool := do
  match WireCodec.serializeAction action with
  | none => pure false
  | some serializedAction => do
    let s ← session
    journaling (·.replace requestID
      { requestID := action.requestID
        serializedAction := serializedAction
        expectedRevision := action.expectedRevision
        sessionID := s.id
        sent := false })

/-- Follows a session that was replaced under the action. -/
def rebindEntry (boundSessionID : Text) (action : HandleImeAction) : ClientM Bool := do
  let s ← session
  if s.id ≠ [] ∧ s.id ≠ boundSessionID then
    match WireCodec.serializeAction action with
    | none => pure false
    | some serializedAction =>
      journaling (·.rebindSent action.requestID serializedAction action.expectedRevision s.id)
  else pure true

/-- What becomes of the entry when the action did not succeed. -/
def settleFailure (response : Option ResponseEnvelope) (action : HandleImeAction) :
    ClientM Unit :=
  if isUncertainImeResponse response = true then pure ()
  else if action.learningDecision.isSome = true then do
    let requestID ← drawRequestID "fcitx-learning-retry-"
    let s ← session
    let _ ← replaceEntry action.requestID ((action.renamed requestID).rebased s.revision)
    pure ()
  else update fun s => s.withJournal (s.journal.acknowledge action.requestID)

/-- The attempts that are left; a stale answer uses one up. -/
def executeJournaled (tryConnect collectEffects lifecycle : Bool) :
    Nat → HandleImeAction → ClientM (Option ResponseEnvelope)
  | 0, _ => pure none
  | attempts + 1, action => do
    let marked ← journaling (·.markSent action.requestID)
    if marked = false then pure none
    else do
      let s ← session
      let (response, action) ← executeV2 .journaled action tryConnect (!lifecycle)
        (if lifecycle = true then .lifecycle else .normal)
      let rebound ← rebindEntry s.id action
      if rebound = false then pure none
      else if isStaleImeResponse response = true then do
        let requestID ← drawRequestID "fcitx-"
        let s ← session
        let fresh := (action.renamed requestID).rebased s.revision
        let replaced ← replaceEntry action.requestID fresh
        if replaced = false ∨ attempts = 0 then pure response
        else executeJournaled tryConnect collectEffects lifecycle attempts fresh
      else if isSuccessfulImeResponse response = true then do
        Prog.when (collectEffects = true)
          (update fun s => (response.map s.collectResponseEffects).getD s)
        update fun s => s.withJournal (s.journal.acknowledge action.requestID)
        pure response
      else do
        settleFailure response action
        pure response

def executeJournaledV2 (action : HandleImeAction) (tryConnect collectEffects lifecycle : Bool) :
    ClientM (Option ResponseEnvelope) :=
  executeJournaled tryConnect collectEffects lifecycle 2 action

structure ReplayResult where
  drained : Bool
  terminalFailure : Option ResponseEnvelope := none
  confirmedAfterTerminalFailure : Bool := false

/-- An entry for the session that is open now: one that was sent there keeps its
binding, any other takes the revision of the session. -/
def rebaseEntry (entry : HazkeyJournalEntry) (action : HandleImeAction) :
    ClientM (Option HandleImeAction) := do
  let s ← session
  if entry.sent = true ∧ entry.sessionID = s.id then pure (some action)
  else
    let rebased := action.rebased s.revision
    match WireCodec.serializeAction rebased with
    | none => pure none
    | some serializedAction => do
      let done ← journaling fun j =>
        if entry.sent = true then
          j.replace entry.requestID
            { requestID := entry.requestID
              serializedAction := serializedAction
              expectedRevision := rebased.expectedRevision
              sessionID := s.id
              sent := false }
        else j.rebaseUnsent entry.requestID serializedAction rebased.expectedRevision s.id
      pure (if done = true then some rebased else none)

def replayEntries (tryConnect lifecycle : Bool) :
    List HazkeyJournalEntry → ReplayResult → ClientM ReplayResult
  | [], result => pure { result with drained := true }
  | entry :: entries, result =>
    match WireCodec.parseAction entry.serializedAction with
    | none => do
      update fun s => s.withJournal (s.journal.acknowledge entry.requestID)
      replayEntries tryConnect lifecycle entries result
    | some action => do
      let rebased ← rebaseEntry entry action
      match rebased with
      | none => pure { result with drained := false }
      | some action => do
        let response ← executeJournaledV2 action tryConnect true lifecycle
        if isSuccessfulImeResponse response = true then
          replayEntries tryConnect lifecycle entries
            { result with
              confirmedAfterTerminalFailure :=
                result.confirmedAfterTerminalFailure || result.terminalFailure.isSome }
        else if action.learningDecision.isSome = true ∨ isUncertainImeResponse response = true ∨
            isStaleImeResponse response = true then
          pure { result with drained := false }
        else
          replayEntries tryConnect lifecycle entries { result with terminalFailure := response }

def replayPendingV2 (tryConnect lifecycle : Bool) : ClientM ReplayResult := do
  let s ← session
  replayEntries tryConnect lifecycle s.journal.pending { drained := false }

/-! Responses made of what is known. -/

def lastConfirmed (s : HazkeyClientSession) : Option SessionSnapshot :=
  if s.journal.lastSnapshot = [] then none
  else WireCodec.parseSnapshot s.journal.lastSnapshot

def attaching (response : ResponseEnvelope) : ClientM ResponseEnvelope := do
  let s ← session
  update fun s => (s.attachReplayedEffects response).2
  pure (s.attachReplayedEffects response).1

/-- The last confirmed snapshot with the effects that were collected. -/
def makeFlushResponse : ClientM (Option ResponseEnvelope) := do
  let s ← session
  match lastConfirmed s with
  | none => pure none
  | some snapshot => do
    let response ← attaching
      ⟨.success, [], .handleImeActionResult ⟨.success, some (snapshot.withEffects [])⟩⟩
    pure (some response)

def withStatus (r : ResponseEnvelope) (status : StatusCode) : ResponseEnvelope :=
  match r.payload with
  | .handleImeActionResult result =>
    { r with status := status, payload := .handleImeActionResult { result with status := status } }
  | _ => { r with status := status }

def makeEffectHandoffResponse (status : StatusCode) : ClientM (Option ResponseEnvelope) := do
  let response ← makeFlushResponse
  pure (response.map fun r => withStatus r status)

/-- Hands the collected effects over, where there are any. -/
def handOffEffects : ClientM (Option ResponseEnvelope) := do
  let s ← session
  if s.replayedEffects ≠ [] then makeEffectHandoffResponse .retryableTransportError
  else pure none

/-! The operations. -/

def namedOr (action : HandleImeAction) (label : String) : ClientM HandleImeAction :=
  if action.requestID = [] then do
    let requestID ← drawRequestID label
    pure (action.renamed requestID)
  else pure action

/-- Records an action, as one that was not sent. -/
def recordAction (action : HandleImeAction) : ClientM Bool := do
  match WireCodec.serializeAction action with
  | none => pure false
  | some serializedAction => do
    let s ← session
    journaling (·.record
      { requestID := action.requestID
        serializedAction := serializedAction
        expectedRevision := action.expectedRevision
        sessionID := s.id
        sent := false })

/-- A secure action is exchanged, once more under another id if it was stale. -/
def transactSecure (action : HandleImeAction) (tryConnect : Bool) :
    ClientM (Option ResponseEnvelope) := do
  let (response, action) ← executeV2 .direct action tryConnect true .normal
  if isStaleImeResponse response = true then do
    let requestID ← drawRequestID "fcitx-secure-"
    let s ← session
    let (response, _) ← executeV2 .direct ((action.renamed requestID).rebased s.revision) tryConnect
      true .normal
    pure response
  else pure response

/-- The status of a response that hands effects over in place of another. -/
def handOffStatus (r : ResponseEnvelope) : StatusCode :=
  if r.status = .success ∧ (r.result.any fun x => x.status = .success) = false then
    .retryableTransportError
  else r.status

/-- What the caller gets, with the effects that were collected. -/
def deliver (response : Option ResponseEnvelope) : ClientM (Option ResponseEnvelope) :=
  match response with
  | none => handOffEffects
  | some r =>
    if isUncertainImeResponse (some r) = true then handOffEffects
    else do
      let attached ← attaching r
      let s ← session
      if s.replayedEffects ≠ [] then makeEffectHandoffResponse (handOffStatus attached)
      else pure (some attached)

def transactV2 (action : HandleImeAction) (tryConnect : Bool) :
    ClientM (Option ResponseEnvelope) := do
  let opened ← ensureOpen tryConnect
  let s ← session
  if opened = false then pure none
  else if s.context.secureInput = true then do
    update fun s => s.withJournal s.journal.clear
    let named ← namedOr action "fcitx-"
    let s ← session
    transactSecure (named.rebased s.revision) tryConnect
  else do
    let replayed ← replayPendingV2 tryConnect false
    if replayed.drained = false then handOffEffects
    else do
      let named ← namedOr action "fcitx-"
      let s ← session
      let recorded ← recordAction (named.rebased s.revision)
      if recorded = false then pure none
      else do
        let response ← executeJournaledV2 (named.rebased s.revision) tryConnect false false
        deliver response

def transactV2BestEffort (action : HandleImeAction) : ClientM (Option ResponseEnvelope) := do
  let s ← session
  if s.id = [] ∨ s.journal.pending ≠ [] then pure none
  else do
    let named ← namedOr action "fcitx-best-effort-"
    let s ← session
    let (response, _) ← executeV2 .direct (named.rebased s.revision) false false .bestEffort
    pure response

/-- The server has learning staged, as far as it was confirmed. -/
def stagedOnServer (s : HazkeyClientSession) : Bool :=
  (lastConfirmed s).any (·.pendingLearning)

def transactV2DurableBestEffort (action : HandleImeAction) : ClientM (Option ResponseEnvelope) := do
  let s ← session
  if s.context.secureInput = true ∨ action.learningDecision = none ∨
      s.hasPendingLearningResolution = true then pure none
  else do
    let named ← namedOr action "fcitx-durable-best-effort-"
    let s ← session
    let recorded ← recordAction (named.rebased s.revision)
    if recorded = false then pure none
    else do
      let u ← session
      if stagedOnServer u = true ∧ u.journal.pending.length = 1 then
        executeJournaledV2 (named.rebased s.revision) false false true
      else pure none

/-- Restores the checkpoint after a change of context. -/
def restoreInContext : ClientM RecoveryStep := do
  let s ← session
  if s.recoveryCheckpoint = [] then pure .untried
  else do
    let requestID ← drawRequestID "fcitx-context-restore-"
    let s ← session
    let (response, _) ← executeV2 .restore
      ⟨requestID, s.revision, some (.restoreCheckpoint s.recoveryCheckpoint)⟩ true false .normal
    if isSuccessfulImeResponse response = true then do
      update fun s => (response.map s.collectResponseEffects).getD s
      pure .recovered
    else if isUncertainImeResponse response = true then pure .uncertain
    else pure .rejected

/-- Inserts the text that was on show; an uncertain end leaves the effect ids as they were. -/
def insertInContext : ClientM RecoveryStep := do
  let s ← session
  if s.canUseStoredTextFallback = false then pure .untried
  else do
    update (·.beginFreshEffectNamespace)
    let requestID ← drawRequestID "fcitx-context-fallback-"
    let u ← session
    let (response, _) ← executeV2 .fallback
      ⟨requestID, u.revision, some (.insertText u.fallbackComposition)⟩ true false .normal
    if isSuccessfulImeResponse response = true then do
      update (·.withSafeFallback)
      update fun s => (response.map s.collectResponseEffects).getD s
      pure .recovered
    else if isUncertainImeResponse response = true then do
      update (·.withNamespace s.effectNamespace)
      pure .uncertain
    else pure .rejected

/-- Brings the composition into the session of another context. -/
def restoreContext : ClientM Bool := do
  let s ← session
  let restored ← restoreInContext
  if restored = .uncertain then do
    discardServerNamespacePreservingRecovery
    pure false
  else if restored = .recovered then pure true
  else do
    let inserted ← insertInContext
    if inserted = .uncertain then do
      discardServerNamespacePreservingRecovery
      pure false
    else if inserted = .recovered then pure true
    else if s.holdsRecoveryMaterial = true ∧
        ((s.fallbackComposition ≠ [] ∧ s.canUseStoredTextFallback = false) ∨
          restored = .rejected ∨ inserted = .rejected) then do
      Prog.when (inserted = .untried) (update (·.beginFreshEffectNamespace))
      abandonRejectedRecovery
      pure false
    else do
      let u ← session
      Prog.when (u.recoveryCheckpoint = [] ∧ inserted = .untried)
        (update (·.beginFreshEffectNamespace))
      pure (!u.holdsRecoveryMaterial)

/-- The session of the context before, if there is one, is closed first. -/
def closeForContext (contextChanged : Bool) : ClientM Bool := do
  let s ← session
  if contextChanged = true ∨ s.id ≠ [] then close false else pure true

def updateContext (context : ClientContext) : ClientM Bool := do
  let s ← session
  let transition := evaluateHazkeyClientContextTransition s.context context
  if transition.contextChanged = false ∧ s.id ≠ [] ∧ s.capabilities.supportsV2 = true then pure true
  else do
    let closed ← closeForContext transition.contextChanged
    if closed = false then pure false
    else do
      Prog.when (transition.contextChanged = true)
        (update fun s => (if transition.clearPreedit = true then s.cleared else s).inContext context)
      let opened ← openSession true
      if opened = false then pure false
      else do
        let s ← session
        if s.capabilities.supportsV2 = false ∨ s.context.secureInput = true ∨
            transition.clearPreedit = true then pure true
        else restoreContext

structure HazkeyFlushResult where
  completed : Bool
  response : Option ResponseEnvelope

/-- The status under which a rejection is handed over. -/
def failureStatus (r : ResponseEnvelope) : StatusCode :=
  if r.status = .success then
    match r.result with
    | some x => if x.status = .success then .retryableTransportError else x.status
    | none => .retryableTransportError
  else r.status

/-- A later replay succeeded, or the failure came without a snapshot. -/
def newestHandoff (r : ResponseEnvelope) (confirmedAfterTerminalFailure : Bool) :
    ClientM (Option ResponseEnvelope) := do
  let s ← session
  if (lastConfirmed s).isSome = true ∧
      (r.resultSnapshot = none ∨ confirmedAfterTerminalFailure = true) then
    makeEffectHandoffResponse (failureStatus r)
  else pure none

/-- Effects with the newest snapshot there is, under the status of the failure. -/
def terminalFailureWithEffectHandoff (r : ResponseEnvelope)
    (confirmedAfterTerminalFailure : Bool) : ClientM (Option ResponseEnvelope) := do
  let latest ← newestHandoff r confirmedAfterTerminalFailure
  match latest with
  | some latest => pure (some { latest with errorMessage := r.errorMessage })
  | none => do
    let attached ← attaching r
    let s ← session
    if s.replayedEffects = [] then pure (some attached)
    else makeEffectHandoffResponse (failureStatus r)

def flushDeferred (tryConnect : Bool) : ClientM HazkeyFlushResult := do
  let replayed ← replayPendingV2 tryConnect (!tryConnect)
  match replayed.terminalFailure with
  | some r => do
    let s ← session
    let response ← terminalFailureWithEffectHandoff r replayed.confirmedAfterTerminalFailure
    pure ⟨s.journal.pending = [], response⟩
  | none =>
    if replayed.drained = false then do
      let response ← handOffEffects
      pure ⟨false, response⟩
    else do
      let response ← makeFlushResponse
      pure ⟨response.isSome, response⟩

def flushPendingV2 (tryConnect : Bool) : ClientM HazkeyFlushResult := do
  let s ← session
  if s.context.secureInput = true then do
    update fun s => (s.withJournal s.journal.clear).clearEffects
    pure ⟨true, none⟩
  else if s.journal.pending = [] ∧ s.replayedEffects = [] then pure ⟨true, none⟩
  else if s.id = [] ∧ tryConnect = false ∧ s.journal.pending ≠ [] then pure ⟨false, none⟩
  else flushDeferred tryConnect

/-- Whether the caller may apply an effect. -/
def shouldApplyEffect (effectID : UInt64) : ClientM Bool := do
  let s ← session
  update fun s => { s with effectLedger := (s.effectLedger.claim effectID).2 }
  pure (s.effectLedger.claim effectID).1

end

inductive ClientCall
  | openSession (tryConnect : Bool)
  | close (tryConnect : Bool)
  | updateContext (context : ClientContext)
  | abandonUnconfirmedInput
  | finalizeWithoutUITarget (preferredCommit : Bool)
  | transactV2 (action : HandleImeAction) (tryConnect : Bool)
  | transactV2BestEffort (action : HandleImeAction)
  | transactV2DurableBestEffort (action : HandleImeAction)
  | flushPendingV2 (tryConnect : Bool)
  | shouldApplyEffect (effectID : UInt64)

inductive ClientAnswer
  | done
  | succeeded (b : Bool)
  | response (response : Option ResponseEnvelope)
  | flushed (result : HazkeyFlushResult)

def ClientCall.program [WireCodec] : ClientCall → ClientM ClientAnswer
  | .openSession tryConnect => .succeeded <$> SessionClient.openSession tryConnect
  | .close tryConnect => .succeeded <$> SessionClient.close tryConnect
  | .updateContext context => .succeeded <$> SessionClient.updateContext context
  | .abandonUnconfirmedInput => (fun _ => .done) <$> SessionClient.abandonUnconfirmedInput
  | .finalizeWithoutUITarget preferredCommit =>
    (fun _ => .done) <$> SessionClient.finalizeWithoutUITarget preferredCommit
  | .transactV2 action tryConnect => .response <$> SessionClient.transactV2 action tryConnect
  | .transactV2BestEffort action => .response <$> SessionClient.transactV2BestEffort action
  | .transactV2DurableBestEffort action =>
    .response <$> SessionClient.transactV2DurableBestEffort action
  | .flushPendingV2 tryConnect => .flushed <$> SessionClient.flushPendingV2 tryConnect
  | .shouldApplyEffect effectID => .succeeded <$> SessionClient.shouldApplyEffect effectID

abbrev ClientMove := Move ClientCall clientPort ClientState ClientAnswer

/-- The moves of a session that was made for this context. -/
def ClientRun [WireCodec] (context : ClientContext) (hasRecoveryHandler : Bool)
    (moves : List ClientMove) (s : ClientState) : Prop :=
  Runs ClientCall.program
    { session := { context := context, hasRecoveryHandler := hasRecoveryHandler } } moves s

end Hazkey.SessionClient
