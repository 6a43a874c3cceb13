import Hazkey.SessionClient

/-! Relations of the states around a program of the session client. What its small steps
keep, all its programs keep. -/

namespace Hazkey.SessionClient

open ServiceProgram

set_option synthInstance.maxSize 400

/-- The changes that leave the context, the binding and the journal's entries, and put no
text into a session that has none. -/
structure KeepsEntries (s u : HazkeyClientSession) : Prop where
  context : u.context = s.context
  id : u.id = s.id
  pending : u.journal.pending = s.journal.pending
  limit : u.journal.limit = s.journal.limit
  recorded : u.journal.recorded = s.journal.recorded
  textless : s.context.secureInput = true →
    s.journal.lastSnapshot = [] ∧ s.recoveryCheckpoint = [] ∧ s.fallbackComposition = [] →
      u.journal.lastSnapshot = [] ∧ u.recoveryCheckpoint = [] ∧ u.fallbackComposition = []

class Modest (f : HazkeyClientSession → HazkeyClientSession) : Prop where
  keeps : ∀ s, KeepsEntries s (f s)

theorem keepsEntries_refl (s : HazkeyClientSession) : KeepsEntries s s :=
  ⟨rfl, rfl, rfl, rfl, rfl, fun _ => id⟩

theorem keepsEntries_of_eq {s u : HazkeyClientSession} (hcontext : u.context = s.context)
    (hid : u.id = s.id) (hjournal : u.journal = s.journal)
    (hcheckpoint : u.recoveryCheckpoint = s.recoveryCheckpoint)
    (hfallback : u.fallbackComposition = s.fallbackComposition) : KeepsEntries s u where
  context := hcontext
  id := hid
  pending := congrArg (·.pending) hjournal
  limit := congrArg (·.limit) hjournal
  recorded := congrArg (·.recorded) hjournal
  textless _ ht := by rwa [hjournal, hcheckpoint, hfallback]

theorem KeepsEntries.trans {s u v : HazkeyClientSession} (h : KeepsEntries s u)
    (h' : KeepsEntries u v) : KeepsEntries s v where
  context := h'.context.trans h.context
  id := h'.id.trans h.id
  pending := h'.pending.trans h.pending
  limit := h'.limit.trans h.limit
  recorded := h'.recorded.trans h.recorded
  textless hs ht := h'.textless (h.context ▸ hs) (h.textless hs ht)

instance : Modest id := ⟨keepsEntries_refl⟩

instance (revision : UInt64) : Modest (·.withRevision revision) :=
  ⟨fun _ => keepsEntries_of_eq rfl rfl rfl rfl rfl⟩

instance : Modest (·.withSafeFallback) := ⟨fun _ => keepsEntries_of_eq rfl rfl rfl rfl rfl⟩

instance : Modest (·.beginFreshEffectNamespace) := ⟨fun _ => keepsEntries_of_eq rfl rfl rfl rfl rfl⟩

instance : Modest fun s => s.beginFreshEffectNamespace.withSafeFallback :=
  ⟨fun _ => keepsEntries_of_eq rfl rfl rfl rfl rfl⟩

instance (effectNamespace : EffectNamespace) : Modest (·.withNamespace effectNamespace) :=
  ⟨fun _ => keepsEntries_of_eq rfl rfl rfl rfl rfl⟩

instance (response : ResponseEnvelope) : Modest (·.collectResponseEffects response) :=
  ⟨fun _ => keepsEntries_of_eq rfl rfl rfl rfl rfl⟩

instance (response : Option ResponseEnvelope) :
    Modest fun s => (response.map s.collectResponseEffects).getD s where
  keeps s := by
    cases response with
    | none => exact keepsEntries_refl s
    | some r => exact keepsEntries_of_eq rfl rfl rfl rfl rfl

theorem normalizeEffect_keeps (s : HazkeyClientSession) (effect : ClientEffect) :
    KeepsEntries s (s.normalizeEffect effect).2 := by
  unfold HazkeyClientSession.normalizeEffect
  dsimp only
  split
  · exact keepsEntries_refl s
  · split
    · exact keepsEntries_of_eq rfl rfl rfl rfl rfl
    · split
      · exact keepsEntries_of_eq rfl rfl rfl rfl rfl
      · exact keepsEntries_of_eq rfl rfl rfl rfl rfl

theorem normalizeEffects_keeps (effects : List ClientEffect) (s : HazkeyClientSession) :
    KeepsEntries s (HazkeyClientSession.normalizeEffects effects s).2 := by
  induction effects generalizing s with
  | nil => exact keepsEntries_refl s
  | cons effect effects ih => exact (normalizeEffect_keeps s effect).trans (ih _)

instance (response : ResponseEnvelope) : Modest fun s => (s.normalizeEffectIDs response).2 :=
  ⟨fun s => normalizeEffects_keeps _ s⟩

instance (response : ResponseEnvelope) : Modest fun s => (s.attachReplayedEffects response).2 where
  keeps s := by
    unfold HazkeyClientSession.attachReplayedEffects
    split
    · exact keepsEntries_refl s
    · exact keepsEntries_of_eq rfl rfl rfl rfl rfl

instance (effectID : UInt64) :
    Modest fun s => { s with effectLedger := (s.effectLedger.claim effectID).2 } :=
  ⟨fun _ => keepsEntries_of_eq rfl rfl rfl rfl rfl⟩

instance [WireCodec] (response : ResponseEnvelope) (snapshotAction : HandleImeAction) :
    Modest (·.updateSnapshot response snapshotAction) where
  keeps s := by
    unfold HazkeyClientSession.updateSnapshot
    split
    · exact keepsEntries_refl s
    · split
      · unfold HazkeyClientSession.withRecoveryMaterial
        split
        · exact ⟨rfl, rfl, rfl, rfl, rfl, fun _ _ => ⟨rfl, rfl, rfl⟩⟩
        · rename_i hplain
          refine ⟨rfl, rfl, ?_, ?_, ?_, fun hs => absurd hs hplain⟩
          · dsimp only
            split <;> rfl
          · dsimp only
            split <;> rfl
          · dsimp only
            split <;> rfl
      · exact keepsEntries_of_eq rfl rfl rfl rfl rfl

abbrev ClientRelation := ClientState → List ClientEvent → ClientState → Prop

/-- What a frame is that is not about the action of a caller. -/
def FramePurpose.Fits (purpose : FramePurpose) (payload : RequestPayload) : Prop :=
  match purpose, payload with
  | .opening, .openSession .. => True
  | .closing, .closeSession _ => True
  | .restore, .handleImeAction a => ∃ opaqueState, a.action = some (.restoreCheckpoint opaqueState)
  | .fallback, .handleImeAction a => ∃ text, a.action = some (.insertText text)
  | .disposal, .handleImeAction a => a.action = some (.resolvePendingLearning false)
  | _, _ => False

class Auxiliary (purpose : FramePurpose) (payload : RequestPayload) : Prop where
  fits : purpose.Fits payload

instance (client : ClientContext) (clientFeatureBits : UInt64) :
    Auxiliary .opening (.openSession client clientFeatureBits) := ⟨trivial⟩

instance (sessionID : Text) : Auxiliary .closing (.closeSession sessionID) := ⟨trivial⟩

instance (requestID : Text) (revision : UInt64) (opaqueState : Data) :
    Auxiliary .restore (.handleImeAction
      ⟨requestID, revision, some (.restoreCheckpoint opaqueState)⟩) := ⟨_, rfl⟩

instance (requestID : Text) (revision : UInt64) (text : Text) :
    Auxiliary .fallback (.handleImeAction ⟨requestID, revision, some (.insertText text)⟩) :=
  ⟨_, rfl⟩

instance (requestID : Text) (revision : UInt64) :
    Auxiliary .disposal (.handleImeAction
      ⟨requestID, revision, some (.resolvePendingLearning false)⟩) := ⟨rfl⟩

instance {purpose : FramePurpose} {action : HandleImeAction} (revision : UInt64)
    [h : Auxiliary purpose (.handleImeAction action)] :
    Auxiliary purpose (.handleImeAction (action.rebased revision)) := by
  cases purpose <;> exact ⟨h.fits⟩

/-- The relations met by a frame. -/
class Admits (R : ClientRelation) (purpose : FramePurpose) (payload : RequestPayload) : Prop where
  admits : ∀ (s : ClientState) (channel : Channel) (sessionID : Text) (tryConnect : Bool)
    (answer : Option ResponseEnvelope),
      R s [⟨s, .transport channel purpose ⟨sessionID, payload⟩ tryConnect, answer⟩] s

instance {R : ClientRelation} [Prog.Composes R] (channel : Channel) (purpose : FramePurpose)
    (sessionID : Text) (payload : RequestPayload) [h : Admits R purpose payload]
    (tryConnect : Bool) :
    Prog.Frames R (transport channel purpose ⟨sessionID, payload⟩ tryConnect) :=
  Prog.frames_ask fun s answer => h.admits s channel sessionID tryConnect answer

instance {R : ClientRelation} [Prog.Composes R] : Prog.Frames R session := by
  unfold session
  infer_instance

/-- The relations met by modest changes, by the drawing of numbers, and by the frames that
open and close sessions. -/
class Steady (R : ClientRelation) : Prop extends Prog.Composes R where
  change : ∀ (f : HazkeyClientSession → HazkeyClientSession) [Modest f] (s : ClientState),
    R s [] { s with session := f s.session }
  unbind : ∀ (revision : UInt64) (s : ClientState),
    R s [] { s with session := s.session.bound [] revision }
  count : ∀ (s : ClientState) (n : Nat), s.nextRequestID ≤ n → R s [] { s with nextRequestID := n }
  closing : ∀ sessionID, Admits R .closing (.closeSession sessionID)
  draw : ∀ (s : ClientState) (n : Nat), R s [⟨s, .othersDraw, n⟩] s
  notify : ∀ s : ClientState, R s [⟨s, .recoveryHandler, ()⟩] s
  opening : ∀ tryConnect, Prog.Frames R (openSession tryConnect)

theorem frames_openSession {R : ClientRelation} [Prog.Composes R]
    [∀ client clientFeatureBits, Admits R .opening (.openSession client clientFeatureBits)]
    (h : ∀ s result, R s [] { s with session := s.session.opened result }) (tryConnect : Bool) :
    Prog.Frames R (openSession tryConnect) := by
  have hopened (result : OpenSessionResult) : Prog.Frames R (update (·.opened result)) :=
    Prog.frames_modify fun s => h s result
  unfold openSession
  refine .bind inferInstance fun s => .bind inferInstance fun response => ?_
  cases openedSession response <;> infer_instance

/-- What holds of steady runs, and of one run after another, is steady. -/
theorem Steady.of_imp {R R' : ClientRelation} [h : Steady R] [Prog.Composes R']
    (himp : ∀ s t s', R s t s' → R' s t s') : Steady R' where
  change f _ s := himp _ _ _ (h.change f s)
  unbind revision s := himp _ _ _ (h.unbind revision s)
  count s n hn := himp _ _ _ (h.count s n hn)
  closing sessionID := ⟨fun s channel id tryConnect answer =>
    himp _ _ _ ((h.closing sessionID).admits s channel id tryConnect answer)⟩
  draw s n := himp _ _ _ (h.draw s n)
  notify s := himp _ _ _ (h.notify s)
  opening tryConnect := ⟨fun s t b s' hY => himp _ _ _ ((h.opening tryConnect).frame s t b s' hY)⟩

section

variable {R : ClientRelation} [h : Steady R]

instance (f : HazkeyClientSession → HazkeyClientSession) [Modest f] : Prog.Frames R (update f) :=
  Prog.frames_modify fun s => h.change f s

instance (revision : UInt64) : Prog.Frames R (update (·.bound [] revision)) :=
  Prog.frames_modify fun s => h.unbind revision s

instance (sessionID : Text) : Admits R .closing (.closeSession sessionID) := h.closing sessionID

instance (tryConnect : Bool) : Prog.Frames R (openSession tryConnect) := h.opening tryConnect

instance : Prog.Frames R othersDraw := Prog.frames_ask fun s n => h.draw s n

instance : Prog.Frames R callRecoveryHandler := by
  have hask : Prog.Frames R (Prog.ask (I := clientPort) .recoveryHandler) :=
    Prog.frames_ask fun s _ => h.notify s
  unfold callRecoveryHandler
  refine .bind inferInstance fun s => ?_
  exact Prog.frames_when (p := Prog.ask (I := clientPort) .recoveryHandler)

instance (label : String) : Prog.Frames R (drawRequestID label) := by
  have hcount (k : Nat) : Prog.Frames R
      (Prog.modify fun s : ClientState => { s with nextRequestID := s.nextRequestID + k + 1 } :
        ClientM Unit) := Prog.frames_modify fun s => h.count s _ (by omega)
  unfold drawRequestID
  infer_instance

instance (tryConnect : Bool) : Prog.Frames R (ensureOpen tryConnect) := by
  unfold ensureOpen
  infer_instance

instance (tryConnect : Bool) : Prog.Frames R (close tryConnect) := by
  unfold close
  refine .bind inferInstance fun s => ?_
  split
  · infer_instance
  · split
    · infer_instance
    · refine .bind inferInstance fun response => ?_
      cases response <;> infer_instance

instance (purpose : FramePurpose) (label : String) (commit : Bool)
    [∀ requestID revision, Admits R purpose (.handleImeAction
      ⟨requestID, revision, some (.resolvePendingLearning commit)⟩)] :
    Prog.Frames R (disposeSession purpose label commit) := by
  unfold disposeSession
  infer_instance

instance (channel : Channel) (purpose : FramePurpose) (action : HandleImeAction)
    [Admits R purpose (.handleImeAction action)] (tryConnect : Bool) :
    Prog.Frames R (send channel purpose action tryConnect) := by
  unfold send
  infer_instance

instance (channel : Channel) (purpose : FramePurpose) (action : HandleImeAction)
    [Admits R purpose (.handleImeAction action)] (tryConnect resends : Bool) :
    Prog.Frames R (exchange channel purpose action tryConnect resends) := by
  unfold exchange
  infer_instance

instance (response : ResponseEnvelope) : Prog.Frames R (normalizing response) := by
  unfold normalizing
  infer_instance

instance (response : ResponseEnvelope) : Prog.Frames R (attaching response) := by
  unfold attaching
  infer_instance

instance (action : HandleImeAction) (label : String) : Prog.Frames R (namedOr action label) := by
  unfold namedOr
  infer_instance

variable [WireCodec]

instance (response : ResponseEnvelope) (action : HandleImeAction) :
    Prog.Frames R (takeOver response action) := by
  unfold takeOver
  infer_instance

instance (response : Option ResponseEnvelope) (action : HandleImeAction) :
    Prog.Frames R (concludeV2 response action) := by
  unfold concludeV2
  cases response <;> infer_instance

instance : Prog.Frames R makeFlushResponse := by
  unfold makeFlushResponse
  refine .bind inferInstance fun s => ?_
  cases lastConfirmed s <;> infer_instance

instance (status : StatusCode) : Prog.Frames R (makeEffectHandoffResponse status) := by
  unfold makeEffectHandoffResponse
  infer_instance

instance : Prog.Frames R handOffEffects := by
  unfold handOffEffects
  infer_instance

instance (response : Option ResponseEnvelope) : Prog.Frames R (deliver response) := by
  unfold deliver
  cases response <;> infer_instance

instance (r : ResponseEnvelope) (b : Bool) : Prog.Frames R (newestHandoff r b) := by
  unfold newestHandoff
  infer_instance

instance (r : ResponseEnvelope) (b : Bool) :
    Prog.Frames R (terminalFailureWithEffectHandoff r b) := by
  unfold terminalFailureWithEffectHandoff
  refine .bind inferInstance fun latest => ?_
  cases latest <;> infer_instance

instance (effectID : UInt64) : Prog.Frames R (shouldApplyEffect effectID) := by
  unfold shouldApplyEffect
  infer_instance

instance (purpose : FramePurpose) (action : HandleImeAction)
    [Admits R purpose (.handleImeAction action)]
    [∀ revision, Admits R purpose (.handleImeAction (action.rebased revision))]
    (tryConnect allowSessionRecovery : Bool) (channel : Channel)
    [∀ tryConnect, Prog.Frames R (replaceLostSession tryConnect)] :
    Prog.Frames R (executeV2 purpose action tryConnect allowSessionRecovery channel) := by
  unfold executeV2
  refine .bind inferInstance fun opened => ?_
  split
  · infer_instance
  · refine .bind inferInstance fun response => ?_
    infer_instance

end

/-- The relations met by the frames that restore sessions and give them up, too. -/
class Follows (R : ClientRelation) : Prop extends Steady R where
  auxiliary : ∀ (purpose : FramePurpose) (payload : RequestPayload) [Auxiliary purpose payload],
    Admits R purpose payload

section

variable {R : ClientRelation} [h : Follows R]

instance (purpose : FramePurpose) (payload : RequestPayload) [Auxiliary purpose payload] :
    Admits R purpose payload := h.auxiliary purpose payload

instance : Prog.Frames R discardServerNamespacePreservingRecovery := by
  unfold discardServerNamespacePreservingRecovery
  infer_instance

variable [WireCodec]

instance (tryConnect : Bool) : Prog.Frames R (recoverByCheckpoint tryConnect) := by
  unfold recoverByCheckpoint
  refine .bind inferInstance fun s => ?_
  split
  · infer_instance
  · refine .bind inferInstance fun requestID => ?_
    dsimp only
    refine .bind inferInstance fun response => ?_
    cases response <;> infer_instance

instance (tryConnect : Bool) : Prog.Frames R (recoverByFallback tryConnect) := by
  unfold recoverByFallback
  refine .bind inferInstance fun s => ?_
  split
  · refine .bind inferInstance fun requestID => ?_
    dsimp only
    refine .bind inferInstance fun response => ?_
    cases response <;> infer_instance
  · infer_instance

end

/-- The relations met by any binding to a session, too. -/
class Rebinds (R : ClientRelation) : Prop extends Follows R where
  bind : ∀ (id : Text) (revision : UInt64) (s : ClientState),
    R s [] { s with session := s.session.bound id revision }

section

variable {R : ClientRelation} [h : Rebinds R]

instance (id : Text) (revision : UInt64) : Prog.Frames R (update (·.bound id revision)) :=
  Prog.frames_modify fun s => h.bind id revision s

instance (staleSessionID : Text) (staleRevision : UInt64) :
    Prog.Frames R (retainStaleBinding staleSessionID staleRevision) := by
  unfold retainStaleBinding
  infer_instance

end

/-- The relations met by giving the input up, too. -/
class Abandons [WireCodec] (R : ClientRelation) : Prop extends Rebinds R where
  abandon : ∀ preferredCommit, Prog.Frames R (finalizeWithoutUITarget preferredCommit)

section

variable [WireCodec] {R : ClientRelation} [h : Abandons R]

instance (preferredCommit : Bool) : Prog.Frames R (finalizeWithoutUITarget preferredCommit) :=
  h.abandon preferredCommit

instance : Prog.Frames R abandonUnconfirmedInput := h.abandon false

instance : Prog.Frames R abandonRejectedRecovery := by
  unfold abandonRejectedRecovery
  infer_instance

instance (staleSessionID : Text) (staleRevision : UInt64) (tryConnect : Bool) :
    Prog.Frames R (recoverSession staleSessionID staleRevision tryConnect) := by
  have hrest (restored : RecoveryStep) (s : HazkeyClientSession) : Prog.Frames R (do
      update (·.withRevision 0)
      let inserted ← recoverByFallback tryConnect
      match inserted with
      | .recovered => pure true
      | .uncertain => do
        retainStaleBinding staleSessionID staleRevision
        pure false
      | _ =>
        if s.holdsRecoveryMaterial = true then
          if (s.fallbackComposition ≠ [] ∧ s.canUseStoredTextFallback = false) ∨
              restored = .rejected ∨ inserted = .rejected then do
            abandonRejectedRecovery
            pure false
          else pure true
        else do
          update (·.beginFreshEffectNamespace)
          callRecoveryHandler
          pure true : ClientM Bool) := by
    refine .bind inferInstance fun _ => .bind inferInstance fun inserted => ?_
    cases inserted <;> infer_instance
  unfold recoverSession
  refine .bind inferInstance fun s => .bind inferInstance fun restored => ?_
  cases restored with
  | recovered => infer_instance
  | uncertain => infer_instance
  | untried => exact hrest .untried s
  | rejected => exact hrest .rejected s

instance (tryConnect : Bool) : Prog.Frames R (replaceLostSession tryConnect) := by
  unfold replaceLostSession
  infer_instance

instance : Prog.Frames R restoreInContext := by
  unfold restoreInContext
  refine .bind inferInstance fun s => ?_
  split
  · infer_instance
  · refine .bind inferInstance fun requestID => .bind inferInstance fun s =>
      .bind inferInstance fun x => ?_
    infer_instance

instance : Prog.Frames R insertInContext := by
  unfold insertInContext
  refine .bind inferInstance fun s => ?_
  split
  · infer_instance
  · refine .bind inferInstance fun _ => .bind inferInstance fun requestID =>
      .bind inferInstance fun s => .bind inferInstance fun x => ?_
    infer_instance

instance : Prog.Frames R restoreContext := by
  unfold restoreContext
  refine .bind inferInstance fun s => .bind inferInstance fun restored => ?_
  split
  · infer_instance
  · split
    · infer_instance
    · refine .bind inferInstance fun inserted => ?_
      infer_instance

end

/-- The relations met by what becomes of journaled entries. -/
class Journals [WireCodec] (R : ClientRelation) : Prop extends Steady R where
  replace : ∀ tryConnect, Prog.Frames R (replaceLostSession tryConnect)
  journaled : ∀ action, Admits R .journaled (.handleImeAction action)
  direct : ∀ action, Admits R .direct (.handleImeAction action)
  rewrite : ∀ (g : HazkeyRecoveryJournal → Bool × HazkeyRecoveryJournal) [Rewriting g],
    Prog.Frames R (journaling g)
  acknowledge : ∀ requestID,
    Prog.Frames R (update fun s => s.withJournal (s.journal.acknowledge requestID))

section

variable [WireCodec] {R : ClientRelation} [h : Journals R]

instance (tryConnect : Bool) : Prog.Frames R (replaceLostSession tryConnect) :=
  h.replace tryConnect

instance (action : HandleImeAction) : Admits R .journaled (.handleImeAction action) :=
  h.journaled action

instance (action : HandleImeAction) : Admits R .direct (.handleImeAction action) :=
  h.direct action

instance (g : HazkeyRecoveryJournal → Bool × HazkeyRecoveryJournal) [Rewriting g] :
    Prog.Frames R (journaling g) := h.rewrite g

instance (requestID : Text) :
    Prog.Frames R (update fun s => s.withJournal (s.journal.acknowledge requestID)) :=
  h.acknowledge requestID

instance (requestID : Text) (action : HandleImeAction) :
    Prog.Frames R (replaceEntry requestID action) := by
  unfold replaceEntry
  cases WireCodec.serializeAction action <;> infer_instance

instance (boundSessionID : Text) (action : HandleImeAction) :
    Prog.Frames R (rebindEntry boundSessionID action) := by
  unfold rebindEntry
  cases WireCodec.serializeAction action <;> infer_instance

instance (response : Option ResponseEnvelope) (action : HandleImeAction) :
    Prog.Frames R (settleFailure response action) := by
  unfold settleFailure
  infer_instance

instance (tryConnect collectEffects lifecycle : Bool) (attempts : Nat)
    (action : HandleImeAction) :
    Prog.Frames R (executeJournaled tryConnect collectEffects lifecycle attempts action) := by
  induction attempts generalizing action with
  | zero => exact Prog.frames_pure none
  | succ attempts ih =>
    unfold executeJournaled
    refine .bind inferInstance fun marked => ?_
    split
    · infer_instance
    · refine .bind inferInstance fun s => .bind inferInstance fun x =>
        .bind inferInstance fun rebound => ?_
      split
      · infer_instance
      · split
        · refine .bind inferInstance fun requestID => .bind inferInstance fun s => ?_
          infer_instance
        · infer_instance

instance (action : HandleImeAction) (tryConnect collectEffects lifecycle : Bool) :
    Prog.Frames R (executeJournaledV2 action tryConnect collectEffects lifecycle) := by
  unfold executeJournaledV2
  infer_instance

instance (entry : HazkeyJournalEntry) (action : HandleImeAction) :
    Prog.Frames R (rebaseEntry entry action) := by
  unfold rebaseEntry
  refine .bind inferInstance fun s => ?_
  split
  · infer_instance
  · dsimp only
    cases WireCodec.serializeAction (action.rebased s.revision) <;> infer_instance

instance (tryConnect lifecycle : Bool) (entries : List HazkeyJournalEntry)
    (result : ReplayResult) :
    Prog.Frames R (replayEntries tryConnect lifecycle entries result) := by
  induction entries generalizing result with
  | nil => exact Prog.frames_pure _
  | cons entry entries ih =>
    unfold replayEntries
    cases WireCodec.parseAction entry.serializedAction with
    | none => infer_instance
    | some action =>
      refine .bind inferInstance fun rebased => ?_
      cases rebased with
      | none => infer_instance
      | some action =>
        dsimp only
        refine .bind inferInstance fun response => ?_
        infer_instance

instance (tryConnect lifecycle : Bool) : Prog.Frames R (replayPendingV2 tryConnect lifecycle) := by
  unfold replayPendingV2
  infer_instance

instance (action : HandleImeAction) (tryConnect : Bool) :
    Prog.Frames R (transactSecure action tryConnect) := by
  unfold transactSecure
  refine .bind inferInstance fun ⟨response, action⟩ => ?_
  dsimp only
  split
  · refine .bind inferInstance fun requestID => .bind inferInstance fun s =>
      .bind inferInstance fun x => ?_
    infer_instance
  · infer_instance

instance (action : HandleImeAction) : Prog.Frames R (transactV2BestEffort action) := by
  unfold transactV2BestEffort
  refine .bind inferInstance fun s => ?_
  split
  · infer_instance
  · refine .bind inferInstance fun named => .bind inferInstance fun s =>
      .bind inferInstance fun x => ?_
    infer_instance

instance (tryConnect : Bool) : Prog.Frames R (flushDeferred tryConnect) := by
  unfold flushDeferred
  refine .bind inferInstance fun replayed => ?_
  cases replayed.terminalFailure <;> infer_instance

end

/-! The context changes by one operation only. -/

def SameContext (s : ClientState) (_ : List ClientEvent) (s' : ClientState) : Prop :=
  s'.session.context = s.session.context

instance : Prog.Composes SameContext where
  refl _ := rfl
  trans _ _ _ _ _ h h' := h'.trans h

instance (purpose : FramePurpose) (payload : RequestPayload) :
    Admits SameContext purpose payload := ⟨fun _ _ _ _ _ => rfl⟩

instance : Follows SameContext where
  change _ hf s := (hf.keeps s.session).context
  unbind _ _ := rfl
  count _ _ _ := rfl
  closing _ := inferInstance
  draw _ _ := rfl
  notify _ := rfl
  opening := frames_openSession fun _ _ => rfl
  auxiliary _ _ _ := inferInstance

section

variable [WireCodec]

instance : Abandons SameContext where
  bind _ _ _ := rfl
  abandon preferredCommit := by
    have hclear : Prog.Frames SameContext (update fun s => (s.bound [] 0).cleared) :=
      Prog.frames_modify fun _ => rfl
    unfold finalizeWithoutUITarget
    infer_instance

instance : Journals SameContext where
  replace _ := inferInstance
  journaled _ := inferInstance
  direct _ := inferInstance
  rewrite g := by
    have hset : Prog.Frames SameContext (update fun s => s.withJournal (g s.journal).2) :=
      Prog.frames_modify fun _ => rfl
    unfold journaling
    infer_instance
  acknowledge _ := Prog.frames_modify fun _ => rfl

end

end Hazkey.SessionClient
