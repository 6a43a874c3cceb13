import Hazkey.ReducerRuns
import Hazkey.ServiceParts
import Mathlib.Algebra.Order.Ring.Rat
import Mathlib.Data.Int.Lemmas

/-! The session registry of the server: sessions by id, their owners and last use,
and the controllers that hold their reducers. -/

namespace Hazkey

open ServiceProgram

structure GrimodexClientContext where
  program : Text
  frontend : Text
  secureInput : Bool
  deriving DecidableEq

inductive HazkeySessionOpenError
  | resourceExhausted
  deriving DecidableEq, Repr

inductive HazkeySessionRemovalReason
  | explicitClose
  | socketDisconnect
  | capacityEviction
  | idleTimeout
  deriving DecidableEq, Repr

/-- A cancellation may not have reached the server when the socket goes. -/
def HazkeySessionRemovalReason.commitsPendingLearning : HazkeySessionRemovalReason → Bool
  | .socketDisconnect => false
  | .explicitClose | .capacityEviction | .idleTimeout => true

/-- Seconds. -/
abbrev Date := ℚ

/-- The registered part of a session; its controller is an object of its own. -/
structure RegisteredSession where
  ownerFd : Int
  clientContext : GrimodexClientContext
  clientFeatureBits : UInt64
  lastAccess : Date
  deriving DecidableEq

structure RegistryLimits where
  maximumSessions : Nat
  maximumSessionsPerOwner : Nat
  idleTimeout : Date
  perOwner_pos : 1 ≤ maximumSessionsPerOwner
  perOwner_le : maximumSessionsPerOwner ≤ maximumSessions
  idleTimeout_pos : 1 ≤ idleTimeout

/-- The limits of a registry that was asked for these. -/
def RegistryLimits.make (maximumSessions maximumSessionsPerOwner : Int) (idleTimeout : Date) :
    RegistryLimits where
  maximumSessions := (max 1 maximumSessions).toNat
  maximumSessionsPerOwner := (max 1 (min maximumSessionsPerOwner (max 1 maximumSessions))).toNat
  idleTimeout := max 1 idleTimeout
  perOwner_pos := by omega
  perOwner_le := by omega
  idleTimeout_pos := le_max_left ..

structure SessionRegistry where
  limits : RegistryLimits
  sessions : List (Text × RegisteredSession) := []
  /-- What became of the reducers; those of sessions that left are not reached any more. -/
  controllers : Text → ImeReducer := fun _ => .initial (.initial .standard) false
  /-- Every session id there ever was. -/
  opened : List Text := []

inductive RegistryRequest
  | now
  | uuid
  | openEnvironment (context : GrimodexClientContext)
  | refreshPolicy (sessionID : Text)
  | converter (sessionID : Text) (call : ConverterCall)
  | closeEnvironment (sessionID : Text)
  | clearProfileLearningData (sessionID : Text)
  | clearIdleLearningData
  | recordLearningCommit
  | reinitializeConfiguration (sessionID : Text)
  | replaceUserDictionary (sessionID : Text)
  | mutateConfiguration
  | changeUserDictionary

/-- A configuration mutation throws, or tells whether to reinitialize; a change of the
user dictionary throws or not. -/
@[reducible] def RegistryRequest.Answer : RegistryRequest → Type
  | .now => Date
  | .uuid => Text
  | .openEnvironment _ | .refreshPolicy _ => PinnedCompositionPolicy
  | .converter _ call => call.Answer
  | .mutateConfiguration => Option Bool
  | .changeUserDictionary => Bool
  | _ => Unit

abbrev registryPort : Interface where
  Call := RegistryRequest
  Answer := RegistryRequest.Answer

abbrev RegistryM := Prog registryPort SessionRegistry
abbrev RegistryEvent := Event registryPort SessionRegistry

namespace SessionRegistry

def withSessions (r : SessionRegistry) (sessions : List (Text × RegisteredSession)) :
    SessionRegistry :=
  { r with sessions := sessions }

def session (r : SessionRegistry) (sessionID : Text) : Option RegisteredSession :=
  r.sessions.lookup sessionID

def owned (r : SessionRegistry) (ownerFd : Int) : List (Text × RegisteredSession) :=
  r.sessions.filter fun x => x.2.ownerFd = ownerFd

def removing (r : SessionRegistry) (sessionID : Text) : SessionRegistry :=
  r.withSessions (r.sessions.filter fun x => x.1 ≠ sessionID)

def expired (r : SessionRegistry) (time : Date) : List (Text × RegisteredSession) :=
  r.sessions.filter fun x => x.2.lastAccess < time - r.limits.idleTimeout

def touching (r : SessionRegistry) (sessionID : Text) (time : Date) : SessionRegistry :=
  r.withSessions (r.sessions.map fun x =>
    if x.1 = sessionID then (x.1, { x.2 with lastAccess := time }) else x)

/-- Gives the id to a new session. -/
def opening (r : SessionRegistry) (sessionID : Text) (x : RegisteredSession)
    (reducer : ImeReducer) : SessionRegistry :=
  { r with
    sessions := (r.sessions.filter fun y => y.1 ≠ sessionID) ++ [(sessionID, x)]
    controllers := Function.update r.controllers sessionID reducer
    opened := sessionID :: r.opened }

end SessionRegistry

/-- Used earlier, or at the same time under a smaller id. -/
def precedes (x y : Text × RegisteredSession) : Bool :=
  if x.2.lastAccess = y.2.lastAccess then x.1 < y.1 else x.2.lastAccess < y.2.lastAccess

/-- The first session that no other precedes. -/
def leastRecentlyUsed : List (Text × RegisteredSession) → Option (Text × RegisteredSession)
  | [] => none
  | x :: xs =>
    match leastRecentlyUsed xs with
    | none => some x
    | some y => if precedes y x = true then some y else some x

def mostRecentlyUsed : List (Text × RegisteredSession) → Option (Text × RegisteredSession)
  | [] => none
  | x :: xs =>
    match mostRecentlyUsed xs with
    | none => some x
    | some y => if precedes x y = true then some y else some x

/-- The controller of a session, with the calls of its converter. -/
def controllerPart (sessionID : Text) :
    Part converterPort registryPort ImeReducer SessionRegistry where
  get r := r.controllers sessionID
  put c r := { r with controllers := Function.update r.controllers sessionID c }
  call := .converter sessionID
  answer _ := Equiv.refl _
  get_put c r := by simp
  put_get r := by simp
  put_put c c' r := by simp

section

variable {α : Type}

def onController (sessionID : Text) (p : ReducerM α) : RegistryM α :=
  p.on (controllerPart sessionID)

def now : RegistryM Date := Prog.ask (I := registryPort) .now

def uuid : RegistryM Text := Prog.ask (I := registryPort) .uuid

def openEnvironment (context : GrimodexClientContext) : RegistryM PinnedCompositionPolicy :=
  Prog.ask (I := registryPort) (.openEnvironment context)

def refreshPolicy (sessionID : Text) : RegistryM PinnedCompositionPolicy :=
  Prog.ask (I := registryPort) (.refreshPolicy sessionID)

def mutateConfiguration : RegistryM (Option Bool) :=
  Prog.ask (I := registryPort) .mutateConfiguration

def mutateUserDictionary : RegistryM Bool := Prog.ask (I := registryPort) .changeUserDictionary

def closeEnvironment (sessionID : Text) : RegistryM Unit :=
  Prog.ask (I := registryPort) (.closeEnvironment sessionID)

def clearProfileLearningData (sessionID : Text) : RegistryM Unit :=
  Prog.ask (I := registryPort) (.clearProfileLearningData sessionID)

def clearIdleLearningData : RegistryM Unit := Prog.ask (I := registryPort) .clearIdleLearningData

def recordLearningCommit : RegistryM Unit := Prog.ask (I := registryPort) .recordLearningCommit

def reinitializeConfiguration (sessionID : Text) : RegistryM Unit :=
  Prog.ask (I := registryPort) (.reinitializeConfiguration sessionID)

def replaceUserDictionary (sessionID : Text) : RegistryM Unit :=
  Prog.ask (I := registryPort) (.replaceUserDictionary sessionID)

def forSessions (f : Text → RegistryM Unit) : List (Text × RegisteredSession) → RegistryM Unit
  | [] => pure ()
  | x :: xs => do
    f x.1
    forSessions f xs

end

def removeSession (reason : HazkeySessionRemovalReason) (sessionID : Text) : RegistryM Unit := do
  let r ← Prog.read
  Prog.when (r.session sessionID ≠ none) do
    Prog.modify (·.removing sessionID)
    onController sessionID invalidateCandidatesForExternalDictionaryChange
    onController sessionID (finalizePendingLearning reason.commitsPendingLearning)
    closeEnvironment sessionID

def pruneExpiredSessions : RegistryM Unit := do
  let time ← now
  let r ← Prog.read
  forSessions (removeSession .idleTimeout) (r.expired time)

/-- Makes room among the sessions of the owner; every turn removes one. -/
def evictOwned (ownerFd : Int) : Nat → RegistryM Unit
  | 0 => pure ()
  | fuel + 1 => do
    let r ← Prog.read
    Prog.when (r.limits.maximumSessionsPerOwner ≤ (r.owned ownerFd).length)
      (match leastRecentlyUsed (r.owned ownerFd) with
      | none => pure ()
      | some x => do
        removeSession .capacityEviction x.1
        evictOwned ownerFd fuel)

/-- Makes room in the registry; false when no session of the owner is left to remove. -/
def evictRegistered (ownerFd : Int) : Nat → RegistryM Bool
  | 0 => pure true
  | fuel + 1 => do
    let r ← Prog.read
    if r.limits.maximumSessions ≤ r.sessions.length then
      match leastRecentlyUsed (r.owned ownerFd) with
      | none => pure false
      | some x => do
        removeSession .capacityEviction x.1
        evictRegistered ownerFd fuel
    else pure true

/-- Clients that do not know scheduled live conversion get no delay. -/
def clientPolicy (clientFeatureBits : UInt64) (p : PinnedCompositionPolicy) :
    PinnedCompositionPolicy :=
  { p with
    liveConversionDelayMilliseconds :=
      if clientFeatureBits &&& 1 ≠ 0 then p.liveConversionDelayMilliseconds else 0 }

def attemptOpen (clientContext : GrimodexClientContext) (ownerFd : Int)
    (clientFeatureBits : UInt64) : RegistryM (Except HazkeySessionOpenError Text) := do
  pruneExpiredSessions
  let r ← Prog.read
  evictOwned ownerFd r.sessions.length
  let r ← Prog.read
  let roomy ← evictRegistered ownerFd r.sessions.length
  if roomy = true then do
    let sessionID ← uuid
    let policy ← openEnvironment clientContext
    let time ← now
    Prog.modify (·.opening sessionID ⟨ownerFd, clientContext, clientFeatureBits, time⟩
      (.initial (.initial (clientPolicy clientFeatureBits policy))
        (clientFeatureBits &&& 2 ≠ 0)))
    pure (.ok sessionID)
  else pure (.error .resourceExhausted)

/-- Looks a session of the owner up, and marks it as used. -/
def access (sessionID : Text) (ownerFd : Int) : RegistryM (Option RegisteredSession) := do
  pruneExpiredSessions
  let r ← Prog.read
  match (r.session sessionID).filter fun x => x.ownerFd = ownerFd with
  | none => pure none
  | some x => do
    let time ← now
    Prog.modify (·.touching sessionID time)
    pure (some x)

/-- A handle on an object of a session is the id of the session. -/
def environment (sessionID : Text) (ownerFd : Int) : RegistryM (Option Text) := do
  pruneExpiredSessions
  let r ← Prog.read
  match (if sessionID = [] then none else r.session sessionID) with
  | none => pure none
  | some x =>
    if x.ownerFd = ownerFd then do
      let time ← now
      Prog.modify (·.touching sessionID time)
      pure (some sessionID)
    else pure none

def clientContext (sessionID : Text) (ownerFd : Int) : RegistryM (Option GrimodexClientContext) := do
  let x ← access sessionID ownerFd
  pure (x.map (·.clientContext))

def semanticController (sessionID : Text) (ownerFd : Int) : RegistryM (Option Text) := do
  let x ← access sessionID ownerFd
  pure (x.map fun _ => sessionID)

def close (sessionID : Text) (ownerFd : Int) : RegistryM Bool := do
  let r ← Prog.read
  match (r.session sessionID).filter fun x => x.ownerFd = ownerFd with
  | none => pure false
  | some _ => do
    removeSession .explicitClose sessionID
    pure true

def closeAll (ownerFd : Int) : RegistryM Unit := do
  let r ← Prog.read
  forSessions (removeSession .socketDisconnect) (r.owned ownerFd)

def invalidateForDictionaryChange (sessionID : Text) : RegistryM Unit :=
  onController sessionID invalidateCandidatesForExternalDictionaryChange

section

variable [SwiftText] [RecoveryCodec]

def resumeSpeculationIn (affectedSessions : List (Text × RegisteredSession)) : RegistryM Unit :=
  forSessions (fun sessionID => onController sessionID resumeSpeculativeConversionAfterMaintenance)
    affectedSessions

def reinitializeEnvironments (affectedSessions : List (Text × RegisteredSession)) :
    RegistryM Unit :=
  forSessions reinitializeConfiguration affectedSessions

def reinitializeAll : RegistryM Unit := do
  let r ← Prog.read
  forSessions invalidateForDictionaryChange r.sessions
  reinitializeEnvironments r.sessions
  resumeSpeculationIn r.sessions

def performConfigurationMutation : RegistryM Unit := do
  let r ← Prog.read
  let result ← mutateConfiguration
  Prog.when (result = some true) do
    forSessions invalidateForDictionaryChange r.sessions
    reinitializeEnvironments r.sessions
    resumeSpeculationIn r.sessions

def clearAllLearningData : RegistryM Unit := do
  let r ← Prog.read
  if r.sessions = [] then do
    clearIdleLearningData
    recordLearningCommit
  else do
    forSessions invalidateForDictionaryChange r.sessions
    forSessions (fun sessionID => do
      onController sessionID (finalizePendingLearning false)
      clearProfileLearningData sessionID) r.sessions
    recordLearningCommit
    resumeSpeculationIn r.sessions

def applyUserDictionaryToSessions : RegistryM Unit := do
  let r ← Prog.read
  forSessions invalidateForDictionaryChange r.sessions
  forSessions replaceUserDictionary r.sessions
  resumeSpeculationIn r.sessions

/-- Adding, updating, removing and importing entries: a change that throws ends there. -/
def changeUserDictionary : RegistryM Unit := do
  let changed ← mutateUserDictionary
  Prog.when (changed = true) applyUserDictionaryToSessions

def saveAll : RegistryM Unit := do
  let r ← Prog.read
  forSessions invalidateForDictionaryChange r.sessions
  forSessions (fun sessionID => do
    onController sessionID (finalizePendingLearning true)
    closeEnvironment sessionID) r.sessions

def count : RegistryM Nat := do
  pruneExpiredSessions
  let r ← Prog.read
  pure r.sessions.length

def diagnostics : RegistryM (Nat × Option GrimodexClientContext) := do
  pruneExpiredSessions
  let r ← Prog.read
  pure (r.sessions.length, (mostRecentlyUsed r.sessions).map (·.2.clientContext))

/-- A request of a client: its session's controller handles it. -/
def handle (sessionID : Text) (ownerFd : Int) (action : ImeAction) (requestID : Text)
    (expectedRevision : Option UInt64) : RegistryM (Option ImeReductionResult) := do
  let x ← access sessionID ownerFd
  match x with
  | none => pure none
  | some x =>
    if 0 < requestID.length ∧ utf8Count requestID ≤ 128 then do
      let policy ← refreshPolicy sessionID
      let result ← onController sessionID (reduce action requestID expectedRevision
        (some (clientPolicy x.clientFeatureBits policy)))
      pure (some result)
    else do
      let result ← onController sessionID
        (failure .invalidAction "request_id must contain 1...128 UTF-8 bytes")
      pure (some result)

end

/-- The methods of the registry. -/
inductive RegistryCall
  | attemptOpen (clientContext : GrimodexClientContext) (ownerFd : Int)
      (clientFeatureBits : UInt64)
  | environment (sessionID : Text) (ownerFd : Int)
  | clientContext (sessionID : Text) (ownerFd : Int)
  | semanticController (sessionID : Text) (ownerFd : Int)
  | handle (sessionID : Text) (ownerFd : Int) (action : ImeAction) (requestID : Text)
      (expectedRevision : Option UInt64)
  | close (sessionID : Text) (ownerFd : Int)
  | closeAll (ownerFd : Int)
  | reinitializeAll
  | performConfigurationMutation
  | clearAllLearningData
  | changeUserDictionary
  | saveAll
  | count
  | diagnostics

inductive RegistryAnswer
  | opened (result : Except HazkeySessionOpenError Text)
  | environment (sessionID : Option Text)
  | clientContext (context : Option GrimodexClientContext)
  | controller (sessionID : Option Text)
  | handled (result : Option ImeReductionResult)
  | closed (found : Bool)
  | counted (sessions : Nat)
  | diagnosed (report : Nat × Option GrimodexClientContext)
  | done

def RegistryCall.program [SwiftText] [RecoveryCodec] : RegistryCall → RegistryM RegistryAnswer
  | .attemptOpen context ownerFd clientFeatureBits =>
    .opened <$> Hazkey.attemptOpen context ownerFd clientFeatureBits
  | .environment sessionID ownerFd => .environment <$> Hazkey.environment sessionID ownerFd
  | .clientContext sessionID ownerFd => .clientContext <$> Hazkey.clientContext sessionID ownerFd
  | .semanticController sessionID ownerFd =>
    .controller <$> Hazkey.semanticController sessionID ownerFd
  | .handle sessionID ownerFd action requestID expectedRevision =>
    .handled <$> Hazkey.handle sessionID ownerFd action requestID expectedRevision
  | .close sessionID ownerFd => .closed <$> Hazkey.close sessionID ownerFd
  | .closeAll ownerFd => (fun _ => .done) <$> Hazkey.closeAll ownerFd
  | .reinitializeAll => (fun _ => .done) <$> Hazkey.reinitializeAll
  | .performConfigurationMutation => (fun _ => .done) <$> Hazkey.performConfigurationMutation
  | .clearAllLearningData => (fun _ => .done) <$> Hazkey.clearAllLearningData
  | .changeUserDictionary => (fun _ => .done) <$> Hazkey.changeUserDictionary
  | .saveAll => (fun _ => .done) <$> Hazkey.saveAll
  | .count => .counted <$> Hazkey.count
  | .diagnostics => .diagnosed <$> Hazkey.diagnostics

end Hazkey
