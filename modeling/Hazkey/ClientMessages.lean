import Hazkey.Session

/-! The messages of the protocol as the input-method addon builds and reads them. -/

namespace Hazkey.SessionClient

/-- A peer may send a number that has no name. -/
inductive StatusCode
  | unspecified
  | success
  | failed
  | sessionNotFound
  | staleRevision
  | staleCandidate
  | invalidAction
  | converterUnavailable
  | secureInputViolation
  | malformedRequest
  | retryableTransportError
  | unrecognized (value : Int)
  deriving DecidableEq

inductive ImePhase
  | unspecified
  | idle
  | composing
  | previewing
  | selecting
  | reconverting
  | unicodeInput
  | unrecognized (value : Int)
  deriving DecidableEq

inductive PreeditStyle
  | unspecified
  | plain
  | underline
  | active
  | unrecognized (value : Int)
  deriving DecidableEq

structure PreeditSpan where
  text : Text
  style : PreeditStyle
  deriving DecidableEq

/-- What an effect does is encoded in its body; the session client numbers it only. -/
structure ClientEffect where
  effectID : UInt64
  body : Data
  deriving DecidableEq

structure SessionSnapshot where
  revision : UInt64
  phase : ImePhase
  preedit : List PreeditSpan
  candidateItems : Nat
  effects : List ClientEffect
  recovery : Option Data
  pendingLearning : Bool
  deriving DecidableEq

structure HandleImeActionResult where
  status : StatusCode
  snapshot : Option SessionSnapshot
  deriving DecidableEq

structure OpenSessionResult where
  sessionID : Text
  protocolVersion : UInt32
  featureBits : UInt64
  maxSnapshotVersion : UInt32
  recoverySupport : Bool
  idempotentRequestSupport : Bool
  persistentLearningAvailable : Option Bool
  deriving DecidableEq

inductive ResponsePayload
  | sessionSnapshot (snapshot : SessionSnapshot)
  | handleImeActionResult (result : HandleImeActionResult)
  | openSessionResult (result : OpenSessionResult)
  | other
  deriving DecidableEq

structure ResponseEnvelope where
  status : StatusCode
  errorMessage : Text
  payload : ResponsePayload
  deriving DecidableEq

/-- The actions the client looks into; of the others it knows the field and the encoding. -/
inductive Action
  | insertText (text : Text)
  | transformActiveSegment (transform : Int)
  | reconvert (text leftContext rightContext : Text) (deleteBefore deleteAfter : UInt32)
  | restoreCheckpoint (opaqueState : Data)
  | commitUnicodeInput
  | resolvePendingLearning (commit : Bool)
  | other (field : Nat) (body : Data)
  deriving DecidableEq

structure HandleImeAction where
  requestID : Text
  expectedRevision : UInt64
  action : Option Action
  deriving DecidableEq

structure ClientContext where
  program : Text
  frontend : Text
  secureInput : Bool
  deriving DecidableEq

inductive RequestPayload
  | openSession (client : ClientContext) (clientFeatureBits : UInt64)
  | closeSession (sessionID : Text)
  | handleImeAction (action : HandleImeAction)
  deriving DecidableEq

structure RequestEnvelope where
  sessionID : Text
  payload : RequestPayload
  deriving DecidableEq

/-- The encoding of messages: a message that could be encoded is read back. -/
class WireCodec where
  serializeAction : HandleImeAction → Option Data
  parseAction : Data → Option HandleImeAction
  parse_serializeAction : ∀ a d, serializeAction a = some d → parseAction d = some a
  serializeSnapshot : SessionSnapshot → Option Data
  parseSnapshot : Data → Option SessionSnapshot
  parse_serializeSnapshot : ∀ s d, serializeSnapshot s = some d → parseSnapshot d = some s

namespace HandleImeAction

def learningDecision (a : HandleImeAction) : Option Bool :=
  match a.action with
  | some (.resolvePendingLearning commit) => some commit
  | _ => none

def rebased (a : HandleImeAction) (expectedRevision : UInt64) : HandleImeAction :=
  { a with expectedRevision := expectedRevision }

def renamed (a : HandleImeAction) (requestID : Text) : HandleImeAction :=
  { a with requestID := requestID }

@[simp] theorem learningDecision_rebased (a : HandleImeAction) (n : UInt64) :
    (a.rebased n).learningDecision = a.learningDecision := rfl

@[simp] theorem learningDecision_renamed (a : HandleImeAction) (id : Text) :
    (a.renamed id).learningDecision = a.learningDecision := rfl

@[simp] theorem requestID_rebased (a : HandleImeAction) (n : UInt64) :
    (a.rebased n).requestID = a.requestID := rfl

@[simp] theorem requestID_renamed (a : HandleImeAction) (id : Text) :
    (a.renamed id).requestID = id := rfl

end HandleImeAction

namespace ResponseEnvelope

def result (r : ResponseEnvelope) : Option HandleImeActionResult :=
  match r.payload with
  | .handleImeActionResult result => some result
  | _ => none

/-- The snapshot of the action's result. -/
def resultSnapshot (r : ResponseEnvelope) : Option SessionSnapshot :=
  r.result.bind (·.snapshot)

/-- Changes the snapshot of the action's result, where there is one. -/
def mapResult (f : SessionSnapshot → SessionSnapshot) (r : ResponseEnvelope) : ResponseEnvelope :=
  match r.payload with
  | .handleImeActionResult result =>
    { r with payload := .handleImeActionResult { result with snapshot := result.snapshot.map f } }
  | _ => r

/-- Changes the snapshot of the response, whichever kind it is of. -/
def mapSnapshot (f : SessionSnapshot → SessionSnapshot) (r : ResponseEnvelope) :
    ResponseEnvelope :=
  match r.payload with
  | .sessionSnapshot snapshot => { r with payload := .sessionSnapshot (f snapshot) }
  | _ => r.mapResult f

end ResponseEnvelope

def SessionSnapshot.withEffects (s : SessionSnapshot) (effects : List ClientEffect) :
    SessionSnapshot :=
  { s with effects := effects }

/-- Failure snapshots are not authoritative for effects. -/
def ResponseEnvelope.stripped (r : ResponseEnvelope) : ResponseEnvelope :=
  r.mapSnapshot (·.withEffects [])

/-! The classes of responses. -/

def isStaleImeResponse (response : Option ResponseEnvelope) : Bool :=
  response.any fun r =>
    r.status = .staleRevision && r.result.any fun x => x.status = .staleRevision

def isSuccessfulImeResponse (response : Option ResponseEnvelope) : Bool :=
  response.any fun r =>
    r.status = .success && r.result.any fun x => x.status = .success && x.snapshot.isSome

/-- Outer success without a complete inner result proves nothing, and an inner
transport or session status is no semantic rejection. -/
def isUncertainImeResponse (response : Option ResponseEnvelope) : Bool :=
  response.all fun r =>
    r.status = .unspecified || r.status = .sessionNotFound ||
      r.status = .retryableTransportError ||
      (r.status = .success && r.result.all fun x =>
        x.status = .unspecified || x.status = .sessionNotFound ||
          x.status = .retryableTransportError || (x.status = .success && x.snapshot.isNone))

/-- Both envelopes say success, with or without a snapshot. -/
def ResponseEnvelope.trusted (r : ResponseEnvelope) : Bool :=
  r.status = .success && r.result.any fun x => x.status = .success

end Hazkey.SessionClient
