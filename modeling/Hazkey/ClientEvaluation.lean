import Hazkey.RecoveryData
import Hazkey.SessionClient

/-! Running the session client: a lossless encoding of its messages, and a server whose
answers are given in advance. -/

namespace Hazkey.SessionClient

open ServiceProgram ByteFormat

def dataFormat : Format Data := Format.byte.list

/-- One record holds whatever an action carries. -/
def actionFormat : Format Action :=
  (Format.nat.pair (textFormat.pair (textFormat.pair (textFormat.pair (Format.int.pair
    (Format.uint32.pair (Format.uint32.pair (dataFormat.pair Format.bool)))))))).refine
    (fun
      | .insertText text => (0, text, [], [], 0, 0, 0, [], false)
      | .transformActiveSegment transform => (1, [], [], [], transform, 0, 0, [], false)
      | .reconvert text left right before after =>
        (2, text, left, right, 0, before, after, [], false)
      | .restoreCheckpoint opaqueState => (3, [], [], [], 0, 0, 0, opaqueState, false)
      | .commitUnicodeInput => (4, [], [], [], 0, 0, 0, [], false)
      | .resolvePendingLearning commit => (5, [], [], [], 0, 0, 0, [], commit)
      | .other field body => (6 + field, [], [], [], 0, 0, 0, body, false))
    (fun
      | (0, text, _) => some (.insertText text)
      | (1, _, _, _, transform, _) => some (.transformActiveSegment transform)
      | (2, text, left, right, _, before, after, _) =>
        some (.reconvert text left right before after)
      | (3, _, _, _, _, _, _, opaqueState, _) => some (.restoreCheckpoint opaqueState)
      | (4, _) => some .commitUnicodeInput
      | (5, _, _, _, _, _, _, _, commit) => some (.resolvePendingLearning commit)
      | (field + 6, _, _, _, _, _, _, body, _) => some (.other field body))
    (by
      intro a
      cases a with
      | other field body => simp [Nat.add_comm 6 field]
      | _ => rfl)

def handleImeActionFormat : Format HandleImeAction :=
  (textFormat.pair (Format.uint64.pair actionFormat.option)).refine
    (fun a => (a.requestID, a.expectedRevision, a.action))
    (fun (requestID, expectedRevision, action) => some ⟨requestID, expectedRevision, action⟩)
    fun _ => rfl

def wirePhaseFormat : Format ImePhase :=
  Format.int.refine
    (fun
      | .unspecified => -1
      | .idle => -2
      | .composing => -3
      | .previewing => -4
      | .selecting => -5
      | .reconverting => -6
      | .unicodeInput => -7
      | .unrecognized value => if 0 ≤ value then value else value - 7)
    (fun n => some <|
      if n = -1 then .unspecified else if n = -2 then .idle else if n = -3 then .composing
      else if n = -4 then .previewing else if n = -5 then .selecting
      else if n = -6 then .reconverting else if n = -7 then .unicodeInput
      else .unrecognized (if 0 ≤ n then n else n + 7))
    (by
      intro p
      cases p with
      | unrecognized value => grind
      | _ => rfl)

def preeditStyleFormat : Format PreeditStyle :=
  Format.int.refine
    (fun
      | .unspecified => -1
      | .plain => -2
      | .underline => -3
      | .active => -4
      | .unrecognized value => if 0 ≤ value then value else value - 4)
    (fun n => some <|
      if n = -1 then .unspecified else if n = -2 then .plain else if n = -3 then .underline
      else if n = -4 then .active else .unrecognized (if 0 ≤ n then n else n + 4))
    (by
      intro s
      cases s with
      | unrecognized value => grind
      | _ => rfl)

def snapshotFormat : Format SessionSnapshot :=
  (Format.uint64.pair (wirePhaseFormat.pair
    (((textFormat.pair preeditStyleFormat).refine (fun x : PreeditSpan => (x.text, x.style))
      (fun (text, style) => some ⟨text, style⟩) fun _ => rfl).list.pair (Format.nat.pair
        (((Format.uint64.pair dataFormat).refine (fun x : ClientEffect => (x.effectID, x.body))
          (fun (effectID, body) => some ⟨effectID, body⟩) fun _ => rfl).list.pair
            (dataFormat.option.pair Format.bool)))))).refine
    (fun s => (s.revision, s.phase, s.preedit, s.candidateItems, s.effects, s.recovery,
      s.pendingLearning))
    (fun (revision, phase, preedit, candidateItems, effects, recovery, pendingLearning) =>
      some ⟨revision, phase, preedit, candidateItems, effects, recovery, pendingLearning⟩)
    fun _ => rfl

@[reducible] def wireFormats : WireCodec where
  serializeAction a := some (handleImeActionFormat.write a)
  parseAction := handleImeActionFormat.decode
  parse_serializeAction a d h := by
    obtain rfl := Option.some.inj h
    exact handleImeActionFormat.decode_write a
  serializeSnapshot s := some (snapshotFormat.write s)
  parseSnapshot := snapshotFormat.decode
  parse_serializeSnapshot s d h := by
    obtain rfl := Option.some.inj h
    exact snapshotFormat.decode_write s

attribute [local instance] wireFormats

/-- Nobody else draws numbers; without a next answer the transport fails. -/
def scriptedServer : (c : ClientRequest) → List (Option ResponseEnvelope) →
    c.Answer × List (Option ResponseEnvelope)
  | .transport .., answers => (answers.head?.join, answers.tail)
  | .othersDraw, answers => ((0 : Nat), answers)
  | .recoveryHandler, answers => ((), answers)

/-- The moves of a client session in a context, its last state, and the answers left. -/
def evaluateClient (context : ClientContext) (calls : List ClientCall)
    (answers : List (Option ResponseEnvelope)) :
    List ClientMove × List (Option ResponseEnvelope) × ClientState :=
  execMoves scriptedServer ClientCall.program calls answers { session := { context := context } }

theorem evaluateClient_run (context : ClientContext) (calls : List ClientCall)
    (answers : List (Option ResponseEnvelope)) :
    ClientRun context true (evaluateClient context calls answers).1
      (evaluateClient context calls answers).2.2 :=
  execMoves_runs _ _ _ _ _

/-! Answers for such a server. -/

def openedAs (sessionID : String) : Option ResponseEnvelope :=
  some ⟨.success, [], .openSessionResult ⟨sessionID.toList, 2, 0, 1, true, true, none⟩⟩

def answeredWith (status : StatusCode) (snapshot : Option SessionSnapshot) :
    Option ResponseEnvelope :=
  some ⟨status, [], .handleImeActionResult ⟨status, snapshot⟩⟩

def closedSession : Option ResponseEnvelope := some ⟨.success, [], .other⟩

def sessionLost : Option ResponseEnvelope := some ⟨.sessionNotFound, [], .other⟩

/-- A composition that shows a text. -/
def composed (revision : UInt64) (text : String) (recovery : Option Data)
    (effects : List ClientEffect) : SessionSnapshot :=
  ⟨revision, .composing, [⟨text.toList, .underline⟩], 0, effects, recovery, false⟩

def insertion (text : String) : HandleImeAction := ⟨[], 0, some (.insertText text.toList)⟩

def learningResolution (commit : Bool) : HandleImeAction :=
  ⟨[], 0, some (.resolvePendingLearning commit)⟩

def plainContext : ClientContext := ⟨"editor".toList, "wayland".toList, false⟩

end Hazkey.SessionClient
