import Hazkey.MozcSidecarClient

/-! What a helper process is told and what is read from it, over every run of the client: the
observer keeps the bytes of each process in the order in which they went to and fro. -/

namespace Hazkey.MozcSidecarClient

open ServiceProgram LengthFrames MozcSidecar

/-- What was written until something was read, and what was read then. -/
structure Turn where
  question : Data
  answer : Data
  deriving DecidableEq

/-- The pipes of one process, with their turns, the latest first. -/
structure Line where
  input : Nat
  output : Nat
  turns : List Turn
  deriving DecidableEq

structure Wire where
  current : Option Line := none
  closed : List Line := []
  deriving DecidableEq

def writeTurns (data : Data) : List Turn → List Turn
  | ⟨question, []⟩ :: earlier => ⟨question ++ data, []⟩ :: earlier
  | turns => ⟨data, []⟩ :: turns

def Line.write (data : Data) (l : Line) : Line :=
  if data = [] then l else { l with turns := writeTurns data l.turns }

def readTurns (data : Data) : List Turn → List Turn
  | ⟨question, answer⟩ :: earlier => ⟨question, answer ++ data⟩ :: earlier
  | [] => []

def Line.read (data : Data) (l : Line) : Line := { l with turns := readTurns data l.turns }

/-- A process is started only where no other is at hand. What is written or read goes through the
pipes of the process at hand until its input is closed, and an answer follows a question. -/
def wire : Monitor calls Wire
  | w, .run _, some child =>
    if w.current = none then some { w with current := some ⟨child.input, child.output, []⟩ }
    else none
  | w, .write descriptor data, answer =>
    match w.current with
    | some l =>
      if l.input = descriptor then
        some { w with current := some (l.write (data.take ((answer.map (·.1)).getD 0))) }
      else none
    | none => none
  | w, .read descriptor _, answer =>
    match w.current with
    | some l =>
      if l.output = descriptor ∧ l.turns ≠ [] then
        some { w with current := some (l.read ((answer.map (·.1)).getD [])) }
      else none
    | none => none
  | w, .closeFile descriptor, _ =>
    match w.current with
    | some l =>
      if l.input = descriptor then some { current := none, closed := l :: w.closed } else some w
    | none => some w
  | w, _, _ => some w

/-- A request, and the response that was accepted for it, with the payloads of their frames. -/
structure Exchange where
  request : Request
  payload : Data
  answer : Data
  response : Response

def Exchange.turn (e : Exchange) : Turn := ⟨frame e.payload, frame e.answer⟩

/-- The process has shown what it is. -/
def Opened (exchanges : List Exchange) : Prop :=
  ∃ ping, exchanges.getLast? = some ping ∧ ping.response.ok = true ∧
    ping.response.candidates = [] ∧ ping.response.segmentKeySize = 0

/-- What may be asked next. -/
inductive Follows : List Exchange → Request → Prop
  | ping (id : UInt64) : Follows [] (pingRequest id)
  | convert {last : Exchange} {earlier : List Exchange} {reading : Text} {target : Option Int}
      {limit : Int} (hopened : Opened (last :: earlier)) (hvalid : Valid reading target limit) :
      Follows (last :: earlier)
        (convertRequest (followingRequestID last.request.requestID) reading target limit)

section

variable (config : Configuration)

structure Exchange.Sound (e : Exchange) : Prop where
  serialized : config.codec.serializedData e.request = some e.payload
  payload_le : e.payload.length ≤ maximumFrameSize
  parsed : config.codec.serializedBytes e.answer = some e.response
  answer_pos : 0 < e.answer.length
  answer_le : e.answer.length ≤ maximumFrameSize
  version : e.response.protocolVersion = protocolVersion
  requestID : e.response.requestID = e.request.requestID
  dataset : e.response.datasetSha256 = config.expectedDatasetSHA256

/-- The latest first. -/
inductive Dialogue : List Exchange → Prop
  | nil : Dialogue []
  | cons {e : Exchange} {earlier : List Exchange} (h : Dialogue earlier)
      (hfollows : Follows earlier e.request) (hsound : e.Sound config) : Dialogue (e :: earlier)

/-- One more question was not asked to its end, or its answer was given up. -/
structure BrokenOff (exchanges : List Exchange) (request : Request) (payload question answer : Data)
    (l : Line) : Prop where
  follows : Follows exchanges request
  serialized : config.codec.serializedData request = some payload
  payload_le : payload.length ≤ maximumFrameSize
  question_prefix : question <+: frame payload
  answered : answer ≠ [] → question = frame payload
  turns_eq : l.turns = ⟨question, answer⟩ :: exchanges.map Exchange.turn

/-- What a line can be like when it is given up. -/
def Line.Ended (l : Line) : Prop :=
  ∃ exchanges, Dialogue config exchanges ∧
    (l.turns = exchanges.map Exchange.turn ∨
      ∃ request payload question answer,
        BrokenOff config exchanges request payload question answer l)

/-- What a line is like that is still in use. -/
structure Line.AtRest (client : MozcSidecarClient) (last : Exchange) (earlier : List Exchange)
    (l : Line) : Prop where
  dialogue : Dialogue config (last :: earlier)
  opened : Opened (last :: earlier)
  turns_eq : l.turns = (last :: earlier).map Exchange.turn
  nextRequestID_eq : client.nextRequestID = followingRequestID last.request.requestID

/-- The client holds the pipes of the process at hand, and of no other. -/
structure Linked (client : MozcSidecarClient) (w : Wire) : Prop where
  process : client.process.isSome = w.current.isSome
  inputHandle : client.inputHandle = w.current.map Line.input
  outputHandle : client.outputHandle = w.current.map Line.output

structure Kept (client : MozcSidecarClient) (w : Wire) : Prop where
  linked : Linked client w
  closed : ∀ l ∈ w.closed, l.Ended config
  current : ∀ l ∈ w.current, ∃ last earlier, l.AtRest config client last earlier

end

/-! ## Lines -/

variable {config : Configuration} {client : MozcSidecarClient} {w : Wire} {l : Line}
  {exchanges : List Exchange} {request : Request}

theorem frame_ne_nil (payload : Data) : frame payload ≠ [] := by simp [frame, header]

theorem writeTurns_append {a b : Data} (ha : a ≠ []) (turns : List Turn) :
    writeTurns b (writeTurns a turns) = writeTurns (a ++ b) turns := by
  rcases turns with _ | ⟨⟨question, answer⟩, earlier⟩
  · rfl
  · cases answer with
    | nil => simp [writeTurns]
    | cons x answer => rfl

theorem Line.write_append (a b : Data) (l : Line) : (l.write a).write b = l.write (a ++ b) := by
  by_cases ha : a = []
  · simp [Line.write, ha]
  · by_cases hb : b = []
    · simp [Line.write, hb]
    · simp [Line.write, ha, hb, writeTurns_append ha]

@[simp] theorem Line.write_nil (l : Line) : l.write [] = l := by simp [Line.write]

@[simp] theorem Line.write_input (data : Data) (l : Line) : (l.write data).input = l.input := by
  unfold Line.write
  split <;> rfl

@[simp] theorem Line.write_output (data : Data) (l : Line) : (l.write data).output = l.output := by
  unfold Line.write
  split <;> rfl

/-- A new turn begins after an answer. -/
theorem Line.write_turns {data : Data} (hdata : data ≠ [])
    (h : l.turns = exchanges.map Exchange.turn) :
    (l.write data).turns = ⟨data, []⟩ :: exchanges.map Exchange.turn := by
  rw [Line.write, if_neg hdata]
  change writeTurns data l.turns = _
  rw [h]
  cases exchanges with
  | nil => rfl
  | cons e earlier =>
    obtain ⟨x, rest, hframe⟩ := List.exists_cons_of_ne_nil (frame_ne_nil e.answer)
    rw [List.map_cons, Exchange.turn, hframe]
    rfl

theorem readTurns_append (a b : Data) (turns : List Turn) :
    readTurns b (readTurns a turns) = readTurns (a ++ b) turns := by
  cases turns with
  | nil => rfl
  | cons turn earlier => simp [readTurns]

theorem Line.read_append (a b : Data) (l : Line) : (l.read a).read b = l.read (a ++ b) := by
  simp [Line.read, readTurns_append]

@[simp] theorem Line.read_nil (l : Line) : l.read [] = l := by
  obtain ⟨input, output, turns⟩ := l
  cases turns with
  | nil => rfl
  | cons turn earlier => simp [Line.read, readTurns]

@[simp] theorem Line.read_input (data : Data) (l : Line) : (l.read data).input = l.input := rfl

@[simp] theorem Line.read_output (data : Data) (l : Line) : (l.read data).output = l.output := rfl

theorem Line.read_turns_ne_nil {data : Data} (h : l.turns ≠ []) : (l.read data).turns ≠ [] := by
  obtain ⟨turn, earlier, hturns⟩ := List.exists_cons_of_ne_nil h
  simp [Line.read, readTurns, hturns]

theorem Line.ended_of_dialogue (h : Dialogue config exchanges)
    (hl : l.turns = exchanges.map Exchange.turn) : l.Ended config :=
  ⟨exchanges, h, .inl hl⟩

theorem Line.AtRest.ended {last : Exchange} {earlier : List Exchange}
    (h : l.AtRest config client last earlier) : l.Ended config :=
  Line.ended_of_dialogue h.dialogue h.turns_eq

end Hazkey.MozcSidecarClient
