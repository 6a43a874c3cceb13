import Hazkey.LengthFrames
import Hazkey.Text
import Mathlib.Data.List.AList
import Mathlib.Data.List.Sort

/-! The poll loop of the server, and what it does for a client with the answers of the
kernel. -/

namespace Hazkey

open LengthFrames

inductive SocketError
  | clientDisconnected
  | readFailed (errno : Int)
  | writeFailed (errno : Int)
  | messageTooLarge (length : Nat)
  deriving DecidableEq

structure ClientState where
  input : Data
  output : Data
  deriving DecidableEq

/-- A query, the response to it, and how much output was pending when it was given. -/
structure Exchange where
  query : Data
  response : Data
  pendingOutput : Nat
  deriving DecidableEq

/-- A client, with all that its peer writes until it closes, what of it is still to be read,
what has been written back, and the queries that were handled. -/
structure Connection extends ClientState where
  stream : Data
  unread : Data
  sent : Data
  exchanges : List Exchange
  deriving DecidableEq

inductive Closing
  | hangup
  | error (error : SocketError)
  deriving DecidableEq

structure SocketManagerDelegate (H : Type) where
  didReceiveData : H → Int → Data → H × Data
  clientDidConnect : H → Int → H
  clientDidDisconnect : H → Int → H

/-- A read takes some of what is there, or finds that nothing is there yet, or no more. -/
inductive ReadAnswer
  | count (n : Nat)
  | endOfStream
  | wouldBlock
  | failed (errno : Int)
  deriving DecidableEq

inductive WriteAnswer
  | count (n : Nat)
  | wouldBlock
  | failed (errno : Int)
  deriving DecidableEq

/-- What poll reports of a client, and the answers of the calls that follow. -/
structure ClientPoll where
  hangup : Bool
  readable : Bool
  writable : Bool
  reads : List ReadAnswer
  writes : List WriteAnswer
  laterWrites : List WriteAnswer

/-- A round of the loop. Whoever connects comes with the stream that it is going to write. -/
structure PollAnswer where
  accepted : Option (Int × Data)
  client : Int → ClientPoll

structure SocketManager (H : Type) where
  clients : AList fun _ : Int => Connection
  delegate : H
  closed : List (Int × Connection × Closing)

namespace SocketManager

def maximumMessageSize : Nat := 1024 * 1024
def readChunkSize : Nat := 64 * 1024
def maximumReadPerPoll : Nat := 4 * readChunkSize
def maximumPendingOutputSize : Nat := 2 * maximumMessageSize

/-- A read takes at least one byte and at most a chunk of what is there. -/
def readCount (unread n : Nat) : Nat := min (max n 1) (min readChunkSize unread)

def readAvailableData : List ReadAnswer → Nat → Connection → Connection × Option SocketError
  | [], _, c => (c, none)
  | answer :: answers, totalRead, c =>
    if totalRead < maximumReadPerPoll then
      match answer with
      | .count n =>
        if c.unread = [] then (c, none)
        else
          readAvailableData answers (totalRead + readCount c.unread.length n)
            { c with
              input := c.input ++ c.unread.take (readCount c.unread.length n)
              unread := c.unread.drop (readCount c.unread.length n) }
      | .endOfStream => (c, if c.unread = [] then some .clientDisconnected else none)
      | .wouldBlock => (c, none)
      | .failed errno => (c, some (.readFailed errno))
    else (c, none)

section

variable {H : Type} (d : SocketManagerDelegate H) (clientFd : Int)

/-- The query is taken from the input, and the response is given. -/
def handleFrame (query rest response : Data) (c : Connection) : Connection :=
  { c with
    input := rest
    exchanges := c.exchanges ++ [⟨query, response, c.output.length⟩] }

/-- What is refused of a response: its length, or that of the output with it. -/
def refusedLength (c : Connection) (response : Data) : Option Nat :=
  if maximumMessageSize < response.length then some response.length
  else if maximumPendingOutputSize < c.output.length + 4 + response.length then
    some (c.output.length + 4 + response.length)
  else none

/-- Every frame takes four bytes at least, so as many rounds as there are bytes are enough. -/
def processAvailableFrames : Nat → H → Connection → H × Connection × Option SocketError
  | 0, h, c => (h, c, none)
  | rounds + 1, h, c =>
    match front maximumMessageSize c.input with
    | .incomplete => (h, c, none)
    | .oversize length => (h, c, some (.messageTooLarge length))
    | .complete query rest =>
      match d.didReceiveData h clientFd query with
      | (h, response) =>
        match refusedLength c response with
        | some length => (h, handleFrame query rest response c, some (.messageTooLarge length))
        | none =>
          processAvailableFrames rounds h
            { handleFrame query rest response c with output := c.output ++ frame response }

end

def flushAvailableOutput : List WriteAnswer → Connection → Connection × Option SocketError
  | [], c => (c, none)
  | answer :: answers, c =>
    if c.output = [] then (c, none)
    else
      match answer with
      | .count n =>
        if n = 0 then (c, some .clientDisconnected)
        else
          flushAvailableOutput answers
            { c with output := c.output.drop n, sent := c.sent ++ c.output.take n }
      | .wouldBlock => (c, none)
      | .failed errno => (c, some (.writeFailed errno))

variable {H : Type} (d : SocketManagerDelegate H)

def handleClientData (clientFd : Int) (poll : ClientPoll) (h : H) (c : Connection) :
    H × Connection × Option SocketError :=
  match readAvailableData poll.reads 0 c with
  | (c, some error) => (h, c, some error)
  | (c, none) =>
    match processAvailableFrames d clientFd c.input.length h c with
    | (h, c, some error) => (h, c, some error)
    | (h, c, none) => (h, flushAvailableOutput poll.writes c)

def closeClient (clientFd : Int) (c : Connection) (closing : Closing) (m : SocketManager H) :
    SocketManager H where
  clients := m.clients.erase clientFd
  delegate := d.clientDidDisconnect m.delegate clientFd
  closed := m.closed ++ [(clientFd, c, closing)]

/-- What the calls for one client left: it stays, or it is closed after an error. -/
def settle (clientFd : Int) (m : SocketManager H) :
    H × Connection × Option SocketError → SocketManager H
  | (h, c, none) => { m with clients := m.clients.insert clientFd c, delegate := h }
  | (h, c, some error) => closeClient d clientFd c (.error error) { m with delegate := h }

def clientEvents (clientFd : Int) (poll : ClientPoll) (h : H) (c : Connection) :
    H × Connection × Option SocketError :=
  match if poll.readable = true then handleClientData d clientFd poll h c else (h, c, none) with
  | (h, c, some error) => (h, c, some error)
  | (h, c, none) =>
    if poll.writable = true then (h, flushAvailableOutput poll.laterWrites c) else (h, c, none)

def handleClient (answer : PollAnswer) (m : SocketManager H) (clientFd : Int) :
    SocketManager H :=
  match m.clients.lookup clientFd with
  | none => m
  | some c =>
    if (answer.client clientFd).hangup = true then closeClient d clientFd c .hangup m
    else settle d clientFd m (clientEvents d clientFd (answer.client clientFd) m.delegate c)

/-- No descriptor is given that is in use. -/
def handleNewConnection (maximumClients : Nat) (accepted : Option (Int × Data))
    (m : SocketManager H) : SocketManager H :=
  match accepted with
  | none => m
  | some (newClientFd, stream) =>
    if (m.clients.lookup newClientFd).isSome = true then m
    else if maximumClients ≤ m.clients.keys.length then m
    else
      { m with
        clients := m.clients.insert newClientFd ⟨⟨[], []⟩, stream, stream, [], []⟩
        delegate := d.clientDidConnect m.delegate newClientFd }

/-- The clients of a round are those from before it. -/
def listenRound (maximumClients : Nat) (m : SocketManager H) (answer : PollAnswer) :
    SocketManager H :=
  (m.clients.keys.insertionSort (· ≤ ·)).foldl (handleClient d answer)
    (handleNewConnection d maximumClients answer.accepted m)

def startListening (maximumClients : Nat) (h : H) (answers : List PollAnswer) :
    SocketManager H :=
  answers.foldl (listenRound d maximumClients) ⟨∅, h, []⟩

end SocketManager

/-- The bytes that a client writes for a payload. -/
def makeExchange (payload : Data) : Option Data :=
  if 4294967295 < payload.length then none
  else some (header payload.length ++ payload)

end Hazkey
