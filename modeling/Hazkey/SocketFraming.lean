import Hazkey.SocketManager
import Mathlib.Data.List.Induction

/-! Whatever the chunks are, a client's queries are the payloads of its frames, and the
responses go back in their order. -/

namespace Hazkey

open LengthFrames

namespace SocketManager

theorem maximumMessageSize_lt : maximumMessageSize < 4294967296 := by decide

end SocketManager

open SocketManager

/-- The response is within its limit, and so is the output with it. -/
def Exchange.Fits (x : Exchange) : Prop :=
  x.response.length ≤ maximumMessageSize ∧
    x.pendingOutput + 4 + x.response.length ≤ maximumPendingOutputSize

def ReadAnswer.ends : ReadAnswer → Bool
  | .endOfStream | .failed _ => true
  | .count _ | .wouldBlock => false

def WriteAnswer.fails : WriteAnswer → Bool
  | .count n => n = 0
  | .failed _ => true
  | .wouldBlock => false

/-- The peer is gone, or the kernel refuses. -/
def SocketError.isOfKernel : SocketError → Bool
  | .messageTooLarge _ => false
  | _ => true

/-- How many bytes the reads take. -/
def taken : List ReadAnswer → Nat → Nat → Nat
  | .count n :: answers, totalRead, unread =>
    if totalRead < maximumReadPerPoll ∧ unread ≠ 0 then
      readCount unread n +
        taken answers (totalRead + readCount unread n) (unread - readCount unread n)
    else 0
  | _, _, _ => 0

namespace Connection

/-- The frames of the queries, the input and what is unread make up the stream, and what has
been and is to be written are the frames of the responses. -/
structure Framed (c : Connection) : Prop where
  stream : c.stream = (c.exchanges.map (·.query)).flatMap frame ++ (c.input ++ c.unread)
  small : ∀ x ∈ c.exchanges, x.query.length ≤ maximumMessageSize
  responses : (∀ x ∈ c.exchanges, x.Fits) →
    c.sent ++ c.output = (c.exchanges.map (·.response)).flatMap frame

/-- Between two rounds the input is what there is of one frame. -/
structure Waiting (c : Connection) : Prop extends Framed c where
  incomplete : front maximumMessageSize c.input = .incomplete
  fit : ∀ x ∈ c.exchanges, x.Fits

/-- A message is too large when its frame says so, or when it is a response that does not
fit. -/
structure Refused (c : Connection) (length : Nat) : Prop extends Framed c where
  cause : front maximumMessageSize c.input = .oversize length ∧ (∀ x ∈ c.exchanges, x.Fits) ∨
    ∃ x ∈ c.exchanges, ¬ x.Fits

variable {c c' : Connection}

def queries (c : Connection) : List Data := c.exchanges.map (·.query)

theorem Framed.small_queries (hc : c.Framed) :
    ∀ payload ∈ c.queries, payload.length ≤ maximumMessageSize := by
  intro payload hmem
  obtain ⟨x, hx, rfl⟩ := List.mem_map.mp hmem
  exact hc.small x hx

/-- Where nothing more can be taken, the stream is cut. -/
theorem Framed.cut (hc : c.Framed) (hstuck : Stuck maximumMessageSize (c.input ++ c.unread)) :
    Cut maximumMessageSize c.stream c.queries (c.input ++ c.unread) := by
  have hstream : c.queries.flatMap frame ++ (c.input ++ c.unread) = c.stream := hc.stream.symm
  have hcut := hstuck.cut.append_left hc.small_queries
  rwa [hstream, List.append_nil] at hcut

/-- What has been read is cut into the queries and the input. -/
theorem Waiting.cut (hc : c.Waiting) : Cut maximumMessageSize
    (c.queries.flatMap frame ++ c.input) c.queries c.input := by
  have hcut := (Stuck.of_incomplete hc.incomplete).cut.append_left hc.small_queries
  rwa [List.append_nil] at hcut

/-- The queries are the first payloads of the stream, and all of them when all of it is read. -/
theorem Waiting.payloads (hc : c.Waiting) {payloads : List Data} {rest : Data}
    (h : Cut maximumMessageSize c.stream payloads rest) :
    c.queries <+: payloads ∧ (c.unread = [] → c.queries = payloads ∧ c.input = rest) := by
  obtain ⟨rest', hcut⟩ := payloadsOf_cut maximumMessageSize (c.input ++ c.unread)
  have hstream : c.queries.flatMap frame ++ (c.input ++ c.unread) = c.stream := hc.stream.symm
  have hall := hcut.append_left hc.small_queries
  rw [hstream] at hall
  obtain ⟨rfl, rfl⟩ := h.unique maximumMessageSize_lt hall
  refine ⟨List.prefix_append _ _, fun hunread => ?_⟩
  have hcut' := (Stuck.of_incomplete hc.incomplete).cut
  rw [hunread, List.append_nil] at hcut
  obtain ⟨hnil, hrest⟩ := hcut'.unique maximumMessageSize_lt hcut
  rw [hunread, List.append_nil, ← hnil, List.append_nil]
  exact ⟨rfl, hrest⟩

theorem Waiting.fresh (stream : Data) : Waiting ⟨⟨[], []⟩, stream, stream, [], []⟩ where
  stream := rfl
  small := by simp
  responses _ := rfl
  incomplete := rfl
  fit := by simp

/-- Only bytes go from what is unread to the input. -/
structure Reads (c c' : Connection) : Prop where
  bytes : c'.input ++ c'.unread = c.input ++ c.unread
  output : c'.output = c.output
  stream : c'.stream = c.stream
  sent : c'.sent = c.sent
  exchanges : c'.exchanges = c.exchanges

theorem Reads.refl (c : Connection) : Reads c c := ⟨rfl, rfl, rfl, rfl, rfl⟩

theorem Reads.trans {c'' : Connection} (h : Reads c c') (h' : Reads c' c'') : Reads c c'' where
  bytes := h'.bytes.trans h.bytes
  output := h'.output.trans h.output
  stream := h'.stream.trans h.stream
  sent := h'.sent.trans h.sent
  exchanges := h'.exchanges.trans h.exchanges

theorem Reads.framed (h : Reads c c') (hc : c.Framed) : c'.Framed where
  stream := by rw [h.stream, h.exchanges, h.bytes, hc.stream]
  small := by rw [h.exchanges]; exact hc.small
  responses := by rw [h.exchanges, h.sent, h.output]; exact hc.responses

/-- Only bytes go from the output to what is sent. -/
structure Writes (c c' : Connection) : Prop where
  bytes : c'.sent ++ c'.output = c.sent ++ c.output
  input : c'.input = c.input
  stream : c'.stream = c.stream
  unread : c'.unread = c.unread
  exchanges : c'.exchanges = c.exchanges

theorem Writes.refl (c : Connection) : Writes c c := ⟨rfl, rfl, rfl, rfl, rfl⟩

theorem Writes.trans {c'' : Connection} (h : Writes c c') (h' : Writes c' c'') :
    Writes c c'' where
  bytes := h'.bytes.trans h.bytes
  input := h'.input.trans h.input
  stream := h'.stream.trans h.stream
  unread := h'.unread.trans h.unread
  exchanges := h'.exchanges.trans h.exchanges

theorem Writes.waiting (h : Writes c c') (hc : c.Waiting) : c'.Waiting where
  stream := by rw [h.stream, h.exchanges, h.input, h.unread]; exact hc.stream
  small := by rw [h.exchanges]; exact hc.small
  responses := by rw [h.exchanges, h.bytes]; exact hc.responses
  incomplete := by rw [h.input]; exact hc.incomplete
  fit := by rw [h.exchanges]; exact hc.fit

end Connection

namespace SocketManager

open Connection

variable {c : Connection}

/-- Reading fails for the kernel's reasons only. -/
theorem readAvailableData_spec (answers : List ReadAnswer) (totalRead : Nat) (c : Connection) :
    Reads c (readAvailableData answers totalRead c).1 ∧
      (readAvailableData answers totalRead c).1.unread =
        c.unread.drop (taken answers totalRead c.unread.length) ∧
      ∀ e, (readAvailableData answers totalRead c).2 = some e →
        e.isOfKernel = true ∧ ∃ answer ∈ answers, answer.ends = true := by
  induction answers generalizing totalRead c with
  | nil => exact ⟨.refl c, rfl, fun e he => by cases he⟩
  | cons answer answers ih =>
    by_cases hmore : totalRead < maximumReadPerPoll
    · cases answer with
      | count n =>
        rw [readAvailableData, if_pos hmore, taken]
        by_cases hnone : c.unread = []
        · rw [if_pos hnone, if_neg (by simp [hnone])]
          exact ⟨.refl c, rfl, fun e he => by cases he⟩
        · rw [if_neg hnone, if_pos ⟨hmore, by simpa using hnone⟩]
          obtain ⟨hreads, hunread, herror⟩ := ih (totalRead + readCount c.unread.length n)
            { c with
              input := c.input ++ c.unread.take (readCount c.unread.length n)
              unread := c.unread.drop (readCount c.unread.length n) }
          have hstep : Reads c { c with
              input := c.input ++ c.unread.take (readCount c.unread.length n)
              unread := c.unread.drop (readCount c.unread.length n) } :=
            ⟨by rw [List.append_assoc, List.take_append_drop], rfl, rfl, rfl, rfl⟩
          refine ⟨hstep.trans hreads, ?_, fun e he => ?_⟩
          · rw [hunread, List.drop_drop, List.length_drop]
          · obtain ⟨hkernel, answer, hmem, hends⟩ := herror e he
            exact ⟨hkernel, answer, List.mem_cons_of_mem _ hmem, hends⟩
      | endOfStream =>
        rw [readAvailableData, if_pos hmore]
        refine ⟨.refl c, rfl, fun e he => ?_⟩
        by_cases hnone : c.unread = []
        · rw [if_pos hnone] at he
          obtain rfl := Option.some.inj he
          exact ⟨rfl, _, List.mem_cons_self, rfl⟩
        · rw [if_neg hnone] at he
          cases he
      | wouldBlock =>
        rw [readAvailableData, if_pos hmore]
        exact ⟨.refl c, rfl, fun e he => by cases he⟩
      | failed errno =>
        rw [readAvailableData, if_pos hmore]
        refine ⟨.refl c, rfl, fun e he => ?_⟩
        obtain rfl := Option.some.inj he
        exact ⟨rfl, _, List.mem_cons_self, rfl⟩
    · have hstop : readAvailableData (answer :: answers) totalRead c = (c, none) := by
        cases answer <;> rw [readAvailableData, if_neg hmore]
      have htaken : taken (answer :: answers) totalRead c.unread.length = 0 := by
        cases answer <;> simp [taken, hmore]
      rw [hstop, htaken]
      exact ⟨.refl c, rfl, fun e he => by cases he⟩

theorem flushAvailableOutput_spec (answers : List WriteAnswer) (c : Connection) :
    Writes c (flushAvailableOutput answers c).1 ∧
      ∀ e, (flushAvailableOutput answers c).2 = some e →
        e.isOfKernel = true ∧ ∃ answer ∈ answers, answer.fails = true := by
  induction answers generalizing c with
  | nil => exact ⟨.refl c, fun e he => by cases he⟩
  | cons answer answers ih =>
    by_cases hempty : c.output = []
    · have hstop : flushAvailableOutput (answer :: answers) c = (c, none) := by
        cases answer <;> rw [flushAvailableOutput, if_pos hempty]
      rw [hstop]
      exact ⟨.refl c, fun e he => by cases he⟩
    · cases answer with
      | count n =>
        rw [flushAvailableOutput, if_neg hempty]
        by_cases hzero : n = 0
        · rw [if_pos hzero]
          refine ⟨.refl c, fun e he => ?_⟩
          obtain rfl := Option.some.inj he
          exact ⟨rfl, _, List.mem_cons_self, by simp [WriteAnswer.fails, hzero]⟩
        · rw [if_neg hzero]
          obtain ⟨hwrites, herror⟩ :=
            ih { c with output := c.output.drop n, sent := c.sent ++ c.output.take n }
          have hstep : Writes c
              { c with output := c.output.drop n, sent := c.sent ++ c.output.take n } :=
            ⟨by rw [List.append_assoc, List.take_append_drop], rfl, rfl, rfl, rfl⟩
          refine ⟨hstep.trans hwrites, fun e he => ?_⟩
          obtain ⟨hkernel, answer, hmem, hfails⟩ := herror e he
          exact ⟨hkernel, answer, List.mem_cons_of_mem _ hmem, hfails⟩
      | wouldBlock =>
        rw [flushAvailableOutput, if_neg hempty]
        exact ⟨.refl c, fun e he => by cases he⟩
      | failed errno =>
        rw [flushAvailableOutput, if_neg hempty]
        refine ⟨.refl c, fun e he => ?_⟩
        obtain rfl := Option.some.inj he
        exact ⟨rfl, _, List.mem_cons_self, rfl⟩

variable {H : Type} {d : SocketManagerDelegate H}

theorem refusedLength_none {response : Data} :
    refusedLength c response = none ↔ response.length ≤ maximumMessageSize ∧
      c.output.length + 4 + response.length ≤ maximumPendingOutputSize := by
  unfold refusedLength
  by_cases hlarge : maximumMessageSize < response.length
  · simp [hlarge]
  · by_cases hpending : maximumPendingOutputSize < c.output.length + 4 + response.length
    · simp [hlarge, hpending]
    · simp [hlarge, hpending]
      omega

theorem forall_exchanges_handleFrame {p : Exchange → Prop} {query rest response : Data} :
    (∀ x ∈ (handleFrame query rest response c).exchanges, p x) ↔
      (∀ x ∈ c.exchanges, p x) ∧ p ⟨query, response, c.output.length⟩ := by
  rw [handleFrame, List.forall_mem_append, List.forall_mem_singleton]

/-- Every complete frame is handled, unless there is a message that is too large. -/
theorem processAvailableFrames_spec (d : SocketManagerDelegate H) (clientFd : Int) (rounds : Nat)
    (h : H) (c : Connection) (hrounds : c.input.length ≤ rounds) (hc : c.Framed)
    (hfit : ∀ x ∈ c.exchanges, x.Fits) :
    ∃ h' c' e, processAvailableFrames d clientFd rounds h c = (h', c', e) ∧
      c'.stream = c.stream ∧ c'.unread = c.unread ∧
      (e = none ∧ c'.Waiting ∨ ∃ length, e = some (.messageTooLarge length) ∧ c'.Refused length) := by
  induction rounds generalizing h c with
  | zero =>
    have hnil : c.input = [] := List.eq_nil_of_length_eq_zero (by omega)
    exact ⟨h, c, none, rfl, rfl, rfl, .inl ⟨rfl, hc, by rw [hnil]; rfl, hfit⟩⟩
  | succ rounds ih =>
    cases hfront : front maximumMessageSize c.input with
    | incomplete =>
      rw [processAvailableFrames, hfront]
      exact ⟨h, c, none, rfl, rfl, rfl, .inl ⟨rfl, hc, hfront, hfit⟩⟩
    | oversize length =>
      rw [processAvailableFrames, hfront]
      exact ⟨h, c, _, rfl, rfl, rfl, .inr ⟨length, rfl, hc, .inl ⟨hfront, hfit⟩⟩⟩
    | complete query rest =>
      obtain ⟨hinput, hsmall⟩ := front_complete hfront
      obtain ⟨h', response, hanswer⟩ : ∃ h' response,
          d.didReceiveData h clientFd query = (h', response) := ⟨_, _, rfl⟩
      rw [processAvailableFrames, hfront]
      simp only [hanswer]
      have hstream : c.stream = ((c.exchanges ++ [(⟨query, response, c.output.length⟩ : Exchange)]).map
          (·.query)).flatMap frame ++ (rest ++ c.unread) := by
        rw [hc.stream, hinput]
        simp
      have hqueries : ∀ x ∈ (handleFrame query rest response c).exchanges,
          x.query.length ≤ maximumMessageSize :=
        forall_exchanges_handleFrame.mpr ⟨hc.small, hsmall⟩
      cases hrefused : refusedLength c response with
      | some length =>
        have hunfit : ¬ Exchange.Fits ⟨query, response, c.output.length⟩ := by
          intro hfits
          rw [refusedLength_none.mpr hfits] at hrefused
          cases hrefused
        have hlast : (⟨query, response, c.output.length⟩ : Exchange) ∈
          (handleFrame query rest response c).exchanges := by simp [handleFrame]
        refine ⟨h', _, _, rfl, rfl, rfl, .inr ⟨length, rfl, ⟨hstream, hqueries, ?_⟩,
          .inr ⟨_, hlast, hunfit⟩⟩⟩
        exact fun hall => absurd (hall _ hlast) hunfit
      | none =>
        have hfits : Exchange.Fits ⟨query, response, c.output.length⟩ :=
          refusedLength_none.mp hrefused
        have hlen : rest.length ≤ rounds := by
          rw [hinput, frame, header] at hrounds
          simp only [List.length_append, List.length_cons, List.length_nil] at hrounds
          omega
        have hall : ∀ x ∈ (handleFrame query rest response c).exchanges, x.Fits :=
          forall_exchanges_handleFrame.mpr ⟨hfit, hfits⟩
        refine ih h' { handleFrame query rest response c with output := c.output ++ frame response }
          hlen ⟨hstream, hqueries, fun _ => ?_⟩ hall
        have hresponses := hc.responses hfit
        simp only [handleFrame, List.map_append, List.flatMap_append, ← hresponses]
        simp

/-- How the calls for a client end: it stays, the reads end or fail, a message is too large, or a
write fails. -/
inductive Outcome (poll : ClientPoll) (c c' : Connection) : Option SocketError → Prop
  | stays (h : c'.Waiting) (hunread : c'.unread = c.unread.drop
        (if poll.readable = true then taken poll.reads 0 c.unread.length else 0)) :
      Outcome poll c c' none
  | unreadable (e : SocketError) (he : e.isOfKernel = true) (hreadable : poll.readable = true)
      (hends : ∃ answer ∈ poll.reads, answer.ends = true) (h : Reads c c') :
      Outcome poll c c' (some e)
  | refused (length : Nat) (h : c'.Refused length) :
      Outcome poll c c' (some (.messageTooLarge length))
  | unwritable (e : SocketError) (he : e.isOfKernel = true)
      (hfails : ∃ answer ∈ poll.writes ++ poll.laterWrites, answer.fails = true)
      (h : c'.Waiting) (hunread : c'.unread = c.unread.drop
        (if poll.readable = true then taken poll.reads 0 c.unread.length else 0)) :
      Outcome poll c c' (some e)

/-- Writing leaves a waiting client waiting. -/
theorem Outcome.flush {poll : ClientPoll} {c' : Connection} (answers : List WriteAnswer)
    (hsub : answers ⊆ poll.writes ++ poll.laterWrites) (h : c'.Waiting)
    (hunread : c'.unread = c.unread.drop
      (if poll.readable = true then taken poll.reads 0 c.unread.length else 0)) :
    (flushAvailableOutput answers c').1.stream = c'.stream ∧
      Outcome poll c (flushAvailableOutput answers c').1 (flushAvailableOutput answers c').2 := by
  obtain ⟨hwrites, herror⟩ := flushAvailableOutput_spec answers c'
  refine ⟨hwrites.stream, ?_⟩
  have hunread' := hwrites.unread.trans hunread
  cases he : (flushAvailableOutput answers c').2 with
  | none => exact .stays (hwrites.waiting h) hunread'
  | some e =>
    obtain ⟨hkernel, answer, hmem, hfails⟩ := herror e he
    exact .unwritable e hkernel ⟨answer, hsub hmem, hfails⟩ (hwrites.waiting h) hunread'

theorem handleClientData_spec (d : SocketManagerDelegate H) (clientFd : Int) (poll : ClientPoll)
    (h : H) (hc : c.Waiting) (hreadable : poll.readable = true) :
    ∃ h' c' e, handleClientData d clientFd poll h c = (h', c', e) ∧ c'.stream = c.stream ∧
      Outcome poll c c' e := by
  obtain ⟨hreads, hunread, herror⟩ := readAvailableData_spec poll.reads 0 c
  obtain ⟨c₁, e₁, hread⟩ : ∃ c₁ e₁, readAvailableData poll.reads 0 c = (c₁, e₁) := ⟨_, _, rfl⟩
  rw [hread] at hreads hunread herror
  rw [handleClientData, hread]
  cases e₁ with
  | some e =>
    obtain ⟨hkernel, hends⟩ := herror e rfl
    exact ⟨h, c₁, some e, rfl, hreads.stream, .unreadable e hkernel hreadable hends hreads⟩
  | none =>
    have hfit : ∀ x ∈ c₁.exchanges, x.Fits := by
      rw [hreads.exchanges]
      exact hc.fit
    obtain ⟨h₂, c₂, e₂, hprocess, hstream, hunread₂, hcases⟩ := processAvailableFrames_spec d
      clientFd c₁.input.length h c₁ (Nat.le_refl _) (hreads.framed hc.toFramed) hfit
    simp only [hprocess]
    have hstream₂ : c₂.stream = c.stream := hstream.trans hreads.stream
    rcases hcases with ⟨rfl, hwaiting⟩ | ⟨length, rfl, hrefused⟩
    · have hunread' : c₂.unread = c.unread.drop
          (if poll.readable = true then taken poll.reads 0 c.unread.length else 0) := by
        rw [hunread₂, if_pos hreadable]
        exact hunread
      obtain ⟨hstream', houtcome⟩ := Outcome.flush (c := c) poll.writes
        (List.subset_append_left _ _) hwaiting hunread'
      exact ⟨h₂, _, _, rfl, hstream'.trans hstream₂, houtcome⟩
    · exact ⟨h₂, c₂, _, rfl, hstream₂, .refused length hrefused⟩

theorem clientEvents_spec (d : SocketManagerDelegate H) (clientFd : Int) (poll : ClientPoll)
    (h : H) (hc : c.Waiting) :
    ∃ h' c' e, clientEvents d clientFd poll h c = (h', c', e) ∧ c'.stream = c.stream ∧
      Outcome poll c c' e := by
  obtain ⟨h', c', e, hdata, hstream, houtcome⟩ : ∃ h' c' e,
      (if poll.readable = true then handleClientData d clientFd poll h c else (h, c, none)) =
        (h', c', e) ∧ c'.stream = c.stream ∧ Outcome poll c c' e := by
    by_cases hreadable : poll.readable = true
    · rw [if_pos hreadable]
      exact handleClientData_spec d clientFd poll h hc hreadable
    · rw [if_neg hreadable]
      exact ⟨h, c, none, rfl, rfl, .stays hc (by rw [if_neg hreadable, List.drop_zero])⟩
  rw [clientEvents, hdata]
  cases houtcome with
  | unreadable e he hreadable hends hreads =>
    exact ⟨h', c', some e, rfl, hstream, .unreadable e he hreadable hends hreads⟩
  | refused length hrefused => exact ⟨h', c', _, rfl, hstream, .refused length hrefused⟩
  | unwritable e he hfails hwaiting hunread =>
    exact ⟨h', c', some e, rfl, hstream, .unwritable e he hfails hwaiting hunread⟩
  | stays hwaiting hunread =>
    dsimp only
    by_cases hwritable : poll.writable = true
    · rw [if_pos hwritable]
      obtain ⟨hstream', houtcome⟩ := Outcome.flush (c := c) poll.laterWrites
        (List.subset_append_right _ _) hwaiting hunread
      exact ⟨h', _, _, rfl, hstream'.trans hstream, houtcome⟩
    · rw [if_neg hwritable]
      exact ⟨h', c', none, rfl, hstream, .stays hwaiting hunread⟩

/-- How a client comes to be closed. -/
inductive Closes (poll : ClientPoll) (c : Connection) : Connection → Closing → Prop
  | hangup (h : poll.hangup = true) : Closes poll c c .hangup
  | error (c' : Connection) (e : SocketError) (h : poll.hangup = false)
      (hstream : c'.stream = c.stream) (houtcome : Outcome poll c c' (some e)) :
      Closes poll c c' (.error e)

variable {m : SocketManager H} {P : Connection → Closing → Prop}

theorem handleClient_cases (answer : PollAnswer) {clientFd : Int}
    (hlookup : m.clients.lookup clientFd = some c) (hc : c.Waiting) :
    (∃ c', c'.Waiting ∧ (handleClient d answer m clientFd).clients = m.clients.insert clientFd c' ∧
      (handleClient d answer m clientFd).closed = m.closed) ∨
    ∃ c' closing, Closes (answer.client clientFd) c c' closing ∧
      (handleClient d answer m clientFd).clients = m.clients.erase clientFd ∧
      (handleClient d answer m clientFd).closed = m.closed ++ [(clientFd, c', closing)] := by
  rw [handleClient, hlookup]
  dsimp only
  by_cases hhangup : (answer.client clientFd).hangup = true
  · rw [if_pos hhangup]
    exact .inr ⟨c, .hangup, .hangup hhangup, rfl, rfl⟩
  · rw [if_neg hhangup]
    obtain ⟨h', c', e, hevents, hstream, houtcome⟩ :=
      clientEvents_spec d clientFd (answer.client clientFd) m.delegate hc
    rw [hevents]
    cases e with
    | none =>
      cases houtcome with
      | stays hwaiting => exact .inl ⟨c', hwaiting, rfl, rfl⟩
    | some e =>
      exact .inr ⟨c', .error e, .error c' e (by simpa using hhangup) hstream houtcome, rfl, rfl⟩

/-- Every client is between two frames, and whatever was closed meets `P`. -/
structure Sound (P : Connection → Closing → Prop) (m : SocketManager H) : Prop where
  waiting : ∀ clientFd c, m.clients.lookup clientFd = some c → c.Waiting
  closed : ∀ x ∈ m.closed, P x.2.1 x.2.2

theorem Sound.handleClient (h : Sound P m) (answer : PollAnswer) (clientFd : Int)
    (hcloses : ∀ c c' closing, m.clients.lookup clientFd = some c → c.Waiting →
      Closes (answer.client clientFd) c c' closing → P c' closing) :
    Sound P (handleClient d answer m clientFd) ∧ ∀ other, other ≠ clientFd →
      (SocketManager.handleClient d answer m clientFd).clients.lookup other =
        m.clients.lookup other := by
  cases hlookup : m.clients.lookup clientFd with
  | none =>
    have hsame : SocketManager.handleClient d answer m clientFd = m := by
      rw [SocketManager.handleClient, hlookup]
    rw [hsame]
    exact ⟨h, fun _ _ => rfl⟩
  | some c =>
    have hc := h.waiting clientFd c hlookup
    rcases handleClient_cases (d := d) answer hlookup hc with
      ⟨c', hwaiting, hclients, hclosed⟩ | ⟨c', closing, hclose, hclients, hclosed⟩
    · refine ⟨⟨fun other c₁ hc₁ => ?_, by rw [hclosed]; exact h.closed⟩, fun other hne => ?_⟩
      · rw [hclients] at hc₁
        by_cases hother : other = clientFd
        · rw [hother, AList.lookup_insert] at hc₁
          exact Option.some.inj hc₁ ▸ hwaiting
        · rw [AList.lookup_insert_ne hother] at hc₁
          exact h.waiting other c₁ hc₁
      · rw [hclients, AList.lookup_insert_ne hne]
    · refine ⟨⟨fun other c₁ hc₁ => ?_, fun x hx => ?_⟩, fun other hne => ?_⟩
      · rw [hclients] at hc₁
        by_cases hother : other = clientFd
        · rw [hother, AList.lookup_erase] at hc₁
          cases hc₁
        · rw [AList.lookup_erase_ne hother] at hc₁
          exact h.waiting other c₁ hc₁
      · rw [hclosed] at hx
        rcases List.mem_append.mp hx with hx | hx
        · exact h.closed x hx
        · rw [List.mem_singleton.mp hx]
          exact hcloses c c' closing hlookup hc hclose
      · rw [hclients, AList.lookup_erase_ne hne]

/-- Each client of a round is handled as it was before the round. -/
theorem Sound.foldl (m₀ : SocketManager H) (answer : PollAnswer) (clientFds : List Int)
    (hnodup : clientFds.Nodup) (h : Sound P m) (hsame : ∀ clientFd ∈ clientFds,
      m.clients.lookup clientFd = m₀.clients.lookup clientFd)
    (hcloses : ∀ clientFd c c' closing, m₀.clients.lookup clientFd = some c → c.Waiting →
      Closes (answer.client clientFd) c c' closing → P c' closing) :
    Sound P (clientFds.foldl (SocketManager.handleClient d answer) m) := by
  induction clientFds generalizing m with
  | nil => exact h
  | cons clientFd clientFds ih =>
    obtain ⟨hnot, hnodup⟩ := List.nodup_cons.mp hnodup
    have hfirst := hsame clientFd List.mem_cons_self
    obtain ⟨hsound, hothers⟩ := h.handleClient (d := d) answer clientFd
      fun c c' closing hc => hcloses clientFd c c' closing (hfirst ▸ hc)
    refine ih hnodup hsound fun other hother => ?_
    rw [hothers other fun heq => hnot (heq ▸ hother)]
    exact hsame other (List.mem_cons_of_mem _ hother)

theorem Sound.handleNewConnection (h : Sound P m) (maximumClients : Nat)
    (accepted : Option (Int × Data)) :
    Sound P (handleNewConnection d maximumClients accepted m) ∧ ∀ clientFd c,
      m.clients.lookup clientFd = some c →
        (SocketManager.handleNewConnection d maximumClients accepted m).clients.lookup clientFd =
          some c := by
  cases accepted with
  | none => exact ⟨h, fun _ _ hc => hc⟩
  | some new =>
    obtain ⟨newFd, stream⟩ := new
    rw [SocketManager.handleNewConnection]
    by_cases hopen : (m.clients.lookup newFd).isSome = true
    · rw [if_pos hopen]
      exact ⟨h, fun _ _ hc => hc⟩
    · rw [if_neg hopen]
      by_cases hfull : maximumClients ≤ m.clients.keys.length
      · rw [if_pos hfull]
        exact ⟨h, fun _ _ hc => hc⟩
      · rw [if_neg hfull]
        refine ⟨⟨fun clientFd c hc => ?_, h.closed⟩, fun clientFd c hc => ?_⟩
        · by_cases heq : clientFd = newFd
          · rw [heq, AList.lookup_insert] at hc
            exact Option.some.inj hc ▸ .fresh stream
          · rw [AList.lookup_insert_ne heq] at hc
            exact h.waiting clientFd c hc
        · have hne : clientFd ≠ newFd := by
            rintro rfl
            rw [hc] at hopen
            exact hopen rfl
          rw [AList.lookup_insert_ne hne]
          exact hc

theorem Sound.listenRound (h : Sound P m) (maximumClients : Nat) (answer : PollAnswer)
    (hcloses : ∀ clientFd c c' closing, m.clients.lookup clientFd = some c → c.Waiting →
      Closes (answer.client clientFd) c c' closing → P c' closing) :
    Sound P (listenRound d maximumClients m answer) := by
  obtain ⟨hsound, hkept⟩ := h.handleNewConnection (d := d) maximumClients answer.accepted
  have hperm := List.perm_insertionSort (· ≤ ·) m.clients.keys
  refine hsound.foldl m answer _ (hperm.nodup_iff.mpr m.clients.keys_nodup) ?_ hcloses
  intro clientFd hmem
  have hopen : (m.clients.lookup clientFd).isSome = true :=
    AList.lookup_isSome.mpr (AList.mem_keys.mpr (hperm.mem_iff.mp hmem))
  obtain ⟨c, hc⟩ := Option.isSome_iff_exists.mp hopen
  rw [hc, hkept clientFd c hc]

/-- What holds of every way to be closed in a run holds of whatever was closed. -/
theorem startListening_sound (maximumClients : Nat) (h : H) (answers : List PollAnswer)
    (hcloses : ∀ before answer, before ++ [answer] <+: answers → ∀ clientFd c c' closing,
      (startListening d maximumClients h before).clients.lookup clientFd = some c → c.Waiting →
        Closes (answer.client clientFd) c c' closing → P c' closing) :
    Sound P (startListening d maximumClients h answers) := by
  induction answers using List.reverseRecOn with
  | nil =>
    constructor
    · intro clientFd c hc
      cases hc
    · intro x hx
      cases hx
  | append_singleton answers answer ih =>
    have hbefore := ih fun before other hfirst =>
      hcloses before other (hfirst.trans (List.prefix_append _ _))
    rw [startListening, List.foldl_append]
    exact hbefore.listenRound maximumClients answer (hcloses answers answer (List.prefix_rfl))

/-- A client is closed by its peer and the kernel, or for a message that is too large. -/
def Closing.Explained (c : Connection) (closing : Closing) : Prop :=
  c.Framed ∧ ((closing = .hangup ∨ ∃ e : SocketError, closing = .error e ∧ e.isOfKernel = true) ∨
    ∃ length, closing = .error (.messageTooLarge length) ∧ c.Refused length)

theorem Closes.explained {poll : ClientPoll} {c' : Connection} {closing : Closing}
    (h : Closes poll c c' closing) (hc : c.Waiting) : Closing.Explained c' closing := by
  cases h with
  | hangup => exact ⟨hc.toFramed, .inl (.inl rfl)⟩
  | error _ e hhangup hstream houtcome =>
    cases houtcome with
    | unreadable _ he _ _ hreads => exact ⟨hreads.framed hc.toFramed, .inl (.inr ⟨e, rfl, he⟩)⟩
    | refused length hrefused => exact ⟨hrefused.toFramed, .inr ⟨length, rfl, hrefused⟩⟩
    | unwritable _ he _ hwaiting _ => exact ⟨hwaiting.toFramed, .inl (.inr ⟨e, rfl, he⟩)⟩

theorem makeExchange_eq {payload : Data} (h : payload.length ≤ maximumMessageSize) :
    makeExchange payload = some (frame payload) := by
  have hlt := maximumMessageSize_lt
  exact if_neg (by omega)

/-- Every query is its own response. -/
def echo : SocketManagerDelegate Unit where
  didReceiveData _ _ data := ((), data)
  clientDidConnect _ _ := ()
  clientDidDisconnect _ _ := ()

def readablePoll (reads : List ReadAnswer) (writes : List WriteAnswer) : ClientPoll :=
  ⟨false, true, false, reads, writes, []⟩

def connects (stream : Data) : PollAnswer := ⟨some (5, stream), fun _ => readablePoll [] []⟩

def polls (poll : ClientPoll) : PollAnswer := ⟨none, fun _ => poll⟩

/-- Two frames in four reads, and their responses in three writes. -/
def piecemeal : List PollAnswer :=
  [connects (frame [7, 8] ++ frame [9]), polls (readablePoll [.count 3] []),
    polls (readablePoll [.count 4, .count 1] [.count 2]),
    polls (readablePoll [.count 100, .wouldBlock] [.count 1, .count 100])]

end SocketManager

end Hazkey
