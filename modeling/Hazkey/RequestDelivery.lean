import Hazkey.SocketFraming
import Mathlib.Tactic.IntervalCases

/-! Which requests are handled before their client is closed. -/

namespace Hazkey

open LengthFrames Connection

namespace SocketManager

variable {H : Type} {d : SocketManagerDelegate H} {c c' : Connection} {poll : ClientPoll}
  {closing : Closing}

/-- A round in which the peer or the kernel ends the connection leaves no complete frame
behind: there is none when the hang-up is reported or the reads end, and when a write fails
the reads of the round have taken every one. -/
structure Graceful (poll : ClientPoll) (c : Connection) : Prop where
  hangup : poll.hangup = true → Stuck maximumMessageSize (c.input ++ c.unread)
  ends : poll.hangup = false → poll.readable = true →
    (∃ answer ∈ poll.reads, answer.ends = true) →
      Stuck maximumMessageSize (c.input ++ c.unread)
  fails : poll.hangup = false →
    (∃ answer ∈ poll.writes ++ poll.laterWrites, answer.fails = true) →
      payloadsOf maximumMessageSize (c.input ++ c.unread.take
          (if poll.readable = true then taken poll.reads 0 c.unread.length else 0)) =
        payloadsOf maximumMessageSize (c.input ++ c.unread)

/-- Every complete frame up to the first length above the limit has been handled. -/
def Delivered (c : Connection) : Prop := c.queries = payloadsOf maximumMessageSize c.stream

theorem delivered_of_framed (hc : c.Framed)
    (hstuck : Stuck maximumMessageSize (c.input ++ c.unread)) : Delivered c :=
  (hc.cut hstuck).payloads_eq maximumMessageSize_lt

theorem Closes.delivered (h : Closes poll c c' closing) (hc : c.Waiting) (hg : Graceful poll c)
    (hfit : ∀ x ∈ c'.exchanges, x.Fits) : Delivered c' := by
  cases h with
  | hangup hhangup => exact delivered_of_framed hc.toFramed (hg.hangup hhangup)
  | error _ e hhangup hstream houtcome =>
    cases houtcome with
    | unreadable _ _ hreadable hends hreads =>
      have hstuck := hg.ends hhangup hreadable hends
      rw [← hreads.bytes] at hstuck
      exact delivered_of_framed (hreads.framed hc.toFramed) hstuck
    | refused length hrefused =>
      rcases hrefused.cause with ⟨hover, -⟩ | ⟨x, hx, hunfit⟩
      · exact delivered_of_framed hrefused.toFramed (Stuck.of_oversize hover)
      · exact absurd (hfit x hx) hunfit
    | unwritable _ _ hfails hwaiting hunread =>
      have hsame := hg.fails hhangup hfails
      generalize (if poll.readable = true then taken poll.reads 0 c.unread.length else 0) = n
        at hsame hunread
      -- the bytes at hand after the reads are those of the handled frames and the input
      have hbefore : c.stream = (c.queries.flatMap frame ++ (c.input ++ c.unread.take n)) ++
          c.unread.drop n := by
        simp only [List.append_assoc, List.take_append_drop]
        exact hc.stream
      have hafter : c'.stream = (c'.queries.flatMap frame ++ c'.input) ++ c.unread.drop n := by
        rw [← hunread, List.append_assoc]
        exact hwaiting.stream
      have hread : c'.queries.flatMap frame ++ c'.input =
          c.queries.flatMap frame ++ (c.input ++ c.unread.take n) := by
        apply List.append_cancel_right
        rw [← hafter, hstream, hbefore]
      obtain ⟨rest, hcut⟩ := payloadsOf_cut maximumMessageSize (c.input ++ c.unread.take n)
      have hcut := hcut.append_left hc.small_queries
      rw [← hread] at hcut
      obtain ⟨rest', hall⟩ := payloadsOf_cut maximumMessageSize (c.input ++ c.unread)
      have hall := hall.append_left hc.small_queries
      have hstream' : c.queries.flatMap frame ++ (c.input ++ c.unread) = c'.stream := by
        rw [hstream]
        exact hc.stream.symm
      rw [hstream'] at hall
      calc c'.queries = c.queries ++ payloadsOf maximumMessageSize (c.input ++ c.unread.take n) :=
            (hwaiting.cut.unique maximumMessageSize_lt hcut).1
        _ = c.queries ++ payloadsOf maximumMessageSize (c.input ++ c.unread) := by rw [hsame]
        _ = payloadsOf maximumMessageSize c'.stream := hall.payloads_eq maximumMessageSize_lt

theorem Graceful.of_quiet (hhangup : poll.hangup = false)
    (hends : ∀ answer ∈ poll.reads, answer.ends = false)
    (hfails : ∀ answer ∈ poll.writes ++ poll.laterWrites, answer.fails = false) :
    Graceful poll c where
  hangup h := by
    rw [hhangup] at h
    cases h
  ends _ _ h := by
    obtain ⟨answer, hmem, hends'⟩ := h
    rw [hends answer hmem] at hends'
    cases hends'
  fails _ h := by
    obtain ⟨answer, hmem, hfails'⟩ := h
    rw [hfails answer hmem] at hfails'
    cases hfails'

def hangsUp : ClientPoll := ⟨true, true, false, [], [], []⟩

/-- Two frames are handled, and then the peer hangs up. -/
def twoFramesThenHangup : List PollAnswer :=
  [connects (frame [7] ++ frame [8]), polls (readablePoll [.count 100] [.count 100]),
    polls hangsUp]

end SocketManager

end Hazkey
