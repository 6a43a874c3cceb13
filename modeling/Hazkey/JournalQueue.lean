import Mathlib.Data.List.Pairwise
import Hazkey.ClientExecution

/-! The journal as a queue: what is recorded goes to its end, and only its head is
rewritten or leaves it. -/

namespace Hazkey.SessionClient

open ServiceProgram

/-- Neither success nor uncertain nor stale. -/
def isRejectedImeResponse (response : Option ResponseEnvelope) : Bool :=
  !isSuccessfulImeResponse response && !isUncertainImeResponse response &&
    !isStaleImeResponse response

section

variable {j : HazkeyRecoveryJournal} {x : HazkeyJournalEntry} {l : List HazkeyJournalEntry}

/-- Another queue in the place of the one there was. -/
structure Requeued (j k : HazkeyRecoveryJournal) (l : List HazkeyJournalEntry) : Prop where
  pending : k.pending = l
  limit : k.limit = j.limit
  recorded : k.recorded = j.recorded

/-! What the operations of the journal do to its head. -/

theorem find_head (hj : j.pending = x :: l) : j.find x.requestID = some x := by
  simp [HazkeyRecoveryJournal.find, hj]

theorem rewrite_head (hj : j.pending = x :: l) (f : HazkeyJournalEntry → HazkeyJournalEntry) :
    j.rewrite x.requestID f = { j with pending := f x :: l } := by
  simp [HazkeyRecoveryJournal.rewrite, hj, rewriteEntry]

theorem markSent_head (hj : j.pending = x :: l) :
    j.markSent x.requestID = (true, { j with pending := { x with sent := true } :: l }) := by
  simp [HazkeyRecoveryJournal.markSent, find_head hj, rewrite_head hj]

theorem rebindSent_head (hj : j.pending = x :: l) (hsent : x.sent = true) (serializedAction : Data)
    (expectedRevision : UInt64) (sessionID : Text) :
    j.rebindSent x.requestID serializedAction expectedRevision sessionID =
      (true, { j with
        pending := { x with
          serializedAction := serializedAction
          expectedRevision := expectedRevision
          sessionID := sessionID } :: l }) := by
  simp [HazkeyRecoveryJournal.rebindSent, find_head hj, hsent, HazkeyRecoveryJournal.bind,
    rewrite_head hj]

theorem rebaseUnsent_head (hj : j.pending = x :: l) (hsent : x.sent = false)
    (serializedAction : Data) (expectedRevision : UInt64) (sessionID : Text) :
    j.rebaseUnsent x.requestID serializedAction expectedRevision sessionID =
      (true, { j with
        pending := { x with
          serializedAction := serializedAction
          expectedRevision := expectedRevision
          sessionID := sessionID } :: l }) := by
  simp [HazkeyRecoveryJournal.rebaseUnsent, find_head hj, hsent, HazkeyRecoveryJournal.bind,
    rewrite_head hj]

/-- An id that another entry has is refused. -/
theorem replace_head (hj : j.pending = x :: l) (entry : HazkeyJournalEntry) :
    j.replace x.requestID entry =
      if entry.requestID ∈ l.map (·.requestID) then (false, j)
      else (true, { j with pending := { entry with serial := x.serial } :: l }) := by
  have hothers : (j.pending.eraseP fun z => z.requestID = x.requestID) = l := by simp [hj]
  have hany : ((l.any fun z => z.requestID = entry.requestID) = true) ↔
      entry.requestID ∈ l.map (·.requestID) := by simp
  simp only [HazkeyRecoveryJournal.replace, find_head hj, hothers, hany, rewrite_head hj]

/-- What is recorded is accepted as a duplicate of an entry or goes to the end. -/
theorem record_cases (entry : HazkeyJournalEntry) :
    (j.record entry).2 = j ∧
        ((j.record entry).1 = true → ∃ x ∈ j.pending, x.requestID = entry.requestID ∧
          x.serializedAction = entry.serializedAction ∧
          x.expectedRevision = entry.expectedRevision ∧ x.sessionID = entry.sessionID) ∨
      (j.record entry).1 = true ∧ entry.requestID ∉ j.pending.map (·.requestID) ∧
        j.pending.length < j.limit ∧
        (j.record entry).2 = { j with
          pending := j.pending ++ [{ entry with serial := j.recorded }]
          recorded := j.recorded + 1 } := by
  unfold HazkeyRecoveryJournal.record
  split
  · rename_i x hx
    have hmem := List.mem_of_find?_eq_some hx
    have hid := List.find?_some hx
    simp only [decide_eq_true_eq] at hid
    refine .inl ⟨rfl, fun h => ⟨x, hmem, hid, ?_⟩⟩
    simpa [and_assoc] using h
  · rename_i hnone
    split
    · exact .inl ⟨rfl, fun h => by cases h⟩
    · rename_i hsize
      refine .inr ⟨rfl, ?_, by omega, rfl⟩
      intro hmem
      obtain ⟨x, hx, hid⟩ := List.mem_map.mp hmem
      exact absurd (List.find?_eq_none.mp hnone x hx) (by simp [hid])

end

section

variable [WireCodec]

namespace HazkeyJournalEntry

/-- What an entry is to do. -/
def payload (x : HazkeyJournalEntry) : Option Action :=
  (WireCodec.parseAction x.serializedAction).bind (·.action)

/-- What an entry keeps through all its rewritings. -/
def identity (x : HazkeyJournalEntry) : Nat × Option Action := (x.serial, x.payload)

def decision (x : HazkeyJournalEntry) : Option Bool :=
  (WireCodec.parseAction x.serializedAction).bind (·.learningDecision)

/-- The action of an entry in full. -/
def Carries (x : HazkeyJournalEntry) (a : HandleImeAction) : Prop :=
  WireCodec.parseAction x.serializedAction = some a ∧ a.requestID = x.requestID ∧
    a.expectedRevision = x.expectedRevision

theorem Carries.payload {x : HazkeyJournalEntry} {a : HandleImeAction} (h : x.Carries a) :
    x.payload = a.action := by
  simp [HazkeyJournalEntry.payload, h.1]

theorem Carries.decision {x : HazkeyJournalEntry} {a : HandleImeAction} (h : x.Carries a) :
    x.decision = a.learningDecision := by
  simp [HazkeyJournalEntry.decision, h.1]

end HazkeyJournalEntry

/-- The entries stand in the order of their recording, under ids that are pairwise
different, and within the limit; each of them can be read. -/
structure WellKept (j : HazkeyRecoveryJournal) : Prop where
  ids : (j.pending.map (·.requestID)).Nodup
  serials : j.pending.Pairwise fun x y => x.serial < y.serial
  recorded : ∀ x ∈ j.pending, x.serial < j.recorded
  size : j.pending.length ≤ j.limit
  readable : ∀ x ∈ j.pending, ∃ a, x.Carries a

/-- Of any two entries one at most is a decision of the learning. -/
def OneDecision (l : List HazkeyJournalEntry) : Prop :=
  l.Pairwise fun x y => x.decision = none ∨ y.decision = none

variable {j k : HazkeyRecoveryJournal} {x y : HazkeyJournalEntry} {l : List HazkeyJournalEntry}
  {a : HandleImeAction} {d d' : Bool}

theorem OneDecision.eq (h : OneDecision l) (hx : x ∈ l) (hy : y ∈ l) (hdx : x.decision = some d)
    (hdy : y.decision = some d') : x = y := by
  by_contra hne
  have hsymm : Std.Symm fun x y : HazkeyJournalEntry => x.decision = none ∨ y.decision = none :=
    ⟨fun _ _ => Or.symm⟩
  rcases List.Pairwise.forall h hx hy hne with hnone | hnone
  · rw [hdx] at hnone
    cases hnone
  · rw [hdy] at hnone
    cases hnone

theorem WellKept.same (hw : WellKept j) (h : Requeued j k j.pending) : WellKept k where
  ids := h.pending ▸ hw.ids
  serials := h.pending ▸ hw.serials
  recorded := by rw [h.pending, h.recorded]; exact hw.recorded
  size := by rw [h.pending, h.limit]; exact hw.size
  readable := h.pending ▸ hw.readable

theorem WellKept.clear (h : Requeued j k []) : WellKept k where
  ids := by rw [h.pending]; exact List.nodup_nil
  serials := by rw [h.pending]; exact .nil
  recorded := by rw [h.pending]; simp
  size := by rw [h.pending]; simp
  readable := by rw [h.pending]; simp

/-- The head is served. -/
theorem WellKept.tail (hw : WellKept j) (hj : j.pending = x :: l) (h : Requeued j k l) :
    WellKept k := by
  obtain ⟨hids, hserials, hrecorded, hsize, hreadable⟩ := hw
  rw [hj] at hids hserials hrecorded hsize hreadable
  rw [List.length_cons] at hsize
  refine ⟨?_, ?_, ?_, ?_, ?_⟩
  · rw [h.pending]
    exact (List.nodup_cons.mp hids).2
  · rw [h.pending]
    exact (List.pairwise_cons.mp hserials).2
  · rw [h.pending, h.recorded]
    exact fun y hy => hrecorded y (List.mem_cons_of_mem _ hy)
  · rw [h.pending, h.limit]
    omega
  · rw [h.pending]
    exact fun y hy => hreadable y (List.mem_cons_of_mem _ hy)

/-- The head is rewritten, under an id that is not taken. -/
theorem WellKept.head (hw : WellKept j) (hj : j.pending = x :: l) (h : Requeued j k (y :: l))
    (hserial : y.serial = x.serial) (hid : y.requestID ∉ l.map (·.requestID))
    (hy : ∃ a, y.Carries a) : WellKept k := by
  obtain ⟨hids, hserials, hrecorded, hsize, hreadable⟩ := hw
  rw [hj] at hids hserials hrecorded hsize hreadable
  refine ⟨?_, ?_, ?_, ?_, ?_⟩
  · rw [h.pending]
    exact List.nodup_cons.mpr ⟨hid, (List.nodup_cons.mp hids).2⟩
  · rw [h.pending, List.pairwise_cons, hserial]
    exact List.pairwise_cons.mp hserials
  · rw [h.pending, h.recorded, List.forall_mem_cons, hserial]
    exact List.forall_mem_cons.mp hrecorded
  · rw [h.pending, h.limit]
    exact hsize
  · rw [h.pending]
    exact List.forall_mem_cons.mpr ⟨hy, (List.forall_mem_cons.mp hreadable).2⟩

theorem WellKept.head_free (hw : WellKept j) (hj : j.pending = x :: l) :
    x.requestID ∉ l.map (·.requestID) := by
  have hids := hw.ids
  rw [hj] at hids
  exact (List.nodup_cons.mp hids).1

theorem acknowledge_head (hw : WellKept j) (hj : j.pending = x :: l) :
    j.acknowledge x.requestID = { j with pending := l } := by
  have hrest : l.filter (fun z => z.requestID ≠ x.requestID) = l := by
    refine List.filter_eq_self.mpr fun z hz => decide_eq_true fun he => hw.head_free hj ?_
    exact he ▸ List.mem_map_of_mem hz
  simp only [HazkeyRecoveryJournal.acknowledge, hj]
  rw [List.filter_cons_of_neg (by simp), hrest]

theorem WellKept.snoc (hw : WellKept j) (hsize : j.pending.length < j.limit)
    (hid : x.requestID ∉ j.pending.map (·.requestID)) (hx : ∃ a, x.Carries a) :
    WellKept { j with
      pending := j.pending ++ [{ x with serial := j.recorded }]
      recorded := j.recorded + 1 } where
  ids := by
    rw [List.map_append, List.nodup_append]
    refine ⟨hw.ids, by simp, ?_⟩
    intro id hmem id' hmem' he
    have he : id = x.requestID := he.trans (List.mem_singleton.mp hmem')
    exact hid (he ▸ hmem)
  serials := by
    rw [List.pairwise_append]
    refine ⟨hw.serials, List.pairwise_singleton _ _, fun y hy z hz => ?_⟩
    obtain rfl := List.mem_singleton.mp hz
    exact hw.recorded y hy
  recorded y hy := by
    rcases List.mem_append.mp hy with hy | hy
    · exact Nat.lt_succ_of_lt (hw.recorded y hy)
    · obtain rfl := List.mem_singleton.mp hy
      exact Nat.lt_succ_self _
  size := by
    rw [List.length_append, List.length_singleton]
    exact hsize
  readable y hy := by
    rcases List.mem_append.mp hy with hy | hy
    · exact hw.readable y hy
    · obtain rfl := List.mem_singleton.mp hy
      exact hx

end

end Hazkey.SessionClient
