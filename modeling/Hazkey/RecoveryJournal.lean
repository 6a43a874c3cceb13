import Hazkey.ClientMessages

/-! The in-memory journal of the addon and its ledger of applied effects. -/

namespace Hazkey.SessionClient

/-- The serial numbers the recordings; it is of the model only, to tell an entry that
was renamed from another. -/
structure HazkeyJournalEntry where
  requestID : Text
  serializedAction : Data
  expectedRevision : UInt64
  sessionID : Text
  sent : Bool
  serial : Nat := 0
  deriving DecidableEq

structure HazkeyRecoveryJournal where
  limit : Nat := 64
  lastSnapshot : Data := []
  pending : List HazkeyJournalEntry := []
  recorded : Nat := 0
  deriving DecidableEq

/-- Rewrites the first entry of the id. -/
def rewriteEntry (requestID : Text) (f : HazkeyJournalEntry → HazkeyJournalEntry) :
    List HazkeyJournalEntry → List HazkeyJournalEntry
  | [] => []
  | x :: xs => if x.requestID = requestID then f x :: xs else x :: rewriteEntry requestID f xs

namespace HazkeyRecoveryJournal

def find (j : HazkeyRecoveryJournal) (requestID : Text) : Option HazkeyJournalEntry :=
  j.pending.find? fun x => x.requestID = requestID

def rewrite (j : HazkeyRecoveryJournal) (requestID : Text)
    (f : HazkeyJournalEntry → HazkeyJournalEntry) : HazkeyRecoveryJournal :=
  { j with pending := rewriteEntry requestID f j.pending }

/-- An exact duplicate is accepted and not recorded; a full journal refuses. -/
def record (j : HazkeyRecoveryJournal) (entry : HazkeyJournalEntry) :
    Bool × HazkeyRecoveryJournal :=
  match j.find entry.requestID with
  | some existing =>
    (existing.serializedAction = entry.serializedAction &&
      existing.expectedRevision = entry.expectedRevision &&
      existing.sessionID = entry.sessionID, j)
  | none =>
    if j.limit ≤ j.pending.length then (false, j)
    else (true,
      { j with
        pending := j.pending ++ [{ entry with serial := j.recorded }]
        recorded := j.recorded + 1 })

def replace (j : HazkeyRecoveryJournal) (requestID : Text) (entry : HazkeyJournalEntry) :
    Bool × HazkeyRecoveryJournal :=
  match j.find requestID with
  | none => (false, j)
  | some _ =>
    let others := j.pending.eraseP fun x => x.requestID = requestID
    if others.any (fun x => x.requestID = entry.requestID) = true then (false, j)
    else (true, j.rewrite requestID fun x => { entry with serial := x.serial })

def markSent (j : HazkeyRecoveryJournal) (requestID : Text) : Bool × HazkeyRecoveryJournal :=
  match j.find requestID with
  | none => (false, j)
  | some _ => (true, j.rewrite requestID fun x => { x with sent := true })

def bind (j : HazkeyRecoveryJournal) (requestID : Text) (serializedAction : Data)
    (expectedRevision : UInt64) (sessionID : Text) : HazkeyRecoveryJournal :=
  j.rewrite requestID fun x =>
    { x with
      serializedAction := serializedAction
      expectedRevision := expectedRevision
      sessionID := sessionID }

/-- Only entries that were never sent are rebased. -/
def rebaseUnsent (j : HazkeyRecoveryJournal) (requestID : Text) (serializedAction : Data)
    (expectedRevision : UInt64) (sessionID : Text) : Bool × HazkeyRecoveryJournal :=
  match j.find requestID with
  | none => (false, j)
  | some x =>
    if x.sent = true then (false, j)
    else (true, j.bind requestID serializedAction expectedRevision sessionID)

def rebindSent (j : HazkeyRecoveryJournal) (requestID : Text) (serializedAction : Data)
    (expectedRevision : UInt64) (sessionID : Text) : Bool × HazkeyRecoveryJournal :=
  match j.find requestID with
  | none => (false, j)
  | some x =>
    if x.sent = true then (true, j.bind requestID serializedAction expectedRevision sessionID)
    else (false, j)

def acknowledge (j : HazkeyRecoveryJournal) (requestID : Text) : HazkeyRecoveryJournal :=
  { j with pending := j.pending.filter fun x => x.requestID ≠ requestID }

def confirmSnapshot (j : HazkeyRecoveryJournal) (serializedSnapshot : Data) :
    HazkeyRecoveryJournal :=
  { j with lastSnapshot := serializedSnapshot }

def clear (j : HazkeyRecoveryJournal) : HazkeyRecoveryJournal :=
  { j with lastSnapshot := [], pending := [] }

end HazkeyRecoveryJournal

/-! Entries that are rewritten in place. -/

variable {l : List HazkeyJournalEntry} {f : HazkeyJournalEntry → HazkeyJournalEntry}
  {requestID : Text}

theorem rewriteEntry_map {β : Type} {g : HazkeyJournalEntry → β}
    (h : ∀ x ∈ l, x.requestID = requestID → g (f x) = g x) :
    (rewriteEntry requestID f l).map g = l.map g := by
  induction l with
  | nil => rfl
  | cons x xs ih =>
    by_cases hx : x.requestID = requestID
    · simp [rewriteEntry, hx, h x (List.mem_cons_self ..) hx]
    · have hrest := ih fun y hy => h y (List.mem_cons_of_mem _ hy)
      simp [rewriteEntry, hx, hrest]

/-- A rewritten entry stands in the place of the first one of its id. -/
theorem mem_rewriteEntry {y : HazkeyJournalEntry} (hy : y ∈ rewriteEntry requestID f l) :
    (∃ x, l.find? (fun x => x.requestID = requestID) = some x ∧ y = f x) ∨
      y ∈ l.eraseP fun x => x.requestID = requestID := by
  induction l with
  | nil => cases hy
  | cons x xs ih =>
    by_cases hx : x.requestID = requestID
    · simp only [rewriteEntry, hx, if_true, List.mem_cons] at hy
      simp only [List.find?_cons, List.eraseP_cons, hx, decide_true, cond_true]
      rcases hy with rfl | hy
      · exact .inl ⟨x, rfl, rfl⟩
      · exact .inr hy
    · simp only [rewriteEntry, hx, if_false, List.mem_cons] at hy
      simp only [List.find?_cons, List.eraseP_cons, hx, decide_false, cond_false,
        List.mem_cons]
      rcases hy with rfl | hy
      · exact .inr (.inl rfl)
      · rcases ih hy with h | h
        · exact .inl h
        · exact .inr (.inr h)

theorem rewriteEntry_nodup {id : Text} (hn : (l.map (·.requestID)).Nodup)
    (hf : ∀ x, (f x).requestID = id)
    (hid : ∀ x ∈ l.eraseP (fun x => x.requestID = requestID), x.requestID ≠ id) :
    ((rewriteEntry requestID f l).map (·.requestID)).Nodup := by
  induction l with
  | nil => exact List.nodup_nil
  | cons x xs ih =>
    obtain ⟨hx, hxs⟩ := List.nodup_cons.mp hn
    by_cases he : x.requestID = requestID
    · simp only [List.eraseP_cons, he, decide_true, cond_true] at hid
      simp only [rewriteEntry, he, if_true, List.map_cons, hf, List.nodup_cons]
      refine ⟨?_, hxs⟩
      intro hmem
      obtain ⟨y, hy, hyid⟩ := List.mem_map.mp hmem
      exact hid y hy hyid
    · simp only [List.eraseP_cons, he, decide_false, cond_false, List.mem_cons] at hid
      simp only [rewriteEntry, he, if_false, List.map_cons, List.nodup_cons]
      refine ⟨?_, ih hxs fun y hy => hid y (.inr hy)⟩
      intro hmem
      obtain ⟨y, hy, hyid⟩ := List.mem_map.mp hmem
      rcases mem_rewriteEntry hy with ⟨z, -, rfl⟩ | hy
      · exact hid x (.inl rfl) (hyid.symm.trans (hf z))
      · exact hx (List.mem_map.mpr ⟨y, List.mem_of_mem_eraseP hy, hyid⟩)

/-- A change in place: of the entries only their wire form changes. -/
structure Rewrites (j k : HazkeyRecoveryJournal) : Prop where
  serials : k.pending.map (·.serial) = j.pending.map (·.serial)
  lastSnapshot : k.lastSnapshot = j.lastSnapshot
  limit : k.limit = j.limit
  recorded : k.recorded = j.recorded
  nodup : (j.pending.map (·.requestID)).Nodup → (k.pending.map (·.requestID)).Nodup

theorem rewrites_refl (j : HazkeyRecoveryJournal) : Rewrites j j := ⟨rfl, rfl, rfl, rfl, id⟩

theorem Rewrites.pending_nil {j k : HazkeyRecoveryJournal} (h : Rewrites j k)
    (hj : j.pending = []) : k.pending = [] := by
  have hserials := h.serials
  rw [hj] at hserials
  exact List.map_eq_nil_iff.mp hserials

/-- A rewriting that keeps the id. -/
theorem rewrites_rewrite (j : HazkeyRecoveryJournal) (requestID : Text)
    (hserial : ∀ x, (f x).serial = x.serial) (hid : ∀ x, (f x).requestID = x.requestID) :
    Rewrites j (j.rewrite requestID f) where
  serials := rewriteEntry_map fun x _ _ => hserial x
  lastSnapshot := rfl
  limit := rfl
  recorded := rfl
  nodup hn := by
    have hids : (rewriteEntry requestID f j.pending).map (·.requestID) =
        j.pending.map (·.requestID) := rewriteEntry_map fun x _ _ => hid x
    exact hids ▸ hn

/-- A function of the journal that changes it in place only. -/
class Rewriting (g : HazkeyRecoveryJournal → Bool × HazkeyRecoveryJournal) : Prop where
  rewrites : ∀ j, Rewrites j (g j).2

instance (requestID : Text) : Rewriting (·.markSent requestID) where
  rewrites j := by
    unfold HazkeyRecoveryJournal.markSent
    split
    · exact rewrites_refl j
    · exact rewrites_rewrite j requestID (fun _ => rfl) fun _ => rfl

instance (requestID : Text) (serializedAction : Data) (expectedRevision : UInt64)
    (sessionID : Text) :
    Rewriting (·.rebaseUnsent requestID serializedAction expectedRevision sessionID) where
  rewrites j := by
    unfold HazkeyRecoveryJournal.rebaseUnsent
    split
    · exact rewrites_refl j
    · split
      · exact rewrites_refl j
      · exact rewrites_rewrite j requestID (fun _ => rfl) fun _ => rfl

instance (requestID : Text) (serializedAction : Data) (expectedRevision : UInt64)
    (sessionID : Text) :
    Rewriting (·.rebindSent requestID serializedAction expectedRevision sessionID) where
  rewrites j := by
    unfold HazkeyRecoveryJournal.rebindSent
    split
    · exact rewrites_refl j
    · split
      · exact rewrites_rewrite j requestID (fun _ => rfl) fun _ => rfl
      · exact rewrites_refl j

instance (requestID : Text) (entry : HazkeyJournalEntry) :
    Rewriting (·.replace requestID entry) where
  rewrites j := by
    unfold HazkeyRecoveryJournal.replace
    dsimp only
    split
    · exact rewrites_refl j
    · split
      · exact rewrites_refl j
      · rename_i hnone
        refine ⟨rewriteEntry_map fun x _ _ => rfl, rfl, rfl, rfl, fun hn => ?_⟩
        refine rewriteEntry_nodup hn (fun _ => rfl) fun x hx he => hnone ?_
        exact List.any_eq_true.mpr ⟨x, hx, decide_eq_true he⟩

instance {c : Prop} [Decidable c] {g g' : HazkeyRecoveryJournal → Bool × HazkeyRecoveryJournal}
    [hg : Rewriting g] [hg' : Rewriting g'] : Rewriting fun j => if c then g j else g' j where
  rewrites j := by
    split
    · exact hg.rewrites j
    · exact hg'.rewrites j

structure HazkeyEffectLedger where
  highestApplied : UInt64 := 0
  appliedCount : Nat := 0
  deriving DecidableEq

namespace HazkeyEffectLedger

/-- Effect ids are monotonic, so a high-water mark knows every applied effect. -/
def claim (l : HazkeyEffectLedger) (effectID : UInt64) : Bool × HazkeyEffectLedger :=
  if effectID = 0 ∨ effectID ≤ l.highestApplied then (false, l)
  else (true, ⟨effectID, l.appliedCount + 1⟩)

end HazkeyEffectLedger

end Hazkey.SessionClient
