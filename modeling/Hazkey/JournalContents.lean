import Hazkey.JournalRuns

/-! Kinds of entries that never come into the journal. -/

namespace Hazkey.SessionClient

open ServiceProgram

section

variable [WireCodec] {P : Nat × Option Action → Prop} {s s' u v w : ClientState}
  {t t' : List ClientEvent} {x y : HazkeyJournalEntry} {a : HandleImeAction} {tryConnect : Bool}

/-- No entry of the kind is in the journal. -/
def ClientState.Lacks (P : Nat × Option Action → Prop) (s : ClientState) : Prop :=
  ∀ x ∈ s.queue, ¬ P x.identity

structure Lacking (P : Nat × Option Action → Prop) (s : ClientState) (t : List ClientEvent)
    (s' : ClientState) : Prop where
  kept : WellKept s'.session.journal
  recorded : s.session.journal.recorded ≤ s'.session.journal.recorded
  states : ∀ e ∈ t, e.state.Lacks P
  lacks : s'.Lacks P

def Avoids (P : Nat × Option Action → Prop) (s : ClientState) (t : List ClientEvent)
    (s' : ClientState) : Prop :=
  WellKept s.session.journal → s.Lacks P → Lacking P s t s'

instance : Prog.Composes (Avoids P) where
  refl _ hw hs := ⟨hw, Nat.le_refl _, by simp, hs⟩
  trans _ _ _ _ _ h h' hw hs := by
    have hu := h hw hs
    have hv := h' hu.kept hu.lacks
    exact ⟨hv.kept, hu.recorded.trans hv.recorded,
      List.forall_mem_append.mpr ⟨hu.states, hv.states⟩, hv.lacks⟩

theorem Avoids.then (h : Avoids P s t u) (h' : Avoids P u t' s') : Avoids P s (t ++ t') s' :=
  Prog.Composes.trans (R := Avoids P) _ _ _ _ _ h h'

theorem Lacks.of_identities (hs : s.Lacks P)
    (h : ∀ y ∈ s'.queue, y.identity ∈ s.queue.map (·.identity)) : s'.Lacks P := by
  intro y hy
  obtain ⟨x, hx, he⟩ := List.mem_map.mp (h y hy)
  exact he ▸ hs x hx

theorem Fades.avoids (h : Fades s t s') : Avoids P s t s' := by
  intro hw hs
  have hf := h hw
  exact ⟨hf.kept, hf.recorded.ge, fun e he => Lacks.of_identities hs (hf.within e he),
    Lacks.of_identities hs hf.origin⟩

theorem Quiet.avoids (h : Quiet s t s') : Avoids P s t s' := h.fades.avoids

theorem recordAction_avoids {b : Bool} (ha : ¬ P (s.session.journal.recorded, a.action))
    (h : (recordAction a).Yields s t b s') : Avoids P s t s' := by
  intro hw hs
  obtain ⟨rfl, ⟨rfl, rfl⟩ | ⟨d, hd, entry, rfl, rfl, rfl⟩⟩ := recordAction_cases h
  · exact ⟨hw, Nat.le_refl _, by simp, hs⟩
  rcases record_cases (j := s.session.journal)
    ⟨a.requestID, d, a.expectedRevision, s.session.id, false, 0⟩ with
    ⟨hsame, -⟩ | ⟨-, hfree, hsize, hnew⟩
  · rw [hsame]
    exact ⟨hw, Nat.le_refl _, by simp, hs⟩
  · have hcarries : HazkeyJournalEntry.Carries
        ⟨a.requestID, d, a.expectedRevision, s.session.id, false, s.session.journal.recorded⟩ a :=
      ⟨WireCodec.parse_serializeAction _ _ hd, rfl, rfl⟩
    rw [hnew]
    refine ⟨hw.snoc hsize hfree ⟨a, hcarries⟩, Nat.le_succ _, by simp, fun y hy => ?_⟩
    rcases List.mem_append.mp hy with hy | hy
    · exact hs y hy
    · rw [List.mem_singleton.mp hy]
      have hidentity : HazkeyJournalEntry.identity
          ⟨a.requestID, d, a.expectedRevision, s.session.id, false, s.session.journal.recorded⟩ =
            (s.session.journal.recorded, a.action) := congrArg (_, ·) hcarries.payload
      rw [hidentity]
      exact ha

theorem replayPendingV2_fades {lifecycle : Bool} {value : ReplayResult}
    (h : (replayPendingV2 tryConnect lifecycle).Yields s t value s') : Fades s t s' :=
  fun hw => (replayPendingV2_journal hw h).1.fades hw

/-- The entry of an action that is recorded in an empty journal, and executed, goes no
further than it came. -/
theorem executeJournaled_avoids {attempts : Nat} {collectEffects lifecycle : Bool}
    {value : Option ResponseEnvelope} (hlength : s.queue.length ≤ 1)
    (hx : ∃ x ∈ s.queue, x.Carries a)
    (h : (executeJournaled tryConnect collectEffects lifecycle attempts a).Yields s t value s') :
    Avoids P s t s' := by
  intro hw hs
  obtain ⟨x, hmem, hcarries⟩ := hx
  have hq := eq_singleton_of_mem hmem hlength
  exact (executeJournaled_journal hw hq hcarries h).1.fades.avoids hw hs

omit [WireCodec] in
theorem namedOr_action {named : HandleImeAction} {label : String}
    (h : (namedOr a label).Yields s t named s') : named.action = a.action := by
  rcases namedOr_cases h with ⟨-, k, -, rfl, -⟩ | ⟨-, -, rfl, -⟩
  · rfl
  · rfl

theorem recordNamed_avoids {b : Bool} {named : HandleImeAction} {label : String}
    (ha : ∀ serial, s.session.journal.recorded ≤ serial → ¬ P (serial, a.action))
    (hn : (namedOr a label).Yields s t named u)
    (hrecord : (recordAction (named.rebased u.session.revision)).Yields u [] b w) :
    Avoids P s t w := by
  intro hw hs
  have hserial : s.session.journal.recorded ≤ u.session.journal.recorded :=
    ((namedOr_quiet hn).fades hw).recorded.ge
  have haction : named.action = a.action := namedOr_action hn
  have hfree : ¬ P (u.session.journal.recorded, (named.rebased u.session.revision).action) := by
    rw [show (named.rebased u.session.revision).action = named.action from rfl, haction]
    exact ha _ hserial
  have hrecorded : Avoids P u [] w := recordAction_avoids hfree hrecord
  have hlast := (namedOr_quiet hn).avoids.then hrecorded
  rw [List.append_nil] at hlast
  exact hlast hw hs

/-- The action is recorded under a serial of its own. -/
theorem transactV2_avoids {value : Option ResponseEnvelope}
    (ha : ∀ serial, s.session.journal.recorded ≤ serial → ¬ P (serial, a.action))
    (h : (transactV2 a tryConnect).Yields s t value s') : Avoids P s t s' := by
  intro hw
  have hopen {b : Bool} {u : ClientState} {t : List ClientEvent}
      (ho : (ensureOpen tryConnect).Yields s t b u) : Quiet s t u :=
    Prog.Frames.frame _ _ _ _ ho
  have hlater {b lifecycle : Bool} {u v : ClientState} {t t' : List ClientEvent}
      {value : ReplayResult} (ho : (ensureOpen tryConnect).Yields s t b u)
      (hr : (replayPendingV2 tryConnect lifecycle).Yields u t' value v) (serial : Nat)
      (hserial : v.session.journal.recorded ≤ serial) : ¬ P (serial, a.action) := by
    have hu := (hopen ho).fades hw
    have hv := replayPendingV2_fades hr hu.kept
    rw [hv.recorded, hu.recorded] at hserial
    exact ha serial hserial
  cases transactV2_cases h with
  | unopened ho => exact (hopen ho).avoids hw
  | secure ho hsecure hv hn hx => exact (secureTransaction_fades ho hv hn hx).avoids hw
  | undrained ho hplain hr hd hh =>
    exact (hopen ho).avoids.then ((replayPendingV2_fades hr).avoids.then
      (Quiet.avoids (Prog.Frames.frame _ _ _ _ hh))) hw
  | unrecorded ho hplain hr hd hn hrecorded =>
    exact (hopen ho).avoids.then ((replayPendingV2_fades hr).avoids.then
      (recordNamed_avoids (hlater ho hr) hn hrecorded)) hw
  | @executed t₁ t₂ t₃ t₄ t₅ _ _ _ _ u v w x y _ ho hplain hr hd hn hrecorded hx hdeliver =>
    have hu : Fades s t₁ u := (hopen ho).fades
    have hempty : w.queue = [] := (namedOr_quiet hn).journal.pending.trans
      ((replayPendingV2_journal (hu hw).kept hr).2 hd)
    obtain ⟨-, hlength, hhead⟩ := recordAction_preserves (by simp [hempty]) hrecorded
    rw [hempty] at hlength
    have hexecuted : Avoids P x t₄ y := executeJournaled_avoids hlength (hhead rfl) hx
    have hlast := (hopen ho).avoids.then ((replayPendingV2_fades hr).avoids.then
      ((recordNamed_avoids (hlater ho hr) hn hrecorded).then (hexecuted.then
        (Quiet.avoids (Prog.Frames.frame _ _ _ _ hdeliver)))))
    exact hlast hw

theorem transactV2DurableBestEffort_avoids {value : Option ResponseEnvelope}
    (ha : ∀ serial, s.session.journal.recorded ≤ serial → ¬ P (serial, a.action))
    (h : (transactV2DurableBestEffort a).Yields s t value s') : Avoids P s t s' := by
  cases transactV2DurableBestEffort_cases h with
  | refused => exact Prog.Composes.refl _
  | recorded hplain hdecision hfirst hn hrecorded => exact recordNamed_avoids ha hn hrecorded
  | executed hplain hdecision hfirst hn hrecorded hstaged hhead hx =>
    have hundecided : ∀ x ∈ s.queue, x.decision = none := fun x hx =>
      Option.not_isSome_iff_eq_none.mp (List.any_eq_false.mp hfirst x hx)
    obtain ⟨-, -, hmem⟩ := recordAction_preserves
      (by rw [show ClientState.queue _ = s.queue from (namedOr_quiet hn).journal.pending]; exact hundecided) hrecorded
    exact (recordNamed_avoids ha hn hrecorded).then (executeJournaled_avoids hhead.le (hmem rfl) hx)

/-! Later calls: what is not in the journal any more does not come back. -/

variable {value : ClientAnswer} {call : ClientCall} {n : Nat}

theorem program_avoids (hP : ∀ i, P i → i.1 < s.session.journal.recorded)
    (h : call.program.Yields s t value s') : Avoids P s t s' := by
  have hframes {α : Type} {p : ClientM α} {a : α} [hp : Prog.Frames Fades p]
      (hY : p.Yields s t a s') : Avoids P s t s' := (hp.frame _ _ _ _ hY).avoids
  have hnew (a : HandleImeAction) (serial : Nat) (hserial : s.session.journal.recorded ≤ serial) :
      ¬ P (serial, a.action) := fun hold => not_lt.mpr hserial (hP _ hold)
  cases call with
  | openSession tryConnect | close tryConnect | abandonUnconfirmedInput
  | finalizeWithoutUITarget preferredCommit | shouldApplyEffect effectID =>
    obtain ⟨a, hY, -⟩ := Prog.yields_map.mp h
    exact hframes hY
  | updateContext context =>
    obtain ⟨a, hY, -⟩ := Prog.yields_map.mp h
    exact (updateContext_fades hY).avoids
  | transactV2 action tryConnect =>
    obtain ⟨a, hY, -⟩ := Prog.yields_map.mp h
    exact transactV2_avoids (hnew action) hY
  | transactV2BestEffort action =>
    obtain ⟨a, hY, -⟩ := Prog.yields_map.mp h
    exact (transactV2BestEffort_carried hY).fades.avoids
  | transactV2DurableBestEffort action =>
    obtain ⟨a, hY, -⟩ := Prog.yields_map.mp h
    exact transactV2DurableBestEffort_avoids (hnew action) hY
  | flushPendingV2 tryConnect =>
    obtain ⟨a, hY, -⟩ := Prog.yields_map.mp h
    exact (flushPendingV2_fades hY).avoids

/-- No later call sends an entry of the kind. -/
theorem runs_lack {moves : List ClientMove} (hP : ∀ i, P i → i.1 < n)
    (hw : WellKept s.session.journal) (hn : n ≤ s.session.journal.recorded) (hs : s.Lacks P)
    (h : Runs ClientCall.program s moves s') :
    ∀ m ∈ moves, ∀ f ∈ frames m.trace, ∀ x, f.Sends x → ¬ P x.identity := by
  have hstep (m : ClientMove) (hm : n ≤ m.before.session.journal.recorded)
      (hv : m.Valid ClientCall.program) : Avoids P m.before m.trace m.after :=
    program_avoids (fun i hi => (hP i hi).trans_le hm) hv
  have hinvariant := Runs.invariant
    (J := fun u => WellKept u.session.journal ∧ n ≤ u.session.journal.recorded ∧ u.Lacks P)
    ⟨hw, hn, hs⟩
    (fun m hJ hv => by
      have hlacking := hstep m hJ.2.1 hv hJ.1 hJ.2.2
      exact ⟨hlacking.kept, hJ.2.1.trans hlacking.recorded, hlacking.lacks⟩) h
  intro m hm f hf x hsends
  obtain ⟨hv, ⟨hkept, hrecorded, hlacks⟩, -⟩ := hinvariant.2 m hm
  obtain ⟨e, he, hframe⟩ := mem_frames.mp hf
  obtain ⟨-, y, hy, hidentity, -⟩ := hsends
  rw [frameOf_state hframe] at hy
  rw [← hidentity]
  exact (hstep m hrecorded hv hkept hlacks).states e he y hy

end

end Hazkey.SessionClient
