import Hazkey.ClientJournal
import Hazkey.ClientOperations
import Hazkey.ClientEvaluation

/-! Runs of the session client lose no entry of the journal without a reason, and keep
the entries in the order of their recording. -/

namespace Hazkey.SessionClient

open ServiceProgram

section

variable [WireCodec] {s s' u : ClientState} {t t' : List ClientEvent} {x y : HazkeyJournalEntry}

/-- Entries may be recorded, too; their numbers are new. -/
structure Ordered (s : ClientState) (t : List ClientEvent) (s' : ClientState) : Prop where
  kept : WellKept s'.session.journal
  limit : s'.session.journal.limit = s.session.journal.limit
  recorded : s.session.journal.recorded ≤ s'.session.journal.recorded
  origin : ∀ y ∈ s'.queue, y.identity ∈ s.queue.map (·.identity) ∨
    s.session.journal.recorded ≤ y.serial
  states : ∀ e ∈ t, WellKept e.state.session.journal

def Orders (s : ClientState) (t : List ClientEvent) (s' : ClientState) : Prop :=
  WellKept s.session.journal → Ordered s t s'

theorem Fades.orders (h : Fades s t s') : Orders s t s' := by
  intro hw
  have hf := h hw
  exact ⟨hf.kept, hf.limit, hf.recorded.ge, fun y hy => .inl (hf.origin y hy), hf.states⟩

instance : Prog.Composes Orders where
  refl s := Fades.orders (Prog.Composes.refl s)
  trans s t u t' s' h h' hw := by
    have hs := h hw
    have hu := h' hs.kept
    refine ⟨hu.kept, hu.limit.trans hs.limit, hs.recorded.trans hu.recorded, fun y hy => ?_,
      fun e he => ?_⟩
    · rcases hu.origin y hy with hmem | hnew
      · obtain ⟨z, hz, he⟩ := List.mem_map.mp hmem
        rw [← he, show y.serial = z.serial from (congrArg Prod.fst he).symm]
        exact hs.origin z hz
      · exact .inr (hs.recorded.trans hnew)
    · rcases List.mem_append.mp he with he | he
      · exact hs.states e he
      · exact hu.states e he

/-- There is one decision of the learning at most, and the frames are true to the journal. -/
structure Deciding (t : List ClientEvent) (s' : ClientState) : Prop where
  one : OneDecision s'.queue
  states : ∀ e ∈ t, OneDecision e.state.queue
  faithful : ∀ f ∈ frames t, f.Faithful

def Decides (s : ClientState) (t : List ClientEvent) (s' : ClientState) : Prop :=
  WellKept s.session.journal → OneDecision s.queue → Deciding t s'

/-- Entries that were there before, each at its place, hold no other decision. -/
theorem oneDecision_of_origin {l l' : List HazkeyJournalEntry} (h : OneDecision l)
    (hserials : l'.Pairwise fun x y => x.serial < y.serial)
    (horigin : ∀ y ∈ l', y.identity ∈ l.map (·.identity)) : OneDecision l' := by
  refine hserials.imp_of_mem fun {y z} hy hz hlt => ?_
  cases hdy : y.decision with
  | none => exact .inl rfl
  | some d =>
    cases hdz : z.decision with
    | none => exact .inr rfl
    | some d' =>
      obtain ⟨y', hy', hey⟩ := List.mem_map.mp (horigin y hy)
      obtain ⟨z', hz', hez⟩ := List.mem_map.mp (horigin z hz)
      have heq : y' = z' := h.eq hy' hz' ((decision_eq hey).trans hdy) ((decision_eq hez).trans hdz)
      have hserial : y.serial = z.serial :=
        (congrArg Prod.fst hey).symm.trans ((congrArg (·.serial) heq).trans (congrArg Prod.fst hez))
      omega

theorem Fades.decides (h : Fades s t s') : Decides s t s' := by
  intro hw hone
  have hf := h hw
  exact ⟨oneDecision_of_origin hone hf.kept.serials hf.origin,
    fun e he => oneDecision_of_origin hone (hf.states e he).serials (hf.within e he), hf.faithful⟩

/-- The order is kept, and there is one decision at most. -/
structure Keeps (s : ClientState) (t : List ClientEvent) (s' : ClientState) : Prop where
  orders : Orders s t s'
  decides : Decides s t s'

theorem Fades.keeps (h : Fades s t s') : Keeps s t s' := ⟨h.orders, h.decides⟩

instance : Prog.Composes Keeps where
  refl s := Fades.keeps (Prog.Composes.refl s)
  trans s t u t' s' h h' := by
    refine ⟨Prog.Composes.trans (R := Orders) _ _ _ _ _ h.orders h'.orders, fun hw hone => ?_⟩
    have hs := h.decides hw hone
    have hu := h'.decides (h.orders hw).kept hs.one
    refine ⟨hu.one, fun e he => ?_, fun f hf => ?_⟩
    · rcases List.mem_append.mp he with he | he
      · exact hs.states e he
      · exact hu.states e he
    · rw [frames_append] at hf
      rcases List.mem_append.mp hf with hf | hf
      · exact hs.faithful f hf
      · exact hu.faithful f hf

/-- The journal is kept, and nothing is lost without a reason. -/
structure Preserves (s : ClientState) (t : List ClientEvent) (s' : ClientState) : Prop where
  keeps : Keeps s t s'
  accounts : Accounts s t s'

theorem Carried.preserves (h : Carried s t s') : Preserves s t s' :=
  ⟨h.fades.keeps, h.accounts⟩

instance : Prog.Composes Preserves where
  refl s := Carried.preserves (Prog.Composes.refl s)
  trans _ _ _ _ _ h h' :=
    ⟨Prog.Composes.trans (R := Keeps) _ _ _ _ _ h.keeps h'.keeps,
      h.accounts.trans (fun hw => (h.keeps.orders hw).kept) h'.accounts⟩

theorem Preserves.then (h : Preserves s t u) (h' : Preserves u t' s') :
    Preserves s (t ++ t') s' :=
  Prog.Composes.trans (R := Preserves) _ _ _ _ _ h h'

/-- Recording adds an entry at the end, or nothing. -/
theorem recordAction_preserves {a : HandleImeAction} {b : Bool}
    (hundecided : ∀ x ∈ s.queue, x.decision = none)
    (h : (recordAction a).Yields s t b s') : Preserves s [] s' ∧
      s'.queue.length ≤ s.queue.length + 1 ∧ (b = true → ∃ x ∈ s'.queue, x.Carries a) := by
  obtain ⟨rfl, ⟨rfl, rfl⟩ | ⟨d, hd, entry, rfl, rfl, rfl⟩⟩ := recordAction_cases h
  · exact ⟨Prog.Composes.refl _, Nat.le_succ _, fun hb => by cases hb⟩
  have hcarries (n : Nat) : HazkeyJournalEntry.Carries
      ⟨a.requestID, d, a.expectedRevision, s.session.id, false, n⟩ a :=
    ⟨WireCodec.parse_serializeAction _ _ hd, rfl, rfl⟩
  rcases record_cases (j := s.session.journal)
    ⟨a.requestID, d, a.expectedRevision, s.session.id, false, 0⟩ with
    ⟨hsame, hduplicate⟩ | ⟨htrue, hfree, hsize, hnew⟩
  · rw [hsame]
    refine ⟨Prog.Composes.refl (R := Preserves) s, Nat.le_succ _, fun hb => ?_⟩
    obtain ⟨x, hx, hid, hd', hrevision, -⟩ := hduplicate hb
    exact ⟨x, hx, hd' ▸ (hcarries 0).1, hid.symm, hrevision.symm⟩
  · rw [hnew]
    refine ⟨⟨⟨fun hw => ⟨hw.snoc hsize hfree ⟨a, hcarries 0⟩, rfl, Nat.le_succ _, fun y hy => ?_,
      by simp⟩, fun _ hone => ⟨?_, by simp, by simp [frames]⟩⟩, fun _ y hy => .inl ?_⟩, ?_,
      fun _ => ⟨_, List.mem_append_right _ (List.mem_singleton_self _),
        hcarries s.session.journal.recorded⟩⟩
    · rcases List.mem_append.mp hy with hy | hy
      · exact .inl (List.mem_map_of_mem hy)
      · rw [List.mem_singleton.mp hy]
        exact .inr (Nat.le_refl _)
    · exact List.pairwise_append.mpr ⟨hone, List.pairwise_singleton _ _,
        fun y hy _ _ => .inl (hundecided y hy)⟩
    · rcases hy with hy | ⟨e, he, -⟩
      · exact List.mem_map_of_mem (List.mem_append_left _ hy)
      · cases he
    · exact (List.length_append ..).le

omit [WireCodec] in
theorem eq_singleton_of_mem {l : List HazkeyJournalEntry} (hx : x ∈ l) (hl : l.length ≤ 1) :
    l = [x] := by
  match l, hl with
  | [y], _ => exact congrArg (fun z => [z]) (List.mem_singleton.mp hx).symm

omit [WireCodec] in
theorem namedOr_quiet {action named : HandleImeAction} {label : String}
    (h : (namedOr action label).Yields s t named s') : Quiet s t s' :=
  Prog.Frames.frame _ _ _ _ h

theorem transactV2_preserves {action : HandleImeAction} {tryConnect : Bool}
    {value : Option ResponseEnvelope} (hw : WellKept s.session.journal)
    (hplain : s.session.context.secureInput = false)
    (h : (transactV2 action tryConnect).Yields s t value s') : Preserves s t s' := by
  have hopen {b : Bool} {u : ClientState} {t : List ClientEvent}
      (ho : (ensureOpen tryConnect).Yields s t b u) : Carried s t u :=
    Quiet.carried (Prog.Frames.frame _ _ _ _ ho)
  have hrest {result : ReplayResult} {u v : ClientState} {t t' : List ClientEvent}
      (ho : (ensureOpen tryConnect).Yields s t true u)
      (hr : (replayPendingV2 tryConnect false).Yields u t' result v) :
      Carried s (t ++ t') v ∧ (result.drained = true → v.queue = []) := by
    obtain ⟨hreplayed, hdrained⟩ := replayPendingV2_journal ((hopen ho).fades hw).kept hr
    exact ⟨(hopen ho).then hreplayed, hdrained⟩
  have hundecided {u : ClientState} (hu : u.queue = []) : ∀ x ∈ u.queue, x.decision = none := by
    simp [hu]
  cases transactV2_cases h with
  | unopened ho => exact (hopen ho).preserves
  | secure ho hsecure hv hn hx =>
    have hcontext : SameContext s _ _ := Prog.Frames.frame _ _ _ _ ho
    rw [hcontext, hplain] at hsecure
    cases hsecure
  | undrained ho _ hr hd hh =>
    have hlast := (hrest ho hr).1.then (Quiet.carried (Prog.Frames.frame _ _ _ _ hh))
    rw [List.append_assoc] at hlast
    exact hlast.preserves
  | unrecorded ho _ hr hd hn hrecord =>
    obtain ⟨hreplayed, hdrained⟩ := hrest ho hr
    have hempty := (namedOr_quiet hn).journal.pending.trans (hdrained hd)
    have hnamed := hreplayed.then (namedOr_quiet hn).carried
    have hlast := hnamed.preserves.then (recordAction_preserves (hundecided hempty) hrecord).1
    simp only [List.append_assoc, List.append_nil] at hlast
    exact hlast
  | executed ho _ hr hd hn hrecord hx hdeliver =>
    obtain ⟨hreplayed, hdrained⟩ := hrest ho hr
    have hempty := (namedOr_quiet hn).journal.pending.trans (hdrained hd)
    have hnamed := hreplayed.then (namedOr_quiet hn).carried
    obtain ⟨hrecorded, hlength, hhead⟩ := recordAction_preserves (hundecided hempty) hrecord
    have hrecorded := hnamed.preserves.then hrecorded
    obtain ⟨x, hmem, hcarries⟩ := hhead rfl
    have hq := eq_singleton_of_mem hmem (hlength.trans (by simp [hempty]))
    obtain ⟨hexecuted, -⟩ := executeJournaled_journal (hrecorded.keeps.orders hw).kept hq hcarries hx
    have hlast := (hrecorded.then hexecuted.preserves).then
      (Quiet.carried (Prog.Frames.frame _ _ _ _ hdeliver)).preserves
    simp only [List.append_assoc, List.append_nil] at hlast
    exact hlast

theorem transactV2DurableBestEffort_preserves {action : HandleImeAction}
    {value : Option ResponseEnvelope} (hw : WellKept s.session.journal)
    (h : (transactV2DurableBestEffort action).Yields s t value s') : Preserves s t s' := by
  have hundecided {u : ClientState} {t : List ClientEvent} {named : HandleImeAction}
      (hfirst : s.session.hasPendingLearningResolution = false)
      (hn : (namedOr action "fcitx-durable-best-effort-").Yields s t named u) :
      ∀ x ∈ u.queue, x.decision = none := by
    intro x hx
    rw [show u.queue = s.queue from (namedOr_quiet hn).journal.pending] at hx
    exact Option.not_isSome_iff_eq_none.mp (List.any_eq_false.mp hfirst x hx)
  cases transactV2DurableBestEffort_cases h with
  | refused => exact Prog.Composes.refl _
  | recorded hplain ha hfirst hn hrecord =>
    have hlast := (namedOr_quiet hn).carried.preserves.then
      (recordAction_preserves (hundecided hfirst hn) hrecord).1
    rw [List.append_nil] at hlast
    exact hlast
  | executed hplain ha hfirst hn hrecord hstaged hhead hx =>
    obtain ⟨hrecorded, -, hmem⟩ := recordAction_preserves (hundecided hfirst hn) hrecord
    have hrecorded := (namedOr_quiet hn).carried.preserves.then hrecorded
    obtain ⟨x, hmem, hcarries⟩ := hmem rfl
    have hq := eq_singleton_of_mem hmem hhead.le
    obtain ⟨hexecuted, -⟩ := executeJournaled_journal (hrecorded.keeps.orders hw).kept hq hcarries hx
    have hlast := hrecorded.then hexecuted.preserves
    rw [List.append_nil] at hlast
    exact hlast

/-- What is sent past the journal is sent past an empty one. -/
theorem executeV2_direct {action : HandleImeAction} {tryConnect allow : Bool} {channel : Channel}
    {value : Option ResponseEnvelope × HandleImeAction} (hq : s.queue = [])
    (h : (executeV2 .direct action tryConnect allow channel).Yields s t value s') :
    Carried s t s' := by
  have hfaithful (u : ClientState) (hu : u.queue = s.queue) (b : HandleImeAction)
      (answer : Option ResponseEnvelope) (_ : Resent action b) :
      (sentFrame .direct b u answer).Faithful := hu.trans hq
  exact (executeV2_journal hfaithful h).1

theorem transactV2BestEffort_carried {action : HandleImeAction}
    {value : Option ResponseEnvelope}
    (h : (transactV2BestEffort action).Yields s t value s') : Carried s t s' := by
  rcases transactV2BestEffort_cases h with ⟨rfl, -, rfl⟩ |
    ⟨-, hempty, t₁, t₂, named, u, sent, rfl, hn, hx⟩
  · exact Prog.Composes.refl _
  · have hn := namedOr_quiet hn
    exact hn.carried.then (executeV2_direct (hn.journal.pending.trans hempty) hx)

theorem flushPendingV2_carried {tryConnect : Bool} {value : HazkeyFlushResult}
    (hw : WellKept s.session.journal) (hplain : s.session.context.secureInput = false)
    (h : (flushPendingV2 tryConnect).Yields s t value s') : Carried s t s' := by
  rcases flushPendingV2_cases h with ⟨hsecure, -⟩ | ⟨-, ⟨rfl, rfl, -⟩ | hflush⟩
  · rw [hplain] at hsecure
    cases hsecure
  · exact Prog.Composes.refl _
  · obtain ⟨t₁, t₂, replayed, u, rfl, hr, hrest⟩ := flushDeferred_cases hflush
    refine (replayPendingV2_journal hw hr).1.then (Quiet.carried ?_)
    rcases hrest with ⟨r, -, hlast⟩ | ⟨-, -, hlast⟩ | ⟨-, -, hlast⟩
    · exact Prog.Frames.frame _ _ _ _ hlast
    · exact Prog.Frames.frame _ _ _ _ hlast
    · exact Prog.Frames.frame _ _ _ _ hlast

/-! Changes of the context. -/

/-- A replacement is not replaced itself. -/
theorem executeV2_quiet {purpose : FramePurpose} {action : HandleImeAction}
    [Auxiliary purpose (.handleImeAction action)] {tryConnect : Bool} {channel : Channel} {response : Option ResponseEnvelope}
    {sent : HandleImeAction}
    (h : (executeV2 purpose action tryConnect false channel).Yields s t (response, sent) s') :
    Quiet s t s' := by
  cases executeV2_cases h with
  | unopened ho => exact Prog.Frames.frame _ _ _ _ ho
  | concluded ho hx hc =>
    have hlast : Quiet _ [] s' := Prog.Frames.frame _ _ _ _ hc
    have hlast := ((Prog.Frames.frame (R := Quiet) _ _ _ _ ho).then
      (Prog.Frames.frame _ _ _ _ hx)).then hlast
    rwa [List.append_nil] at hlast
  | lost ho hx hlost hallow =>
    exact (Prog.Frames.frame (R := Quiet) _ _ _ _ ho).then (Prog.Frames.frame _ _ _ _ hx)
  | unreplaced ho hx hlost hallow hr => cases hallow
  | replaced ho hx hlost hallow hr hy hc => cases hallow

/-- A definite rejection was given to a frame of the restore or the fallback. -/
theorem executeV2_rejection {purpose : FramePurpose} {action sent : HandleImeAction}
    [hp : Auxiliary purpose (.handleImeAction action)]
    (hpurpose : purpose = .restore ∨ purpose = .fallback)
    {response : Option ResponseEnvelope}
    (h : (executeV2 purpose action true false .normal).Yields s t (response, sent) s')
    (hs : isSuccessfulImeResponse response = false) (hr : isUncertainImeResponse response = false) :
    ∃ f ∈ frames t, f.state.queue = s.queue ∧ f.RefusesRecovery := by
  have hfaithful (u : ClientState) (_ : u.queue = s.queue) (b : HandleImeAction)
      (answer : Option ResponseEnvelope) (hb : Resent action b) :
      (sentFrame purpose b u answer).Faithful := by
    refine faithful_of_auxiliary ?_
    obtain rfl | ⟨n, rfl⟩ := hb
    · exact hp
    · exact inferInstanceAs (Auxiliary purpose (.handleImeAction (action.rebased n)))
  obtain ⟨-, -, ⟨-, hanswered⟩ | ⟨rfl, -⟩⟩ := executeV2_journal hfaithful h
  · cases response with
    | none => cases hr
    | some r =>
      obtain ⟨u, b, answer, -, hu, hmem, hclass⟩ := hanswered r rfl
      exact ⟨_, hmem, hu, .inl ⟨hpurpose, hclass.successful.trans hs, hclass.uncertain.trans hr⟩⟩
  · cases hr

theorem AttemptsInContext.quiet {purpose : FramePurpose} {action : Action}
    [∀ id n, Auxiliary purpose (.handleImeAction ⟨id, n, some action⟩)]
    (hpurpose : purpose = .restore ∨ purpose = .fallback) {label : String}
    {prepare accept retreat : HazkeyClientSession → HazkeyClientSession} [Modest prepare]
    [Modest accept] [Modest retreat] {step : RecoveryStep}
    (h : AttemptsInContext purpose label action prepare accept retreat s t step s') :
    Quiet s t s' ∧
      (step = .rejected → ∃ f ∈ frames t, f.state.queue = s.queue ∧ f.RefusesRecovery) := by
  have hprepared {n : Nat} {t : List ClientEvent} {u v : ClientState}
      {response : Option ResponseEnvelope} {sent : HandleImeAction}
      (hu : u = { s with session := prepare s.session })
      (hx : (executeV2 purpose ⟨u.drawn label n, u.session.revision, some action⟩ true false
        .normal).Yields (u.drawing n) t (response, sent) v) : Quiet s (⟨u, .othersDraw, n⟩ :: t) v := by
    have hu : Quiet s [] u := hu ▸ Steady.change prepare s
    exact (hu.then (quiet_drawing u n)).then (executeV2_quiet hx)
  cases h with
  | @recovered n t r sent u v hu hx hr =>
    have haccept : Quiet v [] { v with session := accept v.session } := Steady.change accept v
    have hcollect : Quiet { v with session := accept v.session } []
        { v with session := (accept v.session).collectResponseEffects r } :=
      Steady.change (R := Quiet) (·.collectResponseEffects r)
        { v with session := accept v.session }
    have hlast := (hprepared hu hx).then (haccept.then hcollect)
    rw [List.append_nil, List.append_nil] at hlast
    exact ⟨hlast, fun h => by cases h⟩
  | @uncertain n t response sent u v hu hx hr =>
    have hlast := (hprepared hu hx).then (Steady.change retreat v)
    rw [List.append_nil] at hlast
    exact ⟨hlast, fun h => by cases h⟩
  | @rejected n t response sent u v hu hx hs hr =>
    refine ⟨hprepared hu hx, fun _ => ?_⟩
    obtain ⟨f, hf, hq, hrefuses⟩ := executeV2_rejection hpurpose hx hs hr
    have hu : Quiet s [] u := hu ▸ Steady.change prepare s
    exact ⟨f, hf, hq.trans hu.journal.pending, hrefuses⟩

theorem restoreInContext_quiet {step : RecoveryStep} (h : restoreInContext.Yields s t step s') :
    Quiet s t s' ∧ (step = .untried → s.session.recoveryCheckpoint = []) ∧
      (step = .rejected → ∃ f ∈ frames t, f.state.queue = s.queue ∧ f.RefusesRecovery) := by
  rcases restoreInContext_cases h with ⟨hnone, rfl, rfl, rfl⟩ | ⟨-, hattempts⟩
  · exact ⟨Prog.Composes.refl _, fun _ => hnone, fun h => by cases h⟩
  · obtain ⟨hquiet, hrejected⟩ := hattempts.quiet (.inl rfl)
    refine ⟨hquiet, ?_, hrejected⟩
    rintro rfl
    cases hattempts

theorem insertInContext_quiet {step : RecoveryStep} (h : insertInContext.Yields s t step s') :
    Quiet s t s' ∧
      (step = .rejected → ∃ f ∈ frames t, f.state.queue = s.queue ∧ f.RefusesRecovery) := by
  rcases insertInContext_cases h with ⟨-, rfl, rfl, rfl⟩ | ⟨-, hattempts⟩
  · exact ⟨Prog.Composes.refl _, fun h => by cases h⟩
  · exact hattempts.quiet (.inr rfl)

theorem restoreContext_quiet {b : Bool} (h : restoreContext.Yields s t b s') :
    Quiet s t s' ∨ b = false ∧ s'.queue = [] ∧
      ((s.session.recoveryCheckpoint = [] ∧ s.session.fallbackComposition ≠ [] ∧
          s.session.canUseStoredTextFallback = false) ∨
        ∃ f ∈ frames t, f.state.queue = s.queue ∧ f.RefusesRecovery) := by
  cases restoreContext_cases h with
  | restored hr => exact .inl (restoreInContext_quiet hr).1
  | unsettled hr hd =>
    exact .inl ((restoreInContext_quiet hr).1.then (Prog.Frames.frame _ _ _ _ hd))
  | inserted hr hstep hi =>
    exact .inl ((restoreInContext_quiet hr).1.then (insertInContext_quiet hi).1)
  | unsettledInsertion hr hstep hi hd =>
    refine .inl ((restoreInContext_quiet hr).1.then ((insertInContext_quiet hi).1.then ?_))
    exact Prog.Frames.frame _ _ _ _ hd
  | @passed t₁ t₂ step insertion u v hr hstep hi hinsertion hrefused =>
    have hu := (restoreInContext_quiet hr).1.then (insertInContext_quiet hi).1
    have hlast : Quiet v [] { v with session :=
        if v.session.recoveryCheckpoint = [] ∧ insertion = .untried then
          v.session.beginFreshEffectNamespace
        else v.session } := by
      split
      · exact Steady.change (·.beginFreshEffectNamespace) v
      · exact Prog.Composes.refl v
    have hlast := hu.then hlast
    rw [List.append_nil] at hlast
    exact .inl hlast
  | @refused t₁ t₂ t₃ step insertion u v w _ hr hstep hi hinsertion hholds hrefused hw ha =>
    obtain ⟨hu, huntried, hrejected⟩ := restoreInContext_quiet hr
    obtain ⟨-, hrejected'⟩ := insertInContext_quiet hi
    have hrestored (he : step = .rejected) : ∃ f ∈ frames (t₁ ++ (t₂ ++ t₃)),
        f.state.queue = s.queue ∧ f.RefusesRecovery := by
      obtain ⟨f, hf, hq, hrefuses⟩ := hrejected he
      exact ⟨f, by simp [hf], hq, hrefuses⟩
    refine .inr ⟨rfl, abandonRejectedRecovery_queue ha, ?_⟩
    rcases hrefused with hunsafe | hstep' | hinsertion'
    · rcases hstep with hstep | hstep
      · exact .inl ⟨huntried hstep, hunsafe⟩
      · exact .inr (hrestored hstep)
    · exact .inr (hrestored hstep')
    · obtain ⟨f, hf, hq, hrefuses⟩ := hrejected' hinsertion'
      exact .inr ⟨f, by simp [hf], hq.trans hu.journal.pending, hrefuses⟩

theorem updateContext_carried {context : ClientContext} {b : Bool}
    (hkeeps : (evaluateHazkeyClientContextTransition s.session.context context).clearPreedit =
      false) (h : (updateContext context).Yields s t b s') : Carried s t s' := by
  have hclose {c b : Bool} {u : ClientState} {t : List ClientEvent}
      (hc : (closeForContext c).Yields s t b u) : Quiet s t u := by
    unfold closeForContext at hc
    exact Prog.Frames.frame _ _ _ _ hc
  have hentered {c : Bool} {u : ClientState} {t : List ClientEvent}
      (hc : (closeForContext c).Yields s t true u) :
      Quiet s t { u with session := u.session.entering s.session.context context } := by
    have henter : Quiet u [] { u with
        session := u.session.entering s.session.context context } := by
      simp only [HazkeyClientSession.entering, hkeeps]
      split
      · exact Prog.Composes.refl _
      · exact ⟨⟨rfl, rfl, rfl⟩, by simp, by simp⟩
    simpa only [List.append_nil] using (hclose hc).then henter
  cases updateContext_cases h with
  | same => exact Prog.Composes.refl _
  | unclosed hc => exact (hclose hc).carried
  | unopened hc hv ho =>
    subst hv
    exact ((hentered hc).then (Prog.Frames.frame _ _ _ _ ho)).carried
  | opened hc hv ho hdone =>
    subst hv
    exact ((hentered hc).then (Prog.Frames.frame _ _ _ _ ho)).carried
  | @restoring t₁ t₂ t₃ _ u v w _ hc hv ho hV2 hplain hkeeps hr =>
    subst hv
    have hopened := (hentered hc).then (Prog.Frames.frame (R := Quiet) _ _ _ _ ho)
    have hfades : Fades s (t₁ ++ t₂ ++ t₃) s' :=
      Prog.Composes.trans (R := Fades) _ _ _ _ _ hopened.fades (Prog.Frames.frame _ _ _ _ hr)
    rw [List.append_assoc] at hfades
    rcases restoreContext_quiet hr with hquiet | ⟨-, -, hunsafe | ⟨f, hf, hq, hrefuses⟩⟩
    · have hlast := hopened.then hquiet
      rw [List.append_assoc] at hlast
      exact hlast.carried
    · obtain ⟨answer, rfl, ⟨-, hno, -⟩ | ⟨result, hresult, -, rfl⟩⟩ := openSession_cases ho
      · cases hno
      · refine hfades.carried_of_refusal (f := openingFrame _ answer) ?_
          (hentered hc).journal.pending (.inr ⟨rfl, by rw [hresult]; rfl, hunsafe⟩)
        simp only [frames_append, List.mem_append]
        exact .inr (.inl (List.mem_singleton_self _))
    · refine hfades.carried_of_refusal (f := f) (by simp [hf]) ?_ hrefuses
      exact hq.trans hopened.journal.pending

/-- Whatever the context: the journal keeps its order. -/
theorem updateContext_fades {context : ClientContext} {b : Bool}
    (h : (updateContext context).Yields s t b s') : Fades s t s' := by
  have hentered (u : ClientState) :
      Fades u [] { u with session := u.session.entering s.session.context context } := by
    unfold HazkeyClientSession.entering
    split
    · exact Prog.Composes.refl u
    · split
      · exact fun _ => ⟨.clear ⟨rfl, rfl, rfl⟩, rfl, rfl, fun _ hy => (List.not_mem_nil hy).elim,
          by simp, by simp, by simp⟩
      · exact Quiet.fades ⟨⟨rfl, rfl, rfl⟩, by simp, by simp⟩
  have hopened {c b : Bool} {u v : ClientState} {t t' : List ClientEvent}
      (hc : (closeForContext c).Yields s t true u)
      (ho : (openSession true).Yields
        { u with session := u.session.entering s.session.context context } t' b v) :
      Fades s (t ++ t') v := by
    unfold closeForContext at hc
    refine Prog.Composes.trans (R := Fades) _ _ _ _ _ (Prog.Frames.frame _ _ _ _ hc) ?_
    exact Prog.Composes.trans (R := Fades) _ _ _ _ _ (hentered u) (Prog.Frames.frame _ _ _ _ ho)
  cases updateContext_cases h with
  | same => exact Prog.Composes.refl _
  | unclosed hc =>
    unfold closeForContext at hc
    exact Prog.Frames.frame _ _ _ _ hc
  | unopened hc hv ho =>
    subst hv
    exact hopened hc ho
  | opened hc hv ho hdone =>
    subst hv
    exact hopened hc ho
  | restoring hc hv ho hV2 hplain hkeeps hr =>
    subst hv
    have hlast := Prog.Composes.trans (R := Fades) _ _ _ _ _ (hopened hc ho)
      (Prog.Frames.frame _ _ _ _ hr)
    rwa [List.append_assoc] at hlast

/-! Whole runs. -/

/-- The moves in which the input is abandoned or its context cleared. -/
def GivesUp (m : ClientMove) : Prop :=
  match m.label with
  | .abandonUnconfirmedInput => True
  | .finalizeWithoutUITarget _ => True
  | .updateContext context =>
    (evaluateHazkeyClientContextTransition m.before.session.context context).clearPreedit = true
  | _ => False

/-- Entries that were recorded by nobody are not in a fresh journal. -/
theorem wellKept_initial (context : ClientContext) (hasRecoveryHandler : Bool) :
    WellKept ({ context := context, hasRecoveryHandler := hasRecoveryHandler } :
      HazkeyClientSession).journal where
  ids := List.nodup_nil
  serials := .nil
  recorded := by simp
  size := Nat.zero_le _
  readable := by simp

/-- A secure transaction forgets the journal and records nothing. -/
theorem transactSecure_fades {action : HandleImeAction} {tryConnect : Bool}
    {value : Option ResponseEnvelope} (hw : WellKept s.session.journal) (hq : s.queue = [])
    (h : (transactSecure action tryConnect).Yields s t value s') : Fades s t s' := by
  rcases transactSecure_cases h with ⟨sent, hx, -⟩ | ⟨t₁, t₂, response, sent, sent', u, n, rfl,
    hx, -, hy⟩
  · exact (executeV2_direct hq hx).fades
  · have hu := executeV2_direct hq hx
    have hempty : u.queue = [] := by
      refine List.eq_nil_iff_forall_not_mem.mpr fun x hx => ?_
      have horigin := (hu.fades hw).origin x hx
      rw [hq] at horigin
      exact List.not_mem_nil horigin
    have hv := hu.then (quiet_drawing u n).carried
    have hlast := hv.then (executeV2_direct (s := u.drawing n) hempty hy)
    rw [List.append_assoc] at hlast
    exact hlast.fades

/-- The session was opened, the journal cleared, and the action sent past it. -/
theorem secureTransaction_fades {action named : HandleImeAction} {tryConnect : Bool}
    {value : Option ResponseEnvelope} {t₁ t₂ t₃ : List ClientEvent} {u v w : ClientState}
    (ho : (ensureOpen tryConnect).Yields s t₁ true u)
    (hv : v = { u with session := u.session.withJournal u.session.journal.clear })
    (hn : (namedOr action "fcitx-").Yields v t₂ named w)
    (hx : (transactSecure (named.rebased w.session.revision) tryConnect).Yields w t₃ value s') :
    Fades s (t₁ ++ (t₂ ++ t₃)) s' := by
  intro hw
  have hu : Fades s t₁ u := Quiet.fades (Prog.Frames.frame _ _ _ _ ho)
  have hcleared : Fades u [] v := by
    subst hv
    exact fun _ => ⟨.clear ⟨rfl, rfl, rfl⟩, rfl, rfl, fun _ hy => (List.not_mem_nil hy).elim,
      by simp, by simp, by simp⟩
  have hempty : v.queue = [] := by
    subst hv
    rfl
  have hv := Prog.Composes.trans (R := Fades) _ _ _ _ _ hu hcleared
  have hw' := Prog.Composes.trans (R := Fades) _ _ _ _ _ hv (namedOr_quiet hn).fades
  have hlast := transactSecure_fades (hw' hw).kept
    ((namedOr_quiet hn).journal.pending.trans hempty) hx
  have hlast := Prog.Composes.trans (R := Fades) _ _ _ _ _ hw' hlast
  simp only [List.append_nil, List.append_assoc] at hlast
  exact hlast hw

theorem transactV2_keeps {action : HandleImeAction} {tryConnect : Bool}
    {value : Option ResponseEnvelope} (hw : WellKept s.session.journal)
    (h : (transactV2 action tryConnect).Yields s t value s') : Keeps s t s' := by
  by_cases hplain : s.session.context.secureInput = false
  · exact (transactV2_preserves hw hplain h).keeps
  cases transactV2_cases h with
  | unopened ho => exact (Quiet.fades (Prog.Frames.frame _ _ _ _ ho)).keeps
  | secure ho hsecure hv hn hx => exact (secureTransaction_fades ho hv hn hx).keeps
  | undrained ho hplain' _ _ _ | unrecorded ho hplain' _ _ _ _
  | executed ho hplain' _ _ _ _ _ _ =>
    have hcontext : SameContext s _ _ := Prog.Frames.frame _ _ _ _ ho
    exact absurd (hcontext ▸ hplain') hplain

/-- Also when the journal is forgotten. -/
theorem flushPendingV2_fades {tryConnect : Bool} {value : HazkeyFlushResult}
    (h : (flushPendingV2 tryConnect).Yields s t value s') : Fades s t s' := by
  intro hw
  by_cases hplain : s.session.context.secureInput = false
  · exact (flushPendingV2_carried hw hplain h).fades hw
  rcases flushPendingV2_cases h with ⟨-, rfl, -, rfl⟩ | ⟨hplain', -⟩
  · exact ⟨.clear ⟨rfl, rfl, rfl⟩, rfl, rfl, fun _ hy => (List.not_mem_nil hy).elim, by simp,
      by simp, by simp⟩
  · exact absurd hplain' hplain

variable {value : ClientAnswer} {call : ClientCall}

theorem program_keeps (hw : WellKept s.session.journal)
    (h : call.program.Yields s t value s') : Keeps s t s' := by
  have hframes {α : Type} {p : ClientM α} {a : α} [hp : Prog.Frames Fades p]
      (hY : p.Yields s t a s') : Keeps s t s' := (hp.frame _ _ _ _ hY).keeps
  cases call with
  | openSession tryConnect | close tryConnect | abandonUnconfirmedInput
  | finalizeWithoutUITarget preferredCommit | shouldApplyEffect effectID =>
    obtain ⟨a, hY, -⟩ := Prog.yields_map.mp h
    exact hframes hY
  | updateContext context =>
    obtain ⟨a, hY, -⟩ := Prog.yields_map.mp h
    exact (updateContext_fades hY).keeps
  | transactV2 action tryConnect =>
    obtain ⟨a, hY, -⟩ := Prog.yields_map.mp h
    exact transactV2_keeps hw hY
  | transactV2BestEffort action =>
    obtain ⟨a, hY, -⟩ := Prog.yields_map.mp h
    exact (transactV2BestEffort_carried hY).fades.keeps
  | transactV2DurableBestEffort action =>
    obtain ⟨a, hY, -⟩ := Prog.yields_map.mp h
    exact (transactV2DurableBestEffort_preserves hw hY).keeps
  | flushPendingV2 tryConnect =>
    obtain ⟨a, hY, -⟩ := Prog.yields_map.mp h
    exact (flushPendingV2_fades hY).keeps

theorem program_accounts {m : ClientMove} (hw : WellKept m.before.session.journal)
    (hplain : m.before.session.context.secureInput = false) (hkeeps : ¬ GivesUp m)
    (hm : m.Valid ClientCall.program) : Accounts m.before m.trace m.after := by
  obtain ⟨call, s, t, value, s'⟩ := m
  have hframes {α : Type} {p : ClientM α} {a : α} [hp : Prog.Frames Carried p]
      (hY : p.Yields s t a s') : Accounts s t s' := (hp.frame _ _ _ _ hY).accounts
  cases call with
  | openSession tryConnect | close tryConnect | shouldApplyEffect effectID =>
    obtain ⟨a, hY, -⟩ := Prog.yields_map.mp hm
    exact hframes hY
  | abandonUnconfirmedInput => exact absurd trivial hkeeps
  | finalizeWithoutUITarget preferredCommit => exact absurd trivial hkeeps
  | updateContext context =>
    obtain ⟨a, hY, -⟩ := Prog.yields_map.mp hm
    exact (updateContext_carried (Bool.eq_false_iff.mpr hkeeps) hY).accounts
  | transactV2 action tryConnect =>
    obtain ⟨a, hY, -⟩ := Prog.yields_map.mp hm
    exact (transactV2_preserves hw hplain hY).accounts
  | transactV2BestEffort action =>
    obtain ⟨a, hY, -⟩ := Prog.yields_map.mp hm
    exact (transactV2BestEffort_carried hY).accounts
  | transactV2DurableBestEffort action =>
    obtain ⟨a, hY, -⟩ := Prog.yields_map.mp hm
    exact (transactV2DurableBestEffort_preserves hw hY).accounts
  | flushPendingV2 tryConnect =>
    obtain ⟨a, hY, -⟩ := Prog.yields_map.mp hm
    exact (flushPendingV2_carried hw hplain hY).accounts

/-- The journal is well kept in every state of a run. -/
theorem run_wellKept {context : ClientContext} {hasRecoveryHandler : Bool}
    {moves : List ClientMove} (h : ClientRun context hasRecoveryHandler moves s) :
    ∀ m ∈ moves, m.Valid ClientCall.program ∧ WellKept m.before.session.journal ∧
      WellKept m.after.session.journal := by
  have hinvariant := Runs.invariant (J := fun s => WellKept s.session.journal)
    (wellKept_initial context hasRecoveryHandler)
    (fun m hw hv => ((program_keeps hw hv).orders hw).kept) h
  exact hinvariant.2

/-- In every run the entries stand in the order of their recording, under different ids and
within the limit; and in a context that is not secure an entry leaves the journal only when
its own action was confirmed or rejected, when the input is given up, or when a lost session
could not be recovered. -/
theorem journal_keeps_unconfirmed {context : ClientContext} {hasRecoveryHandler : Bool}
    {moves : List ClientMove} (h : ClientRun context hasRecoveryHandler moves s) :
    ∀ m ∈ moves, WellKept m.before.session.journal ∧ Ordered m.before m.trace m.after ∧
      (m.before.session.context.secureInput = false → ¬ GivesUp m →
        ∀ x, Held m.before m.trace x →
          x.identity ∈ m.after.queue.map (·.identity) ∨ Departs m.trace x) := by
  intro m hm
  obtain ⟨hv, hbefore, -⟩ := run_wellKept h m hm
  exact ⟨hbefore, (program_keeps hbefore hv).orders hbefore, fun hplain hkeeps x hx =>
    program_accounts hbefore hplain hkeeps hv hbefore x hx⟩

end

/-- The reasons of the claim that no recovery takes part in: its own action was confirmed, or
rejected without being a decision, or it could not be read. -/
def Concluded [WireCodec] (t : List ClientEvent) (x : HazkeyJournalEntry) : Prop :=
  (∃ f ∈ frames t, f.Sends x ∧ (isSuccessfulImeResponse f.answer = true ∨
    isRejectedImeResponse f.answer = true ∧ x.decision = none)) ∨
  WireCodec.parseAction x.serializedAction = none

attribute [local instance] wireFormats

/-- Candidates are on show when an action remains unanswered; its replay finds the session
lost, and what was on show cannot be inserted as text. -/
def lostBehindCandidates : List ClientMove × List (Option ResponseEnvelope) × ClientState :=
  evaluateClient plainContext
    [.updateContext plainContext, .transactV2 (insertion "a") true,
      .transactV2 (insertion "b") true, .flushPendingV2 true]
    [openedAs "S", answeredWith .success (some { composed 1 "a" none [] with candidateItems := 1 }),
      none, none, sessionLost, openedAs "T"]

/-- The last move empties the journal, and none of its frames is confirmed or rejected. -/
theorem lostBehindCandidates_last :
    ∃ m ∈ lostBehindCandidates.1, m.before.session.context.secureInput = false ∧ ¬ GivesUp m ∧
      m.before.queue ≠ [] ∧ m.after.queue = [] ∧
      (∀ x ∈ m.before.queue, (WireCodec.parseAction x.serializedAction).isSome = true) ∧
      ∀ f ∈ frames m.trace, isSuccessfulImeResponse f.answer = false ∧
        isRejectedImeResponse f.answer = false := by
  have hcheck : (lostBehindCandidates.1[3]?.any fun m =>
      !m.before.session.context.secureInput &&
        (match m.label with | .flushPendingV2 _ => true | _ => false) &&
        m.before.queue ≠ [] && m.after.queue = [] &&
        (m.before.queue.all fun x => (WireCodec.parseAction x.serializedAction).isSome) &&
        (frames m.trace).all fun f =>
          !isSuccessfulImeResponse f.answer && !isRejectedImeResponse f.answer) = true := by
    decide +kernel
  obtain ⟨m, hm, hcheck⟩ := (Option.any_eq_true ..).mp hcheck
  simp only [Bool.and_eq_true, Bool.not_eq_true', decide_eq_true_eq, List.all_eq_true] at hcheck
  obtain ⟨⟨⟨⟨⟨hplain, hlabel⟩, hbefore⟩, hafter⟩, hreadable⟩, hanswers⟩ := hcheck
  refine ⟨m, List.mem_of_getElem? hm, hplain, fun hgives => ?_, hbefore, hafter, hreadable,
    hanswers⟩
  unfold GivesUp at hgives
  split at hgives
  · rename_i he
    rw [he] at hlabel
    cases hlabel
  · rename_i he
    rw [he] at hlabel
    cases hlabel
  · rename_i he
    rw [he] at hlabel
    cases hlabel
  · exact hgives

theorem journal_keeps_unconfirmed_recovery :
    ∃ m ∈ lostBehindCandidates.1, ∃ x ∈ m.before.queue, Departs m.trace x := by
  obtain ⟨m, hm, hplain, hkeeps, hbefore, hafter, -⟩ := lostBehindCandidates_last
  obtain ⟨x, hx⟩ := List.exists_mem_of_ne_nil _ hbefore
  have hrun := journal_keeps_unconfirmed (evaluateClient_run plainContext _ _) m hm
  refine ⟨m, hm, x, hx, (hrun.2.2 hplain hkeeps x (.inl hx)).resolve_left ?_⟩
  rw [hafter]
  exact List.not_mem_nil

/-- An entry is lost that got no answer, though nobody gave the input up. -/
theorem journal_loses_unanswered :
    ∃ context moves s, ClientRun context true moves s ∧ ∃ m ∈ moves,
      m.before.session.context.secureInput = false ∧ ¬ GivesUp m ∧
        ∃ x, Held m.before m.trace x ∧ x.identity ∉ m.after.queue.map (·.identity) ∧
          ¬ Concluded m.trace x := by
  obtain ⟨m, hm, hplain, hkeeps, hbefore, hafter, hreadable, hanswers⟩ := lostBehindCandidates_last
  obtain ⟨x, hx⟩ := List.exists_mem_of_ne_nil _ hbefore
  refine ⟨plainContext, lostBehindCandidates.1, lostBehindCandidates.2.2,
    evaluateClient_run _ _ _, m, hm, hplain, hkeeps, x, .inl hx, ?_, ?_⟩
  · rw [hafter]
    exact List.not_mem_nil
  · rintro (⟨f, hf, -, hr | ⟨hr, -⟩⟩ | hnone)
    · rw [(hanswers f hf).1] at hr
      cases hr
    · rw [(hanswers f hf).2] at hr
      cases hr
    · have hsome := hreadable x hx
      rw [hnone] at hsome
      cases hsome

end Hazkey.SessionClient
