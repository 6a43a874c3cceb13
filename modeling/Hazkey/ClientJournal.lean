import Hazkey.JournalQueue

/-! What the programs of the session client do to its journal. -/

namespace Hazkey.SessionClient

open ServiceProgram

abbrev ClientState.queue (s : ClientState) : List HazkeyJournalEntry := s.session.journal.pending

/-- Nothing is done to the journal, and no frame concerns the action of a caller. -/
structure Quiet (s : ClientState) (t : List ClientEvent) (s' : ClientState) : Prop where
  journal : Requeued s.session.journal s'.session.journal s.queue
  states : ∀ e ∈ t, Requeued s.session.journal e.state.session.journal s.queue
  auxiliary : ∀ f ∈ frames t, Auxiliary f.purpose f.request.payload

theorem Requeued.trans {j j' k : HazkeyRecoveryJournal} {l : List HazkeyJournalEntry}
    (h : Requeued j j' l) (h' : Requeued j' k j'.pending) : Requeued j k l :=
  ⟨h'.pending.trans h.pending, h'.limit.trans h.limit, h'.recorded.trans h.recorded⟩

instance : Prog.Composes Quiet where
  refl s := ⟨⟨rfl, rfl, rfl⟩, by simp, by simp⟩
  trans s t u t' s' h h' := by
    refine ⟨h.journal.trans h'.journal, fun e he => ?_, fun f hf => ?_⟩
    · rcases List.mem_append.mp he with he | he
      · exact h.states e he
      · exact h.journal.trans (h'.states e he)
    · rw [frames_append] at hf
      rcases List.mem_append.mp hf with hf | hf
      · exact h.auxiliary f hf
      · exact h'.auxiliary f hf

instance {purpose : FramePurpose} {payload : RequestPayload} [h : Auxiliary purpose payload] :
    Admits Quiet purpose payload where
  admits s _ sessionID _ answer := by
    refine ⟨⟨rfl, rfl, rfl⟩, by simp [Requeued.mk], fun f hf => ?_⟩
    obtain rfl : f = ⟨s, _, ⟨sessionID, _⟩, answer⟩ := by simpa [frames, frameOf] using hf
    exact h

instance : Rebinds Quiet where
  change f hf s := by
    have hk := hf.keeps s.session
    exact ⟨⟨hk.pending, hk.limit, hk.recorded⟩, by simp, by simp⟩
  unbind _ s := ⟨⟨rfl, rfl, rfl⟩, by simp, by simp⟩
  count s _ _ := ⟨⟨rfl, rfl, rfl⟩, by simp, by simp⟩
  closing _ := inferInstance
  auxiliary _ _ _ := inferInstance
  draw s n := ⟨⟨rfl, rfl, rfl⟩, by simp [Requeued.mk], by simp [frames, frameOf]⟩
  notify s := ⟨⟨rfl, rfl, rfl⟩, by simp [Requeued.mk], by simp [frames, frameOf]⟩
  opening := frames_openSession fun s _ => ⟨⟨rfl, rfl, rfl⟩, by simp, by simp⟩
  bind _ _ s := ⟨⟨rfl, rfl, rfl⟩, by simp, by simp⟩

/-- What holds of quiet runs, and of one run after another, holds of whatever follows. -/
theorem rebinds_of_quiet {R : ClientRelation} [hR : Prog.Composes R]
    (h : ∀ s t s', Quiet s t s' → R s t s') : Rebinds R where
  toSteady := .of_imp h
  auxiliary _ _ _ := ⟨fun s channel sessionID tryConnect answer =>
    h _ _ _ (Admits.admits s channel sessionID tryConnect answer)⟩
  bind id revision s := h _ _ _ (Rebinds.bind id revision s)

section

variable [WireCodec]

/-- A frame of the action an entry is to do, sent while the entry was in the journal. -/
def ClientFrame.Sends (f : ClientFrame) (x : HazkeyJournalEntry) : Prop :=
  f.purpose = .journaled ∧ ∃ y ∈ f.state.queue, y.identity = x.identity ∧
    ∃ a, f.action = some a ∧ a.requestID = y.requestID ∧ a.action = y.payload

/-- The frames that concern the action of a caller send an entry of the journal, respect its
first decision, or are sent past an empty journal; any other is what its purpose says. -/
def ClientFrame.Faithful (f : ClientFrame) : Prop :=
  match f.purpose with
  | .journaled => ∃ x ∈ f.state.queue, f.Sends x
  | .handOff => ∀ d, f.state.session.journaledDecision = some d →
      f.action.bind (·.learningDecision) = some d
  | .direct => f.state.queue = []
  | _ => f.purpose.Fits f.request.payload

theorem faithful_of_auxiliary {f : ClientFrame} (h : Auxiliary f.purpose f.request.payload) :
    f.Faithful := by
  have hfits := h.fits
  unfold ClientFrame.Faithful
  split
  · rename_i hp
    rw [hp] at hfits
    exact hfits.elim
  · rename_i hp
    rw [hp] at hfits
    exact hfits.elim
  · rename_i hp
    rw [hp] at hfits
    exact hfits.elim
  · exact hfits

/-- The queue may have lost entries, and its head may have been rewritten. -/
structure Fading (s : ClientState) (t : List ClientEvent) (s' : ClientState) : Prop where
  kept : WellKept s'.session.journal
  limit : s'.session.journal.limit = s.session.journal.limit
  recorded : s'.session.journal.recorded = s.session.journal.recorded
  origin : ∀ y ∈ s'.queue, y.identity ∈ s.queue.map (·.identity)
  states : ∀ e ∈ t, WellKept e.state.session.journal
  within : ∀ e ∈ t, ∀ y ∈ e.state.queue, y.identity ∈ s.queue.map (·.identity)
  faithful : ∀ f ∈ frames t, f.Faithful

def Fades (s : ClientState) (t : List ClientEvent) (s' : ClientState) : Prop :=
  WellKept s.session.journal → Fading s t s'

variable {s s' u : ClientState} {t t' : List ClientEvent} {x y : HazkeyJournalEntry}
  {l : List HazkeyJournalEntry}

theorem Quiet.fades (h : Quiet s t s') : Fades s t s' := by
  intro hw
  refine ⟨hw.same h.journal, h.journal.limit, h.journal.recorded, fun y hy => ?_,
    fun e he => hw.same (h.states e he), fun e he y hy => ?_,
    fun f hf => faithful_of_auxiliary (h.auxiliary f hf)⟩
  · exact List.mem_map_of_mem (h.journal.pending ▸ hy)
  · exact List.mem_map_of_mem ((h.states e he).pending ▸ hy)

theorem identity_mem {y z : HazkeyJournalEntry} (h : y.identity = z.identity)
    (hz : z ∈ l) : y.identity ∈ l.map (·.identity) :=
  List.mem_map.mpr ⟨z, hz, h.symm⟩

instance : Prog.Composes Fades where
  refl s := Quiet.fades (Prog.Composes.refl s)
  trans s t u t' s' h h' hw := by
    have hf := h hw
    have hf' := h' hf.kept
    have hback {y : HazkeyJournalEntry} (hy : y.identity ∈ u.queue.map (·.identity)) :
        y.identity ∈ s.queue.map (·.identity) := by
      obtain ⟨z, hz, he⟩ := List.mem_map.mp hy
      exact he ▸ hf.origin z hz
    refine ⟨hf'.kept, hf'.limit.trans hf.limit, hf'.recorded.trans hf.recorded,
      fun y hy => hback (hf'.origin y hy), fun e he => ?_, fun e he y hy => ?_, fun f hmem => ?_⟩
    · rcases List.mem_append.mp he with he | he
      · exact hf.states e he
      · exact hf'.states e he
    · rcases List.mem_append.mp he with he | he
      · exact hf.within e he y hy
      · exact hback (hf'.within e he y hy)
    · rw [frames_append] at hmem
      rcases List.mem_append.mp hmem with hmem | hmem
      · exact hf.faithful f hmem
      · exact hf'.faithful f hmem

/-- The entry was in the journal at first, or when one of the calls was made. -/
def Held (s : ClientState) (t : List ClientEvent) (x : HazkeyJournalEntry) : Prop :=
  x ∈ s.queue ∨ ∃ e ∈ t, x ∈ e.state.queue

/-- A restore or an insertion that the server rejected; or a session that was opened
while only text was left to restore that must not be inserted. -/
def ClientFrame.RefusesRecovery (f : ClientFrame) : Prop :=
  (f.purpose = .restore ∨ f.purpose = .fallback) ∧ isSuccessfulImeResponse f.answer = false ∧
      isUncertainImeResponse f.answer = false ∨
    f.purpose = .opening ∧ (openedSession f.answer).isSome = true ∧
      f.state.session.recoveryCheckpoint = [] ∧ f.state.session.fallbackComposition ≠ [] ∧
      f.state.session.canUseStoredTextFallback = false

/-- Why an entry may have left the journal. -/
inductive Departs (t : List ClientEvent) (x : HazkeyJournalEntry) : Prop
  | confirmed {f : ClientFrame} (hf : f ∈ frames t) (hs : f.Sends x)
      (hr : isSuccessfulImeResponse f.answer = true)
  | rejected {f : ClientFrame} (hf : f ∈ frames t) (hs : f.Sends x)
      (hr : isRejectedImeResponse f.answer = true) (hx : x.decision = none)
  | unrecoverable {f : ClientFrame} (hf : f ∈ frames t)
      (hx : x.identity ∈ f.state.queue.map (·.identity)) (hr : f.RefusesRecovery)

def Accounts (s : ClientState) (t : List ClientEvent) (s' : ClientState) : Prop :=
  WellKept s.session.journal →
    ∀ x, Held s t x → x.identity ∈ s'.queue.map (·.identity) ∨ Departs t x

theorem ClientFrame.Sends.of_identity {f : ClientFrame} (h : f.Sends x)
    (he : x.identity = y.identity) : f.Sends y := by
  obtain ⟨hp, z, hz, hid, ha⟩ := h
  exact ⟨hp, z, hz, hid.trans he, ha⟩

theorem decision_of_payload {a : HandleImeAction} (h : x.payload = a.action) :
    x.decision = a.learningDecision := by
  unfold HazkeyJournalEntry.payload at h
  unfold HazkeyJournalEntry.decision
  cases hparse : WireCodec.parseAction x.serializedAction with
  | none =>
    rw [hparse] at h
    simp [HandleImeAction.learningDecision, ← show none = a.action from h]
  | some b =>
    rw [hparse] at h
    simp [HandleImeAction.learningDecision, show b.action = a.action from h]

theorem decision_eq (he : x.identity = y.identity) : x.decision = y.decision := by
  have hx := decision_of_payload (x := x) (a := ⟨[], 0, x.payload⟩) rfl
  have hy := decision_of_payload (x := y) (a := ⟨[], 0, y.payload⟩) rfl
  rw [hx, hy, show x.payload = y.payload from congrArg Prod.snd he]

theorem Departs.of_identity (h : Departs t x) (he : x.identity = y.identity) : Departs t y := by
  cases h with
  | confirmed hf hs hr => exact .confirmed hf (hs.of_identity he) hr
  | rejected hf hs hr hx => exact .rejected hf (hs.of_identity he) hr (decision_eq he ▸ hx)
  | unrecoverable hf hx hr => exact .unrecoverable hf (he ▸ hx) hr

theorem Departs.mono (h : Departs t x) (hsub : ∀ f ∈ frames t, f ∈ frames t') : Departs t' x := by
  cases h with
  | confirmed hf hs hr => exact .confirmed (hsub _ hf) hs hr
  | rejected hf hs hr hx => exact .rejected (hsub _ hf) hs hr hx
  | unrecoverable hf hx hr => exact .unrecoverable (hsub _ hf) hx hr

theorem Departs.append_left (h : Departs t x) (t' : List ClientEvent) : Departs (t ++ t') x :=
  h.mono fun f hf => by rw [frames_append]; exact List.mem_append_left _ hf

theorem Departs.append_right (h : Departs t' x) (t : List ClientEvent) : Departs (t ++ t') x :=
  h.mono fun f hf => by rw [frames_append]; exact List.mem_append_right _ hf

/-- Nothing is lost without a reason. -/
structure Carried (s : ClientState) (t : List ClientEvent) (s' : ClientState) : Prop where
  fades : Fades s t s'
  accounts : Accounts s t s'

theorem Quiet.carried (h : Quiet s t s') : Carried s t s' := by
  refine ⟨h.fades, fun _ x hx => .inl (List.mem_map_of_mem ?_)⟩
  show x ∈ s'.session.journal.pending
  rw [h.journal.pending]
  rcases hx with hx | ⟨e, he, hx⟩
  · exact hx
  · exact (h.states e he).pending ▸ hx

theorem Accounts.trans (h : Accounts s t u)
    (hkept : WellKept s.session.journal → WellKept u.session.journal) (h' : Accounts u t' s') :
    Accounts s (t ++ t') s' := by
  intro hw x hx
  have hlater {z : HazkeyJournalEntry} (hz : Held u t' z) :
      z.identity ∈ s'.queue.map (·.identity) ∨ Departs (t ++ t') z :=
    (h' (hkept hw) z hz).imp id (·.append_right t)
  have hearlier (hx : Held s t x) : x.identity ∈ s'.queue.map (·.identity) ∨
      Departs (t ++ t') x := by
    rcases h hw x hx with hmem | hd
    · obtain ⟨z, hz, he⟩ := List.mem_map.mp hmem
      rcases hlater (.inl hz) with hmem | hd
      · exact .inl (he ▸ hmem)
      · exact .inr (hd.of_identity he)
    · exact .inr (hd.append_left t')
  rcases hx with hx | ⟨e, he, hx⟩
  · exact hearlier (.inl hx)
  · rcases List.mem_append.mp he with he | he
    · exact hearlier (.inr ⟨e, he, hx⟩)
    · exact hlater (.inr ⟨e, he, hx⟩)

instance : Prog.Composes Carried where
  refl s := Quiet.carried (Prog.Composes.refl s)
  trans _ _ _ _ _ h h' :=
    ⟨Prog.Composes.trans (R := Fades) _ _ _ _ _ h.fades h'.fades,
      h.accounts.trans (fun hw => (h.fades hw).kept) h'.accounts⟩

instance : Rebinds Fades := rebinds_of_quiet fun _ _ _ => Quiet.fades

instance : Rebinds Carried := rebinds_of_quiet fun _ _ _ => Quiet.carried

/-! Giving up. -/

theorem finalizeWithoutUITarget_fades {preferredCommit : Bool}
    (h : (finalizeWithoutUITarget preferredCommit).Yields s t () s') : Fades s t s' := by
  intro hw
  have hcleared (v : ClientState) (hv : v.session = s.session)
      (hstates : ∀ e ∈ t, e.state.session = s.session) (hfaithful : ∀ f ∈ frames t, f.Faithful) :
      Fading s t { v with session := (v.session.bound [] 0).cleared } := by
    refine ⟨.clear ⟨rfl, rfl, rfl⟩, ?_, ?_, ?_, fun e he => (hstates e he).symm ▸ hw,
      fun e he y hy => ?_, hfaithful⟩
    · exact congrArg (·.journal.limit) hv
    · exact congrArg (·.journal.recorded) hv
    · intro y hy
      cases hy
    · refine List.mem_map_of_mem ?_
      show y ∈ s.session.journal.pending
      exact hstates e he ▸ hy
  have hclosing {v : ClientState} {answer : Option ResponseEnvelope} :
      (⟨v, .closing, ⟨[], .closeSession v.session.id⟩, answer⟩ : ClientFrame).Faithful :=
    faithful_of_auxiliary (inferInstanceAs (Auxiliary .closing (.closeSession _)))
  obtain ⟨u, rfl, ⟨-, rfl, rfl⟩ | ⟨-, hdispose⟩⟩ := finalizeWithoutUITarget_cases h
  · exact hcleared _ rfl (by simp) (by simp)
  rcases disposeSession_cases hdispose with ⟨-, n, answer, answer', rfl, rfl⟩ | ⟨-, answer, rfl, rfl⟩
  · refine hcleared _ rfl (by simp) fun f hf => ?_
    simp only [frames, List.filterMap_cons, List.filterMap_nil, frameOf, List.mem_cons,
      List.not_mem_nil, or_false] at hf
    rcases hf with rfl | rfl
    · intro d hd
      have hd : s.session.journaledDecision = some d := hd
      simp [ClientFrame.action, HandleImeAction.learningDecision, hd]
    · exact hclosing
  · refine hcleared _ rfl (by simp) fun f hf => ?_
    simp only [frames, List.filterMap_cons, List.filterMap_nil, frameOf, List.mem_singleton] at hf
    subst hf
    exact hclosing

instance : Abandons Fades where
  abandon _ := ⟨fun _ _ _ _ => finalizeWithoutUITarget_fades⟩

/-- The abandonment clears the queue. -/
theorem abandonRejectedRecovery_queue (h : abandonRejectedRecovery.Yields s t () s') :
    s'.queue = [] := by
  obtain ⟨t₁, t₂, _, u, -, hfinal, hcall⟩ := Prog.yields_bind.mp h
  obtain ⟨u, rfl, -⟩ := finalizeWithoutUITarget_cases hfinal
  have hcall : Quiet _ t₂ s' := Prog.Frames.frame _ _ _ _ hcall
  exact hcall.journal.pending

/-- Whatever is lost after the recovery was refused is lost for that. -/
theorem Fades.carried_of_refusal {f : ClientFrame} (h : Fades s t s') (hf : f ∈ frames t)
    (hq : f.state.queue = s.queue) (hr : f.RefusesRecovery) : Carried s t s' := by
  refine ⟨h, fun hw x hx => .inr (.unrecoverable hf ?_ hr)⟩
  rw [hq]
  rcases hx with hx | ⟨e, he, hx⟩
  · exact List.mem_map_of_mem hx
  · exact (h hw).within e he x hx

omit [WireCodec] in
/-- One quiet run after another. -/
theorem Quiet.then (h : Quiet s t u) (h' : Quiet u t' s') : Quiet s (t ++ t') s' :=
  Prog.Composes.trans (R := Quiet) _ _ _ _ _ h h'

omit [WireCodec] in
theorem Attempts.rejection {purpose : FramePurpose} {label : String} {action : Action}
    {accept : HazkeyClientSession → HazkeyClientSession} {tryConnect : Bool}
    [WireCodec] (h : Attempts purpose label action accept tryConnect s t .rejected s')
    (hp : purpose = .restore ∨ purpose = .fallback) :
    ∃ f ∈ frames t, f.state.queue = s.queue ∧ f.RefusesRecovery := by
  cases h with
  | @rejected n t r hx hs hr =>
    exact ⟨sentFrame purpose ⟨s.drawn label n, 0, some action⟩ (s.drawing n) (some r),
      (exchange_frames hx).2.1, rfl, .inl ⟨hp, hs, hr⟩⟩

/-- Whatever becomes of a lost session, the journal stays, or its recovery was refused. -/
theorem recoverSession_quiet {staleSessionID : Text} {staleRevision : UInt64} {tryConnect b : Bool}
    (h : (recoverSession staleSessionID staleRevision tryConnect).Yields s t b s') :
    Quiet s t s' ∨ b = false ∧ s'.queue = [] ∧
      ((s.session.recoveryCheckpoint = [] ∧ s.session.fallbackComposition ≠ [] ∧
          s.session.canUseStoredTextFallback = false) ∨
        ∃ f ∈ frames t, f.state.queue = s.queue ∧ f.RefusesRecovery) := by
  have hreset (u : ClientState) : Quiet u [] { u with session := u.session.withRevision 0 } :=
    Steady.change (·.withRevision 0) u
  have hfresh (u : ClientState) :
      Quiet u [] { u with session := u.session.beginFreshEffectNamespace } :=
    Steady.change (·.beginFreshEffectNamespace) u
  cases recoverSession_cases h with
  | restored hr => exact .inl (Prog.Frames.frame _ _ _ _ hr)
  | unsettled hr hs =>
    exact .inl ((Prog.Frames.frame (R := Quiet) _ _ _ _ hr).then (Prog.Frames.frame _ _ _ _ hs))
  | inserted hr hstep hf =>
    refine .inl ((Prog.Frames.frame (R := Quiet) _ _ _ _ hr).then ?_)
    exact (hreset _).then (Prog.Frames.frame _ _ _ _ hf)
  | unsettledInsertion hr hstep hf hs =>
    refine .inl ((Prog.Frames.frame (R := Quiet) _ _ _ _ hr).then ?_)
    refine ((hreset _).then (Prog.Frames.frame _ _ _ _ hf)).then ?_
    exact Prog.Frames.frame _ _ _ _ hs
  | withheld hr hf hholds husable =>
    refine .inl ((Prog.Frames.frame (R := Quiet) _ _ _ _ hr).then ?_)
    exact (hreset _).then (Prog.Frames.frame _ _ _ _ hf)
  | fresh hr hf hholds hh =>
    refine .inl ((Prog.Frames.frame (R := Quiet) _ _ _ _ hr).then ?_)
    refine ((hreset _).then (Prog.Frames.frame _ _ _ _ hf)).then ?_
    exact (hfresh _).then (Prog.Frames.frame _ _ _ _ hh)
  | @refused t₁ t₂ t₃ step insertion u v _ hr hstep hf hinsertion hholds hrefused ha =>
    have hrestore : Quiet s t₁ u := Prog.Frames.frame _ _ _ _ hr
    have hrestored (he : step = .rejected) :
        ∃ f ∈ frames (t₁ ++ (t₂ ++ t₃)), f.state.queue = s.queue ∧ f.RefusesRecovery := by
      subst he
      obtain ⟨-, hstep, -⟩ | ⟨-, hattempts⟩ := recoverByCheckpoint_cases hr
      · cases hstep
      · obtain ⟨f, hf, hq, hrefuses⟩ := hattempts.rejection (.inl rfl)
        exact ⟨f, by simp [hf], hq, hrefuses⟩
    refine .inr ⟨rfl, abandonRejectedRecovery_queue ha, ?_⟩
    rcases hrefused with hunsafe | hstep' | hinsertion'
    · rcases hstep with rfl | hstep
      · obtain ⟨hnone, -⟩ | ⟨-, hattempts⟩ := recoverByCheckpoint_cases hr
        · exact .inl ⟨hnone, hunsafe⟩
        · cases hattempts
      · exact .inr (hrestored hstep)
    · exact .inr (hrestored hstep')
    · subst hinsertion'
      obtain ⟨-, hstep, -⟩ | ⟨-, -, hattempts⟩ := recoverByFallback_cases hf
      · cases hstep
      · obtain ⟨f, hf, hq, hrefuses⟩ := hattempts.rejection (.inr rfl)
        exact .inr ⟨f, by simp [hf], hq.trans hrestore.journal.pending, hrefuses⟩

theorem replaceLostSession_quiet {tryConnect b : Bool}
    (h : (replaceLostSession tryConnect).Yields s t b s') :
    Quiet s t s' ∨ b = false ∧ s'.queue = [] ∧
      ∃ f ∈ frames t, f.state.queue = s.queue ∧ f.RefusesRecovery := by
  have hunbind (n : UInt64) : Quiet s [] { s with session := s.session.bound [] n } :=
    Steady.unbind n s
  cases replaceLostSession_cases h with
  | @unopened _ u ho =>
    have hopened := (hunbind _).then (Prog.Frames.frame _ _ _ _ ho)
    have hbind := hopened.then (Rebinds.bind s.session.id s.session.revision u)
    rw [List.append_nil] at hbind
    exact .inl hbind
  | unsupported ho hold hs =>
    refine .inl (((hunbind _).then (Prog.Frames.frame _ _ _ _ ho)).then ?_)
    exact Prog.Frames.frame _ _ _ _ hs
  | @recovery t₁ t₂ _ u _ ho hV2 hr =>
    have hopened : Quiet s ([] ++ t₁) u := (hunbind _).then (Prog.Frames.frame _ _ _ _ ho)
    rcases recoverSession_quiet hr with hquiet | ⟨hb, hcleared, hunsafe | ⟨f, hf, hq, hrefuses⟩⟩
    · exact .inl (hopened.then hquiet)
    · refine .inr ⟨hb, hcleared, ?_⟩
      obtain ⟨answer, rfl, ⟨-, hno, -⟩ | ⟨result, hresult, -, rfl⟩⟩ := openSession_cases ho
      · cases hno
      · refine ⟨openingFrame { s with session := s.session.bound [] s.session.revision } answer,
          ?_, rfl, .inr ⟨rfl, by rw [hresult]; rfl, hunsafe⟩⟩
        rw [frames_append]
        exact List.mem_append_left _ (List.mem_singleton_self _)
    · exact .inr ⟨hb, hcleared, f, by simp [hf], hq.trans hopened.journal.pending, hrefuses⟩

instance (tryConnect : Bool) : Prog.Frames Carried (replaceLostSession tryConnect) where
  frame s t b s' h := by
    have hfades : Fades s t s' := Prog.Frames.frame _ _ _ _ h
    rcases replaceLostSession_quiet h with hquiet | ⟨-, -, f, hf, hq, hrefuses⟩
    · exact hquiet.carried
    · exact hfades.carried_of_refusal hf hq hrefuses

/-! One action. -/

omit [WireCodec] in
/-- Responses that are taken for the same. -/
structure SameClass (r r' : Option ResponseEnvelope) : Prop where
  stale : isStaleImeResponse r = isStaleImeResponse r'
  successful : isSuccessfulImeResponse r = isSuccessfulImeResponse r'
  uncertain : isUncertainImeResponse r = isUncertainImeResponse r'

omit [WireCodec] in
theorem SameClass.rejected {r r' : Option ResponseEnvelope} (h : SameClass r r') :
    isRejectedImeResponse r = isRejectedImeResponse r' := by
  simp only [isRejectedImeResponse, h.stale, h.successful, h.uncertain]

omit [WireCodec] in
theorem sameClass_mapSnapshot (r : ResponseEnvelope) (f : SessionSnapshot → SessionSnapshot) :
    SameClass (some r) (some (r.mapSnapshot f)) := by
  obtain ⟨status, errorMessage, payload⟩ := r
  cases payload with
  | handleImeActionResult result =>
    constructor <;>
      simp [isStaleImeResponse, isSuccessfulImeResponse, isUncertainImeResponse,
        ResponseEnvelope.result, ResponseEnvelope.mapSnapshot, ResponseEnvelope.mapResult]
  | sessionSnapshot snapshot => exact ⟨rfl, rfl, rfl⟩
  | openSessionResult result => exact ⟨rfl, rfl, rfl⟩
  | other => exact ⟨rfl, rfl, rfl⟩

omit [WireCodec] in
theorem SameClass.trans {r r' r'' : Option ResponseEnvelope} (h : SameClass r r')
    (h' : SameClass r' r'') : SameClass r r'' :=
  ⟨h.stale.trans h'.stale, h.successful.trans h'.successful, h.uncertain.trans h'.uncertain⟩

omit [WireCodec] in
theorem sameClass_believed (r : ResponseEnvelope) : SameClass (some r) (some r.believed) := by
  unfold ResponseEnvelope.believed
  split
  · exact ⟨rfl, rfl, rfl⟩
  · exact sameClass_mapSnapshot r _

theorem concludeV2_class {answer : Option ResponseEnvelope} {r : ResponseEnvelope}
    {action : HandleImeAction} (h : (concludeV2 answer action).Yields s t (some r) s') :
    SameClass answer (some r) := by
  obtain ⟨-, ⟨hnone, -⟩ | ⟨r', rfl, -, hr, -⟩⟩ := concludeV2_cases h
  · cases hnone
  · obtain rfl := Option.some.inj hr
    exact (sameClass_believed r').trans (sameClass_mapSnapshot _ _)

/-- The action, or the action for another revision. -/
def Resent (a b : HandleImeAction) : Prop := b = a ∨ ∃ n, b = a.rebased n

/-- A response stems from the answer to a frame of the action. -/
def Answered (purpose : FramePurpose) (a : HandleImeAction) (q : List HazkeyJournalEntry)
    (t : List ClientEvent) (response : ResponseEnvelope) : Prop :=
  ∃ u b answer, Resent a b ∧ u.queue = q ∧ sentFrame purpose b u answer ∈ frames t ∧
    SameClass answer (some response)

theorem exchange_carried {channel : Channel} {purpose : FramePurpose} {a : HandleImeAction}
    {tryConnect resends : Bool} {response : Option ResponseEnvelope}
    (hf : ∀ answer, (sentFrame purpose a s answer).Faithful)
    (h : (exchange channel purpose a tryConnect resends).Yields s t response s) :
    Carried s t s := by
  obtain ⟨hstates, -, hframes⟩ := exchange_frames h
  refine ⟨fun hw => ⟨hw, rfl, rfl, fun y hy => List.mem_map_of_mem hy,
    fun e he => (hstates e he).symm ▸ hw, fun e he y hy => List.mem_map_of_mem (hstates e he ▸ hy), fun f hmem => ?_⟩,
    fun _ x hx => .inl (List.mem_map_of_mem ?_)⟩
  · obtain ⟨answer, rfl⟩ := hframes f hmem
    exact hf answer
  · rcases hx with hx | ⟨e, he, hx⟩
    · exact hx
    · exact hstates e he ▸ hx

theorem Carried.then (h : Carried s t u) (h' : Carried u t' s') : Carried s (t ++ t') s' :=
  Prog.Composes.trans (R := Carried) _ _ _ _ _ h h'

/-- The journal is as it was, and a response there is was given to a frame of the action; or
the journal was cleared, and there is no response. -/
def Concludes (purpose : FramePurpose) (a : HandleImeAction) (s : ClientState)
    (t : List ClientEvent) (response : Option ResponseEnvelope) (s' : ClientState) : Prop :=
  Requeued s.session.journal s'.session.journal s.queue ∧
      (∀ r, response = some r → Answered purpose a s.queue t r) ∨
    response = none ∧ s'.queue = []

theorem executeV2_journal {purpose : FramePurpose} {a : HandleImeAction}
    {tryConnect allowSessionRecovery : Bool} {channel : Channel}
    {value : Option ResponseEnvelope × HandleImeAction}
    (hf : ∀ u : ClientState, u.queue = s.queue → ∀ b answer, Resent a b →
      (sentFrame purpose b u answer).Faithful)
    (h : (executeV2 purpose a tryConnect allowSessionRecovery channel).Yields s t value s') :
    Carried s t s' ∧ Resent a value.2 ∧ Concludes purpose a s t value.1 s' := by
  have hnone {s' : ClientState} (hq : Quiet s t s') :
      Concludes purpose a s t none s' := .inl ⟨hq.journal, fun r hr => by cases hr⟩
  have hsame {u : ClientState} {t₁ t₂ : List ClientEvent} {response : Option ResponseEnvelope}
      (ho : Quiet s t₁ u)
      (hx : (exchange channel purpose a tryConnect (channel = .normal)).Yields u t₂ response u) :
      Carried s (t₁ ++ t₂) u :=
    ho.carried.then (exchange_carried (hf u ho.journal.pending a · (.inl rfl)) hx)
  generalize hv₁ : value.1 = response at *
  generalize hv₂ : value.2 = sent at *
  have hcases := executeV2_cases h
  rw [hv₁, hv₂] at hcases
  cases hcases with
  | unopened ho =>
    have hq : Quiet s t s' := Prog.Frames.frame _ _ _ _ ho
    exact ⟨hq.carried, .inl rfl, hnone hq⟩
  | @concluded t₁ t₂ answer _ u _ ho hx hc =>
    have ho : Quiet s t₁ u := Prog.Frames.frame _ _ _ _ ho
    have hc' : Quiet u [] s' := Prog.Frames.frame _ _ _ _ hc
    have hcarried := (hsame ho hx).then hc'.carried
    rw [List.append_nil] at hcarried
    refine ⟨hcarried, .inl rfl, .inl ⟨?_, ?_⟩⟩
    · have hq := ho.then hc'
      exact hq.journal
    · rintro r rfl
      refine ⟨u, a, answer, .inl rfl, ho.journal.pending, ?_, concludeV2_class hc⟩
      rw [frames_append]
      exact List.mem_append_right _ (exchange_frames hx).2.1
  | @lost t₁ t₂ _ _ ho hx hlost hallow =>
    have ho : Quiet s t₁ s' := Prog.Frames.frame _ _ _ _ ho
    exact ⟨hsame ho hx, .inl rfl, .inl ⟨ho.journal, fun r hr => by cases hr⟩⟩
  | @unreplaced t₁ t₂ t₃ _ u _ ho hx hlost hallow hr =>
    have ho : Quiet s t₁ u := Prog.Frames.frame _ _ _ _ ho
    have hcarried := (hsame ho hx).then (Prog.Frames.frame (R := Carried) _ _ _ _ hr)
    rw [List.append_assoc] at hcarried
    refine ⟨hcarried, .inl rfl, ?_⟩
    rcases replaceLostSession_quiet hr with hq | ⟨-, hcleared, -⟩
    · exact .inl ⟨(ho.then hq).journal, fun r hr => by cases hr⟩
    · exact .inr ⟨rfl, hcleared⟩
  | @replaced t₁ t₂ t₃ t₄ _ again _ u v _ ho hx hlost hallow hr hy hc =>
    have ho : Quiet s t₁ u := Prog.Frames.frame _ _ _ _ ho
    have hr' : Quiet u t₃ v := (replaceLostSession_quiet hr).resolve_right fun h => by cases h.1
    have hv := ho.then hr'
    have hc' : Quiet v [] s' := Prog.Frames.frame _ _ _ _ hc
    have hresent : Resent a (a.rebased v.session.revision) := .inr ⟨_, rfl⟩
    have hagain := exchange_carried (hf v hv.journal.pending _ · hresent) hy
    have hcarried := ((hsame ho hx).then hr'.carried).then (hagain.then hc'.carried)
    simp only [List.append_assoc, List.append_nil] at hcarried
    refine ⟨hcarried, hresent, .inl ⟨(hv.then hc').journal, ?_⟩⟩
    rintro r rfl
    refine ⟨v, _, again, hresent, hv.journal.pending, ?_, concludeV2_class hc⟩
    simp only [frames_append, List.mem_append]
    exact .inr (.inr (.inr (exchange_frames hy).2.1))

/-! The head of the queue. -/

omit [WireCodec] in
theorem quiet_drawing (s : ClientState) (n : Nat) :
    Quiet s [⟨s, .othersDraw, n⟩] (s.drawing n) :=
  Quiet.then (Steady.draw s n) (Steady.count s _ (by omega))

theorem carried_head (hp : s.queue = x :: l) (hid : y.identity = x.identity)
    (hr : Requeued s.session.journal s'.session.journal (y :: l))
    (hk : WellKept s.session.journal → WellKept s'.session.journal) : Carried s [] s' := by
  refine ⟨fun hw => ⟨hk hw, hr.limit, hr.recorded, fun z hz => ?_, by simp, by simp, by simp⟩,
    fun _ z hz => .inl ?_⟩
  · have hz : z ∈ y :: l := hr.pending ▸ hz
    rw [hp]
    rcases List.mem_cons.mp hz with rfl | hz
    · exact identity_mem hid (List.mem_cons_self ..)
    · exact List.mem_map_of_mem (List.mem_cons_of_mem _ hz)
  · have hz : z ∈ x :: l := by
      rcases hz with hz | ⟨e, he, -⟩
      · exact hp ▸ hz
      · cases he
    rw [show s'.queue = y :: l from hr.pending]
    rcases List.mem_cons.mp hz with rfl | hz
    · exact identity_mem hid.symm (List.mem_cons_self ..)
    · exact List.mem_map_of_mem (List.mem_cons_of_mem _ hz)

/-- The head leaves the queue for a reason. -/
theorem Carried.dequeue (h : Carried s t u) (hp : u.queue = x :: l) (hd : Departs t x)
    (hr : Requeued u.session.journal s'.session.journal l) : Carried s t s' := by
  refine ⟨fun hw => ?_, fun hw z hz => ?_⟩
  · have hf := h.fades hw
    refine ⟨hf.kept.tail hp hr, hr.limit.trans hf.limit, hr.recorded.trans hf.recorded,
      fun z hz => hf.origin z ?_, hf.states, hf.within, hf.faithful⟩
    have hz : z ∈ l := hr.pending ▸ hz
    exact hp ▸ List.mem_cons_of_mem _ hz
  · rcases h.accounts hw z hz with hmem | hdeparts
    · rw [hp, List.map_cons, List.mem_cons] at hmem
      rcases hmem with he | hmem
      · exact .inr (hd.of_identity he.symm)
      · rw [show s'.queue = l from hr.pending]
        exact .inl hmem
    · exact .inr hdeparts

/-- What has become of the head of the queue. -/
inductive Outcome (x : HazkeyJournalEntry) (l : List HazkeyJournalEntry) :
    Option ResponseEnvelope → List HazkeyJournalEntry → Prop
  | settled {r : Option ResponseEnvelope} : Outcome x l r l
  | kept {r : Option ResponseEnvelope} {y : HazkeyJournalEntry} (hid : y.identity = x.identity)
      (hs : isSuccessfulImeResponse r = false)
      (hr : x.decision.isSome = true ∨ isUncertainImeResponse r = true ∨
        isStaleImeResponse r = true) : Outcome x l r (y :: l)
  | lost : Outcome x l none []

theorem Outcome.of_identity {r : Option ResponseEnvelope} {q : List HazkeyJournalEntry}
    (h : Outcome y l r q) (he : y.identity = x.identity) : Outcome x l r q := by
  cases h with
  | settled => exact .settled
  | kept hid hs hr => exact .kept (hid.trans he) hs (decision_eq he ▸ hr)
  | lost => exact .lost

omit [WireCodec] in
theorem not_successful_of_stale {r : Option ResponseEnvelope} (h : isStaleImeResponse r = true) :
    isSuccessfulImeResponse r = false := by
  cases r with
  | none => rfl
  | some r =>
    simp only [isStaleImeResponse, Option.any_some, Bool.and_eq_true, decide_eq_true_eq] at h
    simp [isSuccessfulImeResponse, h.1]

theorem replaceEntry_head {a : HandleImeAction} {b : Bool}
    (hp : s.queue = x :: l) (ha : a.action = x.payload)
    (h : (replaceEntry x.requestID a).Yields s t b s') :
    t = [] ∧ ∃ y, s'.queue = y :: l ∧ y.identity = x.identity ∧ Carried s [] s' ∧
      (b = true → y.Carries a) := by
  obtain ⟨rfl, ⟨rfl, rfl, -⟩ | ⟨d, hd, entry, rfl, rfl, rfl⟩⟩ := replaceEntry_cases h
  · exact ⟨rfl, x, hp, rfl, Prog.Composes.refl _, fun hb => by cases hb⟩
  · rw [replace_head hp]
    by_cases htaken : a.requestID ∈ l.map (·.requestID)
    · rw [if_pos htaken]
      exact ⟨rfl, x, hp, rfl, Prog.Composes.refl _, fun hb => by cases hb⟩
    · rw [if_neg htaken]
      have hy : HazkeyJournalEntry.Carries
          ⟨a.requestID, d, a.expectedRevision, s.session.id, false, x.serial⟩ a :=
        ⟨WireCodec.parse_serializeAction _ _ hd, rfl, rfl⟩
      have hid : HazkeyJournalEntry.identity
          ⟨a.requestID, d, a.expectedRevision, s.session.id, false, x.serial⟩ = x.identity :=
        congrArg (x.serial, ·) (hy.payload.trans ha)
      refine ⟨rfl, _, rfl, hid, carried_head hp hid ⟨rfl, rfl, rfl⟩ fun hw => ?_, fun _ => hy⟩
      exact hw.head hp ⟨rfl, rfl, rfl⟩ rfl htaken ⟨a, hy⟩

theorem rebindEntry_head {a : HandleImeAction} {boundSessionID : Text} {b : Bool}
    (hp : s.queue = x :: l) (hsent : x.sent = true) (hid : a.requestID = x.requestID)
    (ha : a.action = x.payload) (h : (rebindEntry boundSessionID a).Yields s t b s') :
    t = [] ∧ ∃ y, s'.queue = y :: l ∧ y.requestID = x.requestID ∧ y.identity = x.identity ∧
      Carried s [] s' := by
  obtain ⟨rfl, ⟨-, rfl, -⟩ | ⟨-, rfl, -⟩ | ⟨-, -, d, hd, -, rfl⟩⟩ := rebindEntry_cases h
  · exact ⟨rfl, x, hp, rfl, rfl, Prog.Composes.refl _⟩
  · exact ⟨rfl, x, hp, rfl, rfl, Prog.Composes.refl _⟩
  · rw [hid, rebindSent_head hp hsent]
    let y : HazkeyJournalEntry := { x with
      serializedAction := d
      expectedRevision := a.expectedRevision
      sessionID := s.session.id }
    have hy : y.Carries a := ⟨WireCodec.parse_serializeAction _ _ hd, hid, rfl⟩
    have hyid : y.identity = x.identity := congrArg (x.serial, ·) (hy.payload.trans ha)
    refine ⟨rfl, y, rfl, rfl, hyid, carried_head hp hyid ⟨rfl, rfl, rfl⟩ fun hw => ?_⟩
    have hfree := hw.head_free hp
    exact hw.head hp ⟨rfl, rfl, rfl⟩ rfl hfree ⟨a, hy⟩

/-- An empty queue stays empty. -/
theorem rebindEntry_empty {a : HandleImeAction} {boundSessionID : Text} {b : Bool}
    (hp : s.queue = []) (h : (rebindEntry boundSessionID a).Yields s t b s') :
    Carried s [] s' ∧ s'.queue = [] := by
  obtain ⟨rfl, ⟨-, rfl, -⟩ | ⟨-, rfl, -⟩ | ⟨-, -, d, hd, -, rfl⟩⟩ := rebindEntry_cases h
  · exact ⟨Prog.Composes.refl _, hp⟩
  · exact ⟨Prog.Composes.refl _, hp⟩
  · have hfind : s.session.journal.find a.requestID = none := by
      simp [HazkeyRecoveryJournal.find, show s.session.journal.pending = [] from hp]
    simp only [HazkeyRecoveryJournal.rebindSent, hfind]
    exact ⟨Prog.Composes.refl _, hp⟩

omit [WireCodec] in
theorem Resent.requestID {a b : HandleImeAction} (h : Resent a b) : b.requestID = a.requestID := by
  obtain rfl | ⟨n, rfl⟩ := h <;> rfl

omit [WireCodec] in
theorem Resent.action {a b : HandleImeAction} (h : Resent a b) : b.action = a.action := by
  obtain rfl | ⟨n, rfl⟩ := h <;> rfl

/-- A frame of the action an entry carries sends the entry. -/
theorem sends_of_carries {a b : HandleImeAction} {answer : Option ResponseEnvelope}
    (hx : x.Carries a) (hb : Resent a b) (hp : u.queue = x :: l) (he : x.identity = y.identity) :
    (sentFrame .journaled b u answer).Sends y :=
  ⟨rfl, x, hp ▸ List.mem_cons_self .., he, b, rfl, hb.requestID.trans hx.2.1,
    hb.action.trans hx.payload.symm⟩

theorem Answered.confirmed {a : HandleImeAction} {q : List HazkeyJournalEntry}
    {r : ResponseEnvelope} (h : Answered .journaled a q t r) (hx : x.Carries a) (hq : q = x :: l)
    (he : x.identity = y.identity) (hr : isSuccessfulImeResponse (some r) = true) :
    Departs t y := by
  obtain ⟨u, b, answer, hb, rfl, hmem, hclass⟩ := h
  exact .confirmed hmem (sends_of_carries hx hb hq he) (hclass.successful.trans hr)

theorem Answered.rejected {a : HandleImeAction} {q : List HazkeyJournalEntry}
    {r : ResponseEnvelope} (h : Answered .journaled a q t r) (hx : x.Carries a) (hq : q = x :: l)
    (he : x.identity = y.identity) (hr : isRejectedImeResponse (some r) = true)
    (hy : y.decision = none) : Departs t y := by
  obtain ⟨u, b, answer, hb, rfl, hmem, hclass⟩ := h
  exact .rejected hmem (sends_of_carries hx hb hq he) (hclass.rejected.trans hr) hy

omit [WireCodec] in
/-- An entry that is sent from now on. -/
@[reducible] def HazkeyJournalEntry.marked (x : HazkeyJournalEntry) : HazkeyJournalEntry :=
  { x with sent := true }

theorem markSent_journal {a : HandleImeAction} {b : Bool} (hp : s.queue = x :: l)
    (hx : x.Carries a) (h : (journaling (·.markSent a.requestID)).Yields s t b u) :
    t = [] ∧ b = true ∧ u.queue = x.marked :: l ∧ u.session.id = s.session.id ∧
      Carried s [] u := by
  obtain ⟨rfl, rfl, rfl⟩ := journaling_cases h
  rw [hx.2.1, markSent_head hp]
  refine ⟨rfl, rfl, rfl, rfl, carried_head hp (y := x.marked) rfl ⟨rfl, rfl, rfl⟩ fun hw => ?_⟩
  have hfree := hw.head_free hp
  exact hw.head hp (y := x.marked) ⟨rfl, rfl, rfl⟩ rfl hfree ⟨a, hx⟩

/-- Up to the end of an attempt the head is rewritten only, or all is lost. -/
theorem attempt_journal {a sent : HandleImeAction} {tryConnect allow b : Bool} {channel : Channel}
    {response : Option ResponseEnvelope} {v w : ClientState}
    (hp : s.queue = x :: l) (hx : x.Carries a)
    (hm : (journaling (·.markSent a.requestID)).Yields s [] true u)
    (hexecute : (executeV2 .journaled a tryConnect allow channel).Yields u t (response, sent) v)
    (hb : (rebindEntry u.session.id sent).Yields v [] b w) :
    Carried s t w ∧ Resent a sent ∧
      ((∃ y, w.queue = y :: l ∧ y.requestID = x.requestID ∧ y.identity = x.identity ∧
        ∀ r, response = some r → Answered .journaled a (x.marked :: l) t r) ∨
        response = none ∧ w.queue = []) := by
  obtain ⟨-, -, hu, -, hmarked⟩ := markSent_journal hp hx hm
  have hx' : x.marked.Carries a := hx
  have hfaithful (v : ClientState) (hv : v.queue = u.queue) (b : HandleImeAction)
      (answer : Option ResponseEnvelope) (hb : Resent a b) :
      (sentFrame .journaled b v answer).Faithful :=
    ⟨x.marked, by rw [hv, hu]; exact List.mem_cons_self ..,
      sends_of_carries hx' hb (hv.trans hu) rfl⟩
  obtain ⟨hcarried, hresent, hconcludes⟩ := executeV2_journal hfaithful hexecute
  have hcarried : Carried s t v := hmarked.then hcarried
  rcases hconcludes with ⟨hsame, hanswered⟩ | ⟨hnone, hcleared⟩
  · obtain ⟨-, y, hy, hid, hyid, hbound⟩ := rebindEntry_head (hsame.pending.trans hu) rfl
      (hresent.requestID.trans hx.2.1) (hresent.action.trans hx'.payload.symm) hb
    have hbound := hcarried.then hbound
    rw [List.append_nil] at hbound
    exact ⟨hbound, hresent, .inl ⟨y, hy, hid, hyid, fun r hr => hu ▸ hanswered r hr⟩⟩
  · obtain ⟨hbound, hempty⟩ := rebindEntry_empty hcleared hb
    have hbound := hcarried.then hbound
    rw [List.append_nil] at hbound
    exact ⟨hbound, hresent, .inr ⟨hnone, hempty⟩⟩

/-- A journaled action is served or settled, stays at the head, or is lost with all others. -/
theorem executeJournaled_journal {tryConnect collectEffects lifecycle : Bool} {attempts : Nat}
    {a : HandleImeAction} {response : Option ResponseEnvelope} (hw : WellKept s.session.journal)
    (hp : s.queue = x :: l) (hx : x.Carries a)
    (h : (executeJournaled tryConnect collectEffects lifecycle attempts a).Yields s t
      response s') : Carried s t s' ∧ Outcome x l response s'.queue := by
  induction attempts generalizing a s t x with
  | zero =>
    obtain ⟨rfl, rfl, rfl⟩ := h
    exact ⟨Prog.Composes.refl _, hp ▸ .kept rfl rfl (.inr (.inl rfl))⟩
  | succ attempts ih =>
    cases executeJournaled_cases h with
    | unmarked hm =>
      obtain ⟨-, hb, -⟩ := markSent_journal hp hx hm
      cases hb
    | unbound hm hexecute hb =>
      obtain ⟨hcarried, -, ⟨y, hy, -, hyid, -⟩ | ⟨-, hempty⟩⟩ :=
        attempt_journal hp hx hm hexecute hb
      · exact ⟨hcarried, hy ▸ .kept hyid rfl (.inr (.inl rfl))⟩
      · exact ⟨hcarried, hempty ▸ .lost⟩
    | @stale t₁ t₂ _ _ sent _ _ w z _ n replaced hm hexecute hb hr hf hrest =>
      obtain ⟨hcarried, hresent, ⟨y, hy, hid, hyid, -⟩ | ⟨rfl, -⟩⟩ :=
        attempt_journal hp hx hm hexecute hb
      · have hid' : sent.requestID = y.requestID :=
          (hresent.requestID.trans hx.2.1).trans hid.symm
        have haction : ((sent.renamed (w.drawn "fcitx-" n)).rebased w.session.revision).action =
            y.payload := (hresent.action.trans hx.payload.symm).trans (congrArg Prod.snd hyid).symm
        have hdrawn := hcarried.then (quiet_drawing w n).carried
        rw [hid'] at hf
        obtain ⟨-, y', hy', hyid', hreplaced, hcarries⟩ :=
          replaceEntry_head (s := w.drawing n) hy haction hf
        have hz := hdrawn.then hreplaced
        rcases hrest with ⟨-, rfl, rfl, rfl⟩ | ⟨hreplaced, hrest⟩
        · refine ⟨by simpa only [List.append_nil] using hz, ?_⟩
          rw [hy']
          exact .kept (hyid'.trans hyid) (not_successful_of_stale hr) (.inr (.inr hr))
        · have hkept := (hz.fades hw).kept
          obtain ⟨hlast, houtcome⟩ := ih hkept hy' (hcarries hreplaced) hrest
          have hlast := hz.then hlast
          simp only [List.append_assoc, List.append_nil, List.cons_append, List.nil_append] at hlast
          exact ⟨hlast, houtcome.of_identity (hyid'.trans hyid)⟩
      · cases hr
    | @served _ r sent _ _ w hm hexecute hb hr =>
      obtain ⟨hcarried, hresent, ⟨y, hy, hid, hyid, hanswered⟩ | ⟨hnone, -⟩⟩ :=
        attempt_journal hp hx hm hexecute hb
      · have hx' : x.marked.Carries a := hx
        have hdeparts : Departs t y :=
          (hanswered r rfl).confirmed hx' rfl hyid.symm hr
        have hkept := (hcarried.fades hw).kept
        have hack := acknowledge_head hkept hy
        rw [hid, ← hx.2.1, ← hresent.requestID] at hack
        refine ⟨hcarried.dequeue hy hdeparts ?_, ?_⟩
        · rw [hack]
          cases collectEffects <;> exact ⟨rfl, rfl, rfl⟩
        · show Outcome x l (some r) (w.session.journal.acknowledge sent.requestID).pending
          rw [hack]
          exact .settled
      · cases hnone
    | @failed t₁ t₂ _ sent _ _ w _ hm hexecute hb hs hr hf =>
      obtain ⟨hcarried, hresent, ⟨y, hy, hid, hyid, hanswered⟩ | ⟨rfl, hempty⟩⟩ :=
        attempt_journal hp hx hm hexecute hb
      · have hid' : sent.requestID = y.requestID :=
          (hresent.requestID.trans hx.2.1).trans hid.symm
        have haction : sent.action = y.payload :=
          (hresent.action.trans hx.payload.symm).trans (congrArg Prod.snd hyid).symm
        have hdecision : x.decision = sent.learningDecision := by
          rw [hx.decision]
          simp only [HandleImeAction.learningDecision, hresent.action]
        cases hf with
        | uncertain hu =>
          rw [List.append_nil, hy]
          exact ⟨hcarried, .kept hyid hr (.inr (.inl hu))⟩
        | @learning n _ _ hu ha hreplace =>
          have haction : ((sent.renamed (w.drawn "fcitx-learning-retry-" n)).rebased
              w.session.revision).action = y.payload := haction
          rw [hid'] at hreplace
          obtain ⟨-, y', hy', hyid', hreplaced, -⟩ :=
            replaceEntry_head (s := w.drawing n) hy haction hreplace
          have hlast := (hcarried.then (quiet_drawing w n).carried).then hreplaced
          rw [List.append_nil] at hlast
          rw [hy']
          exact ⟨hlast, .kept (hyid'.trans hyid) hr (.inl (hdecision ▸ ha))⟩
        | rejected hu ha =>
          have hkept := (hcarried.fades hw).kept
          have hack := acknowledge_head hkept hy
          rw [← hid'] at hack
          rw [hack, List.append_nil]
          cases hresponse : response with
          | none =>
            rw [hresponse] at hu
            cases hu
          | some r =>
            have hrejected : isRejectedImeResponse (some r) = true := by
              rw [← hresponse]
              simp [isRejectedImeResponse, hr, hu, hs]
            have hy' : y.decision = none := (decision_eq hyid).trans (hdecision.trans ha)
            have hx' : x.marked.Carries a := hx
            have hdeparts : Departs t₁ y :=
              (hanswered r hresponse).rejected hx' rfl hyid.symm hrejected hy'
            exact ⟨hcarried.dequeue hy hdeparts ⟨rfl, rfl, rfl⟩, .settled⟩
      · cases hf with
        | uncertain hu =>
          rw [List.append_nil, hempty]
          exact ⟨hcarried, .lost⟩
        | learning hu ha hreplace => cases hu
        | rejected hu ha => cases hu

/-! The replay. -/

theorem rebaseEntry_head {a : HandleImeAction} {value : Option HandleImeAction}
    (hp : s.queue = x :: l) (hx : x.Carries a) (h : (rebaseEntry x a).Yields s t value s') :
    t = [] ∧ Carried s [] s' ∧ ∀ b, value = some b →
      ∃ y, s'.queue = y :: l ∧ y.Carries b ∧ y.identity = x.identity := by
  obtain ⟨t₁, t₂, z, u, rfl, ⟨rfl, rfl, rfl⟩, hrest⟩ := Prog.yields_bind.mp h
  rw [Prog.yields_ite] at hrest
  rcases hrest with ⟨-, rfl, rfl, rfl⟩ | ⟨-, hrebase⟩
  · refine ⟨rfl, Prog.Composes.refl _, fun b hb => ?_⟩
    obtain rfl := Option.some.inj hb
    exact ⟨x, hp, hx, rfl⟩
  dsimp only at hrebase
  cases hd : WireCodec.serializeAction (a.rebased u.session.revision) with
  | none =>
    rw [hd] at hrebase
    obtain ⟨rfl, rfl, rfl⟩ := hrebase
    exact ⟨rfl, Prog.Composes.refl _, fun b hb => by cases hb⟩
  | some d =>
    rw [hd] at hrebase
    obtain ⟨t₃, t₄, done, v, rfl, hjournal, rfl, rfl, rfl⟩ := Prog.yields_bind.mp hrebase
    obtain ⟨rfl, rfl, rfl⟩ := journaling_cases hjournal
    have hrebased (y : HazkeyJournalEntry) (hserial : y.serial = x.serial)
        (hid : y.requestID = x.requestID) (hd' : y.serializedAction = d)
        (hrevision : y.expectedRevision = u.session.revision) :
        y.Carries (a.rebased u.session.revision) ∧ y.identity = x.identity := by
      have hparse := WireCodec.parse_serializeAction _ _ hd
      have hy : y.Carries (a.rebased u.session.revision) :=
        ⟨hd' ▸ hparse, hx.2.1.trans hid.symm, hrevision.symm⟩
      exact ⟨hy, Prod.ext hserial (hy.payload.trans hx.payload.symm)⟩
    have hwritten (y : HazkeyJournalEntry) (k : HazkeyRecoveryJournal)
        (hk : Requeued u.session.journal k (y :: l)) (hid : y.requestID = x.requestID)
        (hy : y.Carries (a.rebased u.session.revision) ∧ y.identity = x.identity) :
        Carried u [] { u with session := u.session.withJournal k } :=
      carried_head hp hy.2 hk fun hw => hw.head hp hk (congrArg Prod.fst hy.2)
        (hid ▸ hw.head_free hp) ⟨_, hy.1⟩
    by_cases hsent : x.sent = true
    · simp only [if_pos hsent, replace_head hp]
      by_cases htaken : x.requestID ∈ l.map (·.requestID)
      · rw [if_pos htaken]
        exact ⟨rfl, Prog.Composes.refl _, fun b hb => by cases hb⟩
      · rw [if_neg htaken]
        have hy := hrebased ⟨x.requestID, d, u.session.revision, u.session.id, false, x.serial⟩
          rfl rfl rfl rfl
        refine ⟨rfl, hwritten _ _ ⟨rfl, rfl, rfl⟩ rfl hy, fun b hb => ?_⟩
        obtain rfl := Option.some.inj hb
        exact ⟨_, rfl, hy⟩
    · simp only [if_neg hsent, rebaseUnsent_head hp (Bool.eq_false_iff.mpr hsent)]
      have hy := hrebased ⟨x.requestID, d, u.session.revision, u.session.id, x.sent, x.serial⟩
        rfl rfl rfl rfl
      refine ⟨rfl, hwritten _ _ ⟨rfl, rfl, rfl⟩ rfl hy, fun b hb => ?_⟩
      obtain rfl := Option.some.inj hb
      exact ⟨_, rfl, hy⟩

/-- The replay serves the queue from its head, and goes on after what was settled only. -/
theorem replayEntries_journal {tryConnect lifecycle : Bool} {result value : ReplayResult}
    (hw : WellKept s.session.journal) (hp : s.queue = l)
    (h : (replayEntries tryConnect lifecycle l result).Yields s t value s') :
    Carried s t s' ∧ (value.drained = true → s'.queue = []) := by
  induction l generalizing s t result with
  | nil =>
    obtain ⟨rfl, rfl, rfl⟩ := h
    exact ⟨Prog.Composes.refl _, fun _ => hp⟩
  | cons x l ih =>
    have hmem : x ∈ s.queue := by
      rw [hp]
      exact List.mem_cons_self ..
    obtain ⟨a, hx⟩ := hw.readable x hmem
    unfold replayEntries at h
    rw [hx.1] at h
    obtain ⟨t₁, t₂, rebased, u, rfl, hrebase, hrest⟩ := Prog.yields_bind.mp h
    obtain ⟨rfl, hrebased, hhead⟩ := rebaseEntry_head hp hx hrebase
    cases rebased with
    | none =>
      obtain ⟨rfl, rfl, rfl⟩ := hrest
      exact ⟨hrebased, fun h => by cases h⟩
    | some b =>
      obtain ⟨y, hy, hcarries, hyid⟩ := hhead b rfl
      obtain ⟨t₃, t₄, response, v, rfl, hexecute, hgoOn⟩ := Prog.yields_bind.mp hrest
      obtain ⟨hexecuted, houtcome⟩ :=
        executeJournaled_journal (hrebased.fades hw).kept hy hcarries hexecute
      have hv : Carried s ([] ++ t₃) v := hrebased.then hexecuted
      rw [List.nil_append] at hv ⊢
      have hnext {result' : ReplayResult} (hq : v.queue = l)
          (h : (replayEntries tryConnect lifecycle l result').Yields v t₄ value s') :
          Carried s (t₃ ++ t₄) s' ∧ (value.drained = true → s'.queue = []) := by
        obtain ⟨hlast, hdrained⟩ := ih (hv.fades hw).kept hq h
        exact ⟨hv.then hlast, hdrained⟩
      rw [Prog.yields_ite] at hgoOn
      rcases hgoOn with ⟨hsuccess, hgoOn⟩ | ⟨hfailure, hgoOn⟩
      · generalize hq : v.queue = q at houtcome
        cases houtcome with
        | settled => exact hnext hq hgoOn
        | kept hid hs hr => exact absurd hsuccess (Bool.eq_false_iff.mp hs)
        | lost => cases hsuccess
      rw [Prog.yields_ite] at hgoOn
      rcases hgoOn with ⟨hstop, rfl, rfl, rfl⟩ | ⟨hterminal, hgoOn⟩
      · rw [List.append_nil]
        exact ⟨hv, fun h => by cases h⟩
      · generalize hq : v.queue = q at houtcome
        cases houtcome with
        | settled => exact hnext hq hgoOn
        | kept hid hs hr =>
          refine absurd ?_ hterminal
          rwa [hcarries.decision] at hr
        | lost => exact absurd (.inr (.inl rfl)) hterminal

theorem replayPendingV2_journal {tryConnect lifecycle : Bool} {value : ReplayResult}
    (hw : WellKept s.session.journal)
    (h : (replayPendingV2 tryConnect lifecycle).Yields s t value s') :
    Carried s t s' ∧ (value.drained = true → s'.queue = []) := by
  obtain ⟨t₁, t₂, x, u, rfl, ⟨rfl, rfl, rfl⟩, hrest⟩ := Prog.yields_bind.mp h
  exact replayEntries_journal hw rfl hrest

end

end Hazkey.SessionClient
