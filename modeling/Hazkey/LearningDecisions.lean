import Hazkey.JournalRuns

/-! The first decision of the learning wins. Only the frame that gives an uncertain
replacement up decides otherwise, and it goes to a session that got nothing but a restore. -/

namespace Hazkey.SessionClient

open ServiceProgram

def ClientFrame.BringsBack (f : ClientFrame) : Prop :=
  f.purpose = .restore ∨ f.purpose = .fallback

/-- In the frames that follow the opening of a session a disposal comes right after those that
bring the input into this session. -/
def DisposesOf (sessionID : Text) (l : List ClientFrame) : Prop :=
  ∀ k f k', l = k ++ f :: k' → f.purpose = .disposal →
    f.request.sessionID = sessionID ∧ ∀ g ∈ k, g.BringsBack

/-- What is disposed of was opened before, and got nothing but what was to be restored. -/
def DisposesOfReplacements (t : List ClientEvent) : Prop :=
  ∀ l f l', frames t = l ++ f :: l' → f.purpose = .disposal → ∃ k o k', l = k ++ o :: k' ∧
    o.purpose = .opening ∧
    (openedSession o.answer).map (·.sessionID) = some f.request.sessionID ∧
    ∀ g ∈ k', g.BringsBack

def Spares (_ : ClientState) (t : List ClientEvent) (_ : ClientState) : Prop :=
  ∀ f ∈ frames t, f.purpose ≠ .disposal

def Discards (_ : ClientState) (t : List ClientEvent) (_ : ClientState) : Prop :=
  DisposesOfReplacements t

variable {s s' u : ClientState} {t t' : List ClientEvent}

section

variable {sessionID : Text} {l l' : List ClientFrame}

theorem disposesOf_spared (h : ∀ f ∈ l, f.purpose ≠ .disposal) : DisposesOf sessionID l := by
  intro k f k' hl hf
  exact absurd hf (h f (by simp [hl]))

theorem DisposesOf.after (h : DisposesOf sessionID l') (hl : ∀ g ∈ l, g.BringsBack) :
    DisposesOf sessionID (l ++ l') := by
  intro k f k' hsplit hf
  rcases List.append_eq_append_iff.mp hsplit with ⟨c, rfl, hl'⟩ | ⟨c, rfl, hc⟩
  · obtain ⟨hid, hbefore⟩ := h c f k' hl' hf
    refine ⟨hid, fun g hg => ?_⟩
    rcases List.mem_append.mp hg with hg | hg
    · exact hl g hg
    · exact hbefore g hg
  · cases c with
    | nil =>
      obtain ⟨hid, -⟩ := h [] f k' hc.symm hf
      exact ⟨hid, fun g hg => hl g (List.mem_append_left _ hg)⟩
    | cons g c =>
      obtain ⟨rfl, -⟩ := List.cons.inj hc
      rcases hl f (by simp) with hp | hp
      · rw [hp] at hf
        cases hf
      · rw [hp] at hf
        cases hf

theorem DisposesOf.opened {o : ClientFrame} (ho : o.purpose = .opening)
    (hopened : (openedSession o.answer).map (·.sessionID) = some sessionID)
    (h : DisposesOf sessionID l) (hframes : frames t = o :: l) : DisposesOfReplacements t := by
  intro k f k' hsplit hf
  rw [hframes] at hsplit
  cases k with
  | nil =>
    obtain ⟨rfl, -⟩ := List.cons.inj hsplit
    rw [ho] at hf
    cases hf
  | cons g k =>
    obtain ⟨rfl, htail⟩ := List.cons.inj hsplit
    obtain ⟨hid, hbefore⟩ := h k f k' htail hf
    exact ⟨[], o, k, rfl, ho, hid ▸ hopened, hbefore⟩

end

theorem Spares.discards (h : Spares s t s') : Discards s t s' := by
  intro l f l' hsplit hf
  exact absurd hf (h f (by simp [hsplit]))

instance : Prog.Composes Spares where
  refl _ := by simp [Spares]
  trans _ _ _ _ _ h h' f hf := by
    rw [frames_append] at hf
    rcases List.mem_append.mp hf with hf | hf
    · exact h f hf
    · exact h' f hf

theorem DisposesOfReplacements.append (h : DisposesOfReplacements t)
    (h' : DisposesOfReplacements t') : DisposesOfReplacements (t ++ t') := by
  intro l f l' hsplit hf
  rw [frames_append] at hsplit
  rcases List.append_eq_append_iff.mp hsplit with ⟨c, rfl, ht'⟩ | ⟨c, ht, hc⟩
  · obtain ⟨k, o, k', rfl, ho, hopened, hbefore⟩ := h' c f l' ht' hf
    exact ⟨frames t ++ k, o, k', by simp, ho, hopened, hbefore⟩
  · cases c with
    | nil =>
      obtain ⟨k, o, k', hk, -⟩ := h' [] f l' hc.symm hf
      exact absurd hk (by simp)
    | cons g c =>
      obtain ⟨rfl, -⟩ := List.cons.inj hc
      exact h l f c ht hf

instance : Prog.Composes Discards where
  refl s := Spares.discards (Prog.Composes.refl s)
  trans _ _ _ _ _ h h' := DisposesOfReplacements.append h h'

theorem admits_spares {purpose : FramePurpose} {payload : RequestPayload}
    (hp : purpose ≠ .disposal) : Admits Spares purpose payload where
  admits s _ sessionID _ answer f hf := by
    obtain rfl : f = ⟨s, purpose, ⟨sessionID, payload⟩, answer⟩ := by
      simpa [frames, frameOf] using hf
    exact hp

instance : Steady Spares where
  change _ _ _ := by simp [Spares]
  unbind _ _ := by simp [Spares]
  count _ _ _ := by simp [Spares]
  closing _ := admits_spares (by simp)
  draw _ _ := by simp [Spares, frames, frameOf]
  notify _ := by simp [Spares, frames, frameOf]
  opening :=
    have (client : ClientContext) (clientFeatureBits : UInt64) :
        Admits Spares .opening (.openSession client clientFeatureBits) := admits_spares (by simp)
    frames_openSession fun _ _ => by simp [Spares]

instance : Steady Discards := .of_imp fun _ _ _ => Spares.discards

/-- An open session stays open under its id, and gets what is to be brought back only. -/
structure Restoring (s : ClientState) (t : List ClientEvent) (s' : ClientState) : Prop where
  id : s'.session.id = s.session.id
  brings : ∀ f ∈ frames t, f.BringsBack

theorem Restoring.then (h : Restoring s t u) (h' : Restoring u t' s') :
    Restoring s (t ++ t') s' := by
  refine ⟨h'.id.trans h.id, fun f hf => ?_⟩
  rw [frames_append] at hf
  rcases List.mem_append.mp hf with hf | hf
  · exact h.brings f hf
  · exact h'.brings f hf

theorem Restoring.refl (s : ClientState) : Restoring s [] s := ⟨rfl, by simp⟩

/-- A change that leaves the id. -/
theorem restoring_modest (f : HazkeyClientSession → HazkeyClientSession) [hf : Modest f] :
    Restoring s [] { s with session := f s.session } := ⟨(hf.keeps s.session).id, by simp⟩

variable {purpose : FramePurpose} {tryConnect : Bool}

theorem exchange_restoring {a : HandleImeAction} {channel : Channel} {resends : Bool}
    {response : Option ResponseEnvelope} (hp : purpose = .restore ∨ purpose = .fallback)
    (h : (exchange channel purpose a tryConnect resends).Yields s t response s') :
    Restoring s t s' := by
  refine ⟨congrArg (·.session.id) (exchange_cases h).1, fun f hf => ?_⟩
  obtain ⟨answer, rfl⟩ := (exchange_frames h).2.2 f hf
  exact hp

/-- The disposal and the close behind it. -/
theorem discard_disposes (h : discardServerNamespacePreservingRecovery.Yields s t () s') :
    DisposesOf s.session.id (frames t) := by
  obtain ⟨t₁, t₂, x, u, rfl, ⟨rfl, rfl, rfl⟩, hrest⟩ := Prog.yields_bind.mp h
  rw [Prog.yields_when] at hrest
  rcases hrest with ⟨-, hrest⟩ | ⟨-, rfl, -, -⟩
  · obtain ⟨t₃, t₄, _, v, rfl, hdispose, rfl, -, -⟩ := Prog.yields_bind.mp hrest
    rw [List.nil_append, List.append_nil]
    rcases disposeSession_cases hdispose with
      ⟨-, n, answer, answer', rfl, -⟩ | ⟨-, answer, rfl, -⟩
    · intro k f k' hsplit hf
      match k, hsplit with
      | [], hsplit =>
        obtain ⟨rfl, -⟩ := List.cons.inj hsplit
        exact ⟨rfl, by simp⟩
      | [g], hsplit =>
        obtain ⟨-, htail⟩ := List.cons.inj hsplit
        obtain ⟨rfl, -⟩ := List.cons.inj htail
        cases hf
      | g :: g' :: k, hsplit =>
        obtain ⟨-, htail⟩ := List.cons.inj hsplit
        obtain ⟨-, hnone⟩ := List.cons.inj htail
        simp at hnone
    · exact disposesOf_spared (by simp [frames, frameOf])
  · exact disposesOf_spared (by simp)

section

variable [WireCodec] {label : String} {action : Action} {step : RecoveryStep}

omit [WireCodec] in
theorem Attempts.restoring [WireCodec] {accept : HazkeyClientSession → HazkeyClientSession}
    [ha : Modest accept] (hp : purpose = .restore ∨ purpose = .fallback)
    (h : Attempts purpose label action accept tryConnect s t step s') : Restoring s t s' := by
  cases h with
  | @recovered n t r hx hr =>
    have htaken := Modest.keeps (f := (·.takenOver r ⟨s.drawn label n, 0, some action⟩))
      (accept s.session)
    exact ⟨htaken.id.trans (ha.keeps s.session).id, (exchange_restoring hp hx).brings⟩
  | uncertain hx hr => exact ⟨rfl, (exchange_restoring hp hx).brings⟩
  | rejected hx hs hr => exact ⟨rfl, (exchange_restoring hp hx).brings⟩

theorem recoverByCheckpoint_restoring
    (h : (recoverByCheckpoint tryConnect).Yields s t step s') : Restoring s t s' := by
  obtain ⟨-, -, rfl, rfl⟩ | ⟨-, hattempts⟩ := recoverByCheckpoint_cases h
  · exact .refl s'
  · exact hattempts.restoring (.inl rfl)

theorem recoverByFallback_restoring
    (h : (recoverByFallback tryConnect).Yields s t step s') : Restoring s t s' := by
  obtain ⟨-, -, rfl, rfl⟩ | ⟨-, -, hattempts⟩ := recoverByFallback_cases h
  · exact .refl s'
  · exact hattempts.restoring (.inr rfl)

omit [WireCodec] in
theorem retainStaleBinding_disposes {staleSessionID : Text} {staleRevision : UInt64}
    (h : (retainStaleBinding staleSessionID staleRevision).Yields s t () s') :
    DisposesOf s.session.id (frames t) := by
  obtain ⟨t₁, t₂, _, u, rfl, hdiscard, rfl, -, -⟩ := Prog.yields_bind.mp h
  rw [List.append_nil]
  exact discard_disposes hdiscard

instance (payload : RequestPayload) : Admits Spares .handOff payload := admits_spares (by simp)

instance (preferredCommit : Bool) : Prog.Frames Spares (finalizeWithoutUITarget preferredCommit) := by
  have hclear : Prog.Frames Spares (update fun s => (s.bound [] 0).cleared) :=
    Prog.frames_modify fun _ => by simp [Spares]
  unfold finalizeWithoutUITarget
  infer_instance

instance : Prog.Frames Spares abandonRejectedRecovery := by
  unfold abandonRejectedRecovery
  infer_instance

omit [WireCodec] in
theorem Restoring.disposes (h : Restoring s t u) (h' : DisposesOf u.session.id (frames t')) :
    DisposesOf s.session.id (frames (t ++ t')) := by
  rw [frames_append, ← h.id]
  exact h'.after h.brings

theorem recoverSession_disposes {staleSessionID : Text} {staleRevision : UInt64} {b : Bool}
    (h : (recoverSession staleSessionID staleRevision tryConnect).Yields s t b s') :
    DisposesOf s.session.id (frames t) := by
  have hreset (u : ClientState) : Restoring u [] { u with session := u.session.withRevision 0 } :=
    restoring_modest (·.withRevision 0)
  have hinserted {u v : ClientState} {t₁ t₂ : List ClientEvent} {step step' : RecoveryStep}
      (hr : (recoverByCheckpoint tryConnect).Yields s t₁ step u)
      (hf : (recoverByFallback tryConnect).Yields
        { u with session := u.session.withRevision 0 } t₂ step' v) : Restoring s (t₁ ++ t₂) v :=
    (recoverByCheckpoint_restoring hr).then ((hreset u).then (recoverByFallback_restoring hf))
  have hdone {t : List ClientEvent} {u : ClientState} (h : Restoring s t u) :
      DisposesOf s.session.id (frames t) := by
    have hend : DisposesOf u.session.id (frames []) := disposesOf_spared (by simp)
    simpa using h.disposes hend
  cases recoverSession_cases h with
  | restored hr => exact hdone (recoverByCheckpoint_restoring hr)
  | unsettled hr hs =>
    exact (recoverByCheckpoint_restoring hr).disposes (retainStaleBinding_disposes hs)
  | inserted hr hstep hf => exact hdone (hinserted hr hf)
  | unsettledInsertion hr hstep hf hs =>
    rw [← List.append_assoc]
    exact (hinserted hr hf).disposes (retainStaleBinding_disposes hs)
  | refused hr hstep hf hinsertion hholds hrefused ha =>
    rw [← List.append_assoc]
    exact (hinserted hr hf).disposes (disposesOf_spared (Prog.Frames.frame (R := Spares) _ _ _ _ ha))
  | withheld hr hf hholds husable => exact hdone (hinserted hr hf)
  | fresh hr hf hholds hh =>
    rw [← List.append_assoc]
    exact (hinserted hr hf).disposes (disposesOf_spared (Prog.Frames.frame (R := Spares) _ _ _ _ hh))

omit [WireCodec] in
/-- After an opening only what was opened is disposed of. -/
theorem disposes_opened (ho : (openSession tryConnect).Yields s t true u)
    (h : DisposesOf u.session.id (frames t')) : DisposesOfReplacements (t ++ t') := by
  obtain ⟨answer, rfl, ⟨-, hno, -⟩ | ⟨result, hresult, -, rfl⟩⟩ := openSession_cases ho
  · cases hno
  · exact h.opened (o := openingFrame s answer) rfl (by rw [hresult]; rfl) rfl

instance (tryConnect : Bool) : Prog.Frames Discards (replaceLostSession tryConnect) where
  frame s t b s' h := by
    show DisposesOfReplacements t
    cases replaceLostSession_cases h with
    | unopened ho =>
      have hspared : Spares _ t _ := Prog.Frames.frame _ _ _ _ ho
      exact hspared.discards
    | unsupported ho hold hs => exact disposes_opened ho (retainStaleBinding_disposes hs)
    | recovery ho hV2 hr => exact disposes_opened ho (recoverSession_disposes hr)

omit [WireCodec] in
theorem admits_discards {payload : RequestPayload} (hp : purpose ≠ .disposal) :
    Admits Discards purpose payload where
  admits s channel sessionID tryConnect answer :=
    ((admits_spares hp).admits s channel sessionID tryConnect answer).discards

omit [WireCodec] in
theorem frames_discards_update (f : HazkeyClientSession → HazkeyClientSession) :
    Prog.Frames Discards (update f) := by
  refine Prog.frames_modify fun s => ?_
  have hspared : Spares s [] s := Prog.Composes.refl s
  exact hspared.discards

instance (f : HazkeyRecoveryJournal → Bool × HazkeyRecoveryJournal) :
    Prog.Frames Discards (journaling f) := by
  have hset := frames_discards_update fun s => s.withJournal (f s.journal).2
  unfold journaling
  infer_instance

instance : Journals Discards where
  replace _ := inferInstance
  journaled _ := admits_discards (by simp)
  direct _ := admits_discards (by simp)
  rewrite _ := inferInstance
  acknowledge _ := frames_discards_update _

/-! Changes of the context. -/

theorem AttemptsInContext.restoring
    {prepare accept retreat : HazkeyClientSession → HazkeyClientSession}
    [hprepare : Modest prepare] [haccept : Modest accept] [hretreat : Modest retreat]
    (hp : purpose = .restore ∨ purpose = .fallback) (hid : s.session.id ≠ [])
    (h : AttemptsInContext purpose label action prepare accept retreat s t step s') :
    Restoring s t s' := by
  have hexecuted {n : Nat} {t : List ClientEvent} {u v : ClientState}
      {response : Option ResponseEnvelope} {sent : HandleImeAction}
      (hu : u = { s with session := prepare s.session })
      (hx : (executeV2 purpose ⟨u.drawn label n, u.session.revision, some action⟩ true false
        .normal).Yields (u.drawing n) t (response, sent) v) :
      Restoring s (⟨u, .othersDraw, n⟩ :: t) v := by
    subst hu
    have hkept := (hprepare.keeps s.session).id
    obtain ⟨-, answer, hx, hc⟩ := executeV2_open_cases (hkept ▸ hid) hx
    refine ⟨?_, (exchange_restoring hp hx).brings⟩
    rcases hc with hc | ⟨-, -, rfl⟩
    · exact (concludeV2_id hc).trans hkept
    · exact hkept
  cases h with
  | @recovered n t r sent u v hu hx hr =>
    have hkept := (haccept.keeps v.session).trans (Modest.keeps (f := (·.collectResponseEffects r)) _)
    exact ⟨hkept.id.trans (hexecuted hu hx).id, (hexecuted hu hx).brings⟩
  | @uncertain n t response sent u v hu hx hr =>
    exact ⟨(hretreat.keeps v.session).id.trans (hexecuted hu hx).id, (hexecuted hu hx).brings⟩
  | rejected hu hx hs hr => exact hexecuted hu hx

theorem restoreContext_disposes {b : Bool} (hid : s.session.id ≠ [])
    (h : restoreContext.Yields s t b s') : DisposesOf s.session.id (frames t) := by
  have hrestored {t : List ClientEvent} {u : ClientState} {step : RecoveryStep}
      (hr : restoreInContext.Yields s t step u) : Restoring s t u := by
    obtain ⟨-, -, rfl, rfl⟩ | ⟨-, hattempts⟩ := restoreInContext_cases hr
    · exact .refl u
    · exact hattempts.restoring (.inl rfl) hid
  have hinserted {u v : ClientState} {t₁ t₂ : List ClientEvent} {step step' : RecoveryStep}
      (hr : restoreInContext.Yields s t₁ step u) (hi : insertInContext.Yields u t₂ step' v) :
      Restoring s (t₁ ++ t₂) v := by
    refine (hrestored hr).then ?_
    obtain ⟨-, -, rfl, rfl⟩ | ⟨-, hattempts⟩ := insertInContext_cases hi
    · exact .refl v
    · exact hattempts.restoring (.inr rfl) ((hrestored hr).id ▸ hid)
  have hdone {t : List ClientEvent} {u : ClientState} (h : Restoring s t u) :
      DisposesOf s.session.id (frames t) := by
    have hend : DisposesOf u.session.id (frames []) := disposesOf_spared (by simp)
    simpa using h.disposes hend
  cases restoreContext_cases h with
  | restored hr => exact hdone (hrestored hr)
  | unsettled hr hd => exact (hrestored hr).disposes (discard_disposes hd)
  | inserted hr hstep hi => exact hdone (hinserted hr hi)
  | unsettledInsertion hr hstep hi hd =>
    rw [← List.append_assoc]
    exact (hinserted hr hi).disposes (discard_disposes hd)
  | refused hr hstep hi hinsertion hholds hrefused hw ha =>
    rw [← List.append_assoc]
    have hspared : Spares _ _ s' := Prog.Frames.frame _ _ _ _ ha
    exact (hinserted hr hi).disposes (disposesOf_spared hspared)
  | passed hr hstep hi hinsertion hrefused => exact hdone (hinserted hr hi)

theorem updateContext_discards {context : ClientContext} {b : Bool}
    (h : (updateContext context).Yields s t b s') : DisposesOfReplacements t := by
  have hclosed {c b : Bool} {t : List ClientEvent} {u v : ClientState}
      (hc : (closeForContext c).Yields u t b v) : DisposesOfReplacements t := by
    unfold closeForContext at hc
    exact Prog.Frames.frame (R := Discards) _ _ _ _ hc
  have hopened {b : Bool} {t : List ClientEvent} {u v : ClientState}
      (ho : (openSession true).Yields u t b v) : DisposesOfReplacements t :=
    Prog.Frames.frame (R := Discards) _ _ _ _ ho
  cases updateContext_cases h with
  | same => exact Prog.Composes.refl (R := Discards) s
  | unclosed hc => exact hclosed hc
  | unopened hc hv ho => exact (hclosed hc).append (hopened ho)
  | opened hc hv ho hdone => exact (hclosed hc).append (hopened ho)
  | restoring hc hv ho hV2 hplain hkeeps hr =>
    refine (hclosed hc).append ?_
    obtain ⟨answer, -, ⟨-, hno, -⟩ | ⟨result, hresult, -, hw⟩⟩ := openSession_cases ho
    · cases hno
    · refine disposes_opened ho (restoreContext_disposes ?_ hr)
      rw [hw]
      exact openedSession_id hresult

instance (action : HandleImeAction) : Prog.Frames Discards (recordAction action) := by
  unfold recordAction
  cases WireCodec.serializeAction action <;> infer_instance

theorem program_discards {call : ClientCall} {value : ClientAnswer}
    (h : call.program.Yields s t value s') : DisposesOfReplacements t := by
  have hframes {α : Type} {p : ClientM α} {a : α} [hp : Prog.Frames Discards p]
      (hY : p.Yields s t a s') : Discards s t s' := hp.frame _ _ _ _ hY
  have hclear := frames_discards_update fun s => s.withJournal s.journal.clear
  cases call with
  | openSession tryConnect | close tryConnect | shouldApplyEffect effectID =>
    obtain ⟨a, hY, -⟩ := Prog.yields_map.mp h
    exact hframes hY
  | abandonUnconfirmedInput | finalizeWithoutUITarget preferredCommit =>
    obtain ⟨a, hY, -⟩ := Prog.yields_map.mp h
    have hspared : Spares s t s' := Prog.Frames.frame (p := finalizeWithoutUITarget _) _ _ _ _ hY
    exact hspared.discards
  | updateContext context =>
    obtain ⟨a, hY, -⟩ := Prog.yields_map.mp h
    exact updateContext_discards hY
  | transactV2 action tryConnect =>
    obtain ⟨a, hY, -⟩ := Prog.yields_map.mp h
    have hp : Prog.Frames Discards (transactV2 action tryConnect) := by
      unfold transactV2
      refine .bind inferInstance fun opened => .bind inferInstance fun s => ?_
      split
      · infer_instance
      · split
        · infer_instance
        · refine .bind inferInstance fun replayed => ?_
          infer_instance
    exact hframes hY
  | transactV2BestEffort action =>
    obtain ⟨a, hY, -⟩ := Prog.yields_map.mp h
    exact hframes hY
  | transactV2DurableBestEffort action =>
    obtain ⟨a, hY, -⟩ := Prog.yields_map.mp h
    unfold transactV2DurableBestEffort at hY
    exact hframes hY
  | flushPendingV2 tryConnect =>
    obtain ⟨a, hY, -⟩ := Prog.yields_map.mp h
    have hforget := frames_discards_update fun s =>
      (s.withJournal s.journal.clear).clearEffects
    unfold flushPendingV2 at hY
    exact hframes hY

/-! The decision. -/

/-- A frame that decides does so as the journal does. -/
theorem ClientFrame.Faithful.decision {f : ClientFrame} {x : HazkeyJournalEntry} {d d' : Bool}
    (h : f.Faithful) (hone : OneDecision f.state.queue) (hp : f.purpose ≠ .disposal)
    (hx : x ∈ f.state.queue) (hd : x.decision = some d)
    (hd' : f.action.bind (·.learningDecision) = some d') : d' = d := by
  obtain ⟨u, purpose, ⟨sessionID, payload⟩, answer⟩ := f
  have hsame {y : HazkeyJournalEntry} (hy : y ∈ u.queue) (hdy : y.decision = some d') :
      d' = d := by
    obtain rfl := hone.eq hx hy hd hdy
    exact Option.some.inj (hdy.symm.trans hd)
  have hundecided (h : ∀ a, payload = .handleImeAction a → a.learningDecision = none) :
      d' = d := by
    cases payload with
    | handleImeAction a =>
      have hnone := h a rfl
      rw [show a.learningDecision = some d' from hd'] at hnone
      cases hnone
    | openSession => cases hd'
    | closeSession => cases hd'
  cases purpose with
  | journaled =>
    obtain ⟨y, -, -, z, hz, -, a, ha, -, haction⟩ := h
    refine hsame hz ((decision_of_payload haction.symm).trans ?_)
    rw [ha] at hd'
    exact hd'
  | handOff =>
    have hjournaled : u.session.journaledDecision.isSome = true := by
      refine List.findSome?_isSome_iff.mpr ⟨x, hx, ?_⟩
      exact Option.isSome_iff_exists.mpr ⟨d, hd⟩
    obtain ⟨d₀, hd₀⟩ := Option.isSome_iff_exists.mp hjournaled
    obtain ⟨y, hy, hdy⟩ := List.exists_of_findSome?_eq_some hd₀
    rw [h d₀ hd₀] at hd'
    exact hsame hy (hdy.trans hd')
  | direct =>
    rw [show u.queue = [] from h] at hx
    cases hx
  | disposal => exact absurd rfl hp
  | opening | closing =>
    refine hundecided fun a ha => ?_
    subst ha
    exact h.elim
  | restore | fallback =>
    refine hundecided fun a ha => ?_
    subst ha
    obtain ⟨text, haction⟩ := h
    simp only [HandleImeAction.learningDecision, haction]

/-- In every run there is one decision at most in the journal, and as long as it is there,
every frame that decides carries it; but for those that give a replacement up to which no
action of a caller was sent. -/
theorem first_decision_wins {context : ClientContext} {hasRecoveryHandler : Bool}
    {moves : List ClientMove} (h : ClientRun context hasRecoveryHandler moves s) :
    ∀ m ∈ moves, OneDecision m.before.queue ∧ OneDecision m.after.queue ∧
      (∀ e ∈ m.trace, OneDecision e.state.queue) ∧ DisposesOfReplacements m.trace ∧
      ∀ (x : HazkeyJournalEntry) (d : Bool), x.decision = some d → ∀ f ∈ frames m.trace,
        f.purpose ≠ .disposal → x.identity ∈ f.state.queue.map (·.identity) →
          ∀ d', f.action.bind (·.learningDecision) = some d' → d' = d := by
  have hinvariant := Runs.invariant
    (J := fun s => WellKept s.session.journal ∧ OneDecision s.queue)
    ⟨wellKept_initial context hasRecoveryHandler, show OneDecision [] from .nil⟩
    (fun m hbefore hv =>
      have hkeeps := program_keeps hbefore.1 hv
      ⟨(hkeeps.orders hbefore.1).kept, (hkeeps.decides hbefore.1 hbefore.2).one⟩) h
  intro m hm
  obtain ⟨hv, ⟨hkept, hone⟩, hkept', hone'⟩ := hinvariant.2 m hm
  have hdeciding := (program_keeps hkept hv).decides hkept hone
  refine ⟨hone, hone', hdeciding.states, program_discards hv, fun x d hd f hf hp hx d' hd' => ?_⟩
  obtain ⟨y, hy, hidentity⟩ := List.mem_map.mp hx
  obtain ⟨e, he, hframe⟩ := mem_frames.mp hf
  have hstate := hdeciding.states e he
  rw [← frameOf_state hframe] at hstate
  exact (hdeciding.faithful f hf).decision hstate hp hy ((decision_eq hidentity).trans hd) hd'

end

attribute [local instance] wireFormats

/-- The learning is discarded, but no answer comes; then it is to be kept, and in the end the
input is given up with the learning to be kept. -/
def discardedFirst : List ClientMove × List (Option ResponseEnvelope) × ClientState :=
  evaluateClient plainContext
    [.updateContext plainContext, .transactV2 (insertion "a") true,
      .transactV2DurableBestEffort (learningResolution false),
      .transactV2DurableBestEffort (learningResolution true), .transactV2 (insertion "b") true,
      .finalizeWithoutUITarget true]
    [openedAs "S",
      answeredWith .success (some { composed 1 "a" none [] with pendingLearning := true })]

theorem first_decision_wins_discard :
    ∃ m ∈ discardedFirst.1, ∃ f ∈ frames m.trace, f.purpose = .handOff ∧
      f.action.bind (·.learningDecision) = some false := by
  have hcheck : (discardedFirst.1[5]?.any fun m => (frames m.trace).any fun f =>
      f.purpose = .handOff && (f.action.bind (·.learningDecision)).isSome &&
        f.state.queue.any fun x => x.decision = some false) = true := by
    decide +kernel
  obtain ⟨m, hm, hcheck⟩ := (Option.any_eq_true ..).mp hcheck
  obtain ⟨f, hf, hcheck⟩ := List.any_eq_true.mp hcheck
  simp only [Bool.and_eq_true, decide_eq_true_eq, List.any_eq_true] at hcheck
  obtain ⟨⟨hp, hsome⟩, x, hx, hd⟩ := hcheck
  obtain ⟨d', hd'⟩ := Option.isSome_iff_exists.mp hsome
  have hm := List.mem_of_getElem? hm
  obtain ⟨-, -, -, -, hwins⟩ :=
    first_decision_wins (evaluateClient_run plainContext _ _) m hm
  have hne : f.purpose ≠ .disposal := by
    rw [hp]
    decide
  have hfirst := hwins x false hd f hf hne (List.mem_map_of_mem hx) d' hd'
  exact ⟨m, hm, f, hf, hp, hfirst ▸ hd'⟩

end Hazkey.SessionClient
