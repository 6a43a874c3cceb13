import Hazkey.ClientExecution

/-! What a run of an operation of the session client can have been. -/

namespace Hazkey.SessionClient

open ServiceProgram

variable {s s' : ClientState} {t : List ClientEvent}

theorem ensureOpen_cases {tryConnect b : Bool} (h : (ensureOpen tryConnect).Yields s t b s') :
    s.session.id = [] ∧ (openSession tryConnect).Yields s t b s' ∨
      s.session.id ≠ [] ∧ t = [] ∧ b = true ∧ s' = s := by
  obtain ⟨t₁, t₂, x, u, rfl, ⟨rfl, rfl, rfl⟩, hrest⟩ := Prog.yields_bind.mp h
  rw [Prog.yields_ite] at hrest
  rcases hrest with ⟨hid, hopen⟩ | ⟨hid, rfl, rfl, rfl⟩
  · exact .inl ⟨hid, hopen⟩
  · exact .inr ⟨hid, rfl, rfl, rfl⟩

theorem namedOr_cases {action named : HandleImeAction} {label : String}
    (h : (namedOr action label).Yields s t named s') :
    (action.requestID = [] ∧ ∃ n, t = [⟨s, .othersDraw, n⟩] ∧
        named = action.renamed (s.drawn label n) ∧ s' = s.drawing n) ∨
      (action.requestID ≠ [] ∧ t = [] ∧ named = action ∧ s' = s) := by
  unfold namedOr at h
  rw [Prog.yields_ite] at h
  rcases h with ⟨hid, h⟩ | ⟨hid, rfl, rfl, rfl⟩
  · obtain ⟨t₁, t₂, id, u, rfl, hdraw, rfl, rfl, rfl⟩ := Prog.yields_bind.mp h
    obtain ⟨n, rfl, rfl, rfl⟩ := drawRequestID_cases hdraw
    exact .inl ⟨hid, n, rfl, rfl, rfl⟩
  · exact .inr ⟨hid, rfl, rfl, rfl⟩

section

variable [WireCodec]

/-- On a session that is open, and without a replacement, there is one exchange. -/
theorem executeV2_open_cases {purpose : FramePurpose} {action sent : HandleImeAction}
    {tryConnect : Bool} {channel : Channel} {response : Option ResponseEnvelope}
    (hid : s.session.id ≠ [])
    (h : (executeV2 purpose action tryConnect false channel).Yields s t (response, sent) s') :
    sent = action ∧ ∃ answer,
      (exchange channel purpose action tryConnect (channel = .normal)).Yields s t answer s ∧
      ((concludeV2 answer action).Yields s [] response s' ∨
        (answer.any fun r => r.status = .sessionNotFound) = true ∧ response = none ∧ s' = s) := by
  have hopen {b : Bool} {t : List ClientEvent} {u : ClientState}
      (ho : (ensureOpen tryConnect).Yields s t b u) : t = [] ∧ b = true ∧ u = s :=
    ((ensureOpen_cases ho).resolve_left fun h => hid h.1).2
  cases executeV2_cases h with
  | unopened ho =>
    obtain ⟨-, hb, -⟩ := hopen ho
    cases hb
  | @concluded _ _ answer _ _ _ ho hx hc =>
    obtain ⟨rfl, -, rfl⟩ := hopen ho
    exact ⟨rfl, answer, hx, .inl hc⟩
  | @lost _ _ answer _ ho hx hlost hallow =>
    obtain ⟨rfl, -, rfl⟩ := hopen ho
    exact ⟨rfl, answer, hx, .inr ⟨hlost, rfl, rfl⟩⟩
  | unreplaced ho hx hlost hallow hr => cases hallow
  | replaced ho hx hlost hallow hr hy hc => cases hallow

/-- Recorded as an entry for the session that is open, as a duplicate, or refused. -/
theorem recordAction_cases {action : HandleImeAction} {b : Bool}
    (h : (recordAction action).Yields s t b s') :
    t = [] ∧ (b = false ∧ s' = s ∨
      ∃ d, WireCodec.serializeAction action = some d ∧
        ∃ entry : HazkeyJournalEntry,
          entry = ⟨action.requestID, d, action.expectedRevision, s.session.id, false, 0⟩ ∧
          b = (s.session.journal.record entry).1 ∧
          s' = { s with
            session := s.session.withJournal (s.session.journal.record entry).2 }) := by
  unfold recordAction at h
  cases hd : WireCodec.serializeAction action with
  | none =>
    rw [hd] at h
    obtain ⟨rfl, rfl, rfl⟩ := h
    exact ⟨rfl, .inl ⟨rfl, rfl⟩⟩
  | some d =>
    rw [hd] at h
    obtain ⟨t₁, t₂, x, u, rfl, ⟨rfl, rfl, rfl⟩, hrest⟩ := Prog.yields_bind.mp h
    obtain ⟨rfl, rfl, rfl⟩ := journaling_cases hrest
    exact ⟨rfl, .inr ⟨d, rfl, _, rfl, rfl, rfl⟩⟩

/-- How a transaction went. -/
inductive TransactsV2 (action : HandleImeAction) (tryConnect : Bool) (s : ClientState) :
    List ClientEvent → Option ResponseEnvelope → ClientState → Prop
  | unopened {t : List ClientEvent} {s' : ClientState}
      (ho : (ensureOpen tryConnect).Yields s t false s') :
      TransactsV2 action tryConnect s t none s'
  | secure {t t' t'' : List ClientEvent} {named : HandleImeAction}
      {value : Option ResponseEnvelope} {u v w s' : ClientState}
      (ho : (ensureOpen tryConnect).Yields s t true u)
      (hsecure : u.session.context.secureInput = true)
      (hv : v = { u with session := u.session.withJournal u.session.journal.clear })
      (hn : (namedOr action "fcitx-").Yields v t' named w)
      (hx : (transactSecure (named.rebased w.session.revision) tryConnect).Yields w t'' value s') :
      TransactsV2 action tryConnect s (t ++ (t' ++ t'')) value s'
  | undrained {t t' t'' : List ClientEvent} {result : ReplayResult}
      {value : Option ResponseEnvelope} {u v s' : ClientState}
      (ho : (ensureOpen tryConnect).Yields s t true u)
      (hplain : u.session.context.secureInput = false)
      (hr : (replayPendingV2 tryConnect false).Yields u t' result v)
      (hd : result.drained = false) (hh : handOffEffects.Yields v t'' value s') :
      TransactsV2 action tryConnect s (t ++ (t' ++ t'')) value s'
  | unrecorded {t t' t'' : List ClientEvent} {result : ReplayResult} {named : HandleImeAction}
      {u v w s' : ClientState} (ho : (ensureOpen tryConnect).Yields s t true u)
      (hplain : u.session.context.secureInput = false)
      (hr : (replayPendingV2 tryConnect false).Yields u t' result v) (hd : result.drained = true)
      (hn : (namedOr action "fcitx-").Yields v t'' named w)
      (hrecord : (recordAction (named.rebased w.session.revision)).Yields w [] false s') :
      TransactsV2 action tryConnect s (t ++ (t' ++ t'')) none s'
  | executed {t t' t'' t₃ t₄ : List ClientEvent} {result : ReplayResult} {named : HandleImeAction}
      {response value : Option ResponseEnvelope} {u v w x y s' : ClientState}
      (ho : (ensureOpen tryConnect).Yields s t true u)
      (hplain : u.session.context.secureInput = false)
      (hr : (replayPendingV2 tryConnect false).Yields u t' result v) (hd : result.drained = true)
      (hn : (namedOr action "fcitx-").Yields v t'' named w)
      (hrecord : (recordAction (named.rebased w.session.revision)).Yields w [] true x)
      (hx : (executeJournaledV2 (named.rebased w.session.revision) tryConnect false false).Yields
        x t₃ response y) (hdeliver : (deliver response).Yields y t₄ value s') :
      TransactsV2 action tryConnect s (t ++ (t' ++ (t'' ++ (t₃ ++ t₄)))) value s'

theorem transactV2_cases {action : HandleImeAction} {tryConnect : Bool}
    {value : Option ResponseEnvelope} (h : (transactV2 action tryConnect).Yields s t value s') :
    TransactsV2 action tryConnect s t value s' := by
  obtain ⟨t₁, t₂, opened, u, rfl, ho, hrest⟩ := Prog.yields_bind.mp h
  obtain ⟨t₃, t₄, x, y, rfl, ⟨rfl, rfl, rfl⟩, hopened⟩ := Prog.yields_bind.mp hrest
  rw [Prog.yields_ite] at hopened
  rcases hopened with ⟨rfl, rfl, rfl, rfl⟩ | ⟨htrue, hbody⟩
  · simp only [List.append_nil]
    exact .unopened ho
  obtain rfl : opened = true := by simpa using htrue
  rw [Prog.yields_ite] at hbody
  rcases hbody with ⟨hsecure, hbody⟩ | ⟨hplain, hbody⟩
  · obtain ⟨t₅, t₆, _, v, rfl, ⟨rfl, -, hv⟩, hnamed⟩ := Prog.yields_bind.mp hbody
    obtain ⟨t₇, t₈, named, w, rfl, hn, hsend⟩ := Prog.yields_bind.mp hnamed
    obtain ⟨t₉, t₁₀, x, z, rfl, ⟨rfl, rfl, rfl⟩, hx⟩ := Prog.yields_bind.mp hsend
    simp only [List.nil_append]
    exact .secure ho hsecure hv hn hx
  have hplain := Bool.eq_false_iff.mpr hplain
  obtain ⟨t₅, t₆, result, v, rfl, hr, hreplayed⟩ := Prog.yields_bind.mp hbody
  rw [Prog.yields_ite] at hreplayed
  rcases hreplayed with ⟨hd, hh⟩ | ⟨hd, hdrained⟩
  · simp only [List.nil_append]
    exact .undrained ho hplain hr hd hh
  have hd : result.drained = true := by simpa using hd
  obtain ⟨t₇, t₈, named, w, rfl, hn, hnamed⟩ := Prog.yields_bind.mp hdrained
  obtain ⟨t₉, t₁₀, x, z, rfl, ⟨rfl, rfl, rfl⟩, hrebased⟩ := Prog.yields_bind.mp hnamed
  obtain ⟨t₁₁, t₁₂, recorded, x, rfl, hrecord, hexecute⟩ := Prog.yields_bind.mp hrebased
  obtain rfl := (recordAction_cases hrecord).1
  rw [Prog.yields_ite] at hexecute
  rcases hexecute with ⟨rfl, rfl, rfl, rfl⟩ | ⟨htrue, hexecute⟩
  · simp only [List.nil_append, List.append_nil]
    exact .unrecorded ho hplain hr hd hn hrecord
  obtain rfl : recorded = true := by simpa using htrue
  obtain ⟨t₁₃, t₁₄, response, y, rfl, hx, hdeliver⟩ := Prog.yields_bind.mp hexecute
  simp only [List.nil_append]
  exact .executed ho hplain hr hd hn hrecord hx hdeliver

/-- How a decision of the learning was recorded. -/
inductive TransactsDurably (action : HandleImeAction) (s : ClientState) :
    List ClientEvent → Option ResponseEnvelope → ClientState → Prop
  | refused : TransactsDurably action s [] none s
  | recorded {t : List ClientEvent} {b : Bool} {named : HandleImeAction} {u s' : ClientState}
      (hplain : s.session.context.secureInput = false)
      (ha : action.learningDecision.isSome = true)
      (hfirst : s.session.hasPendingLearningResolution = false)
      (hn : (namedOr action "fcitx-durable-best-effort-").Yields s t named u)
      (hrecord : (recordAction (named.rebased u.session.revision)).Yields u [] b s') :
      TransactsDurably action s t none s'
  | executed {t t' : List ClientEvent} {named : HandleImeAction} {value : Option ResponseEnvelope}
      {u v s' : ClientState} (hplain : s.session.context.secureInput = false)
      (ha : action.learningDecision.isSome = true)
      (hfirst : s.session.hasPendingLearningResolution = false)
      (hn : (namedOr action "fcitx-durable-best-effort-").Yields s t named u)
      (hrecord : (recordAction (named.rebased u.session.revision)).Yields u [] true v)
      (hstaged : stagedOnServer v.session = true) (hhead : v.session.journal.pending.length = 1)
      (hx : (executeJournaledV2 (named.rebased u.session.revision) false false true).Yields
        v t' value s') :
      TransactsDurably action s (t ++ t') value s'

theorem transactV2DurableBestEffort_cases {action : HandleImeAction}
    {value : Option ResponseEnvelope}
    (h : (transactV2DurableBestEffort action).Yields s t value s') :
    TransactsDurably action s t value s' := by
  obtain ⟨t₁, t₂, x, u, rfl, ⟨rfl, rfl, rfl⟩, hrest⟩ := Prog.yields_bind.mp h
  rw [Prog.yields_ite] at hrest
  rcases hrest with ⟨-, rfl, rfl, rfl⟩ | ⟨hmay, hbody⟩
  · exact .refused
  obtain ⟨hplain, hrest⟩ := not_or.mp hmay
  obtain ⟨ha, hfirst⟩ := not_or.mp hrest
  have hplain := Bool.eq_false_iff.mpr hplain
  have ha := Option.isSome_iff_ne_none.mpr ha
  have hfirst := Bool.eq_false_iff.mpr hfirst
  obtain ⟨t₃, t₄, named, v, rfl, hn, hnamed⟩ := Prog.yields_bind.mp hbody
  obtain ⟨t₅, t₆, x, y, rfl, ⟨rfl, rfl, rfl⟩, hrebased⟩ := Prog.yields_bind.mp hnamed
  obtain ⟨t₇, t₈, recorded, w, rfl, hrecord, hexecute⟩ := Prog.yields_bind.mp hrebased
  obtain rfl := (recordAction_cases hrecord).1
  rw [Prog.yields_ite] at hexecute
  rcases hexecute with ⟨rfl, rfl, rfl, rfl⟩ | ⟨htrue, hexecute⟩
  · simp only [List.nil_append, List.append_nil]
    exact .recorded hplain ha hfirst hn hrecord
  obtain rfl : recorded = true := by simpa using htrue
  obtain ⟨t₉, t₁₀, x, y, rfl, ⟨rfl, rfl, rfl⟩, hexecute⟩ := Prog.yields_bind.mp hexecute
  rw [Prog.yields_ite] at hexecute
  rcases hexecute with ⟨⟨hstaged, hhead⟩, hx⟩ | ⟨-, rfl, rfl, rfl⟩
  · simp only [List.nil_append]
    exact .executed hplain ha hfirst hn hrecord hstaged hhead hx
  · simp only [List.nil_append, List.append_nil]
    exact .recorded hplain ha hfirst hn hrecord

theorem transactV2BestEffort_cases {action : HandleImeAction} {value : Option ResponseEnvelope}
    (h : (transactV2BestEffort action).Yields s t value s') :
    (t = [] ∧ value = none ∧ s' = s) ∨
      s.session.id ≠ [] ∧ s.session.journal.pending = [] ∧ ∃ t₁ t₂ named u sent, t = t₁ ++ t₂ ∧
        (namedOr action "fcitx-best-effort-").Yields s t₁ named u ∧
        (executeV2 .direct (named.rebased u.session.revision) false false .bestEffort).Yields
          u t₂ (value, sent) s' := by
  obtain ⟨t₁, t₂, x, u, rfl, ⟨rfl, rfl, rfl⟩, hrest⟩ := Prog.yields_bind.mp h
  rw [Prog.yields_ite] at hrest
  rcases hrest with ⟨-, rfl, rfl, rfl⟩ | ⟨hmay, hbody⟩
  · exact .inl ⟨rfl, rfl, rfl⟩
  obtain ⟨hid, hpending⟩ := not_or.mp hmay
  obtain ⟨t₃, t₄, named, v, rfl, hn, hsend⟩ := Prog.yields_bind.mp hbody
  obtain ⟨t₅, t₆, x, y, rfl, ⟨rfl, rfl, rfl⟩, hexecute⟩ := Prog.yields_bind.mp hsend
  obtain ⟨t₇, t₈, ⟨response, sent⟩, w, rfl, hx, rfl, rfl, rfl⟩ := Prog.yields_bind.mp hexecute
  simp only [List.nil_append, List.append_nil]
  exact .inr ⟨hid, not_not.mp hpending, t₃, t₇, named, _, sent, rfl, hn, hx⟩

/-- How a secure action went; a stale answer costs it its id. -/
theorem transactSecure_cases {action : HandleImeAction} {tryConnect : Bool}
    {value : Option ResponseEnvelope} (h : (transactSecure action tryConnect).Yields s t value s') :
    (∃ sent, (executeV2 .direct action tryConnect true .normal).Yields s t (value, sent) s' ∧
        isStaleImeResponse value = false) ∨
      ∃ t₁ t₂ response sent sent' u n, t = t₁ ++ ⟨u, .othersDraw, n⟩ :: t₂ ∧
        (executeV2 .direct action tryConnect true .normal).Yields s t₁ (response, sent) u ∧
        isStaleImeResponse response = true ∧
        (executeV2 .direct ((sent.renamed (u.drawn "fcitx-secure-" n)).rebased u.session.revision)
          tryConnect true .normal).Yields (u.drawing n) t₂ (value, sent') s' := by
  obtain ⟨t₁, t₂, ⟨response, sent⟩, u, rfl, hx, hrest⟩ := Prog.yields_bind.mp h
  dsimp only at hrest
  rw [Prog.yields_ite] at hrest
  rcases hrest with ⟨hr, hagain⟩ | ⟨hr, rfl, rfl, rfl⟩
  · obtain ⟨t₃, t₄, id, v, rfl, hdraw, hagain⟩ := Prog.yields_bind.mp hagain
    obtain ⟨n, rfl, rfl, rfl⟩ := drawRequestID_cases hdraw
    obtain ⟨t₅, t₆, x, y, rfl, ⟨rfl, rfl, rfl⟩, hsend⟩ := Prog.yields_bind.mp hagain
    obtain ⟨t₇, t₈, ⟨response', sent'⟩, w, rfl, hy, rfl, rfl, rfl⟩ := Prog.yields_bind.mp hsend
    simp only [List.nil_append, List.append_nil]
    exact .inr ⟨t₁, t₇, response, sent, sent', u, n, rfl, hx, hr, hy⟩
  · rw [List.append_nil]
    exact .inl ⟨sent, hx, Bool.eq_false_iff.mpr hr⟩

/-- The session on its way into the next context. -/
def HazkeyClientSession.entering (s : HazkeyClientSession) (previous next : ClientContext) :
    HazkeyClientSession :=
  if previous = next then s
  else if (evaluateHazkeyClientContextTransition previous next).clearPreedit = true then
    s.cleared.inContext next
  else s.inContext next

/-- How the context was updated: the session stays, or is closed for another one. -/
inductive UpdatesContext (context : ClientContext) (s : ClientState) :
    List ClientEvent → Bool → ClientState → Prop
  | same (hsame : s.session.context = context) (hid : s.session.id ≠ [])
      (hV2 : s.session.capabilities.supportsV2 = true) : UpdatesContext context s [] true s
  | unclosed {t : List ClientEvent} {s' : ClientState}
      (hc : (closeForContext (decide (s.session.context ≠ context))).Yields s t false s') :
      UpdatesContext context s t false s'
  | unopened {t t' : List ClientEvent} {u v s' : ClientState}
      (hc : (closeForContext (decide (s.session.context ≠ context))).Yields s t true u)
      (hv : v = { u with session := u.session.entering s.session.context context })
      (ho : (openSession true).Yields v t' false s') :
      UpdatesContext context s (t ++ t') false s'
  | opened {t t' : List ClientEvent} {u v s' : ClientState}
      (hc : (closeForContext (decide (s.session.context ≠ context))).Yields s t true u)
      (hv : v = { u with session := u.session.entering s.session.context context })
      (ho : (openSession true).Yields v t' true s')
      (hdone : s'.session.capabilities.supportsV2 = false ∨
        s'.session.context.secureInput = true ∨
        (evaluateHazkeyClientContextTransition s.session.context context).clearPreedit = true) :
      UpdatesContext context s (t ++ t') true s'
  | restoring {t t' t'' : List ClientEvent} {b : Bool} {u v w s' : ClientState}
      (hc : (closeForContext (decide (s.session.context ≠ context))).Yields s t true u)
      (hv : v = { u with session := u.session.entering s.session.context context })
      (ho : (openSession true).Yields v t' true w)
      (hV2 : w.session.capabilities.supportsV2 = true)
      (hplain : w.session.context.secureInput = false)
      (hkeeps : (evaluateHazkeyClientContextTransition s.session.context context).clearPreedit =
        false)
      (hr : restoreContext.Yields w t'' b s') :
      UpdatesContext context s (t ++ (t' ++ t'')) b s'

theorem updateContext_cases {context : ClientContext} {b : Bool}
    (h : (updateContext context).Yields s t b s') : UpdatesContext context s t b s' := by
  obtain ⟨t₁, t₂, x, u, rfl, ⟨rfl, rfl, rfl⟩, hrest⟩ := Prog.yields_bind.mp h
  dsimp only at hrest
  rw [Prog.yields_ite] at hrest
  rcases hrest with ⟨⟨hsame, hid, hV2⟩, rfl, rfl, rfl⟩ | ⟨-, hbody⟩
  · refine .same ?_ hid hV2
    simpa [evaluateHazkeyClientContextTransition] using hsame
  obtain ⟨t₃, t₄, closed, v, rfl, hc, hclosed⟩ := Prog.yields_bind.mp hbody
  rw [Prog.yields_ite] at hclosed
  rcases hclosed with ⟨rfl, rfl, rfl, rfl⟩ | ⟨htrue, hclosed⟩
  · simp only [List.nil_append, List.append_nil]
    exact .unclosed hc
  obtain rfl : closed = true := by simpa using htrue
  obtain ⟨t₅, t₆, _, w, rfl, henter, hentering⟩ := Prog.yields_bind.mp hclosed
  have hentered : t₅ = [] ∧ w = { v with session := v.session.entering u.session.context context } := by
    rw [Prog.yields_when] at henter
    unfold HazkeyClientSession.entering
    rcases henter with ⟨hchanged, rfl, -, rfl⟩ | ⟨hsame, rfl, -, rfl⟩
    · have hchanged : u.session.context ≠ context := by
        simpa [evaluateHazkeyClientContextTransition] using hchanged
      rw [if_neg hchanged]
      refine ⟨rfl, ?_⟩
      split <;> rfl
    · have hsame : u.session.context = context := by
        simpa [evaluateHazkeyClientContextTransition] using hsame
      rw [if_pos hsame]
      exact ⟨rfl, rfl⟩
  obtain ⟨rfl, hv⟩ := hentered
  obtain ⟨t₇, t₈, opened, x, rfl, ho, hopened⟩ := Prog.yields_bind.mp hentering
  rw [Prog.yields_ite] at hopened
  rcases hopened with ⟨rfl, rfl, rfl, rfl⟩ | ⟨htrue, hopened⟩
  · simp only [List.nil_append, List.append_nil]
    exact .unopened hc hv ho
  obtain rfl : opened = true := by simpa using htrue
  obtain ⟨t₉, t₁₀, y, z, rfl, ⟨rfl, rfl, rfl⟩, hlast⟩ := Prog.yields_bind.mp hopened
  rw [Prog.yields_ite] at hlast
  rcases hlast with ⟨hdone, rfl, rfl, rfl⟩ | ⟨hrestores, hr⟩
  · simp only [List.nil_append, List.append_nil]
    exact .opened hc hv ho hdone
  · obtain ⟨hV2, hrest⟩ := not_or.mp hrestores
    obtain ⟨hplain, hkeeps⟩ := not_or.mp hrest
    simp only [List.nil_append]
    exact .restoring hc hv ho (by simpa using hV2) (Bool.eq_false_iff.mpr hplain)
      (Bool.eq_false_iff.mpr hkeeps) hr

/-- What a flush of what is deferred consists of after the replay. -/
theorem flushDeferred_cases {tryConnect : Bool} {value : HazkeyFlushResult}
    (h : (flushDeferred tryConnect).Yields s t value s') :
    ∃ t₁ t₂ replayed u, t = t₁ ++ t₂ ∧
      (replayPendingV2 tryConnect (!tryConnect)).Yields s t₁ replayed u ∧
      ((∃ r, replayed.terminalFailure = some r ∧
          (terminalFailureWithEffectHandoff r replayed.confirmedAfterTerminalFailure).Yields
            u t₂ value.response s') ∨
        replayed.terminalFailure = none ∧ replayed.drained = false ∧
          handOffEffects.Yields u t₂ value.response s' ∨
        replayed.terminalFailure = none ∧ replayed.drained = true ∧
          makeFlushResponse.Yields u t₂ value.response s') := by
  obtain ⟨t₁, t₂, replayed, u, rfl, hr, hrest⟩ := Prog.yields_bind.mp h
  refine ⟨t₁, t₂, replayed, u, rfl, hr, ?_⟩
  cases hfailure : replayed.terminalFailure with
  | some r =>
    rw [hfailure] at hrest
    obtain ⟨t₃, t₄, x, v, rfl, ⟨rfl, rfl, rfl⟩, hrest⟩ := Prog.yields_bind.mp hrest
    obtain ⟨t₅, t₆, response, w, rfl, hresponse, rfl, rfl, rfl⟩ := Prog.yields_bind.mp hrest
    simp only [List.nil_append, List.append_nil]
    exact .inl ⟨r, rfl, hresponse⟩
  | none =>
    rw [hfailure] at hrest
    dsimp only at hrest
    rw [Prog.yields_ite] at hrest
    rcases hrest with ⟨hd, hrest⟩ | ⟨hd, hrest⟩
    · obtain ⟨t₃, t₄, response, v, rfl, hresponse, rfl, rfl, rfl⟩ := Prog.yields_bind.mp hrest
      simp only [List.append_nil]
      exact .inr (.inl ⟨trivial, hd, hresponse⟩)
    · obtain ⟨t₃, t₄, response, v, rfl, hresponse, rfl, rfl, rfl⟩ := Prog.yields_bind.mp hrest
      simp only [List.append_nil]
      exact .inr (.inr ⟨trivial, by simpa using hd, hresponse⟩)

/-- A flush of a secure session forgets; else there was nothing to flush, there was no session
to flush it to, or what is deferred was flushed. -/
theorem flushPendingV2_cases {tryConnect : Bool} {value : HazkeyFlushResult}
    (h : (flushPendingV2 tryConnect).Yields s t value s') :
    (s.session.context.secureInput = true ∧ t = [] ∧ value = ⟨true, none⟩ ∧ s' = { s with
      session := (s.session.withJournal s.session.journal.clear).clearEffects }) ∨
    (s.session.context.secureInput = false ∧
      (t = [] ∧ s' = s ∧ value.response = none ∨
        (flushDeferred tryConnect).Yields s t value s')) := by
  obtain ⟨t₁, t₂, x, u, rfl, ⟨rfl, rfl, rfl⟩, hrest⟩ := Prog.yields_bind.mp h
  rw [Prog.yields_ite] at hrest
  rcases hrest with ⟨hsecure, hclear⟩ | ⟨hplain, hrest⟩
  · obtain ⟨t₃, t₄, _, v, rfl, ⟨rfl, -, rfl⟩, rfl, rfl, rfl⟩ := Prog.yields_bind.mp hclear
    exact .inl ⟨hsecure, rfl, rfl, rfl⟩
  refine .inr ⟨Bool.eq_false_iff.mpr hplain, ?_⟩
  rw [Prog.yields_ite] at hrest
  rcases hrest with ⟨-, rfl, rfl, rfl⟩ | ⟨-, hrest⟩
  · exact .inl ⟨rfl, rfl, rfl⟩
  rw [Prog.yields_ite] at hrest
  rcases hrest with ⟨-, rfl, rfl, rfl⟩ | ⟨-, hrest⟩
  · exact .inl ⟨rfl, rfl, rfl⟩
  · exact .inr hrest

end

end Hazkey.SessionClient
