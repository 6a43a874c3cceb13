import Hazkey.ClientFraming

/-! What a run of the exchange of one action can have been: whether a session was open,
how the frame was answered, and how a lost session was replaced. -/

namespace Hazkey.SessionClient

open ServiceProgram

/-- One frame and its answer. -/
structure ClientFrame where
  state : ClientState
  purpose : FramePurpose
  request : RequestEnvelope
  answer : Option ResponseEnvelope

def ClientFrame.action (f : ClientFrame) : Option HandleImeAction :=
  match f.request.payload with
  | .handleImeAction action => some action
  | _ => none

def frameOf : ClientEvent → Option ClientFrame
  | ⟨s, .transport _ purpose request _, answer⟩ => some ⟨s, purpose, request, answer⟩
  | _ => none

def frames (t : List ClientEvent) : List ClientFrame := t.filterMap frameOf

@[simp] theorem frames_nil : frames [] = [] := rfl

@[simp] theorem frames_append (t t' : List ClientEvent) : frames (t ++ t') = frames t ++ frames t' :=
  List.filterMap_append

theorem mem_frames {t : List ClientEvent} {f : ClientFrame} :
    f ∈ frames t ↔ ∃ e ∈ t, frameOf e = some f := List.mem_filterMap

theorem frameOf_state {e : ClientEvent} {f : ClientFrame} (h : frameOf e = some f) :
    f.state = e.state := by
  obtain ⟨s, c, a⟩ := e
  cases c with
  | transport channel purpose request tryConnect =>
    obtain rfl := Option.some.inj h
    rfl
  | othersDraw => cases h
  | recoveryHandler => cases h

/-- The event of an action that was exchanged in a state. -/
@[reducible] def exchanged (channel : Channel) (purpose : FramePurpose) (action : HandleImeAction)
    (tryConnect : Bool) (s : ClientState) (answer : Option ResponseEnvelope) : ClientEvent :=
  ⟨s, .transport channel purpose ⟨s.session.id, .handleImeAction action⟩ tryConnect, answer⟩

@[reducible] def sentFrame (purpose : FramePurpose) (action : HandleImeAction) (s : ClientState)
    (answer : Option ResponseEnvelope) : ClientFrame :=
  ⟨s, purpose, ⟨s.session.id, .handleImeAction action⟩, answer⟩

/-- The first frame remained unanswered, if there are two. -/
theorem exchange_cases {channel : Channel} {purpose : FramePurpose} {action : HandleImeAction}
    {tryConnect resends : Bool} {s s' : ClientState} {t : List ClientEvent}
    {response : Option ResponseEnvelope}
    (h : (exchange channel purpose action tryConnect resends).Yields s t response s') :
    s' = s ∧ (t = [exchanged channel purpose action tryConnect s response] ∨
      t = [exchanged channel purpose action tryConnect s none,
        exchanged channel purpose action tryConnect s response]) := by
  obtain ⟨t₁, t₂, first, u, rfl, hsend, hrest⟩ := Prog.yields_bind.mp h
  obtain ⟨t₃, t₄, v, w, rfl, ⟨rfl, rfl, rfl⟩, hask⟩ := Prog.yields_bind.mp hsend
  obtain ⟨rfl, rfl⟩ := Prog.yields_ask.mp hask
  obtain ⟨t₅, t₆, x, y, rfl, ⟨rfl, rfl, rfl⟩, hagain⟩ := Prog.yields_bind.mp hrest
  rw [Prog.yields_ite] at hagain
  rcases hagain with ⟨⟨rfl, -⟩, hagain⟩ | ⟨-, rfl, rfl, rfl⟩
  · obtain ⟨t₇, t₈, z, b, rfl, ⟨rfl, rfl, rfl⟩, hask⟩ := Prog.yields_bind.mp hagain
    obtain ⟨rfl, rfl⟩ := Prog.yields_ask.mp hask
    exact ⟨rfl, .inr rfl⟩
  · exact ⟨rfl, .inl rfl⟩

/-- The answer belongs to a frame of the exchange, and all its frames are alike. -/
theorem exchange_frames {channel : Channel} {purpose : FramePurpose} {action : HandleImeAction}
    {tryConnect resends : Bool} {s s' : ClientState} {t : List ClientEvent}
    {response : Option ResponseEnvelope}
    (h : (exchange channel purpose action tryConnect resends).Yields s t response s') :
    (∀ e ∈ t, e.state = s) ∧ sentFrame purpose action s response ∈ frames t ∧
      ∀ f ∈ frames t, ∃ answer, f = sentFrame purpose action s answer := by
  obtain ⟨rfl, rfl | rfl⟩ := exchange_cases h
  · refine ⟨by simp, by simp [frames, frameOf], fun f hf => ⟨response, ?_⟩⟩
    simpa [frames, frameOf] using hf
  · refine ⟨by simp, by simp [frames, frameOf], fun f hf => ?_⟩
    have hf : f = sentFrame purpose action s' none ∨ f = sentFrame purpose action s' response := by
      simpa [frames, frameOf] using hf
    rcases hf with rfl | rfl
    · exact ⟨none, rfl⟩
    · exact ⟨response, rfl⟩

@[reducible] def openingFrame (s : ClientState) (answer : Option ResponseEnvelope) : ClientFrame :=
  ⟨s, .opening, ⟨[], .openSession s.session.context currentClientFeatures⟩, answer⟩

theorem openedSession_id {response : Option ResponseEnvelope} {result : OpenSessionResult}
    (h : openedSession response = some result) : result.sessionID ≠ [] := by
  obtain ⟨r, -, h⟩ := Option.bind_eq_some_iff.mp h
  split at h
  · split at h
    · rename_i hopened
      obtain rfl := Option.some.inj h
      exact hopened.2
    · cases h
  · cases h

theorem openSession_cases {tryConnect b : Bool} {s s' : ClientState} {t : List ClientEvent}
    (h : (openSession tryConnect).Yields s t b s') :
    ∃ answer,
      t = [⟨s, .transport .normal .opening
        ⟨[], .openSession s.session.context currentClientFeatures⟩ tryConnect, answer⟩] ∧
      (openedSession answer = none ∧ b = false ∧ s' = s ∨
        ∃ result, openedSession answer = some result ∧ b = true ∧
          s' = { s with session := s.session.opened result }) := by
  obtain ⟨t₁, t₂, x, u, rfl, ⟨rfl, rfl, rfl⟩, hrest⟩ := Prog.yields_bind.mp h
  obtain ⟨t₃, t₄, answer, v, rfl, hask, hopen⟩ := Prog.yields_bind.mp hrest
  obtain ⟨rfl, rfl⟩ := Prog.yields_ask.mp hask
  refine ⟨answer, ?_⟩
  cases hresult : openedSession answer with
  | none =>
    rw [hresult] at hopen
    obtain ⟨rfl, rfl, rfl⟩ := hopen
    exact ⟨rfl, .inl ⟨rfl, rfl, rfl⟩⟩
  | some result =>
    rw [hresult] at hopen
    obtain ⟨t₅, t₆, _, w, rfl, ⟨rfl, -, rfl⟩, rfl, rfl, rfl⟩ := Prog.yields_bind.mp hopen
    exact ⟨rfl, .inr ⟨result, rfl, rfl, rfl⟩⟩

/-- Other sessions may have drawn any number of ids before. -/
theorem drawRequestID_cases {label : String} {s s' : ClientState} {t : List ClientEvent} {id : Text}
    (h : (drawRequestID label).Yields s t id s') :
    ∃ n : Nat, t = [⟨s, .othersDraw, n⟩] ∧
      id = label.toList ++ decimal (s.nextRequestID + n) ∧
      s' = { s with nextRequestID := s.nextRequestID + n + 1 } := by
  obtain ⟨t₁, t₂, n, u, rfl, hask, hrest⟩ := Prog.yields_bind.mp h
  obtain ⟨rfl, rfl⟩ := Prog.yields_ask.mp hask
  obtain ⟨t₃, t₄, v, w, rfl, ⟨rfl, rfl, rfl⟩, hcount⟩ := Prog.yields_bind.mp hrest
  obtain ⟨t₅, t₆, _, x, rfl, ⟨rfl, -, rfl⟩, rfl, rfl, rfl⟩ := Prog.yields_bind.mp hcount
  exact ⟨n, rfl, rfl, rfl⟩

/-- The state in which a number was drawn that comes after n numbers of other sessions. -/
@[reducible] def ClientState.drawing (s : ClientState) (n : Nat) : ClientState :=
  { s with nextRequestID := s.nextRequestID + n + 1 }

/-- The id that is drawn then. -/
@[reducible] def ClientState.drawn (s : ClientState) (label : String) (n : Nat) : Text :=
  label.toList ++ decimal (s.nextRequestID + n)

/-- The event of the frame that closes the session. -/
@[reducible] def closed (tryConnect : Bool) (s : ClientState)
    (answer : Option ResponseEnvelope) : ClientEvent :=
  ⟨s, .transport .lifecycle .closing ⟨[], .closeSession s.session.id⟩ tryConnect, answer⟩

/-- The discard or hand-off of the learning, which a secure session has not, and the close. -/
theorem disposeSession_cases {purpose : FramePurpose} {label : String} {commit : Bool}
    {s s' : ClientState} {t : List ClientEvent}
    (h : (disposeSession purpose label commit).Yields s t () s') :
    (s.session.context.secureInput = false ∧ ∃ n answer answer',
      t = [⟨s, .othersDraw, n⟩,
        exchanged .lifecycle purpose
          ⟨s.drawn label n, s.session.revision, some (.resolvePendingLearning commit)⟩ false
          (s.drawing n) answer,
        closed false (s.drawing n) answer'] ∧ s' = s.drawing n) ∨
    (s.session.context.secureInput = true ∧ ∃ answer, t = [closed false s answer] ∧ s' = s) := by
  obtain ⟨t₁, t₂, x, u, rfl, ⟨rfl, rfl, rfl⟩, hrest⟩ := Prog.yields_bind.mp h
  obtain ⟨t₃, t₄, _, v, rfl, hdiscard, hrest⟩ := Prog.yields_bind.mp hrest
  obtain ⟨t₅, t₆, answer', w, rfl, hclose, rfl, -, rfl⟩ := Prog.yields_bind.mp hrest
  obtain ⟨rfl, rfl⟩ := Prog.yields_ask.mp hclose
  rw [Prog.yields_when] at hdiscard
  rcases hdiscard with ⟨hplain, hdiscard⟩ | ⟨hsecure, rfl, -, rfl⟩
  · obtain ⟨t₇, t₈, id, y, rfl, hdraw, hsend⟩ := Prog.yields_bind.mp hdiscard
    obtain ⟨n, rfl, rfl, rfl⟩ := drawRequestID_cases hdraw
    obtain ⟨t₉, t₁₀, answer, z, rfl, hask, rfl, -, rfl⟩ := Prog.yields_bind.mp hsend
    obtain ⟨rfl, rfl⟩ := Prog.yields_ask.mp hask
    exact .inl ⟨hplain, n, answer, answer', rfl, rfl⟩
  · exact .inr ⟨by simpa using hsecure, answer', rfl, rfl⟩

section

variable [WireCodec]

/-- What a session learns from a response. -/
def HazkeyClientSession.learned (s : HazkeyClientSession) (response : ResponseEnvelope)
    (action : HandleImeAction) : HazkeyClientSession :=
  let normalized := s.normalizeEffectIDs response
  normalized.2.updateSnapshot normalized.1 action

/-- What a session learns from the response to a restore, whose effects it collects. -/
def HazkeyClientSession.takenOver (s : HazkeyClientSession) (response : ResponseEnvelope)
    (action : HandleImeAction) : HazkeyClientSession :=
  let normalized := s.normalizeEffectIDs response
  (normalized.2.collectResponseEffects normalized.1).updateSnapshot normalized.1 action

instance (response : ResponseEnvelope) (action : HandleImeAction) :
    Modest (·.learned response action) where
  keeps s := (Modest.keeps (f := fun s => (s.normalizeEffectIDs response).2) s).trans
    (Modest.keeps (f := (·.updateSnapshot (s.normalizeEffectIDs response).1 action)) _)

instance (response : ResponseEnvelope) (action : HandleImeAction) :
    Modest (·.takenOver response action) where
  keeps s :=
    have hnormalized := Modest.keeps (f := fun s => (s.normalizeEffectIDs response).2) s
    have hcollected := hnormalized.trans
      (Modest.keeps (f := (·.collectResponseEffects (s.normalizeEffectIDs response).1)) _)
    hcollected.trans (Modest.keeps (f := (·.updateSnapshot (s.normalizeEffectIDs response).1 action)) _)

theorem takeOver_cases {response : ResponseEnvelope} {action : HandleImeAction}
    {s s' : ClientState} {t : List ClientEvent} (h : (takeOver response action).Yields s t () s') :
    t = [] ∧ s' = { s with session := s.session.takenOver response action } := by
  obtain ⟨t₁, t₂, x, u, rfl, hn, hrest⟩ := Prog.yields_bind.mp h
  obtain ⟨rfl, rfl, rfl⟩ := hn
  obtain ⟨t₃, t₄, _, v, rfl, ⟨rfl, -, rfl⟩, rfl, -, rfl⟩ := Prog.yields_bind.mp hrest
  exact ⟨rfl, rfl⟩

omit [WireCodec] in
theorem isSome_of_successful {response : Option ResponseEnvelope}
    (h : isSuccessfulImeResponse response = true) : response.isSome = true := by
  cases response with
  | none => cases h
  | some r => rfl

/-- How a restore or a fallback went that was tried in a replacement session. -/
inductive Attempts (purpose : FramePurpose) (label : String) (action : Action)
    (accept : HazkeyClientSession → HazkeyClientSession) (tryConnect : Bool) (s : ClientState) :
    List ClientEvent → RecoveryStep → ClientState → Prop
  | recovered {n : Nat} {t : List ClientEvent} {r : ResponseEnvelope}
      (hx : (exchange .normal purpose ⟨s.drawn label n, 0, some action⟩ tryConnect true).Yields
        (s.drawing n) t (some r) (s.drawing n))
      (hr : isSuccessfulImeResponse (some r) = true) :
      Attempts purpose label action accept tryConnect s (⟨s, .othersDraw, n⟩ :: t) .recovered
        { s.drawing n with
          session := (accept s.session).takenOver r ⟨s.drawn label n, 0, some action⟩ }
  | uncertain {n : Nat} {t : List ClientEvent} {answer : Option ResponseEnvelope}
      (hx : (exchange .normal purpose ⟨s.drawn label n, 0, some action⟩ tryConnect true).Yields
        (s.drawing n) t answer (s.drawing n))
      (hr : isUncertainImeResponse answer = true) :
      Attempts purpose label action accept tryConnect s (⟨s, .othersDraw, n⟩ :: t) .uncertain
        (s.drawing n)
  | rejected {n : Nat} {t : List ClientEvent} {r : ResponseEnvelope}
      (hx : (exchange .normal purpose ⟨s.drawn label n, 0, some action⟩ tryConnect true).Yields
        (s.drawing n) t (some r) (s.drawing n))
      (hs : isSuccessfulImeResponse (some r) = false)
      (hr : isUncertainImeResponse (some r) = false) :
      Attempts purpose label action accept tryConnect s (⟨s, .othersDraw, n⟩ :: t) .rejected
        (s.drawing n)

theorem recoverByCheckpoint_cases {tryConnect : Bool} {step : RecoveryStep} {s s' : ClientState}
    {t : List ClientEvent} (h : (recoverByCheckpoint tryConnect).Yields s t step s') :
    (s.session.recoveryCheckpoint = [] ∧ step = .untried ∧ t = [] ∧ s' = s) ∨
    (s.session.recoveryCheckpoint ≠ [] ∧
      Attempts .restore "fcitx-recover-" (.restoreCheckpoint s.session.recoveryCheckpoint) id
        tryConnect s t step s') := by
  obtain ⟨t₁, t₂, x, u, rfl, ⟨rfl, rfl, rfl⟩, hrest⟩ := Prog.yields_bind.mp h
  rw [Prog.yields_ite] at hrest
  rcases hrest with ⟨hnone, rfl, rfl, rfl⟩ | ⟨hsome, htry⟩
  · exact .inl ⟨hnone, rfl, rfl, rfl⟩
  · refine .inr ⟨hsome, ?_⟩
    obtain ⟨t₃, t₄, id, v, rfl, hdraw, hsend⟩ := Prog.yields_bind.mp htry
    obtain ⟨n, rfl, rfl, rfl⟩ := drawRequestID_cases hdraw
    obtain ⟨t₅, t₆, answer, w, rfl, hx, hanswered⟩ := Prog.yields_bind.mp hsend
    obtain rfl := (exchange_cases hx).1
    cases answer with
    | none =>
      obtain ⟨rfl, rfl, rfl⟩ := hanswered
      simp only [List.append_nil, List.nil_append]
      exact .uncertain hx rfl
    | some r =>
      dsimp only at hanswered
      rw [Prog.yields_ite] at hanswered
      rcases hanswered with ⟨hs, haccept⟩ | ⟨hs, hanswered⟩
      · obtain ⟨t₇, t₈, _, y, rfl, ht, rfl, rfl, rfl⟩ := Prog.yields_bind.mp haccept
        obtain ⟨rfl, rfl⟩ := takeOver_cases ht
        simp only [List.append_nil, List.nil_append]
        exact .recovered hx hs
      · rw [Prog.yields_ite] at hanswered
        rcases hanswered with ⟨hr, rfl, rfl, rfl⟩ | ⟨hr, rfl, rfl, rfl⟩
        · simp only [List.append_nil, List.nil_append]
          exact .uncertain hx hr
        · simp only [List.append_nil, List.nil_append]
          exact .rejected hx (Bool.eq_false_iff.mpr hs) (Bool.eq_false_iff.mpr hr)

theorem recoverByFallback_cases {tryConnect : Bool} {step : RecoveryStep} {s s' : ClientState}
    {t : List ClientEvent} (h : (recoverByFallback tryConnect).Yields s t step s') :
    (¬ (s.session.canUseStoredTextFallback = true ∧ s.session.context.secureInput = false) ∧
      step = .untried ∧ t = [] ∧ s' = s) ∨
    (s.session.canUseStoredTextFallback = true ∧ s.session.context.secureInput = false ∧
      Attempts .fallback "fcitx-fallback-" (.insertText s.session.fallbackComposition)
        (fun s => s.beginFreshEffectNamespace.withSafeFallback) tryConnect s t step s') := by
  obtain ⟨t₁, t₂, x, u, rfl, ⟨rfl, rfl, rfl⟩, hrest⟩ := Prog.yields_bind.mp h
  rw [Prog.yields_ite] at hrest
  rcases hrest with ⟨⟨husable, hplain⟩, htry⟩ | ⟨hunusable, rfl, rfl, rfl⟩
  · refine .inr ⟨husable, hplain, ?_⟩
    obtain ⟨t₃, t₄, id, v, rfl, hdraw, hsend⟩ := Prog.yields_bind.mp htry
    obtain ⟨n, rfl, rfl, rfl⟩ := drawRequestID_cases hdraw
    obtain ⟨t₅, t₆, answer, w, rfl, hx, hanswered⟩ := Prog.yields_bind.mp hsend
    obtain rfl := (exchange_cases hx).1
    cases answer with
    | none =>
      obtain ⟨rfl, rfl, rfl⟩ := hanswered
      simp only [List.append_nil, List.nil_append]
      exact .uncertain hx rfl
    | some r =>
      dsimp only at hanswered
      rw [Prog.yields_ite] at hanswered
      rcases hanswered with ⟨hs, haccept⟩ | ⟨hs, hanswered⟩
      · obtain ⟨t₇, t₈, _, y, rfl, ⟨rfl, -, rfl⟩, htake⟩ := Prog.yields_bind.mp haccept
        obtain ⟨t₉, t₁₀, _, z, rfl, ht, rfl, rfl, rfl⟩ := Prog.yields_bind.mp htake
        obtain ⟨rfl, rfl⟩ := takeOver_cases ht
        simp only [List.append_nil, List.nil_append]
        exact .recovered hx hs
      · rw [Prog.yields_ite] at hanswered
        rcases hanswered with ⟨hr, rfl, rfl, rfl⟩ | ⟨hr, rfl, rfl, rfl⟩
        · simp only [List.append_nil, List.nil_append]
          exact .uncertain hx hr
        · simp only [List.append_nil, List.nil_append]
          exact .rejected hx (Bool.eq_false_iff.mpr hs) (Bool.eq_false_iff.mpr hr)
  · exact .inl ⟨hunusable, rfl, rfl, rfl⟩

theorem finalizeWithoutUITarget_cases {preferredCommit : Bool} {s s' : ClientState}
    {t : List ClientEvent} (h : (finalizeWithoutUITarget preferredCommit).Yields s t () s') :
    ∃ u, s' = { u with session := (u.session.bound [] 0).cleared } ∧
      (s.session.id = [] ∧ t = [] ∧ u = s ∨
        s.session.id ≠ [] ∧ (disposeSession .handOff "fcitx-abandon-"
          (s.session.journaledDecision.getD preferredCommit)).Yields s t () u) := by
  obtain ⟨t₁, t₂, x, u, rfl, ⟨rfl, rfl, rfl⟩, hrest⟩ := Prog.yields_bind.mp h
  obtain ⟨t₃, t₄, _, v, rfl, hdispose, rfl, -, rfl⟩ := Prog.yields_bind.mp hrest
  refine ⟨v, rfl, ?_⟩
  rw [Prog.yields_when] at hdispose
  rcases hdispose with ⟨hid, hdispose⟩ | ⟨hid, rfl, -, rfl⟩
  · refine .inr ⟨hid, ?_⟩
    simpa only [List.nil_append, List.append_nil] using hdispose
  · exact .inl ⟨not_not.mp hid, rfl, rfl⟩

/-- How a lost session's input was brought into the session that replaces it. -/
inductive Recovers (staleSessionID : Text) (staleRevision : UInt64) (tryConnect : Bool)
    (s : ClientState) : List ClientEvent → Bool → ClientState → Prop
  | restored {t : List ClientEvent} {s' : ClientState}
      (hr : (recoverByCheckpoint tryConnect).Yields s t .recovered s') :
      Recovers staleSessionID staleRevision tryConnect s t true s'
  | unsettled {t t' : List ClientEvent} {u s' : ClientState}
      (hr : (recoverByCheckpoint tryConnect).Yields s t .uncertain u)
      (hs : (retainStaleBinding staleSessionID staleRevision).Yields u t' () s') :
      Recovers staleSessionID staleRevision tryConnect s (t ++ t') false s'
  | inserted {t t' : List ClientEvent} {step : RecoveryStep} {u s' : ClientState}
      (hr : (recoverByCheckpoint tryConnect).Yields s t step u)
      (hstep : step = .untried ∨ step = .rejected)
      (hf : (recoverByFallback tryConnect).Yields
        { u with session := u.session.withRevision 0 } t' .recovered s') :
      Recovers staleSessionID staleRevision tryConnect s (t ++ t') true s'
  | unsettledInsertion {t t' t'' : List ClientEvent} {step : RecoveryStep} {u v s' : ClientState}
      (hr : (recoverByCheckpoint tryConnect).Yields s t step u)
      (hstep : step = .untried ∨ step = .rejected)
      (hf : (recoverByFallback tryConnect).Yields
        { u with session := u.session.withRevision 0 } t' .uncertain v)
      (hs : (retainStaleBinding staleSessionID staleRevision).Yields v t'' () s') :
      Recovers staleSessionID staleRevision tryConnect s (t ++ (t' ++ t'')) false s'
  | refused {t t' t'' : List ClientEvent} {step insertion : RecoveryStep} {u v s' : ClientState}
      (hr : (recoverByCheckpoint tryConnect).Yields s t step u)
      (hstep : step = .untried ∨ step = .rejected)
      (hf : (recoverByFallback tryConnect).Yields
        { u with session := u.session.withRevision 0 } t' insertion v)
      (hinsertion : insertion = .untried ∨ insertion = .rejected)
      (hholds : s.session.holdsRecoveryMaterial = true)
      (hrefused : (s.session.fallbackComposition ≠ [] ∧
        s.session.canUseStoredTextFallback = false) ∨ step = .rejected ∨ insertion = .rejected)
      (ha : abandonRejectedRecovery.Yields v t'' () s') :
      Recovers staleSessionID staleRevision tryConnect s (t ++ (t' ++ t'')) false s'
  | withheld {t t' : List ClientEvent} {u s' : ClientState}
      (hr : (recoverByCheckpoint tryConnect).Yields s t .untried u)
      (hf : (recoverByFallback tryConnect).Yields
        { u with session := u.session.withRevision 0 } t' .untried s')
      (hholds : s.session.holdsRecoveryMaterial = true)
      (husable : s.session.fallbackComposition = [] ∨
        s.session.canUseStoredTextFallback = true) :
      Recovers staleSessionID staleRevision tryConnect s (t ++ t') true s'
  | fresh {t t' t'' : List ClientEvent} {step insertion : RecoveryStep} {u v s' : ClientState}
      (hr : (recoverByCheckpoint tryConnect).Yields s t step u)
      (hf : (recoverByFallback tryConnect).Yields
        { u with session := u.session.withRevision 0 } t' insertion v)
      (hholds : s.session.holdsRecoveryMaterial = false)
      (hh : callRecoveryHandler.Yields
        { v with session := v.session.beginFreshEffectNamespace } t'' () s') :
      Recovers staleSessionID staleRevision tryConnect s (t ++ (t' ++ t'')) true s'

variable {s s' : ClientState} {t : List ClientEvent} {tryConnect : Bool}

/-- The part of the recovery after a checkpoint that is not there or was rejected. -/
theorem recovers_of_insertion {staleSessionID : Text} {staleRevision : UInt64} {b : Bool}
    {t' : List ClientEvent} {step : RecoveryStep} {u : ClientState}
    (hr : (recoverByCheckpoint tryConnect).Yields s t step u)
    (hstep : step = .untried ∨ step = .rejected)
    (h : Prog.Yields (do
      update (·.withRevision 0)
      let inserted ← recoverByFallback tryConnect
      match inserted with
      | .recovered => pure true
      | .uncertain => do
        retainStaleBinding staleSessionID staleRevision
        pure false
      | _ =>
        if s.session.holdsRecoveryMaterial = true then
          if (s.session.fallbackComposition ≠ [] ∧ s.session.canUseStoredTextFallback = false) ∨
              step = .rejected ∨ inserted = .rejected then do
            abandonRejectedRecovery
            pure false
          else pure true
        else do
          update (·.beginFreshEffectNamespace)
          callRecoveryHandler
          pure true : ClientM Bool) u t' b s') :
    Recovers staleSessionID staleRevision tryConnect s (t ++ t') b s' := by
  have hlast {inserted : RecoveryStep} {t₁ t₂ : List ClientEvent} {v : ClientState}
      (hinserted : inserted = .untried ∨ inserted = .rejected)
      (hf : (recoverByFallback tryConnect).Yields
        { u with session := u.session.withRevision 0 } t₁ inserted v)
      (hrest : Prog.Yields (if s.session.holdsRecoveryMaterial = true then
          if (s.session.fallbackComposition ≠ [] ∧ s.session.canUseStoredTextFallback = false) ∨
              step = .rejected ∨ inserted = .rejected then do
            abandonRejectedRecovery
            pure false
          else pure true
        else do
          update (·.beginFreshEffectNamespace)
          callRecoveryHandler
          pure true : ClientM Bool) v t₂ b s') :
      Recovers staleSessionID staleRevision tryConnect s (t ++ (t₁ ++ t₂)) b s' := by
    rw [Prog.yields_ite] at hrest
    rcases hrest with ⟨hholds, hrest⟩ | ⟨hholds, hrest⟩
    · rw [Prog.yields_ite] at hrest
      rcases hrest with ⟨hrefused, hrest⟩ | ⟨hrefused, rfl, rfl, rfl⟩
      · obtain ⟨t₃, t₄, _, w, rfl, ha, rfl, rfl, rfl⟩ := Prog.yields_bind.mp hrest
        rw [List.append_nil]
        exact .refused hr hstep hf hinserted hholds hrefused ha
      · rw [List.append_nil]
        have hu : step = .untried := hstep.resolve_right fun h => hrefused (.inr (.inl h))
        have hi : inserted = .untried := hinserted.resolve_right fun h => hrefused (.inr (.inr h))
        subst hu hi
        refine .withheld hr hf hholds ?_
        by_cases hempty : s.session.fallbackComposition = []
        · exact .inl hempty
        · refine .inr (by_contra fun h => hrefused (.inl ⟨hempty, ?_⟩))
          exact Bool.eq_false_iff.mpr h
    · obtain ⟨t₃, t₄, _, w, rfl, ⟨rfl, -, rfl⟩, hrest⟩ := Prog.yields_bind.mp hrest
      obtain ⟨t₅, t₆, _, x, rfl, hh, rfl, rfl, rfl⟩ := Prog.yields_bind.mp hrest
      rw [List.nil_append, List.append_nil]
      exact .fresh hr hf (Bool.eq_false_iff.mpr hholds) hh
  obtain ⟨t₁, t₂, _, w, rfl, ⟨rfl, -, rfl⟩, hrest⟩ := Prog.yields_bind.mp h
  obtain ⟨t₃, t₄, inserted, v, rfl, hf, hrest⟩ := Prog.yields_bind.mp hrest
  rw [List.nil_append]
  cases inserted with
  | untried => exact hlast (.inl rfl) hf hrest
  | rejected => exact hlast (.inr rfl) hf hrest
  | recovered =>
    obtain ⟨rfl, rfl, rfl⟩ := hrest
    rw [List.append_nil]
    exact .inserted hr hstep hf
  | uncertain =>
    obtain ⟨t₅, t₆, _, x, rfl, hs, rfl, rfl, rfl⟩ := Prog.yields_bind.mp hrest
    rw [List.append_nil]
    exact .unsettledInsertion hr hstep hf hs

theorem recoverSession_cases {staleSessionID : Text} {staleRevision : UInt64} {b : Bool}
    (h : (recoverSession staleSessionID staleRevision tryConnect).Yields s t b s') :
    Recovers staleSessionID staleRevision tryConnect s t b s' := by
  obtain ⟨t₁, t₂, x, u, rfl, ⟨rfl, rfl, rfl⟩, hrest⟩ := Prog.yields_bind.mp h
  obtain ⟨t₃, t₄, restored, v, rfl, hr, hrest⟩ := Prog.yields_bind.mp hrest
  rw [List.nil_append]
  cases restored with
  | recovered =>
    obtain ⟨rfl, rfl, rfl⟩ := hrest
    rw [List.append_nil]
    exact .restored hr
  | uncertain =>
    obtain ⟨t₅, t₆, _, x, rfl, hs, rfl, rfl, rfl⟩ := Prog.yields_bind.mp hrest
    rw [List.append_nil]
    exact .unsettled hr hs
  | untried => exact recovers_of_insertion hr (.inl rfl) hrest
  | rejected => exact recovers_of_insertion hr (.inr rfl) hrest

/-- How a session came in place of one the server does not know. -/
inductive Replaces (tryConnect : Bool) (s : ClientState) :
    List ClientEvent → Bool → ClientState → Prop
  | unopened {t : List ClientEvent} {u : ClientState}
      (ho : (openSession tryConnect).Yields
        { s with session := s.session.bound [] s.session.revision } t false u) :
      Replaces tryConnect s t false
        { u with session := u.session.bound s.session.id s.session.revision }
  | unsupported {t t' : List ClientEvent} {u s' : ClientState}
      (ho : (openSession tryConnect).Yields
        { s with session := s.session.bound [] s.session.revision } t true u)
      (hold : u.session.capabilities.supportsV2 = false)
      (hs : (retainStaleBinding s.session.id s.session.revision).Yields u t' () s') :
      Replaces tryConnect s (t ++ t') false s'
  | recovery {t t' : List ClientEvent} {b : Bool} {u s' : ClientState}
      (ho : (openSession tryConnect).Yields
        { s with session := s.session.bound [] s.session.revision } t true u)
      (hV2 : u.session.capabilities.supportsV2 = true)
      (hr : (recoverSession s.session.id s.session.revision tryConnect).Yields u t' b s') :
      Replaces tryConnect s (t ++ t') b s'

theorem replaceLostSession_cases {b : Bool} (h : (replaceLostSession tryConnect).Yields s t b s') :
    Replaces tryConnect s t b s' := by
  obtain ⟨t₁, t₂, x, u, rfl, ⟨rfl, rfl, rfl⟩, hrest⟩ := Prog.yields_bind.mp h
  obtain ⟨t₃, t₄, _, v, rfl, ⟨rfl, -, rfl⟩, hrest⟩ := Prog.yields_bind.mp hrest
  obtain ⟨t₅, t₆, opened, w, rfl, ho, hrest⟩ := Prog.yields_bind.mp hrest
  rw [Prog.yields_ite] at hrest
  rcases hrest with ⟨rfl, hrest⟩ | ⟨hopened, hrest⟩
  · obtain ⟨t₇, t₈, _, y, rfl, ⟨rfl, -, rfl⟩, rfl, rfl, rfl⟩ := Prog.yields_bind.mp hrest
    simp only [List.nil_append, List.append_nil]
    exact .unopened ho
  · obtain rfl : opened = true := by simpa using hopened
    obtain ⟨t₇, t₈, x, y, rfl, ⟨rfl, rfl, rfl⟩, hrest⟩ := Prog.yields_bind.mp hrest
    rw [Prog.yields_ite] at hrest
    rcases hrest with ⟨hold, hrest⟩ | ⟨hV2, hrest⟩
    · obtain ⟨t₉, t₁₀, _, z, rfl, hs, rfl, rfl, rfl⟩ := Prog.yields_bind.mp hrest
      simp only [List.nil_append, List.append_nil]
      exact .unsupported ho hold hs
    · simp only [List.nil_append]
      exact .recovery ho (by simpa using hV2) hrest

/-- How one action was exchanged. -/
inductive Executes (purpose : FramePurpose) (action : HandleImeAction)
    (tryConnect allowSessionRecovery : Bool) (channel : Channel) (s : ClientState) :
    List ClientEvent → Option ResponseEnvelope → HandleImeAction → ClientState → Prop
  | unopened {t : List ClientEvent} {s' : ClientState}
      (ho : (ensureOpen tryConnect).Yields s t false s') :
      Executes purpose action tryConnect allowSessionRecovery channel s t none action s'
  | concluded {t t' : List ClientEvent} {answer response : Option ResponseEnvelope}
      {u s' : ClientState}
      (ho : (ensureOpen tryConnect).Yields s t true u)
      (hx : (exchange channel purpose action tryConnect (channel = .normal)).Yields u t' answer u)
      (hc : (concludeV2 answer action).Yields u [] response s') :
      Executes purpose action tryConnect allowSessionRecovery channel s (t ++ t') response action s'
  | lost {t t' : List ClientEvent} {answer : Option ResponseEnvelope} {u : ClientState}
      (ho : (ensureOpen tryConnect).Yields s t true u)
      (hx : (exchange channel purpose action tryConnect (channel = .normal)).Yields u t' answer u)
      (hlost : (answer.any fun r => r.status = .sessionNotFound) = true)
      (hallow : allowSessionRecovery = false) :
      Executes purpose action tryConnect allowSessionRecovery channel s (t ++ t') none action u
  | unreplaced {t t' t'' : List ClientEvent} {answer : Option ResponseEnvelope} {u s' : ClientState}
      (ho : (ensureOpen tryConnect).Yields s t true u)
      (hx : (exchange channel purpose action tryConnect (channel = .normal)).Yields u t' answer u)
      (hlost : (answer.any fun r => r.status = .sessionNotFound) = true)
      (hallow : allowSessionRecovery = true)
      (hr : (replaceLostSession tryConnect).Yields u t'' false s') :
      Executes purpose action tryConnect allowSessionRecovery channel s (t ++ (t' ++ t'')) none
        action s'
  | replaced {t t' t'' t''' : List ClientEvent} {answer again response : Option ResponseEnvelope}
      {u v s' : ClientState}
      (ho : (ensureOpen tryConnect).Yields s t true u)
      (hx : (exchange channel purpose action tryConnect (channel = .normal)).Yields u t' answer u)
      (hlost : (answer.any fun r => r.status = .sessionNotFound) = true)
      (hallow : allowSessionRecovery = true)
      (hr : (replaceLostSession tryConnect).Yields u t'' true v)
      (hy : (exchange channel purpose (action.rebased v.session.revision) tryConnect true).Yields
        v t''' again v)
      (hc : (concludeV2 again (action.rebased v.session.revision)).Yields v [] response s') :
      Executes purpose action tryConnect allowSessionRecovery channel s
        (t ++ (t' ++ (t'' ++ t'''))) response (action.rebased v.session.revision) s'

/-- The response as far as it is believed: failures bring no effects. -/
def ResponseEnvelope.believed (r : ResponseEnvelope) : ResponseEnvelope :=
  if r.trusted = true then r else r.stripped

theorem concludeV2_cases {answer response : Option ResponseEnvelope} {action : HandleImeAction}
    (h : (concludeV2 answer action).Yields s t response s') :
    t = [] ∧ (response = none ∧ s' = s ∧ (answer.all fun r => r.status = .sessionNotFound) = true ∨
      ∃ r, answer = some r ∧ r.status ≠ .sessionNotFound ∧
        response = some (s.session.normalizeEffectIDs r.believed).1 ∧
        s' = { s with session := s.session.learned r.believed action }) := by
  unfold concludeV2 at h
  cases answer with
  | none =>
    obtain ⟨rfl, rfl, rfl⟩ := h
    exact ⟨rfl, .inl ⟨rfl, rfl, rfl⟩⟩
  | some r =>
    dsimp only at h
    rw [Prog.yields_ite] at h
    rcases h with ⟨hlost, rfl, rfl, rfl⟩ | ⟨hfound, h⟩
    · exact ⟨rfl, .inl ⟨rfl, rfl, by simp [hlost]⟩⟩
    · obtain ⟨t₁, t₂, x, u, rfl, hn, hrest⟩ := Prog.yields_bind.mp h
      obtain ⟨rfl, rfl, rfl⟩ := hn
      obtain ⟨t₃, t₄, _, v, rfl, ⟨rfl, -, rfl⟩, rfl, rfl, rfl⟩ := Prog.yields_bind.mp hrest
      exact ⟨rfl, .inr ⟨r, rfl, hfound, rfl, rfl⟩⟩

theorem concludeV2_id {answer response : Option ResponseEnvelope} {a : HandleImeAction}
    (h : (concludeV2 answer a).Yields s t response s') : s'.session.id = s.session.id := by
  obtain ⟨-, ⟨-, rfl, -⟩ | ⟨r, -, -, -, rfl⟩⟩ := concludeV2_cases h
  · rfl
  · exact (Modest.keeps (f := (·.learned r.believed a)) s.session).id

theorem executeV2_cases {purpose : FramePurpose} {action : HandleImeAction}
    {allowSessionRecovery : Bool} {channel : Channel}
    {value : Option ResponseEnvelope × HandleImeAction}
    (h : (executeV2 purpose action tryConnect allowSessionRecovery channel).Yields s t value s') :
    Executes purpose action tryConnect allowSessionRecovery channel s t value.1 value.2 s' := by
  obtain ⟨t₁, t₂, opened, u, rfl, ho, hrest⟩ := Prog.yields_bind.mp h
  rw [Prog.yields_ite] at hrest
  rcases hrest with ⟨rfl, rfl, rfl, rfl⟩ | ⟨hopened, hrest⟩
  · rw [List.append_nil]
    exact .unopened ho
  · obtain rfl : opened = true := by simpa using hopened
    obtain ⟨t₃, t₄, answer, v, rfl, hx, hanswered⟩ := Prog.yields_bind.mp hrest
    obtain rfl := (exchange_cases hx).1
    rw [Prog.yields_ite] at hanswered
    rcases hanswered with ⟨hlost, hrest⟩ | ⟨-, hrest⟩
    · rw [Prog.yields_ite] at hrest
      rcases hrest with ⟨hallow, rfl, rfl, rfl⟩ | ⟨hallow, hrest⟩
      · rw [List.append_nil]
        exact .lost ho hx hlost hallow
      · have hallow : allowSessionRecovery = true := by simpa using hallow
        obtain ⟨t₅, t₆, continues, w, rfl, hr, hrest⟩ := Prog.yields_bind.mp hrest
        rw [Prog.yields_ite] at hrest
        rcases hrest with ⟨rfl, rfl, rfl, rfl⟩ | ⟨hcontinues, hrest⟩
        · rw [List.append_nil]
          exact .unreplaced ho hx hlost hallow hr
        · obtain rfl : continues = true := by simpa using hcontinues
          obtain ⟨t₇, t₈, x, y, rfl, ⟨rfl, rfl, rfl⟩, hrest⟩ := Prog.yields_bind.mp hrest
          obtain ⟨t₉, t₁₀, again, z, rfl, hy, hconclude⟩ := Prog.yields_bind.mp hrest
          obtain rfl := (exchange_cases hy).1
          obtain ⟨t₁₁, t₁₂, response, z', rfl, hc, rfl, rfl, rfl⟩ := Prog.yields_bind.mp hconclude
          obtain rfl := (concludeV2_cases hc).1
          simp only [List.nil_append, List.append_nil]
          exact .replaced ho hx hlost hallow hr hy hc
    · obtain ⟨t₅, t₆, response, w, rfl, hc, rfl, rfl, rfl⟩ := Prog.yields_bind.mp hrest
      obtain rfl := (concludeV2_cases hc).1
      simp only [List.append_nil]
      exact .concluded ho hx hc

/-- How a restore or a fallback went that was tried after a change of context. -/
inductive AttemptsInContext (purpose : FramePurpose) (label : String) (action : Action)
    (prepare accept retreat : HazkeyClientSession → HazkeyClientSession) (s : ClientState) :
    List ClientEvent → RecoveryStep → ClientState → Prop
  | recovered {n : Nat} {t : List ClientEvent} {r : ResponseEnvelope} {sent : HandleImeAction}
      {u v : ClientState} (hu : u = { s with session := prepare s.session })
      (hx : (executeV2 purpose ⟨u.drawn label n, u.session.revision, some action⟩ true false
        .normal).Yields (u.drawing n) t (some r, sent) v)
      (hr : isSuccessfulImeResponse (some r) = true) :
      AttemptsInContext purpose label action prepare accept retreat s (⟨u, .othersDraw, n⟩ :: t)
        .recovered { v with session := (accept v.session).collectResponseEffects r }
  | uncertain {n : Nat} {t : List ClientEvent} {response : Option ResponseEnvelope}
      {sent : HandleImeAction} {u v : ClientState} (hu : u = { s with session := prepare s.session })
      (hx : (executeV2 purpose ⟨u.drawn label n, u.session.revision, some action⟩ true false
        .normal).Yields (u.drawing n) t (response, sent) v)
      (hr : isUncertainImeResponse response = true) :
      AttemptsInContext purpose label action prepare accept retreat s (⟨u, .othersDraw, n⟩ :: t)
        .uncertain { v with session := retreat v.session }
  | rejected {n : Nat} {t : List ClientEvent} {response : Option ResponseEnvelope}
      {sent : HandleImeAction} {u v : ClientState} (hu : u = { s with session := prepare s.session })
      (hx : (executeV2 purpose ⟨u.drawn label n, u.session.revision, some action⟩ true false
        .normal).Yields (u.drawing n) t (response, sent) v)
      (hs : isSuccessfulImeResponse response = false)
      (hr : isUncertainImeResponse response = false) :
      AttemptsInContext purpose label action prepare accept retreat s (⟨u, .othersDraw, n⟩ :: t)
        .rejected v

theorem restoreInContext_cases {step : RecoveryStep}
    (h : restoreInContext.Yields s t step s') :
    (s.session.recoveryCheckpoint = [] ∧ step = .untried ∧ t = [] ∧ s' = s) ∨
    (s.session.recoveryCheckpoint ≠ [] ∧
      AttemptsInContext .restore "fcitx-context-restore-"
        (.restoreCheckpoint s.session.recoveryCheckpoint) id id id s t step s') := by
  obtain ⟨t₁, t₂, x, u, rfl, ⟨rfl, rfl, rfl⟩, hrest⟩ := Prog.yields_bind.mp h
  rw [Prog.yields_ite] at hrest
  rcases hrest with ⟨hnone, rfl, rfl, rfl⟩ | ⟨hsome, htry⟩
  · exact .inl ⟨hnone, rfl, rfl, rfl⟩
  · refine .inr ⟨hsome, ?_⟩
    obtain ⟨t₃, t₄, id, v, rfl, hdraw, hsend⟩ := Prog.yields_bind.mp htry
    obtain ⟨n, rfl, rfl, rfl⟩ := drawRequestID_cases hdraw
    obtain ⟨t₅, t₆, x, y, rfl, ⟨rfl, rfl, rfl⟩, hexecute⟩ := Prog.yields_bind.mp hsend
    obtain ⟨t₇, t₈, ⟨response, sent⟩, w, rfl, hx, hanswered⟩ := Prog.yields_bind.mp hexecute
    dsimp only at hanswered
    rw [Prog.yields_ite] at hanswered
    rcases hanswered with ⟨hs, haccept⟩ | ⟨hs, hanswered⟩
    · obtain ⟨r, rfl⟩ := Option.isSome_iff_exists.mp (isSome_of_successful hs)
      obtain ⟨t₉, t₁₀, _, z, rfl, ⟨rfl, -, rfl⟩, rfl, rfl, rfl⟩ := Prog.yields_bind.mp haccept
      simp only [List.append_nil, List.nil_append]
      exact .recovered rfl hx hs
    · rw [Prog.yields_ite] at hanswered
      rcases hanswered with ⟨hr, rfl, rfl, rfl⟩ | ⟨hr, rfl, rfl, rfl⟩
      · simp only [List.append_nil, List.nil_append]
        exact .uncertain rfl hx hr
      · simp only [List.append_nil, List.nil_append]
        exact .rejected rfl hx (Bool.eq_false_iff.mpr hs) (Bool.eq_false_iff.mpr hr)

theorem insertInContext_cases {step : RecoveryStep} (h : insertInContext.Yields s t step s') :
    (s.session.canUseStoredTextFallback = false ∧ step = .untried ∧ t = [] ∧ s' = s) ∨
    (s.session.canUseStoredTextFallback = true ∧
      AttemptsInContext .fallback "fcitx-context-fallback-"
        (.insertText s.session.fallbackComposition) (·.beginFreshEffectNamespace)
        (·.withSafeFallback) (·.withNamespace s.session.effectNamespace) s t step s') := by
  obtain ⟨t₁, t₂, x, u, rfl, ⟨rfl, rfl, rfl⟩, hrest⟩ := Prog.yields_bind.mp h
  rw [Prog.yields_ite] at hrest
  rcases hrest with ⟨hunusable, rfl, rfl, rfl⟩ | ⟨husable, htry⟩
  · exact .inl ⟨hunusable, rfl, rfl, rfl⟩
  · refine .inr ⟨by simpa using husable, ?_⟩
    obtain ⟨t₃, t₄, _, v, rfl, ⟨rfl, -, rfl⟩, hprepared⟩ := Prog.yields_bind.mp htry
    obtain ⟨t₅, t₆, id, w, rfl, hdraw, hsend⟩ := Prog.yields_bind.mp hprepared
    obtain ⟨n, rfl, rfl, rfl⟩ := drawRequestID_cases hdraw
    obtain ⟨t₇, t₈, x, y, rfl, ⟨rfl, rfl, rfl⟩, hexecute⟩ := Prog.yields_bind.mp hsend
    obtain ⟨t₉, t₁₀, ⟨response, sent⟩, z, rfl, hx, hanswered⟩ := Prog.yields_bind.mp hexecute
    dsimp only at hanswered
    rw [Prog.yields_ite] at hanswered
    rcases hanswered with ⟨hs, haccept⟩ | ⟨hs, hanswered⟩
    · obtain ⟨r, rfl⟩ := Option.isSome_iff_exists.mp (isSome_of_successful hs)
      obtain ⟨t₁₁, t₁₂, _, y', rfl, ⟨rfl, -, rfl⟩, hcollect⟩ := Prog.yields_bind.mp haccept
      obtain ⟨t₁₃, t₁₄, _, z', rfl, ⟨rfl, -, rfl⟩, rfl, rfl, rfl⟩ := Prog.yields_bind.mp hcollect
      simp only [List.append_nil, List.nil_append]
      exact .recovered rfl hx hs
    · rw [Prog.yields_ite] at hanswered
      rcases hanswered with ⟨hr, hretreat⟩ | ⟨hr, rfl, rfl, rfl⟩
      · obtain ⟨t₁₁, t₁₂, _, y', rfl, ⟨rfl, -, rfl⟩, rfl, rfl, rfl⟩ := Prog.yields_bind.mp hretreat
        simp only [List.append_nil, List.nil_append]
        exact .uncertain rfl hx hr
      · simp only [List.append_nil, List.nil_append]
        exact .rejected rfl hx (Bool.eq_false_iff.mpr hs) (Bool.eq_false_iff.mpr hr)

/-- How the composition came into the session of another context. -/
inductive RestoresContext (s : ClientState) : List ClientEvent → Bool → ClientState → Prop
  | restored {t : List ClientEvent} {s' : ClientState}
      (hr : restoreInContext.Yields s t .recovered s') : RestoresContext s t true s'
  | unsettled {t t' : List ClientEvent} {u s' : ClientState}
      (hr : restoreInContext.Yields s t .uncertain u)
      (hd : discardServerNamespacePreservingRecovery.Yields u t' () s') :
      RestoresContext s (t ++ t') false s'
  | inserted {t t' : List ClientEvent} {step : RecoveryStep} {u s' : ClientState}
      (hr : restoreInContext.Yields s t step u) (hstep : step = .untried ∨ step = .rejected)
      (hi : insertInContext.Yields u t' .recovered s') : RestoresContext s (t ++ t') true s'
  | unsettledInsertion {t t' t'' : List ClientEvent} {step : RecoveryStep} {u v s' : ClientState}
      (hr : restoreInContext.Yields s t step u) (hstep : step = .untried ∨ step = .rejected)
      (hi : insertInContext.Yields u t' .uncertain v)
      (hd : discardServerNamespacePreservingRecovery.Yields v t'' () s') :
      RestoresContext s (t ++ (t' ++ t'')) false s'
  | refused {t t' t'' : List ClientEvent} {step insertion : RecoveryStep} {u v w s' : ClientState}
      (hr : restoreInContext.Yields s t step u) (hstep : step = .untried ∨ step = .rejected)
      (hi : insertInContext.Yields u t' insertion v)
      (hinsertion : insertion = .untried ∨ insertion = .rejected)
      (hholds : s.session.holdsRecoveryMaterial = true)
      (hrefused : (s.session.fallbackComposition ≠ [] ∧
        s.session.canUseStoredTextFallback = false) ∨ step = .rejected ∨ insertion = .rejected)
      (hw : w = v ∨ w = { v with session := v.session.beginFreshEffectNamespace })
      (ha : abandonRejectedRecovery.Yields w t'' () s') :
      RestoresContext s (t ++ (t' ++ t'')) false s'
  | passed {t t' : List ClientEvent} {step insertion : RecoveryStep} {u v : ClientState}
      (hr : restoreInContext.Yields s t step u) (hstep : step = .untried ∨ step = .rejected)
      (hi : insertInContext.Yields u t' insertion v)
      (hinsertion : insertion = .untried ∨ insertion = .rejected)
      (hrefused : ¬ (s.session.holdsRecoveryMaterial = true ∧
        ((s.session.fallbackComposition ≠ [] ∧ s.session.canUseStoredTextFallback = false) ∨
          step = .rejected ∨ insertion = .rejected))) :
      RestoresContext s (t ++ t') (!v.session.holdsRecoveryMaterial)
        { v with session :=
            if v.session.recoveryCheckpoint = [] ∧ insertion = .untried then
              v.session.beginFreshEffectNamespace
            else v.session }

omit [WireCodec] in
theorem settled_step {step : RecoveryStep} (hu : step ≠ .uncertain) (hr : step ≠ .recovered) :
    step = .untried ∨ step = .rejected := by
  cases step with
  | untried => exact .inl rfl
  | rejected => exact .inr rfl
  | recovered => exact absurd rfl hr
  | uncertain => exact absurd rfl hu

theorem restoreContext_cases {b : Bool} (h : restoreContext.Yields s t b s') :
    RestoresContext s t b s' := by
  obtain ⟨t₁, t₂, x, u, rfl, ⟨rfl, rfl, rfl⟩, hrest⟩ := Prog.yields_bind.mp h
  obtain ⟨t₃, t₄, step, v, rfl, hr, hrestored⟩ := Prog.yields_bind.mp hrest
  rw [List.nil_append]
  rw [Prog.yields_ite] at hrestored
  rcases hrestored with ⟨rfl, hdiscard⟩ | ⟨hcertain, hrestored⟩
  · obtain ⟨t₅, t₆, _, w, rfl, hd, rfl, rfl, rfl⟩ := Prog.yields_bind.mp hdiscard
    rw [List.append_nil]
    exact .unsettled hr hd
  rw [Prog.yields_ite] at hrestored
  rcases hrestored with ⟨rfl, rfl, rfl, rfl⟩ | ⟨hunrestored, hinsert⟩
  · rw [List.append_nil]
    exact .restored hr
  have hstep : step = .untried ∨ step = .rejected := settled_step hcertain hunrestored
  obtain ⟨t₅, t₆, insertion, w, rfl, hi, hinserted⟩ := Prog.yields_bind.mp hinsert
  rw [Prog.yields_ite] at hinserted
  rcases hinserted with ⟨rfl, hdiscard⟩ | ⟨hcertain, hinserted⟩
  · obtain ⟨t₇, t₈, _, y, rfl, hd, rfl, rfl, rfl⟩ := Prog.yields_bind.mp hdiscard
    rw [List.append_nil]
    exact .unsettledInsertion hr hstep hi hd
  rw [Prog.yields_ite] at hinserted
  rcases hinserted with ⟨rfl, rfl, rfl, rfl⟩ | ⟨huninserted, hend⟩
  · rw [List.append_nil]
    exact .inserted hr hstep hi
  have hinsertion : insertion = .untried ∨ insertion = .rejected :=
    settled_step hcertain huninserted
  rw [Prog.yields_ite] at hend
  rcases hend with ⟨⟨hholds, hrefused⟩, habandon⟩ | ⟨hrefused, hpass⟩
  · obtain ⟨t₇, t₈, _, y, rfl, hfresh, ha⟩ := Prog.yields_bind.mp habandon
    obtain ⟨t₉, t₁₀, _, z, rfl, ha, rfl, rfl, rfl⟩ := Prog.yields_bind.mp ha
    have hfresh : t₇ = [] ∧ (y = w ∨
        y = { w with session := w.session.beginFreshEffectNamespace }) := by
      rw [Prog.yields_when] at hfresh
      rcases hfresh with ⟨-, rfl, -, rfl⟩ | ⟨-, rfl, -, rfl⟩
      · exact ⟨rfl, .inr rfl⟩
      · exact ⟨rfl, .inl rfl⟩
    obtain ⟨rfl, hw⟩ := hfresh
    rw [List.append_nil, List.nil_append]
    exact .refused hr hstep hi hinsertion hholds hrefused hw ha
  · obtain ⟨t₇, t₈, x, y, rfl, ⟨rfl, rfl, rfl⟩, hfresh⟩ := Prog.yields_bind.mp hpass
    obtain ⟨t₉, t₁₀, _, z, rfl, hfresh, rfl, rfl, rfl⟩ := Prog.yields_bind.mp hfresh
    rw [Prog.yields_when] at hfresh
    have hpassed := RestoresContext.passed hr hstep hi hinsertion hrefused
    rcases hfresh with ⟨hc, rfl, -, rfl⟩ | ⟨hc, rfl, -, rfl⟩
    · rw [if_pos hc] at hpassed
      simpa only [List.append_nil] using hpassed
    · rw [if_neg hc] at hpassed
      simpa only [List.append_nil] using hpassed

omit [WireCodec] in
theorem journaling_cases {f : HazkeyRecoveryJournal → Bool × HazkeyRecoveryJournal} {b : Bool}
    (h : (journaling f).Yields s t b s') :
    t = [] ∧ b = (f s.session.journal).1 ∧
      s' = { s with session := s.session.withJournal (f s.session.journal).2 } := by
  obtain ⟨t₁, t₂, x, u, rfl, ⟨rfl, rfl, rfl⟩, hrest⟩ := Prog.yields_bind.mp h
  obtain ⟨t₃, t₄, _, v, rfl, ⟨rfl, -, rfl⟩, rfl, rfl, rfl⟩ := Prog.yields_bind.mp hrest
  exact ⟨rfl, rfl, rfl⟩

theorem rebindEntry_cases {boundSessionID : Text} {action : HandleImeAction} {b : Bool}
    (h : (rebindEntry boundSessionID action).Yields s t b s') :
    t = [] ∧ (b = true ∧ s' = s ∧ (s.session.id = [] ∨ s.session.id = boundSessionID) ∨
      b = false ∧ s' = s ∧ WireCodec.serializeAction action = none ∨
      s.session.id ≠ [] ∧ s.session.id ≠ boundSessionID ∧
        ∃ d, WireCodec.serializeAction action = some d ∧
        b = (s.session.journal.rebindSent action.requestID d action.expectedRevision
          s.session.id).1 ∧
        s' = { s with session := s.session.withJournal (s.session.journal.rebindSent
          action.requestID d action.expectedRevision s.session.id).2 }) := by
  obtain ⟨t₁, t₂, x, u, rfl, ⟨rfl, rfl, rfl⟩, hrest⟩ := Prog.yields_bind.mp h
  rw [Prog.yields_ite] at hrest
  rcases hrest with ⟨⟨hid, hbound⟩, hbind⟩ | ⟨hsame, rfl, rfl, rfl⟩
  · cases hd : WireCodec.serializeAction action with
    | none =>
      rw [hd] at hbind
      obtain ⟨rfl, rfl, rfl⟩ := hbind
      exact ⟨rfl, .inr (.inl ⟨rfl, rfl, rfl⟩)⟩
    | some d =>
      rw [hd] at hbind
      obtain ⟨rfl, rfl, rfl⟩ := journaling_cases hbind
      exact ⟨rfl, .inr (.inr ⟨hid, hbound, d, rfl, rfl, rfl⟩)⟩
  · refine ⟨rfl, .inl ⟨rfl, rfl, ?_⟩⟩
    by_cases hid : s'.session.id = []
    · exact .inl hid
    · exact .inr (not_not.mp fun h => hsame ⟨hid, h⟩)

theorem replaceEntry_cases {requestID : Text} {action : HandleImeAction} {b : Bool}
    (h : (replaceEntry requestID action).Yields s t b s') :
    t = [] ∧ (b = false ∧ s' = s ∧ WireCodec.serializeAction action = none ∨
      ∃ d, WireCodec.serializeAction action = some d ∧
        ∃ entry : HazkeyJournalEntry,
          entry = ⟨action.requestID, d, action.expectedRevision, s.session.id, false, 0⟩ ∧
          b = (s.session.journal.replace requestID entry).1 ∧
          s' = { s with session :=
            s.session.withJournal (s.session.journal.replace requestID entry).2 }) := by
  unfold replaceEntry at h
  cases hd : WireCodec.serializeAction action with
  | none =>
    rw [hd] at h
    obtain ⟨rfl, rfl, rfl⟩ := h
    exact ⟨rfl, .inl ⟨rfl, rfl, rfl⟩⟩
  | some d =>
    rw [hd] at h
    obtain ⟨t₁, t₂, x, u, rfl, ⟨rfl, rfl, rfl⟩, hrest⟩ := Prog.yields_bind.mp h
    obtain ⟨rfl, rfl, rfl⟩ := journaling_cases hrest
    exact ⟨rfl, .inr ⟨d, rfl, _, rfl, rfl, rfl⟩⟩

/-- How an action that did not succeed was settled. -/
inductive SettlesFailure (response : Option ResponseEnvelope) (action : HandleImeAction)
    (s : ClientState) : List ClientEvent → ClientState → Prop
  | uncertain (hr : isUncertainImeResponse response = true) :
      SettlesFailure response action s [] s
  | learning {n : Nat} {b : Bool} {s' : ClientState}
      (hr : isUncertainImeResponse response = false) (ha : action.learningDecision.isSome = true)
      (hf : (replaceEntry action.requestID ((action.renamed
        (s.drawn "fcitx-learning-retry-" n)).rebased s.session.revision)).Yields
          (s.drawing n) [] b s') :
      SettlesFailure response action s [⟨s, .othersDraw, n⟩] s'
  | rejected (hr : isUncertainImeResponse response = false) (ha : action.learningDecision = none) :
      SettlesFailure response action s [] { s with
        session := s.session.withJournal (s.session.journal.acknowledge action.requestID) }

theorem settleFailure_cases {response : Option ResponseEnvelope} {action : HandleImeAction}
    (h : (settleFailure response action).Yields s t () s') :
    SettlesFailure response action s t s' := by
  unfold settleFailure at h
  rw [Prog.yields_ite] at h
  rcases h with ⟨hr, rfl, -, rfl⟩ | ⟨hr, h⟩
  · exact .uncertain hr
  · have hr := Bool.eq_false_iff.mpr hr
    rw [Prog.yields_ite] at h
    rcases h with ⟨ha, h⟩ | ⟨ha, rfl, -, rfl⟩
    · obtain ⟨t₁, t₂, id, u, rfl, hdraw, hrest⟩ := Prog.yields_bind.mp h
      obtain ⟨n, rfl, rfl, rfl⟩ := drawRequestID_cases hdraw
      obtain ⟨t₃, t₄, x, v, rfl, ⟨rfl, rfl, rfl⟩, hreplace⟩ := Prog.yields_bind.mp hrest
      obtain ⟨t₅, t₆, b, w, rfl, hf, rfl, -, rfl⟩ := Prog.yields_bind.mp hreplace
      obtain rfl := (replaceEntry_cases hf).1
      exact .learning hr ha hf
    · exact .rejected hr (by simpa using ha)

/-- One attempt at a journaled action: its entry could not be marked or followed, was renamed
after a stale answer, was served, or stays as it is settled. -/
inductive ExecutesJournaled (tryConnect collectEffects lifecycle : Bool) (attempts : Nat)
    (action : HandleImeAction) (s : ClientState) :
    List ClientEvent → Option ResponseEnvelope → ClientState → Prop
  | unmarked {s' : ClientState}
      (hm : (journaling (·.markSent action.requestID)).Yields s [] false s') :
      ExecutesJournaled tryConnect collectEffects lifecycle attempts action s [] none s'
  | unbound {t : List ClientEvent} {response : Option ResponseEnvelope} {sent : HandleImeAction}
      {u v s' : ClientState} (hm : (journaling (·.markSent action.requestID)).Yields s [] true u)
      (hx : (executeV2 .journaled action tryConnect (!lifecycle)
        (if lifecycle = true then .lifecycle else .normal)).Yields u t (response, sent) v)
      (hb : (rebindEntry u.session.id sent).Yields v [] false s') :
      ExecutesJournaled tryConnect collectEffects lifecycle attempts action s t none s'
  | stale {t t' : List ClientEvent} {response value : Option ResponseEnvelope}
      {sent : HandleImeAction} {u v w x s' : ClientState} {n : Nat} {replaced : Bool}
      (hm : (journaling (·.markSent action.requestID)).Yields s [] true u)
      (hx : (executeV2 .journaled action tryConnect (!lifecycle)
        (if lifecycle = true then .lifecycle else .normal)).Yields u t (response, sent) v)
      (hb : (rebindEntry u.session.id sent).Yields v [] true w)
      (hr : isStaleImeResponse response = true)
      (hf : (replaceEntry sent.requestID
        ((sent.renamed (w.drawn "fcitx-" n)).rebased w.session.revision)).Yields
          (w.drawing n) [] replaced x)
      (hrest : (replaced = false ∨ attempts = 0) ∧ t' = [] ∧ value = response ∧ s' = x ∨
        replaced = true ∧
          (executeJournaled tryConnect collectEffects lifecycle attempts
            ((sent.renamed (w.drawn "fcitx-" n)).rebased w.session.revision)).Yields x t' value s') :
      ExecutesJournaled tryConnect collectEffects lifecycle attempts action s
        (t ++ (⟨w, .othersDraw, n⟩ :: t')) value s'
  | served {t : List ClientEvent} {r : ResponseEnvelope} {sent : HandleImeAction}
      {u v w : ClientState} (hm : (journaling (·.markSent action.requestID)).Yields s [] true u)
      (hx : (executeV2 .journaled action tryConnect (!lifecycle)
        (if lifecycle = true then .lifecycle else .normal)).Yields u t (some r, sent) v)
      (hb : (rebindEntry u.session.id sent).Yields v [] true w)
      (hr : isSuccessfulImeResponse (some r) = true) :
      ExecutesJournaled tryConnect collectEffects lifecycle attempts action s t (some r)
        { w with session :=
          (if collectEffects = true then w.session.collectResponseEffects r else w.session
            ).withJournal (w.session.journal.acknowledge sent.requestID) }
  | failed {t t' : List ClientEvent} {response : Option ResponseEnvelope} {sent : HandleImeAction}
      {u v w s' : ClientState} (hm : (journaling (·.markSent action.requestID)).Yields s [] true u)
      (hx : (executeV2 .journaled action tryConnect (!lifecycle)
        (if lifecycle = true then .lifecycle else .normal)).Yields u t (response, sent) v)
      (hb : (rebindEntry u.session.id sent).Yields v [] true w)
      (hs : isStaleImeResponse response = false) (hr : isSuccessfulImeResponse response = false)
      (hf : SettlesFailure response sent w t' s') :
      ExecutesJournaled tryConnect collectEffects lifecycle attempts action s (t ++ t') response s'

theorem executeJournaled_cases {collectEffects lifecycle : Bool} {attempts : Nat}
    {action : HandleImeAction} {value : Option ResponseEnvelope}
    (h : (executeJournaled tryConnect collectEffects lifecycle (attempts + 1) action).Yields s t
      value s') :
    ExecutesJournaled tryConnect collectEffects lifecycle attempts action s t value s' := by
  unfold executeJournaled at h
  obtain ⟨t₁, t₂, marked, u, rfl, hm, hmarked⟩ := Prog.yields_bind.mp h
  obtain rfl := (journaling_cases hm).1
  rw [Prog.yields_ite] at hmarked
  rcases hmarked with ⟨rfl, rfl, rfl, rfl⟩ | ⟨htrue, hbody⟩
  · exact .unmarked hm
  obtain rfl : marked = true := by simpa using htrue
  obtain ⟨t₃, t₄, x, y, rfl, ⟨rfl, rfl, rfl⟩, hexecute⟩ := Prog.yields_bind.mp hbody
  obtain ⟨t₅, t₆, ⟨response, sent⟩, v, rfl, hx, hrebind⟩ := Prog.yields_bind.mp hexecute
  obtain ⟨t₇, t₈, rebound, w, rfl, hb, hbound⟩ := Prog.yields_bind.mp hrebind
  obtain rfl := (rebindEntry_cases hb).1
  simp only [List.nil_append]
  rw [Prog.yields_ite] at hbound
  rcases hbound with ⟨rfl, rfl, rfl, rfl⟩ | ⟨htrue, hanswered⟩
  · rw [List.append_nil]
    exact .unbound hm hx hb
  obtain rfl : rebound = true := by simpa using htrue
  rw [Prog.yields_ite] at hanswered
  rcases hanswered with ⟨hstale, hrenew⟩ | ⟨hstale, hanswered⟩
  · obtain ⟨t₉, t₁₀, id, z, rfl, hdraw, hfresh⟩ := Prog.yields_bind.mp hrenew
    obtain ⟨n, rfl, rfl, rfl⟩ := drawRequestID_cases hdraw
    obtain ⟨t₁₁, t₁₂, y, z, rfl, ⟨rfl, rfl, rfl⟩, hreplace⟩ := Prog.yields_bind.mp hfresh
    obtain ⟨t₁₃, t₁₄, replaced, x, rfl, hf, hagain⟩ := Prog.yields_bind.mp hreplace
    obtain rfl := (replaceEntry_cases hf).1
    simp only [List.nil_append]
    refine .stale hm hx hb hstale hf ?_
    rw [Prog.yields_ite] at hagain
    rcases hagain with ⟨hlast, rfl, rfl, rfl⟩ | ⟨hmore, hagain⟩
    · exact .inl ⟨hlast, rfl, rfl, rfl⟩
    · exact .inr ⟨by simpa using fun h => hmore (.inl h), hagain⟩
  rw [Prog.yields_ite] at hanswered
  rcases hanswered with ⟨hr, hserved⟩ | ⟨hr, hfailed⟩
  · obtain ⟨r, rfl⟩ := Option.isSome_iff_exists.mp (isSome_of_successful hr)
    obtain ⟨t₉, t₁₀, _, z, rfl, hcollect, hserved⟩ := Prog.yields_bind.mp hserved
    obtain ⟨t₁₁, t₁₂, _, y, rfl, ⟨rfl, -, rfl⟩, rfl, rfl, rfl⟩ := Prog.yields_bind.mp hserved
    have hlast : ExecutesJournaled tryConnect collectEffects lifecycle attempts action s t₅
        (some r) _ := .served hm hx hb hr
    rw [Prog.yields_when] at hcollect
    rcases hcollect with ⟨hc, rfl, -, rfl⟩ | ⟨hc, rfl, -, rfl⟩
    · rw [if_pos hc] at hlast
      simp only [List.append_nil]
      exact hlast
    · rw [if_neg hc] at hlast
      simp only [List.append_nil]
      exact hlast
  · obtain ⟨t₉, t₁₀, _, z, rfl, hsettle, rfl, rfl, rfl⟩ := Prog.yields_bind.mp hfailed
    rw [List.append_nil]
    exact .failed hm hx hb (Bool.eq_false_iff.mpr hstale) (Bool.eq_false_iff.mpr hr)
      (settleFailure_cases hsettle)

end

end Hazkey.SessionClient
