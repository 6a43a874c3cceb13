import Hazkey.ClientSecrecy
import Hazkey.JournalContents

/-! Whether a journaled reconversion is left open: what its last frame was answered. -/

namespace Hazkey.SessionClient

open ServiceProgram

def Action.reconverts : Action → Bool
  | .reconvert .. => true
  | _ => false

/-- A response after which the action may or may not have been done, or was not done yet. -/
def isInconclusive (response : Option ResponseEnvelope) : Bool :=
  isUncertainImeResponse response || isStaleImeResponse response

section

variable [WireCodec]

/-- A reconversion that was recorded since there were so many entries. -/
def HazkeyJournalEntry.reconversionSince (n : Nat) (x : HazkeyJournalEntry) : Bool :=
  n ≤ x.serial && x.payload.any (·.reconverts)

/-- What a frame says of such a reconversion at the head of the journal: whether it is left
open. The frame that gives a session up says that it is not. -/
def ClientFrame.leavesOpen (n : Nat) (f : ClientFrame) : Option Bool :=
  if f.purpose = .handOff then some false
  else if (f.state.queue.head?.any (·.reconversionSince n)) = true then
    match f.purpose with
    | .journaled => some (isInconclusive f.answer)
    | .opening => if (openedSession f.answer).isSome = true then none else some true
    | _ => none
  else none

/-- What the last frame says that says anything. -/
def leftOpen (n : Nat) (t : List ClientEvent) : Option Bool :=
  ((frames t).filterMap (·.leavesOpen n)).getLast?

variable {n : Nat} {s s' u v w : ClientState} {t t' : List ClientEvent} {x y : HazkeyJournalEntry}
  {l : List HazkeyJournalEntry} {a sent : HandleImeAction} {tryConnect : Bool}
  {response : Option ResponseEnvelope}

@[simp] theorem leftOpen_nil : leftOpen n [] = none := rfl

theorem leftOpen_append (t t' : List ClientEvent) :
    leftOpen n (t ++ t') = (leftOpen n t').or (leftOpen n t) := by
  simp [leftOpen, List.filterMap_append, List.getLast?_append]

/-- The later frames decide. -/
theorem leftOpen_append_some {b : Bool} (h : leftOpen n t' = some b) :
    leftOpen n (t ++ t') = some b := by
  rw [leftOpen_append, h]
  rfl

theorem leftOpen_append_none (h : leftOpen n t' = none) : leftOpen n (t ++ t') = leftOpen n t := by
  rw [leftOpen_append, h]
  rfl

theorem leftOpen_append_ne (h : leftOpen n t ≠ some true) (h' : leftOpen n t' ≠ some true) :
    leftOpen n (t ++ t') ≠ some true := by
  cases hlast : leftOpen n t' with
  | none =>
    rw [leftOpen_append_none hlast]
    exact h
  | some b =>
    rw [leftOpen_append_some hlast, ← hlast]
    exact h'

theorem reconversionSince_of_identity (h : y.identity = x.identity) :
    y.reconversionSince n = x.reconversionSince n := by
  obtain ⟨hserial, hpayload⟩ := Prod.mk.inj h
  simp only [HazkeyJournalEntry.reconversionSince, hserial, hpayload]

/-- Without such a reconversion in the journal nothing is left open. -/
theorem leftOpen_ne_of_states (h : ∀ e ∈ t, ∀ x ∈ e.state.queue, x.reconversionSince n = false) :
    leftOpen n t ≠ some true := by
  intro hlast
  obtain ⟨f, hf, hopens⟩ := List.mem_filterMap.mp (List.mem_of_getLast? hlast)
  obtain ⟨e, he, hframe⟩ := List.mem_filterMap.mp hf
  unfold ClientFrame.leavesOpen at hopens
  split at hopens
  · cases hopens
  split at hopens
  · rename_i hhead
    obtain ⟨x, hx, hsince⟩ := (Option.any_eq_true ..).mp hhead
    have hmem : x ∈ e.state.queue := frameOf_state hframe ▸ List.mem_of_mem_head? hx
    rw [h e he x hmem] at hsince
    cases hsince
  · cases hopens

/-- A quiet run gives no session up. -/
theorem Quiet.leftOpen (h : Quiet s t s') : leftOpen n t = none ∨ leftOpen n t = some true := by
  cases hlast : SessionClient.leftOpen n t with
  | none => exact .inl rfl
  | some b =>
    right
    obtain ⟨f, hf, hopens⟩ := List.mem_filterMap.mp (List.mem_of_getLast? hlast)
    have hfits := (h.auxiliary f hf).fits
    unfold ClientFrame.leavesOpen at hopens
    split at hopens
    · rename_i hp
      rw [hp] at hfits
      exact hfits.elim
    split at hopens
    · split at hopens
      · rename_i hp
        rw [hp] at hfits
        exact hfits.elim
      · split at hopens
        · cases hopens
        · exact hopens.symm
      · cases hopens
    · cases hopens

/-- The answer to a journaled frame decides. -/
theorem exchange_leftOpen {channel : Channel} {resends : Bool}
    (hx : (s.queue.head?.any (·.reconversionSince n)) = true)
    (h : (exchange channel .journaled a tryConnect resends).Yields s t response s') :
    leftOpen n t = some (isInconclusive response) := by
  have hopens (answer : Option ResponseEnvelope) :
      (sentFrame .journaled a s answer).leavesOpen n = some (isInconclusive answer) := by
    simp [ClientFrame.leavesOpen, hx]
  obtain ⟨rfl, rfl | rfl⟩ := exchange_cases h
  · simp [leftOpen, frames, frameOf, hopens]
  · simp [leftOpen, frames, frameOf, hopens]

/-- A session that is given up is closed with a frame of its own. -/
theorem abandonRejectedRecovery_leftOpen (hid : s.session.id ≠ [])
    (hplain : s.session.context.secureInput = false)
    (h : abandonRejectedRecovery.Yields s t () s') : leftOpen n t = some false := by
  obtain ⟨t₁, t₂, _, u, rfl, hfinal, hcall⟩ := Prog.yields_bind.mp h
  have hnotify : frames t₂ = [] := by
    obtain ⟨t₃, t₄, x, v, rfl, ⟨rfl, rfl, rfl⟩, hwhen⟩ := Prog.yields_bind.mp hcall
    rw [Prog.yields_when] at hwhen
    rcases hwhen with ⟨-, hask⟩ | ⟨-, rfl, -⟩
    · obtain ⟨rfl, -⟩ := Prog.yields_ask.mp hask
      rfl
    · rfl
  obtain ⟨v, rfl, ⟨hnone, -⟩ | ⟨-, hdispose⟩⟩ := finalizeWithoutUITarget_cases hfinal
  · exact absurd hnone hid
  rcases disposeSession_cases hdispose with ⟨-, k, answer, answer', rfl, rfl⟩ | ⟨hsecure, -⟩
  · have hhanded (b : HandleImeAction) :
        (sentFrame .handOff b (s.drawing k) answer).leavesOpen n = some false := by
      simp [ClientFrame.leavesOpen]
    have hclosed (request : RequestEnvelope) :
        ClientFrame.leavesOpen n ⟨s.drawing k, .closing, request, answer'⟩ = none := by
      simp [ClientFrame.leavesOpen]
    rw [leftOpen, frames_append, hnotify, List.append_nil]
    show List.getLast? (List.filterMap _
      [sentFrame .handOff _ (s.drawing k) answer, ⟨s.drawing k, .closing, _, answer'⟩]) = _
    rw [List.filterMap_cons_some (hhanded _), List.filterMap_cons_none (hclosed _)]
    rfl
  · rw [hplain] at hsecure
    cases hsecure

/-- What was tried and did not recover leaves the binding and the context alone. -/
theorem Attempts.session {purpose : FramePurpose} {label : String} {action : Action}
    {accept : HazkeyClientSession → HazkeyClientSession} {step : RecoveryStep}
    (h : Attempts purpose label action accept tryConnect s t step s') (hstep : step ≠ .recovered) :
    s'.session = s.session := by
  cases h with
  | recovered hx hr => exact absurd rfl hstep
  | uncertain hx hr => rfl
  | rejected hx hs hr => rfl

/-- A recovery leaves the journal alone, or gives the session up. -/
theorem recoverSession_leftOpen {staleSessionID : Text} {staleRevision : UInt64} {b : Bool}
    (hid : s.session.id ≠ []) (hplain : s.session.context.secureInput = false)
    (h : (recoverSession staleSessionID staleRevision tryConnect).Yields s t b s') :
    Quiet s t s' ∨ b = false ∧ s'.queue = [] ∧ leftOpen n t = some false := by
  rcases recoverSession_quiet h with hquiet | ⟨rfl, hcleared, -⟩
  · exact .inl hquiet
  have hreset (u : ClientState) : Quiet u [] { u with session := u.session.withRevision 0 } :=
    Steady.change (·.withRevision 0) u
  cases recoverSession_cases h with
  | unsettled hr hs =>
    exact .inl ((Prog.Frames.frame (R := Quiet) _ _ _ _ hr).then (Prog.Frames.frame _ _ _ _ hs))
  | unsettledInsertion hr hstep hf hs =>
    refine .inl ((Prog.Frames.frame (R := Quiet) _ _ _ _ hr).then ?_)
    refine ((hreset _).then (Prog.Frames.frame _ _ _ _ hf)).then ?_
    exact Prog.Frames.frame _ _ _ _ hs
  | @refused t₁ t₂ t₃ step insertion u v _ hr hstep hf hinsertion hholds hrefused ha =>
    have hu : u.session = s.session := by
      rcases recoverByCheckpoint_cases hr with ⟨-, -, -, rfl⟩ | ⟨-, hattempts⟩
      · rfl
      · exact hattempts.session (by rcases hstep with rfl | rfl <;> simp)
    have hv : v.session = u.session.withRevision 0 := by
      rcases recoverByFallback_cases hf with ⟨-, -, -, rfl⟩ | ⟨-, -, hattempts⟩
      · rfl
      · exact hattempts.session (by rcases hinsertion with rfl | rfl <;> simp)
    rw [hu] at hv
    have hgiven : leftOpen n t₃ = some false :=
      abandonRejectedRecovery_leftOpen (by rw [hv]; exact hid) (by rw [hv]; exact hplain) ha
    exact .inr ⟨rfl, hcleared, leftOpen_append_some (leftOpen_append_some hgiven)⟩

theorem replaceLostSession_leftOpen {b : Bool} (hplain : s.session.context.secureInput = false)
    (h : (replaceLostSession tryConnect).Yields s t b s') :
    Quiet s t s' ∨ b = false ∧ s'.queue = [] ∧ leftOpen n t = some false := by
  rcases replaceLostSession_quiet h with hquiet | ⟨rfl, hcleared, -⟩
  · exact .inl hquiet
  have hunbind (k : UInt64) : Quiet s [] { s with session := s.session.bound [] k } :=
    Steady.unbind k s
  cases replaceLostSession_cases h with
  | @unopened _ u ho =>
    have hopened := (hunbind _).then (Prog.Frames.frame _ _ _ _ ho)
    have hbind := hopened.then (Rebinds.bind s.session.id s.session.revision u)
    rw [List.append_nil] at hbind
    exact .inl hbind
  | unsupported ho hold hs =>
    refine .inl (((hunbind _).then (Prog.Frames.frame _ _ _ _ ho)).then ?_)
    exact Prog.Frames.frame _ _ _ _ hs
  | @recovery t₁ t₂ _ u _ ho hV2 hr =>
    have hopened : Quiet s ([] ++ t₁) u := (hunbind _).then (Prog.Frames.frame _ _ _ _ ho)
    obtain ⟨answer, rfl, ⟨-, hno, -⟩ | ⟨result, hresult, -, rfl⟩⟩ := openSession_cases ho
    · cases hno
    rcases recoverSession_leftOpen (by exact openedSession_id hresult) (by exact hplain) hr with
      hquiet | ⟨-, -, hgiven⟩
    · exact .inl (hopened.then hquiet)
    · exact .inr ⟨rfl, hcleared, leftOpen_append_some hgiven⟩

/-- What became of a journaled reconversion: the journal was given up, or is as it was and
the last answer is that of the response. -/
def Decided (n : Nat) (s : ClientState) (t : List ClientEvent)
    (response : Option ResponseEnvelope) (s' : ClientState) : Prop :=
  s'.queue = [] ∧ leftOpen n t = some false ∨
    Requeued s.session.journal s'.session.journal s.queue ∧
      leftOpen n t = some (isInconclusive response)

omit [WireCodec] in
theorem SameClass.inconclusive {r r' : Option ResponseEnvelope} (h : SameClass r r') :
    isInconclusive r = isInconclusive r' := by
  simp only [isInconclusive, h.uncertain, h.stale]

omit [WireCodec] in
theorem inconclusive_of_lost {answer : Option ResponseEnvelope}
    (h : (answer.all fun r => r.status = .sessionNotFound) = true) :
    isInconclusive answer = true := by
  cases answer with
  | none => rfl
  | some r =>
    have hlost : r.status = .sessionNotFound := by simpa using h
    simp [isInconclusive, isUncertainImeResponse, hlost]

theorem concludeV2_inconclusive {answer : Option ResponseEnvelope}
    (h : (concludeV2 answer a).Yields s t response s') :
    isInconclusive answer = isInconclusive response := by
  cases response with
  | some r => exact (concludeV2_class h).inconclusive
  | none =>
    obtain ⟨-, ⟨-, -, hlost⟩ | ⟨r, -, -, hnone, -⟩⟩ := concludeV2_cases h
    · rw [inconclusive_of_lost hlost]
      rfl
    · cases hnone

theorem executeV2_leftOpen (hx : (s.queue.head?.any (·.reconversionSince n)) = true)
    (hplain : s.session.context.secureInput = false)
    (h : (executeV2 .journaled a tryConnect true .normal).Yields s t (response, sent) s') :
    Decided n s t response s' := by
  have hopen {u : ClientState} {t : List ClientEvent} {b : Bool}
      (ho : (ensureOpen tryConnect).Yields s t b u) : Quiet s t u :=
    Prog.Frames.frame _ _ _ _ ho
  have hhead {u : ClientState} (hu : u.queue = s.queue) :
      (u.queue.head?.any (·.reconversionSince n)) = true := hu ▸ hx
  cases executeV2_cases h with
  | unopened ho =>
    have hquiet := hopen ho
    refine .inr ⟨hquiet.journal, ?_⟩
    rcases ensureOpen_cases ho with ⟨-, ho⟩ | ⟨-, -, hno, -⟩
    case inr => cases hno
    obtain ⟨answer, rfl, ⟨hnone, -⟩ | ⟨result, -, hno, -⟩⟩ := openSession_cases ho
    · simp [leftOpen, frames, frameOf, ClientFrame.leavesOpen, hx, hnone, isInconclusive,
        isUncertainImeResponse]
    · cases hno
  | @concluded t₁ t₂ answer _ u _ ho hexchange hc =>
    have hquiet := (hopen ho).then (Prog.Frames.frame (R := Quiet) _ _ _ _ hc)
    refine .inr ⟨hquiet.journal, leftOpen_append_some ?_⟩
    rw [exchange_leftOpen (hhead (hopen ho).journal.pending) hexchange, concludeV2_inconclusive hc]
  | lost ho hexchange hlost hallow => cases hallow
  | @unreplaced t₁ t₂ t₃ answer u _ ho hexchange hlost hallow hr =>
    have hu := (hopen ho).journal.pending
    have hplain' : u.session.context.secureInput = false := by
      have hcontext : SameContext s t₁ u := Prog.Frames.frame _ _ _ _ ho
      rw [hcontext]
      exact hplain
    have hanswer : leftOpen n t₂ = some true := by
      rw [exchange_leftOpen (hhead hu) hexchange]
      obtain ⟨r, rfl, hr⟩ := (Option.any_eq_true ..).mp hlost
      simp only [decide_eq_true_eq] at hr
      simp [isInconclusive, isUncertainImeResponse, hr]
    rcases replaceLostSession_leftOpen hplain' hr with hquiet | ⟨-, hcleared, hgiven⟩
    · refine .inr ⟨((hopen ho).then hquiet).journal, leftOpen_append_some ?_⟩
      rcases hquiet.leftOpen with hnone | hopened
      · rw [leftOpen_append_none hnone, hanswer]
        rfl
      · rw [leftOpen_append_some hopened]
        rfl
    · exact .inl ⟨hcleared, leftOpen_append_some (leftOpen_append_some hgiven)⟩
  | @replaced t₁ t₂ t₃ t₄ answer again _ u v _ ho hexchange hlost hallow hr hy hc =>
    have hquiet : Quiet u t₃ v := (replaceLostSession_quiet hr).resolve_right fun h => by cases h.1
    have hv := (hopen ho).then hquiet
    have hlast := hv.then (Prog.Frames.frame (R := Quiet) _ _ _ _ hc)
    refine .inr ⟨hlast.journal, ?_⟩
    refine leftOpen_append_some (leftOpen_append_some (leftOpen_append_some ?_))
    rw [exchange_leftOpen (hhead hv.journal.pending) hy, concludeV2_inconclusive hc]

omit [WireCodec] in
theorem conclusive_of_successful (h : isSuccessfulImeResponse response = true) :
    isInconclusive response = false := by
  cases response with
  | none => cases h
  | some r =>
    simp only [isSuccessfulImeResponse, Option.any_some, Bool.and_eq_true, decide_eq_true_eq] at h
    obtain ⟨hstatus, hresult⟩ := h
    cases hr : r.result with
    | none =>
      rw [hr] at hresult
      cases hresult
    | some x =>
      rw [hr] at hresult
      simp only [Option.any_some, Bool.and_eq_true, decide_eq_true_eq] at hresult
      simp [isInconclusive, isUncertainImeResponse, isStaleImeResponse, hstatus, hr, hresult.1,
        hresult.2]

/-- Whether an action can be encoded does not depend on the revision it is for. -/
def EncodesRevisions : Prop :=
  ∀ (a : HandleImeAction) (revision : UInt64), (WireCodec.serializeAction a).isSome = true →
    (WireCodec.serializeAction (a.rebased revision)).isSome = true

theorem Resent.encoded {b : HandleImeAction} (hcodec : EncodesRevisions) (h : Resent a b)
    (ha : (WireCodec.serializeAction a).isSome = true) :
    (WireCodec.serializeAction b).isSome = true := by
  obtain rfl | ⟨k, rfl⟩ := h
  · exact ha
  · exact hcodec a k ha

theorem rebindEntry_encoded {boundSessionID : Text} {b : Bool} (hp : s.queue = x :: l)
    (hsent : x.sent = true) (hid : a.requestID = x.requestID)
    (ha : (WireCodec.serializeAction a).isSome = true)
    (h : (rebindEntry boundSessionID a).Yields s t b s') : b = true := by
  obtain ⟨-, ⟨rfl, -⟩ | ⟨-, -, hnone⟩ | ⟨-, -, d, -, rfl, -⟩⟩ := rebindEntry_cases h
  · rfl
  · rw [hnone] at ha
    cases ha
  · rw [hid, rebindSent_head hp hsent]

/-- One attempt at a reconversion that is alone in the journal: the journal was given up, or
the entry is rewritten and the last answer is that of the response. -/
theorem attempt_leftOpen {b : Bool} (hp : s.queue = [x]) (hx : x.Carries a)
    (hsince : x.reconversionSince n = true) (hplain : s.session.context.secureInput = false)
    (hm : (journaling (·.markSent a.requestID)).Yields s [] true u)
    (hexecute : (executeV2 .journaled a tryConnect true .normal).Yields u t (response, sent) v)
    (hb : (rebindEntry u.session.id sent).Yields v [] b w) :
    Carried s t w ∧ Resent a sent ∧ SameContext s t w ∧
      (response = none ∧ w.queue = [] ∧ leftOpen n t = some false ∨
        leftOpen n t = some (isInconclusive response) ∧
          ((WireCodec.serializeAction sent).isSome = true → b = true) ∧
          ∃ y, w.queue = [y] ∧ y.requestID = x.requestID ∧ y.identity = x.identity) := by
  obtain ⟨-, -, hu, -, -⟩ := markSent_journal hp hx hm
  obtain ⟨hcarried, hresent, hended⟩ := attempt_journal hp hx hm hexecute hb
  have hmarked : SameContext s [] u := Prog.Frames.frame _ _ _ _ hm
  have hcontext : SameContext s t w := by
    have hexecuted : SameContext u t v := Prog.Frames.frame _ _ _ _ hexecute
    have hrebound : SameContext v [] w := Prog.Frames.frame _ _ _ _ hb
    exact hrebound.trans (hexecuted.trans hmarked)
  refine ⟨hcarried, hresent, hcontext, ?_⟩
  have hplain' : u.session.context.secureInput = false := by
    rw [hmarked]
    exact hplain
  have hhead : (u.queue.head?.any (·.reconversionSince n)) = true := by
    rw [hu]
    exact hsince
  rcases executeV2_leftOpen hhead hplain' hexecute with ⟨hcleared, hgiven⟩ | ⟨hsame, hlast⟩
  · have hempty := (rebindEntry_empty hcleared hb).2
    rcases hended with ⟨y, hy, -⟩ | ⟨hnone, -⟩
    · rw [hempty] at hy
      cases hy
    · exact .inl ⟨hnone, hempty, hgiven⟩
  · have hv : v.queue = [x.marked] := hsame.pending.trans hu
    have hid : sent.requestID = x.marked.requestID := hresent.requestID.trans hx.2.1
    refine .inr ⟨hlast, fun hencoded => rebindEntry_encoded hv rfl hid hencoded hb, ?_⟩
    obtain ⟨-, y, hy, hyid, hidentity, -⟩ := rebindEntry_head hv rfl hid
      (hresent.action.trans (show x.marked.Carries a from hx).payload.symm) hb
    exact ⟨y, hy, hyid, hidentity⟩

/-- A journaled reconversion leaves the journal, or is left open by its last answer. -/
theorem executeJournaled_leftOpen (hcodec : EncodesRevisions) {attempts : Nat}
    (hw : WellKept s.session.journal) (hp : s.queue = [x]) (hx : x.Carries a)
    (hreconverts : a.learningDecision = none) (hsince : x.reconversionSince n = true)
    (hplain : s.session.context.secureInput = false)
    (ha : (WireCodec.serializeAction a).isSome = true)
    (h : (executeJournaled tryConnect false false attempts a).Yields s t response s') :
    s'.queue = [] ∧ leftOpen n t = some false ∨
      (∃ y, s'.queue = [y] ∧ y.identity = x.identity) ∧ isInconclusive response = true ∧
        (leftOpen n t = some true ∨ attempts = 0 ∧ t = []) := by
  induction attempts generalizing a s t x with
  | zero =>
    obtain ⟨rfl, rfl, rfl⟩ := h
    exact .inr ⟨⟨x, hp, rfl⟩, rfl, .inr ⟨rfl, rfl⟩⟩
  | succ attempts ih =>
    cases executeJournaled_cases h with
    | unmarked hm =>
      obtain ⟨-, hb, -⟩ := markSent_journal hp hx hm
      cases hb
    | unbound hm hexecute hb =>
      obtain ⟨-, hresent, -, ⟨-, hempty, hgiven⟩ | ⟨-, hbound, -⟩⟩ :=
        attempt_leftOpen hp hx hsince hplain hm hexecute hb
      · exact .inl ⟨hempty, hgiven⟩
      · cases hbound (hresent.encoded hcodec ha)
    | @stale t₁ t₂ answer _ sent _ _ w z _ k replaced hm hexecute hb hr hf hrest =>
      obtain ⟨hcarried, hresent, hcontext, ⟨rfl, -⟩ | ⟨hlast, -, y, hy, hid, hyid⟩⟩ :=
        attempt_leftOpen hp hx hsince hplain hm hexecute hb
      · cases hr
      have hid' : sent.requestID = y.requestID :=
        (hresent.requestID.trans hx.2.1).trans hid.symm
      have haction : ((sent.renamed (w.drawn "fcitx-" k)).rebased w.session.revision).action =
          y.payload := (hresent.action.trans hx.payload.symm).trans (congrArg Prod.snd hyid).symm
      have hdrawn := hcarried.then (quiet_drawing w k).carried
      rw [hid'] at hf
      obtain ⟨-, y', hy', hyid', hreplaced, hcarries⟩ :=
        replaceEntry_head (s := w.drawing k) hy haction hf
      have hidentity := hyid'.trans hyid
      have hstale : isInconclusive answer = true := by simp [isInconclusive, hr]
      have hopen : leftOpen n (t₁ ++ [⟨w, .othersDraw, k⟩]) = some true := by
        rw [leftOpen_append_none rfl, hlast, hstale]
      rw [List.append_cons]
      rcases hrest with ⟨-, rfl, rfl, rfl⟩ | ⟨rfl, hrest⟩
      · rw [List.append_nil]
        exact .inr ⟨⟨y', hy', hidentity⟩, hstale, .inl hopen⟩
      · have hkept := ((hdrawn.then hreplaced).fades hw).kept
        have hz : SameContext s (t₁ ++ []) z := by
          have hreplace : SameContext (w.drawing k) [] z := Prog.Frames.frame _ _ _ _ hf
          exact hreplace.trans hcontext
        have hencoded : (WireCodec.serializeAction
            ((sent.renamed (w.drawn "fcitx-" k)).rebased w.session.revision)).isSome = true := by
          obtain ⟨-, ⟨hno, -⟩ | ⟨d, hd, -⟩⟩ := replaceEntry_cases hf
          · cases hno
          · rw [hd]
            rfl
        have hreconverts' : ((sent.renamed (w.drawn "fcitx-" k)).rebased
            w.session.revision).learningDecision = none := by
          rw [HandleImeAction.learningDecision_rebased, HandleImeAction.learningDecision_renamed,
            ← hreconverts]
          simp only [HandleImeAction.learningDecision, hresent.action]
        rcases ih hkept hy' (hcarries rfl) hreconverts'
          (by rw [reconversionSince_of_identity hidentity]; exact hsince)
          (by rw [hz]; exact hplain) hencoded hrest with
          ⟨hempty, hgiven⟩ | ⟨⟨y'', hy'', hyid''⟩, hinconclusive, hlater⟩
        · exact .inl ⟨hempty, leftOpen_append_some hgiven⟩
        · refine .inr ⟨⟨y'', hy'', hyid''.trans hidentity⟩, hinconclusive, .inl ?_⟩
          rcases hlater with hlater | ⟨-, rfl⟩
          · exact leftOpen_append_some hlater
          · rw [List.append_nil]
            exact hopen
    | @served _ r sent _ _ w hm hexecute hb hr =>
      obtain ⟨hcarried, hresent, -, ⟨hnone, -⟩ | ⟨hlast, -, y, hy, hid, hyid⟩⟩ :=
        attempt_leftOpen hp hx hsince hplain hm hexecute hb
      · cases hnone
      have hack := acknowledge_head (hcarried.fades hw).kept hy
      rw [hid, ← hx.2.1, ← hresent.requestID] at hack
      refine .inl ⟨?_, ?_⟩
      · show (w.session.journal.acknowledge sent.requestID).pending = []
        rw [hack]
      · rw [hlast, conclusive_of_successful hr]
    | @failed t₁ t₂ _ sent _ _ w _ hm hexecute hb hs hr hf =>
      obtain ⟨hcarried, hresent, -, ⟨rfl, hempty, hgiven⟩ | ⟨hlast, -, y, hy, hid, hyid⟩⟩ :=
        attempt_leftOpen hp hx hsince hplain hm hexecute hb
      · cases hf with
        | uncertain hu =>
          rw [List.append_nil]
          exact .inl ⟨hempty, hgiven⟩
        | learning hu ha hreplace => cases hu
        | rejected hu ha => cases hu
      · have hdecision : sent.learningDecision = none := by
          rw [← hreconverts]
          simp only [HandleImeAction.learningDecision, hresent.action]
        cases hf with
        | uncertain hu =>
          rw [List.append_nil]
          have hinconclusive : isInconclusive response = true := by simp [isInconclusive, hu]
          exact .inr ⟨⟨y, hy, hyid⟩, hinconclusive, .inl (by rw [hlast, hinconclusive])⟩
        | learning hu hd hreplace =>
          rw [hdecision] at hd
          cases hd
        | rejected hu hd =>
          have hack := acknowledge_head (hcarried.fades hw).kept hy
          rw [hid, ← hx.2.1, ← hresent.requestID] at hack
          rw [List.append_nil]
          refine .inl ⟨?_, ?_⟩
          · show (w.session.journal.acknowledge sent.requestID).pending = []
            rw [hack]
          · rw [hlast]
            simp [isInconclusive, hu, hs]

/-! What the caller gets for a reconversion that is left open. -/

omit [WireCodec] in
theorem untrusted_of_status {r : ResponseEnvelope} (h : r.status ≠ .success) : r.trusted = false := by
  simp [ResponseEnvelope.trusted, h]

omit [WireCodec] in
theorem withStatus_untrusted {r : ResponseEnvelope} {status : StatusCode}
    (h : status ≠ .success) : (withStatus r status).trusted = false := by
  obtain ⟨outer, errorMessage, payload⟩ := r
  cases payload with
  | handleImeActionResult result => exact untrusted_of_status h
  | _ => simp [withStatus, ResponseEnvelope.trusted, ResponseEnvelope.result]

theorem makeEffectHandoffResponse_cases {status : StatusCode} {value : Option ResponseEnvelope}
    (h : (makeEffectHandoffResponse status).Yields s t value s') :
    t = [] ∧ ∀ r, value = some r → ∃ r', r = withStatus r' status := by
  obtain ⟨t₁, t₂, response, u, rfl, hflush, rfl, rfl, rfl⟩ := Prog.yields_bind.mp h
  refine ⟨?_, fun r hr => ?_⟩
  · obtain ⟨t₃, t₄, x, v, rfl, ⟨rfl, rfl, rfl⟩, hrest⟩ := Prog.yields_bind.mp hflush
    cases hlast : lastConfirmed v.session with
    | none =>
      rw [hlast] at hrest
      obtain ⟨rfl, -⟩ := hrest
      rfl
    | some snapshot =>
      rw [hlast] at hrest
      obtain ⟨t₅, t₆, r, w, rfl, ⟨rfl, -⟩, rfl, -⟩ := Prog.yields_bind.mp hrest
      rfl
  · obtain ⟨r', -, rfl⟩ := Option.map_eq_some_iff.mp hr
    exact ⟨r', rfl⟩

theorem handOffEffects_cases {value : Option ResponseEnvelope}
    (h : handOffEffects.Yields s t value s') :
    t = [] ∧ ∀ r, value = some r → r.trusted = false := by
  obtain ⟨t₁, t₂, x, u, rfl, ⟨rfl, rfl, rfl⟩, hrest⟩ := Prog.yields_bind.mp h
  rw [Prog.yields_ite] at hrest
  rcases hrest with ⟨-, hrest⟩ | ⟨-, rfl, rfl, -⟩
  · obtain ⟨rfl, hstatus⟩ := makeEffectHandoffResponse_cases hrest
    refine ⟨rfl, fun r hr => ?_⟩
    obtain ⟨r', rfl⟩ := hstatus r hr
    exact withStatus_untrusted (by simp)
  · exact ⟨rfl, fun r hr => by cases hr⟩

omit [WireCodec] in
theorem attachReplayedEffects_status (s : HazkeyClientSession) (r : ResponseEnvelope) :
    (s.attachReplayedEffects r).1.status = r.status := by
  unfold HazkeyClientSession.attachReplayedEffects
  split
  · rfl
  · obtain ⟨status, errorMessage, payload⟩ := r
    cases payload <;> rfl

theorem deliver_cases {value : Option ResponseEnvelope}
    (h : (deliver response).Yields s t value s') :
    t = [] ∧ (isInconclusive response = true → ∀ r, value = some r → r.trusted = false) := by
  cases response with
  | none =>
    obtain ⟨rfl, hvalue⟩ := handOffEffects_cases h
    exact ⟨rfl, fun _ => hvalue⟩
  | some answer =>
    unfold deliver at h
    dsimp only at h
    rw [Prog.yields_ite] at h
    rcases h with ⟨-, h⟩ | ⟨hcertain, h⟩
    · obtain ⟨rfl, hvalue⟩ := handOffEffects_cases h
      exact ⟨rfl, fun _ => hvalue⟩
    obtain ⟨t₁, t₂, attached, u, rfl, ⟨rfl, rfl, -⟩, hrest⟩ := Prog.yields_bind.mp h
    obtain ⟨t₃, t₄, x, v, rfl, ⟨rfl, rfl, rfl⟩, hrest⟩ := Prog.yields_bind.mp hrest
    have hstatus (hopen : isInconclusive (some answer) = true) :
        (s.session.attachReplayedEffects answer).1.status = .staleRevision := by
      rw [attachReplayedEffects_status]
      simp only [isInconclusive, Bool.or_eq_true] at hopen
      have hstale := hopen.resolve_left hcertain
      simp only [isStaleImeResponse, Option.any_some, Bool.and_eq_true, decide_eq_true_eq] at hstale
      exact hstale.1
    rw [Prog.yields_ite] at hrest
    rcases hrest with ⟨-, hrest⟩ | ⟨-, rfl, rfl, -⟩
    · obtain ⟨rfl, hvalue⟩ := makeEffectHandoffResponse_cases hrest
      refine ⟨rfl, fun hopen r hr => ?_⟩
      obtain ⟨r', rfl⟩ := hvalue r hr
      refine withStatus_untrusted ?_
      have hcode := hstatus hopen
      simp [handOffStatus, hcode]
    · refine ⟨rfl, fun hopen r hr => ?_⟩
      obtain rfl := Option.some.inj hr
      have hcode := hstatus hopen
      exact untrusted_of_status (by rw [hcode]; simp)

theorem recordAction_empty {b : Bool} (hq : s.queue = [])
    (h : (recordAction a).Yields s t b s') :
    b = false ∧ s'.queue = [] ∨
      b = true ∧ ∃ x, s'.queue = [x] ∧ x.Carries a ∧ x.serial = s.session.journal.recorded ∧
        (WireCodec.serializeAction a).isSome = true := by
  obtain ⟨rfl, ⟨rfl, rfl⟩ | ⟨d, hd, entry, rfl, rfl, rfl⟩⟩ := recordAction_cases h
  · exact .inl ⟨rfl, hq⟩
  rcases record_cases (j := s.session.journal)
    ⟨a.requestID, d, a.expectedRevision, s.session.id, false, 0⟩ with
    ⟨hsame, hduplicate⟩ | ⟨htrue, -, -, hnew⟩
  · rw [hsame]
    refine .inl ⟨Bool.eq_false_iff.mpr fun hb => ?_, hq⟩
    obtain ⟨x, hx, -⟩ := hduplicate hb
    rw [show s.session.journal.pending = [] from hq] at hx
    cases hx
  · rw [hnew]
    refine .inr ⟨htrue, ⟨a.requestID, d, a.expectedRevision, s.session.id, false,
      s.session.journal.recorded⟩, ?_, ⟨WireCodec.parse_serializeAction _ _ hd, rfl, rfl⟩, rfl,
      by rw [hd]; rfl⟩
    show s.session.journal.pending ++ _ = _
    rw [show s.session.journal.pending = [] from hq]
    rfl

/-- The transaction of a reconversion: nothing of it is in the journal afterwards, or it is
left open, and the caller is told of no success. -/
theorem transactV2_leftOpen {value : Option ResponseEnvelope} (hcodec : EncodesRevisions)
    (hw : WellKept s.session.journal) (hplain : s.session.context.secureInput = false)
    (hold : ∀ x ∈ s.queue, x.serial < n) (hn : n ≤ s.session.journal.recorded)
    (ha : (a.action.any (·.reconverts)) = true)
    (h : (transactV2 a tryConnect).Yields s t value s') :
    (∀ x ∈ s'.queue, x.serial < n) ∧ leftOpen n t ≠ some true ∨
      (∃ y, s'.queue = [y] ∧ y.reconversionSince n = true) ∧ leftOpen n t = some true ∧
        ∀ r, value = some r → r.trusted = false := by
  have holdest : s.Lacks fun i => n ≤ i.1 := fun x hx => not_le.mpr (hold x hx)
  have hnothing {t : List ClientEvent} {s' : ClientState}
      (h : Avoids (fun i => n ≤ i.1) s t s') :
      (∀ x ∈ s'.queue, x.serial < n) ∧ leftOpen n t ≠ some true := by
    have hlacking := h hw holdest
    refine ⟨fun x hx => not_le.mp (hlacking.lacks x hx),
      leftOpen_ne_of_states fun e he x hx => ?_⟩
    have hlt : ¬ n ≤ x.serial := hlacking.states e he x hx
    simp [HazkeyJournalEntry.reconversionSince, hlt]
  have hopen {b : Bool} {u : ClientState} {t : List ClientEvent}
      (ho : (ensureOpen tryConnect).Yields s t b u) : Quiet s t u :=
    Prog.Frames.frame _ _ _ _ ho
  cases transactV2_cases h with
  | unopened ho => exact .inl (hnothing (hopen ho).avoids)
  | secure ho hsecure hv hn hx =>
    have hcontext : SameContext s _ _ := Prog.Frames.frame _ _ _ _ ho
    rw [hcontext, hplain] at hsecure
    cases hsecure
  | undrained ho _ hr hd hh =>
    exact .inl (hnothing ((hopen ho).avoids.then ((replayPendingV2_fades hr).avoids.then
      (Quiet.avoids (Prog.Frames.frame _ _ _ _ hh)))))
  | @unrecorded t₁ t₂ t₃ _ _ u v w _ ho _ hr hd hnamed hrecord =>
    have hempty : w.queue = [] := (namedOr_quiet hnamed).journal.pending.trans
      ((replayPendingV2_journal ((hopen ho).fades hw).kept hr).2 hd)
    have hnone := (hnothing ((hopen ho).avoids.then ((replayPendingV2_fades hr).avoids.then
      (namedOr_quiet hnamed).avoids))).2
    refine .inl ⟨?_, hnone⟩
    rcases recordAction_empty hempty hrecord with ⟨-, hq⟩ | ⟨hno, -⟩
    · simp [hq]
    · cases hno
  | @executed t₁ t₂ t₃ t₄ t₅ _ named _ _ u v w x y _ ho _ hr hd hnamed hrecord hx hdeliver =>
    have hu := (hopen ho).fades
    have hv := Prog.Composes.trans (R := Fades) _ _ _ _ _ hu (replayPendingV2_fades hr)
    have hfades := Prog.Composes.trans (R := Fades) _ _ _ _ _ hv (namedOr_quiet hnamed).fades
    have hempty : w.queue = [] := (namedOr_quiet hnamed).journal.pending.trans
      ((replayPendingV2_journal (hu hw).kept hr).2 hd)
    have hcontext : SameContext s ((t₁ ++ t₂) ++ t₃) w :=
      Prog.Composes.trans (R := SameContext) _ _ _ _ _
        (Prog.Composes.trans (R := SameContext) _ _ _ _ _ (Prog.Frames.frame _ _ _ _ ho)
          (Prog.Frames.frame _ _ _ _ hr)) (Prog.Frames.frame _ _ _ _ hnamed)
    have hrecorded : SameContext w [] x := Prog.Frames.frame _ _ _ _ hrecord
    rcases recordAction_empty hempty hrecord with ⟨hno, -⟩ |
      ⟨-, entry, hentry, hcarries, hserial, hencoded⟩
    · cases hno
    have haction : named.action = a.action := namedOr_action hnamed
    have hpayload : entry.payload = a.action := hcarries.payload.trans haction
    have hsince : entry.reconversionSince n = true := by
      have hle : n ≤ entry.serial := by
        rw [hserial, (hfades hw).recorded]
        exact hn
      simp [HazkeyJournalEntry.reconversionSince, hle, hpayload, ha]
    have hkept : WellKept x.session.journal := by
      have hpreserves := (recordAction_preserves (by simp [hempty]) hrecord).1
      exact (hpreserves.keeps.orders (hfades hw).kept).kept
    have hdecision : (named.rebased w.session.revision).learningDecision = none := by
      rw [HandleImeAction.learningDecision_rebased, HandleImeAction.learningDecision, haction]
      obtain ⟨action, he, hreconverts⟩ := (Option.any_eq_true ..).mp ha
      rw [he]
      cases action with
      | reconvert => rfl
      | _ => cases hreconverts
    have hplain' : x.session.context.secureInput = false := by
      rw [hrecorded, hcontext]
      exact hplain
    obtain ⟨rfl, hvalue⟩ := deliver_cases hdeliver
    have hdelivered : Quiet y [] s' := Prog.Frames.frame _ _ _ _ hdeliver
    have hq : s'.queue = y.queue := hdelivered.journal.pending
    rw [List.append_nil, hq]
    rcases executeJournaled_leftOpen hcodec hkept hentry hcarries hdecision hsince hplain' hencoded
      hx with ⟨hsettled, hclosed⟩ | ⟨⟨z, hz, hid⟩, hinconclusive, hlast | ⟨hno, -⟩⟩
    · refine .inl ⟨by simp [hsettled], ?_⟩
      rw [leftOpen_append_some (leftOpen_append_some (leftOpen_append_some hclosed))]
      simp
    · refine .inr ⟨⟨z, hz, ?_⟩, ?_, hvalue hinconclusive⟩
      · rw [reconversionSince_of_identity hid]
        exact hsince
      · exact leftOpen_append_some (leftOpen_append_some (leftOpen_append_some hlast))
    · cases hno

theorem recordAction_beside {commit b : Bool} (hq : s.queue = [y]) (hw : WellKept s.session.journal)
    (hy : (y.payload.any (·.reconverts)) = true)
    (ha : a.action = some (.resolvePendingLearning commit))
    (h : (recordAction a).Yields s t b s') : y ∈ s'.queue ∧ (b = true → s'.queue.length = 2) := by
  have hmem : y ∈ s.queue := hq ▸ List.mem_singleton_self y
  obtain ⟨-, ⟨rfl, rfl⟩ | ⟨d, hd, entry, rfl, rfl, rfl⟩⟩ := recordAction_cases h
  · exact ⟨hmem, fun hb => by cases hb⟩
  rcases record_cases (j := s.session.journal)
    ⟨a.requestID, d, a.expectedRevision, s.session.id, false, 0⟩ with
    ⟨hsame, hduplicate⟩ | ⟨-, -, -, hnew⟩
  · rw [hsame]
    refine ⟨hmem, fun hb => ?_⟩
    obtain ⟨x, hx, -, hbytes, -⟩ := hduplicate hb
    -- the entry would be for both actions
    obtain rfl : x = y := List.mem_singleton.mp (hq ▸ hx)
    have hparsed : x.payload = some (.resolvePendingLearning commit) := by
      rw [HazkeyJournalEntry.payload, hbytes, WireCodec.parse_serializeAction a d hd]
      exact ha
    rw [hparsed] at hy
    cases hy
  · rw [hnew]
    refine ⟨List.mem_append_left _ hmem, fun _ => ?_⟩
    show (s.session.journal.pending ++ _).length = 2
    rw [show s.session.journal.pending = [y] from hq]
    rfl

/-- A decision of the learning waits behind what is open. -/
theorem transactV2DurableBestEffort_beside {value : Option ResponseEnvelope} {commit : Bool}
    (hq : s.queue = [y]) (hw : WellKept s.session.journal)
    (hy : (y.payload.any (·.reconverts)) = true)
    (h : (transactV2DurableBestEffort ⟨[], 0, some (.resolvePendingLearning commit)⟩).Yields
      s t value s') : y ∈ s'.queue ∧ frames t = [] ∧ value = none := by
  have hnamed {named : HandleImeAction} {u : ClientState} {t : List ClientEvent}
      (hn : (namedOr ⟨[], 0, some (.resolvePendingLearning commit)⟩
        "fcitx-durable-best-effort-").Yields s t named u) :
      u.queue = [y] ∧ WellKept u.session.journal ∧ frames t = [] := by
    have hquiet := namedOr_quiet hn
    refine ⟨hquiet.journal.pending.trans hq, hw.same hquiet.journal, ?_⟩
    rcases namedOr_cases hn with ⟨-, k, rfl, -, -⟩ | ⟨hid, -⟩
    · rfl
    · exact absurd rfl hid
  cases transactV2DurableBestEffort_cases h with
  | refused => exact ⟨hq ▸ List.mem_singleton_self y, rfl, rfl⟩
  | recorded hplain hdecision hfirst hn hrecord =>
    obtain ⟨hu, hkept, hframes⟩ := hnamed hn
    exact ⟨(recordAction_beside hu hkept hy (by exact namedOr_action hn) hrecord).1, hframes, rfl⟩
  | executed hplain hdecision hfirst hn hrecord hstaged hhead hx =>
    obtain ⟨hu, hkept, -⟩ := hnamed hn
    have htwo := (recordAction_beside hu hkept hy (by exact namedOr_action hn) hrecord).2 rfl
    exact absurd (hhead.symm.trans htwo) (by decide)

end

end Hazkey.SessionClient
