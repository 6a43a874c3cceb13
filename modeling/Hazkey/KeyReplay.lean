import Hazkey.KeySelection
import Hazkey.OpenReconversion

/-! What a key that goes to the application leaves in the journal. -/

namespace Hazkey.SessionClient

open ServiceProgram

/-- Replaying it later changes no text. -/
def Action.harmless : Action → Bool
  | .resolvePendingLearning _ => true
  | .other field _ => field = 27
  | _ => false

/-- The calls of the session client inside those of the adapter. -/
def clientTrace (t : List FrontEvent) : List ClientEvent := sessionHost.guests t

@[simp] theorem clientTrace_append (t t' : List FrontEvent) :
    clientTrace (t ++ t') = clientTrace t ++ clientTrace t' := sessionHost.guests_append t t'

/-- Recorded since there were so many entries, and of this kind. -/
def Since (n : Nat) (K : Option Action → Bool) (i : Nat × Option Action) : Prop :=
  n ≤ i.1 ∧ K i.2 = true

def edits (a : Option Action) : Bool := !a.any (·.harmless)

def reconverts (a : Option Action) : Bool := a.any (·.reconverts)

section

variable {n : Nat} {K L : Option Action → Bool} {s s' u : HazkeyState} {t t' : List FrontEvent}

theorem edits_of_reconverts {a : Option Action} (h : reconverts a = true) : edits a = true := by
  obtain ⟨action, rfl, ha⟩ := (Option.any_eq_true ..).mp h
  cases action with
  | reconvert => rfl
  | _ => cases ha

theorem Since.mono {i : Nat × Option Action} (hK : ∀ a, K a = true → L a = true)
    (h : Since n K i) : Since n L i := ⟨h.1, hK _ h.2⟩

variable [WireCodec]

/-- The kind does not come into the journal. -/
abbrev LeavesOut (n : Nat) (K : Option Action → Bool) : FrontRelation :=
  sessionHost.Lifts (Avoids (Since n K))

theorem frames_ofClient {α : Type} {p : ClientM α} (hp : Prog.Frames (Avoids (Since n K)) p) :
    Prog.Frames (LeavesOut n K) (ofClient p) :=
  inferInstanceAs (Prog.Frames (sessionHost.Lifts _) (sessionHost.embed p))

theorem frames_of_fades {α : Type} {p : ClientM α} [hp : Prog.Frames Fades p] :
    Prog.Frames (LeavesOut n K) (ofClient p) :=
  frames_ofClient ⟨fun _ _ _ _ h => (hp.frame _ _ _ _ h).avoids⟩

/-- What the session client takes no part in. -/
theorem leavesOut_of_server (hs : s'.server = s.server) (ht : clientTrace t = []) :
    LeavesOut n K s t s' := by
  show Avoids _ s.server (clientTrace t) s'.server
  rw [hs, ht]
  exact Prog.Composes.refl _

omit [WireCodec] in
theorem clientTrace_quiet {c : FrontendRequest} (hc : c.quiet = true) (s : HazkeyState)
    (a : c.Answer) : clientTrace [⟨s, c, a⟩] = [] := by
  cases c with
  | client | transacts | filter | filterAndAccept => cases hc
  | _ => rfl

instance : Resumes (LeavesOut n K) where
  asks _ hc s a := leavesOut_of_server rfl (clientTrace_quiet hc s a)
  changes _ _ hs := leavesOut_of_server hs rfl
  claims _ := frames_of_fades
  flushes _ := frames_ofClient ⟨fun _ _ _ _ h => (flushPendingV2_fades h).avoids⟩

theorem serves_leavesOut (hK : ∀ commit, K (some (.resolvePendingLearning commit)) = false) :
    Serves (LeavesOut n K) where
  resolves commit := frames_ofClient ⟨fun _ _ _ _ h =>
    transactV2DurableBestEffort_avoids
      (fun _ _ hbad => Bool.eq_false_iff.mp (hK commit) hbad.2) h⟩
  abandons := frames_of_fades

theorem performs_leavesOut {action : Action} (hK : K (some action) = false) :
    Performs (LeavesOut n K) action where
  noted _ := leavesOut_of_server rfl rfl
  performed := frames_ofClient ⟨fun _ _ _ _ h =>
    transactV2_avoids (fun _ _ hbad => Bool.eq_false_iff.mp hK hbad.2) h⟩

instance : Serves (LeavesOut n edits) := serves_leavesOut fun _ => rfl

instance : Serves (LeavesOut n reconverts) := serves_leavesOut fun _ => rfl

theorem performs_updateSurroundingContext (surrounding : Option SurroundingText)
    (hK : ∀ a : Action, a.harmless = true → K (some a) = false) :
    Performs (LeavesOut n K) (updateSurroundingContext surrounding) :=
  performs_leavesOut (hK _ (by simp [updateSurroundingContext, Action.harmless]))

omit [WireCodec] in
theorem edits_harmless {a : Action} (h : a.harmless = true) : edits (some a) = false := by
  simp [edits, h]

omit [WireCodec] in
theorem reconverts_harmless {a : Action} (h : a.harmless = true) :
    reconverts (some a) = false := by
  cases a with
  | reconvert => cases h
  | _ => rfl

/-! Every action of a key but the reconversion. -/

theorem frames_fate {c : FrontendRequest} (hc : c.isFate = true) :
    Prog.Frames (LeavesOut n K) (request c) := by
  refine Prog.frames_ask fun s a => leavesOut_of_server rfl ?_
  cases c with
  | filter | filterAndAccept => rfl
  | _ => cases hc

variable [EffectCodec]

theorem frames_passThrough [Serves (LeavesOut n K)] (before : ShownSnapshot) :
    Prog.Frames (LeavesOut n K) (passThrough before) := by
  have hfilter : Prog.Frames (LeavesOut n K) (request .filter) := frames_fate rfl
  unfold passThrough
  infer_instance

omit [EffectCodec] in
theorem frames_concludeKey (action : HazkeySemanticAction) (before : ShownSnapshot)
    (succeeded : Bool) : Prog.Frames (LeavesOut n K) (concludeKey action before succeeded) := by
  have hfilter : Prog.Frames (LeavesOut n K) (request .filter) := frames_fate rfl
  have haccept : Prog.Frames (LeavesOut n K) (request .filterAndAccept) := frames_fate rfl
  have habandon : Prog.Frames (LeavesOut n K) (ofClient abandonUnconfirmedInput) := frames_of_fades
  unfold concludeKey
  infer_instance

omit [WireCodec] [EffectCodec] in
/-- A reconversion is not dispatched. -/
theorem dispatchedAction_reconverts {action : HazkeySemanticAction} {insertedText : Text}
    {dispatched : Action} (h : dispatchedAction action insertedText = some dispatched) :
    reconverts (some dispatched) = false := by
  unfold dispatchedAction at h
  split at h
  all_goals first
    | (obtain rfl := Option.some.inj h; rfl)
    | cases h

theorem frames_dispatch (action : HazkeySemanticAction) (insertedText : Text) :
    Prog.Frames (LeavesOut n reconverts) (dispatchV2 action insertedText) :=
  frames_dispatchV2 fun _ hd => performs_leavesOut (dispatchedAction_reconverts hd)

theorem frames_updateSurroundingText (hK : ∀ a : Action, a.harmless = true → K (some a) = false) :
    Prog.Frames (LeavesOut n K) updateSurroundingTextV2 :=
  frames_updateSurroundingTextV2 fun surrounding => performs_updateSurroundingContext surrounding hK

theorem frames_performKey [Keyboard] (event : KeyEvent) {action : HazkeySemanticAction}
    (before : ShownSnapshot) (hk : action.kind ≠ .reconvert) :
    Prog.Frames (LeavesOut n reconverts) (performKey event action before) := by
  have hdispatch (action : HazkeySemanticAction) (insertedText : Text) :
      Prog.Frames (LeavesOut n reconverts) (dispatchV2 action insertedText) :=
    frames_dispatch action insertedText
  have hconclude (succeeded : Bool) :
      Prog.Frames (LeavesOut n reconverts) (concludeKey action before succeeded) :=
    frames_concludeKey action before succeeded
  have hplain : Prog.Frames (LeavesOut n reconverts) (do
      let succeeded ← dispatchV2 action []
      concludeKey action before succeeded) := inferInstance
  unfold performKey
  cases hkind : action.kind with
  | selectCandidate =>
    exact .bind (frames_transactCandidate fun _ _ => performs_leavesOut rfl) fun _ => hconclude _
  | forgetCandidate =>
    exact .bind (frames_transactCandidate fun _ _ => performs_leavesOut rfl) fun _ => hconclude _
  | reconvert => exact absurd hkind hk
  | insertText =>
    have hsurrounding : Prog.Frames (LeavesOut n reconverts) updateSurroundingTextV2 :=
      frames_updateSurroundingText fun _ => reconverts_harmless
    have hpass := frames_passThrough (n := n) (K := reconverts) before
    dsimp only
    unfold insertKey
    infer_instance
  | appendUnicodeDigit =>
    dsimp only
    infer_instance
  | _ => exact hplain

/-! The fate of the key. -/

/-- The key is taken, or nothing is kept of it. -/
def DecidesFate (p : FrontM Unit) : Prop :=
  ∀ s t s', p.Yields s t () s' → fates t = [true] ∨ fates t = [false] ∧ s'.server.queue = []

omit [WireCodec] [EffectCodec] in
theorem DecidesFate.bind {α : Type} {p : FrontM α} {f : α → FrontM Unit}
    [hp : Prog.Frames (Without FrontendRequest.isFate) p] (hf : ∀ a, DecidesFate (f a)) :
    DecidesFate (p >>= f) := by
  intro s t s' h
  obtain ⟨t₁, t₂, a, u, rfl, hfirst, hrest⟩ := Prog.yields_bind.mp h
  have hnone : fates t₁ = [] := (hp.frame _ _ _ _ hfirst).fates
  rw [fates_append, hnone, List.nil_append]
  exact hf a u t₂ s' hrest

omit [WireCodec] [EffectCodec] in
theorem fates_filter {t : List FrontEvent} (h : (request .filter).Yields s t () s') :
    fates t = [false] ∧ clientTrace t = [] ∧ s' = s := by
  obtain ⟨rfl, rfl⟩ := Prog.yields_ask.mp h
  exact ⟨rfl, rfl, rfl⟩

omit [EffectCodec] in
theorem concludeKey_decidesFate (action : HazkeySemanticAction) (before : ShownSnapshot)
    (succeeded : Bool) : DecidesFate (concludeKey action before succeeded) := by
  intro s t s' h
  unfold concludeKey at h
  rw [Prog.yields_ite] at h
  rcases h with ⟨-, h⟩ | ⟨-, h⟩
  · right
    obtain ⟨t₁, t₂, _, u, rfl, habandon, hrest⟩ := Prog.yields_bind.mp h
    obtain ⟨t₃, t₄, _, v, rfl, hdiscard, hfilter⟩ := Prog.yields_bind.mp hrest
    obtain ⟨hlast, -, rfl⟩ := fates_filter hfilter
    have hclient : Prog.Frames (Without FrontendRequest.isFate) (ofClient abandonUnconfirmedInput) :=
      without_client _
    have hfirst : fates t₁ = [] := (hclient.frame _ _ _ _ habandon).fates
    have hpanel : fates t₃ = [] :=
      (Prog.Frames.frame (R := Without FrontendRequest.isFate) _ _ _ _ hdiscard).fates
    have hempty : u.server.queue = [] := by
      obtain ⟨w, hw, -⟩ := finalizeWithoutUITarget_cases (sessionHost.embed_yields habandon)
      show u.server.session.journal.pending = []
      rw [show u.server = _ from hw]
      rfl
    have hserver : s'.server = u.server := by
      obtain ⟨t₅, t₆, _, w, rfl, ⟨rfl, -, rfl⟩, hreset⟩ := Prog.yields_bind.mp hdiscard
      obtain ⟨rfl, rfl⟩ := Prog.yields_ask.mp hreset
      rfl
    refine ⟨?_, by rw [hserver, hempty]⟩
    rw [fates_append, fates_append, hfirst, hpanel, hlast]
    rfl
  · obtain ⟨rfl, rfl⟩ := Prog.yields_ask.mp h
    exact .inl rfl

theorem passThrough_fates {before : ShownSnapshot} (h : (passThrough before).Yields s t () s') :
    fates t = [false] := by
  obtain ⟨t₁, t₂, _, u, rfl, hresolve, hfilter⟩ := Prog.yields_bind.mp h
  have hfirst : fates t₁ = [] :=
    (Prog.Frames.frame (R := Without FrontendRequest.isFate) _ _ _ _ hresolve).fates
  rw [fates_append, hfirst, (fates_filter hfilter).1]
  rfl

theorem frames_isFate_dispatch (action : HazkeySemanticAction) (insertedText : Text) :
    Prog.Frames (Without FrontendRequest.isFate) (dispatchV2 action insertedText) :=
  frames_dispatchV2 fun _ _ => inferInstance

theorem insertKey_fates [Keyboard] {event : KeyEvent} {action : HazkeySemanticAction}
    {before : ShownSnapshot} (h : (insertKey event action before).Yields s t () s') :
    fates t = [true] ∨
      fates t = [false] ∧ (s'.server.queue = [] ∨ LeavesOut n edits s t s') := by
  have hdispatch (action : HazkeySemanticAction) (insertedText : Text) :=
    frames_isFate_dispatch action insertedText
  have hsurrounding : Prog.Frames (Without FrontendRequest.isFate) updateSurroundingTextV2 :=
    frames_updateSurroundingTextV2 fun _ => inferInstance
  obtain ⟨t₁, t₂, _, u, rfl, hfirst, hrest⟩ := Prog.yields_bind.mp h
  have hnone : fates t₁ = [] :=
    (Prog.Frames.frame (R := Without FrontendRequest.isFate) _ _ _ _ hfirst).fates
  rw [fates_append, hnone, List.nil_append]
  rw [Prog.yields_ite] at hrest
  rcases hrest with ⟨-, hpass⟩ | ⟨-, hinsert⟩
  · have hupdate : Prog.Frames (LeavesOut n edits) updateSurroundingTextV2 :=
      frames_updateSurroundingText fun _ => edits_harmless
    have hleft := frames_passThrough (n := n) (K := edits) before
    refine .inr ⟨passThrough_fates hpass, .inr ?_⟩
    exact Prog.Composes.trans _ _ _ _ _ (Prog.Frames.frame _ _ _ _ hfirst)
      (hleft.frame _ _ _ _ hpass)
  · have hconcludes : DecidesFate (do
        let succeeded ← dispatchV2 action (insertedText event action)
        Prog.when (succeeded = true ∧ inputPhaseFor before.phase = .idle ∧
          event.key.sym = FcitxKey.space) (do
            let _ ← dispatchV2 { kind := .commitAll } []
            pure ())
        concludeKey action before succeeded) :=
      .bind fun succeeded => .bind fun _ => concludeKey_decidesFate action before succeeded
    exact (hconcludes _ _ _ hinsert).imp_right fun ⟨hfates, hempty⟩ => ⟨hfates, .inl hempty⟩

theorem performKey_fates [Keyboard] {event : KeyEvent} {action : HazkeySemanticAction}
    {before : ShownSnapshot} (hk : action.kind ≠ .reconvert)
    (h : (performKey event action before).Yields s t () s') :
    fates t = [true] ∨
      fates t = [false] ∧ (s'.server.queue = [] ∨ LeavesOut n edits s t s') := by
  have hdispatch (action : HazkeySemanticAction) (insertedText : Text) :=
    frames_isFate_dispatch action insertedText
  have hcandidate (name : UInt64 → CandidateSnapshot → Action) (index : Int) :
      Prog.Frames (Without FrontendRequest.isFate) (transactCandidate name index) :=
    frames_transactCandidate fun _ _ => inferInstance
  have hconcludes {α : Type} (p : FrontM α) (b : α → Bool)
      [Prog.Frames (Without FrontendRequest.isFate) p]
      (hp : (p >>= fun a => concludeKey action before (b a)).Yields s t () s') :
      fates t = [true] ∨
        fates t = [false] ∧ (s'.server.queue = [] ∨ LeavesOut n edits s t s') := by
    have hp' := DecidesFate.bind (fun a => concludeKey_decidesFate action before (b a)) _ _ _ hp
    exact hp'.imp_right fun ⟨hfates, hempty⟩ => ⟨hfates, .inl hempty⟩
  unfold performKey at h
  cases hkind : action.kind with
  | reconvert => exact absurd hkind hk
  | insertText =>
    rw [hkind] at h
    exact insertKey_fates h
  | selectCandidate =>
    rw [hkind] at h
    have hselect : Prog.Frames (Without FrontendRequest.isFate) (selectV2Candidate action.value) :=
      hcandidate selectCandidate action.value
    exact hconcludes (selectV2Candidate action.value) (fun _ => true) h
  | forgetCandidate =>
    rw [hkind] at h
    have hforget : Prog.Frames (Without FrontendRequest.isFate)
        (forgetV2Candidate before.candidateWindow.selected) := hcandidate forgetCandidate _
    exact hconcludes (forgetV2Candidate before.candidateWindow.selected) (fun _ => true) h
  | appendUnicodeDigit =>
    rw [hkind] at h
    exact hconcludes (dispatchV2 action _) id h
  | _ =>
    rw [hkind] at h
    exact hconcludes (dispatchV2 action []) id h

/-! The reconversion. -/

instance : Shows (sessionHost.Lifts Quiet) where
  asks c hc s a := by
    show Quiet s.server (clientTrace _) s.server
    rw [clientTrace_quiet hc]
    exact Prog.Composes.refl _
  changes s s' hs := by
    show Quiet s.server [] s'.server
    rw [hs]
    exact Prog.Composes.refl _
  claims effectID := inferInstanceAs (Prog.Frames (sessionHost.Lifts _) (sessionHost.embed _))

omit [WireCodec] [EffectCodec] in
theorem reconversion_reconverts {surrounding : SurroundingText} {action : Action}
    (h : reconversion surrounding = some action) : action.reconverts = true := by
  unfold reconversion at h
  split at h
  · cases h
  · split at h
    · cases h
    · obtain rfl := Option.some.inj h
      rfl

omit [WireCodec] [EffectCodec] in
/-- There is no surrounding text to reconvert in a secure context. -/
theorem readSurroundingText_cases {surrounding : Option SurroundingText}
    (h : readSurroundingText.Yields s t surrounding s') :
    s' = s ∧ clientTrace t = [] ∧ fates t = [] ∧
      (surrounding.isSome = true → s.server.session.context.secureInput = false) := by
  obtain ⟨t₁, t₂, x, u, rfl, ⟨rfl, rfl, rfl⟩, hrest⟩ := Prog.yields_bind.mp h
  rw [Prog.yields_ite] at hrest
  rcases hrest with ⟨-, rfl, rfl, rfl⟩ | ⟨hplain, hrest⟩
  · exact ⟨rfl, rfl, rfl, fun hsome => by cases hsome⟩
  · obtain ⟨rfl, rfl⟩ := Prog.yields_ask.mp hrest
    exact ⟨rfl, rfl, rfl, fun _ => Bool.eq_false_iff.mpr hplain⟩

omit [WireCodec] in
/-- A response without success is told as one. -/
theorem applyV2Response_untrusted {response : Option ResponseEnvelope} {b : Bool}
    (hr : ∀ r, response = some r → r.trusted = false)
    (h : (applyV2Response response).Yields s t b s') : b = false := by
  cases response with
  | none =>
    obtain ⟨t₁, t₂, _, u, rfl, -, -, rfl, -⟩ := Prog.yields_bind.mp h
    rfl
  | some r =>
    unfold applyV2Response at h
    dsimp only at h
    cases hs : r.resultSnapshot with
    | none =>
      rw [hs] at h
      obtain ⟨-, rfl, -⟩ := h
      rfl
    | some snapshot =>
      rw [hs] at h
      obtain ⟨t₁, t₂, _, u, rfl, -, h⟩ := Prog.yields_bind.mp h
      obtain ⟨t₃, t₄, _, v, rfl, -, h⟩ := Prog.yields_bind.mp h
      obtain ⟨t₅, t₆, _, w, rfl, -, h⟩ := Prog.yields_bind.mp h
      obtain ⟨t₇, t₈, _, x, rfl, -, h⟩ := Prog.yields_bind.mp h
      obtain ⟨t₉, t₁₀, _, y, rfl, -, -, rfl, -⟩ := Prog.yields_bind.mp h
      exact hr r rfl

/-- What the transaction of a reconversion comes to: nothing of it is kept, or it is kept and
not known to have been done. -/
inductive Reconverted (n : Nat) (t : List ClientEvent) (b : Bool) (s' : ClientState) : Prop
  | settled (hold : ∀ x ∈ s'.queue, x.serial < n) (hlast : leftOpen n t ≠ some true)
  | kept {y : HazkeyJournalEntry} (hy : s'.queue = [y]) (hsince : y.reconversionSince n = true)
      (hlast : leftOpen n t = some true) (hb : b = false)

theorem reconvertV2Selection_cases {b : Bool} (hcodec : EncodesRevisions)
    (hw : WellKept s.server.session.journal) (hold : ∀ x ∈ s.server.queue, x.serial < n)
    (hn : n ≤ s.server.session.journal.recorded)
    (h : reconvertV2Selection.Yields s t b s') :
    Reconverted n (clientTrace t) b s'.server := by
  obtain ⟨t₁, t₂, surrounding, u, rfl, hread, hrest⟩ := Prog.yields_bind.mp h
  obtain ⟨rfl, hclient, -, hplain⟩ := readSurroundingText_cases hread
  rw [clientTrace_append, hclient, List.nil_append]
  cases ha : surrounding.bind reconversion with
  | none =>
    rw [ha] at hrest
    obtain ⟨rfl, rfl, rfl⟩ := hrest
    exact .settled hold (by simp [clientTrace])
  | some action =>
    rw [ha] at hrest
    obtain ⟨x, rfl, hx⟩ := Option.bind_eq_some_iff.mp ha
    obtain ⟨t₃, t₄, _, v, rfl, hnoted, hcall⟩ := Prog.yields_bind.mp hrest
    obtain ⟨rfl, rfl⟩ := Prog.yields_ask.mp hnoted
    obtain ⟨t₅, t₆, response, w, rfl, htransact, happly⟩ := Prog.yields_bind.mp hcall
    have hshown : Quiet w.server (clientTrace t₆) s'.server :=
      Prog.Frames.frame (R := sessionHost.Lifts Quiet) _ _ _ _ happly
    have hq : s'.server.queue = w.server.queue := hshown.journal.pending
    have htrace (t : List FrontEvent) (s : HazkeyState) :
        clientTrace (⟨s, .transacts action, ()⟩ :: t) = clientTrace t := rfl
    rw [List.singleton_append, htrace, clientTrace_append]
    rcases transactV2_leftOpen hcodec hw (hplain rfl) hold hn
      (by simpa using reconversion_reconverts hx) (sessionHost.embed_yields htransact) with
      ⟨hsettled, hlast⟩ | ⟨⟨y, hy, hsince⟩, hlast, huntrusted⟩
    · have hsettled' : ∀ x ∈ s'.server.queue, x.serial < n := by
        rw [hq]
        exact hsettled
      have htail : leftOpen n (clientTrace t₆) ≠ some true := by
        refine leftOpen_ne_of_states fun e he z hz => ?_
        have hlt : ¬ n ≤ z.serial :=
          not_le.mpr (hsettled z ((hshown.states e he).pending ▸ hz))
        simp [HazkeyJournalEntry.reconversionSince, hlt]
      exact .settled hsettled' (leftOpen_append_ne hlast htail)
    · refine .kept (hq.trans hy) hsince ?_ (applyV2Response_untrusted huntrusted happly)
      rcases hshown.leftOpen (n := n) with hnone | hopen
      · rw [leftOpen_append_none hnone]
        exact hlast
      · exact leftOpen_append_some hopen

/-- What the journal holds of the key changes no text, and no later call sends anything of it
that does. -/
def HazkeyState.LeavesNothing (n : Nat) (s : HazkeyState) : Prop :=
  s.server.Lacks (Since n edits) ∧
    ∀ (moves : List ClientMove) (u : ClientState), Runs ClientCall.program s.server moves u →
      ∀ m ∈ moves, ∀ f ∈ frames m.trace, ∀ x, f.Sends x →
        x.serial < s.server.session.journal.recorded → ¬ Since n edits x.identity

omit [EffectCodec] in
theorem leavesNothing_of_lacks (hw : WellKept s.server.session.journal)
    (h : s.server.Lacks (Since n edits)) : s.LeavesNothing n := by
  refine ⟨h, fun moves u hrun m hm f hf x hx hserial hsince => ?_⟩
  exact runs_lack (P := fun i => i.1 < s.server.session.journal.recorded ∧ Since n edits i)
    (fun _ hi => hi.1) hw (Nat.le_refl _) (fun y hy hbad => h y hy hbad.2) hrun m hm f hf x hx
    ⟨hserial, hsince⟩

omit [EffectCodec] in
theorem leftOpen_of_lacking {s s' : ClientState} {t : List ClientEvent}
    (h : Lacking (Since n K) s t s') (hK : ∀ a, reconverts a = true → K a = true) :
    leftOpen n t ≠ some true := by
  refine leftOpen_ne_of_states fun e he x hx => Bool.eq_false_iff.mpr fun hsince => ?_
  simp only [HazkeyJournalEntry.reconversionSince, Bool.and_eq_true, decide_eq_true_eq] at hsince
  exact h.states e he x hx ⟨hsince.1, hK _ hsince.2⟩

omit [EffectCodec] in
theorem leftOpen_of_nil (h : clientTrace t = []) : leftOpen n (clientTrace t) ≠ some true := by
  simp [h]

/-- What an interpreted key comes to. -/
inductive Fares (n : Nat) (t : List FrontEvent) (s' : HazkeyState) : Prop
  | clean (hkept : WellKept s'.server.session.journal)
      (hfates : fates t = [true] ∨ fates t = [false] ∧ s'.server.Lacks (Since n edits))
      (hlast : leftOpen n (clientTrace t) ≠ some true)
  | kept (hfates : fates t = [false]) (hlacks : ¬ s'.server.Lacks (Since n edits))
      (hlast : leftOpen n (clientTrace t) = some true)

variable [Keyboard] {event : KeyEvent} {b : Bool}

omit [EffectCodec] [Keyboard] in
theorem Fares.passed (hw : WellKept s.server.session.journal)
    (hold : ∀ x ∈ s.server.queue, x.serial < n) (hfates : fates t = [false])
    (h : LeavesOut n edits s t s') : Fares n t s' := by
  have hlacking := h hw fun x hx hbad => not_lt.mpr hbad.1 (hold x hx)
  exact .clean hlacking.kept (.inr ⟨hfates, hlacking.lacks⟩)
    (leftOpen_of_lacking hlacking fun _ => edits_of_reconverts)

omit [EffectCodec] [Keyboard] in
theorem Fares.concluded (hw : WellKept s.server.session.journal)
    (hold : ∀ x ∈ s.server.queue, x.serial < n)
    (hfates : fates t = [true] ∨
      fates t = [false] ∧ (s'.server.queue = [] ∨ LeavesOut n edits s t s'))
    (h : LeavesOut n reconverts s t s') : Fares n t s' := by
  have hlacking := h hw fun x hx hbad => not_lt.mpr hbad.1 (hold x hx)
  have hlast := leftOpen_of_lacking hlacking fun _ => id
  rcases hfates with haccepted | ⟨hfiltered, hempty | hleft⟩
  · exact .clean hlacking.kept (.inl haccepted) hlast
  · refine .clean hlacking.kept (.inr ⟨hfiltered, fun x hx => ?_⟩) hlast
    rw [hempty] at hx
    cases hx
  · exact .passed hw hold hfiltered hleft

omit [EffectCodec] [Keyboard] in
theorem Fares.after (hfates : fates t = []) (hlast : leftOpen n (clientTrace t) ≠ some true)
    (h : Fares n t' s') : Fares n (t ++ t') s' := by
  have hboth : fates (t ++ t') = fates t' := by rw [fates_append, hfates, List.nil_append]
  cases h with
  | clean hkept hclean hrest =>
    rw [← hboth] at hclean
    exact .clean hkept hclean (clientTrace_append t t' ▸ leftOpen_append_ne hlast hrest)
  | kept hfiltered hlacks hrest =>
    rw [← hboth] at hfiltered
    exact .kept hfiltered hlacks (clientTrace_append t t' ▸ leftOpen_append_some hrest)

omit [Keyboard] in
/-- What is left open stays in the journal when the key is let through. -/
theorem passThrough_keeps {before : ShownSnapshot} {y : HazkeyJournalEntry}
    (hw : WellKept s.server.session.journal) (hy : s.server.queue = [y])
    (hsince : y.reconversionSince n = true) (h : (passThrough before).Yields s t () s') :
    y ∈ s'.server.queue ∧
      (leftOpen n (clientTrace t) = none ∨ leftOpen n (clientTrace t) = some true) := by
  have hmem : y ∈ s.server.queue := hy ▸ List.mem_singleton_self y
  have hpayload : (y.payload.any (·.reconverts)) = true :=
    (Bool.and_eq_true_iff.mp hsince).2
  obtain ⟨t₁, t₂, _, u, rfl, hresolve, hfilter⟩ := Prog.yields_bind.mp h
  obtain ⟨-, hnone, rfl⟩ := fates_filter hfilter
  rw [clientTrace_append, hnone, List.append_nil]
  rw [Prog.yields_when] at hresolve
  rcases hresolve with ⟨-, hresolve⟩ | ⟨-, rfl, -, rfl⟩
  · obtain ⟨t₃, t₄, b, v, rfl, hresolve, rfl, -, rfl⟩ := Prog.yields_bind.mp hresolve
    obtain ⟨t₅, t₆, response, w, rfl, htransact, happly⟩ := Prog.yields_bind.mp hresolve
    obtain ⟨hbeside, hframes, rfl⟩ :=
      transactV2DurableBestEffort_beside hy hw hpayload (sessionHost.embed_yields htransact)
    have hshown : Quiet w.server (clientTrace t₆) s'.server :=
      Prog.Frames.frame (R := sessionHost.Lifts Quiet) _ _ _ _ happly
    have hsilent : leftOpen n (clientTrace t₅) = none := by
      simp only [leftOpen, clientTrace, hframes, List.filterMap_nil, List.getLast?_nil]
    refine ⟨?_, ?_⟩
    · rw [show s'.server.queue = w.server.queue from hshown.journal.pending]
      exact hbeside
    · rw [List.append_nil, clientTrace_append, leftOpen_append, hsilent, Option.or_none]
      exact hshown.leftOpen
  · exact ⟨hmem, .inl rfl⟩

omit [Keyboard] in
/-- The reconversion alone may be let through and kept. -/
theorem reconvert_fares {action : HazkeySemanticAction} {before : ShownSnapshot}
    (hcodec : EncodesRevisions) (hw : WellKept s.server.session.journal)
    (hold : ∀ x ∈ s.server.queue, x.serial < n) (hn : n ≤ s.server.session.journal.recorded)
    (h : (do
      let succeeded ← reconvertV2Selection
      if succeeded = false then passThrough before
      else concludeKey action before true : FrontM Unit).Yields s t () s') :
    Fares n t s' := by
  obtain ⟨t₁, t₂, b, u, rfl, hreconvert, hrest⟩ := Prog.yields_bind.mp h
  have hkept : WellKept u.server.session.journal := by
    have hframes : Prog.Frames (LeavesOut n fun _ => false) reconvertV2Selection :=
      frames_reconvertV2Selection fun _ _ _ => performs_leavesOut rfl
    exact (hframes.frame _ _ _ _ hreconvert hw fun x hx hbad => Bool.false_ne_true hbad.2).kept
  have hfirst : fates t₁ = [] := by
    have hframes : Prog.Frames (Without FrontendRequest.isFate) reconvertV2Selection :=
      frames_reconvertV2Selection fun _ _ _ => inferInstance
    exact (hframes.frame _ _ _ _ hreconvert).fates
  rw [Prog.yields_ite] at hrest
  cases reconvertV2Selection_cases hcodec hw hold hn hreconvert with
  | settled hsettled hlast =>
    rcases hrest with ⟨-, hpass⟩ | ⟨-, hconclude⟩
    · have hleft := frames_passThrough (n := n) (K := edits) before
      exact .after hfirst hlast
        (.passed hkept hsettled (passThrough_fates hpass) (hleft.frame _ _ _ _ hpass))
    · have hdecides := concludeKey_decidesFate action before true _ _ _ hconclude
      have hleft := frames_concludeKey (n := n) (K := reconverts) action before true
      exact .after hfirst hlast (.concluded hkept hsettled
        (hdecides.imp_right fun ⟨hfiltered, hempty⟩ => ⟨hfiltered, .inl hempty⟩)
        (hleft.frame _ _ _ _ hconclude))
  | @kept y hy hsince hlast hb =>
    rcases hrest with ⟨-, hpass⟩ | ⟨hno, -⟩
    · obtain ⟨hmem, hopen⟩ := passThrough_keeps hkept hy hsince hpass
      have hfates : fates (t₁ ++ t₂) = [false] := by
        rw [fates_append, hfirst, passThrough_fates hpass]
        rfl
      refine .kept hfates (fun hlacks => hlacks y hmem ?_) ?_
      · simp only [HazkeyJournalEntry.reconversionSince, Bool.and_eq_true,
          decide_eq_true_eq] at hsince
        exact ⟨hsince.1, edits_of_reconverts hsince.2⟩
      · rw [clientTrace_append]
        rcases hopen with hnone | hopen
        · rw [leftOpen_append_none hnone, hlast]
        · exact leftOpen_append_some hopen
    · exact absurd hb hno

theorem Interprets.fares (hcodec : EncodesRevisions) (hw : WellKept s.server.session.journal)
    (hold : ∀ x ∈ s.server.queue, x.serial < n) (hn : n ≤ s.server.session.journal.recorded)
    (h : Interprets event s t s') : Fares n t s' := by
  have hconfig (c : EngineConfig) (t : List FrontEvent) (h : Fares n t s') :
      Fares n (⟨s, .config, c⟩ :: t) s' :=
    .after (t := [⟨s, .config, c⟩]) rfl (leftOpen_of_nil rfl) h
  cases h with
  | @cancelled t b _ hc hr =>
    have hfates : fates (t ++ [⟨s', .filter, ()⟩]) = [false] := by
      have hfirst : fates t = [] :=
        (Prog.Frames.frame (R := Without FrontendRequest.isFate) _ _ _ _ hr).fates
      rw [fates_append, hfirst]
      rfl
    have hleft : LeavesOut n edits s t s' := Prog.Frames.frame _ _ _ _ hr
    refine .passed hw hold hfates ?_
    exact Prog.Composes.trans _ _ _ _ _ hleft (leavesOut_of_server rfl rfl)
  | @passed c t _ ha hp =>
    have hleft := frames_passThrough (n := n) (K := edits) s.snapshot
    exact hconfig c t (.passed hw hold (passThrough_fates hp) (hleft.frame _ _ _ _ hp))
  | @consumed c action _ ha hk hu =>
    subst hu
    exact hconfig c _ (.clean hw (.inl rfl) (leftOpen_of_nil rfl))
  | @performed c action t _ ha hk hp =>
    refine hconfig c t ?_
    by_cases hreconvert : action.kind = .reconvert
    · unfold performKey at hp
      rw [hreconvert] at hp
      exact reconvert_fares hcodec (by exact hw) (by exact hold) (by exact hn) hp
    · have hleft := frames_performKey (n := n) event s.snapshot hreconvert
      exact .concluded (by exact hw) (by exact hold) (performKey_fates hreconvert hp)
        (hleft.frame _ _ _ _ hp)

theorem keyEventV2_fares (hcodec : EncodesRevisions) (hw : WellKept s.server.session.journal)
    (h : (keyEventV2 event).Yields s t () s') :
    t = [] ∨ Fares s.server.session.journal.recorded t s' := by
  rcases keyEventV2_cases h with ⟨-, rfl, -⟩ |
    ⟨-, t₁, t₂, recovered, u, rfl, hrecover, hcase⟩
  · exact .inl rfl
  right
  have hleft : LeavesOut s.server.session.journal.recorded (fun _ => true) s t₁ u :=
    Prog.Frames.frame _ _ _ _ hrecover
  have hlacking := hleft hw fun x hx hbad => not_lt.mpr hbad.1 (hw.recorded x hx)
  have hold : ∀ x ∈ u.server.queue, x.serial < s.server.session.journal.recorded :=
    fun x hx => not_le.mp fun hle => hlacking.lacks x hx ⟨hle, rfl⟩
  have hfirst : fates t₁ = [] :=
    (Prog.Frames.frame (R := Without FrontendRequest.isFate) _ _ _ _ hrecover).fates
  refine .after hfirst (leftOpen_of_lacking hlacking fun _ _ => rfl) ?_
  rcases hcase with ⟨-, rfl, rfl⟩ | ⟨-, hinterprets⟩
  · exact .clean hlacking.kept (.inl rfl) (leftOpen_of_nil rfl)
  · exact hinterprets.fares hcodec hlacking.kept hold hlacking.recorded

/-- In every state the session client can be in, a key is never given to the application and
taken, and one that is given to the application leaves nothing to replay, unless it was for a
reconversion whose last frame was not conclusively answered. -/
theorem keyEventV2_replay_iff (hcodec : EncodesRevisions) {context : ClientContext}
    {hasRecoveryHandler : Bool} {moves : List ClientMove}
    (hrun : ClientRun context hasRecoveryHandler moves s.server)
    (h : (keyEventV2 event).Yields s t () s') :
    ((false ∈ fates t → true ∉ fates t ∧ s'.LeavesNothing s.server.session.journal.recorded) ↔
      leftOpen s.server.session.journal.recorded (clientTrace t) ≠ some true) := by
  have hw : WellKept s.server.session.journal :=
    (Runs.invariant (J := fun s => WellKept s.session.journal)
      (wellKept_initial context hasRecoveryHandler)
      (fun m hw hv => ((program_keeps hw hv).orders hw).kept) hrun).1
  rcases keyEventV2_fares hcodec hw h with rfl | hfares
  · simp [fates, clientTrace]
  cases hfares with
  | clean hkept hfates hlast =>
    refine iff_of_true (fun hfiltered => ?_) hlast
    rcases hfates with haccepted | ⟨hfates, hlacks⟩
    · rw [haccepted] at hfiltered
      exact absurd hfiltered (by decide)
    · rw [hfates]
      exact ⟨by decide, leavesNothing_of_lacks hkept hlacks⟩
  | kept hfates hlacks hlast =>
    refine iff_of_false (fun hall => hlacks ?_) (fun hne => hne hlast)
    exact (hall (hfates ▸ List.mem_singleton_self false)).2.1

end

attribute [local instance] wireFormats deadEffects asciiKeyboard

/-- The answers of the server are given, and the surrounding text is the letters a, b and c
with the b selected. -/
def scriptedFrontend : (c : FrontendRequest) → List (Option ResponseEnvelope) →
    c.Answer × List (Option ResponseEnvelope)
  | .client c, answers => scriptedServer c answers
  | .surroundingText, answers => (some ⟨.valid "abc".toList, 2, 1⟩, answers)
  | c, answers => ((silentAnswer c ()).1, answers)

def henkanKey : KeyEvent := { key := { sym := FcitxKey.Henkan } }

def idleState : HazkeyState := { server := { session := { context := plainContext } } }

/-- The conversion key is pressed in a new session, that is opened but not answered further. -/
def henkanTrace : List FrontEvent :=
  (keyEventV2 henkanKey).execTrace scriptedFrontend [openedAs "S"] idleState

def henkanState : HazkeyState :=
  ((keyEventV2 henkanKey).exec scriptedFrontend [openedAs "S"] idleState).2.2

theorem henkanTrace_yields : (keyEventV2 henkanKey).Yields idleState henkanTrace () henkanState :=
  Prog.exec_yields (I := frontendPort) scriptedFrontend (keyEventV2 henkanKey) [openedAs "S"]
    idleState

theorem idleState_run : ClientRun plainContext true [] idleState.server := .nil

theorem encodesRevisions_wireFormats : EncodesRevisions := fun _ _ _ => rfl

theorem keyEventV2_replay_iff_henkan :
    ((false ∈ fates henkanTrace → true ∉ fates henkanTrace ∧ henkanState.LeavesNothing 0) ↔
      leftOpen 0 (clientTrace henkanTrace) ≠ some true) :=
  keyEventV2_replay_iff encodesRevisions_wireFormats idleState_run henkanTrace_yields

/-- The key goes to the application, and its reconversion stays in the journal. -/
theorem henkanKey_leaves_reconversion :
    ∃ (event : KeyEvent) (s s' : HazkeyState) (t : List FrontEvent),
      ClientRun plainContext true [] s.server ∧ s.protocolAvailable = true ∧
        (keyEventV2 event).Yields s t () s' ∧ fates t = [false] ∧
        ∃ x ∈ s'.server.queue, s.server.session.journal.recorded ≤ x.serial ∧
          x.payload = some (.reconvert "b".toList "a".toList "c".toList 1 0) := by
  refine ⟨henkanKey, idleState, henkanState, henkanTrace, idleState_run, rfl, henkanTrace_yields,
    by decide +kernel, ?_⟩
  have hqueue : (henkanState.server.queue.any fun x => 0 ≤ x.serial &&
      x.payload = some (.reconvert "b".toList "a".toList "c".toList 1 0)) = true := by
    decide +kernel
  obtain ⟨x, hx, hcheck⟩ := List.any_eq_true.mp hqueue
  simp only [Bool.and_eq_true, decide_eq_true_eq] at hcheck
  exact ⟨x, hx, hcheck.1, hcheck.2⟩

end Hazkey.SessionClient
