import Hazkey.ClientFraming
import Hazkey.HazkeyState

/-! What the adapter does at a key, as far as it does not depend on what the session
client does. -/

namespace Hazkey.SessionClient

open ServiceProgram

abbrev FrontRelation := HazkeyState → List FrontEvent → HazkeyState → Prop

/-- Neither of the session client nor a fate of the key. -/
def FrontendRequest.quiet : FrontendRequest → Bool
  | .client _ | .transacts _ | .filter | .filterAndAccept => false
  | _ => true

section

variable [WireCodec]

/-- The relations met by what is shown and delivered. -/
class Shows (R : FrontRelation) : Prop extends Prog.Composes R where
  asks : ∀ c : FrontendRequest, c.quiet = true → ∀ s a, R s [⟨s, c, a⟩] s
  changes : ∀ s s' : HazkeyState, s'.server = s.server → R s [] s'
  claims : ∀ effectID, Prog.Frames R (ofClient (shouldApplyEffect effectID))

/-- The relations met by the work that was deferred, too. -/
class Resumes (R : FrontRelation) : Prop extends Shows R where
  flushes : ∀ tryConnect, Prog.Frames R (ofClient (flushPendingV2 tryConnect))

/-- The relations met by all calls of the session client that carry no action of the key. -/
class Serves (R : FrontRelation) : Prop extends Resumes R where
  resolves : ∀ commit, Prog.Frames R
    (ofClient (transactV2DurableBestEffort ⟨[], 0, some (.resolvePendingLearning commit)⟩))
  abandons : Prog.Frames R (ofClient abandonUnconfirmedInput)

/-- The relations met by the transaction of an action. -/
class Performs (R : FrontRelation) (action : Action) : Prop where
  noted : ∀ s, R s [⟨s, .transacts action, ()⟩] s
  performed : Prog.Frames R (ofClient (transactV2 ⟨[], 0, some action⟩ true))

variable {R : FrontRelation} [h : Shows R]

omit [WireCodec] in
theorem frames_request {c : FrontendRequest} (hc : c.quiet = true) : Prog.Frames R (request c) :=
  Prog.frames_ask (h.asks c hc)

omit [WireCodec] in
theorem frames_change {f : HazkeyState → HazkeyState} (hf : ∀ s, (f s).server = s.server) :
    Prog.Frames R (Prog.modify f) :=
  Prog.frames_modify fun s => h.changes s (f s) (hf s)

variable [EffectCodec]

omit [EffectCodec] in
instance : Prog.Frames R renderV2Snapshot :=
  .bind (frames_request rfl) fun _ => .bind inferInstance fun _ => frames_request rfl

omit [EffectCodec] in
instance : Prog.Frames R discardLocalComposition :=
  .bind (frames_change fun _ => rfl) fun _ => frames_request rfl

omit [EffectCodec] in
instance : Prog.Frames R cancelLiveConversionTimer := frames_change fun _ => rfl

omit [EffectCodec] in
instance : Prog.Frames R readSurroundingText := by
  have hread : Prog.Frames R (request .surroundingText) := frames_request rfl
  unfold readSurroundingText
  infer_instance

omit [EffectCodec] in
instance (notification : Option Text) : Prog.Frames R (showNotification notification) := by
  cases notification with
  | none => exact Prog.frames_pure ()
  | some text => exact frames_request rfl

instance (effect : ClientEffect) (notification : Option Text) :
    Prog.Frames R (applyEffect effect notification) := by
  refine .bind (h.claims _) fun fresh => ?_
  split
  · exact Prog.frames_pure _
  cases EffectCodec.decodeEffect effect.body with
  | unspecified => exact Prog.frames_pure _
  | commitText text => exact .bind (frames_request rfl) fun _ => Prog.frames_pure _
  | deleteSurroundingText before after =>
    have hdelete (offset : Int) (size : Nat) :
        Prog.Frames R (request (.deleteSurroundingText offset size)) := frames_request rfl
    dsimp only
    infer_instance
  | switchInputMode mode => exact Prog.frames_pure _
  | notify message => exact Prog.frames_pure _
  | scheduleLiveConversion delayMsec scheduledRevision =>
    exact .bind (frames_change fun _ => rfl) fun _ => Prog.frames_pure _

instance (effects : List ClientEffect) (notification : Option Text) :
    Prog.Frames R (applyEffects effects notification) := by
  induction effects generalizing notification with
  | nil => exact Prog.frames_pure _
  | cons effect effects ih => exact .bind inferInstance fun notification => ih notification

instance (response : Option ResponseEnvelope) : Prog.Frames R (applyV2Response response) := by
  cases response with
  | none => exact .bind inferInstance fun _ => Prog.frames_pure _
  | some r =>
    unfold applyV2Response
    dsimp only
    cases r.resultSnapshot with
    | none => exact Prog.frames_pure _
    | some snapshot =>
      refine .bind (frames_request rfl) fun rest => .bind (frames_change fun _ => rfl) fun _ => ?_
      infer_instance

instance (action : Action) [ha : Performs R action] : Prog.Frames R (transact action) :=
  .bind (Prog.frames_ask fun s _ => ha.noted s) fun _ =>
    .bind ha.performed fun _ => inferInstance

theorem frames_updateSurroundingTextV2
    (ha : ∀ surrounding, Performs R (updateSurroundingContext surrounding)) :
    Prog.Frames R updateSurroundingTextV2 := by
  unfold updateSurroundingTextV2
  infer_instance

theorem frames_dispatchV2 {action : HazkeySemanticAction} {insertedText : Text}
    (ha : ∀ dispatched, dispatchedAction action insertedText = some dispatched →
      Performs R dispatched) : Prog.Frames R (dispatchV2 action insertedText) := by
  unfold dispatchV2
  cases hd : dispatchedAction action insertedText with
  | none => exact Prog.frames_pure _
  | some dispatched =>
    have hperforms := ha dispatched hd
    dsimp only
    infer_instance

theorem frames_transactCandidate {name : UInt64 → CandidateSnapshot → Action} {index : Int}
    (ha : ∀ generation item, Performs R (name generation item)) :
    Prog.Frames R (transactCandidate name index) := by
  refine .bind inferInstance fun s => ?_
  cases s.snapshot.candidateWindow.candidateAt index with
  | none => exact Prog.frames_pure _
  | some item =>
    dsimp only
    infer_instance

theorem frames_reconvertV2Selection
    (ha : ∀ surrounding action, reconversion surrounding = some action → Performs R action) :
    Prog.Frames R reconvertV2Selection := by
  refine .bind inferInstance fun surrounding => ?_
  cases haction : surrounding.bind reconversion with
  | none => exact Prog.frames_pure _
  | some action =>
    obtain ⟨x, -, hx⟩ := Option.bind_eq_some_iff.mp haction
    have hperforms := ha x action hx
    dsimp only
    infer_instance

end

section

variable [WireCodec] [EffectCodec] {R : FrontRelation}

instance [hR : Resumes R] (tryConnect requireSuccess : Bool) :
    Prog.Frames R (flushDeferredActions tryConnect requireSuccess) := by
  refine .bind (hR.flushes tryConnect) fun flushed => ?_
  infer_instance

instance [Resumes R] : Prog.Frames R recoverFirst := by
  unfold recoverFirst
  infer_instance

instance [hR : Serves R] (commit : Bool) : Prog.Frames R (resolvePendingLearning commit) :=
  .bind (hR.resolves commit) fun _ => inferInstance

end

/-! What is not done. -/

/-- Requests that neither the session client makes nor what is shown and delivered needs. -/
class Notable (P : FrontendRequest → Bool) : Prop where
  client : ∀ c, P (.client c) = false
  quiet : ∀ c : FrontendRequest, c.quiet = true → P c = false

/-- None of the requests is made. -/
def Without (P : FrontendRequest → Bool) (_ : HazkeyState) (t : List FrontEvent)
    (_ : HazkeyState) : Prop := ∀ e ∈ t, P e.call = false

section

variable {P : FrontendRequest → Bool}

instance : Prog.Composes (Without P) where
  refl _ := by simp [Without]
  trans _ _ _ _ _ h h' := List.forall_mem_append.mpr ⟨h, h'⟩

theorem without_request {c : FrontendRequest} (hc : P c = false) :
    Prog.Frames (Without P) (request c) :=
  Prog.frames_ask fun _ _ => by simp [Without, hc]

variable [hP : Notable P]

theorem without_client {α : Type} (p : ClientM α) : Prog.Frames (Without P) (ofClient p) := by
  refine Host.embed_frames sessionHost (fun _ _ => by simp [Without]) (fun c => ?_) p
  cases c with
  | recoveryHandler =>
    have hmodify : Prog.Frames (Without P) (Prog.modify (·.discarded)) :=
      Prog.frames_modify fun _ => by simp [Without]
    exact .bind (without_request (hP.client _)) fun _ =>
      .bind hmodify fun _ => without_request (hP.quiet _ rfl)
  | transport channel purpose frame tryConnect => exact without_request (hP.client _)
  | othersDraw => exact without_request (hP.client _)

instance [WireCodec] : Serves (Without P) where
  asks c hc _ _ := by simp [Without, hP.quiet c hc]
  changes _ _ _ := by simp [Without]
  claims _ := without_client _
  resolves _ := without_client _
  flushes _ := without_client _
  abandons := without_client _

theorem performs_without [WireCodec] {action : Action} (ha : P (.transacts action) = false) :
    Performs (Without P) action where
  noted _ := by simp [Without, ha]
  performed := without_client _

end

/-! The fate of the key. -/

def FrontendRequest.fate : FrontendRequest → Option Bool
  | .filter => some false
  | .filterAndAccept => some true
  | _ => none

/-- The fates the key was given: whether it was accepted. -/
def fates (t : List FrontEvent) : List Bool := t.filterMap fun e => e.call.fate

def FrontendRequest.isFate (c : FrontendRequest) : Bool := c.fate.isSome

instance : Notable FrontendRequest.isFate where
  client _ := rfl
  quiet c hc := by
    cases c with
    | client | transacts | filter | filterAndAccept => cases hc
    | _ => rfl

@[simp] theorem fates_append (t t' : List FrontEvent) : fates (t ++ t') = fates t ++ fates t' :=
  List.filterMap_append

theorem Without.fates {s s' : HazkeyState} {t : List FrontEvent}
    (h : Without FrontendRequest.isFate s t s') : fates t = [] := by
  refine List.filterMap_eq_nil_iff.mpr fun e he => ?_
  exact Option.not_isSome_iff_eq_none.mp (Bool.eq_false_iff.mp (h e he))

instance [WireCodec] (action : Action) : Performs (Without FrontendRequest.isFate) action :=
  performs_without rfl

/-! What a key leads to. -/

section

variable [WireCodec] [EffectCodec] [Keyboard] {event : KeyEvent} {s s' : HazkeyState}
  {t : List FrontEvent}

/-- How a key was interpreted once nothing was deferred any more. -/
inductive Interprets (event : KeyEvent) (s : HazkeyState) :
    List FrontEvent → HazkeyState → Prop
  | cancelled {t : List FrontEvent} {b : Bool} {s' : HazkeyState}
      (hc : isPendingLearningCancellationKey event.key = true)
      (hr : (resolvePendingLearning false).Yields s t b s') :
      Interprets event s (t ++ [⟨s', .filter, ()⟩]) s'
  | passed {c : EngineConfig} {t : List FrontEvent} {s' : HazkeyState}
      (ha : ∀ action, keyAction event s.snapshot c.normalSpaceFullwidth = some action →
        action.kind = .passThrough) (hp : (passThrough s.snapshot).Yields s t () s') :
      Interprets event s (⟨s, .config, c⟩ :: t) s'
  | consumed {c : EngineConfig} {action : HazkeySemanticAction} {u : HazkeyState}
      (ha : keyAction event s.snapshot c.normalSpaceFullwidth = some action)
      (hk : action.kind = .consume) (hu : u = { s with liveConversion := none }) :
      Interprets event s [⟨s, .config, c⟩, ⟨u, .filterAndAccept, ()⟩] u
  | performed {c : EngineConfig} {action : HazkeySemanticAction} {t : List FrontEvent}
      {s' : HazkeyState} (ha : keyAction event s.snapshot c.normalSpaceFullwidth = some action)
      (hk : action.kind ≠ .passThrough)
      (hp : (performKey event action s.snapshot).Yields { s with liveConversion := none } t () s') :
      Interprets event s (⟨s, .config, c⟩ :: t) s'

theorem interpretKey_cases (h : (interpretKey event).Yields s t () s') :
    Interprets event s t s' := by
  obtain ⟨t₁, t₂, x, u, rfl, ⟨rfl, rfl, rfl⟩, hrest⟩ := Prog.yields_bind.mp h
  rw [List.nil_append]
  rw [Prog.yields_ite] at hrest
  rcases hrest with ⟨⟨-, hc⟩, hcancel⟩ | ⟨-, hmap⟩
  · obtain ⟨t₃, t₄, b, v, rfl, hr, hfilter⟩ := Prog.yields_bind.mp hcancel
    obtain ⟨rfl, rfl⟩ := Prog.yields_ask.mp hfilter
    exact .cancelled hc hr
  obtain ⟨t₃, t₄, c, v, rfl, hconfig, hrest⟩ := Prog.yields_bind.mp hmap
  obtain ⟨rfl, rfl⟩ := Prog.yields_ask.mp hconfig
  obtain ⟨t₅, t₆, x, u, rfl, ⟨rfl, rfl, rfl⟩, hact⟩ := Prog.yields_bind.mp hrest
  cases ha : keyAction event u.snapshot c.normalSpaceFullwidth with
  | none =>
    rw [ha] at hact
    exact .passed (fun action h => by rw [ha] at h; cases h) hact
  | some action =>
    rw [ha] at hact
    dsimp only at hact
    rw [Prog.yields_ite] at hact
    rcases hact with ⟨hk, hpass⟩ | ⟨hk, hact⟩
    · refine .passed (fun other h => ?_) hpass
      rw [ha] at h
      obtain rfl := Option.some.inj h
      exact hk
    · obtain ⟨t₇, t₈, _, w, rfl, ⟨rfl, -, rfl⟩, hact⟩ := Prog.yields_bind.mp hact
      rw [Prog.yields_ite] at hact
      rcases hact with ⟨hconsume, hask⟩ | ⟨-, hperform⟩
      · obtain ⟨rfl, rfl⟩ := Prog.yields_ask.mp hask
        exact .consumed ha hconsume rfl
      · exact .performed ha hk hperform

/-- A release does nothing; a press is taken while the deferred work cannot be done, and is
interpreted after it. -/
theorem keyEventV2_cases (h : (keyEventV2 event).Yields s t () s') :
    event.isRelease = true ∧ t = [] ∧ s' = s ∨
      event.isRelease = false ∧ ∃ t₁ t₂ recovered u, t = t₁ ++ t₂ ∧
        recoverFirst.Yields s t₁ recovered u ∧
        (recovered = false ∧ t₂ = [⟨s', .filterAndAccept, ()⟩] ∧
            s' = { u with protocolAvailable := false } ∨
          recovered = true ∧ Interprets event u t₂ s') := by
  unfold keyEventV2 at h
  rw [Prog.yields_ite] at h
  rcases h with ⟨hrelease, rfl, -, rfl⟩ | ⟨hpress, h⟩
  · exact .inl ⟨hrelease, rfl, rfl⟩
  · obtain ⟨t₁, t₂, recovered, u, rfl, hr, hrest⟩ := Prog.yields_bind.mp h
    refine .inr ⟨Bool.eq_false_iff.mpr hpress, t₁, t₂, recovered, u, rfl, hr, ?_⟩
    rw [Prog.yields_ite] at hrest
    rcases hrest with ⟨hfailed, hrest⟩ | ⟨hrecovered, hrest⟩
    · obtain ⟨t₃, t₄, _, v, rfl, ⟨rfl, -, rfl⟩, hask⟩ := Prog.yields_bind.mp hrest
      obtain ⟨rfl, rfl⟩ := Prog.yields_ask.mp hask
      exact .inl ⟨hfailed, rfl, rfl⟩
    · exact .inr ⟨by simpa using hrecovered, interpretKey_cases hrest⟩

end

end Hazkey.SessionClient
