import Hazkey.ClientEvaluation
import Hazkey.ClientFraming

/-! A session client of a secure context holds no text. -/

namespace Hazkey.SessionClient

open ServiceProgram

/-- Nothing is kept from which secure text could be read. -/
def Textless (s : HazkeyClientSession) : Prop :=
  s.context.secureInput = true → s.journal.pending = [] ∧ s.journal.lastSnapshot = [] ∧
    s.recoveryCheckpoint = [] ∧ s.fallbackComposition = []

def Withholds (s : ClientState) (t : List ClientEvent) (s' : ClientState) : Prop :=
  SameContext s t s' ∧ (Textless s.session → Textless s'.session)

theorem KeepsEntries.textless_of {s u : HazkeyClientSession} (h : KeepsEntries s u)
    (hs : Textless s) : Textless u := by
  intro hsecure
  rw [h.context] at hsecure
  obtain ⟨hpending, hrest⟩ := hs hsecure
  exact ⟨h.pending.trans hpending, h.textless hsecure hrest⟩

theorem textless_cleared (s : HazkeyClientSession) : Textless s.cleared :=
  fun _ => ⟨rfl, rfl, rfl, rfl⟩

instance : Prog.Composes Withholds where
  refl _ := ⟨rfl, id⟩
  trans _ _ _ _ _ h h' := ⟨h'.1.trans h.1, fun hs => h'.2 (h.2 hs)⟩

instance (purpose : FramePurpose) (payload : RequestPayload) :
    Admits Withholds purpose payload := ⟨fun _ _ _ _ _ => ⟨rfl, id⟩⟩

instance : Follows Withholds where
  change _ hf s := ⟨(hf.keeps s.session).context, (hf.keeps s.session).textless_of⟩
  unbind _ _ := ⟨rfl, id⟩
  count _ _ _ := ⟨rfl, id⟩
  closing _ := inferInstance
  auxiliary _ _ _ := inferInstance
  draw _ _ := ⟨rfl, id⟩
  notify _ := ⟨rfl, id⟩
  opening := frames_openSession fun _ _ => ⟨rfl, id⟩

section

variable [WireCodec]

instance : Abandons Withholds where
  bind _ _ _ := ⟨rfl, id⟩
  abandon preferredCommit := by
    have hclear : Prog.Frames Withholds (update fun s => (s.bound [] 0).cleared) :=
      Prog.frames_modify fun s => ⟨rfl, fun _ => textless_cleared _⟩
    unfold finalizeWithoutUITarget
    infer_instance

instance : Journals Withholds where
  replace _ := inferInstance
  journaled _ := inferInstance
  direct _ := inferInstance
  rewrite g hg := by
    have hset : Prog.Frames Withholds (update fun s => s.withJournal (g s.journal).2) := by
      refine Prog.frames_modify fun s => ⟨rfl, fun hs hsecure => ?_⟩
      obtain ⟨hpending, hsnapshot, hrest⟩ := hs hsecure
      have hrewrites := hg.rewrites s.session.journal
      exact ⟨hrewrites.pending_nil hpending, hrewrites.lastSnapshot.trans hsnapshot, hrest⟩
    unfold journaling
    infer_instance
  acknowledge requestID := by
    refine Prog.frames_modify fun s => ⟨rfl, fun hs hsecure => ?_⟩
    obtain ⟨hpending, hrest⟩ := hs hsecure
    refine ⟨?_, hrest⟩
    show s.session.journal.pending.filter _ = []
    rw [hpending]
    rfl

instance (action : HandleImeAction) : Prog.Frames SameContext (recordAction action) := by
  have hset (g : HazkeyRecoveryJournal → Bool × HazkeyRecoveryJournal) :
      Prog.Frames SameContext (journaling g) := by
    have hset : Prog.Frames SameContext (update fun s => s.withJournal (g s.journal).2) :=
      Prog.frames_modify fun _ => rfl
    unfold journaling
    infer_instance
  unfold recordAction
  cases WireCodec.serializeAction action <;> infer_instance

variable {s s' : ClientState} {t : List ClientEvent}

omit [WireCodec] in
/-- Where the context is not secure and does not change there is nothing to withhold. -/
theorem withholds_of_plain (h : SameContext s t s') (hs : s.session.context.secureInput = false) :
    Withholds s t s' := by
  refine ⟨h, fun _ hsecure => ?_⟩
  rw [h, hs] at hsecure
  cases hsecure

theorem transactV2_withholds {action : HandleImeAction} {tryConnect : Bool}
    {response : Option ResponseEnvelope} (h : (transactV2 action tryConnect).Yields s t response s') :
    Withholds s t s' := by
  obtain ⟨t₁, t₂, opened, u, rfl, hopen, hrest⟩ := Prog.yields_bind.mp h
  obtain ⟨t₃, t₄, v, w, rfl, ⟨rfl, rfl, rfl⟩, hbody⟩ := Prog.yields_bind.mp hrest
  have hfirst : Withholds s t₁ w := Prog.Frames.frame _ _ _ _ hopen
  refine Prog.Composes.trans (R := Withholds) _ _ _ _ _ hfirst ?_
  rw [Prog.yields_ite] at hbody
  rcases hbody with ⟨-, rfl, -, rfl⟩ | ⟨-, hbody⟩
  · exact Prog.Composes.refl _
  · rw [Prog.yields_ite] at hbody
    rcases hbody with ⟨-, hbody⟩ | ⟨hplain, hbody⟩
    · have hclear : Prog.Frames Withholds (update fun s => s.withJournal s.journal.clear) := by
        refine Prog.frames_modify fun s => ⟨rfl, fun hs hsecure => ?_⟩
        exact ⟨rfl, rfl, (hs hsecure).2.2⟩
      exact Prog.Frames.frame (R := Withholds) _ _ _ _ hbody
    · exact withholds_of_plain (Prog.Frames.frame (R := SameContext) _ _ _ _ hbody)
        (Bool.eq_false_iff.mpr hplain)

theorem transactV2DurableBestEffort_withholds {action : HandleImeAction}
    {response : Option ResponseEnvelope}
    (h : (transactV2DurableBestEffort action).Yields s t response s') : Withholds s t s' := by
  obtain ⟨t₁, t₂, v, u, rfl, ⟨rfl, rfl, rfl⟩, hbody⟩ := Prog.yields_bind.mp h
  rw [Prog.yields_ite] at hbody
  rcases hbody with ⟨-, rfl, -, rfl⟩ | ⟨hplain, hbody⟩
  · exact Prog.Composes.refl _
  · exact withholds_of_plain (Prog.Frames.frame (R := SameContext) _ _ _ _ hbody)
      (Bool.eq_false_iff.mpr fun hsecure => hplain (.inl hsecure))

omit [WireCodec] in
/-- A context is entered without text, if it is secure. -/
theorem textless_inContext {s : HazkeyClientSession} {context : ClientContext} (hs : Textless s) :
    Textless ((if (evaluateHazkeyClientContextTransition s.context context).clearPreedit = true
      then s.cleared else s).inContext context) := by
  by_cases hclear : (evaluateHazkeyClientContextTransition s.context context).clearPreedit = true
  · rw [if_pos hclear]
    exact fun _ => ⟨rfl, rfl, rfl, rfl⟩
  · rw [if_neg hclear]
    intro hsecure
    have hsame : s.context.secureInput = context.secureInput := by
      simp only [evaluateHazkeyClientContextTransition, Bool.or_eq_true, decide_eq_true_eq,
        not_or, not_not] at hclear
      exact hclear.1
    exact hs (hsame.trans hsecure)

theorem updateContext_textless {context : ClientContext} {b : Bool}
    (h : (updateContext context).Yields s t b s') (hs : Textless s.session) :
    Textless s'.session := by
  obtain ⟨t₁, t₂, v, u, rfl, ⟨rfl, rfl, rfl⟩, hbody⟩ := Prog.yields_bind.mp h
  dsimp only at hbody
  rw [Prog.yields_ite] at hbody
  rcases hbody with ⟨-, rfl, -, rfl⟩ | ⟨-, hbody⟩
  · exact hs
  · obtain ⟨t₃, t₄, closed, v, rfl, hclose, hrest⟩ := Prog.yields_bind.mp hbody
    have hclosed : Withholds u t₃ v := by
      unfold closeForContext at hclose
      exact Prog.Frames.frame _ _ _ _ hclose
    rw [Prog.yields_ite] at hrest
    rcases hrest with ⟨-, rfl, -, rfl⟩ | ⟨-, hrest⟩
    · exact hclosed.2 hs
    · obtain ⟨t₅, t₆, x, w, rfl, henter, hopen⟩ := Prog.yields_bind.mp hrest
      have hentered : Textless w.session := by
        rw [Prog.yields_when] at henter
        rcases henter with ⟨-, -, -, rfl⟩ | ⟨-, -, -, rfl⟩
        · have hin := @textless_inContext _ context (hclosed.2 hs)
          rwa [hclosed.1] at hin
        · exact hclosed.2 hs
      have hframe : Withholds w t₆ s' := Prog.Frames.frame _ _ _ _ hopen
      exact hframe.2 hentered

theorem program_textless {call : ClientCall} {value : ClientAnswer}
    (h : call.program.Yields s t value s') (hs : Textless s.session) : Textless s'.session := by
  have hframes {α : Type} {p : ClientM α} {a : α} [hp : Prog.Frames Withholds p]
      (hY : p.Yields s t a s') : Textless s'.session := (hp.frame _ _ _ _ hY).2 hs
  cases call with
  | openSession tryConnect | close tryConnect | abandonUnconfirmedInput
  | finalizeWithoutUITarget preferredCommit | transactV2BestEffort action
  | shouldApplyEffect effectID =>
    obtain ⟨a, hY, -⟩ := Prog.yields_map.mp h
    exact hframes hY
  | updateContext context =>
    obtain ⟨a, hY, -⟩ := Prog.yields_map.mp h
    exact updateContext_textless hY hs
  | transactV2 action tryConnect =>
    obtain ⟨a, hY, -⟩ := Prog.yields_map.mp h
    exact (transactV2_withholds hY).2 hs
  | transactV2DurableBestEffort action =>
    obtain ⟨a, hY, -⟩ := Prog.yields_map.mp h
    exact (transactV2DurableBestEffort_withholds hY).2 hs
  | flushPendingV2 tryConnect =>
    obtain ⟨a, hY, -⟩ := Prog.yields_map.mp h
    have hclear : Prog.Frames Withholds
        (update fun s => (s.withJournal s.journal.clear).clearEffects) := by
      refine Prog.frames_modify fun s => ⟨rfl, fun hs hsecure => ?_⟩
      exact ⟨rfl, rfl, (hs hsecure).2.2⟩
    unfold flushPendingV2 at hY
    exact hframes hY

/-- Between operations the client of a secure context holds no text. -/
theorem client_retains_no_secure_text {context : ClientContext} {hasRecoveryHandler : Bool}
    {moves : List ClientMove} (h : ClientRun context hasRecoveryHandler moves s) :
    Textless s.session ∧ ∀ m ∈ moves, Textless m.before.session ∧ Textless m.after.session := by
  have hinitial : Textless { context := context, hasRecoveryHandler := hasRecoveryHandler } :=
    fun _ => ⟨rfl, rfl, rfl, rfl⟩
  obtain ⟨hs, hmoves⟩ := Runs.invariant (J := fun s => Textless s.session) hinitial
    (fun m hm hv => program_textless hv hm) h
  exact ⟨hs, fun m hm => (hmoves m hm).2⟩

end

attribute [local instance] wireFormats

/-- A composition is confirmed, the input turns secure, and another action follows. -/
theorem client_retains_no_secure_text_transition :
    let e := evaluateClient plainContext
      [.updateContext plainContext, .transactV2 (insertion "a") true,
        .updateContext { plainContext with secureInput := true },
        .transactV2 (insertion "b") true]
      [openedAs "S", answeredWith .success (some (composed 1 "a" (some [1]) [])), closedSession,
        openedAs "T", answeredWith .success (some (composed 1 "b" (some [2]) []))]
    e.2.2.session.context.secureInput = true ∧ e.2.2.session.revision = 1 ∧
      Textless e.2.2.session := by
  refine ⟨by decide +kernel, by decide +kernel, ?_⟩
  exact (client_retains_no_secure_text (evaluateClient_run _ _ _)).1

end Hazkey.SessionClient
