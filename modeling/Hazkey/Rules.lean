import Hazkey.Reducer

/-! What the reducer owes and may expect of a converter, and the rules of its
helper programs over sessions. -/

namespace Hazkey

open ServiceProgram

/-- The calls that are allowed in a session, secure or not. -/
def Benign (s : CompositionSession) : ConverterCall → Prop
  | .prepareSpeculativeConversion _ => s.policy.secureInput = false
  | .stageLearning _ _ => s.policy.secureInput = false
  | .updateLearningData _ => s.policy.secureInput = false
  | .commitLearning => s.policy.secureInput = false
  | .forget _ => s.policy.secureInput = false
  | .candidates _ o | .segmentCandidates _ o | .realtimeCandidates _ o | .predictions _ o =>
    s.policy.secureInput = true →
      o.allowLearning = false ∧ o.zenzaiEnabled = false ∧ o.secureInput = true
  | _ => True

/-- What is assumed of the answers of a converter. -/
abbrev Promise := (c : ConverterCall) → c.Answer → Prop

/-- The calls whose answers say anything. -/
def Informative : ConverterCall → Prop
  | .supportsSegmentEditing | .display _ | .inputCursorPosition _ _ | .candidates _ _
  | .segmentCandidates _ _ | .realtimeCandidates _ _ | .predictions _ _ | .stageLearning _ _ => True
  | _ => False

def portContract (P : Promise) : Contract converterPort CompositionSession where
  requires := Benign
  ensures c a := Informative c → P c a

/-- Every run of `p` from a session makes benign calls only, and ends in `Q` if
the answers are as promised. -/
def Meets {α : Type} (P : Promise) (p : ReducerM α) (Q : α → CompositionSession → Prop)
    (s : CompositionSession) : Prop :=
  p.wp ImeReducer.session (portContract P) Q s

variable {α : Type} {P : Promise} {s : CompositionSession}

@[simp] theorem meets_pure (a : α) (Q : α → CompositionSession → Prop) :
    Meets P (pure a) Q s = Q a s := rfl

@[simp] theorem meets_bind {β : Type} (p : ReducerM α) (f : α → ReducerM β)
    (Q : β → CompositionSession → Prop) :
    Meets P (p >>= f) Q s = Meets P p (fun a u => Meets P (f a) Q u) s :=
  Prog.wp_bind p f Q s

@[simp] theorem meets_ite (c : Prop) [Decidable c] (p q : ReducerM α)
    (Q : α → CompositionSession → Prop) :
    Meets P (if c then p else q) Q s = if c then Meets P p Q s else Meets P q Q s :=
  Prog.wp_ite c p q Q s

@[simp] theorem meets_when (c : Prop) [Decidable c] (p : ReducerM Unit)
    (Q : Unit → CompositionSession → Prop) :
    Meets P (Prog.when c p) Q s = if c then Meets P p Q s else Q () s :=
  Prog.wp_when c p Q s

theorem Meets.mono {p : ReducerM α} {Q R : α → CompositionSession → Prop} (h : Meets P p Q s)
    (hQR : ∀ a u, Q a u → R a u) : Meets P p R s := Prog.wp_mono h hQR

theorem session_surjective : Function.Surjective ImeReducer.session :=
  fun s => ⟨.initial s false, rfl⟩

@[simp] theorem meets_session (Q : CompositionSession → CompositionSession → Prop) :
    Meets P session Q s = Q s s :=
  Prog.wp_read_view session_surjective Pure.pure Q s

@[simp] theorem meets_update (f : CompositionSession → CompositionSession)
    (Q : Unit → CompositionSession → Prop) : Meets P (update f) Q s = Q () (f s) :=
  Prog.wp_modify_view session_surjective (fun _ => rfl) Q s

/-- A change that no session shows. -/
theorem meets_modify {f : ImeReducer → ImeReducer} (h : ∀ r, (f r).session = r.session)
    (Q : Unit → CompositionSession → Prop) : Meets P (Prog.modify f) Q s = Q () s :=
  Prog.wp_modify_view (g := id) session_surjective h Q s

/-- The rule of a call. -/
theorem meets_converter {c : ConverterCall} {Q : c.Answer → CompositionSession → Prop}
    (hc : Benign s c) (hQ : ∀ a, (Informative c → P c a) → Q a s) :
    Meets P (converter c) Q s := ⟨hc, hQ⟩

variable {Q : Unit → CompositionSession → Prop}

/-- Of a program that reads the whole reducer only the session is known. -/
theorem meets_read (k : ImeReducer → ReducerM α) (Q : α → CompositionSession → Prop) :
    Meets P (Prog.read >>= k) Q s = ∀ r : ImeReducer, r.session = s → Meets P (k r) Q s := by
  rw [meets_bind]
  rfl

theorem forall_session {C : Prop} : (∀ r : ImeReducer, r.session = s → C) = C :=
  propext ⟨fun h => h (.initial s false) rfl, fun h _ _ => h⟩

/-! Calls for their effect on the converter alone. -/

theorem effect_iff {B I : Prop} {R F : Unit → Prop} (hB : B) (hI : ¬ I) :
    (B ∧ ∀ a : Unit, (I → R a) → F a) = F () :=
  propext ⟨fun h => h.2 () fun hi => absurd hi hI, fun h => ⟨hB, fun _ _ => h⟩⟩

@[simp] theorem meets_purgeSensitiveState :
    @Meets Unit P (converter .purgeSensitiveState) Q s = Q () s := effect_iff trivial id

@[simp] theorem meets_stopComposition :
    @Meets Unit P (converter .stopComposition) Q s = Q () s := effect_iff trivial id

@[simp] theorem meets_retireCandidateWindow :
    @Meets Unit P (converter .retireCandidateWindow) Q s = Q () s := effect_iff trivial id

@[simp] theorem meets_invalidateSpeculativeConversion (reason : SpeculationInvalidationReason) :
    @Meets Unit P (converter (.invalidateSpeculativeConversion reason)) Q s = Q () s :=
  effect_iff trivial id

@[simp] theorem meets_setCompletedData (c : ConverterCandidate) :
    @Meets Unit P (converter (.setCompletedData c)) Q s = Q () s := effect_iff trivial id

@[simp] theorem meets_resolveStagedLearning (commit : Bool) (token : ConverterLearningToken) :
    Meets P (resolveStagedLearning commit token) Q s = Q () s := by
  cases commit <;> exact effect_iff trivial id

@[simp] theorem meets_lockCandidateOrder : Meets P lockCandidateOrder Q s = Q () s := by
  rw [lockCandidateOrder, meets_read, ← forall_session (C := Q () s)]
  exact forall_congr fun _ => forall_congr fun _ => effect_iff trivial id

/-! Calls that a secure session must not make. -/

theorem meets_commitLearning (h : s.policy.secureInput = false) :
    @Meets Unit P (converter .commitLearning) Q s = Q () s := effect_iff h id

theorem meets_updateLearningData (h : s.policy.secureInput = false) (c : ConverterCandidate) :
    @Meets Unit P (converter (.updateLearningData c)) Q s = Q () s := effect_iff h id

theorem meets_forget (h : s.policy.secureInput = false) (c : ConverterCandidate) :
    @Meets Unit P (converter (.forget c)) Q s = Q () s := effect_iff h id

@[simp] theorem meets_prepareSpeculativeConversion :
    Meets P prepareSpeculativeConversion Q s = Q () s := by
  rw [prepareSpeculativeConversion, meets_read, ← forall_session (C := Q () s)]
  refine forall_congr fun r => forall_congr fun hr => ?_
  rw [meets_when]
  split
  · rename_i h
    exact effect_iff (hr ▸ h.2.2.1) id
  · rfl

/-! Helpers that change the session in one way, or not at all. -/

@[simp] theorem meets_advanceRevision :
    Meets P advanceRevision Q s = Q () s.advanceRevision := meets_update _ _

@[simp] theorem meets_clearLivePresentation :
    Meets P clearLivePresentation Q s = Q () s.clearLivePresentation := meets_update _ _

@[simp] theorem meets_allocateCandidateGeneration (Q : UInt64 → CompositionSession → Prop) :
    Meets P allocateCandidateGeneration Q s = Q (s.nextCandidateGeneration + 1)
      { s with nextCandidateGeneration := s.nextCandidateGeneration + 1 } := by
  simp [allocateCandidateGeneration]

@[simp] theorem meets_allocateEffectID (Q : UInt64 → CompositionSession → Prop) :
    Meets P allocateEffectID Q s =
      Q s.nextEffectID { s with nextEffectID := s.nextEffectID + 1 } := by
  simp [allocateEffectID]

@[simp] theorem meets_clearRequestCache : Meets P clearRequestCache Q s = Q () s :=
  meets_modify (fun _ => rfl) Q

@[simp] theorem meets_purgeConverterSensitiveState :
    Meets P purgeConverterSensitiveState Q s = Q () s := by
  simp [purgeConverterSensitiveState]

@[simp] theorem meets_endConverterComposition :
    Meets P endConverterComposition Q s = Q () s := by
  simp [endConverterComposition]

@[simp] theorem meets_clearConversionState :
    Meets P clearConversionState Q s = Q () s.clearConversion := by
  simp [clearConversionState]

@[simp] theorem meets_clearSegmentedConversion :
    Meets P clearSegmentedConversion Q s = Q () s.clearSegments := by
  simp [clearSegmentedConversion]

@[simp] theorem meets_clearSecurityDomainState :
    Meets P clearSecurityDomainState Q s = Q () s.clearSecurityDomain := by
  simp [clearSecurityDomainState, CompositionSession.clearConversion,
    CompositionSession.clearSecurityDomain]

@[simp] theorem meets_invalidateSpeculation (reason : SpeculationInvalidationReason) :
    Meets P (invalidateSpeculation reason) Q s = Q () s := by
  rw [invalidateSpeculation, meets_bind]
  exact (meets_modify (fun _ => rfl) _).trans (meets_invalidateSpeculativeConversion reason)

@[simp] theorem meets_retireCandidateWindowIfNoLearnableCandidateRemains :
    Meets P retireCandidateWindowIfNoLearnableCandidateRemains Q s = Q () s := by
  simp [retireCandidateWindowIfNoLearnableCandidateRemains]

@[simp] theorem meets_appendCommittedText (text : Text) :
    Meets P (appendCommittedText text) Q s = Q ()
      { s with
        context := if s.policy.secureInput then s.context
          else { s.context with leftContext := s.context.leftContext ++ text } } :=
  meets_update _ _

@[simp] theorem meets_syncActiveSegmentCandidates (c : CandidateSet) :
    Meets P (syncActiveSegmentCandidates c) Q s = Q () (s.syncActiveSegment c) :=
  meets_update _ _

@[simp] theorem meets_finishUnicodeInput :
    Meets P finishUnicodeInput Q s = Q ()
      { s with
        unicodeInputBuffer := []
        phaseBeforeUnicodeInput := none
        phase := if s.composingText.isEmpty then .idle else .composing } :=
  meets_update _ _

@[simp] theorem meets_clearPendingRevision :
    Meets P clearPendingRevision Q s = Q ()
      { s with livePresentation := { s.livePresentation with pendingRevision := none } } :=
  meets_update _ _

theorem meets_takeReconversionReplacementEffect
    (Q : List ClientEffect → CompositionSession → Prop) :
    Meets P takeReconversionReplacementEffect Q s =
      match s.reconversionReplacement with
      | none => Q [] s
      | some r => Q [.deleteSurroundingText s.nextEffectID r.before r.after]
          { s with reconversionReplacement := none, nextEffectID := s.nextEffectID + 1 } := by
  rw [takeReconversionReplacementEffect, meets_bind, meets_session]
  cases s.reconversionReplacement <;> simp

/-! Learning. -/

@[simp] theorem meets_resolveTransactions (commit : Bool)
    (transactions : List PendingLearningTransaction) :
    Meets P (resolveTransactions commit transactions) Q s = Q () s := by
  induction transactions with
  | nil => rfl
  | cons t ts ih => simp [resolveTransactions, ih]

theorem meets_resolvePendingLearning_nil {commit : Bool} (h : s.pendingLearningTransactions = [])
    {Q : Bool → CompositionSession → Prop} :
    Meets P (resolvePendingLearning commit) Q s = Q false s := by
  rw [resolvePendingLearning, meets_bind, meets_session, meets_ite, if_pos h, meets_pure]

/-- Only a secure session has to have nothing to commit. -/
theorem meets_resolvePendingLearning {commit : Bool}
    (h : s.pendingLearningTransactions ≠ [] → s.policy.secureInput = false)
    {Q : Bool → CompositionSession → Prop}
    (hQ : Q (decide (s.pendingLearningTransactions ≠ []))
      { s with pendingLearningTransactions := [] }) :
    Meets P (resolvePendingLearning commit) Q s := by
  by_cases hp : s.pendingLearningTransactions = []
  · have hs : { s with pendingLearningTransactions := [] } = s := by rw [← hp]
    rw [meets_resolvePendingLearning_nil hp]
    simpa [hp, hs] using hQ
  · rw [resolvePendingLearning, meets_bind, meets_session, meets_ite, if_neg hp]
    cases commit with
    | false => simpa [hp] using hQ
    | true => simpa [hp, meets_commitLearning, h hp] using hQ

@[simp] theorem meets_completeCandidates (candidates : List ConverterCandidate) :
    Meets P (completeCandidates candidates) Q s = Q () s := by
  induction candidates with
  | nil => rfl
  | cons c cs ih => simp [completeCandidates, ih]

theorem meets_updateCandidates (h : s.policy.secureInput = false)
    (candidates : List ConverterCandidate) :
    Meets P (updateCandidates candidates) Q s = Q () s := by
  induction candidates with
  | nil => rfl
  | cons c cs ih => simp [updateCandidates, meets_updateLearningData h, ih]

/-- Staging may add transactions, whatever the converter answers. -/
theorem meets_stageCandidates {origin : LearningOrigin} {reading : Text}
    (h : s.policy.secureInput = false) (candidates : List ConverterCandidate)
    {Q : Bool → CompositionSession → Prop}
    (hQ : ∀ b pending, Q b { s with pendingLearningTransactions := pending }) :
    Meets P (stageCandidates origin reading candidates) Q s := by
  induction candidates generalizing s Q with
  | nil => exact hQ false s.pendingLearningTransactions
  | cons c cs ih =>
    rw [stageCandidates, meets_bind, stageCandidate, meets_bind]
    refine meets_converter h fun token _ => ?_
    cases token with
    | some token =>
      simp only [meets_bind, meets_update, meets_pure]
      refine ih ?_ fun b pending => ?_
      · exact h
      · exact hQ _ pending
    | none =>
      simp only [meets_ite, meets_bind, meets_updateLearningData h, meets_pure]
      split
      · exact ih h fun b pending => hQ _ pending
      · exact ih h fun b pending => hQ _ pending

/-- In a secure session nothing is learnt. -/
theorem meets_learn {candidates : List CandidateSnapshot} {origin : LearningOrigin}
    {reading : Text}
    (hQ : ∀ pending,
      (s.policy.secureInput = true → pending = s.pendingLearningTransactions) →
        Q () { s with pendingLearningTransactions := pending }) :
    Meets P (learn candidates origin reading) Q s := by
  have hs : Q () s := hQ s.pendingLearningTransactions fun _ => rfl
  rw [learn]
  simp only [meets_ite, meets_pure]
  split
  · exact hs
  rw [meets_bind, meets_completeCandidates, meets_read]
  intro r hr
  rw [hr, meets_ite]
  split
  · rename_i hl
    have hn : ∀ pending, Q () { s with pendingLearningTransactions := pending } :=
      fun pending => hQ pending fun ht => absurd ht (by simp [hl.2])
    rw [meets_ite]
    split
    · rw [meets_bind]
      refine meets_stageCandidates hl.2 _ fun b pending => ?_
      rw [meets_when]
      split
      · rw [meets_commitLearning]
        · exact hn pending
        · exact hl.2
      · exact hn pending
    · rw [meets_bind, meets_updateCandidates hl.2, meets_when]
      split
      · rw [meets_commitLearning hl.2]
        exact hs
      · exact hs
  · exact hs

end Hazkey
