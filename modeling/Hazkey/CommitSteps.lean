import Hazkey.SelectionSteps

/-! The steps of the partial commits, which convert what they leave, and of the
cancellation. -/

namespace Hazkey

open ServiceProgram

variable [SwiftText] [RecoveryCodec] {P : Promise} {s m u : CompositionSession}
  {action : ImeAction} {effects : List ClientEffect}

/-! Delivery. -/

omit [RecoveryCodec] in
/-- The composition without its first elements, and what was learnt of them: an
undo stays possible only where nothing remains. -/
structure Delivered (s : CompositionSession) (count : Nat) (effects : List ClientEffect)
    (m : CompositionSession) : Prop where
  frame : m =
    { s with
      composingText := s.composingText.removePrefix count
      pendingLearningTransactions := m.pendingLearningTransactions
      reconversionReplacement := none
      nextEffectID := m.nextEffectID
      context := m.context }
  sound : Sound m
  pending : m.composingText.isEmpty = false → m.pendingLearningTransactions = []
  numbered : Numbered s.nextEffectID effects m.nextEffectID
  length_le : effects.length ≤ 2

omit [RecoveryCodec] in
theorem meets_deliver {count : Nat} {text : Text} {candidates : List CandidateSnapshot}
    {reading : Text} (hc : Coherent s) {Q : List ClientEffect → CompositionSession → Prop}
    (hQ : ∀ m, Delivered s count (s.commitEffects text) m → Q (s.commitEffects text) m) :
    Meets P (deliver count text candidates reading) Q s := by
  unfold deliver
  rw [meets_bind, meets_invalidateSpeculation, meets_bind]
  refine meets_resolvePendingLearning hc.sound.unsecure ?_
  simp only [meets_bind, meets_update]
  refine meets_commitEffects fun deleted next heff hnum => ?_
  simp only [meets_allocateEffectID, meets_appendCommittedText]
  refine meets_learn fun pending hp => ?_
  have hdrop : s.policy.wellFormed = true →
      s.composingText.elements.all CompositionElement.wellFormed = true →
      (s.composingText.elements.drop count).all CompositionElement.wellFormed = true :=
    fun _ he => wellFormed_of_subset (List.drop_subset _ _) he
  have hsound := ((hc.sound.resolved.withElements hdrop).unreplaced.committed text).learnt hp
  have hlen := commitEffects_length s text
  simp only [meets_session, meets_when, meets_bind, meets_pure]
  rw [heff]
  split
  · refine meets_resolvePendingLearning (by exact hsound.unsecure) ?_
    exact hQ _ ⟨rfl, hsound.resolved, fun _ => rfl, hnum text, hlen⟩
  · rename_i he
    exact hQ _ ⟨rfl, hsound, fun h => absurd h he, hnum text, hlen⟩

/-! The commit of leading segments. -/

omit [SwiftText] [RecoveryCodec] in
theorem selectedCandidates_length {segments : List CompositionSegment}
    (h : ∀ g ∈ segments, g.WellFormed) :
    (segments.filterMap (·.selectedCandidate)).length = segments.length :=
  List.filterMap_length_eq_length.mpr fun g hg => selectedCandidate_isSome (h g hg)

omit [RecoveryCodec] in
/-- What is left, at rest. -/
theorem Delivered.ready {count : Nat} (h : Delivered s count effects m) {q : ImePhase}
    (hph : q = if m.composingText.isEmpty = true then .idle else .composing)
    {l : LivePresentationState}
    (hl : m.policy.secureInput = true → l.materializedPrefix = none) :
    Ready s effects
      { m.clearConversion with
        composingText := m.composingText.moveCursorToEnd
        phase := q
        livePresentation := l } := by
  refine ⟨⟨h.sound.withLive hl, ?_, partitioned_nil⟩, congrArg (·.revision) h.frame, h.numbered,
    h.length_le, allocated_cleared (congrArg (·.nextCandidateGeneration) h.frame) rfl rfl⟩
  unfold Phased CompositionSession.clearConversion
  dsimp only
  by_cases he : m.composingText.isEmpty = true
  · have hm : m.composingText.moveCursorToEnd.elements = [] := CompositionBuffer.isEmpty_iff.mp he
    rw [hph, if_pos he, hm]
    exact phased_idle
  · have hm : m.composingText.moveCursorToEnd.elements ≠ [] := fun hn =>
      he (CompositionBuffer.isEmpty_iff.mpr hn)
    rw [hph, if_neg he, h.pending (eq_false_of_ne_true he)]
    exact phased_editing (.inl rfl) hm fun _ w hw => by cases hw

omit [RecoveryCodec] in
/-- A commit keeps what Unicode input has left. -/
theorem Delivered.kept {count : Nat} (h : Delivered s count effects m)
    (ht : s.unicodeInputBuffer = [] ∧ s.phaseBeforeUnicodeInput = none) :
    m.unicodeInputBuffer = [] ∧ m.phaseBeforeUnicodeInput = none := by
  have hb : m.unicodeInputBuffer = s.unicodeInputBuffer :=
    congrArg (·.unicodeInputBuffer) h.frame
  have hf : m.phaseBeforeUnicodeInput = s.phaseBeforeUnicodeInput :=
    congrArg (·.phaseBeforeUnicodeInput) h.frame
  exact ⟨hb.trans ht.1, hf.trans ht.2⟩

/-- The rest of the composition is converted before the commit is published. -/
theorem commitSegments_stepped {committed : List CompositionSegment} {reading : Text}
    (hc : Coherent s) (hsub : committed ⊆ s.segments) (hu : s.phase ≠ .unicodeInput) :
    Meets P (commitSegments committed reading) (Outcome P s .commitSelected) s := by
  unfold commitSegments
  dsimp only
  rw [meets_ite, if_pos (selectedCandidates_length fun g hg => hc.partitioned.wellFormed g
    (hsub hg)), meets_bind]
  refine meets_deliver hc fun m hm => ?_
  have hsec := fun hs => (hm.sound.secure hs).2.2.2
  simp only [meets_bind, meets_endConverterComposition, meets_clearConversionState, meets_update,
    meets_session, meets_ite]
  split
  · rename_i he
    simp only [meets_advanceRevision]
    have hready := hm.ready (q := .idle) (if_pos he).symm hsec
    exact (hready.advanced id fun ht _ _ => hm.kept (ht hu)).success
  · rename_i he
    have he : m.composingText.isEmpty = false := eq_false_of_ne_true he
    refine meets_convert fun status u hu' r _ => ?_
    have hrev : m.revision = s.revision := congrArg (·.revision) hm.frame
    have hgen : m.nextCandidateGeneration = s.nextCandidateGeneration :=
      congrArg (·.nextCandidateGeneration) hm.frame
    have hready : Ready s _ u :=
      hu'.ready hm.sound (hm.pending he) hrev hm.numbered hm.length_le hgen
    rw [meets_advanceRevision]
    exact (hready.advanced id fun ht _ => hu'.tidy (hm.kept (ht hu))).success

/-! The commit of one candidate. -/

omit [RecoveryCodec] in
/-- A conversion after the advance leaves the checkpoint one of the session. -/
theorem Converted.synced {status : ImeReductionStatus} (h : Converted P m status u)
    (hy : Synced m) (hp : m.phase = .composing) (hend : m.composingText.atEnd) : Synced u := by
  have hunicode : ∀ c, m.recoveryCheckpoint = some c → ∀ ph : ImePhase, ph ≠ .unicodeInput →
      (c.phase = .unicodeInput ↔ ph = .unicodeInput) := by
    intro c hcp ph hph
    refine iff_of_false (fun hcu => ?_) hph
    rw [hy.unicode c hcp, hp] at hcu
    cases hcu
  have hafter : ∀ b, phaseAfterConversion b .composing ≠ ImePhase.unicodeInput ∧
      phaseAfterConversion b .previewing ≠ ImePhase.unicodeInput := by decide
  cases h with
  | empty => exact ⟨hy.frame, fun c hcp => hunicode c hcp _ (by simp), hy.secure, hy.elements⟩
  | segmented =>
    rw [CompositionBuffer.moveCursorToEnd_of_atEnd hend]
    exact ⟨hy.frame, fun c hcp => hunicode c hcp _ (hafter _).2, hy.secure, hy.elements⟩
  | failed => exact ⟨hy.frame, fun c hcp => hunicode c hcp _ (hafter _).1, hy.secure, hy.elements⟩
  | legacy he hl =>
    cases hl with
    | window =>
      exact ⟨hy.frame, fun c hcp => hunicode c hcp _ (hafter _).2, hy.secure, hy.elements⟩
    | nothing =>
      exact ⟨hy.frame, fun c hcp => hunicode c hcp _ (hafter _).1, hy.secure, hy.elements⟩
    | failed =>
      exact ⟨hy.frame, fun c hcp => hunicode c hcp _ (hafter _).1, hy.secure, hy.elements⟩

omit [SwiftText] [RecoveryCodec] in
/-- The window a conversion shows is the first it made. -/
theorem Converted.window {status : ImeReductionStatus} (h : Converted P m status u)
    {w : CandidateSet} (hw : u.candidates = some w) :
    w.generation = m.nextCandidateGeneration + 1 := by
  cases h with
  | empty => cases hw
  | segmented he g segments hb =>
    cases hw
    exact hb.generation 0 g rfl
  | failed => cases hw
  | legacy he hl =>
    cases hl with
    | window c hitems hselected hlive hgen =>
      cases hw
      exact hgen
    | nothing => cases hw
    | failed => cases hw

/-- A published session whose rest is converted without an advance. -/
theorem Ready.converted {status : ImeReductionStatus} (h : Ready s effects m)
    (hp : m.phase = .composing) (hend : m.composingText.atEnd)
    (hgen : m.nextCandidateGeneration = s.nextCandidateGeneration)
    (hu : Converted P m.advanceRevision status u)
    (ht : Tidy s → m.unicodeInputBuffer = [] ∧ m.phaseBeforeUnicodeInput = none) :
    Stepped P s action .success effects u := by
  have hpend : m.pendingLearningTransactions = [] :=
    h.coherent.phased.pending_nil (by simp [hp])
  have hrev : u.revision = m.revision + 1 := congrArg (·.revision) hu.frame.1
  have heff : u.nextEffectID = m.nextEffectID := congrArg (·.nextEffectID) hu.frame.1
  have hcp : u.recoveryCheckpoint = m.advanceRevision.recoveryCheckpoint :=
    congrArg (·.recoveryCheckpoint) hu.frame.1
  exact
    { coherent := hu.coherent h.coherent.sound.advanceRevision hpend
      synced := hu.synced h.coherent.sound.synced_advanceRevision hp hend
      moved := .advanced id (hrev.trans (congrArg (· + 1) h.revision))
      counted := .inl ⟨heff ▸ h.counted.numbered, h.counted.length_le, hu.allocated hgen⟩
      cut := fun c hc => by
        have hcut : c.nextCandidateGeneration = m.nextCandidateGeneration :=
          advanceRevision_checkpoint (hcp ▸ hc)
        exact .inr (.inr ⟨hcut.trans hgen, fun w hw => hcut ▸ hu.window hw⟩)
      tidy := fun hts _ => hu.tidy (ht hts) }

/-- The rest of the composition is converted after the commit was published. -/
theorem commitCandidate_stepped {candidate : CandidateSnapshot} {reading : Text}
    (hc : Coherent s) (hy : Synced s) (hu : s.phase ≠ .unicodeInput) :
    Meets P (commitCandidate candidate reading) (Outcome P s .commitSelected) s := by
  unfold commitCandidate
  rw [meets_bind, meets_session]
  dsimp only
  rw [meets_ite]
  split
  · rw [meets_bind]
    refine meets_deliver hc fun m hm => ?_
    have hready := hm.ready (l := .empty) rfl fun _ => rfl
    have hgen : m.nextCandidateGeneration = s.nextCandidateGeneration :=
      congrArg (·.nextCandidateGeneration) hm.frame
    simp only [meets_bind, meets_clearConversionState, meets_clearLivePresentation, meets_update,
      meets_advanceRevision, meets_session]
    by_cases he : m.composingText.isEmpty = false
    · rw [meets_ite, if_pos (by exact he), meets_bind]
      refine meets_convert fun status u hcv r _ => ?_
      exact (hready.converted (if_neg (by simp [he])) (CompositionBuffer.atEnd_moveCursorToEnd _)
        hgen hcv fun ht => hm.kept (ht hu)).success
    · rw [meets_ite, if_neg (by exact he), meets_bind, meets_endConverterComposition]
      exact (hready.advanced id fun ht _ _ => hm.kept (ht hu)).success
  · exact (Stepped.kept hc hy).failure

theorem commitSelectedCandidate_stepped (hc : Coherent s) (hy : Synced s) :
    Meets P commitSelectedCandidate (Outcome P s .commitSelected) s := by
  unfold commitSelectedCandidate
  rw [meets_bind, meets_session, meets_bind]
  refine meets_query (currentDisplay_asks s) fun display _ => ?_
  cases hi : s.activeSegmentIndex.filter (· < s.segments.length) with
  | some activeIndex =>
    have hlt : activeIndex < s.segments.length := by
      simpa using (Option.filter_eq_some_iff.mp hi).2
    refine commitSegments_stepped hc (List.take_subset _ _) fun hp => ?_
    rw [(hc.phased.unicode hp).2.1] at hlt
    exact absurd hlt (Nat.not_lt_zero _)
  | none =>
    dsimp only
    cases hs : s.candidates.bind (·.selectedCandidate) with
    | none => exact (Stepped.kept hc hy).failure
    | some candidate =>
      obtain ⟨w, hw, -⟩ := Option.bind_eq_some_iff.mp hs
      exact commitCandidate_stepped hc hy (hc.phased.of_candidates hw).2

/-- With nothing to commit a resolution may still be published. -/
theorem commitAll_action_stepped (hc : Coherent s) (hy : Synced s) :
    Meets P (commitAll .explicitConversion) (Outcome P s .commitAll) s := by
  by_cases hm : s.composingText.elements = []
  · unfold commitAll
    rw [meets_bind]
    refine meets_resolvePendingLearning hc.sound.unsecure ?_
    rw [meets_bind, meets_session, meets_ite, if_pos (CompositionBuffer.isEmpty_iff.mpr hm),
      meets_bind, meets_when]
    split
    · rw [meets_advanceRevision]
      have hready : Ready s [] _ := hc.resolved.ready rfl rfl rfl fun _ => id
      exact (hready.advanced id fun ht _ => ht).success
    · rename_i hp
      have hp : s.pendingLearningTransactions = [] := by simpa using hp
      have hs : { s with pendingLearningTransactions := [] } = s := by rw [← hp]
      rw [hs]
      exact (Stepped.kept hc hy).success
  · refine commitAll_stepped hc rfl rfl rfl hm fun ht hl => ht fun hp => ?_
    exact hl ⟨hp, hm⟩

/-! Cancellation. -/

theorem cancel_stepped (hc : Coherent s) (hy : Synced s) :
    Meets P cancel (Outcome P s .cancel) s := by
  unfold cancel
  rw [meets_bind, meets_invalidateSpeculation, meets_bind]
  refine meets_resolvePendingLearning hc.sound.unsecure ?_
  have hn : Coherent ({ s with pendingLearningTransactions := [] }).clearLivePresentation :=
    hc.resolved.clearLivePresentation
  rw [meets_bind, meets_clearLivePresentation, meets_bind, meets_session]
  have hediting : s.phase ≠ .idle → s.phase ≠ .unicodeInput → s.composingText.elements ≠ [] :=
    hc.phased.editing
  -- the candidates are dropped and the composition stays
  have hdrop : s.phase ≠ .idle → s.phase ≠ .unicodeInput →
      Stepped P s .cancel .success []
        ({ ({ s with pendingLearningTransactions := [] }).clearLivePresentation.clearConversion with
          phase := .composing }).advanceRevision := by
    intro hi hu
    have hcoh : Coherent { ({ s with
        pendingLearningTransactions := [] }).clearLivePresentation.clearConversion with
          phase := .composing } :=
      ⟨hn.sound, phased_editing (.inl rfl) (hediting hi hu) (fun _ w hw => by cases hw),
        partitioned_nil⟩
    refine Ready.advanced ⟨hcoh, rfl, rfl, Nat.zero_le _, allocated_cleared rfl rfl rfl⟩ id
      fun ht _ _ => ht hu
  generalize hph : ({ s with pendingLearningTransactions := [] }).clearLivePresentation.phase = ph
  have hph : s.phase = ph := hph
  cases ph with
  | selecting =>
    have hi : s.phase ≠ .idle := by simp [hph]
    have hu : s.phase ≠ .unicodeInput := by simp [hph]
    dsimp only
    rw [meets_ite]
    split
    · simp only [meets_bind, meets_endConverterComposition, meets_clearConversionState,
        meets_update, meets_advanceRevision, meets_prepareSpeculativeConversion]
      exact (hdrop hi hu).success
    · simp only [meets_bind, meets_update, meets_advanceRevision,
        meets_prepareSpeculativeConversion]
      refine Stepped.success (Ready.advanced (Coherent.ready ⟨hn.sound, ?_, hn.partitioned⟩ rfl rfl
        rfl fun _ => id) id fun ht _ _ => ht hu)
      refine phased_editing ?_ (hediting hi hu) hc.phased.live
      split
      · exact .inr (.inr rfl)
      · exact .inr (.inl rfl)
  | previewing =>
    simp only [meets_bind, meets_endConverterComposition, meets_clearConversionState,
      meets_update, meets_advanceRevision, meets_prepareSpeculativeConversion]
    exact (hdrop (by simp [hph]) (by simp [hph])).success
  | unicodeInput =>
    simp only [meets_bind, meets_finishUnicodeInput, meets_advanceRevision,
      meets_prepareSpeculativeConversion]
    have hready : Ready s [] _ := (hn.leaveUnicode hph fun _ => id).ready rfl rfl rfl fun _ => id
    exact (hready.advanced id fun _ _ _ => ⟨rfl, rfl⟩).success
  | idle =>
    dsimp only
    rw [meets_bind, meets_when]
    split
    · rw [meets_advanceRevision]
      have hready : Ready s [] _ := hn.ready rfl rfl rfl fun _ => id
      exact (hready.advanced id fun ht _ => ht).success
    · rename_i hp
      -- nothing was pending, so only a live presentation can have been dropped
      have hp : s.pendingLearningTransactions = [] := by simpa using hp
      have hs : { s with pendingLearningTransactions := [] } = s := by rw [← hp]
      rw [hs]
      exact (Stepped.relit hc hy (x := .empty) (fun _ => rfl) (fun _ => rfl)
        (.rested id hph rfl rfl)).success
  | composing =>
    simp only [meets_bind, meets_endConverterComposition, meets_clearConversionState,
      meets_update, meets_advanceRevision, meets_prepareSpeculativeConversion]
    refine Stepped.success (Ready.advanced ⟨⟨hn.sound.erased.unreplaced, phased_idle,
      partitioned_nil⟩, rfl, rfl, Nat.zero_le _, allocated_cleared rfl rfl rfl⟩ id
      fun ht _ _ => ht (by simp [hph]))
  | reconverting =>
    simp only [meets_bind, meets_endConverterComposition, meets_clearConversionState,
      meets_update, meets_advanceRevision, meets_prepareSpeculativeConversion]
    refine Stepped.success (Ready.advanced ⟨⟨hn.sound.erased.unreplaced, phased_idle,
      partitioned_nil⟩, rfl, rfl, Nat.zero_le _, allocated_cleared rfl rfl rfl⟩ id
      fun ht _ _ => ht (by simp [hph]))

end Hazkey
