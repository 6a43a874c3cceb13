import Hazkey.Step

/-! The steps of the edits: every one of them ends in a commit of the visible
suffix, in a refreshed window or in a scheduled conversion. -/

namespace Hazkey

open ServiceProgram

variable [SwiftText] [RecoveryCodec] {P : Promise} {s m u : CompositionSession}
  {action : ImeAction}

/-! Pinning a policy. -/

/-- What pinning may do to an idle session; it does nothing to any other. -/
structure Pinned (s u : CompositionSession) (changed : Bool) : Prop where
  coherent : Coherent u
  frame : u =
    { s with
      policy := u.policy
      context := u.context
      livePresentation := u.livePresentation
      pendingLearningTransactions := u.pendingLearningTransactions
      activeBoundary := u.activeBoundary
      activeSegmentIndex := u.activeSegmentIndex
      reconversionReplacement := u.reconversionReplacement
      recoveryCheckpoint := u.recoveryCheckpoint
      unicodeInputBuffer := u.unicodeInputBuffer
      phaseBeforeUnicodeInput := u.phaseBeforeUnicodeInput }
  unicode : (u.unicodeInputBuffer = s.unicodeInputBuffer ∧
      u.phaseBeforeUnicodeInput = s.phaseBeforeUnicodeInput) ∨
    (u.unicodeInputBuffer = [] ∧ u.phaseBeforeUnicodeInput = none)
  idle : changed = true → s.phase = .idle
  unchanged : changed = false → u.policy.secureInput = s.policy.secureInput ∧
    (u = s ∨ s.phase = .idle ∧ u =
      { s with
        policy := u.policy
        context := { s.context with projectRevision := u.context.projectRevision } })
  synced : Synced s → Synced u
  cut : ∀ c, u.recoveryCheckpoint = some c → s.recoveryCheckpoint = some c

omit [RecoveryCodec] in
theorem pinned_refl (h : Coherent s) : Pinned s s false where
  coherent := h
  frame := rfl
  unicode := .inl ⟨rfl, rfl⟩
  idle h := by cases h
  unchanged _ := ⟨rfl, .inl rfl⟩
  synced := id
  cut _ := id

omit [RecoveryCodec] in
theorem meets_pinCompositionPolicy {policy : PinnedCompositionPolicy} (h : Coherent s)
    {Q : Bool → CompositionSession → Prop} (hQ : ∀ b u, Pinned s u b → Q b u) :
    Meets P (pinCompositionPolicy policy) Q s := by
  rw [pinCompositionPolicy, meets_bind, meets_session, meets_ite]
  split
  · rename_i hp
    obtain ⟨hidle, hempty⟩ := hp
    obtain ⟨he, hc, hg⟩ := h.phased.idle hidle
    have ht : s.composingText = .empty := CompositionBuffer.eq_empty_of_elements he
    rw [meets_ite]
    split
    · simp only [meets_bind, meets_invalidateSpeculation]
      refine meets_resolvePendingLearning h.sound.unsecure ?_
      simp only [meets_purgeConverterSensitiveState, meets_clearSecurityDomainState,
        meets_update, meets_pure]
      refine hQ true _ ⟨⟨?_, ?_, ?_⟩, ?_, .inr ⟨rfl, rfl⟩, fun _ => hidle, (by simp),
        fun _ => synced_uncut rfl, fun c hcp => by cases hcp⟩
      · exact sound_cleared (x := { s.context with projectRevision := policy.projectRevision })
          policy rfl
      · exact phased_idle
      · exact partitioned_nil
      · simp [CompositionSession.clearSecurityDomain, hidle, ht, hc, hg]
    · rename_i hsame
      simp only [meets_bind, meets_update, meets_pure]
      have hsame : s.policy.secureInput = policy.secureInput := not_not.mp hsame
      have hs := h.sound
      have hph := h.phased
      have hsound : SoundParts policy s.recoveryCheckpoint
          { s.context with projectRevision := policy.projectRevision }
          s.pendingLearningTransactions s.livePresentation.materializedPrefix s.unicodeInputBuffer
          s.composingText.elements s.reconversionReplacement :=
        ⟨fun hsec => hs.secure (hsame.trans hsec), rfl, hs.buffer, fun _ => by simp [he],
          hs.replacement⟩
      exact hQ false _
        { coherent := ⟨hsound, ⟨hph.idle, hph.editing, hph.unicode, hph.selecting, hph.pending,
            fun hsec => hph.live (hsame.trans hsec)⟩, h.partitioned⟩
          frame := rfl
          unicode := .inl ⟨rfl, rfl⟩
          idle := fun hb => by cases hb
          unchanged := fun _ => ⟨hsame.symm, .inr ⟨hidle, rfl⟩⟩
          synced := fun hy => ⟨hy.frame, hy.unicode, hy.secure, hy.elements⟩
          cut := fun _ => id }
  · exact hQ false s (pinned_refl h)

omit [RecoveryCodec] in
theorem meets_pinCompositionPolicyIfNeeded {provider : Option PinnedCompositionPolicy}
    (h : Coherent s) {Q : Bool → CompositionSession → Prop} (hQ : ∀ b u, Pinned s u b → Q b u) :
    Meets P (pinCompositionPolicyIfNeeded provider) Q s := by
  unfold pinCompositionPolicyIfNeeded
  rw [meets_bind, meets_session, meets_ite]
  split
  · cases provider with
    | none => exact hQ false s (pinned_refl h)
    | some policy => exact meets_pinCompositionPolicy h hQ
  · exact hQ false s (pinned_refl h)

omit [RecoveryCodec] in
theorem Pinned.ready {b : Bool} (h : Pinned s u b) : Ready s [] u where
  coherent := h.coherent
  revision := congrArg (·.revision) h.frame
  counted := by
    have he : u.nextEffectID = s.nextEffectID := congrArg (·.nextEffectID) h.frame
    refine ⟨he, Nat.zero_le _, ?_⟩
    have hg : u.nextCandidateGeneration = s.nextCandidateGeneration :=
      congrArg (·.nextCandidateGeneration) h.frame
    have hc : u.candidates = s.candidates := congrArg (·.candidates) h.frame
    have hs : u.segments = s.segments := congrArg (·.segments) h.frame
    exact allocated_of_subset hg fun g hgu => by
      simpa only [CompositionSession.windowGenerations, hc, hs] using hgu

omit [SwiftText] [RecoveryCodec] in
/-- Outside Unicode input nothing of it is left, nor after it was reset. -/
theorem Tidy.kept (ht : Tidy s) (hp : s.phase ≠ .unicodeInput)
    (hu : (u.unicodeInputBuffer = s.unicodeInputBuffer ∧
        u.phaseBeforeUnicodeInput = s.phaseBeforeUnicodeInput) ∨
      (u.unicodeInputBuffer = [] ∧ u.phaseBeforeUnicodeInput = none)) :
    u.unicodeInputBuffer = [] ∧ u.phaseBeforeUnicodeInput = none := by
  rcases hu with ⟨hb, hf⟩ | hu
  · rw [hb, hf]
    exact ht hp
  · exact hu

/-! The commit of everything. -/

omit [SwiftText] [RecoveryCodec] in
theorem selectedCandidate_isSome {g : CompositionSegment} (h : g.WellFormed) :
    g.selectedCandidate.isSome = true := by
  obtain ⟨i, hi, hsel⟩ := h.selected
  simp [CompositionSegment.selectedCandidate, CandidateSet.selectedCandidate, hsel, hi]

omit [SwiftText] [RecoveryCodec] in
/-- No segment of a partition lacks a selection. -/
theorem Partitioned.selected_length (h : Partitioned s) :
    (s.segments.filterMap (·.selectedCandidate)).length = s.segments.length := by
  refine List.filterMap_length_eq_length.mpr fun g hg => ?_
  exact selectedCandidate_isSome (h.wellFormed g hg)

/-- The effects of a commit: the text, after the deletion of what it replaces. -/
def CompositionSession.commitEffects (s : CompositionSession) (text : Text) : List ClientEffect :=
  match s.reconversionReplacement with
  | none => [.commitText s.nextEffectID text]
  | some q => [.deleteSurroundingText s.nextEffectID q.before q.after,
      .commitText (s.nextEffectID + 1) text]

omit [SwiftText] [RecoveryCodec] in
theorem commitEffects_length (s : CompositionSession) (text : Text) :
    (s.commitEffects text).length ≤ 2 := by
  unfold CompositionSession.commitEffects
  cases s.reconversionReplacement with
  | none => exact Nat.le_succ 1
  | some q => exact le_refl 2

omit [SwiftText] [RecoveryCodec] in
theorem meets_commitEffects {Q : List ClientEffect → CompositionSession → Prop}
    (hQ : ∀ deleted next, (∀ text, deleted ++ [.commitText next text] = s.commitEffects text) →
      (∀ text, Numbered s.nextEffectID (s.commitEffects text) (next + 1)) →
      Q deleted { s with reconversionReplacement := none, nextEffectID := next }) :
    Meets P takeReconversionReplacementEffect Q s := by
  rw [meets_takeReconversionReplacementEffect]
  cases hr : s.reconversionReplacement with
  | none =>
    have hs : { s with reconversionReplacement := none } = s := by rw [← hr]
    have heff (text : Text) : s.commitEffects text = [.commitText s.nextEffectID text] := by
      simp [CompositionSession.commitEffects, hr]
    have hq := hQ [] s.nextEffectID (fun text => (heff text).symm)
      fun text => heff text ▸ ⟨rfl, rfl⟩
    simpa [hs] using hq
  | some q =>
    have heff (text : Text) : s.commitEffects text =
        [.deleteSurroundingText s.nextEffectID q.before q.after,
          .commitText (s.nextEffectID + 1) text] := by
      simp [CompositionSession.commitEffects, hr]
    exact hQ _ _ (fun text => (heff text).symm) fun text => heff text ▸ ⟨rfl, rfl, rfl⟩

/-- A commit of a nonempty composition leaves an idle session. -/
theorem commitAll_stepped {origin : LearningOrigin} (hc : Coherent m)
    (hrev : m.revision = s.revision) (hnext : m.nextEffectID = s.nextEffectID)
    (hgen : m.nextCandidateGeneration = s.nextCandidateGeneration)
    (hm : m.composingText.elements ≠ [])
    (ht : Tidy s → ¬ LeavesUnicode P s action →
      m.unicodeInputBuffer = [] ∧ m.phaseBeforeUnicodeInput = none) :
    Meets P (commitAll origin) (Outcome P s action) m := by
  have hne : m.phase ≠ .idle := fun hi => hm (hc.phased.idle hi).1
  have hpend : m.pendingLearningTransactions = [] := hc.phased.pending_nil hne
  rw [commitAll, meets_bind]
  refine meets_resolvePendingLearning (fun hn => absurd hpend hn) ?_
  have hempty : m.composingText.isEmpty = false := CompositionBuffer.isEmpty_eq_false_iff.mpr hm
  rw [meets_bind, meets_session, meets_ite, if_neg (by simp [hempty]), meets_bind]
  refine meets_query (currentDisplay_asks _) fun reading _ => ?_
  rw [meets_bind]
  refine meets_query (visibleComposition_asks _) fun shown _ => ?_
  rw [meets_ite, if_pos hc.partitioned.selected_length]
  simp only [meets_bind, meets_invalidateSpeculation]
  refine meets_commitEffects fun deleted next heff hnum => ?_
  simp only [meets_allocateEffectID, meets_appendCommittedText]
  refine meets_learn fun pending hp => ?_
  simp only [meets_update, meets_clearConversionState, meets_clearLivePresentation,
    meets_advanceRevision, meets_endConverterComposition]
  rw [heff]
  refine Stepped.success (Ready.advanced ⟨⟨?_, ?_, ?_⟩, hrev, ⟨?_, ?_, ?_⟩⟩ id ?_)
  · have hs := hc.sound.resolved
    exact (((hs.unreplaced.committed _).learnt hp).erased).withLive fun _ => rfl
  · exact phased_idle
  · exact partitioned_nil
  · rw [← hnext]
    exact hnum _
  · exact commitEffects_length _ _
  · exact allocated_cleared hgen rfl rfl
  · intro hts hl _
    exact ht hts hl

/-! The end of an edit. -/

/-- A session right after an edit: nothing is converted and nothing pending. -/
structure Edited (s m : CompositionSession) : Prop where
  sound : Sound m
  text : (m.phase = .composing ∧ m.composingText.elements ≠ []) ∨
    (m.phase = .idle ∧ m.composingText.elements = [])
  candidates : m.candidates = none
  segments : m.segments = []
  activeSegmentIndex : m.activeSegmentIndex = none
  pending : m.pendingLearningTransactions = []
  revision : m.revision = s.revision
  nextEffectID : m.nextEffectID = s.nextEffectID
  generation : m.nextCandidateGeneration = s.nextCandidateGeneration

omit [RecoveryCodec] in
theorem Edited.coherent (h : Edited s m) : Coherent m := by
  refine ⟨h.sound, ?_, ?_⟩
  · unfold Phased
    rw [h.candidates, h.segments, h.pending]
    rcases h.text with ⟨hp, he⟩ | ⟨hp, he⟩
    · rw [hp]
      exact phased_editing (.inl rfl) he fun _ w hw => by cases hw
    · rw [hp, he]
      exact phased_idle
  · unfold Partitioned
    rw [h.segments, h.activeSegmentIndex]
    exact partitioned_nil

omit [RecoveryCodec] in
theorem Edited.ready (h : Edited s m) : Ready s [] m where
  coherent := h.coherent
  revision := h.revision
  counted := ⟨h.nextEffectID, Nat.zero_le _,
    allocated_cleared h.generation h.candidates h.segments⟩

omit [RecoveryCodec] in
/-- A refresh is part of the step; only the pending revision may still change. -/
theorem Refreshed.ready (hr : Refreshed m u) (hc : Coherent m) (hp : m.phase = .composing)
    (hm : m.composingText.elements ≠ []) (hrev : m.revision = s.revision)
    (heff : m.nextEffectID = s.nextEffectID)
    (hgen : m.nextCandidateGeneration = s.nextCandidateGeneration) (x : Option UInt64) :
    Ready s [] { u with livePresentation := ⟨u.livePresentation.materializedPrefix, x⟩ } := by
  have hpend : m.pendingLearningTransactions = [] :=
    hc.phased.pending_nil (by rw [hp]; decide)
  obtain ⟨candidates, generation, live, hwindow, hsecure⟩ := hr
  refine ⟨⟨?_, ?_, partitioned_nil⟩, hrev, heff, Nat.zero_le _, ?_⟩
  · exact SoundParts.withLive hc.sound fun hs => (hsecure hs).1
  · unfold Phased
    dsimp only
    rw [hpend]
    exact phased_editing (.inl hp) hm fun hs => (hsecure hs).2
  · rcases hwindow with ⟨rfl, rfl⟩ | ⟨w, rfl, -, hw, hg⟩
    · exact allocated_cleared hgen rfl rfl
    · refine ⟨1, List.length_pos_iff.mpr hm, ?_, fun g hgu => .inr ⟨1, le_rfl, le_rfl, ?_⟩⟩
      · exact hg.trans (by rw [hgen]; rfl)
      · have hgw : g = w.generation := by simpa [CompositionSession.windowGenerations] using hgu
        rw [hgw, hw, hg, hgen]
        rfl

omit [SwiftText] [RecoveryCodec] in
theorem meets_shouldDirectCommitVisibleSuffix {Q : Bool → CompositionSession → Prop}
    (hf : Q false s) (ht : s.phase = .composing → Q true s) :
    Meets P (shouldDirectCommitVisibleSuffix s) Q s := by
  by_cases hp : s.phase = .composing
  · refine meets_query (shouldDirectCommitVisibleSuffix_asks s) fun b _ => ?_
    cases b with
    | false => exact hf
    | true => exact ht hp
  · unfold shouldDirectCommitVisibleSuffix
    rw [if_neg fun h => hp h.2.1]
    exact hf

omit [RecoveryCodec] in
theorem meets_shouldScheduleLiveConversion {Q : Bool → CompositionSession → Prop}
    (hf : (∀ d, DisplaysAs P d → underDisplay d (shouldScheduleLiveConversion s) = false) →
      Q false s)
    (ht : s.phase = .composing ∧ s.composingText.isEmpty = false ∧
      s.policy.secureInput = false ∧ s.composingText.atEnd → Q true s) :
    Meets P (shouldScheduleLiveConversion s) Q s := by
  by_cases hp : s.phase = .composing ∧ s.composingText.isEmpty = false ∧
      s.policy.secureInput = false ∧ s.composingText.atEnd
  · refine meets_query (shouldScheduleLiveConversion_asks s) fun b hb => ?_
    cases b with
    | false => exact hf fun d hd => (hb d hd).symm
    | true => exact ht hp
  · have he : shouldScheduleLiveConversion s = pure false := by
      unfold shouldScheduleLiveConversion
      rw [if_neg hp]
    rw [he] at hf ⊢
    exact hf fun _ _ => rfl

omit [RecoveryCodec] in
/-- The pending revision is part of no invariant of an editable session. -/
theorem Edited.pending_withLive (h : Edited s m) (x : Option UInt64) :
    Edited s { m with livePresentation := ⟨m.livePresentation.materializedPrefix, x⟩ } :=
  ⟨h.sound, h.text, h.candidates, h.segments, h.activeSegmentIndex, h.pending, h.revision,
    h.nextEffectID, h.generation⟩

theorem refreshAfterEdit_stepped (h : Edited s m)
    (ht : Tidy s → ¬ LeavesUnicode P s action → Tidy m) :
    Meets P refreshAfterEdit (Outcome P s action) m := by
  have hc := h.coherent
  have htext : m.phase = .composing ∧ m.composingText.isEmpty = false →
      m.composingText.elements ≠ [] := fun hp => CompositionBuffer.isEmpty_eq_false_iff.mp hp.2
  unfold refreshAfterEdit
  rw [meets_bind, meets_session, meets_ite]
  split
  · rw [meets_bind]
    by_cases hp : m.phase = .composing ∧ m.composingText.isEmpty = false
    · refine meets_refreshPredictions hp fun u hu => ?_
      have hready := hu.ready hc hp.1 (htext hp) h.revision h.nextEffectID h.generation none
      simp only [meets_bind, meets_clearPendingRevision, meets_advanceRevision]
      obtain ⟨candidates, generation, live, hwindow, hsecure⟩ := hu
      exact (hready.advanced (by exact id) ht).success
    · have he : Meets P refreshPredictions (fun _ u => u = m) m := by
        unfold refreshPredictions
        rw [meets_bind, meets_session, meets_ite, if_neg hp]
        rfl
      refine he.mono ?_
      rintro _ u rfl
      simp only [meets_bind, meets_clearPendingRevision, meets_advanceRevision]
      exact ((h.pending_withLive none).ready.advanced id ht).success
  · rw [meets_bind]
    refine meets_shouldScheduleLiveConversion (fun _ => ?_) fun hp => ?_
    · simp only [Bool.false_eq_true, if_false, meets_bind, meets_clearPendingRevision,
        meets_advanceRevision]
      exact ((h.pending_withLive none).ready.advanced id ht).success
    · simp only [if_true, meets_ite]
      split
      · rw [meets_bind]
        refine meets_refreshRealtimeCandidates ⟨hp.1, hp.2.1⟩ hp.2.2.1 fun u hu _ => ?_
        have hready := hu.ready hc hp.1 (htext ⟨hp.1, hp.2.1⟩) h.revision h.nextEffectID
          h.generation u.livePresentation.pendingRevision
        simp only [meets_bind, meets_advanceRevision]
        obtain ⟨candidates, generation, live, hwindow, hsecure⟩ := hu
        exact (hready.advanced id ht).success
      · simp only [meets_bind, meets_allocateEffectID, meets_advanceRevision, meets_update]
        have hnum : Numbered s.nextEffectID [.scheduleLiveConversion m.nextEffectID
            (min m.policy.liveConversionDelayMilliseconds 1000) (m.revision + 1)]
            (m.nextEffectID + 1) := by
          rw [h.nextEffectID]
          exact ⟨rfl, rfl⟩
        have hready : Ready s [.scheduleLiveConversion m.nextEffectID
            (min m.policy.liveConversionDelayMilliseconds 1000) (m.revision + 1)]
            { m with nextEffectID := m.nextEffectID + 1 } :=
          ⟨⟨hc.sound, hc.phased, hc.partitioned⟩, h.revision, hnum, Nat.le_succ 1,
            allocated_cleared h.generation h.candidates h.segments⟩
        have hne : m.phase ≠ .unicodeInput := by
          rw [hp.1]
          decide
        exact (hready.scheduled id ht hne _).success

/-- An edit ends in one advance of the revision, whichever way it ends. -/
theorem finishInteractiveEdit_stepped (h : Edited s m)
    (ht : Tidy s → ¬ LeavesUnicode P s action →
      m.unicodeInputBuffer = [] ∧ m.phaseBeforeUnicodeInput = none) :
    Meets P finishInteractiveEdit (Outcome P s action) m := by
  have hrest : Meets P refreshAfterEdit (Outcome P s action) m :=
    refreshAfterEdit_stepped h fun hts hl _ => ht hts hl
  unfold finishInteractiveEdit
  rw [meets_bind, meets_session, meets_bind]
  refine meets_shouldDirectCommitVisibleSuffix ?_ fun hp => ?_
  · simpa using hrest
  · rcases h.text with ⟨-, hm⟩ | ⟨hi, -⟩
    · exact commitAll_stepped h.coherent h.revision h.nextEffectID h.generation hm ht
    · rw [hi] at hp
      cases hp

/-! The edits. -/

omit [SwiftText] [RecoveryCodec] in
theorem meets_preserveMaterializedLivePrefixForEditing
    (hl : s.policy.secureInput = true → ∀ c, s.candidates = some c → c.liveCandidate = none)
    {Q : Unit → CompositionSession → Prop}
    (hQ : ∀ live, (s.policy.secureInput = true → live = s.livePresentation.materializedPrefix) →
      Q () { s with livePresentation := { s.livePresentation with materializedPrefix := live } }) :
    Meets P preserveMaterializedLivePrefixForEditing Q s := by
  have hs : Q () s := hQ s.livePresentation.materializedPrefix fun _ => rfl
  unfold preserveMaterializedLivePrefixForEditing
  rw [meets_bind, meets_session, meets_ite]
  split
  · cases hc : s.candidates with
    | none => exact hs
    | some c =>
      cases hv : c.liveCandidate with
      | none => simpa [hv] using hs
      | some live =>
        simp only [Option.bind_some, hv]
        refine meets_materializePrefix fun p => hQ (some p) fun hsec => ?_
        rw [hl hsec c hc] at hv
        cases hv
  · exact hs

/-- New text keeps the buffer sound: its elements are made by the keymap of the policy. -/
theorem insertText_stepped {text : Text} {provider : Option PinnedCompositionPolicy}
    (hc : Coherent s) (hy : Synced s) :
    Meets P (insertText text provider) (Outcome P s (.insertText text)) s := by
  unfold insertText
  rw [meets_bind, meets_session, meets_ite]
  split
  · rename_i hp
    obtain ⟨htext, -, hunicode⟩ := hp
    simp only [meets_bind, meets_invalidateSpeculation]
    refine meets_pinCompositionPolicyIfNeeded hc fun b u hu => ?_
    rw [meets_update]
    refine meets_resolvePendingLearning (by exact hu.coherent.sound.unsecure) ?_
    refine meets_preserveMaterializedLivePrefixForEditing (by exact hu.coherent.phased.live)
      fun live hlive => ?_
    simp only [meets_session, meets_when, meets_endConverterComposition, ite_self, meets_update,
      meets_clearConversionState]
    have hkept := fun ht : Tidy s => ht.kept hunicode hu.unicode
    refine finishInteractiveEdit_stepped ?_ fun ht _ => hkept ht
    have hsound := hu.coherent.sound
    refine ⟨?_, .inl ⟨rfl, ?_⟩, rfl, rfl, rfl, rfl, congrArg (·.revision) hu.frame,
      congrArg (·.nextEffectID) hu.frame, congrArg (·.nextCandidateGeneration) hu.frame⟩
    · have hlit := (hsound.resolved.withLive (q := live) fun hsec =>
        (hlive hsec).trans (hsound.secure hsec).2.2.2)
      refine (hlit.withReplacement fun q hq => ?_).withElements fun hpol he => ?_
      · split at hq
        · cases hq
        · exact hsound.replacement q hq
      · exact wellFormed_insert he (wellFormed_newElements hpol text)
    · exact CompositionBuffer.insert_elements_ne_nil htext
  · exact (Stepped.kept hc hy).failure

omit [SwiftText] [RecoveryCodec] in
/-- An empty composition goes idle; any other keeps at most its prefix. -/
theorem meets_normalizeAfterEditing {Q : Unit → CompositionSession → Prop}
    (hidle : s.composingText.elements = [] → Q ()
      { s.clearConversion with
        phase := .idle
        livePresentation := .empty
        reconversionReplacement := none })
    (hcomposing : s.composingText.elements ≠ [] →
      ∀ live, (live = s.livePresentation ∨ live = .empty) → Q ()
        { s.clearConversion with phase := .composing, livePresentation := live }) :
    Meets P normalizeAfterEditing Q s := by
  unfold normalizeAfterEditing
  simp only [meets_bind, meets_session, meets_when, meets_endConverterComposition, ite_self,
    meets_ite]
  split
  · rename_i he
    simp only [meets_purgeConverterSensitiveState, ite_self, meets_update,
      meets_clearConversionState, meets_clearLivePresentation]
    exact hidle (CompositionBuffer.isEmpty_iff.mp he)
  · rename_i he
    have he : s.composingText.elements ≠ [] := fun hn => he (CompositionBuffer.isEmpty_iff.mpr hn)
    simp only [meets_update, meets_clearConversionState]
    refine meets_query (validMaterializedLivePrefix_asks _) fun valid _ => ?_
    split
    · rw [meets_clearLivePresentation]
      exact hcomposing he _ (.inr rfl)
    · exact hcomposing he _ (.inl rfl)

omit [RecoveryCodec] in
/-- A deletion leaves an edited session. -/
theorem edited_of_deletion {b : CompositionBuffer} (hc : Coherent s)
    (hb : b.elements ⊆ s.composingText.elements) {Q : Unit → CompositionSession → Prop}
    (hQ : ∀ m, Edited s m → m.unicodeInputBuffer = s.unicodeInputBuffer →
      m.phaseBeforeUnicodeInput = s.phaseBeforeUnicodeInput → Q () m) :
    Meets P normalizeAfterEditing Q
      { s with pendingLearningTransactions := [], composingText := b } := by
  have hsound := hc.sound.resolved.withElements fun _ he => wellFormed_of_subset hb he
  refine meets_normalizeAfterEditing (fun he => ?_) fun he live hlive => ?_
  · refine hQ _ ⟨?_, .inr ⟨rfl, he⟩, rfl, rfl, rfl, rfl, rfl, rfl, rfl⟩ rfl rfl
    exact hsound.unreplaced.withLive fun _ => rfl
  · refine hQ _ ⟨?_, .inl ⟨rfl, he⟩, rfl, rfl, rfl, rfl, rfl, rfl, rfl⟩ rfl rfl
    rcases hlive with rfl | rfl
    · exact hsound
    · exact hsound.withLive fun _ => rfl

omit [RecoveryCodec] in
theorem removeLastCharacter_prefix (text : Text) : removeLastCharacter text <+: text := by
  obtain ⟨last, h⟩ := List.dropLast_prefix (SwiftText.characters text)
  refine ⟨last.flatten, ?_⟩
  rw [removeLastCharacter, ← List.flatten_append, h, SwiftText.flatten_characters]

omit [RecoveryCodec] in
/-- Unicode input that ends leaves the composition at rest. -/
theorem Coherent.leaveUnicode (hc : Coherent s) (hp : s.phase = .unicodeInput)
    {b : CompositionBuffer} (hb : s.policy.wellFormed = true →
      s.composingText.elements.all CompositionElement.wellFormed = true →
      b.elements.all CompositionElement.wellFormed = true) :
    Coherent
      { s with
        composingText := b
        unicodeInputBuffer := []
        phaseBeforeUnicodeInput := none
        phase := if b.isEmpty then .idle else .composing } := by
  obtain ⟨hcand, hseg, -, -⟩ := hc.phased.unicode hp
  have hpend : s.pendingLearningTransactions = [] := hc.phased.pending_nil (by simp [hp])
  refine ⟨(hc.sound.withElements hb).withBuffer ⟨Nat.zero_le _, rfl⟩, ?_, ?_⟩
  · unfold Phased
    dsimp only
    rw [hcand, hseg, hpend]
    exact phased_rest
  · unfold Partitioned
    dsimp only
    rw [hseg, hc.partitioned.inactive hseg]
    exact partitioned_nil

theorem deleteBackward_stepped (hc : Coherent s) :
    Meets P deleteBackward (Outcome P s .deleteBackward) s := by
  unfold deleteBackward
  simp only [meets_bind, meets_invalidateSpeculation]
  by_cases hp : s.phase = .unicodeInput
  · rw [meets_resolvePendingLearning_nil (hc.phased.pending_nil (by simp [hp]))]
    simp only [meets_session, meets_ite, if_pos hp]
    split
    · simp only [meets_bind, meets_finishUnicodeInput, meets_advanceRevision]
      have hready : Ready s [] _ :=
        (hc.leaveUnicode hp fun _ => id).ready rfl rfl rfl fun _ => id
      exact (hready.advanced id fun _ _ _ => ⟨rfl, rfl⟩).success
    · simp only [meets_bind, meets_update, meets_advanceRevision]
      have hle := removeLastCharacter_prefix s.unicodeInputBuffer
      have hbuf : (removeLastCharacter s.unicodeInputBuffer).length ≤ 8 ∧
          (removeLastCharacter s.unicodeInputBuffer).all lowercaseHexDigit = true := by
        refine ⟨le_trans hle.length_le hc.sound.buffer.1, List.all_eq_true.mpr fun c hm => ?_⟩
        exact List.all_eq_true.mp hc.sound.buffer.2 c (hle.subset hm)
      have hcoh : Coherent
          { s with unicodeInputBuffer := removeLastCharacter s.unicodeInputBuffer } :=
        ⟨hc.sound.withBuffer hbuf, hc.phased, hc.partitioned⟩
      have hready : Ready s [] _ := hcoh.ready rfl rfl rfl fun _ => id
      exact (hready.advanced id fun _ _ hn => absurd hp hn).success
  · refine meets_resolvePendingLearning hc.sound.unsecure ?_
    simp only [meets_session, meets_ite, if_neg hp, meets_bind, meets_update]
    refine edited_of_deletion hc (CompositionBuffer.deleteBackward_subset _) fun m hm hb hf => ?_
    exact finishInteractiveEdit_stepped hm fun ht _ => ht.kept hp (.inl ⟨hb, hf⟩)

theorem deleteForward_stepped (hc : Coherent s) (hy : Synced s) :
    Meets P deleteForward (Outcome P s .deleteForward) s := by
  unfold deleteForward
  rw [meets_bind]
  by_cases hp : s.phase = .unicodeInput
  · rw [meets_resolvePendingLearning_nil (hc.phased.pending_nil (by simp [hp]))]
    rw [meets_bind, meets_session, meets_ite, if_neg (by simp [hp])]
    exact (Stepped.kept hc hy).failure
  · refine meets_resolvePendingLearning hc.sound.unsecure ?_
    rw [meets_bind, meets_session, meets_ite, if_pos (by exact hp)]
    simp only [meets_bind, meets_invalidateSpeculation, meets_update]
    refine edited_of_deletion hc (CompositionBuffer.deleteForward_subset _) fun m hm hb hf => ?_
    exact finishInteractiveEdit_stepped hm fun ht _ => ht.kept hp (.inl ⟨hb, hf⟩)

/-- Moving the cursor ends every presentation of the composition. -/
theorem finishCursorMovement_stepped {b : CompositionBuffer} (hc : Coherent s)
    (hp : s.phase = .composing ∨ s.phase = .previewing)
    (hb : b.elements = s.composingText.elements) :
    Meets P finishCursorMovement (Outcome P s action) { s with composingText := b } := by
  have hi : s.phase ≠ .idle := by rcases hp with hp | hp <;> simp [hp]
  have hu : s.phase ≠ .unicodeInput := by rcases hp with hp | hp <;> simp [hp]
  unfold finishCursorMovement
  simp only [meets_bind, meets_endConverterComposition, meets_update, meets_clearLivePresentation,
    meets_clearConversionState]
  refine finishInteractiveEdit_stepped ?_ fun ht _ => ht hu
  refine ⟨?_, .inl ⟨rfl, ?_⟩, rfl, rfl, rfl, hc.phased.pending_nil hi, rfl, rfl, rfl⟩
  · have hsound := hc.sound.withElements (q := b.elements) fun _ he => hb ▸ he
    exact hsound.withLive fun _ => rfl
  · change b.elements ≠ []
    rw [hb]
    exact hc.phased.editing hi hu

theorem moveCursor_stepped {offset : Int} (hc : Coherent s) (hy : Synced s) :
    Meets P (moveCursor offset) (Outcome P s (.moveCursor offset)) s := by
  unfold moveCursor
  rw [meets_bind, meets_session, meets_ite]
  split
  · rename_i hp
    simp only [meets_bind, meets_invalidateSpeculation]
    refine meets_converter trivial fun next _ => ?_
    rw [meets_update]
    exact finishCursorMovement_stepped hc hp rfl
  · exact (Stepped.kept hc hy).failure

theorem moveCursorToEdge_stepped {move : CompositionBuffer → CompositionBuffer}
    (hm : ∀ b, (move b).elements = b.elements) (hc : Coherent s) (hy : Synced s) :
    Meets P (moveCursorToEdge move) (Outcome P s action) s := by
  unfold moveCursorToEdge
  rw [meets_bind, meets_session, meets_ite]
  split
  · rename_i hp
    simp only [meets_bind, meets_invalidateSpeculation, meets_update]
    exact finishCursorMovement_stepped hc hp (hm _)
  · exact (Stepped.kept hc hy).failure

/-- A stale timer does nothing; a live one that has nothing to convert only
forgets that it was set. -/
theorem applyLiveConversion_stepped {scheduledRevision : UInt64} (hc : Coherent s)
    (hy : Synced s) :
    Meets P (applyLiveConversion scheduledRevision)
      (Outcome P s (.applyLiveConversion scheduledRevision)) s := by
  unfold applyLiveConversion
  rw [meets_bind, meets_session, meets_ite]
  split
  · rename_i hrev
    rw [meets_bind]
    refine meets_shouldScheduleLiveConversion (fun hf => ?_) fun hp => ?_
    · simp only [Bool.false_eq_true, if_false, meets_bind, meets_clearPendingRevision]
      have hsec := fun h : s.policy.secureInput = true => (hc.sound.secure h).2.2.2
      refine (Stepped.relit (x := ⟨s.livePresentation.materializedPrefix, none⟩) hc hy hsec
        (fun hp => ?_) (.undone (.live _ hrev hf))).success
      rw [(hc.phased.unicode hp).2.2.1]
      rfl
    · have hne : s.composingText.elements ≠ [] :=
        CompositionBuffer.isEmpty_eq_false_iff.mp hp.2.1
      simp only [if_true, meets_bind]
      refine meets_refreshRealtimeCandidates ⟨hp.1, hp.2.1⟩ hp.2.2.1 fun u hu _ => ?_
      have hready := hu.ready hc hp.1 hne rfl rfl rfl none
      simp only [meets_clearPendingRevision, meets_advanceRevision]
      obtain ⟨candidates, generation, live, hwindow, hsecure⟩ := hu
      exact (hready.advanced id fun ht _ => ht).success
  · exact (Stepped.kept hc hy).success

end Hazkey
