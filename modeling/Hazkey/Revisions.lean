import Hazkey.Rejections

/-! A revision denotes one snapshot, as far as no exit changes what is shown
without advancing the revision. -/

namespace Hazkey

open ServiceProgram

attribute [local instance] scalarText byteCodec

section

variable {d : CompositionInput → CompositionDisplay} {s : CompositionSession}

/-! What is shown of the live presentation. -/

/-- The auxiliary text says whether a conversion is awaited. -/
def CompositionSession.showsAwaited (s : CompositionSession) : Prop :=
  s.policy.secureInput = false ∧ s.composingText.isEmpty = false ∧
    (s.phase = .composing ∨ s.phase = .reconverting) ∧
    s.policy.auxTextMode = .whenCursorNotAtEnd ∧ s.composingText.atEnd

/-- A materialized prefix stands in the preedit in place of its reading. -/
def PrefixShown (d : CompositionInput → CompositionDisplay) (s : CompositionSession) : Prop :=
  s.shownBranch = .reading ∧ underDisplay d (validMaterializedLivePrefix s) ≠ none

/-- An awaited conversion is announced in the auxiliary text. -/
def CompositionSession.awaitedShown (s : CompositionSession) : Prop :=
  s.livePresentation.pendingRevision ≠ none ∧ s.showsAwaited

theorem underDisplay_bind {α β : Type} {p : ReducerM α} (hp : p.Asks IsDisplay)
    (k : α → ReducerM β) :
    underDisplay d (p >>= k) = underDisplay d (k (underDisplay d p)) :=
  hp.valueUnder_bind _ _ _

theorem underDisplay_visible (s : CompositionSession) :
    underDisplay d (visibleComposition s) =
      match s.shownBranch with
      | .segments i => s.segmentedComposition i
      | .candidate c b => underDisplay d (candidateWithSuffix s c b)
      | .reading =>
        match underDisplay d (validMaterializedLivePrefix s) with
        | some p => underDisplay d (prefixWithSuffix s p)
        | none => underDisplay d (readingComposition s) := by
  unfold visibleComposition
  cases s.shownBranch with
  | segments i => rfl
  | candidate c b => rfl
  | reading =>
    dsimp only
    rw [underDisplay_bind (validMaterializedLivePrefix_asks s)]
    cases underDisplay d (validMaterializedLivePrefix s) <;> rfl

theorem underDisplay_presentation (hp : s.phase ≠ .unicodeInput) :
    underDisplay d (presentation s) =
      ((underDisplay d (visibleComposition s)).spans,
        (underDisplay d (visibleComposition s)).caretUtf8ByteOffset,
        underDisplay d (auxiliaryText s (underDisplay d (visibleComposition s)))) := by
  unfold presentation
  rw [if_neg hp, underDisplay_bind (visibleComposition_asks s),
    underDisplay_bind (auxiliaryText_asks s _)]
  rfl

/-- The auxiliary text of a session with another live presentation. -/
theorem auxiliaryText_relit {x : LivePresentationState} (visible : VisibleComposition)
    (hx : s.showsAwaited →
      (x.pendingRevision = none ↔ s.livePresentation.pendingRevision = none)) :
    auxiliaryText { s with livePresentation := x } visible = auxiliaryText s visible := by
  unfold auxiliaryText
  by_cases hc : s.policy.secureInput = false ∧ s.composingText.isEmpty = false ∧
      (s.phase = .composing ∨ s.phase = .reconverting)
  · rw [if_pos hc, if_pos hc]
    refine congrArg _ (funext fun display => ?_)
    cases hm : s.policy.auxTextMode with
    | disabled => rfl
    | always => rfl
    | whenCursorNotAtEnd =>
      by_cases hend : s.composingText.cursor < s.composingText.elements.length
      · simp [hend]
      · have hat : s.composingText.atEnd :=
          Nat.le_antisymm s.composingText.cursor_le (Nat.le_of_not_lt hend)
        have hiff := hx ⟨hc.1, hc.2.1, hc.2.2, hm, hat⟩
        simp only [ne_eq, hiff]
  · rw [if_neg hc, if_neg hc]

/-- Another live presentation that shows the same prefix and awaits a conversion
where this one does is shown as this one is. -/
theorem presentationUnder_relit {x : LivePresentationState}
    (hv : s.shownBranch = .reading →
      underDisplay d (validMaterializedLivePrefix { s with livePresentation := x }) =
        underDisplay d (validMaterializedLivePrefix s))
    (hx : s.showsAwaited →
      (x.pendingRevision = none ↔ s.livePresentation.pendingRevision = none)) :
    ({ s with livePresentation := x } : CompositionSession).presentationUnder d =
      s.presentationUnder d := by
  unfold CompositionSession.presentationUnder
  by_cases hp : s.phase = .unicodeInput
  · have hu : ({ s with livePresentation := x } : CompositionSession).phase = .unicodeInput := hp
    unfold presentation
    rw [if_pos hp, if_pos hu]
    rfl
  · have hvisible : underDisplay d (visibleComposition { s with livePresentation := x }) =
        underDisplay d (visibleComposition s) := by
      rw [underDisplay_visible, underDisplay_visible]
      have hb : ({ s with livePresentation := x } : CompositionSession).shownBranch =
        s.shownBranch := rfl
      rw [hb]
      cases hs : s.shownBranch with
      | segments i => rfl
      | candidate c b => rfl
      | reading =>
        dsimp only
        rw [hv hs]
        rfl
    rw [underDisplay_presentation hp, underDisplay_presentation (s := { s with
      livePresentation := x }) hp, hvisible, auxiliaryText_relit _ hx]

theorem snapshotUnder_relit {x : LivePresentationState}
    (hv : s.shownBranch = .reading →
      underDisplay d (validMaterializedLivePrefix { s with livePresentation := x }) =
        underDisplay d (validMaterializedLivePrefix s))
    (hx : s.showsAwaited →
      (x.pendingRevision = none ↔ s.livePresentation.pendingRevision = none))
    (effects : List ClientEffect) :
    ({ s with livePresentation := x } : CompositionSession).snapshotUnder d effects =
      s.snapshotUnder d effects := by
  unfold CompositionSession.snapshotUnder
  rw [presentationUnder_relit hv hx]
  rfl

theorem matchingLivePrefix_clear (s : CompositionSession) :
    s.clearLivePresentation.matchingLivePrefix = none := by
  unfold CompositionSession.matchingLivePrefix
  split <;> rfl

theorem validMaterializedLivePrefix_clear (s : CompositionSession) :
    underDisplay d (validMaterializedLivePrefix s.clearLivePresentation) = none := by
  unfold validMaterializedLivePrefix
  rw [matchingLivePrefix_clear]
  rfl

/-- A live presentation that is not shown can be dropped. -/
theorem snapshotUnder_clearLive (hp : ¬ PrefixShown d s) (ha : ¬ s.awaitedShown)
    (effects : List ClientEffect) :
    s.clearLivePresentation.snapshotUnder d effects = s.snapshotUnder d effects := by
  refine snapshotUnder_relit (fun hb => ?_) (fun hs => ?_) effects
  · have hnone : underDisplay d (validMaterializedLivePrefix s) = none := by
      by_contra hne
      exact hp ⟨hb, hne⟩
    exact (validMaterializedLivePrefix_clear s).trans hnone.symm
  · refine ⟨fun _ => ?_, fun _ => rfl⟩
    by_contra hne
    exact ha ⟨hne, hs⟩

/-- A session that shows no candidates shows the same without what it knows of them. -/
theorem snapshotUnder_clearConversion (hc : s.candidates = none)
    (hi : s.activeSegmentIndex = none) (generation : UInt64) (effects : List ClientEffect) :
    ({ s.clearConversion with nextCandidateGeneration := generation }).snapshotUnder d effects =
      s.snapshotUnder d effects := by
  have hshow : presentation { s.clearConversion with nextCandidateGeneration := generation } =
      presentation s := by
    have hb : s.shownBranch = .reading := by simp [CompositionSession.shownBranch, hc, hi]
    have hb' : ({ s.clearConversion with
        nextCandidateGeneration := generation } : CompositionSession).shownBranch = .reading := rfl
    have hv : visibleComposition { s.clearConversion with
        nextCandidateGeneration := generation } = visibleComposition s := by
      unfold visibleComposition
      rw [hb, hb']
      rfl
    unfold presentation
    rw [hv]
    rfl
  have hw : ({ s.clearConversion with
      nextCandidateGeneration := generation } : CompositionSession).candidateWindow =
      s.candidateWindow := by simp [CompositionSession.candidateWindow, hc,
        CompositionSession.clearConversion]
  unfold CompositionSession.snapshotUnder CompositionSession.presentationUnder
    CompositionSession.snapshotShowing
  rw [hshow, hw]
  rfl

/-- An idle session shows nothing, whatever its policy, context and live presentation. -/
theorem presentation_idle (hp : s.phase = .idle) (he : s.composingText.elements = [])
    (hc : s.candidates = none) (hi : s.activeSegmentIndex = none) :
    s.presentationUnder d = ([], none, none) := by
  have hb : s.shownBranch = .reading := by simp [CompositionSession.shownBranch, hc, hi]
  have hm : s.matchingLivePrefix = none := by
    simp [CompositionSession.matchingLivePrefix, hp]
  have hempty : s.composingText.isEmpty = true := CompositionBuffer.isEmpty_iff.mpr he
  have hv : underDisplay d (visibleComposition s) = ⟨[], [], none, []⟩ := by
    rw [underDisplay_visible, hb]
    simp only [validMaterializedLivePrefix, hm, readingComposition, hempty, if_true]
    rfl
  unfold CompositionSession.presentationUnder
  rw [underDisplay_presentation (by simp [hp]), hv]
  simp [auxiliaryText, hp, underDisplay, Prog.valueUnder_pure]

/-! The exits that change what is shown at one revision. -/

variable [SwiftText] {P : Promise}

/-- Dropping the live presentation would be seen. -/
def LiveShown (d : CompositionInput → CompositionDisplay) (s : CompositionSession) : Prop :=
  PrefixShown d s ∨ s.awaitedShown

/-- The actions whose failure, or whose lack of anything to do, is seen and not
announced by a new revision. -/
def Unannounced (P : Promise) (d : CompositionInput → CompositionDisplay)
    (s : CompositionSession) : ImeAction → Prop
  | .forgetCandidate id generation =>
    s.policy.secureInput = false ∧ s.candidate id generation = none ∧ LiveShown d s
  | .navigateCandidatePage _ => ¬ s.navigable ∧ LiveShown d s
  | .navigateCandidate _ => (¬ s.navigable ∧ ¬ s.unconverted ∧ LiveShown d s) ∨
    s.unconverted ∧ Throws P ∧ (s.candidates ≠ none ∨ LiveShown d s)
  | .transformActiveSegment transform => EmptyTransform P s transform ∧
    ¬ (s.phase = .composing ∧ transform.isAlphabet = true) ∧ LiveShown d s
  | .resizeSegment _ => s.phase.holdsCandidates ∧ Throws P ∧
    (s.candidates ≠ none ∨ s.editablePhase ≠ s.phase)
  | .applyLiveConversion scheduledRevision => scheduledRevision = s.revision ∧
    underDisplay d (shouldScheduleLiveConversion s) = false ∧ s.awaitedShown
  | _ => False

omit [SwiftText] in
theorem Coherent.activeSegmentIndex_none {s : CompositionSession} (hp : Partitioned s)
    (hc : s.candidates = none) : s.activeSegmentIndex = none := by
  by_cases hs : s.segments = []
  · exact hp.inactive hs
  · obtain ⟨i, g, -, -, hcand, -⟩ := hp.active hs
    rw [hc] at hcand
    cases hcand

theorem snapshotUnder_undone {action : ImeAction} {status : ImeReductionStatus}
    {u : CompositionSession} (hc : Coherent s) (hd : DisplaysAs P d)
    (hn : ¬ Unannounced P d s action) (h : Undone P s action status u)
    (effects : List ClientEffect) : u.snapshotUnder d effects = s.snapshotUnder d effects := by
  have hdrop (hl : ¬ LiveShown d s) :
      s.clearLivePresentation.snapshotUnder d effects = s.snapshotUnder d effects :=
    snapshotUnder_clearLive (fun h => hl (.inl h)) (fun h => hl (.inr h)) effects
  cases h with
  | forgetSecure id generation hs =>
    refine hdrop fun hl => ?_
    rcases hl with ⟨-, hp⟩ | ⟨-, hs', -⟩
    · have hm : s.matchingLivePrefix = none := by simp [CompositionSession.matchingLivePrefix, hs]
      exact hp (by rw [validMaterializedLivePrefix, hm]; rfl)
    · simp [hs] at hs'
  | forgetStale id generation hs =>
    by_cases hsec : s.policy.secureInput = false
    · exact hdrop fun hl => hn ⟨hsec, hs, hl⟩
    · refine hdrop fun hl => ?_
      rcases hl with ⟨-, hp⟩ | ⟨-, hs', -⟩
      · have hm : s.matchingLivePrefix = none := by
          simp [CompositionSession.matchingLivePrefix, hsec]
        exact hp (by rw [validMaterializedLivePrefix, hm]; rfl)
      · exact hsec hs'
  | page delta hnav => exact hdrop fun hl => hn ⟨hnav, hl⟩
  | navigate delta hnav hun => exact hdrop fun hl => hn (.inl ⟨hnav, hun, hl⟩)
  | convert delta k hun ht =>
    have hcand : s.candidates = none := by
      by_contra hne
      exact hn (.inr ⟨hun, ht, .inl hne⟩)
    exact (snapshotUnder_clearConversion (s := s.clearLivePresentation) hcand
      (Coherent.activeSegmentIndex_none hc.partitioned hcand) _ effects).trans
        (hdrop fun hl => hn (.inr ⟨hun, ht, .inr hl⟩))
  | transform t he hne => exact hdrop fun hl => hn ⟨he, hne, hl⟩
  | resize delta hp ht =>
    have hcand : s.candidates = none := by
      by_contra hne
      exact hn ⟨hp, ht, .inl hne⟩
    have hphase : s.editablePhase = s.phase := by
      by_contra hne
      exact hn ⟨hp, ht, .inr hne⟩
    rw [hphase]
    exact snapshotUnder_clearConversion hcand
      (Coherent.activeSegmentIndex_none hc.partitioned hcand) s.nextCandidateGeneration effects
  | live scheduledRevision hr hs =>
    refine snapshotUnder_relit (x := { s.livePresentation with pendingRevision := none })
      (fun _ => rfl) (fun ha => ⟨fun _ => ?_, fun _ => rfl⟩) effects
    by_contra hne
    exact hn ⟨hr, hs d hd, hne, ha⟩

theorem snapshotUnder_rested {u : CompositionSession} (hc : Coherent s) (hp : s.phase = .idle)
    (hsec : u.policy.secureInput = s.policy.secureInput)
    (hu : u =
      { s with livePresentation := u.livePresentation, policy := u.policy, context := u.context })
    (effects : List ClientEffect) : u.snapshotUnder d effects = s.snapshotUnder d effects := by
  obtain ⟨he, hcand, hseg⟩ := hc.phased.idle hp
  have hi := hc.partitioned.inactive hseg
  have hshow : s.presentationUnder d = ([], none, none) := presentation_idle hp he hcand hi
  have hshow' : u.presentationUnder d = ([], none, none) := by
    rw [hu]
    exact presentation_idle hp he hcand hi
  have hrecovery : u.publishedRecovery = s.publishedRecovery := by
    have hcp : u.recoveryCheckpoint = s.recoveryCheckpoint := congrArg (·.recoveryCheckpoint) hu
    rw [CompositionSession.publishedRecovery, hsec, hcp, CompositionSession.publishedRecovery]
  rw [CompositionSession.snapshotUnder, CompositionSession.snapshotUnder, hshow, hshow',
    CompositionSession.snapshotShowing, hrecovery, hu]
  rfl

variable [RecoveryCodec] {r r' : ImeReducer} {t : List ConverterEvent} {action : ImeAction}
  {requestID : Text} {expectedRevision : Option UInt64}
  {provider : Option PinnedCompositionPolicy} {result : ImeReductionResult}

omit [SwiftText] [RecoveryCodec] in
theorem revision_add_one_ne (n : UInt64) : n + 1 ≠ n := by
  intro h
  have hz : (1 : UInt64) = 0 := (UInt64.add_right_inj n).mp (h.trans (UInt64.add_zero n).symm)
  exact absurd hz (by decide)

end

end Hazkey
