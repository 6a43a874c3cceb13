import Hazkey.Revisions
import Hazkey.Replacement

/-! What a commit delivers: the text that is shown, or the selections of the
leading segments, after the deletion of what the composition replaces. -/

namespace Hazkey

open ServiceProgram

attribute [local instance] scalarText byteCodec

section

variable {d : CompositionInput → CompositionDisplay} {s : CompositionSession}

/-! The text of the visible composition is that of its spans. -/

theorem joined_nonempty (spans : List PreeditSpan) :
    PreeditSpan.joined (PreeditSpan.nonempty spans) = PreeditSpan.joined spans := by
  induction spans with
  | nil => rfl
  | cons span spans ih =>
    unfold PreeditSpan.joined PreeditSpan.nonempty at *
    rw [List.filter_cons]
    split
    · rw [List.map_cons, List.map_cons, List.flatten_cons, List.flatten_cons, ih]
    · rename_i hempty
      have hnil : span.text = [] := by simpa using hempty
      rw [List.map_cons, List.flatten_cons, hnil, List.nil_append, ih]

/-- Segments without text take no place in the preedit. -/
theorem joined_segments (segments : List CompositionSegment) (activeIndex start : Nat) :
    PreeditSpan.joined ((segments.zipIdx start).filterMap fun (segment, index) =>
      (segment.selectedCandidate.filter fun c => c.text ≠ []).map fun c =>
        PreeditSpan.mk c.text (if index = activeIndex then .active else .underline)) =
      joinedTexts (segments.filterMap (·.selectedCandidate)) := by
  induction segments generalizing start with
  | nil => rfl
  | cons segment segments ih =>
    have hrest := ih (start + 1)
    unfold PreeditSpan.joined joinedTexts at *
    rw [List.zipIdx_cons, List.filterMap_cons, List.filterMap_cons]
    cases hsel : segment.selectedCandidate with
    | none => simpa [hsel] using hrest
    | some c =>
      by_cases hc : c.text = []
      · simpa [hsel, hc, Option.filter] using hrest
      · simpa [hsel, hc, Option.filter] using hrest

theorem joined_visible (s : CompositionSession) :
    PreeditSpan.joined (underDisplay d (visibleComposition s)).spans =
      (underDisplay d (visibleComposition s)).text := by
  rw [underDisplay_visible]
  cases s.shownBranch with
  | segments i => rfl
  | candidate c b =>
    dsimp only
    rw [candidateWithSuffix, underDisplay_bind (suffixDisplay_asks s b)]
    rfl
  | reading =>
    dsimp only
    cases underDisplay d (validMaterializedLivePrefix s) with
    | some p =>
      dsimp only
      rw [prefixWithSuffix, underDisplay_bind (suffixDisplay_asks s _)]
      rfl
    | none =>
      dsimp only
      unfold readingComposition
      split
      · rfl
      · rw [underDisplay_bind (currentDisplay_asks s)]
        refine (joined_nonempty _).trans ?_
        exact List.append_nil _

/-- With every selection in place the text is still the one on show. -/
theorem withSelectedSegments_text (h : Partitioned s) :
    (s.withSelectedSegments (underDisplay d (visibleComposition s))).text =
      PreeditSpan.joined (underDisplay d (visibleComposition s)).spans := by
  unfold CompositionSession.withSelectedSegments
  split
  · exact (joined_visible s).symm
  · rename_i hs
    obtain ⟨i, g, ha, hg, -⟩ := h.active hs
    have hlt : i < s.segments.length := (List.getElem?_eq_some_iff.mp hg).1
    have hb : s.shownBranch = .segments i := by
      simp [CompositionSession.shownBranch, ha, hlt, Option.filter]
    rw [underDisplay_visible, hb]
    exact (joined_segments s.segments i 0).symm

end

section

variable [SwiftText] {P : Promise} {d : CompositionInput → CompositionDisplay}
  {s : CompositionSession}

/-- Where a commit of all ends. -/
structure Committed (s : CompositionSession) (text : Text) (result : ImeReductionResult)
    (u : CompositionSession) : Prop where
  status : result.status = .success
  effects : result.snapshot.effects = s.commitEffects text
  phase : u.phase = .idle
  composition : u.composingText = .empty
  replacement : u.reconversionReplacement = none

theorem commitAll_committed {origin : LearningOrigin} (hc : Coherent s)
    (hne : s.composingText.elements ≠ []) (hd : DisplaysAs P d) :
    Meets P (commitAll origin)
      (Committed s (PreeditSpan.joined (underDisplay d (visibleComposition s)).spans)) s := by
  have hidle : s.phase ≠ .idle := fun hi => hne (hc.phased.idle hi).1
  have hempty : s.composingText.isEmpty = false := CompositionBuffer.isEmpty_eq_false_iff.mpr hne
  rw [commitAll, meets_bind, meets_resolvePendingLearning_nil (hc.phased.pending_nil hidle),
    meets_bind, meets_session, meets_ite, if_neg (by simp [hempty]), meets_bind]
  refine meets_query (currentDisplay_asks _) fun reading _ => ?_
  rw [meets_bind]
  refine meets_query (visibleComposition_asks _) fun shown hshown => ?_
  rw [hshown d hd, meets_ite, if_pos hc.partitioned.selected_length]
  simp only [meets_bind, meets_invalidateSpeculation]
  refine meets_commitEffects fun deleted next heff _ => ?_
  simp only [meets_allocateEffectID, meets_appendCommittedText]
  refine meets_learn fun pending _ => ?_
  simp only [meets_update, meets_clearConversionState, meets_clearLivePresentation,
    meets_advanceRevision, meets_endConverterComposition]
  refine meets_success fun result hr => ⟨hr.status, ?_, rfl, rfl, rfl⟩
  rw [hr.effects, heff, withSelectedSegments_text hc.partitioned]

variable [RecoveryCodec] {r r' : ImeReducer} {t : List ConverterEvent} {requestID : Text}
  {expectedRevision : Option UInt64} {provider : Option PinnedCompositionPolicy}
  {result : ImeReductionResult}

theorem Performed.yields {action : ImeAction} (hp : Performed r requestID expectedRevision)
    (hY : (reduce action requestID expectedRevision provider).Yields r t result r') :
    ∃ r₁, (perform action provider).Yields r t result r₁ ∧ r'.session = r₁.session := by
  cases reduce_answered hY with
  | replayed entry hl => exact absurd (hp.1.symm.trans hl) (by simp)
  | reused entry hl => exact absurd (hp.1.symm.trans hl) (by simp)
  | stale hl hm => exact absurd hp.2 hm
  | performed hl hm hperform => exact ⟨_, hperform, session_cache _ _ _⟩

/-- A commit of all delivers the text of the preedit, whatever it is made of. -/
theorem commit_delivers_shown (h : Reachable r) (hu : r.session.phase ≠ .unicodeInput)
    (hne : r.session.composingText.elements ≠ []) (hp : Performed r requestID expectedRevision)
    (hY : (reduce .commitAll requestID expectedRevision provider).Yields r t result r')
    (hd : DisplaysAs (Seen t) d) :
    result.status = .success ∧
      result.snapshot.effects =
        r.session.commitEffects (PreeditSpan.joined (r.session.snapshotUnder d []).preedit) ∧
      r'.session.phase = .idle ∧ r'.session.composingText = .empty ∧
      r'.session.reconversionReplacement = none := by
  obtain ⟨r₁, hperform, hs⟩ := hp.yields hY
  obtain ⟨hstatus, heff, hphase, hcomp, hrepl⟩ :=
    (Meets.yields (commitAll_committed h.held.coherent hne hd) hperform).2
  have hpreedit : (r.session.snapshotUnder d []).preedit =
      (underDisplay d (visibleComposition r.session)).spans :=
    congrArg (·.1) (underDisplay_presentation hu)
  rw [hs, hpreedit]
  exact ⟨hstatus, heff, hphase, hcomp, hrepl⟩

end

/-- The commit of a reconverted text. -/
theorem commit_delivers_shown_reconversion :
    let r := (evaluate .standard [request (.reconvert ['a', 'b'] [] [] 2 0) "1"]).2.2
    ∃ t result r', (reduce .commitAll "2".toList none none).Yields r t result r' ∧
      (r.session.snapshotUnder defaultDisplay []).preedit = [⟨['a', 'b'], .active⟩] ∧
      result.snapshot.effects = [.deleteSurroundingText 1 2 0, .commitText 2 ['a', 'b']] := by
  have hreachable := evaluate_reachable .standard [request (.reconvert ['a', 'b'] [] [] 2 0) "1"]
  obtain ⟨r, hr⟩ : ∃ r, (evaluate .standard
    [request (.reconvert ['a', 'b'] [] [] 2 0) "1"]).2.2 = r := ⟨_, rfl⟩
  rw [hr] at hreachable
  have hY := Prog.exec_yields stagingConverter (reduce .commitAll "2".toList none none) 0 r
  have hshown := commit_delivers_shown (d := defaultDisplay) hreachable
    (by rw [← hr]; decide +kernel) (by rw [← hr]; decide +kernel)
    ⟨by rw [← hr]; decide +kernel, rfl⟩ hY (stagingConverter_displays _ _ _)
  dsimp only
  rw [hr]
  refine ⟨_, _, _, hY, by rw [← hr]; decide +kernel, ?_⟩
  rw [hshown.2.1, ← hr]
  decide +kernel

/-! The commit of the selection. -/

/-- What a commit of the selection delivers, and of how many elements: the
segments up to the active one, or the selected candidate where there are none. -/
inductive Chosen (s : CompositionSession) : Text → Nat → Prop
  | segments (i : Nat) (ha : s.activeSegmentIndex = some i) (hi : i < s.segments.length)
      (hsel : ∀ g ∈ s.segments.take (i + 1), g.selectedCandidate.isSome) :
      Chosen s (segmentsText (s.segments.take (i + 1))) (segmentsTotal (s.segments.take (i + 1)))
  | candidate (hs : s.segments = []) (w : CandidateSet) (c : CandidateSnapshot)
      (hw : s.candidates = some w) (hc : w.selectedCandidate = some c) :
      Chosen s c.text c.consumingCount

/-- A commit of the selection delivers what was chosen and keeps the rest, or
does nothing. -/
inductive PartialCommit (s : CompositionSession) (result : ImeReductionResult)
    (u : CompositionSession) : Prop
  | committed (text : Text) (count : Nat) (chosen : Chosen s text count)
      (status : result.status = .success)
      (effects : result.snapshot.effects = s.commitEffects text)
      (elements : u.composingText.elements = s.composingText.elements.drop count)
      (replacement : u.reconversionReplacement = none)
  | refused (status : result.status ≠ .success) (effects : result.snapshot.effects = [])
      (kept : u = s)

section

variable [SwiftText] {P : Promise} {s m u : CompositionSession}

theorem Delivered.elements {count : Nat} {effects : List ClientEffect}
    (h : Delivered s count effects m) :
    m.composingText.elements = s.composingText.elements.drop count :=
  congrArg (·.composingText.elements) h.frame

theorem Delivered.replacement {count : Nat} {effects : List ClientEffect}
    (h : Delivered s count effects m) : m.reconversionReplacement = none :=
  congrArg (·.reconversionReplacement) h.frame

omit [SwiftText] in
/-- A conversion, failed or not, takes no element and names nothing to replace. -/
theorem Converted.conserves {status : ImeReductionStatus} (h : Converted P s status u) :
    u.composingText.elements = s.composingText.elements ∧
      u.reconversionReplacement = s.reconversionReplacement := by
  cases h with
  | empty => exact ⟨rfl, rfl⟩
  | segmented => exact ⟨rfl, rfl⟩
  | failed => exact ⟨rfl, rfl⟩
  | legacy he hl => cases hl <;> exact ⟨rfl, rfl⟩

omit [SwiftText] in
theorem meets_refusal {message : String} :
    Meets P (failure .invalidAction message) (PartialCommit s) s :=
  meets_failure fun r hr => .refused (by simp [hr.status]) hr.effects rfl

theorem commitSegments_conserves {committed : List CompositionSegment} {reading : Text}
    (hc : Coherent s) (hsub : committed ⊆ s.segments)
    (hchosen : Chosen s (segmentsText committed) (segmentsTotal committed)) :
    Meets P (commitSegments committed reading) (PartialCommit s) s := by
  unfold commitSegments
  dsimp only
  rw [meets_ite, if_pos (selectedCandidates_length fun g hg => hc.partitioned.wellFormed g
    (hsub hg)), meets_bind]
  refine meets_deliver hc fun m hm => ?_
  simp only [meets_bind, meets_endConverterComposition, meets_clearConversionState, meets_update,
    meets_session, meets_ite]
  split
  · simp only [meets_advanceRevision]
    refine meets_success fun r hr => ?_
    exact .committed _ _ hchosen hr.status hr.effects hm.elements hm.replacement
  · -- the rest is converted, and whatever comes of it the commit is reported
    refine meets_convert fun status u hu _ _ => ?_
    rw [meets_advanceRevision]
    refine meets_success fun r hr => ?_
    obtain ⟨helements, hreplacement⟩ := hu.conserves
    exact .committed _ _ hchosen hr.status hr.effects (helements.trans hm.elements)
      (hreplacement.trans hm.replacement)

theorem commitCandidate_conserves {candidate : CandidateSnapshot} {reading : Text}
    (hc : Coherent s) (hchosen : Chosen s candidate.text candidate.consumingCount) :
    Meets P (commitCandidate candidate reading) (PartialCommit s) s := by
  unfold commitCandidate
  rw [meets_bind, meets_session]
  dsimp only
  rw [meets_ite]
  split
  · rw [meets_bind]
    refine meets_deliver hc fun m hm => ?_
    have hdrop := hm.elements
    rw [← List.drop_eq_drop_min] at hdrop
    simp only [meets_bind, meets_clearConversionState, meets_clearLivePresentation, meets_update,
      meets_advanceRevision, meets_session]
    by_cases he : m.composingText.isEmpty = false
    · rw [meets_ite, if_pos (by exact he), meets_bind]
      refine meets_convert fun status u hu _ _ => meets_success fun r hr => ?_
      obtain ⟨helements, hreplacement⟩ := hu.conserves
      exact .committed _ _ hchosen hr.status hr.effects (helements.trans hdrop)
        (hreplacement.trans hm.replacement)
    · rw [meets_ite, if_neg (by exact he), meets_bind, meets_endConverterComposition]
      refine meets_success fun r hr => ?_
      exact .committed _ _ hchosen hr.status hr.effects hdrop hm.replacement
  · exact meets_refusal

theorem commitSelectedCandidate_conserves (hc : Coherent s) :
    Meets P commitSelectedCandidate (PartialCommit s) s := by
  unfold commitSelectedCandidate
  rw [meets_bind, meets_session, meets_bind]
  refine meets_query (currentDisplay_asks s) fun display _ => ?_
  cases hi : s.activeSegmentIndex.filter (· < s.segments.length) with
  | some activeIndex =>
    obtain ⟨ha, hlt⟩ := Option.filter_eq_some_iff.mp hi
    refine commitSegments_conserves hc (List.take_subset _ _) ?_
    exact .segments activeIndex ha (by simpa using hlt) fun g hg =>
      selectedCandidate_isSome (hc.partitioned.wellFormed g (List.take_subset _ _ hg))
  | none =>
    dsimp only
    -- a session that holds segments holds an active one
    have hnil : s.segments = [] := by
      by_contra hne
      obtain ⟨i, g, ha, hg, -⟩ := hc.partitioned.active hne
      have hlt : i < s.segments.length := (List.getElem?_eq_some_iff.mp hg).1
      simp [ha, hlt, Option.filter] at hi
    cases hs : s.candidates.bind (·.selectedCandidate) with
    | none => exact meets_refusal
    | some candidate =>
      obtain ⟨w, hw, hsel⟩ := Option.bind_eq_some_iff.mp hs
      exact commitCandidate_conserves hc (.candidate hnil w candidate hw hsel)

end

section

variable [SwiftText] [RecoveryCodec] {r r' : ImeReducer} {t : List ConverterEvent}
  {requestID : Text} {expectedRevision : Option UInt64} {provider : Option PinnedCompositionPolicy}
  {result : ImeReductionResult}

/-- A commit of the selection conserves the input, whatever the converter makes
of the rest, and what the composition replaces is deleted once over any run. -/
theorem commitSelected_conserves (h : Reachable r) (hp : Performed r requestID expectedRevision)
    (hY : (reduce .commitSelected requestID expectedRevision provider).Yields r t result r') :
    PartialCommit r.session result r'.session ∧
      ∀ before after r₀ r₁, Runs ReducerCall.program r₀ before r →
        Runs ReducerCall.program r' after r₁ →
        (∀ m ∈ before ++ after, m.label.replaces = false) →
        (before.map emittedDeletions).sum + deletions result + (after.map emittedDeletions).sum ≤
          1 := by
  constructor
  · obtain ⟨r₁, hperform, hs⟩ := hp.yields hY
    rw [hs]
    exact (Meets.yields (commitSelectedCandidate_conserves h.held.coherent) hperform).2
  · intro before after r₀ r₁ hbefore hafter hm
    have hfirst := run_deletions hbefore fun m hmem => hm m (List.mem_append_left _ hmem)
    have hlast := run_deletions hafter fun m hmem => hm m (List.mem_append_right _ hmem)
    have hcommit := reduce_deletions (a := .commitSelected) rfl hY
    rw [hp.1] at hcommit
    have howed := owed_le_one r₀.session
    simp only [Option.isNone_none, if_true] at hcommit
    omega

end

/-- The first of two segments of a reconverted text, and then the other. -/
theorem commitSelected_conserves_reconversion :
    let r := (evaluate .standard [request (.reconvert ['a', 'b', 'c'] [] [] 3 0) "1",
      request (.resizeSegment (-1)) "2"]).2.2
    ∃ t result r', (reduce .commitSelected "3".toList none none).Yields r t result r' ∧
      PartialCommit r.session result r'.session ∧
      result.snapshot.effects = [.deleteSurroundingText 1 3 0, .commitText 2 ['a', 'b']] ∧
      deletions result + ((execMoves stagingConverter ReducerCall.program
        [request .commitAll "4"] 0 r').1.map emittedDeletions).sum ≤ 1 := by
  have hreachable := evaluate_reachable .standard
    [request (.reconvert ['a', 'b', 'c'] [] [] 3 0) "1", request (.resizeSegment (-1)) "2"]
  obtain ⟨r, hr⟩ : ∃ r, (evaluate .standard [request (.reconvert ['a', 'b', 'c'] [] [] 3 0) "1",
    request (.resizeSegment (-1)) "2"]).2.2 = r := ⟨_, rfl⟩
  rw [hr] at hreachable
  have hY := Prog.exec_yields stagingConverter (reduce .commitSelected "3".toList none none) 0 r
  obtain ⟨hpart, honce⟩ := commitSelected_conserves hreachable
    ⟨by rw [← hr]; decide +kernel, rfl⟩ hY
  have hafter := execMoves_runs (I := converterPort) stagingConverter ReducerCall.program
    [request .commitAll "4"] 0 ((reduce .commitSelected "3".toList none none).exec
      stagingConverter 0 r).2.2
  have hsum := honce [] _ _ _ .nil hafter (by simp [execMoves, request, ReducerCall.replaces,
    ImeAction.replaces])
  dsimp only
  rw [hr]
  refine ⟨_, _, _, hY, hpart, by rw [← hr]; decide +kernel, ?_⟩
  simpa only [List.map_nil, List.sum_nil, Nat.zero_add] using hsum

end Hazkey
