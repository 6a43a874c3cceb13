import Hazkey.Publication

/-! What refreshing and converting leave in the session, whatever the
converter answers. -/

namespace Hazkey

open ServiceProgram

variable {P : Promise} {s : CompositionSession}

/-- The converter may refuse a conversion. -/
def Throws (P : Promise) : Prop :=
  ∃ i o e, P (.candidates i o) (.error e) ∨ P (.segmentCandidates i o) (.error e)

theorem benign_conversionOptions {s : CompositionSession} {left : Text} :
    s.policy.secureInput = true →
      (s.conversionOptions left).allowLearning = false ∧
        (s.conversionOptions left).zenzaiEnabled = false ∧
        (s.conversionOptions left).secureInput = true := by
  intro h
  simp [CompositionSession.conversionOptions, h]

theorem clampCount_pos {count : Int} {limit : Nat} (h : 1 ≤ limit) : 1 ≤ clampCount count limit := by
  unfold clampCount
  omega

theorem clampCount_le {count : Int} {limit : Nat} : clampCount count limit ≤ limit := by
  unfold clampCount
  omega

/-! Refreshing. -/

/-- What a refresh of the live candidates or the predictions changes: the
window is gone, or it is a new one that selects nothing. -/
inductive Refreshed (s : CompositionSession) : CompositionSession → Prop
  | mk (candidates : Option CandidateSet) (generation : UInt64) (live : LivePresentationState)
      (hwindow : (candidates = none ∧ generation = s.nextCandidateGeneration) ∨
        ∃ c, candidates = some c ∧ c.selectedIndex = none ∧ c.generation = generation ∧
          generation = s.nextCandidateGeneration + 1)
      (hsecure : s.policy.secureInput = true →
        live.materializedPrefix = none ∧ ∀ c, candidates = some c → c.liveCandidate = none) :
      Refreshed s
        { s with
          candidates := candidates
          activeBoundary := none
          segments := []
          activeSegmentIndex := none
          nextCandidateGeneration := generation
          livePresentation := live }

theorem meets_refreshPredictions {Q : Unit → CompositionSession → Prop}
    (hp : s.phase = .composing ∧ s.composingText.isEmpty = false)
    (hQ : ∀ u, Refreshed s u → Q () u) : Meets P refreshPredictions Q s := by
  simp only [refreshPredictions, meets_bind, meets_session, if_pos hp, meets_clearLivePresentation]
  refine meets_converter benign_conversionOptions fun output _ => ?_
  cases output with
  | error e =>
    rw [meets_clearConversionState]
    exact hQ _ (.mk none _ .empty (.inl ⟨rfl, rfl⟩) fun _ => ⟨rfl, fun c hc => by cases hc⟩)
  | ok output =>
    dsimp only
    rw [meets_ite]
    split
    · simp only [meets_bind, meets_clearConversionState, meets_clearLivePresentation]
      exact hQ _ (.mk none _ .empty (.inl ⟨rfl, rfl⟩) fun _ => ⟨rfl, fun c hc => by cases hc⟩)
    · simp only [meets_bind, meets_clearSegmentedConversion, meets_allocateCandidateGeneration,
        meets_update]
      refine hQ _ (.mk _ _ .empty (.inr ⟨_, rfl, rfl, rfl, rfl⟩) fun _ => ⟨rfl, fun c hc => ?_⟩)
      cases hc
      rfl

theorem meets_materializePrefix {live : CandidateSnapshot} {Q : Unit → CompositionSession → Prop}
    (hQ : ∀ p, Q () { s with
      livePresentation := { s.livePresentation with materializedPrefix := some p } }) :
    Meets P (materializePrefix live) Q s := by
  simp only [materializePrefix, meets_bind, meets_session]
  refine meets_converter trivial fun reading _ => ?_
  rw [meets_update]
  exact hQ _

/-- Live candidates are made outside secure sessions only. -/
theorem meets_refreshRealtimeCandidates [SwiftText] {Q : Unit → CompositionSession → Prop}
    (hp : s.phase = .composing ∧ s.composingText.isEmpty = false)
    (hs : s.policy.secureInput = false)
    (hQ : ∀ u, Refreshed s u → u.livePresentation.pendingRevision = none → Q () u) :
    Meets P refreshRealtimeCandidates Q s := by
  have hn : ∀ {C : Prop}, s.policy.secureInput = true → C := fun h => absurd h (by simp [hs])
  simp only [refreshRealtimeCandidates, meets_bind, meets_session, meets_ite, if_pos hp]
  refine meets_converter trivial fun display _ => ?_
  refine meets_converter benign_conversionOptions fun output _ => ?_
  cases output with
  | error e =>
    simp only [meets_bind, meets_clearLivePresentation, meets_clearConversionState]
    exact hQ _ (.mk none _ .empty (.inl ⟨rfl, rfl⟩) hn) rfl
  | ok output =>
    dsimp only
    generalize (if shouldPublishLiveCandidate s display = true then output.liveCandidate
      else none) = live
    rw [meets_ite]
    split
    · simp only [meets_bind, meets_clearLivePresentation, meets_clearConversionState]
      exact hQ _ (.mk none _ .empty (.inl ⟨rfl, rfl⟩) hn) rfl
    · simp only [meets_bind, meets_clearSegmentedConversion, meets_allocateCandidateGeneration,
        meets_update]
      cases live with
      | none =>
        simp only [meets_bind, meets_update]
        exact hQ _ (.mk _ _ _ (.inr ⟨_, rfl, rfl, rfl, rfl⟩) hn) rfl
      | some c =>
        dsimp only
        rw [meets_bind]
        refine meets_materializePrefix fun p => ?_
        rw [meets_update]
        exact hQ _ (.mk _ _ _ (.inr ⟨_, rfl, rfl, rfl, rfl⟩) hn) rfl

/-! Segments. -/

/-- A segment has candidates for exactly its elements, and one is selected. -/
structure CompositionSegment.WellFormed (g : CompositionSegment) : Prop where
  inputCount_pos : 1 ≤ g.inputCount
  selected : ∃ i < g.candidates.items.length, g.candidates.selectedIndex = some i
  consuming : ∀ c ∈ g.candidates.items, c.consumingCount = g.inputCount
  live : g.candidates.liveCandidate = none

theorem length_le_segmentsTotal {l : List CompositionSegment}
    (h : ∀ g ∈ l, g.WellFormed) : l.length ≤ segmentsTotal l := by
  induction l with
  | nil => simp
  | cons g gs ih =>
    obtain ⟨hg, hgs⟩ := List.forall_mem_cons.mp h
    have := ih hgs
    have := hg.inputCount_pos
    simp only [segmentsTotal, List.length_cons, List.map_cons, List.sum_cons] at *
    omega

/-- Segments made in one piece: they cover `count` elements, and their windows
take the generations after `first` in turn. -/
structure Built (count : Nat) (first : UInt64) (segments : List CompositionSegment) : Prop where
  total : segmentsTotal segments = count
  wellFormed : ∀ g ∈ segments, g.WellFormed
  generation : ∀ i g, segments[i]? = some g →
    g.candidates.generation = first + UInt64.ofNat (i + 1)

theorem Built.length_le {count : Nat} {first : UInt64} {segments : List CompositionSegment}
    (h : Built count first segments) : segments.length ≤ count :=
  h.total ▸ length_le_segmentsTotal h.wellFormed

theorem Built.ne_nil {count : Nat} {first : UInt64} {segments : List CompositionSegment}
    (h : Built count first segments) (hc : 1 ≤ count) : segments ≠ [] := by
  rintro rfl
  have := h.total
  simp [segmentsTotal] at this
  omega

theorem ofNat_succ_add (g : UInt64) (k : Nat) :
    g + 1 + UInt64.ofNat k = g + UInt64.ofNat (k + 1) := by
  rw [UInt64.ofNat_add]
  ac_rfl

theorem built_nil (first : UInt64) : Built 0 first [] where
  total := rfl
  wellFormed := by simp
  generation := by simp

theorem Built.cons {count : Nat} {f : UInt64} {g : CompositionSegment}
    {segments : List CompositionSegment} (hg : g.WellFormed)
    (hgen : g.candidates.generation = f + 1) (h : Built count (f + 1) segments) :
    Built (g.inputCount + count) f (g :: segments) where
  total := by
    have := h.total
    simp only [segmentsTotal, List.map_cons, List.sum_cons] at *
    omega
  wellFormed := List.forall_mem_cons.mpr ⟨hg, h.wellFormed⟩
  generation := by
    intro i x hx
    cases i with
    | zero =>
      obtain rfl : g = x := by simpa using hx
      simpa using hgen
    | succ i =>
      rw [h.generation i x (by simpa using hx), ofNat_succ_add]

theorem preferredIndex_lt {items : List CandidateSnapshot} {preferred : Option Text}
    (h : items ≠ []) : preferredIndex items preferred < items.length := by
  have hpos : 0 < items.length := List.length_pos_iff.mpr h
  unfold preferredIndex
  cases preferred with
  | none => simpa using hpos
  | some t =>
    simp only [Option.bind_some]
    cases hf : items.findIdx? fun c => decide (c.text = t) with
    | none => simpa using hpos
    | some i => simpa using (List.findIdx?_eq_some_iff_getElem.mp hf).1

theorem segmentItems_wellFormed {candidates : List ConverterCandidate} (h : candidates ≠ [])
    (generation : UInt64) {count : Nat} (hc : 1 ≤ count) (preferred : Option Text)
    (pageSize : Int) :
    (CompositionSegment.mk count
      { generation := generation
        items := segmentItems candidates generation count
        selectedIndex := some (preferredIndex (segmentItems candidates generation count) preferred)
        pageSize := pageSize
        origin := .conversion
        liveCandidate := none }).WellFormed where
  inputCount_pos := hc
  selected := by
    refine ⟨_, preferredIndex_lt ?_, rfl⟩
    simpa [segmentItems] using h
  consuming := by
    intro c hc
    obtain ⟨x, -, rfl⟩ := List.mem_map.mp hc
    rfl
  live := rfl

/-- The candidates of a clause exist whatever the converter found for it. -/
theorem meets_matchingCandidates {output : ConversionOutput}
    {remaining : List CompositionElement} {count : Nat} {left : Text}
    {Q : List ConverterCandidate → CompositionSession → Prop}
    (hQ : ∀ found, found ≠ [] → Q found s) :
    Meets P (matchingCandidates output remaining count left) Q s := by
  unfold matchingCandidates
  rw [meets_ite]
  split
  · simp only [meets_bind, meets_session]
    exact meets_converter trivial fun display _ => hQ _ (by simp)
  · rename_i h
    exact hQ _ h

theorem meets_clauseCandidates {input : CompositionInput} {left : Text}
    {Q : Except String ConversionOutput → CompositionSession → Prop}
    (hok : ∀ output, Q (.ok output) s) (herr : ∀ e, Throws P → Q (.error e) s) :
    Meets P (clauseCandidates input (s.conversionOptions left)) Q s := by
  unfold clauseCandidates
  cases input.targetCount with
  | some n =>
    refine meets_converter benign_conversionOptions fun a ha => ?_
    cases a with
    | ok output => exact hok output
    | error e => exact herr e ⟨_, _, e, .inl (ha trivial)⟩
  | none =>
    refine meets_converter benign_conversionOptions fun a ha => ?_
    cases a with
    | ok output => exact hok output
    | error e => exact herr e ⟨_, _, e, .inr (ha trivial)⟩

/-- The loop covers what remains, or fails part of the way. -/
theorem meets_buildSegmentsFrom {preferred : List (Nat × Text)} {fuel offset : Nat}
    {forced : List Nat} {left : Text} {remaining : List CompositionElement}
    (hf : remaining.length ≤ fuel)
    {Q : Except String (List CompositionSegment) → CompositionSession → Prop}
    (hok : ∀ segments, Built remaining.length s.nextCandidateGeneration segments →
      Q (.ok segments)
        { s with
          nextCandidateGeneration :=
            s.nextCandidateGeneration + UInt64.ofNat segments.length })
    (herr : ∀ e k, k ≤ remaining.length → Throws P →
      Q (.error e)
        { s with nextCandidateGeneration := s.nextCandidateGeneration + UInt64.ofNat k }) :
    Meets P (buildSegmentsFrom preferred fuel offset forced left remaining) Q s := by
  induction fuel generalizing s offset forced left remaining Q with
  | zero =>
    obtain rfl : remaining = [] := List.length_eq_zero_iff.mp (by omega)
    rw [buildSegmentsFrom, meets_pure]
    simpa using hok [] (built_nil _)
  | succ fuel ih =>
    rw [buildSegmentsFrom, meets_ite]
    split
    · rename_i hr
      subst hr
      simpa using hok [] (built_nil _)
    · rename_i hr
      have hpos : 1 ≤ remaining.length := List.length_pos_iff.mpr hr
      simp only [meets_bind, meets_session]
      refine meets_clauseCandidates (fun output => ?_) fun e ht => ?_
      · dsimp only
        -- the count of this pass, forced or found
        generalize hcount : Option.getD _ _ = count
        have hc : 1 ≤ count ∧ count ≤ remaining.length := by
          subst hcount
          cases forced with
          | nil => exact ⟨clampCount_pos hpos, clampCount_le⟩
          | cons f fs => simp; omega
        rw [meets_bind]
        refine meets_matchingCandidates fun found hfound => ?_
        rw [meets_bind, meets_allocateCandidateGeneration, meets_bind]
        have hlen : (remaining.drop count).length = remaining.length - count := by simp
        refine ih (by omega) (fun segments hb => ?_) fun e k hk ht => ?_
        · have hb' := Built.cons (f := s.nextCandidateGeneration)
            (segmentItems_wellFormed hfound (s.nextCandidateGeneration + 1) hc.1
              (preferred.lookup offset) (snapshotPageSize output.pageSize
                (segmentItems found (s.nextCandidateGeneration + 1) count).length)) rfl hb
          have hsum : count + (remaining.drop count).length = remaining.length := by omega
          rw [hsum] at hb'
          have hgen := ofNat_succ_add s.nextCandidateGeneration segments.length
          simp only [meets_pure, hgen]
          exact hok _ hb'
        · have hgen := ofNat_succ_add s.nextCandidateGeneration k
          simp only [meets_pure, hgen]
          exact herr e (k + 1) (by omega) ht
      · dsimp only
        simpa using herr e 0 (Nat.zero_le _) ht

theorem meets_buildSegments {elements : List CompositionElement} {forced : List Nat}
    {preferred : List (Nat × Text)} {left : Text}
    {Q : Except String (List CompositionSegment) → CompositionSession → Prop}
    (hok : ∀ segments, Built elements.length s.nextCandidateGeneration segments →
      Q (.ok segments)
        { s with
          nextCandidateGeneration :=
            s.nextCandidateGeneration + UInt64.ofNat segments.length })
    (herr : ∀ e k, k ≤ elements.length → Throws P →
      Q (.error e)
        { s with nextCandidateGeneration := s.nextCandidateGeneration + UInt64.ofNat k }) :
    Meets P (buildSegments elements forced preferred left) Q s :=
  meets_buildSegmentsFrom le_rfl hok herr

/-! Conversions, before the revision is advanced. -/

/-- What converting a single prefix leaves. -/
inductive LegacyConverted (P : Promise) (isReconversion : Bool) (s : CompositionSession) :
    ImeReductionStatus → CompositionSession → Prop
  | window (c : CandidateSet) (hitems : c.items ≠ []) (hselected : c.selectedIndex = some 0)
      (hlive : c.liveCandidate = none) (hgen : c.generation = s.nextCandidateGeneration + 1) :
      LegacyConverted P isReconversion s .success
        { s with
          candidates := some c
          activeBoundary := c.items.head?.map (·.consumingCount)
          segments := []
          activeSegmentIndex := none
          nextCandidateGeneration := s.nextCandidateGeneration + 1
          phase := phaseAfterConversion isReconversion .previewing }
  | nothing : LegacyConverted P isReconversion s .success
      { s.clearConversion with phase := phaseAfterConversion isReconversion .composing }
  | failed (ht : Throws P) : LegacyConverted P isReconversion s .converterUnavailable
      { s.clearConversion with phase := phaseAfterConversion isReconversion .composing }

/-- What converting the whole composition leaves. -/
inductive Converted (P : Promise) (s : CompositionSession) :
    ImeReductionStatus → CompositionSession → Prop
  | empty (h : s.composingText.isEmpty = true) :
      Converted P s .success { s.clearConversion with phase := .idle }
  | segmented (h : s.composingText.isEmpty = false) (g : CompositionSegment)
      (segments : List CompositionSegment)
      (hb : Built s.composingText.elements.length s.nextCandidateGeneration (g :: segments)) :
      Converted P s .success
        { s with
          segments := g :: segments
          activeSegmentIndex := some 0
          candidates := some g.candidates
          activeBoundary := some g.inputCount
          nextCandidateGeneration :=
            s.nextCandidateGeneration + UInt64.ofNat (g :: segments).length
          composingText := s.composingText.moveCursorToEnd
          phase := phaseAfterConversion (s.phase = .reconverting) .previewing }
  | failed (h : s.composingText.isEmpty = false) (k : Nat)
      (hk : k ≤ s.composingText.elements.length) (ht : Throws P) :
      Converted P s .converterUnavailable
        { s.clearConversion with
          nextCandidateGeneration := s.nextCandidateGeneration + UInt64.ofNat k
          phase := phaseAfterConversion (s.phase = .reconverting) .composing }
  | legacy (h : s.composingText.isEmpty = false) {status : ImeReductionStatus}
      {u : CompositionSession} (hl : LegacyConverted P (s.phase = .reconverting) s status u) :
      Converted P s status u

def CompositionSession.advancedIf (s : CompositionSession) (advance : Bool) : CompositionSession :=
  if advance then s.advanceRevision else s

/-- Every conversion ends so. -/
theorem meets_conversionEnd {advance : Bool} {p : ReducerM ImeReductionResult}
    {Q : ImeReductionResult → CompositionSession → Prop}
    (h : Meets P p Q (s.advancedIf advance)) :
    Meets P (Prog.when (advance = true) advanceRevision >>= fun _ => p) Q s := by
  rw [meets_bind, meets_when]
  unfold CompositionSession.advancedIf at h
  split
  · rename_i ha
    rw [meets_advanceRevision]
    simpa only [if_pos ha] using h
  · rename_i ha
    simpa only [if_neg ha] using h

theorem meets_convertLegacy {isReconversion advance : Bool}
    {Q : ImeReductionResult → CompositionSession → Prop}
    (hQ : ∀ status u, LegacyConverted P isReconversion s status u →
      ∀ r, Reports P status [] r (u.advancedIf advance) → Q r (u.advancedIf advance)) :
    Meets P (convertLegacy isReconversion advance) Q s := by
  simp only [convertLegacy, meets_bind, meets_session]
  refine meets_converter benign_conversionOptions fun output ho => ?_
  cases output with
  | error e =>
    simp only [meets_bind, meets_endConverterComposition, meets_update,
      meets_clearConversionState]
    rw [← meets_bind]
    have ht : Throws P := ⟨_, _, e, .inl (ho trivial)⟩
    exact meets_conversionEnd (meets_failure (hQ _ _ (.failed ht)))
  | ok output =>
    dsimp only
    rw [meets_ite]
    split
    · simp only [meets_bind, meets_endConverterComposition, meets_update,
        meets_clearConversionState]
      rw [← meets_bind]
      exact meets_conversionEnd (meets_success (hQ _ _ .nothing))
    · rename_i hne
      simp only [meets_bind, meets_allocateCandidateGeneration, meets_update,
        meets_clearSegmentedConversion]
      rw [← meets_bind]
      let c : CandidateSet :=
        { generation := s.nextCandidateGeneration + 1
          items := windowItems output.candidates (snapshotID (s.nextCandidateGeneration + 1))
            s.composingText.elements.length
          selectedIndex := some 0
          pageSize := snapshotPageSize output.pageSize
            (windowItems output.candidates (snapshotID (s.nextCandidateGeneration + 1))
              s.composingText.elements.length).length
          origin := .conversion
          liveCandidate := none }
      have hc : c.items ≠ [] := by simpa [c, windowItems] using hne
      exact meets_conversionEnd (meets_success (hQ _ _ (.window c hc rfl rfl rfl)))

theorem meets_convert {advance : Bool} {Q : ImeReductionResult → CompositionSession → Prop}
    (hQ : ∀ status u, Converted P s status u →
      ∀ r, Reports P status [] r (u.advancedIf advance) → Q r (u.advancedIf advance)) :
    Meets P (convert advance) Q s := by
  simp only [convert, meets_bind, meets_session, meets_ite]
  split
  · rename_i h
    simp only [meets_update, meets_clearConversionState]
    rw [← meets_bind]
    exact meets_conversionEnd (meets_success (hQ _ _ (.empty h)))
  · rename_i h
    rw [Bool.not_eq_true] at h
    have hne : s.composingText.elements ≠ [] := CompositionBuffer.isEmpty_eq_false_iff.mp h
    rw [meets_lockCandidateOrder]
    refine meets_converter trivial fun supported _ => ?_
    split
    · rw [meets_endConverterComposition]
      refine meets_buildSegments (fun segments hb => ?_) fun e k hk ht => ?_
      · obtain ⟨g, gs, rfl⟩ :=
          List.exists_cons_of_ne_nil (hb.ne_nil (List.length_pos_iff.mpr hne))
        simp only [meets_bind, meets_update, activateSegment, meets_session, meets_ite,
          reduceCtorEq, if_false]
        rw [← meets_bind]
        exact meets_conversionEnd (meets_success (hQ _ _ (.segmented h g gs hb)))
      · simp only [meets_bind, meets_endConverterComposition, meets_update,
          meets_clearConversionState]
        rw [← meets_bind]
        exact meets_conversionEnd (meets_failure (hQ _ _ (.failed h k hk ht)))
    · exact meets_convertLegacy fun status u hu => hQ status u (.legacy h hu)

end Hazkey
