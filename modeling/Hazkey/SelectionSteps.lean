import Hazkey.EditingSteps

/-! The steps of conversions, of the choice among candidates and segments, and
of the commits and the cancellation that end them. -/

namespace Hazkey

open ServiceProgram

variable [SwiftText] [RecoveryCodec] {P : Promise} {s m u : CompositionSession}
  {action : ImeAction} {status : ImeReductionStatus} {effects : List ClientEffect}

/-! Conversions. -/

omit [SwiftText] [RecoveryCodec] in
theorem phaseAfterConversion_editing {b : Bool} {ph : ImePhase}
    (h : ph = .composing ∨ ph = .previewing) :
    phaseAfterConversion b ph = .composing ∨ phaseAfterConversion b ph = .reconverting ∨
      phaseAfterConversion b ph = .previewing := by
  cases b with
  | true => exact .inr (.inl rfl)
  | false =>
    rcases h with rfl | rfl
    · exact .inl rfl
    · exact .inr (.inr rfl)

omit [RecoveryCodec] in
/-- A conversion of one prefix of a sound session. -/
theorem LegacyConverted.coherent {b : Bool} (h : LegacyConverted P b m status u) (hs : Sound m)
    (hp : m.pendingLearningTransactions = []) (hm : m.composingText.elements ≠ []) :
    Coherent u := by
  cases h with
  | window c hitems hselected hlive hgen =>
    refine ⟨hs, ?_, partitioned_nil⟩
    unfold Phased
    dsimp only
    rw [hp]
    refine phased_editing (phaseAfterConversion_editing (.inr rfl)) hm fun _ w hw => ?_
    cases hw
    exact hlive
  | nothing =>
    refine ⟨hs, ?_, partitioned_nil⟩
    unfold Phased CompositionSession.clearConversion
    dsimp only
    rw [hp]
    exact phased_editing (phaseAfterConversion_editing (.inl rfl)) hm fun _ w hw => by cases hw
  | failed =>
    refine ⟨hs, ?_, partitioned_nil⟩
    unfold Phased CompositionSession.clearConversion
    dsimp only
    rw [hp]
    exact phased_editing (phaseAfterConversion_editing (.inl rfl)) hm fun _ w hw => by cases hw

omit [RecoveryCodec] in
theorem Converted.coherent (h : Converted P m status u) (hs : Sound m)
    (hp : m.pendingLearningTransactions = []) : Coherent u := by
  cases h with
  | empty he =>
    refine ⟨hs, ?_, partitioned_nil⟩
    unfold Phased CompositionSession.clearConversion
    dsimp only
    rw [CompositionBuffer.isEmpty_iff.mp he]
    exact phased_idle
  | segmented he g segments hb =>
    have hm := CompositionBuffer.isEmpty_eq_false_iff.mp he
    refine ⟨hs, ?_, ?_⟩
    · unfold Phased
      dsimp only
      rw [hp]
      refine phased_editing (phaseAfterConversion_editing (.inr rfl)) hm fun _ w hw => ?_
      cases hw
      exact (hb.wellFormed g (List.mem_cons_self ..)).live
    · exact partitioned_activate (l := g :: segments) hb.total hb.wellFormed
        (Nat.zero_lt_succ _)
  | failed he k hk =>
    have hm := CompositionBuffer.isEmpty_eq_false_iff.mp he
    refine ⟨hs, ?_, partitioned_nil⟩
    unfold Phased CompositionSession.clearConversion
    dsimp only
    rw [hp]
    exact phased_editing (phaseAfterConversion_editing (.inl rfl)) hm fun _ w hw => by cases hw
  | legacy he hl => exact hl.coherent hs hp (CompositionBuffer.isEmpty_eq_false_iff.mp he)

omit [SwiftText] [RecoveryCodec] in
/-- What no conversion changes. -/
theorem LegacyConverted.frame {b : Bool} (h : LegacyConverted P b m status u) :
    u =
      { m with
        phase := u.phase
        activeBoundary := u.activeBoundary
        candidates := u.candidates
        segments := u.segments
        activeSegmentIndex := u.activeSegmentIndex
        nextCandidateGeneration := u.nextCandidateGeneration } := by
  cases h <;> rfl

omit [SwiftText] [RecoveryCodec] in
theorem Converted.frame (h : Converted P m status u) :
    u =
      { m with
        phase := u.phase
        composingText := u.composingText
        activeBoundary := u.activeBoundary
        candidates := u.candidates
        segments := u.segments
        activeSegmentIndex := u.activeSegmentIndex
        nextCandidateGeneration := u.nextCandidateGeneration } ∧
      (u.composingText = m.composingText ∨ u.composingText = m.composingText.moveCursorToEnd) := by
  cases h with
  | empty => exact ⟨rfl, .inl rfl⟩
  | segmented => exact ⟨rfl, .inr rfl⟩
  | failed => exact ⟨rfl, .inl rfl⟩
  | legacy he hl =>
    exact ⟨congrArg (fun v : CompositionSession => { v with composingText := u.composingText })
      hl.frame, .inl (congrArg (·.composingText) hl.frame)⟩

omit [SwiftText] [RecoveryCodec] in
theorem LegacyConverted.not_rejects {b : Bool} (h : LegacyConverted P b m status u) :
    ¬ status.Rejects := by
  cases h <;> exact id

omit [SwiftText] [RecoveryCodec] in
theorem Converted.not_rejects (h : Converted P m status u) : ¬ status.Rejects := by
  cases h with
  | legacy he hl => exact hl.not_rejects
  | empty => exact id
  | segmented => exact id
  | failed => exact id

omit [SwiftText] [RecoveryCodec] in
theorem LegacyConverted.allocated {b : Bool} (h : LegacyConverted P b m status u)
    (hgen : m.nextCandidateGeneration = s.nextCandidateGeneration)
    (hm : m.composingText.elements ≠ []) : Allocated s u := by
  cases h with
  | window c hitems hselected hlive hg =>
    refine ⟨1, List.length_pos_iff.mpr hm, congrArg (· + 1) hgen, fun g hgu => ?_⟩
    obtain rfl : g = c.generation := by simpa [CompositionSession.windowGenerations] using hgu
    exact .inr ⟨1, le_rfl, le_rfl, hg.trans (congrArg (· + 1) hgen)⟩
  | nothing => exact allocated_cleared hgen rfl rfl
  | failed => exact allocated_cleared hgen rfl rfl

omit [SwiftText] [RecoveryCodec] in
/-- A conversion takes at most one generation for each element. -/
theorem Converted.allocated (h : Converted P m status u)
    (hgen : m.nextCandidateGeneration = s.nextCandidateGeneration) : Allocated s u := by
  cases h with
  | empty => exact allocated_cleared hgen rfl rfl
  | segmented he g segments hb =>
    refine ⟨(g :: segments).length, hb.length_le, by rw [← hgen], fun x hx => .inr ?_⟩
    have hmem : ∃ y ∈ g :: segments, y.candidates.generation = x := by
      simp only [CompositionSession.windowGenerations, Option.map_some, Option.toList_some,
        List.singleton_append, List.mem_cons, List.mem_map] at hx
      rcases hx with rfl | ⟨y, hy, rfl⟩
      · exact ⟨g, List.mem_cons_self .., rfl⟩
      · exact ⟨y, List.mem_cons.mpr hy, rfl⟩
    obtain ⟨y, hy, rfl⟩ := hmem
    obtain ⟨i, hi⟩ := List.getElem?_of_mem hy
    have hlt := (List.getElem?_eq_some_iff.mp hi).1
    exact ⟨i + 1, Nat.le_add_left 1 i, hlt, (hb.generation i y hi).trans (by rw [hgen])⟩
  | failed he k hk =>
    refine ⟨k, hk, congrArg (· + UInt64.ofNat k) hgen, fun g hg => ?_⟩
    simp [CompositionSession.windowGenerations, CompositionSession.clearConversion] at hg
  | legacy he hl =>
    exact hl.allocated hgen (CompositionBuffer.isEmpty_eq_false_iff.mp he)

omit [RecoveryCodec] in
/-- A session right after a conversion that began in `m`. -/
theorem Converted.ready (h : Converted P m status u) (hs : Sound m)
    (hp : m.pendingLearningTransactions = []) (hrev : m.revision = s.revision)
    (hnum : Numbered s.nextEffectID effects m.nextEffectID) (hlen : effects.length ≤ 2)
    (hgen : m.nextCandidateGeneration = s.nextCandidateGeneration) : Ready s effects u where
  coherent := h.coherent hs hp
  revision := (congrArg (·.revision) h.frame.1).trans hrev
  counted := by
    have he : u.nextEffectID = m.nextEffectID := congrArg (·.nextEffectID) h.frame.1
    exact ⟨he ▸ hnum, hlen, h.allocated hgen⟩

omit [SwiftText] [RecoveryCodec] in
/-- A conversion keeps what Unicode input has left. -/
theorem Converted.tidy (h : Converted P m status u)
    (ht : m.unicodeInputBuffer = [] ∧ m.phaseBeforeUnicodeInput = none) : Tidy u := by
  intro _
  have hb : u.unicodeInputBuffer = m.unicodeInputBuffer :=
    congrArg (·.unicodeInputBuffer) h.frame.1
  have hf : u.phaseBeforeUnicodeInput = m.phaseBeforeUnicodeInput :=
    congrArg (·.phaseBeforeUnicodeInput) h.frame.1
  exact ⟨hb.trans ht.1, hf.trans ht.2⟩

/-- A conversion that publishes itself. -/
theorem convert_stepped (hs : Sound m) (hp : m.pendingLearningTransactions = [])
    (hrev : m.revision = s.revision) (heff : m.nextEffectID = s.nextEffectID)
    (hgen : m.nextCandidateGeneration = s.nextCandidateGeneration)
    (ht : Tidy s → ¬ LeavesUnicode P s action →
      m.unicodeInputBuffer = [] ∧ m.phaseBeforeUnicodeInput = none) :
    Meets P (convert true) (Outcome P s action) m := by
  refine meets_convert fun status u hu r hr => ?_
  have hready : Ready s [] u := hu.ready hs hp hrev heff (Nat.zero_le _) hgen
  exact hr.outcome (hready.advanced hu.not_rejects fun hts hl => hu.tidy (ht hts hl))

theorem startConversion_stepped (hc : Coherent s) :
    Meets P startConversion (Outcome P s .startConversion) s := by
  unfold startConversion
  rw [meets_bind]
  refine meets_resolvePendingLearning hc.sound.unsecure ?_
  simp only [meets_bind, meets_clearLivePresentation, meets_session, meets_ite]
  have hs := hc.sound.resolved.withLive (q := none) fun _ => rfl
  have ht : Tidy s → ¬ LeavesUnicode P s .startConversion →
      s.unicodeInputBuffer = [] ∧ s.phaseBeforeUnicodeInput = none := fun ht hl => ht hl
  split
  · simp only [meets_endConverterComposition, meets_clearConversionState]
    exact convert_stepped hs rfl rfl rfl rfl ht
  · exact convert_stepped hs rfl rfl rfl rfl ht

/-! The window on show. -/

omit [SwiftText] [RecoveryCodec] in
theorem Allocated.of_subset (h : Allocated s m)
    (hes : u.composingText.elements = m.composingText.elements)
    (hgen : u.nextCandidateGeneration = m.nextCandidateGeneration)
    (hw : ∀ g ∈ u.windowGenerations, g ∈ m.windowGenerations) : Allocated s u := by
  obtain ⟨k, hk, hg, hold⟩ := h
  exact ⟨k, hes ▸ hk, hgen.trans hg, fun g hgu => hold g (hw g hgu)⟩

omit [SwiftText] [RecoveryCodec] in
/-- Candidates are held in the phases of editing and conversion only. -/
theorem Phased.of_candidates (h : Phased s) {w : CandidateSet} (hw : s.candidates = some w) :
    s.phase ≠ .idle ∧ s.phase ≠ .unicodeInput := by
  constructor
  · intro hp
    have := (h.idle hp).2.1
    simp [hw] at this
  · intro hp
    have := (h.unicode hp).1
    simp [hw] at this

omit [SwiftText] [RecoveryCodec] in
/-- Where no segment is active the boundary is free. -/
theorem PartitionedParts.boundary_free {es : List CompositionElement}
    {segments : List CompositionSegment} {c : Option CandidateSet} {d : Option Nat}
    (h : PartitionedParts es segments none c d) (d' : Option Nat) :
    PartitionedParts es segments none c d' where
  inactive := h.inactive
  total := h.total
  wellFormed := h.wellFormed
  active hn := by
    obtain ⟨i, g, hi, -⟩ := h.active hn
    cases hi

omit [RecoveryCodec] in
/-- The window on show replaced by one with the same generation and a selection. -/
theorem Ready.reselected (h : Ready s effects m) {w v : CandidateSet}
    (hw : m.candidates = some w) {i : Nat} (hsel : v.selectedIndex = some i)
    (hi : i < v.items.length) (hlive : v.liveCandidate = w.liveCandidate)
    (hgen : v.generation = w.generation) {segments : List CompositionSegment}
    {boundary : Option Nat}
    (hpart : PartitionedParts m.composingText.elements segments m.activeSegmentIndex (some v)
      boundary)
    (hold : ∀ g ∈ segments, g ∈ m.segments ∨ g.candidates = v) {x : LivePresentationState}
    (hx : m.policy.secureInput = true → x.materializedPrefix = none) :
    Ready s effects
      { m with
        candidates := some v
        segments := segments
        activeBoundary := boundary
        phase := .selecting
        livePresentation := x } := by
  have hc := h.coherent
  obtain ⟨hidle, hunicode⟩ := hc.phased.of_candidates hw
  refine ⟨⟨hc.sound.withLive hx, ?_, hpart⟩, h.revision, h.counted.numbered, h.counted.length_le,
    ?_⟩
  · unfold Phased
    dsimp only
    rw [hc.phased.pending_nil hidle]
    exact phased_selecting (hc.phased.editing hidle hunicode) hsel hi fun hs =>
      hlive.trans (hc.phased.live hs w hw)
  · refine h.counted.allocated.of_subset rfl rfl fun g hg => ?_
    simp only [CompositionSession.windowGenerations, hw, Option.map_some, Option.toList_some,
      List.singleton_append, List.mem_cons, List.mem_map] at hg ⊢
    rcases hg with rfl | ⟨y, hy, rfl⟩
    · exact .inl hgen
    · rcases hold y hy with hy | hy
      · exact .inr ⟨y, hy, rfl⟩
      · exact .inl ((congrArg (·.generation) hy).trans hgen)

omit [SwiftText] [RecoveryCodec] in
theorem navigate_selected {c : CandidateSet} {d : Int} (h : c.items ≠ []) :
    ∃ i < (c.navigate d).items.length, (c.navigate d).selectedIndex = some i := by
  have hpos : 0 < c.items.length := List.length_pos_iff.mpr h
  refine ⟨_, ?_, rfl⟩
  change (min (max _ (0 : Int)) ((c.items.length : Int) - 1)).toNat < c.items.length
  omega

/-- Navigation publishes the window with its selection moved. -/
theorem selectNavigated_stepped (h : Ready s [] m) {w : CandidateSet} {delta : Int}
    (hw : m.candidates = some w) (hitems : w.items ≠ [])
    (ht : Tidy s → ¬ LeavesUnicode P s action →
      m.unicodeInputBuffer = [] ∧ m.phaseBeforeUnicodeInput = none) :
    Meets P (selectNavigated (w.navigate delta)) (Outcome P s action) m := by
  obtain ⟨i, hi, hsel⟩ := navigate_selected (d := delta) hitems
  obtain ⟨segments, boundary, he, hpart, -, hold⟩ := h.coherent.partitioned.sync hw
    (v := w.navigate delta) ⟨i, hi, hsel⟩ (fun _ => id) rfl
  have hlive := fun hs => (h.coherent.sound.secure hs).2.2.2
  unfold selectNavigated
  simp only [meets_bind, meets_lockCandidateOrder, meets_update,
    meets_syncActiveSegmentCandidates, he, meets_advanceRevision]
  refine Stepped.success (Ready.advanced ?_ id fun hts hl _ => ht hts hl)
  refine h.reselected hw hsel hi rfl rfl ?_ hold hlive
  split
  · rename_i hn
    have hpart : PartitionedParts m.composingText.elements segments none
        (some (w.navigate delta)) boundary := hn ▸ hpart
    exact hn ▸ hpart.boundary_free _
  · exact hpart

/-- Navigation either moves the selection or fails as it found the session. -/
theorem navigateFrom_stepped {step : CandidateSet → Int} {message : String} (h : Ready s [] m)
    (hf : ¬ m.navigable → Stepped P s action .invalidAction [] m)
    (ht : Tidy s → ¬ LeavesUnicode P s action → m.phase ≠ .unicodeInput →
      m.unicodeInputBuffer = [] ∧ m.phaseBeforeUnicodeInput = none) :
    Meets P (navigateFrom step message) (Outcome P s action) m := by
  unfold navigateFrom
  rw [meets_bind, meets_session]
  cases hw : m.candidates with
  | none =>
    refine (hf ?_).failure
    rintro ⟨w, hw', -⟩
    simp [hw] at hw'
  | some w =>
    dsimp only
    rw [meets_ite]
    split
    · rename_i hn
      exact selectNavigated_stepped h hw hn.1 fun hts hl =>
        ht hts hl (h.coherent.phased.of_candidates hw).2
    · rename_i hn
      refine (hf ?_).failure
      rintro ⟨w', hw', hn'⟩
      obtain rfl : w = w' := by simpa [hw] using hw'
      exact hn hn'

theorem navigateCandidatePage_stepped {delta : Int} (hc : Coherent s) (hy : Synced s) :
    Meets P (navigateCandidatePage delta) (Outcome P s (.navigateCandidatePage delta)) s := by
  unfold navigateCandidatePage
  rw [meets_bind, meets_clearLivePresentation]
  have hready : Ready s [] s.clearLivePresentation :=
    hc.clearLivePresentation.ready rfl rfl rfl fun _ => id
  exact navigateFrom_stepped hready (fun hn => Stepped.unlit hc hy (.page _ hn))
    fun ht _ hp => ht hp

omit [SwiftText] [RecoveryCodec] in
/-- Whatever an explicit conversion found can be navigated. -/
theorem Converted.navigable (h : Converted P m status u) (hp : m.phase = .composing)
    (hc : u.candidates ≠ none) : u.navigable := by
  have hpre : phaseAfterConversion (decide (m.phase = .reconverting)) .previewing = .previewing := by
    simp [hp, phaseAfterConversion]
  cases h with
  | empty => exact absurd rfl hc
  | segmented he g segments hb =>
    obtain ⟨i, hi, -⟩ := (hb.wellFormed g (List.mem_cons_self ..)).selected
    exact ⟨g.candidates, rfl, List.length_pos_iff.mp (Nat.zero_lt_of_lt hi), .inr (.inl hpre)⟩
  | failed => exact absurd rfl hc
  | legacy he hl =>
    cases hl with
    | window c hitems => exact ⟨c, rfl, hitems, .inr (.inl hpre)⟩
    | nothing => exact absurd rfl hc
    | failed => exact absurd rfl hc

omit [SwiftText] [RecoveryCodec] in
/-- A failed conversion of an editable session leaves it as it was but for the
generations it used. -/
theorem Converted.failure (h : Converted P m.clearConversion status u)
    (hs : status ≠ .success) (hp : m.phase = .composing) :
    status = .converterUnavailable ∧ Throws P ∧ ∃ k ≤ m.composingText.elements.length,
      u = { m.clearConversion with
        nextCandidateGeneration := m.nextCandidateGeneration + UInt64.ofNat k } := by
  have hph : phaseAfterConversion (decide (m.clearConversion.phase = .reconverting)) .composing =
      m.phase := by
    simp [CompositionSession.clearConversion, hp, phaseAfterConversion]
  cases h with
  | empty => exact absurd rfl hs
  | segmented => exact absurd rfl hs
  | failed he k hk ht =>
    refine ⟨rfl, ht, k, hk, ?_⟩
    rw [hph]
    rfl
  | legacy he hl =>
    cases hl with
    | window => exact absurd rfl hs
    | nothing => exact absurd rfl hs
    | failed ht =>
      refine ⟨rfl, ht, 0, Nat.zero_le _, ?_⟩
      rw [hph]
      simp [CompositionSession.clearConversion]

theorem navigateCandidate_stepped {delta : Int} (hc : Coherent s) (hy : Synced s) :
    Meets P (navigateCandidate delta) (Outcome P s (.navigateCandidate delta)) s := by
  unfold navigateCandidate
  rw [meets_bind, meets_clearLivePresentation, meets_bind, meets_session, meets_ite]
  split
  · rename_i hun
    have hp : s.phase = .composing := hun.1
    have hne : s.phase ≠ .unicodeInput := by simp [hp]
    have hpend : s.pendingLearningTransactions = [] := hc.phased.pending_nil (by simp [hp])
    have hs : Sound s.clearLivePresentation.clearConversion := hc.clearLivePresentation.sound
    simp only [meets_bind, meets_endConverterComposition, meets_clearConversionState]
    refine meets_convert fun status u hu r hr => ?_
    have hready : Ready s [] u := hu.ready hs hpend rfl rfl (Nat.zero_le _) rfl
    rw [meets_ite]
    split
    · rw [meets_bind, meets_session, meets_ite]
      split
      · simp only [meets_bind, meets_advanceRevision]
        exact (hready.advanced id fun ht _ => hu.tidy (ht hne)).success
      · rename_i hcand
        refine navigateFrom_stepped hready (fun hn => absurd (hu.navigable hp hcand) hn)
          fun ht _ hph => ?_
        exact hu.tidy (ht hne) hph
    · rename_i hst
      obtain ⟨rfl, ht, k, hk, rfl⟩ := hu.failure (hr.status ▸ hst) hp
      refine hr.outcome
        { coherent := hready.coherent
          synced := ⟨hy.frame, hy.unicode, hy.secure, hy.elements⟩
          moved := .undone (.convert delta k hun ht)
          counted := .inl hready.counted
          cut := fun c h => .inl ⟨h, fun w hw => ?_⟩
          tidy := fun ht _ => ht }
      cases hw
  · rename_i hun
    have hready : Ready s [] s.clearLivePresentation :=
      hc.clearLivePresentation.ready rfl rfl rfl fun _ => id
    exact navigateFrom_stepped hready
      (fun hn => Stepped.unlit hc hy (.navigate _ hn hun)) fun ht _ hp => ht hp

/-- A chosen candidate is published as the selection of its window. -/
theorem selectCandidate_stepped {wanted : Text} {generation : UInt64} (hc : Coherent s)
    (hy : Synced s) :
    Meets P (selectCandidate wanted generation) (Outcome P s (.selectCandidate wanted generation)) s := by
  unfold selectCandidate
  rw [meets_bind, meets_session]
  cases hf : (s.candidates.filter fun c => c.generation = generation).bind fun c =>
      (c.items.findIdx? fun item => item.id = wanted).map fun i => (c, i) with
  | none => exact (Stepped.kept hc hy).failure
  | some found =>
    obtain ⟨w, i⟩ := found
    obtain ⟨c, hw, hfound⟩ := Option.bind_eq_some_iff.mp hf
    obtain ⟨j, hj, heq⟩ := Option.map_eq_some_iff.mp hfound
    obtain ⟨rfl, rfl⟩ : c = w ∧ j = i := by simpa using heq
    have hw : s.candidates = some c := (Option.filter_eq_some_iff.mp hw).1
    have hi : j < c.items.length := (List.findIdx?_eq_some_iff_getElem.mp hj).1
    obtain ⟨segments, boundary, he, hpart, -, hold⟩ := hc.partitioned.sync hw
      (v := { c with selectedIndex := some j }) ⟨j, hi, rfl⟩ (fun _ => id) rfl
    simp only [meets_bind, meets_lockCandidateOrder, meets_update,
      meets_syncActiveSegmentCandidates, he, meets_clearLivePresentation, meets_advanceRevision]
    have hready : Ready s [] _ := (Ready.refl hc).reselected hw (v := { c with selectedIndex := some j })
      rfl hi rfl rfl hpart hold (x := .empty) fun _ => rfl
    exact (hready.advanced id fun ht _ _ =>
      ht (hc.phased.of_candidates hw).2).success

/-- Forgetting publishes the window again, unless the candidate is not on show. -/
theorem forgetCandidate_stepped {wanted : Text} {generation : UInt64} (hc : Coherent s)
    (hy : Synced s) :
    Meets P (forgetCandidate wanted generation) (Outcome P s (.forgetCandidate wanted generation)) s := by
  have hready : Ready s [] s.clearLivePresentation :=
    hc.clearLivePresentation.ready rfl rfl rfl fun _ => id
  have hdone : Stepped P s (.forgetCandidate wanted generation) .success []
      s.clearLivePresentation.advanceRevision :=
    hready.advanced id fun ht _ => ht
  unfold forgetCandidate
  rw [meets_bind, meets_clearLivePresentation, meets_bind, meets_session, meets_ite]
  split
  · rename_i hsec
    cases hf : s.clearLivePresentation.candidate wanted generation with
    | none => exact (Stepped.unlit hc hy (.forgetStale wanted generation hf)).failure
    | some c =>
      dsimp only
      rw [meets_ite]
      split
      · rw [meets_bind, meets_forget hsec]
        simp only [meets_bind, meets_advanceRevision]
        exact hdone.success
      · simp only [meets_bind, meets_advanceRevision]
        exact hdone.success
  · rename_i hsec
    have hsec : s.policy.secureInput = true := eq_true_of_ne_false hsec
    exact (Stepped.unlit hc hy (.forgetSecure wanted generation hsec)).failure

/-! Segments. -/

omit [SwiftText] [RecoveryCodec] in
theorem holdsCandidates_editing (h : s.phase.holdsCandidates) :
    s.phase ≠ .idle ∧ s.phase ≠ .unicodeInput := by
  rcases h with h | h | h | h <;> simp [h]

omit [SwiftText] [RecoveryCodec] in
/-- Whatever index is asked for, a segment of the list is activated. -/
theorem meets_activateSegment (h : s.segments ≠ []) {n : Int}
    {Q : Unit → CompositionSession → Prop}
    (hQ : ∀ i g, s.segments[i]? = some g → Q ()
      { s with
        activeSegmentIndex := some i
        candidates := some g.candidates
        activeBoundary := some g.inputCount }) :
    Meets P (activateSegment n) Q s := by
  have hpos : 0 < s.segments.length := List.length_pos_iff.mpr h
  have hi : (min (max n 0) (s.segments.length - 1 : Nat)).toNat < s.segments.length := by omega
  rw [activateSegment, meets_bind, meets_session, meets_ite, if_neg h, meets_update]
  simpa only [List.getElem?_eq_getElem hi, Option.map_some] using
    hQ _ _ (List.getElem?_eq_getElem hi)

omit [RecoveryCodec] in
/-- A partition with any of its segments activated for selection. -/
theorem Sound.activated (h : Sound m) (hp : m.pendingLearningTransactions = [])
    (hm : m.composingText.elements ≠ []) {segments : List CompositionSegment}
    (ht : segmentsTotal segments = m.composingText.elements.length)
    (hw : ∀ g ∈ segments, g.WellFormed) {i : Nat} {g : CompositionSegment}
    (hg : segments[i]? = some g) (next : UInt64) :
    Coherent
      { m with
        segments := segments
        activeSegmentIndex := some i
        candidates := some g.candidates
        activeBoundary := some g.inputCount
        nextCandidateGeneration := next
        phase := .selecting } := by
  have hi : i < segments.length := (List.getElem?_eq_some_iff.mp hg).1
  obtain ⟨-, ⟨j, hj, hsel⟩, -, hlive⟩ := hw g (List.mem_of_getElem? hg)
  refine ⟨h, ?_, ?_⟩
  · unfold Phased
    dsimp only
    rw [hp]
    exact phased_selecting hm hsel hj fun _ => hlive
  · have hpart := partitioned_activate ht hw hi
    rwa [hg] at hpart

theorem moveActiveSegment_stepped {delta : Int} (hc : Coherent s) (hy : Synced s) :
    Meets P (moveActiveSegment delta) (Outcome P s (.moveActiveSegment delta)) s := by
  unfold moveActiveSegment
  rw [meets_bind, meets_session]
  cases hindex : s.activeSegmentIndex with
  | none => exact (Stepped.kept hc hy).failure
  | some activeIndex =>
    dsimp only
    rw [meets_ite]
    split
    · rename_i hp
      obtain ⟨hne, hconv⟩ := hp
      have hph : s.phase ≠ .idle ∧ s.phase ≠ .unicodeInput :=
        holdsCandidates_editing (.inr hconv)
      simp only [meets_bind, meets_lockCandidateOrder]
      refine meets_activateSegment hne fun i g hg => ?_
      simp only [meets_update, meets_advanceRevision]
      have hcoh := hc.sound.activated (hc.phased.pending_nil hph.1)
        (hc.phased.editing hph.1 hph.2) (hc.partitioned.total hne) hc.partitioned.wellFormed hg
        s.nextCandidateGeneration
      have hready : Ready s [] _ := hcoh.ready rfl rfl rfl fun x hx => by
        simp only [CompositionSession.windowGenerations, Option.map_some, Option.toList_some,
          List.singleton_append, List.mem_cons, List.mem_append] at hx ⊢
        rcases hx with rfl | hx
        · exact .inr (List.mem_map.mpr ⟨g, List.mem_of_getElem? hg, rfl⟩)
        · exact .inr hx
      exact (hready.advanced id fun ht _ _ => ht hph.2).success
    · exact (Stepped.kept hc hy).failure

omit [SwiftText] [RecoveryCodec] in
theorem editablePhase_editing (s : CompositionSession) :
    s.editablePhase = .composing ∨ s.editablePhase = .reconverting := by
  unfold CompositionSession.editablePhase
  split
  · exact .inl rfl
  · exact .inr rfl

omit [RecoveryCodec] in
/-- The candidates dropped from a composition under edit. -/
theorem Sound.unconverted (h : Sound m) (hp : m.pendingLearningTransactions = [])
    (hm : m.composingText.elements ≠ []) (next : UInt64) :
    Coherent
      { m.clearConversion with phase := m.editablePhase, nextCandidateGeneration := next } := by
  refine ⟨h, ?_, partitioned_nil⟩
  unfold Phased CompositionSession.clearConversion
  dsimp only
  rw [hp]
  refine phased_editing ?_ hm fun _ w hw => by cases hw
  rcases editablePhase_editing m with he | he
  · exact .inl he
  · exact .inr (.inl he)

/-- Without segments the boundary of the one prefix moves. -/
theorem resizeLegacySegment_stepped {delta : Int} (hc : Coherent s) (hy : Synced s)
    (hp : s.phase.holdsCandidates) :
    Meets P (resizeLegacySegment delta) (Outcome P s (.resizeSegment delta)) s := by
  obtain ⟨hidle, hunicode⟩ := holdsCandidates_editing hp
  have hm : s.composingText.elements ≠ [] := hc.phased.editing hidle hunicode
  have hpend : s.pendingLearningTransactions = [] := hc.phased.pending_nil hidle
  unfold resizeLegacySegment
  rw [meets_bind, meets_session]
  dsimp only
  rw [meets_ite]
  split
  · exact (Stepped.kept hc hy).success
  · simp only [meets_bind, meets_invalidateSpeculation, meets_endConverterComposition,
      meets_update, meets_clearSegmentedConversion, meets_session]
    refine meets_convertLegacy fun status u hu r hr => ?_
    have hcoh : Coherent u := hu.coherent hc.sound hpend hm
    have hframe := hu.frame
    have hrev : u.revision = s.revision := congrArg (·.revision) hframe
    have heff : u.nextEffectID = s.nextEffectID := congrArg (·.nextEffectID) hframe
    have hall : Allocated s u := hu.allocated rfl hm
    rw [meets_ite]
    split
    · simp only [meets_bind, meets_update, meets_advanceRevision]
      refine Stepped.success (Ready.advanced ⟨?_, hrev, heff, Nat.zero_le _, hall⟩ id
        fun ht _ _ => ?_)
      · cases hu with
        | window c hitems hselected hlive =>
          refine ⟨hc.sound, ?_, partitioned_nil⟩
          unfold Phased CompositionSession.advancedIf
          dsimp only
          rw [hpend]
          exact phased_selecting hm hselected (List.length_pos_iff.mpr hitems) fun _ => hlive
        | nothing => exact hcoh
        | failed => exact hcoh
      · have hb : u.unicodeInputBuffer = s.unicodeInputBuffer :=
          congrArg (·.unicodeInputBuffer) hframe
        have hf : u.phaseBeforeUnicodeInput = s.phaseBeforeUnicodeInput :=
          congrArg (·.phaseBeforeUnicodeInput) hframe
        exact ⟨hb.trans (ht hunicode).1, hf.trans (ht hunicode).2⟩
    · rename_i hst
      have hst : status ≠ .success := hr.status ▸ hst
      cases hu with
      | window => exact absurd rfl hst
      | nothing => exact absurd rfl hst
      | failed ht =>
        have hph : phaseAfterConversion (decide (s.editablePhase = .reconverting)) .composing =
            s.editablePhase := by
          rcases editablePhase_editing s with he | he <;> rw [he] <;> rfl
        have hu : s.editablePhase ≠ .unicodeInput := by
          rcases editablePhase_editing s with he | he <;> rw [he] <;> decide
        have hstep : Stepped P s (.resizeSegment delta) .converterUnavailable []
            { s.clearConversion with phase := s.editablePhase } :=
          { coherent := hc.sound.unconverted hpend hm s.nextCandidateGeneration
            synced := ⟨hy.frame, fun c h => iff_of_false (fun hcp => hunicode
              ((hy.unicode c h).mp hcp)) hu, hy.secure, hy.elements⟩
            moved := .undone (.resize delta hp ht)
            counted := .inl ⟨rfl, Nat.zero_le _, allocated_cleared rfl rfl rfl⟩
            cut := fun c h => .inl ⟨h, fun w hw => by cases hw⟩
            tidy := fun ht _ _ => ht hunicode }
        refine hr.outcome ?_
        rw [← hph] at hstep
        exact hstep

omit [SwiftText] [RecoveryCodec] in
theorem segmentsTotal_append (gs hs : List CompositionSegment) :
    segmentsTotal (gs ++ hs) = segmentsTotal gs + segmentsTotal hs := by
  simp [segmentsTotal]

omit [SwiftText] [RecoveryCodec] in
/-- The kept segments are segments, and end before the composition does. -/
theorem Partitioned.keptSegments (h : Partitioned s) (hm : s.composingText.elements ≠ []) :
    s.keptSegments ⊆ s.segments ∧
      segmentsTotal s.keptSegments < s.composingText.elements.length := by
  have hpos : 0 < s.composingText.elements.length := List.length_pos_iff.mpr hm
  unfold CompositionSession.keptSegments
  split
  · rename_i hi
    refine ⟨List.take_subset _ _, ?_⟩
    have hne : s.segments ≠ [] := by
      intro hs
      simp [hs] at hi
    have ht := h.total hne
    rw [← List.take_append_drop (s.activeSegmentIndex.getD 0) s.segments,
      segmentsTotal_append] at ht
    -- the active segment itself is not kept
    have hrest : 1 ≤ segmentsTotal (s.segments.drop (s.activeSegmentIndex.getD 0)) := by
      have hlen := length_le_segmentsTotal
        (l := s.segments.drop (s.activeSegmentIndex.getD 0))
        fun g hg => h.wellFormed g (List.mem_of_mem_drop hg)
      rw [List.length_drop] at hlen
      omega
    omega
  · exact ⟨List.nil_subset _, hpos⟩

/-- A rebuilt suffix follows the kept segments. -/
theorem rebuildSegments_stepped {newCount : Nat} {left : Text} {delta : Int} (hc : Coherent s)
    (hp : s.phase.holdsCandidates) :
    Meets P (rebuildSegments s.keptSegments
      (s.composingText.elements.drop (segmentsTotal s.keptSegments)) newCount left)
      (Outcome P s (.resizeSegment delta)) s := by
  obtain ⟨hidle, hunicode⟩ := holdsCandidates_editing hp
  have hm : s.composingText.elements ≠ [] := hc.phased.editing hidle hunicode
  have hpend : s.pendingLearningTransactions = [] := hc.phased.pending_nil hidle
  obtain ⟨hsub, hlt⟩ := hc.partitioned.keptSegments hm
  unfold rebuildSegments
  simp only [meets_bind, meets_session, meets_invalidateSpeculation,
    meets_endConverterComposition]
  refine meets_buildSegments (fun segments hb => ?_) fun e k hk ht => ?_
  · have hlen : (s.composingText.elements.drop (segmentsTotal s.keptSegments)).length =
        s.composingText.elements.length - segmentsTotal s.keptSegments := List.length_drop ..
    have hne : s.keptSegments ++ segments ≠ [] :=
      List.append_ne_nil_of_right_ne_nil _ (hb.ne_nil (by omega))
    have htotal : segmentsTotal (s.keptSegments ++ segments) = s.composingText.elements.length := by
      rw [segmentsTotal_append, hb.total]
      omega
    have hw : ∀ g ∈ s.keptSegments ++ segments, g.WellFormed := fun g hg =>
      (List.mem_append.mp hg).elim (fun hg => hc.partitioned.wellFormed g (hsub hg))
        (hb.wellFormed g)
    simp only [meets_bind, meets_update]
    refine meets_activateSegment hne fun i g hg => ?_
    simp only [meets_retireCandidateWindowIfNoLearnableCandidateRemains, meets_advanceRevision]
    refine Stepped.success (Ready.advanced ⟨?_, rfl, rfl, Nat.zero_le _, ?_⟩ id
      fun ht _ _ => ht hunicode)
    · exact hc.sound.activated hpend hm htotal hw hg _
    · refine ⟨segments.length, ?_, rfl, fun x hx => ?_⟩
      · have := hb.length_le
        change segments.length ≤ s.composingText.elements.length
        omega
      have hx : ∃ y ∈ s.keptSegments ++ segments, y.candidates.generation = x := by
        simp only [CompositionSession.windowGenerations, Option.map_some, Option.toList_some,
          List.singleton_append, List.mem_cons, List.mem_map] at hx
        rcases hx with rfl | ⟨y, hy, rfl⟩
        · exact ⟨g, List.mem_of_getElem? hg, rfl⟩
        · exact ⟨y, hy, rfl⟩
      obtain ⟨y, hy, rfl⟩ := hx
      rcases List.mem_append.mp hy with hy | hy
      · exact .inl (List.mem_append_right _ (List.mem_map.mpr ⟨y, hsub hy, rfl⟩))
      · obtain ⟨j, hj⟩ := List.getElem?_of_mem hy
        have hjlt := (List.getElem?_eq_some_iff.mp hj).1
        exact .inr ⟨j + 1, Nat.le_add_left 1 j, hjlt, hb.generation j y hj⟩
  · simp only [meets_bind, meets_update, meets_clearConversionState, meets_advanceRevision]
    refine Stepped.failure (Ready.advanced ⟨?_, rfl, rfl, Nat.zero_le _, ?_⟩ id
      fun ht _ _ => ht hunicode)
    · exact hc.sound.unconverted hpend hm _
    · refine ⟨k, ?_, rfl, fun g hg => ?_⟩
      · rw [List.length_drop] at hk
        exact le_trans hk (Nat.sub_le _ _)
      · simp [CompositionSession.windowGenerations, CompositionSession.clearConversion] at hg

theorem resizeSegment_stepped {delta : Int} (hc : Coherent s) (hy : Synced s) :
    Meets P (resizeSegment delta) (Outcome P s (.resizeSegment delta)) s := by
  have hkept : Stepped P s (.resizeSegment delta) .success [] s := Stepped.kept hc hy
  unfold resizeSegment
  rw [meets_bind, meets_session, meets_ite]
  split
  · rename_i hp
    rw [meets_bind]
    refine meets_converter trivial fun supported _ => ?_
    rw [meets_ite]
    split
    · dsimp only
      rw [meets_bind]
      refine meets_converter trivial fun moved _ => ?_
      rw [meets_bind]
      refine meets_converter trivial fun first _ => ?_
      generalize (if 0 < moved then moved else first) = stable
      rw [meets_ite]
      split
      · rw [meets_ite]
        split
        · exact hkept.success
        · exact rebuildSegments_stepped hc hp.2
      · exact hkept.success
    · exact resizeLegacySegment_stepped hc hy hp.2
  · exact (Stepped.kept hc hy).failure

end Hazkey
