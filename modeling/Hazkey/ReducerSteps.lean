import Hazkey.CommitSteps

/-! The steps of transforms, reconversion, Unicode input, recovery and
lifecycle, and with them the step of every action. -/

namespace Hazkey

open ServiceProgram

variable [SwiftText] [RecoveryCodec] {P : Promise} {s m u : CompositionSession}
  {action : ImeAction}

/-! Transforms. -/

omit [RecoveryCodec] in
/-- The alphabet transforms keep a Character one Character. -/
theorem wellFormed_transformElements {elements : List CompositionElement}
    {transform : ImeTextTransform} (ha : transform.isAlphabet = true)
    (h : elements.all CompositionElement.wellFormed = true) :
    (transformElements elements transform).all CompositionElement.wellFormed = true := by
  have hcase : transform = .alphabetFullwidth ∨ transform = .alphabetHalfwidth := by
    cases transform <;> simp [ImeTextTransform.isAlphabet] at ha ⊢
  rw [List.all_eq_true] at *
  intro e he
  obtain ⟨x, hx, rfl⟩ := List.mem_map.mp he
  have hw := h x hx
  simp only [CompositionElement.wellFormed, Bool.and_eq_true] at hw
  simp [CompositionElement.wellFormed, CompositionElement.make, characterCount_alphabet hcase,
    hw.1.1]

/-- Raw elements are transformed in place. -/
theorem transformComposition_stepped {transform : ImeTextTransform} (hc : Coherent s)
    (hy : Synced s) (hp : s.phase = .composing) (ha : transform.isAlphabet = true) :
    Meets P (transformComposition transform false)
      (Outcome P s (.transformActiveSegment transform)) s := by
  have hkept : Stepped P s (.transformActiveSegment transform) .success [] s :=
    Stepped.kept hc hy
  have hi : s.phase ≠ .idle := by simp [hp]
  have hu : s.phase ≠ .unicodeInput := by simp [hp]
  unfold transformComposition
  rw [meets_bind, meets_session]
  dsimp only
  simp only [meets_ite, meets_bind, meets_when, Bool.false_eq_true, if_false]
  split
  · exact hkept.success
  split
  · exact hkept.success
  simp only [meets_invalidateSpeculation, meets_clearLivePresentation,
    meets_endConverterComposition, meets_clearConversionState, meets_update,
    meets_advanceRevision, meets_prepareSpeculativeConversion]
  have hne : transformElements s.composingText.elements transform ≠ [] := by
    simpa [transformElements] using hc.phased.editing hi hu
  refine Stepped.success (Ready.advanced ⟨⟨?_, ?_, partitioned_nil⟩, rfl, rfl, Nat.zero_le _,
    allocated_cleared rfl rfl rfl⟩ id fun ht _ _ => ht hu)
  · exact (hc.sound.withLive fun _ => rfl).withElements fun _ he =>
      wellFormed_transformElements ha he
  · unfold Phased CompositionSession.clearConversion CompositionSession.clearLivePresentation
    dsimp only
    rw [hc.phased.pending_nil hi]
    exact phased_editing (.inl hp) hne fun _ w hw => by cases hw

omit [SwiftText] [RecoveryCodec] in
theorem selection_eq_some {w : CandidateSet} {i : Nat} (h : s.selection = some (w, i)) :
    s.candidates = some w ∧ w.selectedIndex = some i ∧ i < w.items.length := by
  obtain ⟨c, hc, hi⟩ := Option.bind_eq_some_iff.mp h
  obtain ⟨j, hj, he⟩ := Option.map_eq_some_iff.mp hi
  obtain ⟨rfl, rfl⟩ : c = w ∧ j = i := by simpa using he
  obtain ⟨hsel, hlt⟩ := Option.filter_eq_some_iff.mp hj
  exact ⟨hc, hsel, by simpa using hlt⟩

omit [SwiftText] [RecoveryCodec] in
/-- A replaced item consumes what the old one did. -/
theorem retext_consuming {w : CandidateSet} {i : Nat} {text : Text} {n : Nat}
    (h : ∀ c ∈ w.items, c.consumingCount = n) :
    ∀ c ∈ (w.retext i text).items, c.consumingCount = n := by
  intro c hc
  obtain ⟨j, hj⟩ := List.getElem?_of_mem hc
  rw [CandidateSet.retext, List.getElem?_modify] at hj
  obtain ⟨x, hx, rfl⟩ := Option.map_eq_some_iff.mp hj
  have hm := h x (List.mem_of_getElem? hx)
  by_cases hij : i = j
  · simpa [hij] using hm
  · simpa [hij] using hm

/-- A transform of the selected candidate, or of the whole reading. -/
theorem transformSelection_stepped {transform : ImeTextTransform} (hc : Coherent s)
    (hy : Synced s) (hcase : ¬ (s.phase = .composing ∧ transform.isAlphabet = true)) :
    Meets P (transformSelection transform (decide (s.pendingLearningTransactions ≠ [])))
      (Outcome P s (.transformActiveSegment transform))
      { s with pendingLearningTransactions := [] } := by
  have hn : Coherent ({ s with pendingLearningTransactions := [] }).clearLivePresentation :=
    hc.resolved.clearLivePresentation
  have hstart : Ready s [] ({ s with pendingLearningTransactions := [] }).clearLivePresentation :=
    hn.ready rfl rfl rfl fun _ => id
  -- where nothing was pending, an empty transform only drops the live presentation
  have hempty : s.pendingLearningTransactions = [] → EmptyTransform P s transform →
      Stepped P s (.transformActiveSegment transform) .success []
        ({ s with pendingLearningTransactions := [] }).clearLivePresentation := by
    intro hp he
    have hs : { s with pendingLearningTransactions := [] } = s := by rw [← hp]
    rw [hs]
    exact Stepped.unlit hc hy (.transform transform he hcase)
  unfold transformSelection
  rw [meets_bind, meets_clearLivePresentation, meets_bind, meets_session]
  cases hsel : ({ s with
      pendingLearningTransactions := [] }).clearLivePresentation.selection with
  | some found =>
    obtain ⟨w, i⟩ := found
    obtain ⟨hw, hi, hlt⟩ := selection_eq_some hsel
    have hw : s.candidates = some w := hw
    obtain ⟨hidle, hunicode⟩ := hc.phased.of_candidates hw
    have hpend : s.pendingLearningTransactions = [] := hc.phased.pending_nil hidle
    dsimp only
    rw [meets_ite]
    split
    · rename_i he
      rw [meets_bind, meets_when, if_neg (by simp [hpend])]
      refine (hempty hpend ?_).success
      unfold EmptyTransform
      rw [show s.selection = some (w, i) from hsel]
      exact he
    · generalize transformText _ transform = transformed
      have hlen : (w.retext i transformed).items.length = w.items.length := by
        simp [CandidateSet.retext]
      obtain ⟨segments, boundary, he, hpart, -, hold⟩ := hn.partitioned.sync hw
        (v := w.retext i transformed) ⟨i, hlen ▸ hlt, hi⟩ (fun _ => retext_consuming) rfl
      simp only [meets_bind, meets_invalidateSpeculation, meets_update,
        meets_syncActiveSegmentCandidates, he,
        meets_retireCandidateWindowIfNoLearnableCandidateRemains, meets_advanceRevision]
      have hready := hstart.reselected hw (v := w.retext i transformed) hi (hlen ▸ hlt) rfl rfl
        hpart hold (x := .empty) fun _ => rfl
      exact (hready.advanced id fun ht _ _ => ht hunicode).success
  | none =>
    dsimp only
    rw [meets_bind]
    refine meets_converter trivial fun display hd => ?_
    rw [meets_ite]
    split
    · rename_i he
      rw [meets_bind, meets_when]
      split
      · rw [meets_advanceRevision]
        exact (hstart.advanced id fun ht _ => ht).success
      · rename_i hp
        refine (hempty (by simpa using hp) ?_).success
        unfold EmptyTransform
        rw [show s.selection = none from hsel]
        exact ⟨display, hd trivial, he⟩
    · rename_i he
      simp only [meets_bind, meets_invalidateSpeculation, meets_endConverterComposition,
        meets_clearConversionState, meets_update, meets_advanceRevision,
        meets_prepareSpeculativeConversion]
      refine Stepped.success (Ready.advanced ⟨⟨?_, ?_, partitioned_nil⟩, rfl, rfl, Nat.zero_le _,
        allocated_cleared rfl rfl rfl⟩ id fun ht hl _ => ht fun hu => hl ?_)
      · exact hn.sound.withElements fun _ _ =>
          wellFormed_insert rfl (wellFormed_directElements _)
      · exact phased_editing (.inl rfl) (CompositionBuffer.insert_elements_ne_nil he)
          fun _ w hw => by cases hw
      · exact ⟨hu, display, hd trivial, he⟩

theorem transformActiveSegment_stepped {transform : ImeTextTransform} (hc : Coherent s)
    (hy : Synced s) :
    Meets P (transformActiveSegment transform) (Outcome P s (.transformActiveSegment transform))
      s := by
  unfold transformActiveSegment
  rw [meets_bind, meets_session, meets_bind]
  by_cases hcase : s.phase = .composing ∧ transform.isAlphabet = true
  · rw [meets_resolvePendingLearning_nil (hc.phased.pending_nil (by simp [hcase.1])), meets_ite,
      if_pos hcase]
    exact transformComposition_stepped hc hy hcase.1 hcase.2
  · refine meets_resolvePendingLearning hc.sound.unsecure ?_
    rw [meets_ite, if_neg hcase]
    exact transformSelection_stepped hc hy hcase

/-! Reconversion. -/

/-- A policy pinned without a change of domain shows nothing. -/
theorem Pinned.stepped {status : ImeReductionStatus} (h : Pinned s u false) (hc : Coherent s)
    (hy : Synced s) (hs : ¬ status.Rejects) : Stepped P s action status [] u := by
  have hcount := h.ready.counted
  have hkept := h.unicode
  obtain ⟨hsec, rfl | ⟨hidle, hu⟩⟩ := h.unchanged rfl
  · exact Stepped.kept hc hy
  obtain ⟨policy, revision, rfl⟩ : ∃ policy revision, u =
      { s with
        policy := policy
        context := { s.context with projectRevision := revision } } := ⟨_, _, hu⟩
  exact
    { coherent := h.coherent
      synced := ⟨hy.frame, hy.unicode, hy.secure, hy.elements⟩
      moved := .rested hs hidle hsec rfl
      counted := .inl hcount
      cut := fun c hcp => .inl ⟨hcp, fun _ => id⟩
      tidy := fun ht _ hp => ht.kept hp hkept }

omit [RecoveryCodec] in
/-- Only an idle session changes its domain, so a session in Unicode input keeps it. -/
theorem Pinned.secureInput_eq {b : Bool} (h : Pinned s u b) (hp : s.phase ≠ .idle) :
    u.policy.secureInput = s.policy.secureInput := by
  cases b with
  | true => exact absurd (h.idle rfl) hp
  | false => exact (h.unchanged rfl).1

theorem reconvert_stepped {text leftContext rightContext : Text} {deleteBefore deleteAfter : Int}
    {provider : Option PinnedCompositionPolicy} (hc : Coherent s) (hy : Synced s) :
    Meets P (reconvert text leftContext rightContext deleteBefore deleteAfter provider)
      (Outcome P s (.reconvert text leftContext rightContext deleteBefore deleteAfter)) s := by
  unfold reconvert
  rw [meets_ite]
  split
  swap
  · exact (Stepped.kept hc hy).failure
  rename_i htext
  dsimp only
  rw [meets_ite]
  split
  swap
  · exact (Stepped.kept hc hy).failure
  rename_i hcount
  rw [meets_bind]
  refine meets_pinCompositionPolicyIfNeeded hc fun changed u hu => ?_
  rw [meets_bind, meets_session, meets_ite]
  split
  · rename_i hsec
    simp only [meets_bind, meets_invalidateSpeculation]
    refine meets_resolvePendingLearning hu.coherent.sound.unsecure ?_
    simp only [meets_clearLivePresentation, meets_endConverterComposition, meets_update,
      meets_clearConversionState]
    refine convert_stepped ?_ rfl (congrArg (·.revision) hu.frame)
      (congrArg (·.nextEffectID) hu.frame) (congrArg (·.nextCandidateGeneration) hu.frame)
      fun ht hl => ht.kept (fun hp => hl ?_) hu.unicode
    · have hlit := hu.coherent.sound.resolved.withLive (q := none) fun _ => rfl
      have hcontext := hlit.withContext
        (q := { u.context with leftContext := leftContext, rightContext := rightContext }) rfl
        fun hs => absurd hs (by simp [hsec])
      refine (hcontext.withReplacement fun q hq => ?_).withElements fun _ _ =>
        wellFormed_insert rfl (wellFormed_directElements text)
      split at hq
      · cases hq
        exact ⟨htext.2.1, htext.2.2⟩
      · cases hq
    · exact ⟨hp, (hu.secureInput_eq (by simp [hp])).symm.trans hsec, htext, hcount⟩
  · rw [meets_bind, meets_when]
    cases changed with
    | true =>
      rw [if_pos rfl, meets_advanceRevision]
      refine (hu.ready.advanced id fun ht _ hp => ?_).failure
      exact ht.kept (by simp [hu.idle rfl]) hu.unicode
    | false =>
      rw [if_neg (by decide)]
      exact (hu.stepped hc hy id).failure

/-! Unicode input. -/

theorem beginUnicodeInput_stepped {provider : Option PinnedCompositionPolicy} (hc : Coherent s)
    (hy : Synced s) :
    Meets P (beginUnicodeInput provider) (Outcome P s .beginUnicodeInput) s := by
  unfold beginUnicodeInput
  rw [meets_bind, meets_session, meets_ite]
  split
  · rename_i hp
    simp only [meets_bind, meets_invalidateSpeculation]
    refine meets_pinCompositionPolicyIfNeeded hc fun changed u hu => ?_
    rw [meets_endConverterComposition]
    refine meets_resolvePendingLearning hu.coherent.sound.unsecure ?_
    simp only [meets_clearLivePresentation, meets_update, meets_clearConversionState,
      meets_advanceRevision]
    have hup : u.phase = s.phase := congrArg (·.phase) hu.frame
    have hrev : u.revision = s.revision := congrArg (·.revision) hu.frame
    have heff : u.nextEffectID = s.nextEffectID := congrArg (·.nextEffectID) hu.frame
    have hgen : u.nextCandidateGeneration = s.nextCandidateGeneration :=
      congrArg (·.nextCandidateGeneration) hu.frame
    refine Stepped.success (Ready.advanced ⟨⟨?_, ?_, partitioned_nil⟩, hrev, heff, Nat.zero_le _,
      allocated_cleared hgen rfl rfl⟩ id fun _ _ hn => absurd rfl hn)
    · exact (hu.coherent.sound.resolved.withLive fun _ => rfl).withBuffer ⟨Nat.zero_le _, rfl⟩
    · refine phased_unicode ?_
      rcases hp with hp | hp
      · exact .inl (congrArg some (hup.trans hp))
      · exact .inr (congrArg some (hup.trans hp))
  · exact (Stepped.kept hc hy).failure

omit [SwiftText] [RecoveryCodec] in
theorem printableAscii_of_hexDigit {c : Char} (h : hexDigit c = true) :
    printableAscii c = true := by
  simp only [hexDigit, printableAscii, Bool.or_eq_true, Bool.and_eq_true, decide_eq_true_eq] at *
  omega

omit [SwiftText] [RecoveryCodec] in
theorem hexDigit_of_lowercase {c : Char} (h : lowercaseHexDigit c = true) :
    hexDigit c = true := by
  simp only [hexDigit, lowercaseHexDigit, Bool.or_eq_true, Bool.and_eq_true,
    decide_eq_true_eq] at *
  omega

omit [RecoveryCodec] in
/-- Hexadecimal digits are Characters of their own. -/
theorem characterCount_hex {t : Text} (h : t.all hexDigit = true) :
    characterCount t = t.length := by
  have ha : t.all printableAscii = true := List.all_eq_true.mpr fun c hc =>
    printableAscii_of_hexDigit (List.all_eq_true.mp h c hc)
  rw [characterCount, SwiftText.characters_ascii t ha, List.length_map]

omit [RecoveryCodec] in
theorem characterCount_lowercaseHex {t : Text} (h : t.all lowercaseHexDigit = true) :
    characterCount t = t.length :=
  characterCount_hex (List.all_eq_true.mpr fun c hc =>
    hexDigit_of_lowercase (List.all_eq_true.mp h c hc))

omit [SwiftText] [RecoveryCodec] in
theorem lowercaseHexDigit_toLower {c : Char} (h : hexDigit c = true) :
    lowercaseHexDigit c.toLower = true := by
  have hall : ∀ n : Fin 128, hexDigit (Char.ofNat n) = true →
      lowercaseHexDigit (Char.ofNat n).toLower = true := by decide
  have hlt : c.toNat < 128 := by
    simp only [hexDigit, Bool.or_eq_true, Bool.and_eq_true, decide_eq_true_eq] at h
    omega
  have hc := hall ⟨c.toNat, hlt⟩
  rw [Char.ofNat_toNat] at hc
  exact hc h

/-- The buffer holds at most eight lowercase digits. -/
theorem appendUnicodeDigit_stepped {digit : Text} (hc : Coherent s) (hy : Synced s) :
    Meets P (appendUnicodeDigit digit) (Outcome P s (.appendUnicodeDigit digit)) s := by
  unfold appendUnicodeDigit
  rw [meets_bind, meets_session, meets_ite]
  split
  · rename_i hp
    obtain ⟨hu, hone, hhex, hlt⟩ := hp
    simp only [meets_bind, meets_invalidateSpeculation, meets_update, meets_advanceRevision]
    obtain ⟨-, hlower⟩ := hc.sound.buffer
    rw [characterCount_hex hhex] at hone
    rw [characterCount_lowercaseHex hlower] at hlt
    have hbuf : (s.unicodeInputBuffer ++ digit.map Char.toLower).length ≤ 8 ∧
        (s.unicodeInputBuffer ++ digit.map Char.toLower).all lowercaseHexDigit = true := by
      refine ⟨?_, ?_⟩
      · rw [List.length_append, List.length_map]
        omega
      · rw [List.all_append, hlower, Bool.true_and, List.all_map]
        exact List.all_eq_true.mpr fun c hm =>
          lowercaseHexDigit_toLower (List.all_eq_true.mp hhex c hm)
    have hcoh : Coherent
        { s with unicodeInputBuffer := s.unicodeInputBuffer ++ digit.map Char.toLower } :=
      ⟨hc.sound.withBuffer hbuf, hc.phased, hc.partitioned⟩
    have hready : Ready s [] _ := hcoh.ready rfl rfl rfl fun _ => id
    exact (hready.advanced id fun _ _ hn => absurd hu hn).success
  · exact (Stepped.kept hc hy).failure

theorem commitUnicodeInput_stepped (hc : Coherent s) (hy : Synced s) :
    Meets P commitUnicodeInput (Outcome P s .commitUnicodeInput) s := by
  unfold commitUnicodeInput
  rw [meets_bind, meets_session, meets_ite]
  split
  · rename_i hp
    cases (hexValue s.unicodeInputBuffer).bind unicodeScalar with
    | none => exact (Stepped.kept hc hy).failure
    | some scalar =>
      simp only [meets_bind, meets_invalidateSpeculation, meets_update, meets_finishUnicodeInput,
        meets_advanceRevision, meets_prepareSpeculativeConversion]
      have hready : Ready s [] _ := (hc.leaveUnicode hp fun _ he =>
        wellFormed_insert he (wellFormed_directElements [scalar])).ready rfl rfl rfl fun _ => id
      exact (hready.advanced id fun _ _ _ => ⟨rfl, rfl⟩).success
  · exact (Stepped.kept hc hy).failure

/-! Context and recovery. -/

theorem updateContext_stepped {leftContext rightContext : Text} (hc : Coherent s)
    (hy : Synced s) :
    Meets P (updateContext leftContext rightContext)
      (Outcome P s (.updateContext leftContext rightContext)) s := by
  unfold updateContext
  rw [meets_bind, meets_session, meets_ite]
  split
  · simp only [meets_bind, meets_invalidateSpeculation, meets_update, meets_advanceRevision]
    have hsound := hc.sound.withContext
      (q := { s.context with
        leftContext := if s.policy.secureInput = true then [] else leftContext
        rightContext := if s.policy.secureInput = true then [] else rightContext }) rfl
      fun hs => ⟨if_pos hs, if_pos hs⟩
    have hcoh : Coherent
        { s with
          context := { s.context with
            leftContext := if s.policy.secureInput = true then [] else leftContext
            rightContext := if s.policy.secureInput = true then [] else rightContext } } :=
      ⟨hsound, hc.phased, hc.partitioned⟩
    have hready : Ready s [] _ := hcoh.ready rfl rfl rfl fun _ => id
    exact (hready.advanced id fun ht _ => ht).success
  · exact (Stepped.kept hc hy).failure

/-- What the validator demands of a checkpoint, as the invariants state it. -/
structure RecoveryCheckpoint.Valid (c : RecoveryCheckpoint) : Prop where
  elements : c.composition.elements.all CompositionElement.wellFormed = true
  replacement : ∀ r, c.reconversionReplacement = some r → 0 ≤ r.before ∧ 0 ≤ r.after
  buffer : (c.unicodeInputBuffer.getD []).length ≤ 8 ∧
    (c.unicodeInputBuffer.getD []).all lowercaseHexDigit = true
  unicode : c.phase = .unicodeInput →
    c.phaseBeforeUnicodeInput = some .idle ∨ c.phaseBeforeUnicodeInput = some .composing
  rest : c.phase ≠ .unicodeInput →
    c.unicodeInputBuffer.getD [] = [] ∧ c.phaseBeforeUnicodeInput = none

omit [RecoveryCodec] in
theorem valid_of_isWellFormed {c : RecoveryCheckpoint} (h : checkpointIsWellFormed c = true) :
    c.Valid := by
  unfold checkpointIsWellFormed at h
  simp only [Bool.and_eq_true] at h
  obtain ⟨⟨⟨⟨helem, -⟩, hrep⟩, hbuf⟩, hphase⟩ := h
  refine ⟨helem, fun r hr => ?_, ?_, fun hp => ?_, fun hp => ?_⟩
  · rw [hr, Option.all_some] at hrep
    simp only [ReconversionReplacement.spans, Bool.and_eq_true, decide_eq_true_eq] at hrep
    exact ⟨hrep.1.1.1.1, hrep.1.1.1.2⟩
  · simp only [validUnicodeBuffer, Bool.and_eq_true, decide_eq_true_eq] at hbuf
    rw [characterCount_lowercaseHex hbuf.2] at hbuf
    exact hbuf
  · simpa [hp] using hphase
  · simpa [hp] using hphase

omit [RecoveryCodec] in
/-- A valid checkpoint restores a coherent session. -/
theorem RecoveryCheckpoint.Valid.coherent {c : RecoveryCheckpoint} (h : c.Valid) :
    Coherent ((({ s with
      pendingLearningTransactions := [] }).clearLivePresentation.clearConversion).restored c) := by
  have hproject : (restoredPolicy s.policy c.policy).projectRevision = c.policy.projectRevision :=
    PinnedCompositionPolicy.projectRevision_rebind _ _
  refine ⟨⟨(fun hs => by cases hs), hproject.symm, h.buffer, fun _ => h.elements,
    h.replacement⟩, ?_, partitioned_nil⟩
  unfold Phased CompositionSession.restored
  dsimp only
  by_cases hp : c.phase = .unicodeInput
  · rw [if_pos hp]
    exact phased_unicode (h.unicode hp)
  · rw [if_neg hp]
    exact phased_rest

theorem restoreCheckpoint_stepped {data : Data} (hc : Coherent s) (hy : Synced s) :
    Meets P (restoreCheckpoint data) (Outcome P s (.restoreCheckpoint data)) s := by
  have hkept : ∀ status, Stepped P s (.restoreCheckpoint data) status [] s :=
    fun _ => Stepped.kept hc hy
  unfold restoreCheckpoint
  rw [meets_bind, meets_session, meets_ite]
  split
  swap
  · exact (hkept _).failure
  cases hd : RecoveryCodec.decode data with
  | none => exact (hkept _).failure
  | some c =>
    dsimp only
    rw [meets_ite]
    split
    swap
    · exact (hkept _).failure
    rw [meets_ite]
    split
    swap
    · exact (hkept _).failure
    rename_i hle
    rw [meets_ite]
    split
    swap
    · exact (hkept _).failure
    rename_i hbounds
    obtain ⟨hrev, hgen, -, -, hwf⟩ := hbounds
    have hvalid := valid_of_isWellFormed hwf
    simp only [meets_bind, meets_invalidateSpeculation]
    refine meets_resolvePendingLearning hc.sound.unsecure ?_
    simp only [meets_clearLivePresentation, meets_endConverterComposition,
      meets_clearConversionState, meets_update, meets_advanceRevision,
      meets_prepareSpeculativeConversion]
    have hcoh := hvalid.coherent (s := s)
    refine Stepped.success
      { coherent := hcoh.advanceRevision
        synced := hcoh.sound.synced_advanceRevision
        moved := .restored id data c rfl ⟨hd, ⟨hle, hrev⟩, hgen, rfl, rfl, rfl, rfl⟩
        counted := .inr ⟨rfl, data, c, rfl, ⟨hd, ⟨hle, hrev⟩, hgen, rfl, rfl, rfl, rfl⟩⟩
        cut := fun _ h =>
          .inr (.inl (advanceRevision_checkpoint (s := CompositionSession.restored _ c) h))
        tidy := fun _ _ hp => ?_ }
    by_cases hcp : c.phase = .unicodeInput
    · exact absurd (if_pos hcp) hp
    · exact hvalid.rest hcp

/-! Lifecycle. -/

/-- An erased session, under the policy of its new domain. -/
theorem Coherent.erased_stepped (hc : Coherent s) {policy : PinnedCompositionPolicy}
    (hp : policy.projectRevision = s.policy.projectRevision) :
    Stepped P s action .success []
      ({ s with
        pendingLearningTransactions := []
        policy := policy }).clearSecurityDomain.advanceRevision := by
  have hcoh : Coherent ({ s with
      pendingLearningTransactions := []
      policy := policy }).clearSecurityDomain :=
    ⟨sound_cleared (x := s.context) policy (hc.sound.project.trans hp.symm), phased_idle,
      partitioned_nil⟩
  exact Ready.advanced ⟨hcoh, rfl, rfl, Nat.zero_le _, allocated_cleared rfl rfl rfl⟩ id
    fun _ _ _ => ⟨rfl, rfl⟩

/-- A session that gave up what the converter owns. -/
theorem Coherent.released_stepped (hc : Coherent s)
    (hs : ¬ s.policy.secureInput = true)
    (hl : s.phase = .unicodeInput ∧ s.policy.secureInput = false → LeavesUnicode P s action) :
    Stepped P s action .success []
      ({ ({ s with
          pendingLearningTransactions := [] }).clearConversion.clearLivePresentation with
        phase := if s.composingText.isEmpty = true then .idle else .composing }).advanceRevision := by
  refine Ready.advanced ⟨⟨hc.sound.resolved.withLive fun _ => rfl, phased_rest, partitioned_nil⟩,
    rfl, rfl, Nat.zero_le _, allocated_cleared rfl rfl rfl⟩ id fun ht hn _ => ht fun hp =>
      hn (hl ⟨hp, eq_false_of_ne_true hs⟩)

theorem lifecycle_stepped {event : ImeLifecycleEvent} (hc : Coherent s) :
    Meets P (lifecycle event) (Outcome P s (.lifecycle event)) s := by
  have hadvance : Stepped P s (.lifecycle event) .success [] s.advanceRevision :=
    (Ready.refl hc).advanced id fun ht _ => ht
  have herased : ∀ policy : PinnedCompositionPolicy,
      policy.projectRevision = s.policy.projectRevision →
      Stepped P s (.lifecycle event) .success []
        ({ s with
          pendingLearningTransactions := []
          policy := policy }).clearSecurityDomain.advanceRevision :=
    fun policy hp => hc.erased_stepped hp
  unfold lifecycle
  rw [meets_bind, meets_session]
  dsimp only
  cases event with
  | capabilityChanged flag =>
    simp only [meets_bind, meets_invalidateSpeculation, meets_advanceRevision]
    exact hadvance.success
  | secureInputChanged flag =>
    dsimp only
    rw [meets_ite]
    split
    · simp only [meets_bind, meets_invalidateSpeculation]
      refine meets_resolvePendingLearning hc.sound.unsecure ?_
      simp only [meets_purgeConverterSensitiveState, meets_update, meets_clearSecurityDomainState,
        meets_advanceRevision]
      exact (herased { s.policy with secureInput := flag } rfl).success
    · simp only [meets_bind, meets_invalidateSpeculation, meets_advanceRevision]
      exact hadvance.success
  | deactivate =>
    simp only [meets_bind, meets_invalidateSpeculation, meets_ite]
    split
    · refine meets_resolvePendingLearning hc.sound.unsecure ?_
      simp only [meets_purgeConverterSensitiveState, meets_clearSecurityDomainState,
        meets_advanceRevision]
      exact (herased s.policy rfl).success
    · rename_i hs
      refine meets_resolvePendingLearning hc.sound.unsecure ?_
      simp only [releasePresentation, meets_bind, meets_endConverterComposition,
        meets_clearConversionState, meets_clearLivePresentation, meets_update,
        meets_advanceRevision]
      exact Stepped.success (hc.released_stepped hs id)
  | focusChanged =>
    simp only [meets_bind, meets_invalidateSpeculation, meets_ite]
    split
    · refine meets_resolvePendingLearning hc.sound.unsecure ?_
      simp only [meets_purgeConverterSensitiveState, meets_clearSecurityDomainState,
        meets_advanceRevision]
      exact (herased s.policy rfl).success
    · rename_i hs
      refine meets_resolvePendingLearning hc.sound.unsecure ?_
      simp only [releasePresentation, meets_bind, meets_endConverterComposition,
        meets_clearConversionState, meets_clearLivePresentation, meets_update,
        meets_advanceRevision]
      exact Stepped.success (hc.released_stepped hs id)
  | serverRestarted =>
    simp only [meets_bind, meets_invalidateSpeculation]
    refine meets_resolvePendingLearning hc.sound.unsecure ?_
    rw [meets_purgeConverterSensitiveState, meets_ite]
    split
    · simp only [meets_bind, meets_clearSecurityDomainState, meets_advanceRevision]
      exact (herased s.policy rfl).success
    · rename_i hs
      simp only [releasePresentation, meets_bind, meets_clearConversionState,
        meets_clearLivePresentation, meets_update, meets_advanceRevision]
      exact Stepped.success (hc.released_stepped hs id)

/-! The step of every action. -/

theorem resolvePendingLearning_stepped {commit : Bool} (hc : Coherent s) :
    Meets P (resolvePendingLearning commit >>= fun _ => advanceRevision >>= fun _ => success [])
      (Outcome P s (.resolvePendingLearning commit)) s := by
  rw [meets_bind]
  refine meets_resolvePendingLearning hc.sound.unsecure ?_
  rw [meets_bind, meets_advanceRevision]
  have hready : Ready s [] _ := hc.resolved.ready rfl rfl rfl fun _ => id
  exact (hready.advanced id fun ht _ => ht).success

theorem perform_stepped (action : ImeAction) (provider : Option PinnedCompositionPolicy)
    (hc : Coherent s) (hy : Synced s) :
    Meets P (perform action provider) (Outcome P s action) s := by
  cases action with
  | insertText text => exact insertText_stepped hc hy
  | deleteBackward => exact deleteBackward_stepped hc
  | deleteForward => exact deleteForward_stepped hc hy
  | moveCursor offset => exact moveCursor_stepped hc hy
  | moveCursorToStart => exact moveCursorToEdge_stepped (fun _ => rfl) hc hy
  | moveCursorToEnd => exact moveCursorToEdge_stepped (fun _ => rfl) hc hy
  | startConversion => exact startConversion_stepped hc
  | navigateCandidate delta => exact navigateCandidate_stepped hc hy
  | navigateCandidatePage delta => exact navigateCandidatePage_stepped hc hy
  | resizeSegment delta => exact resizeSegment_stepped hc hy
  | moveActiveSegment delta => exact moveActiveSegment_stepped hc hy
  | applyLiveConversion scheduledRevision => exact applyLiveConversion_stepped hc hy
  | resolvePendingLearning commit => exact resolvePendingLearning_stepped hc
  | commitSelected => exact commitSelectedCandidate_stepped hc hy
  | commitAll => exact commitAll_action_stepped hc hy
  | cancel => exact cancel_stepped hc hy
  | selectCandidate id generation => exact selectCandidate_stepped hc hy
  | transformActiveSegment transform => exact transformActiveSegment_stepped hc hy
  | forgetCandidate id generation => exact forgetCandidate_stepped hc hy
  | reconvert text leftContext rightContext deleteBefore deleteAfter =>
    exact reconvert_stepped hc hy
  | beginUnicodeInput => exact beginUnicodeInput_stepped hc hy
  | appendUnicodeDigit digit => exact appendUnicodeDigit_stepped hc hy
  | commitUnicodeInput => exact commitUnicodeInput_stepped hc hy
  | updateContext leftContext rightContext => exact updateContext_stepped hc hy
  | restoreCheckpoint data => exact restoreCheckpoint_stepped hc hy
  | lifecycle event => exact lifecycle_stepped hc

end Hazkey
