import Hazkey.AlternatingRuns
import Hazkey.HybridEvaluation
import Hazkey.ProtectedSurfaces

/-! A layout is what is left of a text when only the presence of its unprotected runs
counts. -/

namespace Hazkey

namespace ProtectedSurfacePolicy

open AlternatingRuns

variable {text read span : Text} {scan : LayoutScan} {scalar : Char}
  {blocks : List (Text × Text)} {last : Text}

/-- Which gaps are populated, the last one after all spans. -/
def populatedGaps (blocks : List (Text × Text)) (last : Text) : List Bool :=
  blocks.map (fun b => decide (b.1 ≠ [])) ++ [decide (last ≠ [])]

/-- What is read is cut into the flushed blocks, the gap that is open and the span that is
open. -/
structure LayoutScan.Reads (scan : LayoutScan) (read : Text) (blocks : List (Text × Text))
    (gap : Text) : Prop where
  cut : ∃ flushed, read = flushed ++ scan.span ∧ Alternates isProtectedScalar flushed blocks gap
  open_span : ∀ a ∈ scan.span, isProtectedScalar a = true
  open_gap : blocks ≠ [] → gap ≠ []
  spans : scan.spans = blocks.map (·.2)
  gaps : scan.populatedUnprotectedGaps = populatedGaps blocks gap

theorem LayoutScan.Reads.start : LayoutScan.Reads ⟨⟨[], [false]⟩, []⟩ [] [] [] where
  cut := ⟨[], rfl, ⟨rfl, by simp, by simp, by simp, by simp⟩⟩
  open_span := by simp
  open_gap h := absurd rfl h
  spans := rfl
  gaps := rfl

/-- The open span becomes a block, and an empty gap is open. -/
theorem LayoutScan.Reads.flush (h : scan.Reads read blocks last) :
    ∃ blocks' last', Alternates isProtectedScalar read blocks' last' ∧
      scan.flushSpan.span = [] ∧ scan.flushSpan.spans = blocks'.map (·.2) ∧
      scan.flushSpan.populatedUnprotectedGaps = populatedGaps blocks' last' := by
  obtain ⟨flushed, rfl, hcut⟩ := h.cut
  by_cases hspan : scan.span = []
  · refine ⟨blocks, last, by simpa [hspan] using hcut, ?_⟩
    rw [LayoutScan.flushSpan, if_pos hspan]
    exact ⟨hspan, h.spans, h.gaps⟩
  · refine ⟨blocks ++ [(last, scan.span)], [], ⟨?_, ?_, by simp, ?_, ?_⟩, ?_⟩
    · rw [hcut.text]
      simp
    · intro b hb
      rcases List.mem_append.mp hb with hb | hb
      · exact hcut.gaps b hb
      · rw [List.mem_singleton.mp hb]
        exact hcut.lastGap
    · intro b hb
      rcases List.mem_append.mp hb with hb | hb
      · exact hcut.spans b hb
      · rw [List.mem_singleton.mp hb]
        exact ⟨hspan, h.open_span⟩
    · intro b hb
      cases blocks with
      | nil => simp at hb
      | cons first blocks =>
        rw [List.cons_append, List.tail_cons] at hb
        rcases List.mem_append.mp hb with hb | hb
        · exact hcut.inner b hb
        · rw [List.mem_singleton.mp hb]
          exact h.open_gap (List.cons_ne_nil _ _)
    · rw [LayoutScan.flushSpan, if_neg hspan]
      refine ⟨rfl, ?_, ?_⟩
      · simp [h.spans]
      · simp [h.gaps, populatedGaps]

theorem LayoutScan.Reads.step (h : scan.Reads read blocks last) (scalar : Char) :
    ∃ blocks' last', (scan.step scalar).Reads (read ++ [scalar]) blocks' last' := by
  by_cases hscalar : isProtectedScalar scalar = true
  · obtain ⟨flushed, hread, hcut⟩ := h.cut
    refine ⟨blocks, last, ?_⟩
    rw [LayoutScan.step, if_pos hscalar]
    refine ⟨⟨flushed, by simp [hread], hcut⟩, ?_, h.open_gap, h.spans, h.gaps⟩
    intro a ha
    rcases List.mem_append.mp ha with ha | ha
    · exact h.open_span a ha
    · rwa [List.mem_singleton.mp ha]
  · obtain ⟨blocks', gap, hcut, hspan, hspans, hgaps⟩ := h.flush
    refine ⟨blocks', gap ++ [scalar], ?_⟩
    rw [LayoutScan.step, if_neg hscalar]
    refine ⟨⟨read ++ [scalar], ?_, ?_⟩, ?_, fun _ => by simp, hspans, ?_⟩
    · rw [LayoutScan.populate, hspan, List.append_nil]
    · refine ⟨?_, hcut.gaps, ?_, hcut.spans, hcut.inner⟩
      · rw [hcut.text, List.append_assoc]
      · intro a ha
        rcases List.mem_append.mp ha with ha | ha
        · exact hcut.lastGap a ha
        · simpa [List.mem_singleton.mp ha] using hscalar
    · intro a ha
      rw [LayoutScan.populate, hspan] at ha
      cases ha
    · rw [LayoutScan.populate, hgaps]
      simp [populatedGaps]

theorem reads_foldl (h : scan.Reads read blocks last) (text : Text) :
    ∃ blocks' last', (text.foldl LayoutScan.step scan).Reads (read ++ text) blocks' last' := by
  induction text generalizing scan read blocks last with
  | nil => exact ⟨blocks, last, by rwa [List.append_nil]⟩
  | cons scalar text ih =>
    obtain ⟨blocks', last', hstep⟩ := h.step scalar
    have hrest := ih hstep
    rwa [List.append_assoc] at hrest

/-- The spans are cut out of the text, and every gap is accounted for. -/
theorem protectedLayout_cut (text : Text) :
    ∃ blocks last, Alternates isProtectedScalar text blocks last ∧
      protectedLayout text = ⟨blocks.map (·.2), populatedGaps blocks last⟩ := by
  obtain ⟨blocks, last, hreads⟩ := reads_foldl LayoutScan.Reads.start text
  obtain ⟨blocks', last', hcut, -, hspans, hgaps⟩ := hreads.flush
  refine ⟨blocks', last', hcut, ?_⟩
  rw [protectedLayout, ← hspans, ← hgaps]

/-- A scalar that takes no part in canonical composition, and is not protected. -/
structure LayoutMarker [CanonicalText] (marker : Char) : Prop where
  unprotected : isProtectedScalar marker = false
  separates : Separates CanonicalText.precomposed marker
  spans : ∀ t, t ≠ [] → (∀ a ∈ t, isProtectedScalar a = true) →
    CanonicalText.precomposed t ≠ [] ∧ marker ∉ CanonicalText.precomposed t

/-- The text with one marker for each maximal run of unprotected scalars. -/
def unprotectedRunsMarked (marker : Char) (text : Text) : Text :=
  markRuns isProtectedScalar marker false text

theorem normalized_eq_iff [CanonicalText] {marker : Char} (hm : LayoutMarker marker) (s t : Text) :
    (protectedLayout s).normalized = (protectedLayout t).normalized ↔
      CanonicalText.precomposed (unprotectedRunsMarked marker s) =
        CanonicalText.precomposed (unprotectedRunsMarked marker t) := by
  obtain ⟨blocks, last, hcut, hlayout⟩ := protectedLayout_cut s
  obtain ⟨blocks', last', hcut', hlayout'⟩ := protectedLayout_cut t
  rw [unprotectedRunsMarked, unprotectedRunsMarked,
    markRuns_eq_iff hcut hcut' hm.separates hm.spans, hlayout, hlayout']
  simp only [ProtectedLayout.normalized, ProtectedLayout.mk.injEq, List.map_map,
    Function.comp_def, populatedGaps]

theorem protectedLayout_eq_iff {marker : Char} (hm : isProtectedScalar marker = false)
    (s t : Text) : protectedLayout s = protectedLayout t ↔
      unprotectedRunsMarked marker s = unprotectedRunsMarked marker t := by
  obtain ⟨blocks, last, hcut, hlayout⟩ := protectedLayout_cut s
  obtain ⟨blocks', last', hcut', hlayout'⟩ := protectedLayout_cut t
  have hspans : ∀ t : Text, t ≠ [] → (∀ a ∈ t, isProtectedScalar a = true) →
      t ≠ [] ∧ marker ∉ t := by
    intro t hne hall
    refine ⟨hne, fun hmem => ?_⟩
    rw [hall marker hmem] at hm
    cases hm
  have hiff := markRuns_eq_iff (f := fun t : Text => t) hcut hcut' ⟨rfl, fun _ _ => rfl⟩ hspans
  rw [unprotectedRunsMarked, unprotectedRunsMarked, hiff, hlayout, hlayout',
    ProtectedLayout.mk.injEq]
  rfl

/-- Layouts are equal, scalar by scalar or as texts are compared, just where the texts are when
each maximal unprotected run is one marker. The spans are all the maximal protected runs, in
their order, with a gap before, between and after them. -/
theorem protectedLayout_exact [CanonicalText] (marker : Char) (hm : LayoutMarker marker) :
    (∀ s t, (protectedLayout s).normalized = (protectedLayout t).normalized ↔
      CanonicalText.precomposed (unprotectedRunsMarked marker s) =
        CanonicalText.precomposed (unprotectedRunsMarked marker t)) ∧
    (∀ s t, protectedLayout s = protectedLayout t ↔
      unprotectedRunsMarked marker s = unprotectedRunsMarked marker t) ∧
    (∀ s, ∃ blocks last, Alternates isProtectedScalar s blocks last ∧
      (∀ blocks' last', Alternates isProtectedScalar s blocks' last' →
        blocks' = blocks ∧ last' = last) ∧
      (protectedLayout s).spans = blocks.map (·.2) ∧
      (protectedLayout s).populatedUnprotectedGaps = populatedGaps blocks last ∧
      (protectedLayout s).populatedUnprotectedGaps.length =
        (protectedLayout s).spans.length + 1) := by
  refine ⟨normalized_eq_iff hm, protectedLayout_eq_iff hm.unprotected, fun s => ?_⟩
  obtain ⟨blocks, last, hcut, hlayout⟩ := protectedLayout_cut s
  refine ⟨blocks, last, hcut, fun blocks' last' h => h.unique hcut, ?_⟩
  rw [hlayout]
  exact ⟨rfl, rfl, by simp [populatedGaps]⟩

attribute [local instance] composedText

theorem layoutMarker_kanji : LayoutMarker '漢' where
  unprotected := by decide
  separates := ⟨rfl, fun _ _ => rfl⟩
  spans t hne hall := by
    refine ⟨hne, fun hmem => ?_⟩
    have hfalse := hall '漢' hmem
    exact absurd hfalse (by decide)

theorem layout_of_a_sentence :
    protectedLayout "かなA1漢字+".toList = protectedLayout "仮A1かんじ+".toList ∧
      protectedLayout "A1漢字+".toList ≠ protectedLayout "仮A1かんじ+".toList := by
  have hexact := (protectedLayout_exact '漢' layoutMarker_kanji).2.1
  exact ⟨(hexact _ _).mpr (by decide), fun h => absurd ((hexact _ _).mp h) (by decide)⟩

end ProtectedSurfacePolicy

end Hazkey
