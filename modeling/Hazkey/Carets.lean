import Hazkey.Commits

/-! The caret of a snapshot is inside its preedit, if that of a display is inside its text. -/

namespace Hazkey

open ServiceProgram

/-- The caret of every display of a trace is at a scalar of its text. -/
def Presentable (t : List ConverterEvent) : Prop :=
  ∀ s i a, (⟨s, .display i, a⟩ : ConverterEvent) ∈ t → AtScalar a.text a.caretUtf8ByteOffset

/-- The caret, if there is one, is at a scalar of the spans. -/
def CaretWithin (spans : List PreeditSpan) (caret : Option Nat) : Prop :=
  ∀ n, caret = some n → AtScalar (PreeditSpan.joined spans) n

variable {r r' : ImeReducer} {t t₁ t₂ : List ConverterEvent} {s : CompositionSession}

theorem Presentable.left (h : Presentable (t₁ ++ t₂)) : Presentable t₁ :=
  fun s i a he => h s i a (List.mem_append_left _ he)

theorem Presentable.right (h : Presentable (t₁ ++ t₂)) : Presentable t₂ :=
  fun s i a he => h s i a (List.mem_append_right _ he)

theorem display_within {i : CompositionInput} {a : CompositionDisplay} (h : Presentable t)
    (hY : (converter (.display i)).Yields r t a r') : AtScalar a.text a.caretUtf8ByteOffset := by
  obtain ⟨rfl, -⟩ := Prog.yields_ask.mp hY
  exact h r i a (List.mem_singleton_self _)

/-- Spans without text take no place. -/
theorem caretWithin_nonempty {spans : List PreeditSpan} {n : Nat}
    (h : AtScalar (PreeditSpan.joined spans) n) :
    CaretWithin (PreeditSpan.nonempty spans) (some n) := by
  rintro _ ⟨⟩
  rwa [joined_nonempty]

theorem joined_pair (a b : PreeditSpan) : PreeditSpan.joined [a, b] = a.text ++ b.text := by
  simp [PreeditSpan.joined]

/-- The caret is behind the segments up to the active one. -/
theorem segmentedComposition_within (activeIndex : Nat) :
    CaretWithin (s.segmentedComposition activeIndex).spans
      (s.segmentedComposition activeIndex).caretUtf8ByteOffset := by
  rintro _ ⟨⟩
  show AtScalar (PreeditSpan.joined (s.segments.zipIdx.filterMap _)) _
  rw [joined_segments]
  have hsplit := List.take_append_drop (activeIndex + 1) s.segments
  have hjoined : joinedTexts (s.segments.filterMap (·.selectedCandidate)) =
      joinedTexts ((s.segments.take (activeIndex + 1)).filterMap (·.selectedCandidate)) ++
        joinedTexts ((s.segments.drop (activeIndex + 1)).filterMap (·.selectedCandidate)) := by
    unfold joinedTexts
    rw [← List.flatten_append, ← List.map_append, ← List.filterMap_append, hsplit]
  rw [hjoined]
  exact atScalar_prefix _ _

theorem candidateWithSuffix_within {candidate : CandidateSnapshot} {boundary : Nat}
    {v : VisibleComposition} (hY : (candidateWithSuffix s candidate boundary).Yields r t v r') :
    CaretWithin v.spans v.caretUtf8ByteOffset := by
  obtain ⟨_, _, suffix, _, rfl, -, -, rfl, -⟩ := Prog.yields_bind.mp hY
  apply caretWithin_nonempty
  rw [joined_pair]
  exact atScalar_prefix _ _

theorem prefixWithSuffix_within {p : MaterializedLivePrefix} {v : VisibleComposition}
    (h : Presentable t) (hY : (prefixWithSuffix s p).Yields r t v r') :
    CaretWithin v.spans v.caretUtf8ByteOffset := by
  obtain ⟨_, _, suffix, _, rfl, hsuffix, -, rfl, -⟩ := Prog.yields_bind.mp hY
  have hin : AtScalar suffix.text suffix.caretUtf8ByteOffset := display_within h.left hsuffix
  apply caretWithin_nonempty
  rw [joined_pair]
  exact hin.behind p.text

theorem readingComposition_within {v : VisibleComposition} (h : Presentable t)
    (hY : (readingComposition s).Yields r t v r') : CaretWithin v.spans v.caretUtf8ByteOffset := by
  unfold readingComposition at hY
  split at hY
  · obtain ⟨-, rfl, -⟩ := hY
    rintro _ ⟨⟩
  · obtain ⟨_, _, display, _, rfl, hdisplay, -, rfl, -⟩ := Prog.yields_bind.mp hY
    have hin : AtScalar display.text display.caretUtf8ByteOffset :=
      display_within h.left hdisplay
    apply caretWithin_nonempty
    simpa [PreeditSpan.joined] using hin

/-- Each of the branches counts the bytes before the caret in spans it shows. -/
theorem visibleComposition_within {v : VisibleComposition} (h : Presentable t)
    (hY : (visibleComposition s).Yields r t v r') : CaretWithin v.spans v.caretUtf8ByteOffset := by
  unfold visibleComposition at hY
  cases hbranch : s.shownBranch with
  | segments activeIndex =>
    rw [hbranch] at hY
    obtain ⟨-, rfl, -⟩ := hY
    exact segmentedComposition_within activeIndex
  | candidate candidate boundary =>
    rw [hbranch] at hY
    exact candidateWithSuffix_within hY
  | reading =>
    rw [hbranch] at hY
    obtain ⟨_, _, p, _, rfl, -, hshown⟩ := Prog.yields_bind.mp hY
    cases p with
    | some p => exact prefixWithSuffix_within h.right hshown
    | none => exact readingComposition_within h.right hshown

theorem presentation_within {shown : List PreeditSpan × Option Nat × Option Text}
    (h : Presentable t) (hY : (presentation s).Yields r t shown r') :
    CaretWithin shown.1 shown.2.1 := by
  unfold presentation at hY
  split at hY
  · obtain ⟨_, _, display, _, rfl, -, -, rfl, -⟩ := Prog.yields_bind.mp hY
    apply caretWithin_nonempty
    rw [joined_pair]
    -- behind the marker, which is the last of the two spans
    have hend := atScalar_prefix (display.text ++ 'u' :: s.unicodeInputBuffer) []
    rwa [List.append_nil, utf8Count_append] at hend
  · obtain ⟨_, _, v, _, rfl, hvisible, hrest⟩ := Prog.yields_bind.mp hY
    obtain ⟨_, _, aux, _, rfl, -, -, rfl, -⟩ := Prog.yields_bind.mp hrest
    exact visibleComposition_within h.left hvisible

/-- The caret of a snapshot is inside the preedit and at a scalar of it, whatever the state. -/
theorem snapshot_caret {effects : List ClientEffect} {snap : SessionSnapshot}
    (h : Presentable t) (hY : (snapshot effects).Yields r t snap r') :
    ∀ caret, snap.caretUtf8ByteOffset = some caret →
      caret ≤ utf8Count (PreeditSpan.joined snap.preedit) ∧
        AtScalar (PreeditSpan.joined snap.preedit) caret := by
  obtain ⟨_, _, _, _, rfl, -, hbody⟩ := Prog.yields_bind.mp hY
  obtain ⟨_, _, shown, _, rfl, hshown, -, rfl, -⟩ := Prog.yields_bind.mp hbody
  intro caret hcaret
  have hin := presentation_within h.right.left hshown caret hcaret
  exact ⟨hin.le, hin⟩

attribute [local instance] scalarText byteCodec

theorem utf8Count_flatten (ts : List Text) : utf8Count ts.flatten = (ts.map utf8Count).sum := by
  induction ts with
  | nil => rfl
  | cons t ts ih => rw [List.flatten_cons, utf8Count_append, List.map_cons, List.sum_cons, ih]

/-- The default display counts whole elements. -/
theorem defaultDisplay_atScalar (i : CompositionInput) :
    AtScalar (defaultDisplay i).text (defaultDisplay i).caretUtf8ByteOffset := by
  refine ⟨((i.elements.take i.boundedCursor).map (·.text)).flatten, ?_, ?_⟩
  · show _ <+: (i.elements.map (·.text)).flatten
    conv_rhs => rw [← List.take_append_drop i.boundedCursor i.elements, List.map_append,
      List.flatten_append]
    exact List.prefix_append _ _
  · rw [utf8Count_flatten, List.map_map]
    rfl

theorem presentable_staging {α : Type} (p : ReducerM α) (n : Nat) (r : ImeReducer) :
    Presentable (p.execTrace stagingConverter n r) := by
  intro s i a he
  obtain rfl := stagingConverter_displays p n r i a ⟨s, he⟩
  exact defaultDisplay_atScalar i

theorem snapshot_caret_composing :
    let r := (evaluate .standard [request (.insertText ['あ', 'い']) "1"]).2.2
    ∃ t snap r', (snapshot []).Yields r t snap r' ∧ snap.caretUtf8ByteOffset = some 6 ∧
      6 ≤ utf8Count (PreeditSpan.joined snap.preedit) ∧
        AtScalar (PreeditSpan.joined snap.preedit) 6 :=
  ⟨_, _, _, Prog.exec_yields stagingConverter _ 0 _, by decide +kernel,
    snapshot_caret (presentable_staging (snapshot []) 0 _)
      (Prog.exec_yields stagingConverter (snapshot []) 0 _) 6 (by decide +kernel)⟩

end Hazkey
