import Hazkey.ClientMessages
import Mathlib.Data.List.Basic

/-! The preedit as it is rendered: the spans of a snapshot with markers between them, and
a cursor that counts the bytes of what is rendered. -/

namespace Hazkey.SessionClient

/-- Of the flags of a span those that are set here. -/
structure TextFormatFlags where
  underline : Bool := false
  highLight : Bool := false
  bold : Bool := false
  dontCommit : Bool := false
  deriving DecidableEq

structure TextSpan where
  text : Text
  format : TextFormatFlags
  deriving DecidableEq

/-- A text of the framework; without a cursor it has -1. -/
structure PanelText where
  spans : List TextSpan := []
  cursor : Int := -1
  deriving DecidableEq

namespace PanelText

def append (t : PanelText) (text : Text) (format : TextFormatFlags) : PanelText :=
  { t with spans := t.spans ++ [⟨text, format⟩] }

def setCursor (t : PanelText) (cursor : Int) : PanelText := { t with cursor := cursor }

def toText (t : PanelText) : Text := t.spans.flatMap (·.text)

def toStringForCommit (t : PanelText) : Text :=
  (t.spans.filter fun span => !span.format.dontCommit).flatMap (·.text)

end PanelText

structure CandidateSnapshot where
  id : Text
  text : Text
  deriving DecidableEq

structure CandidateWindowSnapshot where
  generation : UInt64 := 0
  items : List CandidateSnapshot := []
  selectedIndex : Option UInt32 := none
  pageSize : UInt32 := 0
  deriving DecidableEq

/-- What of a snapshot is shown, and decides what a key does. -/
structure ShownSnapshot where
  phase : ImePhase := .unspecified
  preedit : List PreeditSpan := []
  caretUtf8ByteOffset : Option UInt32 := none
  candidateWindow : CandidateWindowSnapshot := {}
  pendingLearning : Bool := false
  deriving DecidableEq

def kSegmentBoundary : Text := "│".toList

def formatFor : PreeditStyle → TextFormatFlags
  | .plain => {}
  | .active => { highLight := true }
  | _ => { underline := true }

/-- The marker is for display only. -/
def segmentBoundaryFormat : TextFormatFlags := { bold := true, dontCommit := true }

def needsSegmentBoundary (snapshot : ShownSnapshot) (index : Nat) : Bool :=
  if index = 0 ∨ snapshot.preedit.length ≤ index then false
  else
    match snapshot.phase with
    | .previewing | .selecting | .reconverting => true
    | _ => false

def utf8ByteLength (snapshot : ShownSnapshot) : Nat :=
  (snapshot.preedit.map fun span => utf8Count span.text).sum

/-- The loop over the spans, from the one of the index on. -/
def renderSpans (snapshot : ShownSnapshot) (caret : Nat) :
    Nat → List PreeditSpan → PanelText → Nat → Nat → PanelText × Nat
  | _, [], rendered, _, renderedCaret => (rendered, renderedCaret)
  | index, span :: spans, rendered, sourceOffset, renderedCaret =>
    let marked := needsSegmentBoundary snapshot index
    let rendered :=
      if marked = true then rendered.append kSegmentBoundary segmentBoundaryFormat else rendered
    let renderedCaret :=
      if marked = true ∧ sourceOffset < caret then renderedCaret + utf8Count kSegmentBoundary
      else renderedCaret
    renderSpans snapshot caret (index + 1) spans
      (rendered.append span.text (formatFor span.style)) (sourceOffset + utf8Count span.text)
      renderedCaret

def renderPreedit (snapshot : ShownSnapshot) (cursorAtBeginning : Bool) : PanelText :=
  let caret := (snapshot.caretUtf8ByteOffset.map fun offset =>
    min offset.toNat (utf8ByteLength snapshot)).getD 0
  let (rendered, renderedCaret) := renderSpans snapshot caret 0 snapshot.preedit {} 0 caret
  if snapshot.caretUtf8ByteOffset.isSome = true then
    rendered.setCursor (if cursorAtBeginning = true then 0 else renderedCaret)
  else rendered

/-! Bytes. -/

/-- The bytes of what is rendered, each with whether it is of a marker. -/
def markedBytes (spans : List TextSpan) : List (UInt8 × Bool) :=
  spans.flatMap fun span => (utf8 span.text).map (·, span.format.dontCommit)

/-- The bytes that are left without the markers. -/
def withoutMarkers (bytes : List (UInt8 × Bool)) : Data :=
  (bytes.filter fun b => !b.2).map Prod.fst

def committed (spans : List TextSpan) : Text :=
  (spans.filter fun span => !span.format.dontCommit).flatMap (·.text)

def rendered (spans : List TextSpan) : Text := spans.flatMap (·.text)

section

variable {spans l l' : List TextSpan} {span : TextSpan} {caret cursor : Nat}

@[simp] theorem markedBytes_append (l l' : List TextSpan) :
    markedBytes (l ++ l') = markedBytes l ++ markedBytes l' := List.flatMap_append

@[simp] theorem markedBytes_cons (span : TextSpan) (l : List TextSpan) :
    markedBytes (span :: l) =
      (utf8 span.text).map (·, span.format.dontCommit) ++ markedBytes l := List.flatMap_cons

@[simp] theorem withoutMarkers_append (l l' : List (UInt8 × Bool)) :
    withoutMarkers (l ++ l') = withoutMarkers l ++ withoutMarkers l' := by
  simp [withoutMarkers]

@[simp] theorem withoutMarkers_map_false (l : Data) :
    withoutMarkers (l.map (·, false)) = l := by
  induction l with
  | nil => rfl
  | cons b l ih => simpa [withoutMarkers] using ih

@[simp] theorem withoutMarkers_map_true (l : Data) : withoutMarkers (l.map (·, true)) = [] := by
  simp [withoutMarkers]

@[simp] theorem committed_append (l l' : List TextSpan) :
    committed (l ++ l') = committed l ++ committed l' := by
  simp [committed]

@[simp] theorem rendered_append (l l' : List TextSpan) :
    rendered (l ++ l') = rendered l ++ rendered l' := List.flatMap_append

@[simp] theorem rendered_cons (span : TextSpan) (l : List TextSpan) :
    rendered (span :: l) = span.text ++ rendered l := List.flatMap_cons

theorem committed_cons (h : span.format.dontCommit = false) :
    committed (span :: l) = span.text ++ committed l := by
  simp [committed, h]

theorem committed_marker (h : span.format.dontCommit = true) :
    committed (span :: l) = committed l := by
  simp [committed, h]

theorem length_markedBytes (l : List TextSpan) :
    (markedBytes l).length = utf8Count (rendered l) := by
  induction l with
  | nil => rfl
  | cons span l ih => simp [ih]

theorem withoutMarkers_markedBytes (l : List TextSpan) :
    withoutMarkers (markedBytes l) = utf8 (committed l) := by
  induction l with
  | nil => rfl
  | cons span l ih =>
    rw [markedBytes_cons, withoutMarkers_append, ih]
    cases h : span.format.dontCommit with
    | false => rw [withoutMarkers_map_false, committed_cons h, utf8_append]
    | true => rw [withoutMarkers_map_true, committed_marker h, List.nil_append]

/-- The cursor is some bytes into a span that is no marker, or at the beginning; the caret is
as far without the markers. -/
def Locates (spans : List TextSpan) (caret cursor : Nat) : Prop :=
  caret = 0 ∧ cursor = 0 ∨ ∃ l span l' k, spans = l ++ span :: l' ∧
    span.format.dontCommit = false ∧ 0 < k ∧ k ≤ utf8Count span.text ∧
    cursor = utf8Count (rendered l) + k ∧ caret = utf8Count (committed l) + k

theorem Locates.cons (h : Locates spans caret cursor) (hspan : span.format.dontCommit = false) :
    Locates (span :: spans) (utf8Count span.text + caret) (utf8Count span.text + cursor) := by
  rcases h with ⟨rfl, rfl⟩ | ⟨l, x, l', k, rfl, hx, hk, hle, rfl, rfl⟩
  · by_cases hempty : utf8Count span.text = 0
    · exact .inl ⟨by omega, by omega⟩
    · exact .inr ⟨[], span, spans, utf8Count span.text, rfl, hspan, by omega, le_refl _,
        by simp [rendered, utf8Count], by simp [committed, utf8Count]⟩
  · refine .inr ⟨span :: l, x, l', k, rfl, hx, hk, hle, ?_, ?_⟩
    · rw [rendered_cons, utf8Count_append]
      omega
    · rw [committed_cons hspan, utf8Count_append]
      omega

theorem Locates.marker (h : Locates spans caret cursor) (hspan : span.format.dontCommit = true)
    (hcaret : 0 < caret) : Locates (span :: spans) caret (utf8Count span.text + cursor) := by
  rcases h with ⟨rfl, -⟩ | ⟨l, x, l', k, rfl, hx, hk, hle, rfl, rfl⟩
  · exact absurd hcaret (lt_irrefl 0)
  · refine .inr ⟨span :: l, x, l', k, rfl, hx, hk, hle, ?_, ?_⟩
    · rw [rendered_cons, utf8Count_append]
      omega
    · rw [committed_marker hspan]

theorem Locates.eq_zero (h : Locates spans 0 cursor) : cursor = 0 := by
  rcases h with ⟨-, hcursor⟩ | ⟨l, x, l', k, -, -, hk, -, -, hcaret⟩
  · exact hcursor
  · omega

theorem Locates.le (h : Locates spans caret cursor) : cursor ≤ utf8Count (rendered spans) := by
  rcases h with ⟨-, rfl⟩ | ⟨l, x, l', k, rfl, -, -, hle, rfl, -⟩
  · exact Nat.zero_le _
  · rw [rendered_append, rendered_cons, utf8Count_append, utf8Count_append]
    omega

/-- What is before the cursor is what is before the caret, and markers. -/
theorem Locates.take (h : Locates spans caret cursor) :
    withoutMarkers ((markedBytes spans).take cursor) = (utf8 (committed spans)).take caret := by
  rcases h with ⟨rfl, rfl⟩ | ⟨l, x, l', k, rfl, hx, -, hle, rfl, rfl⟩
  · rfl
  · have hbytes : k ≤ (utf8 x.text).length := by rwa [length_utf8]
    rw [markedBytes_append, markedBytes_cons, hx, ← length_markedBytes, List.take_length_add_append,
      List.take_append_of_le_length (by simpa using hle), ← List.map_take, withoutMarkers_append,
      withoutMarkers_markedBytes, withoutMarkers_map_false, committed_append, committed_cons hx,
      utf8_append, utf8_append, ← length_utf8, List.take_length_add_append,
      List.take_append_of_le_length hbytes]

/-- A cursor is before or behind a marker. -/
theorem Locates.marker_free (h : Locates spans caret cursor) (hsplit : spans = l ++ span :: l')
    (hspan : span.format.dontCommit = true) : cursor ≤ utf8Count (rendered l) ∨
      utf8Count (rendered l) + utf8Count span.text ≤ cursor := by
  rcases h with ⟨-, rfl⟩ | ⟨k, x, k', n, hk, hx, -, hle, rfl, -⟩
  · exact .inl (Nat.zero_le _)
  rcases List.append_eq_append_iff.mp (hk.symm.trans hsplit) with ⟨c, rfl, hc⟩ | ⟨c, rfl, hc⟩
  · cases c with
    | nil =>
      obtain ⟨rfl, -⟩ := List.cons.inj hc
      rw [hx] at hspan
      cases hspan
    | cons y c =>
      obtain ⟨rfl, -⟩ := List.cons.inj hc
      refine .inl ?_
      rw [rendered_append, rendered_cons, utf8Count_append, utf8Count_append]
      omega
  · cases c with
    | nil =>
      obtain ⟨rfl, -⟩ := List.cons.inj hc
      rw [hx] at hspan
      cases hspan
    | cons y c =>
      obtain ⟨rfl, -⟩ := List.cons.inj hc
      refine .inr ?_
      rw [rendered_append, rendered_cons, utf8Count_append, utf8Count_append]
      omega

theorem utf8Count_eq_zero {t : Text} : utf8Count t = 0 ↔ t = [] := by
  cases t with
  | nil => simp [utf8Count]
  | cons c t =>
    have hc := c.utf8Size_pos
    simp only [utf8Count, List.map_cons, List.sum_cons, reduceCtorEq, iff_false]
    omega

/-- Of two beginnings of a text the one of fewer bytes is a beginning of the other. -/
theorem prefix_of_utf8Count_le {p q t : Text} (hp : p <+: t) (hq : q <+: t)
    (h : utf8Count p ≤ utf8Count q) : p <+: q := by
  rcases List.prefix_or_prefix_of_prefix hp hq with hpq | ⟨r, rfl⟩
  · exact hpq
  · rw [utf8Count_append] at h
    have hr : utf8Count r = 0 := by omega
    obtain rfl := utf8Count_eq_zero.mp hr
    simp

/-- A caret at a scalar is shown at a scalar. -/
theorem Locates.atScalar (h : Locates spans caret cursor)
    (hcaret : AtScalar (committed spans) caret) : AtScalar (rendered spans) cursor := by
  rcases h with ⟨-, rfl⟩ | ⟨l, x, l', k, rfl, hx, -, hle, rfl, rfl⟩
  · exact ⟨[], List.nil_prefix, rfl⟩
  obtain ⟨p, hp, hcount⟩ := hcaret
  rw [committed_append, committed_cons hx] at hp
  have hlong : committed l <+: p :=
    prefix_of_utf8Count_le (List.prefix_append _ _) hp (by omega)
  obtain ⟨q, rfl⟩ := hlong
  rw [utf8Count_append] at hcount
  have hq : q <+: x.text ++ committed l' := (List.prefix_append_right_inj _).mp hp
  have hqx : q <+: x.text :=
    prefix_of_utf8Count_le hq (List.prefix_append _ _) (by omega)
  refine ⟨rendered l ++ q, ?_, ?_⟩
  · rw [rendered_append, rendered_cons]
    exact (List.prefix_append_right_inj _).mpr (hqx.trans (List.prefix_append _ _))
  · rw [utf8Count_append]
    omega

end

/-! The loop. -/

/-- The spans that are rendered for the spans of the snapshot from an index on. -/
def renderedSpans (snapshot : ShownSnapshot) : Nat → List PreeditSpan → List TextSpan
  | _, [] => []
  | index, span :: spans =>
    (if needsSegmentBoundary snapshot index = true then [⟨kSegmentBoundary, segmentBoundaryFormat⟩]
      else []) ++ ⟨span.text, formatFor span.style⟩ :: renderedSpans snapshot (index + 1) spans

theorem formatFor_dontCommit (style : PreeditStyle) : (formatFor style).dontCommit = false := by
  cases style <;> rfl

theorem renderSpans_fst (snapshot : ShownSnapshot) (caret index : Nat) (spans : List PreeditSpan)
    (t : PanelText) (sourceOffset renderedCaret : Nat) :
    (renderSpans snapshot caret index spans t sourceOffset renderedCaret).1 =
      { t with spans := t.spans ++ renderedSpans snapshot index spans } := by
  induction spans generalizing index t sourceOffset renderedCaret with
  | nil => simp [renderSpans, renderedSpans]
  | cons span spans ih =>
    simp only [renderSpans, renderedSpans, ih]
    split <;> simp [PanelText.append]

theorem committed_renderedSpans (snapshot : ShownSnapshot) (index : Nat)
    (spans : List PreeditSpan) :
    committed (renderedSpans snapshot index spans) = spans.flatMap (·.text) := by
  induction spans generalizing index with
  | nil => rfl
  | cons span spans ih =>
    rw [renderedSpans, committed_append, committed_cons (formatFor_dontCommit _), ih]
    split
    · rw [committed_marker rfl]
      rfl
    · rfl

/-- From a span on, the loop adds to the cursor what puts it where the caret is. -/
theorem renderSpans_locates (snapshot : ShownSnapshot) (caret index : Nat)
    (spans : List PreeditSpan) (t : PanelText) (sourceOffset renderedCaret : Nat)
    (hcaret : caret ≤ sourceOffset + utf8Count (spans.flatMap (·.text))) :
    ∃ cursor, Locates (renderedSpans snapshot index spans) (caret - sourceOffset) cursor ∧
      (renderSpans snapshot caret index spans t sourceOffset renderedCaret).2 +
        (caret - sourceOffset) = renderedCaret + cursor := by
  induction spans generalizing index t sourceOffset renderedCaret with
  | nil =>
    have hzero : caret - sourceOffset = 0 := by
      simp only [List.flatMap_nil, utf8Count, List.map_nil, List.sum_nil] at hcaret
      omega
    exact ⟨0, .inl ⟨hzero, rfl⟩, by simp [renderSpans, hzero]⟩
  | cons span spans ih =>
    rw [List.flatMap_cons, utf8Count_append] at hcaret
    simp only [renderSpans, renderedSpans]
    generalize hmarked : needsSegmentBoundary snapshot index = marked
    generalize htext : (if marked = true then t.append kSegmentBoundary segmentBoundaryFormat
      else t).append span.text (formatFor span.style) = t'
    generalize hrc : (if marked = true ∧ sourceOffset < caret then
      renderedCaret + utf8Count kSegmentBoundary else renderedCaret) = renderedCaret'
    obtain ⟨cursor, hlocates, hcursor⟩ :=
      ih (index + 1) t' (sourceOffset + utf8Count span.text) renderedCaret' (by omega)
    by_cases hbefore : caret ≤ sourceOffset
    · have hzero : caret - (sourceOffset + utf8Count span.text) = 0 := by omega
      rw [hzero] at hlocates hcursor
      rw [hlocates.eq_zero] at hcursor
      rw [if_neg (by omega)] at hrc
      exact ⟨0, .inl ⟨by omega, rfl⟩, by omega⟩
    -- The caret is in this span or behind it, so a marker before the span is before it.
    have hspan : ∃ c, Locates (⟨span.text, formatFor span.style⟩ ::
        renderedSpans snapshot (index + 1) spans) (caret - sourceOffset) c ∧
        (renderSpans snapshot caret (index + 1) spans t'
          (sourceOffset + utf8Count span.text) renderedCaret').2 + (caret - sourceOffset) =
            renderedCaret' + c := by
      by_cases hwithin : caret ≤ sourceOffset + utf8Count span.text
      · have hzero : caret - (sourceOffset + utf8Count span.text) = 0 := by omega
        rw [hzero] at hlocates hcursor
        rw [hlocates.eq_zero] at hcursor
        refine ⟨caret - sourceOffset, .inr ⟨[], _, _, caret - sourceOffset, rfl,
          formatFor_dontCommit _, by omega, ?_, ?_, ?_⟩, by omega⟩
        · show caret - sourceOffset ≤ utf8Count span.text
          omega
        · simp [rendered, utf8Count]
        · simp [committed, utf8Count]
      · have hcons : Locates (⟨span.text, formatFor span.style⟩ ::
            renderedSpans snapshot (index + 1) spans) _ _ :=
          hlocates.cons (formatFor_dontCommit _)
        have hsum : utf8Count span.text + (caret - (sourceOffset + utf8Count span.text)) =
            caret - sourceOffset := by omega
        exact ⟨_, hsum ▸ hcons, by dsimp only; omega⟩
    obtain ⟨c, hc, hsum⟩ := hspan
    cases marked with
    | false =>
      rw [if_neg (by simp)] at hrc
      exact ⟨c, hc, by rw [hsum, hrc]⟩
    | true =>
      rw [if_pos ⟨rfl, by omega⟩] at hrc
      have hmarker : Locates (⟨kSegmentBoundary, segmentBoundaryFormat⟩ :: _) _ _ :=
        hc.marker rfl (by omega)
      exact ⟨_, hmarker, by dsimp only; omega⟩

theorem utf8ByteLength_eq (snapshot : ShownSnapshot) :
    utf8ByteLength snapshot = utf8Count (snapshot.preedit.flatMap (·.text)) := by
  unfold utf8ByteLength
  induction snapshot.preedit with
  | nil => rfl
  | cons span spans ih => rw [List.map_cons, List.sum_cons, ih, List.flatMap_cons, utf8Count_append]

/-- The spans of the rendered preedit, and its cursor if there is a caret. -/
theorem renderPreedit_cases (snapshot : ShownSnapshot) :
    (renderPreedit snapshot false).spans = renderedSpans snapshot 0 snapshot.preedit ∧
      (snapshot.caretUtf8ByteOffset = none ∧ (renderPreedit snapshot false).cursor = -1 ∨
        ∃ offset cursor, snapshot.caretUtf8ByteOffset = some offset ∧
          (renderPreedit snapshot false).cursor = (cursor : Nat) ∧
          Locates (renderedSpans snapshot 0 snapshot.preedit)
            (min offset.toNat (utf8Count (snapshot.preedit.flatMap (·.text)))) cursor) := by
  have hspans (caret : Nat) := renderSpans_fst snapshot caret 0 snapshot.preedit {} 0 caret
  unfold renderPreedit
  rw [utf8ByteLength_eq]
  cases hoffset : snapshot.caretUtf8ByteOffset with
  | none => exact ⟨by simp [hspans], .inl ⟨rfl, by simp [hspans]⟩⟩
  | some offset =>
    refine ⟨by simp [hspans, PanelText.setCursor], .inr ⟨offset, ?_⟩⟩
    obtain ⟨cursor, hlocates, hcursor⟩ := renderSpans_locates snapshot
      (min offset.toNat (utf8Count (snapshot.preedit.flatMap (·.text)))) 0 snapshot.preedit {} 0
      (min offset.toNat (utf8Count (snapshot.preedit.flatMap (·.text)))) (by omega)
    rw [Nat.sub_zero] at hlocates hcursor
    refine ⟨cursor, rfl, ?_, hlocates⟩
    simp only [Option.isSome_some, if_true, PanelText.setCursor, Option.map_some, Option.getD_some,
      Bool.false_eq_true, if_false]
    omega

/-- Whatever the snapshot: without the markers the preedit is the text of the spans, and the
cursor stands where the caret does, never inside a marker and at a scalar if the caret does. -/
theorem renderPreedit_transparent (snapshot : ShownSnapshot) :
    let text := snapshot.preedit.flatMap (·.text)
    let shown := renderPreedit snapshot false
    let caret := min ((snapshot.caretUtf8ByteOffset.map UInt32.toNat).getD 0) (utf8Count text)
    shown.toStringForCommit = text ∧ shown.cursor ≤ utf8Count shown.toText ∧
      withoutMarkers ((markedBytes shown.spans).take shown.cursor.toNat) =
        (utf8 text).take caret ∧
      (∀ l marker l', shown.spans = l ++ marker :: l' → marker.format.dontCommit = true →
        shown.cursor ≤ utf8Count (rendered l) ∨
          (utf8Count (rendered l) + utf8Count marker.text : Int) ≤ shown.cursor) ∧
      (AtScalar text caret → AtScalar shown.toText shown.cursor.toNat) := by
  intro text shown caret
  obtain ⟨hspans, hcaret⟩ := renderPreedit_cases snapshot
  have hspans : shown.spans = renderedSpans snapshot 0 snapshot.preedit := hspans
  have htext : shown.toText = rendered shown.spans := rfl
  have hcommitted : committed shown.spans = text := by rw [hspans, committed_renderedSpans]
  refine ⟨hcommitted, ?_⟩
  rcases hcaret with ⟨hnone, hcursor⟩ | ⟨offset, cursor, hsome, hcursor, hlocates⟩
  · have hcursor : shown.cursor = -1 := hcursor
    have hzero : caret = 0 := by simp [caret, hnone]
    rw [hcursor, hzero]
    exact ⟨by omega, rfl, fun _ _ _ _ _ => .inl (by omega), fun _ => ⟨[], List.nil_prefix, rfl⟩⟩
  · have hcursor : shown.cursor = (cursor : Nat) := hcursor
    have hlocates : Locates shown.spans caret cursor := by
      rw [hspans]
      simpa [caret, hsome] using hlocates
    rw [hcursor, htext, Int.toNat_natCast]
    refine ⟨by exact_mod_cast hlocates.le, hcommitted ▸ hlocates.take, ?_, ?_⟩
    · intro l marker l' hsplit hmarker
      have hfree := hlocates.marker_free hsplit hmarker
      omega
    · rw [← hcommitted]
      exact hlocates.atScalar

example : (renderPreedit
    { phase := .selecting
      preedit := [⟨"東京".toList, .active⟩, ⟨"に行く".toList, .underline⟩]
      caretUtf8ByteOffset := some 15 } false).cursor = 18 := by decide

end Hazkey.SessionClient
