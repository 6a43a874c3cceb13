import Mathlib.Data.List.Basic
import Mathlib.Data.Char
import Mathlib.Algebra.GroupWithZero.Nat

/-! Texts as their Unicode scalars, and what the reducer takes from the Swift
runtime: segmentation into Characters and the two ICU width transforms. -/

namespace Hazkey

abbrev Text := List Char

instance : LawfulBEq Text := inferInstance

/-- Opaque bytes crossing the client boundary. -/
abbrev Data := List UInt8

def utf8Count (t : Text) : Nat := (t.map Char.utf8Size).sum

def utf8 (t : Text) : Data := t.flatMap String.utf8EncodeChar

@[simp] theorem length_utf8 (t : Text) : (utf8 t).length = utf8Count t := by
  induction t with
  | nil => rfl
  | cons c t ih =>
    have hc : (utf8 (c :: t)).length = c.utf8Size + (utf8 t).length := by simp [utf8]
    rw [hc, ih]
    simp [utf8Count]

@[simp] theorem utf8_append (t u : Text) : utf8 (t ++ u) = utf8 t ++ utf8 u := List.flatMap_append

@[simp] theorem utf8Count_append (t u : Text) : utf8Count (t ++ u) = utf8Count t + utf8Count u := by
  simp [utf8Count]

theorem utf8_injective {t u : Text} (h : utf8 t = utf8 u) : t = u := by
  apply String.ofList_injective
  apply String.toByteArray_inj.mp
  rw [String.toByteArray_ofList, String.toByteArray_ofList]
  exact congrArg List.toByteArray h

/-- So many bytes end at a scalar of the text. -/
def AtScalar (t : Text) (n : Nat) : Prop := ∃ p, p <+: t ∧ utf8Count p = n

theorem AtScalar.le {t : Text} {n : Nat} (h : AtScalar t n) : n ≤ utf8Count t := by
  obtain ⟨p, ⟨q, rfl⟩, rfl⟩ := h
  rw [utf8Count_append]
  omega

/-- An offset into what follows a text is one into both. -/
theorem AtScalar.behind {t : Text} {n : Nat} (h : AtScalar t n) (p : Text) :
    AtScalar (p ++ t) (utf8Count p + n) := by
  obtain ⟨q, hq, rfl⟩ := h
  exact ⟨p ++ q, (List.prefix_append_right_inj p).mpr hq, utf8Count_append p q⟩

theorem atScalar_prefix (p q : Text) : AtScalar (p ++ q) (utf8Count p) :=
  ⟨p, List.prefix_append p q, rfl⟩

/-- The printable ASCII scalars and their full-width forms. -/
def fullwidthScalar (c : Char) : Char :=
  if c.toNat = 0x20 then Char.ofNat 0x3000
  else if 0x21 ≤ c.toNat ∧ c.toNat ≤ 0x7E then Char.ofNat (c.toNat + 0xFEE0)
  else c

def halfwidthScalar (c : Char) : Char :=
  if c.toNat = 0x3000 then Char.ofNat 0x20
  else if 0xFF01 ≤ c.toNat ∧ c.toNat ≤ 0xFF5E then Char.ofNat (c.toNat - 0xFEE0)
  else c

def printableAscii (c : Char) : Bool := 0x20 ≤ c.toNat && c.toNat ≤ 0x7E

/-- The text services of the runtime. Segmentation is that of extended
grapheme clusters; a printable ASCII scalar and its full-width form are of the
same break class, so exchanging them moves no boundary. -/
class SwiftText where
  characters : Text → List Text
  flatten_characters : ∀ t, (characters t).flatten = t
  character_ne_nil : ∀ t, ∀ c ∈ characters t, c ≠ []
  characters_character : ∀ t, ∀ c ∈ characters t, characters c = [c]
  characters_ascii : ∀ t : Text, t.all printableAscii = true → characters t = t.map ([·])
  characters_fullwidth : ∀ t : Text,
    characters (t.map fullwidthScalar) = (characters t).map (·.map fullwidthScalar)
  characters_halfwidth : ∀ t : Text,
    characters (t.map halfwidthScalar) = (characters t).map (·.map halfwidthScalar)
  fullwidthToHalfwidth : Text → Option Text
  halfwidthToFullwidth : Text → Option Text

variable [SwiftText]

/-- `String.count`. -/
def characterCount (t : Text) : Nat := (SwiftText.characters t).length

inductive ImeTextTransform
  | hiragana
  | katakanaFullwidth
  | katakanaHalfwidth
  | alphabetFullwidth
  | alphabetHalfwidth
  deriving DecidableEq, Repr

def toHiragana (c : Char) : Char :=
  if 0x30A1 ≤ c.toNat ∧ c.toNat ≤ 0x30F6 then Char.ofNat (c.toNat - 0x60) else c

def toKatakana (c : Char) : Char :=
  if 0x3041 ≤ c.toNat ∧ c.toNat ≤ 0x3096 then Char.ofNat (c.toNat + 0x60) else c

def katakanaFullwidthText (text : Text) : Text :=
  ((SwiftText.halfwidthToFullwidth text).getD text).map toKatakana

def transformText (text : Text) : ImeTextTransform → Text
  | .hiragana => ((SwiftText.halfwidthToFullwidth text).getD text).map toHiragana
  | .katakanaFullwidth => katakanaFullwidthText text
  | .katakanaHalfwidth =>
    let katakana := katakanaFullwidthText text
    (SwiftText.fullwidthToHalfwidth katakana).getD katakana
  | .alphabetFullwidth => text.map fullwidthScalar
  | .alphabetHalfwidth => text.map halfwidthScalar

theorem characters_eq_nil {t : Text} : SwiftText.characters t = [] ↔ t = [] := by
  constructor
  · intro h
    have := SwiftText.flatten_characters t
    rw [h] at this
    exact this.symm
  · rintro rfl
    exact SwiftText.characters_ascii [] rfl

theorem characterCount_character {t c : Text} (h : c ∈ SwiftText.characters t) :
    characterCount c = 1 := by
  simp [characterCount, SwiftText.characters_character t c h]

theorem characters_singleton (c : Char) : SwiftText.characters [c] = [[c]] := by
  have hf := SwiftText.flatten_characters [c]
  have hne := SwiftText.character_ne_nil [c]
  cases hs : SwiftText.characters [c] with
  | nil => simp [hs] at hf
  | cons x xs =>
    rw [hs] at hf hne
    obtain ⟨y, ys, rfl⟩ := List.exists_cons_of_ne_nil (hne x (by simp))
    simp only [List.flatten_cons, List.cons_append, List.cons.injEq,
      List.append_eq_nil_iff, List.flatten_eq_nil_iff] at hf
    obtain ⟨rfl, rfl, hxs⟩ := hf
    cases xs with
    | nil => rfl
    | cons z zs => exact absurd (hxs z (by simp)) (hne z (by simp))

theorem transformText_eq_nil_of_alphabet {text : Text} {transform : ImeTextTransform}
    (h : transform = .alphabetFullwidth ∨ transform = .alphabetHalfwidth) :
    transformText text transform = [] ↔ text = [] := by
  rcases h with rfl | rfl <;> simp [transformText]

theorem characterCount_alphabet {text : Text} {transform : ImeTextTransform}
    (h : transform = .alphabetFullwidth ∨ transform = .alphabetHalfwidth) :
    characterCount (transformText text transform) = characterCount text := by
  rcases h with rfl | rfl
  · simp [characterCount, transformText, SwiftText.characters_fullwidth]
  · simp [characterCount, transformText, SwiftText.characters_halfwidth]

end Hazkey
