import Hazkey.Text

/-! The composition buffer: input elements with a cursor between them. -/

namespace Hazkey

inductive ImePhase
  | idle
  | composing
  | previewing
  | selecting
  | reconverting
  | unicodeInput
  deriving DecidableEq, Repr

inductive ImeInputStyle
  | mapped
  | direct
  deriving DecidableEq, Repr

structure CompositionElement where
  text : Text
  composingCount : Nat
  inputStyle : ImeInputStyle
  mappedIntention : Option Text
  mappedInputOverride : Option Text
  composingCount_pos : 1 ≤ composingCount
  deriving DecidableEq

/-- The memberwise initializer, which clamps the count. -/
def CompositionElement.make (text : Text) (composingCount : Int) (inputStyle : ImeInputStyle)
    (mappedIntention mappedInputOverride : Option Text) : CompositionElement where
  text := text
  composingCount := (max 1 composingCount).toNat
  inputStyle := inputStyle
  mappedIntention := mappedIntention
  mappedInputOverride := mappedInputOverride
  composingCount_pos := by omega

structure PinnedKeymapRule where
  intention : Text
  inputOverride : Option Text
  deriving DecidableEq

/-- `[String: PinnedKeymapRule]`. -/
abbrev Keymap := List (Text × PinnedKeymapRule)

/-- A cursor is an index between input elements, not a position in the text. -/
structure CompositionBuffer where
  elements : List CompositionElement
  cursor : Nat
  cursor_le : cursor ≤ elements.length
  deriving DecidableEq

namespace CompositionBuffer

def empty : CompositionBuffer := ⟨[], 0, le_rfl⟩

/-- `init(elements:cursor:)`. -/
def make (elements : List CompositionElement) (cursor : Int) : CompositionBuffer where
  elements := elements
  cursor := (min (max cursor 0) elements.length).toNat
  cursor_le := by omega

def isEmpty (b : CompositionBuffer) : Bool := b.elements.isEmpty

def text (b : CompositionBuffer) : Text := (b.elements.map (·.text)).flatten

/-- The cursor stands after the last element. -/
def atEnd (b : CompositionBuffer) : Prop := b.cursor = b.elements.length

instance (b : CompositionBuffer) : Decidable b.atEnd := inferInstanceAs (Decidable (_ = _))

section

variable [SwiftText]

def newElements (text : Text) (inputStyle : ImeInputStyle) (keymap : Keymap) :
    List CompositionElement :=
  (SwiftText.characters text).map fun source =>
    let mapping := if inputStyle = .mapped then keymap.lookup source else none
    .make source 1 inputStyle (mapping.map (·.intention)) (mapping.bind (·.inputOverride))

def insert (b : CompositionBuffer) (text : Text) (inputStyle : ImeInputStyle)
    (keymap : Keymap) : CompositionBuffer :=
  let new := newElements text inputStyle keymap
  { elements := b.elements.take b.cursor ++ new ++ b.elements.drop b.cursor
    cursor := b.cursor + new.length
    cursor_le := by have := b.cursor_le; simp; omega }

end

def deleteBackward (b : CompositionBuffer) : CompositionBuffer :=
  if 0 < b.cursor then
    { elements := b.elements.eraseIdx (b.cursor - 1)
      cursor := b.cursor - 1
      cursor_le := by have := b.cursor_le; rw [List.length_eraseIdx]; split <;> omega }
  else b

def deleteForward (b : CompositionBuffer) : CompositionBuffer :=
  if h : b.cursor < b.elements.length then
    { elements := b.elements.eraseIdx b.cursor
      cursor := b.cursor
      cursor_le := by rw [List.length_eraseIdx, if_pos h]; omega }
  else b

def moveCursor (b : CompositionBuffer) (offset : Int) : CompositionBuffer where
  elements := b.elements
  cursor := (min (max (b.cursor + offset) 0) b.elements.length).toNat
  cursor_le := by omega

def moveCursorToStart (b : CompositionBuffer) : CompositionBuffer :=
  ⟨b.elements, 0, Nat.zero_le _⟩

def moveCursorToEnd (b : CompositionBuffer) : CompositionBuffer :=
  ⟨b.elements, b.elements.length, le_rfl⟩

/-- Removes the first `count` elements, all of them if there are fewer. -/
def removePrefix (b : CompositionBuffer) (count : Nat) : CompositionBuffer where
  elements := b.elements.drop count
  cursor := b.cursor - min count b.elements.length
  cursor_le := by have := b.cursor_le; rw [List.length_drop]; omega

@[simp] theorem elements_empty : empty.elements = [] := rfl
@[simp] theorem cursor_empty : empty.cursor = 0 := rfl
@[simp] theorem isEmpty_empty : empty.isEmpty = true := rfl
@[simp] theorem elements_make (es : List CompositionElement) (c : Int) :
    (make es c).elements = es := rfl
@[simp] theorem elements_moveCursor (b : CompositionBuffer) (n : Int) :
    (b.moveCursor n).elements = b.elements := rfl
@[simp] theorem elements_moveCursorToStart (b : CompositionBuffer) :
    b.moveCursorToStart.elements = b.elements := rfl
@[simp] theorem elements_moveCursorToEnd (b : CompositionBuffer) :
    b.moveCursorToEnd.elements = b.elements := rfl
@[simp] theorem cursor_moveCursorToEnd (b : CompositionBuffer) :
    b.moveCursorToEnd.cursor = b.elements.length := rfl
@[simp] theorem elements_removePrefix (b : CompositionBuffer) (n : Nat) :
    (b.removePrefix n).elements = b.elements.drop n := rfl

theorem deleteBackward_subset (b : CompositionBuffer) :
    b.deleteBackward.elements ⊆ b.elements := by
  unfold deleteBackward
  split
  · exact List.eraseIdx_subset
  · exact List.Subset.refl _

theorem deleteForward_subset (b : CompositionBuffer) :
    b.deleteForward.elements ⊆ b.elements := by
  unfold deleteForward
  split
  · exact List.eraseIdx_subset
  · exact List.Subset.refl _

theorem isEmpty_iff {b : CompositionBuffer} : b.isEmpty = true ↔ b.elements = [] :=
  List.isEmpty_iff

theorem isEmpty_eq_false_iff {b : CompositionBuffer} : b.isEmpty = false ↔ b.elements ≠ [] := by
  simp [isEmpty]

theorem eq_empty_of_elements {b : CompositionBuffer} (h : b.elements = []) : b = empty := by
  obtain ⟨es, c, hc⟩ := b
  obtain rfl : es = [] := h
  obtain rfl : c = 0 := Nat.le_zero.mp hc
  rfl

theorem ext_of_atEnd {b b' : CompositionBuffer} (h : b.elements = b'.elements)
    (hb : b.atEnd) (hb' : b'.atEnd) : b = b' := by
  obtain ⟨es, c, hc⟩ := b
  obtain ⟨es', c', hc'⟩ := b'
  obtain rfl : es = es' := h
  obtain rfl : c = es.length := hb
  obtain rfl : c' = es.length := hb'
  rfl

theorem moveCursorToEnd_of_atEnd {b : CompositionBuffer} (h : b.atEnd) : b.moveCursorToEnd = b :=
  ext_of_atEnd rfl rfl h

theorem atEnd_moveCursorToEnd (b : CompositionBuffer) : b.moveCursorToEnd.atEnd := rfl

section

variable [SwiftText]

theorem newElements_eq_nil {text : Text} {style : ImeInputStyle} {keymap : Keymap} :
    newElements text style keymap = [] ↔ text = [] := by
  simp [newElements, characters_eq_nil]

theorem insert_elements_ne_nil {b : CompositionBuffer} {text : Text} {style : ImeInputStyle}
    {keymap : Keymap} (h : text ≠ []) : (b.insert text style keymap).elements ≠ [] := by
  have hn : newElements text style keymap ≠ [] := fun hh => h (newElements_eq_nil.mp hh)
  simp [insert, hn]

end

end CompositionBuffer

structure CompositionInput where
  elements : List CompositionElement
  cursor : Int
  leftContext : Text
  targetCount : Option Nat := none
  mappedTableName : Option Text := none
  deriving DecidableEq

end Hazkey
