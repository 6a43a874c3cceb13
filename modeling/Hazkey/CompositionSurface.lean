import Hazkey.Composition
import Mathlib.Data.List.AList
import Mathlib.Data.List.Sort

/-! The boundaries between the inputs of a composition, in the units of the reading that is
rendered from it. -/

namespace Hazkey

/-- The styles of the runtime; another table is known by its name. -/
inductive InputStyle
  | direct
  | roman2kana
  | table (name : Text)
  deriving DecidableEq

/-- The runtime that renders inputs. A text is inserted as one input for each of its
Characters, a key as one; without inputs nothing is rendered, and nothing is rendered before
the first of them. -/
class ComposingRuntime [SwiftText] where
  ComposingText : Type
  empty : ComposingText
  insertText : ComposingText → Text → InputStyle → ComposingText
  insertKey : ComposingText → Text → Text → InputStyle → ComposingText
  inputCount : ComposingText → Nat
  convertTarget : ComposingText → Text
  inputIndexToSurfaceIndexMap : ComposingText → AList fun _ : Int => Int
  inputCount_empty : inputCount empty = 0
  inputCount_insertText : ∀ c text style,
    inputCount (insertText c text style) = inputCount c + characterCount text
  inputCount_insertKey : ∀ c intention input style,
    inputCount (insertKey c intention input style) = inputCount c + 1
  convertTarget_empty : ∀ c, inputCount c = 0 → convertTarget c = []
  surface_zero : ∀ c n, (inputIndexToSurfaceIndexMap c).lookup 0 = some n → n = 0

namespace CompositionSurface

section

variable [SwiftText]

def firstCharacter (text : Text) : Option Text := (SwiftText.characters text).head?

/-- The intention and the input of a key. -/
def key (element : CompositionElement) : Option (Text × Text) :=
  if element.inputStyle = .mapped then
    (element.mappedIntention.bind firstCharacter).bind fun intention =>
      (firstCharacter (element.mappedInputOverride.getD element.text)).map (intention, ·)
  else none

variable [ComposingRuntime]

open ComposingRuntime

def inputStyle (mappedInputStyle : InputStyle) (mappedTableName : Option Text)
    (element : CompositionElement) : InputStyle :=
  match element.inputStyle, mappedTableName with
  | .direct, _ => .direct
  | .mapped, some name => .table name
  | .mapped, none => mappedInputStyle

def insertElement (mappedInputStyle : InputStyle) (mappedTableName : Option Text)
    (c : ComposingText) (element : CompositionElement) : ComposingText :=
  match key element with
  | some (intention, input) =>
    insertKey c intention input (inputStyle mappedInputStyle mappedTableName element)
  | none => insertText c element.text (inputStyle mappedInputStyle mappedTableName element)

def composingText (mappedInputStyle : InputStyle) (composition : CompositionInput) :
    ComposingText :=
  composition.elements.foldl (insertElement mappedInputStyle composition.mappedTableName) empty

/-- How many scalars the first Characters of a text are, by their number. -/
def scalarCounts (text : Text) : List Int :=
  (SwiftText.characters text).scanl (fun n character => n + character.length) 0

def scalarCountBySurfaceCount (text : Text) (surfaceCount : Int) : Option Int :=
  if surfaceCount < 0 then none else (scalarCounts text)[surfaceCount.toNat]?

structure Boundary where
  inputCount : Int
  keySize : Int
  deriving DecidableEq

def surfaceCounts (c : ComposingText) : AList fun _ : Int => Int :=
  (inputIndexToSurfaceIndexMap c).insert (inputCount c) (characterCount (convertTarget c))

def boundary (c : ComposingText) (inputCount surfaceCount : Int) : Option Boundary :=
  if 0 ≤ inputCount ∧ inputCount ≤ ComposingRuntime.inputCount c then
    (scalarCountBySurfaceCount (convertTarget c) surfaceCount).map (⟨inputCount, ·⟩)
  else none

def stableKeySizeBoundaries (c : ComposingText) : List Boundary :=
  ((surfaceCounts c).entries.filterMap fun x => boundary c x.1 x.2).insertionSort
    fun left right => left.inputCount ≤ right.inputCount

/-- None inside inputs that still depend on each other. -/
def keySize (c : ComposingText) (elementCount : Nat) (inputCount : Int) : Option Int :=
  ((stableKeySizeBoundaries c).find? fun b =>
    b.inputCount = min (max inputCount 0) elementCount).map (·.keySize)

def inputCount (c : ComposingText) (keySize : Int) : Option Int :=
  (((stableKeySizeBoundaries c).filter fun b => b.keySize = keySize).map (·.inputCount)).max?

/-- `Int.min` and `Int.max`. -/
def minInt : Int := -9223372036854775808
def maxInt : Int := 9223372036854775807

/-- Arithmetic traps where its result is no `Int`. -/
def checked (value : Int) : Option Int :=
  if minInt ≤ value ∧ value ≤ maxInt then some value else none

/-- So does an index outside the array. -/
def element (positions : List Int) (index : Int) : Option Int :=
  if index < 0 then none else positions[index.toNat]?

/-- The indices of the map, and both ends. -/
def cursorBoundaries (c : ComposingText) : List Int :=
  ((0 :: (ComposingRuntime.inputCount c : Int) ::
    (inputIndexToSurfaceIndexMap c).keys.filter fun index =>
      0 ≤ index ∧ index ≤ ComposingRuntime.inputCount c).dedup).insertionSort (· ≤ ·)

def clampedCursor (c : ComposingText) (cursor : Int) : Int :=
  min (max cursor 0) (ComposingRuntime.inputCount c)

def following (c : ComposingText) (cursor : Int) : List Int :=
  (cursorBoundaries c).filter (clampedCursor c cursor < ·)

def preceding (c : ComposingText) (cursor : Int) : List Int :=
  (cursorBoundaries c).filter (· < clampedCursor c cursor)

def movedCursor (c : ComposingText) (cursor offset : Int) : Option Int :=
  if offset = 0 then some (clampedCursor c cursor)
  else if 0 < offset then
    if following c cursor = [] then some (clampedCursor c cursor)
    else do
      let steps ← checked (offset - 1)
      element (following c cursor) (min steps ((following c cursor).length - 1))
  else if preceding c cursor = [] then some (clampedCursor c cursor)
  else do
    let next ← checked (offset + 1)
    let steps ← checked (-next)
    element (preceding c cursor) ((preceding c cursor).length - 1 -
      min steps ((preceding c cursor).length - 1))

def inputCursorPosition (mappedInputStyle : InputStyle) (composition : CompositionInput)
    (offset : Int) : Option Int :=
  movedCursor (composingText mappedInputStyle composition) composition.cursor offset

/-! What the boundaries are. -/

variable {c : ComposingText} {b : Boundary} {n k : Int}

theorem mem_boundaries : b ∈ stableKeySizeBoundaries c ↔
    ∃ surface, (surfaceCounts c).lookup b.inputCount = some surface ∧
      boundary c b.inputCount surface = some b := by
  unfold stableKeySizeBoundaries
  rw [List.mem_insertionSort, List.mem_filterMap]
  constructor
  · rintro ⟨⟨m, surface⟩, hmem, hb⟩
    have hkey : m = b.inputCount := by
      unfold boundary at hb
      split at hb
      · obtain ⟨size, -, rfl⟩ := Option.map_eq_some_iff.mp hb
        rfl
      · cases hb
    subst hkey
    exact ⟨surface, AList.mem_lookup_iff.mpr hmem, hb⟩
  · rintro ⟨surface, hlookup, hb⟩
    exact ⟨⟨b.inputCount, surface⟩, AList.mem_lookup_iff.mp hlookup, hb⟩

theorem boundary_bounds (h : b ∈ stableKeySizeBoundaries c) :
    0 ≤ b.inputCount ∧ b.inputCount ≤ ComposingRuntime.inputCount c := by
  obtain ⟨surface, -, hb⟩ := mem_boundaries.mp h
  unfold boundary at hb
  split at hb
  · assumption
  · cases hb

/-- Before the first input nothing is rendered. -/
theorem boundary_pos (h : b ∈ stableKeySizeBoundaries c) (hsize : 0 < b.keySize) :
    1 ≤ b.inputCount := by
  obtain ⟨hnonneg, -⟩ := boundary_bounds h
  by_contra hlt
  have hzero : b.inputCount = 0 := by omega
  obtain ⟨surface, hlookup, hb⟩ := mem_boundaries.mp h
  have hsurface : surface = 0 := by
    rw [hzero, surfaceCounts] at hlookup
    by_cases hcount : ComposingRuntime.inputCount c = 0
    · rw [hcount] at hlookup
      have hsame := (AList.lookup_insert _).symm.trans hlookup
      rw [convertTarget_empty c hcount] at hsame
      have hchars : SwiftText.characters ([] : Text) = [] := SwiftText.characters_ascii [] rfl
      simpa [characterCount, hchars] using hsame.symm
    · rw [AList.lookup_insert_ne (by exact_mod_cast Ne.symm hcount)] at hlookup
      exact surface_zero c surface hlookup
  unfold boundary at hb
  split at hb
  · obtain ⟨size, hsize', heq⟩ := Option.map_eq_some_iff.mp hb
    rw [hsurface] at hsize'
    rw [← heq] at hsize
    have hfirst : size = 0 := by
      unfold scalarCountBySurfaceCount scalarCounts at hsize'
      cases hchars : SwiftText.characters (convertTarget c) <;> simp_all
    exact absurd hsize (by simp [hfirst])
  · cases hb

theorem keySize_mem {elementCount : Nat} (h : keySize c elementCount n = some k) :
    ⟨min (max n 0) elementCount, k⟩ ∈ stableKeySizeBoundaries c := by
  obtain ⟨b, hfind, rfl⟩ := Option.map_eq_some_iff.mp h
  have hcount := List.find?_some hfind
  simp only [decide_eq_true_eq] at hcount
  rw [← hcount]
  exact List.mem_of_find?_eq_some hfind

/-- Of the boundaries of one size the last one counts. -/
theorem inputCount_greatest (h : inputCount c k = some n) :
    ⟨n, k⟩ ∈ stableKeySizeBoundaries c ∧
      ∀ m, ⟨m, k⟩ ∈ stableKeySizeBoundaries c → m ≤ n := by
  obtain ⟨hmem, hmax⟩ := List.max?_eq_some_iff.mp h
  constructor
  · obtain ⟨b, hb, rfl⟩ := List.mem_map.mp hmem
    obtain ⟨hmem, hsize⟩ := List.mem_filter.mp hb
    simp only [decide_eq_true_eq] at hsize
    rw [← hsize]
    exact hmem
  · intro m hm
    exact hmax m (List.mem_map.mpr ⟨⟨m, k⟩, List.mem_filter.mpr ⟨hm, by simp⟩, rfl⟩)

/-- Where every element is one input, the inputs are the elements. -/
def CompositionElement.single (element : CompositionElement) : Prop :=
  (key element).isSome = true ∨ characterCount element.text = 1

theorem inputCount_composingText {mappedInputStyle : InputStyle} {composition : CompositionInput}
    (h : ∀ element ∈ composition.elements, CompositionElement.single element) :
    ComposingRuntime.inputCount (composingText mappedInputStyle composition) =
      composition.elements.length := by
  suffices hfold : ∀ (elements : List CompositionElement) (c : ComposingText),
      (∀ element ∈ elements, CompositionElement.single element) →
      ComposingRuntime.inputCount
        (elements.foldl (insertElement mappedInputStyle composition.mappedTableName) c) =
          ComposingRuntime.inputCount c + elements.length by
    rw [composingText, hfold _ _ h, inputCount_empty, Nat.zero_add]
  intro elements
  induction elements with
  | nil => simp
  | cons element elements ih =>
    intro c hall
    have hone : ComposingRuntime.inputCount
        (insertElement mappedInputStyle composition.mappedTableName c element) =
          ComposingRuntime.inputCount c + 1 := by
      unfold insertElement
      rcases hall element List.mem_cons_self with hkey | hcount
      · obtain ⟨⟨intention, input⟩, hkey⟩ := Option.isSome_iff_exists.mp hkey
        rw [hkey]
        exact inputCount_insertKey ..
      · cases key element with
        | none => exact (inputCount_insertText ..).trans (by rw [hcount])
        | some k => exact inputCount_insertKey ..
    rw [List.foldl_cons, ih _ fun x hx => hall x (List.mem_cons_of_mem _ hx), hone,
      List.length_cons]
    omega

end

end CompositionSurface

end Hazkey
