import Hazkey.CompositionSurface
import Hazkey.Evaluation
import Hazkey.Stops

/-! Moving the cursor goes along the boundaries that the rendering has. -/

namespace Hazkey

namespace CompositionSurface

open ComposingRuntime

section

variable [SwiftText] [ComposingRuntime] {c : ComposingText} {cursor n m p q : Int}

theorem mem_cursorBoundaries : p ∈ cursorBoundaries c ↔
    p = 0 ∨ p = ComposingRuntime.inputCount c ∨
      p ∈ (inputIndexToSurfaceIndexMap c).keys ∧
        0 ≤ p ∧ p ≤ ComposingRuntime.inputCount c := by
  simp only [cursorBoundaries, List.mem_insertionSort, List.mem_dedup, List.mem_cons,
    List.mem_filter, decide_eq_true_eq]

theorem cursorBoundaries_bounds (h : p ∈ cursorBoundaries c) :
    0 ≤ p ∧ p ≤ ComposingRuntime.inputCount c := by
  rcases mem_cursorBoundaries.mp h with rfl | rfl | ⟨-, h⟩ <;> omega

theorem cursorBoundaries_sorted (c : ComposingText) :
    (cursorBoundaries c).Pairwise (· < ·) := by
  have hle := List.pairwise_insertionSort (fun a b : Int => a ≤ b)
    ((0 :: (ComposingRuntime.inputCount c : Int) ::
      (inputIndexToSurfaceIndexMap c).keys.filter fun index =>
        0 ≤ index ∧ index ≤ ComposingRuntime.inputCount c).dedup)
  have hne : (cursorBoundaries c).Nodup :=
    (List.perm_insertionSort _ _).nodup_iff.mpr (List.nodup_dedup _)
  exact (hle.and hne).imp fun h => lt_of_le_of_ne h.1 h.2

theorem clampedCursor_bounds (c : ComposingText) (cursor : Int) :
    0 ≤ clampedCursor c cursor ∧ clampedCursor c cursor ≤ ComposingRuntime.inputCount c := by
  unfold clampedCursor
  omega

omit [SwiftText] [ComposingRuntime] in
theorem element_eq (l : List Int) {i : Nat} (h : i < l.length) (d : Int) :
    element l i = some (l[i]?.getD d) := by
  have hi : ¬ (i : Int) < 0 := by omega
  rw [element, if_neg hi, Int.toNat_natCast, List.getElem?_eq_getElem h, Option.getD_some]

omit [SwiftText] [ComposingRuntime] in
theorem checked_eq (h : minInt ≤ n) (h' : n ≤ maxInt) : checked n = some n :=
  if_pos ⟨h, h'⟩

theorem movedCursor_pos (hpos : 0 < n) (hmax : n ≤ maxInt) :
    movedCursor c cursor n =
      some (Stops.advance (· < ·) (cursorBoundaries c) n.toNat (clampedCursor c cursor)) := by
  obtain ⟨k, rfl⟩ : ∃ k : Nat, n = k + 1 := ⟨(n - 1).toNat, by omega⟩
  have hk : ((k : Int) + 1).toNat = k + 1 := by omega
  rw [hk, ← Stops.jump_eq_advance (cursorBoundaries_sorted c), movedCursor,
    if_neg (by omega), if_pos hpos]
  have hsame : Stops.beyond (· < ·) (cursorBoundaries c) (clampedCursor c cursor) =
    following c cursor := rfl
  by_cases hnil : following c cursor = []
  · rw [if_pos hnil, Stops.jump, hsame, hnil]
    rfl
  · have hlen := List.length_pos_of_ne_nil hnil
    have hchecked : checked ((k : Int) + 1 - 1) = some (k : Int) := by
      rw [add_sub_cancel_right]
      exact checked_eq (by unfold minInt; omega) (by omega)
    have hindex : min (k : Int) ((following c cursor).length - 1) =
        (min k ((following c cursor).length - 1) : Nat) := by
      omega
    rw [if_neg hnil, hchecked, Option.bind_eq_bind, Option.bind_some, hindex,
      element_eq _ (by omega) (clampedCursor c cursor), Stops.jump, hsame]

theorem movedCursor_neg (hneg : n < 0) (hmin : minInt ≤ n) :
    movedCursor c cursor n =
      some (Stops.advance (· > ·) (cursorBoundaries c).reverse (-n).toNat
        (clampedCursor c cursor)) := by
  obtain ⟨k, rfl⟩ : ∃ k : Nat, n = -(k + 1) := ⟨(-n - 1).toNat, by omega⟩
  have hk : (-(-((k : Int) + 1))).toNat = k + 1 := by omega
  have hsorted : (cursorBoundaries c).reverse.Pairwise (· > ·) :=
    List.pairwise_reverse.mpr (cursorBoundaries_sorted c)
  rw [hk, ← Stops.jump_eq_advance hsorted, movedCursor, if_neg (by omega),
    if_neg (by omega)]
  have hsame : Stops.beyond (· > ·) (cursorBoundaries c).reverse (clampedCursor c cursor) =
      (preceding c cursor).reverse := List.filter_reverse
  by_cases hnil : preceding c cursor = []
  · rw [if_pos hnil, Stops.jump, hsame, hnil]
    rfl
  · have hlen := List.length_pos_of_ne_nil hnil
    have hnext : checked (-((k : Int) + 1) + 1) = some (-(k : Int)) := by
      have : -((k : Int) + 1) + 1 = -k := by omega
      rw [this]
      exact checked_eq (by omega) (by unfold maxInt; omega)
    have hsteps : checked (-(-(k : Int))) = some (k : Int) := by
      rw [neg_neg]
      exact checked_eq (by unfold minInt; omega) (by unfold minInt at hmin; unfold maxInt; omega)
    have hindex : ((preceding c cursor).length : Int) - 1 -
          min (k : Int) ((preceding c cursor).length - 1) =
        ((preceding c cursor).length - 1 -
          min k ((preceding c cursor).length - 1) : Nat) := by
      omega
    rw [if_neg hnil, hnext, Option.bind_eq_bind, Option.bind_some, hsteps, Option.bind_some,
      hindex, element_eq _ (by omega) (clampedCursor c cursor), Stops.jump,
      hsame, List.length_reverse, List.getElem?_reverse (by omega)]

/-- Where a stop at the start and one at the end are, there is always one to reach. -/
theorem exists_boundary_after (c : ComposingText) (cursor : Int) :
    clampedCursor c cursor ∈ cursorBoundaries c ∨
      ∃ p ∈ cursorBoundaries c, clampedCursor c cursor < p := by
  have hbounds := clampedCursor_bounds c cursor
  have hlast : (ComposingRuntime.inputCount c : Int) ∈ cursorBoundaries c :=
    mem_cursorBoundaries.mpr (.inr (.inl rfl))
  by_cases heq : clampedCursor c cursor = ComposingRuntime.inputCount c
  · exact .inl (heq ▸ hlast)
  · exact .inr ⟨_, hlast, by omega⟩

theorem exists_boundary_before (c : ComposingText) (cursor : Int) :
    clampedCursor c cursor ∈ (cursorBoundaries c).reverse ∨
      ∃ p ∈ (cursorBoundaries c).reverse, clampedCursor c cursor > p := by
  have hbounds := clampedCursor_bounds c cursor
  have hfirst : (0 : Int) ∈ (cursorBoundaries c).reverse :=
    List.mem_reverse.mpr (mem_cursorBoundaries.mpr (.inl rfl))
  by_cases heq : clampedCursor c cursor = 0
  · exact .inl (heq ▸ hfirst)
  · exact .inr ⟨_, hfirst, by omega⟩

theorem movedCursor_boundary (c : ComposingText) (cursor : Int) (hne : n ≠ 0) (hmin : minInt ≤ n) (hmax : n ≤ maxInt) :
    ∃ p ∈ cursorBoundaries c, movedCursor c cursor n = some p := by
  rcases lt_or_gt_of_ne hne with hneg | hpos
  · obtain ⟨k, hk⟩ : ∃ k : Nat, (-n).toNat = k + 1 := ⟨(-n).toNat - 1, by omega⟩
    refine ⟨_, ?_, movedCursor_neg hneg hmin⟩
    rw [hk]
    exact List.mem_reverse.mp (Stops.advance_mem (exists_boundary_before c cursor) k)
  · obtain ⟨k, hk⟩ : ∃ k : Nat, n.toNat = k + 1 := ⟨n.toNat - 1, by omega⟩
    refine ⟨_, ?_, movedCursor_pos hpos hmax⟩
    rw [hk]
    exact Stops.advance_mem (exists_boundary_after c cursor) k

theorem movedCursor_total (c : ComposingText) (cursor : Int) (hmin : minInt ≤ n) (hmax : n ≤ maxInt) :
    ∃ p, movedCursor c cursor n = some p ∧ 0 ≤ p ∧ p ≤ ComposingRuntime.inputCount c := by
  by_cases hzero : n = 0
  · exact ⟨clampedCursor c cursor, if_pos hzero, clampedCursor_bounds c cursor⟩
  · obtain ⟨p, hmem, hp⟩ := movedCursor_boundary c cursor hzero hmin hmax
    exact ⟨p, hp, cursorBoundaries_bounds hmem⟩

theorem movedCursor_ge (hpos : 0 ≤ n) (hmax : n ≤ maxInt) (h : movedCursor c cursor n = some p) :
    clampedCursor c cursor ≤ p := by
  by_cases hzero : n = 0
  · rw [movedCursor, if_pos hzero] at h
    exact le_of_eq (Option.some.inj h)
  · rw [movedCursor_pos (by omega) hmax] at h
    obtain rfl := Option.some.inj h
    rcases Stops.advance_mono (r := (· < ·)) (cursorBoundaries c) (Nat.zero_le n.toNat)
      (clampedCursor c cursor) with heq | hlt
    · exact le_of_eq heq
    · exact le_of_lt hlt

theorem movedCursor_le (hneg : n ≤ 0) (hmin : minInt ≤ n) (h : movedCursor c cursor n = some p) :
    p ≤ clampedCursor c cursor := by
  by_cases hzero : n = 0
  · rw [movedCursor, if_pos hzero] at h
    exact le_of_eq (Option.some.inj h).symm
  · rw [movedCursor_neg (by omega) hmin] at h
    obtain rfl := Option.some.inj h
    rcases Stops.advance_mono (r := (· > ·)) (cursorBoundaries c).reverse
      (Nat.zero_le (-n).toNat) (clampedCursor c cursor) with heq | hlt
    · exact le_of_eq heq.symm
    · exact le_of_lt hlt

theorem movedCursor_mono (hmin : minInt ≤ n) (hmax : m ≤ maxInt) (hle : n ≤ m)
    (hp : movedCursor c cursor n = some p) (hq : movedCursor c cursor m = some q) : p ≤ q := by
  by_cases hn : 0 < n
  · rw [movedCursor_pos hn (by omega)] at hp
    rw [movedCursor_pos (by omega) hmax] at hq
    obtain rfl := Option.some.inj hp
    obtain rfl := Option.some.inj hq
    rcases Stops.advance_mono (r := (· < ·)) (cursorBoundaries c)
      (show n.toNat ≤ m.toNat by omega) (clampedCursor c cursor) with heq | hlt
    · exact le_of_eq heq
    · exact le_of_lt hlt
  · by_cases hm : m < 0
    · rw [movedCursor_neg (by omega) hmin] at hp
      rw [movedCursor_neg hm (by omega)] at hq
      obtain rfl := Option.some.inj hp
      obtain rfl := Option.some.inj hq
      rcases Stops.advance_mono (r := (· > ·)) (cursorBoundaries c).reverse
        (show (-m).toNat ≤ (-n).toNat by omega) (clampedCursor c cursor) with heq | hlt
      · exact le_of_eq heq.symm
      · exact le_of_lt hlt
    · exact (movedCursor_le (by omega) hmin hp).trans (movedCursor_ge (by omega) hmax hq)

variable {style : InputStyle}

/-- One step after the other, in one direction. -/
def stepwise (style : InputStyle) (direction : Int) : Nat → CompositionInput → Option Int
  | 0, composition => some composition.cursor
  | n + 1, composition =>
    (inputCursorPosition style composition direction).bind fun cursor =>
      stepwise style direction n { composition with cursor := cursor }

theorem clampedCursor_of_bounds (h : 0 ≤ p ∧ p ≤ ComposingRuntime.inputCount c) :
    clampedCursor c p = p := by
  unfold clampedCursor
  omega

theorem stepwise_pos (k : Nat) (composition : CompositionInput)
    (hc : composingText style composition = c)
    (hcursor : 0 ≤ composition.cursor ∧ composition.cursor ≤ ComposingRuntime.inputCount c) :
    stepwise style 1 k composition =
      some (Stops.advance (· < ·) (cursorBoundaries c) k composition.cursor) := by
  induction k generalizing composition with
  | zero => rfl
  | succ k ih =>
    have hone : movedCursor c composition.cursor 1 = _ :=
      movedCursor_pos Int.one_pos (by unfold maxInt; omega)
    obtain ⟨p, hp, hbounds⟩ := movedCursor_total c composition.cursor (n := 1) (by unfold minInt; omega) (by unfold maxInt; omega)
    rw [clampedCursor_of_bounds hcursor, hp] at hone
    rw [stepwise, inputCursorPosition, hc, hp, Option.bind_some,
      ih { composition with cursor := p } hc hbounds, Option.some.inj hone]
    rfl

theorem stepwise_neg (k : Nat) (composition : CompositionInput)
    (hc : composingText style composition = c)
    (hcursor : 0 ≤ composition.cursor ∧ composition.cursor ≤ ComposingRuntime.inputCount c) :
    stepwise style (-1) k composition =
      some (Stops.advance (· > ·) (cursorBoundaries c).reverse k composition.cursor) := by
  induction k generalizing composition with
  | zero => rfl
  | succ k ih =>
    have hone : movedCursor c composition.cursor (-1) = _ :=
      movedCursor_neg (by omega) (by unfold minInt; omega)
    obtain ⟨p, hp, hbounds⟩ := movedCursor_total c composition.cursor (n := -1) (by unfold minInt; omega) (by unfold maxInt; omega)
    rw [clampedCursor_of_bounds hcursor, hp] at hone
    rw [stepwise, inputCursorPosition, hc, hp, Option.bind_some,
      ih { composition with cursor := p } hc hbounds, Option.some.inj hone]
    rfl

theorem inputCursorPosition_stepwise (style : InputStyle) (composition : CompositionInput)
    (hmin : minInt ≤ n) (hmax : n ≤ maxInt)
    (hc : composingText style composition = c) :
    stepwise style n.sign n.natAbs
        { composition with cursor := clampedCursor c composition.cursor } =
      inputCursorPosition style composition n := by
  rw [inputCursorPosition, hc]
  have hbounds := clampedCursor_bounds c composition.cursor
  let start := { composition with cursor := clampedCursor c composition.cursor }
  rcases lt_trichotomy n 0 with hneg | rfl | hpos
  · have habs : n.natAbs = (-n).toNat := by omega
    rw [Int.sign_eq_neg_one_of_neg hneg, stepwise_neg _ start hc hbounds,
      movedCursor_neg hneg hmin, habs]
  · rfl
  · have habs : n.natAbs = n.toNat := by omega
    rw [Int.sign_eq_one_of_pos hpos, stepwise_pos _ start hc hbounds,
      movedCursor_pos hpos hmax, habs]

/-- No offset traps. A position of the inputs is returned, the clamped cursor for no offset and
a boundary for every other; it is where single steps arrive, and it grows with the offset. The
inputs are the elements where every element is one. -/
theorem inputCursorPosition_moves (style : InputStyle) (composition : CompositionInput)
    (c : ComposingText) (hc : composingText style composition = c) :
    (∀ n, minInt ≤ n → n ≤ maxInt → ∃ p, inputCursorPosition style composition n = some p ∧
      0 ≤ p ∧ p ≤ ComposingRuntime.inputCount c ∧
      (n = 0 → p = clampedCursor c composition.cursor) ∧
      (n ≠ 0 → p ∈ cursorBoundaries c) ∧
      stepwise style n.sign n.natAbs
        { composition with cursor := clampedCursor c composition.cursor } = some p) ∧
    (∀ n m p q, minInt ≤ n → n ≤ m → m ≤ maxInt →
      inputCursorPosition style composition n = some p →
      inputCursorPosition style composition m = some q → p ≤ q) ∧
    ((∀ element ∈ composition.elements, CompositionElement.single element) →
      ComposingRuntime.inputCount c = composition.elements.length) := by
  subst hc
  refine ⟨fun n hmin hmax => ?_, fun n m p q hmin hle hmax => movedCursor_mono hmin hmax hle,
    inputCount_composingText⟩
  have hsteps := inputCursorPosition_stepwise style composition hmin hmax rfl
  by_cases hzero : n = 0
  · obtain ⟨hlow, hhigh⟩ :=
      clampedCursor_bounds (composingText style composition) composition.cursor
    have hp : inputCursorPosition style composition n =
        some (clampedCursor (composingText style composition) composition.cursor) := if_pos hzero
    exact ⟨_, hp, hlow, hhigh, fun _ => rfl, fun hne => absurd hzero hne, hsteps.trans hp⟩
  · obtain ⟨p, hmem, hp⟩ := movedCursor_boundary (composingText style composition)
      composition.cursor hzero hmin hmax
    obtain ⟨hlow, hhigh⟩ := cursorBoundaries_bounds hmem
    exact ⟨p, hp, hlow, hhigh, fun h => absurd h hzero, fun _ => hmem, hsteps.trans hp⟩

end

section

attribute [local instance] scalarText

/-- A k and an a are one kana; between them there is no boundary. -/
def kanaInputs (inputs : List Text) : List (Sigma fun _ : Int => Int) :=
  if inputs = [['k'], ['a']] then [⟨0, 0⟩, ⟨2, 1⟩]
  else (List.range (inputs.length + 1)).map fun n : Nat => ⟨n, n⟩

theorem kanaInputs_zero (inputs : List Text) {n : Int} (h : ⟨0, n⟩ ∈ kanaInputs inputs) :
    n = 0 := by
  unfold kanaInputs at h
  split at h
  · simpa using h
  · obtain ⟨i, -, hi⟩ := List.mem_map.mp h
    simp only [Sigma.mk.injEq, heq_eq_eq] at hi
    omega

@[reducible] def kanaRuntime : ComposingRuntime where
  ComposingText := List Text
  empty := []
  insertText inputs text _ := inputs ++ SwiftText.characters text
  insertKey inputs intention _ _ := inputs ++ [intention]
  inputCount := List.length
  convertTarget inputs := if inputs = [['k'], ['a']] then ['か'] else inputs.flatten
  inputIndexToSurfaceIndexMap inputs := (kanaInputs inputs).toAList
  inputCount_empty := rfl
  inputCount_insertText inputs text style := List.length_append
  inputCount_insertKey inputs intention input style := List.length_append
  convertTarget_empty inputs h := by
    rw [List.length_eq_zero_iff.mp h]
    rfl
  surface_zero inputs n h := by
    refine kanaInputs_zero inputs (List.of_mem_dlookup ?_)
    rw [← List.dlookup_dedupKeys]
    exact h

attribute [local instance] kanaRuntime

def kaComposition (cursor : Int) : CompositionInput where
  elements := [.make ['k'] 1 .mapped none none, .make ['a'] 1 .mapped none none]
  cursor := cursor
  leftContext := []

theorem moves_over_ka :
    inputCursorPosition .roman2kana (kaComposition 0) 1 = some 2 ∧
      ∃ p, inputCursorPosition .roman2kana (kaComposition 0) 1 = some p ∧
        p ∈ cursorBoundaries (composingText .roman2kana (kaComposition 0)) := by
  obtain ⟨p, hp, -, -, -, hmem, -⟩ :=
    (inputCursorPosition_moves .roman2kana (kaComposition 0) _ rfl).1 1 (by decide) (by decide)
  exact ⟨by decide +kernel, p, hp, hmem Int.one_ne_zero⟩

/-- Without an offset the cursor stays between the inputs of a kana. -/
theorem stays_within_ka :
    inputCursorPosition .roman2kana (kaComposition 1) 0 = some 1 ∧
      1 ∉ cursorBoundaries (composingText .roman2kana (kaComposition 1)) := by
  constructor <;> decide +kernel

end

end CompositionSurface

end Hazkey
