import Mathlib.Data.List.Basic
import Mathlib.Data.List.Range

/-! A fold over a list in blocks of one length. What is left behind the last full
block is kept, so the list may come in any pieces. -/

namespace BlockFold

variable {α σ : Type} (n : Nat) (f : σ → List α → σ)

/-- The full blocks of a list, in order. -/
def blocks (xs : List α) : List (List α) :=
  (List.range (xs.length / n)).map fun i => (xs.drop (n * i)).take n

def foldBlocks (s : σ) (xs : List α) : σ := (blocks n xs).foldl f s

/-- What is behind the last full block. -/
def rest (xs : List α) : List α := xs.drop (n * (xs.length / n))

variable {n}

theorem blocks_append (hn : 0 < n) {xs : List α} (h : n ∣ xs.length) (ys : List α) :
    blocks n (xs ++ ys) = blocks n xs ++ blocks n ys := by
  obtain ⟨k, hk⟩ := h
  have hxs : xs.length / n = k := by rw [hk, Nat.mul_div_cancel_left k hn]
  have hlength : (xs ++ ys).length / n = k + ys.length / n := by
    rw [List.length_append, hk, Nat.mul_add_div hn]
  rw [blocks, blocks, blocks, hxs, hlength, List.range_add, List.map_append, List.map_map]
  congr 1
  · refine List.map_congr_left fun i hi => ?_
    have hi : i < k := List.mem_range.mp hi
    have hle : n * i + n ≤ xs.length := by
      rw [hk, ← Nat.mul_succ]
      exact Nat.mul_le_mul_left n hi
    rw [List.drop_append_of_le_length (by omega), List.take_append_of_le_length]
    rw [List.length_drop]
    omega
  · refine List.map_congr_left fun i _ => ?_
    rw [Function.comp_apply, Nat.mul_add, ← hk, List.drop_append, List.drop_eq_nil_of_le (by omega),
      List.nil_append, Nat.add_sub_cancel_left]

theorem foldBlocks_append (hn : 0 < n) {xs : List α} (h : n ∣ xs.length) (s : σ) (ys : List α) :
    foldBlocks n f s (xs ++ ys) = foldBlocks n f (foldBlocks n f s xs) ys := by
  rw [foldBlocks, blocks_append hn h, List.foldl_append]
  rfl

theorem exists_rest (n : Nat) (xs : List α) :
    ∃ ys, xs = ys ++ rest n xs ∧ ys.length = n * (xs.length / n) := by
  refine ⟨xs.take (n * (xs.length / n)), (List.take_append_drop _ xs).symm, ?_⟩
  rw [List.length_take, Nat.min_eq_left (Nat.mul_div_le xs.length n)]

theorem length_rest (n : Nat) (xs : List α) : (rest n xs).length = xs.length % n := by
  rw [rest, List.length_drop]
  have := Nat.div_add_mod xs.length n
  omega

theorem blocks_short {xs : List α} (h : xs.length < n) : blocks n xs = [] := by
  rw [blocks, Nat.div_eq_of_lt h, List.range_zero, List.map_nil]

/-- The pieces may be taken one after the other. -/
theorem foldBlocks_rest (hn : 0 < n) (s : σ) (xs ys : List α) :
    foldBlocks n f s (xs ++ ys) = foldBlocks n f (foldBlocks n f s xs) (rest n xs ++ ys) := by
  obtain ⟨zs, hxs, hlength⟩ := exists_rest n xs
  have hdvd : n ∣ zs.length := ⟨_, hlength⟩
  have hshort : blocks n (rest n xs) = [] := by
    apply blocks_short
    rw [length_rest]
    exact Nat.mod_lt _ hn
  have hwhole : foldBlocks n f s xs = foldBlocks n f s zs := by
    conv_lhs => rw [hxs]
    rw [foldBlocks_append f hn hdvd, foldBlocks, hshort, List.foldl_nil]
  rw [hwhole, ← foldBlocks_append f hn hdvd, ← List.append_assoc, ← hxs]

theorem rest_append (hn : 0 < n) (xs ys : List α) :
    rest n (xs ++ ys) = rest n (rest n xs ++ ys) := by
  obtain ⟨zs, hxs, hlength⟩ := exists_rest n xs
  have hsum : (xs ++ ys).length = n * (xs.length / n) + (rest n xs ++ ys).length := by
    conv_lhs => rw [hxs, List.append_assoc, List.length_append, hlength]
  have hcut : n * ((xs ++ ys).length / n) =
      zs.length + n * ((rest n xs ++ ys).length / n) := by
    rw [hsum, Nat.mul_add_div hn, Nat.mul_add, hlength]
  have hdrop : (xs ++ ys).drop zs.length = rest n xs ++ ys := by
    conv_lhs => rw [hxs, List.append_assoc, List.drop_left]
  rw [rest, hcut, ← List.drop_drop, hdrop]
  rfl

theorem mem_blocks {xs block : List α} (h : block ∈ blocks n xs) :
    ∃ i, n * i + n ≤ xs.length ∧ block = (xs.drop (n * i)).take n := by
  obtain ⟨i, hi, rfl⟩ := List.mem_map.mp h
  refine ⟨i, ?_, rfl⟩
  rw [← Nat.mul_succ]
  exact (Nat.mul_le_mul_left n (List.mem_range.mp hi)).trans (Nat.mul_div_le xs.length n)

end BlockFold
