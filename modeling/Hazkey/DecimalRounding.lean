import Mathlib.Algebra.Order.Floor.Ring
import Mathlib.Data.Int.Log

/-! Rounding to so many significant digits, halves to even, with a least exponent.
It keeps the order of numbers. -/

namespace DecimalRounding

section

variable {K : Type*} [Field K] [LinearOrder K] [IsStrictOrderedRing K] [FloorRing K]

/-- The nearest integer, and of two the even one. -/
def halfEven (x : K) : ℤ :=
  if Int.fract x < 1 / 2 then ⌊x⌋
  else if 1 / 2 < Int.fract x then ⌊x⌋ + 1
  else if ⌊x⌋ % 2 = 0 then ⌊x⌋
  else ⌊x⌋ + 1

omit [IsStrictOrderedRing K] in
theorem halfEven_bounds (x : K) : ⌊x⌋ ≤ halfEven x ∧ halfEven x ≤ ⌊x⌋ + 1 := by
  rw [halfEven]
  split_ifs <;> omega

theorem halfEven_intCast (n : ℤ) : halfEven (n : K) = n := by
  simp [halfEven]

theorem halfEven_mono {x y : K} (h : x ≤ y) : halfEven x ≤ halfEven y := by
  have hfloor : ⌊x⌋ ≤ ⌊y⌋ := Int.floor_mono h
  by_cases heq : ⌊x⌋ = ⌊y⌋
  · have hfract : Int.fract x ≤ Int.fract y := by
      rw [Int.fract, Int.fract, heq]
      linarith
    rw [halfEven, halfEven, heq]
    split_ifs <;> first | omega | (exfalso; linarith)
  · have hx := (halfEven_bounds x).2
    have hy := (halfEven_bounds y).1
    omega

variable (b : ℕ) (precision least : ℤ)

/-- The exponent of the last digit that is kept. -/
def quantum (x : K) : ℤ := max (Int.log b x + 1 - precision) least

def roundPos (x : K) : K :=
  halfEven (x / (b : K) ^ quantum b precision least x) * (b : K) ^ quantum b precision least x

/-- Numbers below zero are rounded as their magnitudes are. -/
def roundTo (x : K) : K :=
  if x < 0 then -roundPos b precision least (-x) else roundPos b precision least x

variable {b} {precision least}

omit [FloorRing K] in
theorem zpow_div {k q : ℤ} (hb : 1 < b) (h : q ≤ k) :
    (b : K) ^ k / (b : K) ^ q = ((b ^ (k - q).toNat : ℕ) : ℤ) := by
  have hne : (b : K) ≠ 0 := Nat.cast_ne_zero.mpr (by omega)
  have hk : k = (k - q).toNat + q := by omega
  conv_lhs => rw [hk, zpow_add₀ hne, zpow_natCast]
  rw [mul_div_assoc, div_self (zpow_ne_zero q hne), mul_one]
  push_cast
  rfl

omit [FloorRing K] in
theorem zpow_base_pos (hb : 1 < b) (k : ℤ) : (0 : K) < (b : K) ^ k :=
  zpow_pos (Nat.cast_pos.mpr (by omega)) k

theorem roundPos_le_zpow (hb : 1 < b) {x : K} {k : ℤ} (hx : x ≤ (b : K) ^ k)
    (hk : quantum b precision least x ≤ k) : roundPos b precision least x ≤ (b : K) ^ k := by
  have hpos := zpow_base_pos (K := K) hb (quantum b precision least x)
  have hmono := halfEven_mono (div_le_div_of_nonneg_right hx hpos.le)
  rw [zpow_div hb hk, halfEven_intCast] at hmono
  rw [roundPos, ← le_div_iff₀ hpos, zpow_div hb hk]
  exact_mod_cast hmono

theorem zpow_le_roundPos (hb : 1 < b) {y : K} {k : ℤ} (hy : (b : K) ^ k ≤ y)
    (hk : quantum b precision least y ≤ k) : (b : K) ^ k ≤ roundPos b precision least y := by
  have hpos := zpow_base_pos (K := K) hb (quantum b precision least y)
  have hmono := halfEven_mono (div_le_div_of_nonneg_right hy hpos.le)
  rw [zpow_div hb hk, halfEven_intCast] at hmono
  rw [roundPos, ← div_le_iff₀ hpos, zpow_div hb hk]
  exact_mod_cast hmono

omit [IsStrictOrderedRing K] in
theorem log_lt_of_quantum_lt (hp : 0 < precision) {x y : K}
    (h : quantum b precision least x < quantum b precision least y) :
    quantum b precision least y ≤ Int.log b y ∧ Int.log b x < Int.log b y ∧
      quantum b precision least x ≤ Int.log b y := by
  simp only [quantum] at h ⊢
  omega

theorem roundPos_mono (hb : 1 < b) (hp : 0 < precision) {x y : K} (hx : 0 < x) (h : x ≤ y) :
    roundPos b precision least x ≤ roundPos b precision least y := by
  have hlog : Int.log b x ≤ Int.log b y := Int.log_mono_right hx h
  rcases lt_or_ge (quantum b precision least x) (quantum b precision least y) with hlt | hge
  · -- A power of the base lies between the two, and is kept by both roundings.
    obtain ⟨hqy, hxy, hqx⟩ := log_lt_of_quantum_lt hp hlt
    have hbelow : x ≤ (b : K) ^ Int.log b y := ((Int.lt_zpow_iff_log_lt hb hx).mpr hxy).le
    exact (roundPos_le_zpow hb hbelow hqx).trans
      (zpow_le_roundPos hb (Int.zpow_log_le_self hb (hx.trans_le h)) hqy)
  · have heq : quantum b precision least x = quantum b precision least y := by
      apply le_antisymm _ hge
      simp only [quantum]
      omega
    have hpos := zpow_base_pos (K := K) hb (quantum b precision least y)
    rw [roundPos, roundPos, heq]
    refine mul_le_mul_of_nonneg_right ?_ hpos.le
    exact_mod_cast halfEven_mono (div_le_div_of_nonneg_right h hpos.le)

theorem roundPos_zero : roundPos b precision least (0 : K) = 0 := by
  simp [roundPos, halfEven]

theorem roundPos_nonneg (hb : 1 < b) {x : K} (hx : 0 ≤ x) : 0 ≤ roundPos b precision least x := by
  have hpos := zpow_base_pos (K := K) hb (quantum b precision least x)
  have hnonneg := halfEven_mono (div_nonneg hx hpos.le)
  rw [show (0 : K) = ((0 : ℤ) : K) by simp, halfEven_intCast] at hnonneg
  exact mul_nonneg (by exact_mod_cast hnonneg) hpos.le

omit [IsStrictOrderedRing K] in
theorem roundTo_of_nonneg {x : K} (hx : 0 ≤ x) :
    roundTo b precision least x = roundPos b precision least x := if_neg hx.not_gt

theorem roundTo_neg (x : K) : roundTo b precision least (-x) = -roundTo b precision least x := by
  rcases lt_trichotomy x 0 with hx | rfl | hx
  · rw [roundTo, roundTo, if_pos hx, if_neg (by linarith), neg_neg]
  · simp [roundTo, roundPos_zero]
  · rw [roundTo, roundTo, if_neg hx.not_gt, if_pos (by linarith), neg_neg]

theorem roundTo_nonneg (hb : 1 < b) {x : K} (hx : 0 ≤ x) : 0 ≤ roundTo b precision least x := by
  rw [roundTo_of_nonneg hx]
  exact roundPos_nonneg hb hx

/-- Rounding keeps the order. -/
theorem roundTo_mono (hb : 1 < b) (hp : 0 < precision) {x y : K} (h : x ≤ y) :
    roundTo b precision least x ≤ roundTo b precision least y := by
  have hmono : ∀ {u v : K}, 0 ≤ u → u ≤ v →
      roundTo b precision least u ≤ roundTo b precision least v := by
    intro u v hu huv
    rw [roundTo_of_nonneg hu, roundTo_of_nonneg (hu.trans huv)]
    rcases hu.eq_or_lt with rfl | hpos
    · rw [roundPos_zero]
      exact roundPos_nonneg hb huv
    · exact roundPos_mono hb hp hpos huv
  rcases le_or_gt 0 x with hx | hx
  · exact hmono hx h
  · rcases le_or_gt 0 y with hy | hy
    · have hneg : 0 ≤ roundTo b precision least (-x) := roundTo_nonneg hb (neg_nonneg.mpr hx.le)
      rw [roundTo_neg] at hneg
      exact (neg_nonneg.mp hneg).trans (roundTo_nonneg hb hy)
    · have hneg := hmono (neg_nonneg.mpr hy.le) (neg_le_neg h)
      rwa [roundTo_neg, roundTo_neg, neg_le_neg_iff] at hneg

/-- What ends before the last digit that is kept is kept. -/
theorem roundPos_eq_self (hb : 1 < b) {n : ℤ} {k : ℤ}
    (hk : quantum b precision least ((n : K) * (b : K) ^ k) ≤ k) :
    roundPos b precision least ((n : K) * (b : K) ^ k) = (n : K) * (b : K) ^ k := by
  have hpos := zpow_base_pos (K := K) hb (quantum b precision least ((n : K) * (b : K) ^ k))
  have hint : (n : K) * (b : K) ^ k /
      (b : K) ^ quantum b precision least ((n : K) * (b : K) ^ k) =
        ((n * (b ^ (k - quantum b precision least ((n : K) * (b : K) ^ k)).toNat : ℕ) : ℤ) : K) := by
    rw [mul_div_assoc, zpow_div hb hk]
    push_cast
    rfl
  rw [roundPos, hint, halfEven_intCast, ← hint, div_mul_cancel₀ _ hpos.ne']

/-- The logarithm of a number from its digits. -/
theorem log_mul_zpow (hb : 1 < b) {n : ℕ} (hn : n ≠ 0) (k : ℤ) :
    Int.log b ((n : K) * (b : K) ^ k) = Nat.log b n + k := by
  have hne : (b : K) ≠ 0 := Nat.cast_ne_zero.mpr (by omega)
  have hpos : (0 : K) < (n : K) * (b : K) ^ k :=
    mul_pos (Nat.cast_pos.mpr (Nat.pos_of_ne_zero hn)) (zpow_base_pos hb k)
  apply le_antisymm
  · rw [← Int.lt_add_one_iff, ← Int.lt_zpow_iff_log_lt hb hpos, add_right_comm, zpow_add₀ hne]
    refine mul_lt_mul_of_pos_right ?_ (zpow_base_pos hb k)
    exact_mod_cast Nat.lt_pow_succ_log_self hb n
  · rw [← Int.zpow_le_iff_le_log hb hpos, zpow_add₀ hne]
    refine mul_le_mul_of_nonneg_right ?_ (zpow_base_pos hb k).le
    exact_mod_cast Nat.pow_log_le_self b hn

end

end DecimalRounding
