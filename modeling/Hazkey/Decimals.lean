import Hazkey.DecimalRounding
import Mathlib.Data.Rat.Floor
import Mathlib.Tactic.Ring

/-! Finite decimals as the evaluation tools multiply them: the product of the
coefficients, rounded in the default context. -/

namespace Hazkey

open DecimalRounding

structure Decimal where
  negative : Bool
  coefficient : ℕ
  exponent : ℤ
  deriving DecidableEq

namespace Decimal

def magnitude (d : Decimal) : ℚ := d.coefficient * 10 ^ d.exponent

/-- The number that is compared. -/
def value (d : Decimal) : ℚ := if d.negative then -d.magnitude else d.magnitude

def ofInt (n : ℤ) : Decimal := ⟨n < 0, n.natAbs, 0⟩

/-! The default context: 28 digits and exponents up to 999999, halves to even. -/

def prec : ℕ := 28

def emax : ℤ := 999999

def etiny : ℤ := -1000026

def etop : ℤ := 999972

/-- A rounded coefficient may have got a digit more. -/
def finish (negative : Bool) (coefficient : ℕ) (exponent : ℤ) : Option Decimal :=
  if 10 ^ prec ≤ coefficient then
    if etop < exponent + 1 then none else some ⟨negative, coefficient / 10, exponent + 1⟩
  else if etop < exponent then none
  else some ⟨negative, coefficient, exponent⟩

def shorten (d : Decimal) (expMin : ℤ) : Option Decimal :=
  if d.exponent < expMin then
    finish d.negative (halfEven ((d.coefficient : ℚ) / 10 ^ (expMin - d.exponent).toNat)).toNat expMin
  else some d

/-- The result in the context. An overflow is trapped, and is none. -/
def fix (d : Decimal) : Option Decimal :=
  if d.coefficient = 0 then some { d with exponent := min (max d.exponent etiny) emax }
  else if etop < Nat.log 10 d.coefficient + 1 + d.exponent - prec then none
  else shorten d (max (Nat.log 10 d.coefficient + 1 + d.exponent - prec) etiny)

def multiply (a b : Decimal) : Option Decimal :=
  fix ⟨a.negative != b.negative, a.coefficient * b.coefficient, a.exponent + b.exponent⟩

/-! ## What the context keeps -/

/-- The number that is nearest to a product. -/
def rounded (x : ℚ) : ℚ := roundTo 10 prec etiny x

theorem rounded_mono {x y : ℚ} (h : x ≤ y) : rounded x ≤ rounded y :=
  roundTo_mono (by decide) (by decide) h

theorem rounded_neg (x : ℚ) : rounded (-x) = -rounded x := roundTo_neg x

theorem tenPow_pos (k : ℤ) : (0 : ℚ) < 10 ^ k := zpow_pos (by norm_num) k

theorem magnitude_nonneg (d : Decimal) : 0 ≤ d.magnitude :=
  mul_nonneg (Nat.cast_nonneg _) (tenPow_pos d.exponent).le

/-- The bound from which on the context overflows. -/
def limit : ℚ := 10 ^ (emax + 1)

/-- A result and the magnitude that it was rounded from. -/
def Rounds (negative : Bool) (x : ℚ) (result : Option Decimal) : Prop :=
  (result = none ↔ limit ≤ x) ∧ ∀ r, result = some r → r.negative = negative ∧ r.magnitude = x

theorem finish_rounds (negative : Bool) {coefficient : ℕ} {exponent : ℤ}
    (hcoefficient : coefficient ≤ 10 ^ prec) (hexponent : exponent ≤ etop) :
    Rounds negative (coefficient * 10 ^ exponent) (finish negative coefficient exponent) := by
  have hten : (10 : ℚ) ≠ 0 := by norm_num
  rw [finish]
  by_cases hfull : 10 ^ prec ≤ coefficient
  · obtain rfl : coefficient = 10 ^ prec := le_antisymm hcoefficient hfull
    have hpower : ((10 ^ prec : ℕ) : ℚ) * 10 ^ exponent = 10 ^ (exponent + prec) := by
      rw [zpow_add₀ hten, zpow_natCast]
      push_cast
      ring
    rw [if_pos hfull, hpower]
    have hlimit : limit ≤ 10 ^ (exponent + prec) ↔ etop < exponent + 1 := by
      rw [limit, zpow_le_zpow_iff_right₀ (by norm_num), emax, etop, prec]
      omega
    by_cases htop : etop < exponent + 1
    · rw [if_pos htop]
      exact ⟨by simp [hlimit, htop], by simp⟩
    · rw [if_neg htop]
      refine ⟨by simp [hlimit, htop], ?_⟩
      rintro r ⟨⟩
      refine ⟨rfl, ?_⟩
      have hdiv : 10 ^ prec / 10 = 10 ^ (prec - 1) := by decide
      simp only [magnitude, hdiv]
      rw [zpow_add₀ hten, zpow_add₀ hten, zpow_natCast, prec]
      push_cast
      ring
  · have hsmall : ¬limit ≤ (coefficient : ℚ) * 10 ^ exponent := by
      rw [not_le]
      calc (coefficient : ℚ) * 10 ^ exponent < 10 ^ prec * 10 ^ exponent := by
            refine mul_lt_mul_of_pos_right ?_ (tenPow_pos exponent)
            exact_mod_cast Nat.lt_of_not_le hfull
        _ = 10 ^ (exponent + prec) := by
            rw [zpow_add₀ hten, zpow_natCast, mul_comm]
        _ ≤ limit := by
            rw [limit, zpow_le_zpow_iff_right₀ (by norm_num), emax, prec]
            rw [etop] at hexponent
            omega
    rw [if_neg hfull, if_neg hexponent.not_gt]
    refine ⟨by simp [hsmall], ?_⟩
    rintro r ⟨⟩
    exact ⟨rfl, rfl⟩

/-- The coefficient that is left of a magnitude with too many digits. -/
theorem shortened_rounds {d : Decimal} (hexponent : d.exponent < quantum 10 prec etiny d.magnitude)
    (htop : quantum 10 prec etiny d.magnitude ≤ etop)
    (hbound : d.magnitude ≤ 10 ^ (quantum 10 prec etiny d.magnitude + prec)) :
    Rounds d.negative (roundPos 10 prec etiny d.magnitude)
      (finish d.negative (halfEven ((d.coefficient : ℚ) /
        10 ^ (quantum 10 prec etiny d.magnitude - d.exponent).toNat)).toNat
        (quantum 10 prec etiny d.magnitude)) := by
  set q := quantum 10 prec etiny d.magnitude with hq
  have hten : (10 : ℚ) ≠ 0 := by norm_num
  have hquotient : (d.coefficient : ℚ) / 10 ^ (q - d.exponent).toNat = d.magnitude / 10 ^ q := by
    have hsplit : q = (q - d.exponent).toNat + d.exponent := by omega
    have hpow : (10 : ℚ) ^ q = 10 ^ (q - d.exponent).toNat * 10 ^ d.exponent := by
      conv_lhs => rw [hsplit, zpow_add₀ hten, zpow_natCast]
    rw [magnitude, hpow, mul_div_mul_right _ _ (tenPow_pos d.exponent).ne']
  have hnonneg : 0 ≤ halfEven (d.magnitude / 10 ^ q) := by
    have := halfEven_mono (div_nonneg d.magnitude_nonneg (tenPow_pos q).le)
    rwa [show (0 : ℚ) = ((0 : ℤ) : ℚ) by simp, halfEven_intCast] at this
  have hle : halfEven (d.magnitude / 10 ^ q) ≤ 10 ^ prec := by
    have hdiv : d.magnitude / 10 ^ q ≤ ((10 ^ prec : ℤ) : ℚ) := by
      rw [div_le_iff₀ (tenPow_pos q)]
      refine hbound.trans_eq ?_
      rw [zpow_add₀ hten, zpow_natCast, mul_comm]
      push_cast
      rfl
    have := halfEven_mono hdiv
    rwa [halfEven_intCast] at this
  have hcast : ((halfEven (d.magnitude / 10 ^ q)).toNat : ℚ) = halfEven (d.magnitude / 10 ^ q) := by
    exact_mod_cast Int.toNat_of_nonneg hnonneg
  have hround : roundPos 10 prec etiny d.magnitude =
      ((halfEven (d.magnitude / 10 ^ q)).toNat : ℚ) * 10 ^ q := by
    rw [roundPos, ← hq, hcast]
    norm_num
  rw [hquotient, hround]
  refine finish_rounds d.negative ?_ htop
  rw [Int.toNat_le]
  exact_mod_cast hle

theorem fix_rounds (d : Decimal) :
    Rounds d.negative (roundPos 10 prec etiny d.magnitude) (fix d) := by
  have hten : (10 : ℚ) ≠ 0 := by norm_num
  have hbase : ∀ k : ℤ, ((10 : ℕ) : ℚ) ^ k = 10 ^ k := fun k => by norm_num
  rw [fix]
  by_cases hzero : d.coefficient = 0
  · have hmagnitude : d.magnitude = 0 := by simp [magnitude, hzero]
    rw [if_pos hzero, hmagnitude, roundPos_zero]
    have hlimit : ¬limit ≤ 0 := not_le.mpr (tenPow_pos (emax + 1))
    refine ⟨by simp [hlimit], ?_⟩
    rintro r ⟨⟩
    exact ⟨rfl, by simp [magnitude, hzero]⟩
  · have hlog : Int.log 10 d.magnitude = Nat.log 10 d.coefficient + d.exponent := by
      have := log_mul_zpow (K := ℚ) (b := 10) (by decide) hzero d.exponent
      rwa [hbase] at this
    have hquantum : quantum 10 prec etiny d.magnitude =
        max (Nat.log 10 d.coefficient + 1 + d.exponent - prec) etiny := by
      rw [quantum, hlog, add_right_comm]
    have hpos : 0 < d.magnitude :=
      mul_pos (Nat.cast_pos.mpr (Nat.pos_of_ne_zero hzero)) (tenPow_pos d.exponent)
    have hbelow : d.magnitude < 10 ^ (Nat.log 10 d.coefficient + d.exponent + 1 : ℤ) := by
      have := Int.lt_zpow_succ_log_self (b := 10) (by decide) d.magnitude
      rwa [hlog, hbase] at this
    rw [if_neg hzero]
    by_cases hover : etop < Nat.log 10 d.coefficient + 1 + d.exponent - prec
    · have habove : (10 : ℚ) ^ (Nat.log 10 d.coefficient + d.exponent : ℤ) ≤ d.magnitude := by
        have := Int.zpow_log_le_self (b := 10) (by decide) hpos
        rwa [hlog, hbase] at this
      have hquantumLe : quantum 10 prec etiny d.magnitude ≤
          Nat.log 10 d.coefficient + d.exponent := by
        rw [hquantum]
        simp only [prec, etiny, etop] at hover ⊢
        omega
      have hround := zpow_le_roundPos (b := 10) (by decide) (by rwa [hbase]) hquantumLe
      rw [hbase] at hround
      have hlimit : limit ≤ roundPos 10 prec etiny d.magnitude := by
        refine le_trans ?_ hround
        rw [limit, zpow_le_zpow_iff_right₀ (by norm_num)]
        simp only [prec, emax, etop] at hover ⊢
        omega
      rw [if_pos hover]
      exact ⟨by simp [hlimit], by simp⟩
    · have htop : quantum 10 prec etiny d.magnitude ≤ etop := by
        rw [hquantum, max_le_iff]
        exact ⟨not_lt.mp hover, by decide⟩
      have hdigits : Nat.log 10 d.coefficient + d.exponent + 1 ≤
          quantum 10 prec etiny d.magnitude + prec := by
        rw [hquantum]
        omega
      have hbound : d.magnitude ≤ 10 ^ (quantum 10 prec etiny d.magnitude + prec) := by
        refine hbelow.le.trans ?_
        rw [zpow_le_zpow_iff_right₀ (by norm_num)]
        exact hdigits
      rw [if_neg hover, ← hquantum, shorten]
      by_cases hexponent : d.exponent < quantum 10 prec etiny d.magnitude
      · rw [if_pos hexponent]
        exact shortened_rounds hexponent htop hbound
      · rw [if_neg hexponent]
        have hkept : roundPos 10 prec etiny d.magnitude = d.magnitude := by
          have hsmallest : quantum 10 prec etiny (((d.coefficient : ℤ) : ℚ) *
              ((10 : ℕ) : ℚ) ^ d.exponent) ≤ d.exponent := by
            rw [hbase, Int.cast_natCast]
            exact not_lt.mp hexponent
          have hself := roundPos_eq_self (by decide) hsmallest
          rwa [hbase, Int.cast_natCast] at hself
        have hsmall : ¬limit ≤ d.magnitude := by
          rw [not_le]
          refine hbelow.trans_le ?_
          rw [limit, zpow_le_zpow_iff_right₀ (by norm_num)]
          simp only [prec, emax, etop] at hover ⊢
          omega
        rw [hkept]
        refine ⟨by simp [hsmall], ?_⟩
        rintro r ⟨⟩
        exact ⟨rfl, rfl⟩

theorem rounded_magnitude (d : Decimal) :
    rounded d.magnitude = roundPos 10 prec etiny d.magnitude := roundTo_of_nonneg d.magnitude_nonneg

theorem fix_value {d r : Decimal} (h : fix d = some r) : r.value = rounded d.value := by
  obtain ⟨hsign, hmagnitude⟩ := (fix_rounds d).2 r h
  rw [value, value, hsign, hmagnitude, ← rounded_magnitude]
  cases d.negative
  · rfl
  · exact (rounded_neg d.magnitude).symm

theorem fix_eq_none {d : Decimal} : fix d = none ↔ limit ≤ |rounded d.value| := by
  have hnonneg : 0 ≤ rounded d.magnitude := roundTo_nonneg (by decide) d.magnitude_nonneg
  have habs : |rounded d.value| = rounded d.magnitude := by
    rw [value]
    cases d.negative
    · exact abs_of_nonneg hnonneg
    · rw [if_pos rfl, rounded_neg, abs_neg, abs_of_nonneg hnonneg]
  rw [(fix_rounds d).1, habs, rounded_magnitude]

theorem product_value (a b : Decimal) :
    (⟨a.negative != b.negative, a.coefficient * b.coefficient, a.exponent + b.exponent⟩ :
      Decimal).value = a.value * b.value := by
  have hmagnitude : (⟨a.negative != b.negative, a.coefficient * b.coefficient,
      a.exponent + b.exponent⟩ : Decimal).magnitude = a.magnitude * b.magnitude := by
    simp only [magnitude]
    rw [zpow_add₀ (by norm_num)]
    push_cast
    ring
  rw [value, value, value, hmagnitude]
  cases a.negative <;> cases b.negative <;> simp

/-- A product is the exact one, rounded once. -/
theorem multiply_value {a b r : Decimal} (h : multiply a b = some r) :
    r.value = rounded (a.value * b.value) := by
  rw [← product_value]
  exact fix_value h

theorem multiply_eq_none {a b : Decimal} :
    multiply a b = none ↔ limit ≤ |rounded (a.value * b.value)| := by
  rw [← product_value]
  exact fix_eq_none

theorem ofInt_value (n : ℤ) : (ofInt n).value = n := by
  rw [value, ofInt, magnitude]
  by_cases hn : n < 0
  · rw [if_pos (decide_eq_true hn), zpow_zero, mul_one, Nat.cast_natAbs, abs_of_neg hn]
    push_cast
    ring
  · rw [if_neg (by simpa using hn), zpow_zero, mul_one, Nat.cast_natAbs,
      abs_of_nonneg (not_lt.mp hn)]

end Decimal

end Hazkey
