import Mathlib.Data.List.Induction
import Mathlib.Tactic.Ring

/-! Decimal numerals of a fixed width, as bytes. -/

namespace Numerals

def IsDigit (b : UInt8) : Prop := 0x30 ≤ b.toNat ∧ b.toNat ≤ 0x39

/-- The last digit of a number. -/
def digit (n : Nat) : UInt8 := UInt8.ofNat (0x30 + n % 10)

def fixed : Nat → Nat → List UInt8
  | 0, _ => []
  | width + 1, n => fixed width (n / 10) ++ [digit n]

def valueFrom (r : Nat) (l : List UInt8) : Nat := l.foldl (fun r b => r * 10 + (b.toNat - 0x30)) r

def value (l : List UInt8) : Nat := valueFrom 0 l

theorem toNat_digit (n : Nat) : (digit n).toNat = 0x30 + n % 10 := by
  simp only [digit, UInt8.toNat_ofNat']
  omega

theorem isDigit_digit (n : Nat) : IsDigit (digit n) := by
  unfold IsDigit
  rw [toNat_digit]
  omega

@[simp] theorem length_fixed (width n : Nat) : (fixed width n).length = width := by
  induction width generalizing n with
  | zero => rfl
  | succ width ih => simp [fixed, ih]

theorem isDigit_of_mem_fixed (width n : Nat) {b : UInt8} (h : b ∈ fixed width n) :
    IsDigit b := by
  induction width generalizing n with
  | zero => exact absurd h (List.not_mem_nil)
  | succ width ih =>
    rcases List.mem_append.mp h with h | h
    · exact ih (n / 10) h
    · obtain rfl := List.mem_singleton.mp h
      exact isDigit_digit n

theorem value_concat (l : List UInt8) (b : UInt8) :
    value (l ++ [b]) = value l * 10 + (b.toNat - 0x30) := by
  simp [value, valueFrom]

theorem value_fixed (width n : Nat) : value (fixed width n) = n % 10 ^ width := by
  induction width generalizing n with
  | zero => simp [fixed, value, valueFrom, Nat.mod_one]
  | succ width ih =>
    have hdigit : (digit n).toNat - 0x30 = n % 10 := by
      rw [toNat_digit]
      omega
    have hpow : 10 ^ (width + 1) = 10 * 10 ^ width := by ring
    rw [fixed, value_concat, ih, hdigit, hpow, Nat.mod_mul]
    ring

theorem value_fixed_of_lt {width n : Nat} (h : n < 10 ^ width) : value (fixed width n) = n := by
  rw [value_fixed, Nat.mod_eq_of_lt h]

theorem digit_of_isDigit {b : UInt8} (h : IsDigit b) (n : Nat) :
    digit (n * 10 + (b.toNat - 0x30)) = b := by
  apply UInt8.toNat_inj.mp
  obtain ⟨hlow, hhigh⟩ := h
  rw [toNat_digit]
  omega

/-- Digits are the numeral of their value. -/
theorem fixed_value {l : List UInt8} (h : ∀ b ∈ l, IsDigit b) : fixed l.length (value l) = l := by
  induction l using List.reverseRecOn with
  | nil => rfl
  | append_singleton l b ih =>
    have hb := h b (by simp)
    have hl := ih fun c hc => h c (by simp [hc])
    have hdiv : (value l * 10 + (b.toNat - 0x30)) / 10 = value l := by
      obtain ⟨hlow, hhigh⟩ := hb
      omega
    rw [value_concat, List.length_append, List.length_singleton, fixed, hdiv, hl,
      digit_of_isDigit hb]

theorem value_lt {l : List UInt8} (h : ∀ b ∈ l, IsDigit b) : value l < 10 ^ l.length := by
  rw [← fixed_value h, value_fixed, length_fixed]
  exact Nat.mod_lt _ (Nat.pow_pos (by decide))

end Numerals
