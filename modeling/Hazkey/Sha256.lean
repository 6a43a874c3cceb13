import Hazkey.BlockFold
import Mathlib.Data.Nat.Prime.Nth
import Mathlib.Data.Nat.Sqrt

/-! SHA-256 as FIPS 180-4 has it, for messages of whole bytes. -/

namespace Sha256

abbrev Word := UInt32

/-! ## Functions and constants -/

def rotr (n : Nat) (x : Word) : Word := ⟨x.toBitVec.rotateRight n⟩

def shr (n : Nat) (x : Word) : Word := ⟨x.toBitVec >>> n⟩

def ch (x y z : Word) : Word := (x &&& y) ^^^ (~~~x &&& z)

def maj (x y z : Word) : Word := (x &&& y) ^^^ (x &&& z) ^^^ (y &&& z)

def bigSigma0 (x : Word) : Word := rotr 2 x ^^^ rotr 13 x ^^^ rotr 22 x

def bigSigma1 (x : Word) : Word := rotr 6 x ^^^ rotr 11 x ^^^ rotr 25 x

def smallSigma0 (x : Word) : Word := rotr 7 x ^^^ rotr 18 x ^^^ shr 3 x

def smallSigma1 (x : Word) : Word := rotr 17 x ^^^ rotr 19 x ^^^ shr 10 x

def cubeRoot (n : Nat) : Nat := Nat.findGreatest (fun r => r ^ 3 ≤ n) n

/-- The first bits of the fractional part of the cube root of a prime. -/
noncomputable def K (t : Nat) : Word := UInt32.ofNat (cubeRoot (Nat.nth Nat.Prime t * 2 ^ 96))

/-- The first bits of the fractional part of the square root of a prime. -/
noncomputable def initialWord (i : Nat) : Word :=
  UInt32.ofNat (Nat.sqrt (Nat.nth Nat.Prime i * 2 ^ 64))

structure Registers where
  a : Word
  b : Word
  c : Word
  d : Word
  e : Word
  f : Word
  g : Word
  h : Word
  deriving DecidableEq

noncomputable def initial : Registers :=
  ⟨initialWord 0, initialWord 1, initialWord 2, initialWord 3, initialWord 4, initialWord 5,
    initialWord 6, initialWord 7⟩

/-! ## Preprocessing -/

def bigEndian (width n : Nat) : List UInt8 :=
  (List.range width).map fun i => UInt8.ofNat (n / 256 ^ (width - 1 - i))

theorem bigEndian_inj {width m n : Nat} (hm : m < 256 ^ width) (hn : n < 256 ^ width)
    (h : bigEndian width m = bigEndian width n) : m = n := by
  have hdigit : ∀ k < width, m / 256 ^ k % 256 = n / 256 ^ k % 256 := by
    intro k hk
    rw [bigEndian, bigEndian, List.map_inj_left] at h
    have hbyte := h (width - 1 - k) (List.mem_range.mpr (by omega))
    rw [Nat.sub_sub_self (by omega)] at hbyte
    rwa [← UInt8.toNat_inj, UInt8.toNat_ofNat', UInt8.toNat_ofNat'] at hbyte
  have hmod : ∀ k ≤ width, m % 256 ^ k = n % 256 ^ k := by
    intro k hk
    induction k with
    | zero => rw [Nat.pow_zero, Nat.mod_one, Nat.mod_one]
    | succ k ih => rw [Nat.mod_pow_succ, Nat.mod_pow_succ, ih (by omega), hdigit k (by omega)]
  have hwhole := hmod width (Nat.le_refl width)
  rwa [Nat.mod_eq_of_lt hm, Nat.mod_eq_of_lt hn] at hwhole

/-- How many zero bytes are behind the one bit and its seven zeros. -/
def zeros (length : Nat) : Nat := (55 + 64 - length % 64) % 64

def pad (message : List UInt8) : List UInt8 :=
  message ++ 0x80 :: List.replicate (zeros message.length) 0 ++ bigEndian 8 (8 * message.length)

/-- Of all that make the length right, the least number of zeros. -/
theorem zeros_least (length : Nat) : (length + 1 + zeros length) % 64 = 56 ∧
    ∀ k, (length + 1 + k) % 64 = 56 → zeros length ≤ k := by
  rw [zeros]
  refine ⟨by omega, fun k hk => ?_⟩
  omega

/-! ## The hash -/

def messageWord (block : List UInt8) (t : Nat) : Word :=
  UInt32.ofNat (((block.drop (4 * t)).take 4).foldl (fun value byte => value * 256 + byte.toNat) 0)

def schedule (M : Nat → Word) (t : Nat) : Word :=
  if t < 16 then M t
  else smallSigma1 (schedule M (t - 2)) + schedule M (t - 7) + smallSigma0 (schedule M (t - 15)) +
    schedule M (t - 16)
termination_by t
decreasing_by all_goals omega

def round (k w : Word) (r : Registers) : Registers :=
  let t1 := r.h + bigSigma1 r.e + ch r.e r.f r.g + k + w
  let t2 := bigSigma0 r.a + maj r.a r.b r.c
  ⟨t1 + t2, r.a, r.b, r.c, r.d + t1, r.e, r.f, r.g⟩

noncomputable def working (W : Nat → Word) : Nat → Registers → Registers
  | 0, r => r
  | t + 1, r => round (K t) (W t) (working W t r)

def Registers.add (r s : Registers) : Registers :=
  ⟨r.a + s.a, r.b + s.b, r.c + s.c, r.d + s.d, r.e + s.e, r.f + s.f, r.g + s.g, r.h + s.h⟩

noncomputable def compress (H : Registers) (block : List UInt8) : Registers :=
  (working (schedule (messageWord block)) 64 H).add H

def Registers.bytes (r : Registers) : List UInt8 :=
  [r.a, r.b, r.c, r.d, r.e, r.f, r.g, r.h].flatMap fun word => bigEndian 4 word.toNat

noncomputable def digest (message : List UInt8) : List UInt8 :=
  (BlockFold.foldBlocks 64 compress initial (pad message)).bytes

/-! ## The constants as numbers -/

theorem cubeRoot_eq {n r : Nat} (h : r ^ 3 ≤ n) (h' : n < (r + 1) ^ 3) : cubeRoot n = r := by
  have hr : r ≤ n := (Nat.le_self_pow (by decide) r).trans h
  rw [cubeRoot, Nat.findGreatest_eq_iff]
  refine ⟨hr, fun _ => h, fun m hm _ hle => ?_⟩
  have hcube : (r + 1) ^ 3 ≤ m ^ 3 := Nat.pow_le_pow_left (Nat.succ_le_of_lt hm) 3
  omega

def firstPrimes : List Nat :=
  [2, 3, 5, 7, 11, 13, 17, 19, 23, 29, 31, 37, 41, 43, 47, 53, 59, 61, 67, 71, 73, 79, 83, 89, 97,
    101, 103, 107, 109, 113, 127, 131, 137, 139, 149, 151, 157, 163, 167, 173, 179, 181, 191, 193,
    197, 199, 211, 223, 227, 229, 233, 239, 241, 251, 257, 263, 269, 271, 277, 281, 283, 293, 307,
    311]

/-- Below the square of 19, a number is prime unless one of these divides it. -/
theorem prime_iff {n : Nat} (hn : 2 ≤ n) (hlt : n < 361) :
    n.Prime ↔ ∀ d ∈ [2, 3, 5, 7, 11, 13, 17], d ∣ n → n = d := by
  constructor
  · intro hprime d hd hdvd
    have hone : ∀ d ∈ [2, 3, 5, 7, 11, 13, 17], d ≠ 1 := by decide
    exact ((hprime.eq_one_or_self_of_dvd d hdvd).resolve_left (hone d hd)).symm
  · intro h
    by_contra hcomposite
    have hsq := Nat.minFac_sq_le_self (by omega) hcomposite
    have hfac : n.minFac.Prime := Nat.minFac_prime (by omega)
    have hsmall : n.minFac < 19 := by
      by_contra hge
      have := Nat.pow_le_pow_left (Nat.le_of_not_lt hge) 2
      omega
    have hall : ∀ d < 19, d.Prime → d ∈ [2, 3, 5, 7, 11, 13, 17] := by decide
    have heq := h n.minFac (hall _ hsmall hfac) n.minFac_dvd
    exact hcomposite (heq ▸ hfac)

theorem filter_prime :
    (List.range 312).filter (fun n => decide n.Prime) = firstPrimes := by
  have hcheck : (List.range 312).filter (fun n => 2 ≤ n ∧ ∀ d ∈ [2, 3, 5, 7, 11, 13, 17], d ∣ n →
      n = d) = firstPrimes := by decide +kernel
  rw [← hcheck]
  refine List.filter_congr fun n hn => ?_
  have hn := List.mem_range.mp hn
  by_cases htwo : 2 ≤ n
  · simp only [prime_iff htwo (by omega), htwo, true_and]
  · have hnot : ¬n.Prime := fun hprime => htwo hprime.two_le
    simp [hnot, htwo]

theorem nth_prime {t p : Nat} (h : firstPrimes[t]? = some p) : Nat.nth Nat.Prime t = p := by
  have hmem := List.mem_of_getElem? h
  rw [← filter_prime, List.mem_filter, List.mem_range, decide_eq_true_eq] at hmem
  obtain ⟨hlt, hprime⟩ := hmem
  obtain ⟨k, hk⟩ : ∃ k, 312 = p + (k + 1) := ⟨311 - p, by omega⟩
  have hsplit : firstPrimes = (List.range p).filter (fun n => decide n.Prime) ++
      p :: ((List.range k).map fun i => p + (i + 1)).filter fun n => decide n.Prime := by
    rw [← filter_prime, hk, List.range_add, List.filter_append, List.range_succ_eq_map]
    simp [hprime, Function.comp_def]
  have hcount : firstPrimes[Nat.count Nat.Prime p]? = some p := by
    rw [hsplit, Nat.count, List.countP_eq_length_filter, List.getElem?_append_right (Nat.le_refl _),
      Nat.sub_self]
    rfl
  have hnodup : firstPrimes.Nodup := by decide +kernel
  have ht : t = Nat.count Nat.Prime p := by
    obtain ⟨hlt, h⟩ := List.getElem?_eq_some_iff.mp h
    obtain ⟨hlt', hcount⟩ := List.getElem?_eq_some_iff.mp hcount
    exact (hnodup.getElem_inj_iff).mp (h.trans hcount.symm)
  rw [ht]
  exact Nat.nth_count hprime

/-- A constant from the integer part of its root. -/
theorem K_eq {t p i k : Nat} (ht : firstPrimes[t]? = some p)
    (h : (i * 2 ^ 32 + k) ^ 3 ≤ p * 2 ^ 96) (h' : p * 2 ^ 96 < (i * 2 ^ 32 + k + 1) ^ 3) :
    K t = UInt32.ofNat k := by
  rw [K, nth_prime ht, cubeRoot_eq h h', ← UInt32.toNat_inj, UInt32.toNat_ofNat',
    UInt32.toNat_ofNat', Nat.mul_add_mod_self_right]

theorem initialWord_eq {t p i k : Nat} (ht : firstPrimes[t]? = some p)
    (h : (i * 2 ^ 32 + k) ^ 2 ≤ p * 2 ^ 64) (h' : p * 2 ^ 64 < (i * 2 ^ 32 + k + 1) ^ 2) :
    initialWord t = UInt32.ofNat k := by
  have hroot : i * 2 ^ 32 + k = Nat.sqrt (p * 2 ^ 64) := by
    rw [Nat.eq_sqrt']
    exact ⟨h, h'⟩
  rw [initialWord, nth_prime ht, ← hroot, ← UInt32.toNat_inj, UInt32.toNat_ofNat',
    UInt32.toNat_ofNat', Nat.mul_add_mod_self_right]

end Sha256
