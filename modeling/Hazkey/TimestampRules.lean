import Hazkey.Numerals
import Hazkey.Timestamps
import Mathlib.Data.List.TakeWhile
import Mathlib.Tactic.IntervalCases

/-! The timestamps that are accepted are those that write a date-time. -/

namespace Hazkey

open Numerals

/-! Date-times, and how they are written. -/

inductive Zone
  | utc
  | offset (behind : Bool) (hours : Fin 24) (minutes : Fin 60)

def Zone.bytes : Zone → Data
  | .utc => [0x5A]
  | .offset behind hours minutes =>
    (if behind then 0x2D else 0x2B) :: (fixed 2 hours ++ 0x3A :: fixed 2 minutes)

def LeapYear (year : Nat) : Prop := 4 ∣ year ∧ (100 ∣ year → 400 ∣ year)

instance (year : Nat) : Decidable (LeapYear year) :=
  inferInstanceAs (Decidable (4 ∣ year ∧ (100 ∣ year → 400 ∣ year)))

def monthLengths (february : Nat) : List Nat := [31, february, 31, 30, 31, 30, 31, 31, 30, 31, 30, 31]

/-- The days of the month of a date. -/
def MonthHasDay (year month day : Nat) : Prop :=
  1 ≤ month ∧ ∃ february length, (LeapYear year → february = 29) ∧
    (¬LeapYear year → february = 28) ∧ (monthLengths february)[month - 1]? = some length ∧
    1 ≤ day ∧ day ≤ length

/-- The digits of a fraction of a second, if there is one. -/
structure Fraction where
  digits : Option Data
  valid : ∀ ds ∈ digits, (∀ b ∈ ds, IsDigit b) ∧ 1 ≤ ds.length ∧ ds.length ≤ 9

def Fraction.bytes (fraction : Fraction) : Data := fraction.digits.elim [] (0x2E :: ·)

structure DateTime where
  year : Nat
  month : Nat
  day : Nat
  hour : Nat
  minute : Nat
  second : Nat
  fraction : Fraction
  zone : Zone
  year_lt : year < 10000
  day_valid : MonthHasDay year month day
  hour_lt : hour < 24
  minute_lt : minute < 60
  second_lt : second < 60

def DateTime.bytes (t : DateTime) : Data :=
  fixed 4 t.year ++ 0x2D :: (fixed 2 t.month ++ 0x2D :: (fixed 2 t.day ++ 0x54 ::
    (fixed 2 t.hour ++ 0x3A :: (fixed 2 t.minute ++ 0x3A :: (fixed 2 t.second ++
      (t.fraction.bytes ++ t.zone.bytes))))))

namespace GrimodexProtocolValidator

/-! Checks that read no byte past the end, and what they check. -/

def Settles (check : Option Bool) (p : Prop) : Prop := ∃ b, check = some b ∧ (b = true ↔ p)

variable {check check' : Option Bool} {p q : Prop}

theorem settles_some {b : Bool} : Settles (some b) (b = true) := ⟨b, rfl, Iff.rfl⟩

theorem settles_decide [Decidable p] : Settles (some (decide p)) p :=
  ⟨decide p, rfl, decide_eq_true_iff⟩

theorem Settles.congr (h : Settles check p) (hpq : p ↔ q) : Settles check q := by
  obtain ⟨b, hb, hiff⟩ := h
  exact ⟨b, hb, hiff.trans hpq⟩

/-- What follows is only read if the check holds. -/
theorem Settles.and_then (h : Settles check p) (h' : p → Settles check' q) :
    Settles (check.bind fun holds => if holds then check' else some false) (p ∧ q) := by
  obtain ⟨b, rfl, hiff⟩ := h
  cases b with
  | false => exact ⟨false, rfl, by simpa using fun hp => absurd (hiff.mpr hp) Bool.false_ne_true⟩
  | true =>
    obtain ⟨b', rfl, hiff'⟩ := h' (hiff.mp rfl)
    exact ⟨b', rfl, hiff'.trans ⟨fun hq => ⟨hiff.mp rfl, hq⟩, And.right⟩⟩

theorem Settles.or_else (h : Settles check p) (h' : Settles check' q) :
    Settles (check.bind fun holds => if holds then some true else check') (p ∨ q) := by
  obtain ⟨b, rfl, hiff⟩ := h
  cases b with
  | false =>
    obtain ⟨b', rfl, hiff'⟩ := h'
    exact ⟨b', rfl, hiff'.trans ⟨Or.inr, fun hpq => hpq.resolve_left fun hp =>
      absurd (hiff.mpr hp) Bool.false_ne_true⟩⟩
  | true => exact ⟨true, rfl, ⟨fun _ => Or.inl (hiff.mp rfl), fun _ => rfl⟩⟩

theorem settles_guards_nil : Settles (guards []) True := ⟨true, rfl, by simp⟩

theorem Settles.guards_cons {conditions : List (Option Bool)} (h : Settles check p)
    (h' : p → Settles (guards conditions) q) : Settles (guards (check :: conditions)) (p ∧ q) :=
  h.and_then h'

/-! The reads. -/

def slice (bytes : Data) (lower upper : Nat) : Data := (bytes.drop lower).take (upper - lower)

variable {bytes : Data} {i lower upper : Nat}

theorem slice_drop (bytes : Data) (i lower upper : Nat) :
    slice bytes (i + lower) (i + upper) = slice (bytes.drop i) lower upper := by
  simp [slice, Nat.add_sub_add_left]

theorem length_slice (h : upper ≤ bytes.length) : (slice bytes lower upper).length =
    upper - lower := by
  simp only [slice, List.length_take, List.length_drop]
  omega

theorem slice_append {middle : Nat} (h : lower ≤ middle) (h' : middle ≤ upper) :
    slice bytes lower middle ++ slice bytes middle upper = slice bytes lower upper := by
  have hdrop : bytes.drop middle = (bytes.drop lower).drop (middle - lower) := by
    rw [List.drop_drop]
    congr 1
    omega
  have hlength : upper - lower = (middle - lower) + (upper - middle) := by omega
  unfold slice
  rw [hdrop, hlength, List.take_add]

theorem slice_one {b : UInt8} (h : bytes[i]? = some b) : slice bytes i (i + 1) = [b] := by
  obtain ⟨hi, rfl⟩ := List.getElem?_eq_some_iff.mp h
  unfold slice
  rw [List.drop_eq_getElem_cons hi, Nat.add_sub_cancel_left]
  rfl

theorem isASCIIDigit_iff {b : UInt8} : isASCIIDigit b = true ↔ IsDigit b := by
  simp [isASCIIDigit, IsDigit]

theorem settles_byteIs (value : UInt8) (h : i < bytes.length) :
    Settles (byteIs bytes i value) (bytes[i]? = some value) := by
  refine ⟨bytes[i] == value, ?_, ?_⟩
  · simp [byteIs, h]
  · simp [h]

theorem settles_allDigits {count : Nat} (h : i + count ≤ bytes.length) :
    Settles (allDigits bytes i count) (∀ b ∈ (bytes.drop i).take count, IsDigit b) := by
  induction count generalizing i with
  | zero => exact ⟨true, rfl, by simp⟩
  | succ count ih =>
    have hi : i < bytes.length := by omega
    have hstep := ih (i := i + 1) (by omega)
    simp only [allDigits, List.getElem?_eq_getElem hi, Option.bind_some,
      List.drop_eq_getElem_cons hi, List.take_succ_cons, List.forall_mem_cons]
    by_cases hb : isASCIIDigit bytes[i] = true
    · rw [if_pos hb]
      exact hstep.congr (by simp [isASCIIDigit_iff.mp hb])
    · rw [if_neg hb]
      exact ⟨false, rfl, by simp [mt isASCIIDigit_iff.mpr hb]⟩

theorem settles_digits (h : lower ≤ upper) (h' : upper ≤ bytes.length) :
    Settles (digits bytes lower upper) (∀ b ∈ slice bytes lower upper, IsDigit b) :=
  settles_allDigits (by omega)

theorem accumulate_eq {count : Nat} (h : i + count ≤ bytes.length)
    (hd : ∀ b ∈ (bytes.drop i).take count, IsDigit b) (r : Nat) :
    accumulate bytes i r count = some (valueFrom r ((bytes.drop i).take count)) := by
  induction count generalizing i r with
  | zero => rfl
  | succ count ih =>
    have hi : i < bytes.length := by omega
    simp only [List.drop_eq_getElem_cons hi, List.take_succ_cons, List.forall_mem_cons] at hd
    simp only [accumulate, List.getElem?_eq_getElem hi, Option.bind_some, digitValue,
      if_pos hd.1.1, List.drop_eq_getElem_cons hi, List.take_succ_cons]
    exact ih (by omega) hd.2 _

theorem number_eq (h : lower ≤ upper) (h' : upper ≤ bytes.length)
    (hd : ∀ b ∈ slice bytes lower upper, IsDigit b) :
    number bytes lower upper = some (some (value (slice bytes lower upper))) := by
  obtain ⟨b, hb, hiff⟩ := settles_digits h h'
  obtain rfl := hiff.mpr hd
  simp only [number, hb, Option.bind_some, if_true, accumulate_eq (i := lower) (by omega) hd,
    Option.map_some]
  rfl

theorem settles_numberAtMost (bound : Nat) (h : lower ≤ upper) (h' : upper ≤ bytes.length)
    (hd : ∀ b ∈ slice bytes lower upper, IsDigit b) :
    Settles (numberAtMost bytes lower upper bound) (value (slice bytes lower upper) ≤ bound) := by
  simp only [numberAtMost, number_eq h h' hd, Option.bind_some, Option.map_some, id]
  exact settles_decide

theorem withNumber_eq {body : Nat → Option Bool} (h : lower ≤ upper) (h' : upper ≤ bytes.length)
    (hd : ∀ b ∈ slice bytes lower upper, IsDigit b) :
    withNumber bytes lower upper body = body (value (slice bytes lower upper)) := by
  simp only [withNumber, number_eq h h' hd, Option.bind_some, Option.elim_some]

/-! The fraction, which takes all digits there are. -/

theorem fractionEnd_eq {count : Nat} (h : i + count = bytes.length) : fractionEnd bytes i count =
    some (i + ((bytes.drop i).takeWhile isASCIIDigit).length) := by
  induction count generalizing i with
  | zero =>
    have hi : bytes.drop i = [] := List.drop_eq_nil_iff.mpr (by omega)
    rw [hi]
    rfl
  | succ count ih =>
    have hi : i < bytes.length := by omega
    simp only [fractionEnd, List.getElem?_eq_getElem hi, Option.bind_some,
      List.drop_eq_getElem_cons hi, List.takeWhile_cons]
    by_cases hb : isASCIIDigit bytes[i] = true
    · rw [if_pos hb, if_pos hb, ih (by omega), List.length_cons]
      congr 1
      omega
    · rw [if_neg hb, if_neg hb]
      rfl

/-- The digits that follow the point. -/
def fractionDigits (bytes : Data) (i : Nat) : Data := (bytes.drop (i + 1)).takeWhile isASCIIDigit

theorem afterFraction_of_point (h : bytes[i]? = some 0x2E) : afterFraction bytes i =
    some (if 1 ≤ (fractionDigits bytes i).length ∧ (fractionDigits bytes i).length ≤ 9
      then some (i + 1 + (fractionDigits bytes i).length) else none) := by
  obtain ⟨hi, hb⟩ := List.getElem?_eq_some_iff.mp h
  simp only [afterFraction, h, Option.bind_some, if_true,
    fractionEnd_eq (show i + 1 + (bytes.length - (i + 1)) = bytes.length by omega),
    Option.map_some, Nat.add_sub_cancel_left]
  rfl

theorem afterFraction_of_none (hi : i < bytes.length) (h : bytes[i]? ≠ some 0x2E) :
    afterFraction bytes i = some (some i) := by
  rw [List.getElem?_eq_getElem hi] at h
  simp only [afterFraction, List.getElem?_eq_getElem hi, Option.bind_some]
  exact if_neg fun he => h (congrArg some he)

theorem afterFraction_total (hi : i < bytes.length) : ∃ r, afterFraction bytes i = some r := by
  by_cases h : bytes[i]? = some 0x2E
  · exact ⟨_, afterFraction_of_point h⟩
  · exact ⟨_, afterFraction_of_none hi h⟩

theorem fraction_of_afterFraction {j : Nat} (hi : i < bytes.length)
    (h : afterFraction bytes i = some (some j)) :
    ∃ f : Fraction, bytes.drop i = f.bytes ++ bytes.drop j := by
  by_cases hpoint : bytes[i]? = some 0x2E
  · rw [afterFraction_of_point hpoint, Option.some.injEq] at h
    obtain ⟨hlength, hj⟩ := Option.ite_none_right_eq_some.mp h
    obtain rfl := Option.some.inj hj
    refine ⟨⟨some (fractionDigits bytes i), ?_⟩, ?_⟩
    · rintro ds ⟨⟩
      exact ⟨fun b hb => isASCIIDigit_iff.mp (List.mem_takeWhile_imp hb), hlength⟩
    · obtain ⟨hi, hb⟩ := List.getElem?_eq_some_iff.mp hpoint
      have hrest : bytes.drop (i + 1) = fractionDigits bytes i ++
          bytes.drop (i + 1 + (fractionDigits bytes i).length) := by
        have h := (List.prefix_iff_eq_append.mp
          (List.takeWhile_prefix (l := bytes.drop (i + 1)) isASCIIDigit)).symm
        rw [List.drop_drop] at h
        exact h
      rw [List.drop_eq_getElem_cons hi, hb]
      exact congrArg (0x2E :: ·) hrest
  · rw [afterFraction_of_none hi hpoint] at h
    obtain rfl := Option.some.inj (Option.some.inj h)
    exact ⟨⟨none, fun _ h => absurd h (by simp)⟩, rfl⟩

/-- The zone begins with neither a point nor a digit. -/
theorem Zone.head (z : Zone) : ∃ b rest, z.bytes = b :: rest ∧ b ≠ 0x2E ∧ isASCIIDigit b = false := by
  cases z with
  | utc => exact ⟨_, _, rfl, by decide⟩
  | offset behind hours minutes =>
    refine ⟨_, _, rfl, ?_⟩
    cases behind <;> decide

theorem afterFraction_of_fraction {f : Fraction} {z : Zone}
    (h : bytes.drop i = f.bytes ++ z.bytes) :
    afterFraction bytes i = some (some (i + f.bytes.length)) := by
  obtain ⟨b, rest, hz, hpoint, hdigit⟩ := Zone.head z
  have hread : bytes[i]? = (f.bytes ++ z.bytes)[0]? := by
    rw [← h, List.getElem?_drop]
    rfl
  obtain ⟨digits, hvalid⟩ := f
  cases digits with
  | none =>
    have hb : bytes[i]? = some b := by
      rw [hread, hz]
      rfl
    rw [afterFraction_of_none (List.getElem?_eq_some_iff.mp hb).1
      (by rw [hb]; exact fun he => hpoint (Option.some.inj he))]
    rfl
  | some ds =>
    obtain ⟨hds, hlength⟩ := hvalid ds rfl
    have hdrop : bytes.drop (i + 1) = ds ++ b :: rest := by
      rw [← List.drop_drop, h, hz]
      rfl
    have hdigits : fractionDigits bytes i = ds := by
      unfold fractionDigits
      rw [hdrop, List.takeWhile_append_of_pos fun c hc => isASCIIDigit_iff.mpr (hds c hc),
        List.takeWhile_cons, if_neg (by simp [hdigit]), List.append_nil]
    rw [afterFraction_of_point hread, hdigits, if_pos hlength]
    show some (some (i + 1 + ds.length)) = some (some (i + (ds.length + 1)))
    rw [Nat.add_assoc, Nat.add_comm 1]

/-! The zone, which takes all bytes that are left. -/

theorem zone_of_numeral {rest : Data} (hlength : rest.length = 6)
    (hsign : rest[0]? = some 0x2B ∨ rest[0]? = some 0x2D) (hcolon : rest[3]? = some 0x3A)
    (hhours : ∀ b ∈ slice rest 1 3, IsDigit b) (hminutes : ∀ b ∈ slice rest 4 6, IsDigit b)
    (hh : value (slice rest 1 3) ≤ 23) (hm : value (slice rest 4 6) ≤ 59) :
    ∃ z : Zone, z.bytes = rest := by
  have hsplit : rest = slice rest 0 1 ++ (slice rest 1 3 ++ (slice rest 3 4 ++ slice rest 4 6)) := by
    rw [slice_append (by omega) (by omega), slice_append (by omega) (by omega),
      slice_append (by omega) (by omega)]
    simp [slice, hlength]
  have fixed_slice : ∀ lower upper, lower + 2 = upper → upper ≤ 6 →
      (∀ b ∈ slice rest lower upper, IsDigit b) →
      fixed 2 (value (slice rest lower upper)) = slice rest lower upper := by
    intro lower upper hwidth hupper hd
    have := fixed_value hd
    rwa [length_slice (by omega), show upper - lower = 2 by omega] at this
  refine ⟨.offset (rest[0]? = some 0x2D) ⟨value (slice rest 1 3), by omega⟩
    ⟨value (slice rest 4 6), by omega⟩, ?_⟩
  show (if decide (rest[0]? = some 0x2D) then 0x2D else 0x2B) ::
    (fixed 2 (value (slice rest 1 3)) ++ 0x3A :: fixed 2 (value (slice rest 4 6))) = rest
  rw [fixed_slice 1 3 rfl (by decide) hhours, fixed_slice 4 6 rfl (by decide) hminutes]
  conv => rhs; rw [hsplit, slice_one hcolon]
  rcases hsign with hsign | hsign
  · rw [slice_one hsign, hsign]
    rfl
  · rw [slice_one hsign, hsign]
    rfl

theorem zone_numeral {behind : Bool} {hours : Fin 24} {minutes : Fin 60} {rest : Data}
    (h : (Zone.offset behind hours minutes).bytes = rest) :
    rest.length = 6 ∧ (rest[0]? = some 0x2B ∨ rest[0]? = some 0x2D) ∧ rest[3]? = some 0x3A ∧
      (∀ b ∈ slice rest 1 3, IsDigit b) ∧ (∀ b ∈ slice rest 4 6, IsDigit b) ∧
      value (slice rest 1 3) ≤ 23 ∧ value (slice rest 4 6) ≤ 59 := by
  subst h
  have hh : value (fixed 2 hours) = hours := value_fixed_of_lt (by omega)
  have hm : value (fixed 2 minutes) = minutes := value_fixed_of_lt (by omega)
  refine ⟨rfl, ?_, rfl, fun b hb => isDigit_of_mem_fixed 2 hours hb,
    fun b hb => isDigit_of_mem_fixed 2 minutes hb, ?_, ?_⟩
  · cases behind
    · exact Or.inl rfl
    · exact Or.inr rfl
  · show value (fixed 2 hours) ≤ 23
    omega
  · show value (fixed 2 minutes) ≤ 59
    omega

theorem settles_zone (bytes : Data) (i : Nat) :
    Settles (zone bytes i) (∃ z : Zone, z.bytes = bytes.drop i) := by
  have hread : ∀ k, bytes[i + k]? = (bytes.drop i)[k]? := fun k => List.getElem?_drop.symm
  have hread0 : bytes[i]? = (bytes.drop i)[0]? := hread 0
  have hutc : Settles (guards [some (i < bytes.length), byteIs bytes i 0x5A])
      (i < bytes.length ∧ bytes[i]? = some 0x5A ∧ True) :=
    settles_decide.guards_cons fun hi => (settles_byteIs 0x5A hi).guards_cons fun _ =>
      settles_guards_nil
  obtain ⟨isUTC, hchecked, hiff⟩ := hutc
  unfold zone
  rw [hchecked, Option.bind_some]
  cases isUTC with
  | true =>
    obtain ⟨hi, hz, -⟩ := hiff.mp rfl
    rw [if_pos rfl]
    refine settles_decide.congr ⟨fun hend => ⟨.utc, ?_⟩, ?_⟩
    · rw [List.drop_eq_getElem_cons hi, hend, List.drop_length]
      rw [List.getElem?_eq_getElem hi, Option.some.injEq] at hz
      rw [hz]
      rfl
    · rintro ⟨z, hbytes⟩
      have hlength : z.bytes.length = bytes.length - i := by rw [hbytes, List.length_drop]
      cases z with
      | utc =>
        have : (Zone.bytes .utc).length = 1 := rfl
        omega
      | offset behind hours minutes =>
        have hsign := (zone_numeral hbytes).2.1
        rw [← hread0, hz] at hsign
        exact absurd hsign (by decide)
  | false =>
    rw [if_neg Bool.false_ne_true]
    refine Settles.congr (settles_decide.guards_cons fun hlength =>
      ((settles_byteIs 0x2B ?_).or_else (settles_byteIs 0x2D ?_)).guards_cons fun _ =>
      (settles_byteIs 0x3A ?_).guards_cons fun _ =>
      (settles_digits ?_ ?_).guards_cons fun hhours =>
      (settles_digits ?_ ?_).guards_cons fun hminutes =>
      (settles_numberAtMost 23 ?_ ?_ hhours).guards_cons fun _ =>
      (settles_numberAtMost 59 ?_ ?_ hminutes).guards_cons fun _ => settles_guards_nil) ?_
    all_goals try omega
    rw [slice_drop, slice_drop, hread 3, hread0]
    constructor
    · rintro ⟨hlength, hsign, hcolon, hhours, hminutes, hh, hm, -⟩
      exact zone_of_numeral (by rw [List.length_drop]; omega) hsign hcolon hhours hminutes hh hm
    · rintro ⟨z, hbytes⟩
      cases z with
      | utc =>
        have hz : bytes[i]? = some 0x5A := by
          rw [hread0, ← hbytes]
          rfl
        have hi := (List.getElem?_eq_some_iff.mp hz).1
        exact absurd (hiff.mpr ⟨hi, hz, trivial⟩) Bool.false_ne_true
      | offset behind hours minutes =>
        obtain ⟨hlength, hsign, hcolon, hhours, hminutes, hh, hm⟩ := zone_numeral hbytes
        rw [List.length_drop] at hlength
        exact ⟨by omega, hsign, hcolon, hhours, hminutes, hh, hm, trivial⟩

/-! The date, and the fields before it. -/

theorem monthHasDay_iff {year month day : Nat} : MonthHasDay year month day ↔
    1 ≤ month ∧ month ≤ 12 ∧ 1 ≤ day ∧ day ≤ daysInMonth year month := by
  have hleap : (year % 4 = 0 ∧ (year % 100 ≠ 0 ∨ year % 400 = 0)) ↔ LeapYear year := by
    unfold LeapYear
    omega
  have hlength : ∀ february, month ≤ 12 → 1 ≤ month →
      february = (if LeapYear year then 29 else 28) →
      (monthLengths february)[month - 1]? = some (daysInMonth year month) := by
    rintro february hle hlow rfl
    unfold daysInMonth
    rw [if_congr hleap rfl rfl]
    interval_cases month <;> rfl
  constructor
  · rintro ⟨hlow, february, length, hleap', hcommon, hmonth, hday⟩
    have hle : month ≤ 12 := by
      have := (List.getElem?_eq_some_iff.mp hmonth).1
      have : (monthLengths february).length = 12 := rfl
      omega
    have hfebruary : february = if LeapYear year then 29 else 28 := by
      by_cases h : LeapYear year
      · rw [if_pos h, hleap' h]
      · rw [if_neg h, hcommon h]
    rw [hlength february hle hlow hfebruary] at hmonth
    obtain rfl := Option.some.inj hmonth
    exact ⟨hlow, hle, hday⟩
  · rintro ⟨hlow, hle, hday⟩
    exact ⟨hlow, _, _, fun h => if_pos h, fun h => if_neg h, hlength _ hle hlow rfl, hday⟩

/-- What the bytes of a date hold, once their marks and digits are seen. -/
structure Marked (bytes : Data) : Prop where
  length_ge : 20 ≤ bytes.length
  length_le : bytes.length ≤ GrimodexProtocolLimits.timestampBytes
  afterYear : bytes[4]? = some 0x2D
  afterMonth : bytes[7]? = some 0x2D
  afterDay : bytes[10]? = some 0x54
  afterHour : bytes[13]? = some 0x3A
  afterMinute : bytes[16]? = some 0x3A
  year : ∀ b ∈ slice bytes 0 4, IsDigit b
  month : ∀ b ∈ slice bytes 5 7, IsDigit b
  day : ∀ b ∈ slice bytes 8 10, IsDigit b
  hour : ∀ b ∈ slice bytes 11 13, IsDigit b
  minute : ∀ b ∈ slice bytes 14 16, IsDigit b
  second : ∀ b ∈ slice bytes 17 19, IsDigit b

theorem settles_fields (scalars : Nat) (bytes : Data) :
    Settles (fields scalars bytes) (scalars = bytes.length ∧ Marked bytes) := by
  have hmark : ∀ {i : Nat} (mark : UInt8), 20 ≤ bytes.length → i < 20 →
      Settles (byteIs bytes i mark) (bytes[i]? = some mark) := fun mark hlength hi =>
    settles_byteIs mark (by omega)
  have hdigits : ∀ {lower upper : Nat}, 20 ≤ bytes.length → lower ≤ upper → upper ≤ 20 →
      Settles (digits bytes lower upper) (∀ b ∈ slice bytes lower upper, IsDigit b) :=
    fun hlength h hupper => settles_digits h (by omega)
  refine Settles.congr (settles_decide.guards_cons fun _ =>
    settles_decide.guards_cons fun hl => settles_decide.guards_cons fun _ =>
    (hmark 0x2D hl (by decide)).guards_cons fun _ =>
    (hmark 0x2D hl (by decide)).guards_cons fun _ =>
    (hmark 0x54 hl (by decide)).guards_cons fun _ =>
    (hmark 0x3A hl (by decide)).guards_cons fun _ =>
    (hmark 0x3A hl (by decide)).guards_cons fun _ =>
    (hdigits hl (by decide) (by decide)).guards_cons fun _ =>
    (hdigits hl (by decide) (by decide)).guards_cons fun _ =>
    (hdigits hl (by decide) (by decide)).guards_cons fun _ =>
    (hdigits hl (by decide) (by decide)).guards_cons fun _ =>
    (hdigits hl (by decide) (by decide)).guards_cons fun _ =>
    (hdigits hl (by decide) (by decide)).guards_cons fun _ => settles_guards_nil) ⟨?_, ?_⟩
  · rintro ⟨hs, hge, hle, h4, h7, h10, h13, h16, hy, hmo, hd, hh, hmi, hse, -⟩
    exact ⟨hs, hge, hle, h4, h7, h10, h13, h16, hy, hmo, hd, hh, hmi, hse⟩
  · rintro ⟨hs, m⟩
    exact ⟨hs, m.length_ge, m.length_le, m.afterYear, m.afterMonth, m.afterDay, m.afterHour,
      m.afterMinute, m.year, m.month, m.day, m.hour, m.minute, m.second, trivial⟩

structure DateHolds (bytes : Data) : Prop where
  day : MonthHasDay (value (slice bytes 0 4)) (value (slice bytes 5 7)) (value (slice bytes 8 10))
  hour : value (slice bytes 11 13) ≤ 23
  minute : value (slice bytes 14 16) ≤ 59
  second : value (slice bytes 17 19) ≤ 59

theorem settles_date (m : Marked bytes) : Settles (date bytes) (DateHolds bytes) := by
  have hlength := m.length_ge
  unfold date
  rw [withNumber_eq (by omega) (by omega) m.year, withNumber_eq (by omega) (by omega) m.month,
    withNumber_eq (by omega) (by omega) m.day, withNumber_eq (by omega) (by omega) m.hour,
    withNumber_eq (by omega) (by omega) m.minute, withNumber_eq (by omega) (by omega) m.second]
  refine Settles.congr (settles_some.guards_cons fun _ => settles_decide.guards_cons fun _ =>
    settles_decide.guards_cons fun _ => settles_decide.guards_cons fun _ =>
    settles_some.guards_cons fun _ => settles_guards_nil) ?_
  simp only [Bool.and_eq_true, decide_eq_true_eq, and_true]
  constructor
  · rintro ⟨⟨hlow, hle⟩, hh, hm, hs, hday⟩
    exact ⟨monthHasDay_iff.mpr ⟨hlow, hle, hday⟩, hh, hm, hs⟩
  · rintro ⟨hday, hh, hm, hs⟩
    obtain ⟨hlow, hle, hday⟩ := monthHasDay_iff.mp hday
    exact ⟨⟨hlow, hle⟩, hh, hm, hs, hday⟩

/-! The date-time of the bytes, and the bytes of a date-time. -/

theorem fixed_slice {width : Nat} (h : lower + width = upper) (h' : upper ≤ bytes.length)
    (hd : ∀ b ∈ slice bytes lower upper, IsDigit b) :
    fixed width (value (slice bytes lower upper)) = slice bytes lower upper := by
  have := fixed_value hd
  rwa [length_slice h', show upper - lower = width by omega] at this

/-- The bytes are their fields, with the marks between them. -/
theorem Marked.split (m : Marked bytes) : bytes = slice bytes 0 4 ++ 0x2D :: (slice bytes 5 7 ++
    0x2D :: (slice bytes 8 10 ++ 0x54 :: (slice bytes 11 13 ++ 0x3A :: (slice bytes 14 16 ++
      0x3A :: (slice bytes 17 19 ++ bytes.drop 19))))) := by
  have hcut : ∀ {i j : Nat} {mark : UInt8}, bytes[i]? = some mark → j = i + 1 →
      ∀ rest, mark :: rest = slice bytes i j ++ rest := by
    rintro i j mark hmark rfl rest
    rw [slice_one hmark]
    rfl
  rw [hcut m.afterYear rfl, hcut m.afterMonth rfl, hcut m.afterDay rfl, hcut m.afterHour rfl,
    hcut m.afterMinute rfl]
  simp only [← List.append_assoc]
  rw [slice_append (by decide) (by decide), slice_append (by decide) (by decide),
    slice_append (by decide) (by decide), slice_append (by decide) (by decide),
    slice_append (by decide) (by decide), slice_append (by decide) (by decide),
    slice_append (by decide) (by decide), slice_append (by decide) (by decide),
    slice_append (by decide) (by decide), slice_append (by decide) (by decide)]
  exact (List.take_append_drop 19 bytes).symm

theorem dateTime_of_bytes {f : Fraction} {z : Zone} (m : Marked bytes) (d : DateHolds bytes)
    (h : bytes.drop 19 = f.bytes ++ z.bytes) : ∃ t : DateTime, t.bytes = bytes := by
  have hlength := m.length_ge
  have hyear : value (slice bytes 0 4) < 10000 := by
    have := value_lt m.year
    rwa [length_slice (by omega)] at this
  have hhour := d.hour
  have hminute := d.minute
  have hsecond := d.second
  refine ⟨⟨value (slice bytes 0 4), value (slice bytes 5 7), value (slice bytes 8 10),
    value (slice bytes 11 13), value (slice bytes 14 16), value (slice bytes 17 19), f, z, hyear,
    d.day, by omega, by omega, by omega⟩, ?_⟩
  show fixed 4 (value (slice bytes 0 4)) ++ 0x2D :: (fixed 2 (value (slice bytes 5 7)) ++ 0x2D ::
    (fixed 2 (value (slice bytes 8 10)) ++ 0x54 :: (fixed 2 (value (slice bytes 11 13)) ++ 0x3A ::
      (fixed 2 (value (slice bytes 14 16)) ++ 0x3A :: (fixed 2 (value (slice bytes 17 19)) ++
        (f.bytes ++ z.bytes)))))) = bytes
  rw [fixed_slice rfl (by omega) m.year, fixed_slice rfl (by omega) m.month,
    fixed_slice rfl (by omega) m.day, fixed_slice rfl (by omega) m.hour,
    fixed_slice rfl (by omega) m.minute, fixed_slice rfl (by omega) m.second, ← h]
  exact m.split.symm

theorem Fraction.length_le (f : Fraction) : f.bytes.length ≤ 10 := by
  obtain ⟨digits, hvalid⟩ := f
  cases digits with
  | none => exact Nat.zero_le 10
  | some ds =>
    have := (hvalid ds rfl).2.2
    show ds.length + 1 ≤ 10
    omega

theorem Zone.length_le (z : Zone) : 1 ≤ z.bytes.length ∧ z.bytes.length ≤ 6 := by
  cases z with
  | utc => exact ⟨Nat.le_refl 1, by decide⟩
  | offset behind hours minutes => exact ⟨by show 1 ≤ 6; decide, Nat.le_refl 6⟩

theorem marked_bytes (t : DateTime) : Marked t.bytes := by
  have hlength : t.bytes.length = 19 + (t.fraction.bytes ++ t.zone.bytes).length := by
    show (t.fraction.bytes ++ t.zone.bytes).length + 19 = _
    omega
  have hfraction := Fraction.length_le t.fraction
  have hzone := Zone.length_le t.zone
  rw [List.length_append] at hlength
  refine ⟨by omega, ?_, rfl, rfl, rfl, rfl, rfl, ?_, ?_, ?_, ?_, ?_, ?_⟩
  · show t.bytes.length ≤ 64
    omega
  · exact fun b hb => isDigit_of_mem_fixed 4 t.year hb
  · exact fun b hb => isDigit_of_mem_fixed 2 t.month hb
  · exact fun b hb => isDigit_of_mem_fixed 2 t.day hb
  · exact fun b hb => isDigit_of_mem_fixed 2 t.hour hb
  · exact fun b hb => isDigit_of_mem_fixed 2 t.minute hb
  · exact fun b hb => isDigit_of_mem_fixed 2 t.second hb

theorem dateHolds_bytes (t : DateTime) : DateHolds t.bytes := by
  obtain ⟨hmonth, hmonth', hday, hday'⟩ := monthHasDay_iff.mp t.day_valid
  have hmonthDays : daysInMonth t.year t.month ≤ 31 := by
    unfold daysInMonth
    split
    · split <;> omega
    · split <;> omega
  have hvalue : ∀ (width : Nat) {n : Nat} {field : Data}, field = fixed width n → n < 10 ^ width →
      value field = n := by
    rintro width n _ rfl hn
    exact value_fixed_of_lt hn
  have hyear : value (slice t.bytes 0 4) = t.year := hvalue 4 rfl t.year_lt
  have hmo : value (slice t.bytes 5 7) = t.month := hvalue 2 rfl (by omega)
  have hd : value (slice t.bytes 8 10) = t.day := hvalue 2 rfl (by omega)
  have hh : value (slice t.bytes 11 13) = t.hour :=
    hvalue 2 rfl (by have := t.hour_lt; omega)
  have hmi : value (slice t.bytes 14 16) = t.minute :=
    hvalue 2 rfl (by have := t.minute_lt; omega)
  have hse : value (slice t.bytes 17 19) = t.second :=
    hvalue 2 rfl (by have := t.second_lt; omega)
  constructor
  · rw [hyear, hmo, hd]
    exact t.day_valid
  · rw [hh]
    exact Nat.le_of_lt_succ t.hour_lt
  · rw [hmi]
    exact Nat.le_of_lt_succ t.minute_lt
  · rw [hse]
    exact Nat.le_of_lt_succ t.second_lt

/-- After the seconds come a fraction and a zone, and nothing else. -/
theorem settles_rest (m : Marked bytes) :
    Settles ((afterFraction bytes 19).bind fun zoneIndex =>
      zoneIndex.elim (some false) fun zoneIndex =>
        (zone bytes zoneIndex).bind fun holds => if holds then date bytes else some false)
      ((∃ (f : Fraction) (z : Zone), bytes.drop 19 = f.bytes ++ z.bytes) ∧ DateHolds bytes) := by
  have hlength := m.length_ge
  obtain ⟨r, hr⟩ := afterFraction_total (show 19 < bytes.length by omega)
  rw [hr, Option.bind_some]
  cases r with
  | none =>
    refine ⟨false, rfl, by simp, ?_⟩
    rintro ⟨⟨f, z, hfz⟩, -⟩
    rw [afterFraction_of_fraction hfz] at hr
    exact absurd hr (by simp)
  | some j =>
    apply ((settles_zone bytes j).and_then fun _ => settles_date m).congr
    apply and_congr_left'
    constructor
    · rintro ⟨z, hz⟩
      obtain ⟨f, hf⟩ := fraction_of_afterFraction (by omega) hr
      exact ⟨f, z, by rw [hf, hz]⟩
    · rintro ⟨f, z, hfz⟩
      rw [afterFraction_of_fraction hfz] at hr
      obtain rfl := Option.some.inj (Option.some.inj hr)
      refine ⟨z, ?_⟩
      rw [← List.drop_drop, hfz, List.drop_left]

theorem settles_validTimestampBytes (scalars : Nat) (bytes : Data) :
    Settles (validTimestampBytes scalars bytes)
      (scalars = bytes.length ∧ ∃ t : DateTime, t.bytes = bytes) := by
  apply ((settles_fields scalars bytes).and_then fun h => settles_rest h.2).congr
  constructor
  · rintro ⟨⟨hs, m⟩, ⟨f, z, hfz⟩, d⟩
    exact ⟨hs, dateTime_of_bytes m d hfz⟩
  · rintro ⟨hs, t, rfl⟩
    exact ⟨⟨hs, marked_bytes t⟩, ⟨t.fraction, t.zone, rfl⟩, dateHolds_bytes t⟩

theorem ascii_of_isDigit {b : UInt8} (h : IsDigit b) : b.toNat < 0x80 := by
  have := h.2
  omega

theorem Fraction.ascii (f : Fraction) : ∀ b ∈ f.bytes, b.toNat < 0x80 := by
  obtain ⟨digits, hvalid⟩ := f
  cases digits with
  | none => exact fun b hb => absurd hb (List.not_mem_nil)
  | some ds =>
    intro b hb
    rcases List.mem_cons.mp hb with rfl | hb
    · decide
    · exact ascii_of_isDigit ((hvalid ds rfl).1 b hb)

theorem Zone.ascii (z : Zone) : ∀ b ∈ z.bytes, b.toNat < 0x80 := by
  cases z with
  | utc => exact List.forall_mem_singleton.mpr (by decide)
  | offset behind hours minutes =>
    intro b hb
    rcases List.mem_cons.mp hb with rfl | hb
    · cases behind <;> decide
    · rcases List.mem_append.mp hb with hb | hb
      · exact ascii_of_isDigit (isDigit_of_mem_fixed 2 hours hb)
      · rcases List.mem_cons.mp hb with rfl | hb
        · decide
        · exact ascii_of_isDigit (isDigit_of_mem_fixed 2 minutes hb)

theorem dateTime_ascii (t : DateTime) : ∀ b ∈ t.bytes, b.toNat < 0x80 := by
  have hfixed : ∀ (width n : Nat) (mark : UInt8) (rest : Data), mark.toNat < 0x80 →
      (∀ b ∈ rest, b.toNat < 0x80) → ∀ b ∈ fixed width n ++ mark :: rest, b.toNat < 0x80 := by
    intro width n mark rest hmark hrest b hb
    rcases List.mem_append.mp hb with hb | hb
    · exact ascii_of_isDigit (isDigit_of_mem_fixed width n hb)
    · rcases List.mem_cons.mp hb with rfl | hb
      · exact hmark
      · exact hrest b hb
  apply hfixed 4 _ _ _ (by decide)
  apply hfixed 2 _ _ _ (by decide)
  apply hfixed 2 _ _ _ (by decide)
  apply hfixed 2 _ _ _ (by decide)
  apply hfixed 2 _ _ _ (by decide)
  intro b hb
  rcases List.mem_append.mp hb with hb | hb
  · exact ascii_of_isDigit (isDigit_of_mem_fixed 2 _ hb)
  · rcases List.mem_append.mp hb with hb | hb
    · exact Fraction.ascii t.fraction b hb
    · exact Zone.ascii t.zone b hb

/-- The first of more than one byte is not ASCII. -/
theorem length_utf8EncodeChar_of_ascii {c : Char}
    (h : ∀ b ∈ String.utf8EncodeChar c, b.toNat < 0x80) : (String.utf8EncodeChar c).length = 1 := by
  have hhigh : ∀ {n : Nat} {rest : Data}, 0x80 ≤ n → n < 0x100 →
      ¬∀ b ∈ UInt8.ofNat n :: rest, b.toNat < 0x80 := by
    intro n rest hn hn' hall
    have := hall _ List.mem_cons_self
    rw [UInt8.toNat_ofNat'] at this
    omega
  revert h
  unfold String.utf8EncodeChar
  dsimp only
  by_cases h1 : c.val.toNat ≤ 0x7f
  · rw [if_pos h1]
    exact fun _ => rfl
  · rw [if_neg h1]
    by_cases h2 : c.val.toNat ≤ 0x7ff
    · rw [if_pos h2]
      exact fun h => absurd h (hhigh (by omega) (by omega))
    · rw [if_neg h2]
      by_cases h3 : c.val.toNat ≤ 0xffff
      · rw [if_pos h3]
        exact fun h => absurd h (hhigh (by omega) (by omega))
      · rw [if_neg h3]
        exact fun h => absurd h (hhigh (by omega) (by omega))

/-- A text of ASCII bytes has as many scalars. -/
theorem length_of_ascii {value : Text} (h : ∀ b ∈ utf8 value, b.toNat < 0x80) :
    value.length = (utf8 value).length := by
  induction value with
  | nil => rfl
  | cons c value ih =>
    have hsplit : utf8 (c :: value) = String.utf8EncodeChar c ++ utf8 value := List.flatMap_cons
    rw [hsplit] at h ⊢
    have hc := length_utf8EncodeChar_of_ascii fun b hb => h b (List.mem_append_left _ hb)
    rw [List.length_cons, List.length_append, hc, ih fun b hb => h b (List.mem_append_right _ hb)]
    omega

/-- What is accepted is what writes a date-time, and no read is past the end. -/
theorem settles_validTimestamp :
    (∀ (scalars : Nat) (bytes : Data), Settles (validTimestampBytes scalars bytes)
      (scalars = bytes.length ∧ ∃ t : DateTime, t.bytes = bytes)) ∧
    ∀ value : Text, Settles (validTimestamp value) (∃ t : DateTime, t.bytes = utf8 value) := by
  refine ⟨settles_validTimestampBytes, fun value => ?_⟩
  apply (settles_validTimestampBytes value.length (utf8 value)).congr
  refine and_iff_right_of_imp ?_
  rintro ⟨t, ht⟩
  exact length_of_ascii (ht ▸ dateTime_ascii t)

end GrimodexProtocolValidator

end Hazkey
