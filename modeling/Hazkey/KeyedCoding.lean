import Mathlib.Logic.Function.Basic
import Mathlib.Data.Rat.Defs
import Mathlib.Data.List.Nodup
import Mathlib.Data.List.Basic

/-! Values a keyed coder stores, the codings of single values and the keyed
containers built from them. A failed decode names the path of the value that
stopped it. -/

namespace KeyedCoding

inductive Coded
  | null
  | bool (value : Bool)
  | number (value : Rat)
  | string (value : List Char)
  | array (items : List Coded)
  | object (fields : List Char → Option Coded)

inductive DecodingError
  | typeMismatch (codingPath : List (List Char))
  | valueNotFound (codingPath : List (List Char))
  | keyNotFound (key : List Char) (codingPath : List (List Char))
  | dataCorrupted (codingPath : List (List Char))
  deriving DecidableEq

def DecodingError.under (key : List Char) : DecodingError → DecodingError
  | .typeMismatch path => .typeMismatch (key :: path)
  | .valueNotFound path => .valueNotFound (key :: path)
  | .keyNotFound missing path => .keyNotFound missing (key :: path)
  | .dataCorrupted path => .dataCorrupted (key :: path)

theorem bind_eq_ok {ε α β : Type} {x : Except ε α} {f : α → Except ε β} {b : β} :
    (x >>= f) = .ok b ↔ ∃ a, x = .ok a ∧ f a = .ok b := by
  cases x with
  | error e =>
    constructor
    · intro h
      cases h
    · rintro ⟨a, h, _⟩
      cases h
  | ok a =>
    constructor
    · intro h
      exact ⟨a, rfl, h⟩
    · rintro ⟨a', h, h'⟩
      cases h
      exact h'

theorem mapError_eq_ok {ε ε' α : Type} {x : Except ε α} {f : ε → ε'} {a : α} :
    x.mapError f = .ok a ↔ x = .ok a := by
  cases x <;> simp [Except.mapError]

/-- How one type of values is written and read back. -/
structure Coding (α : Type) where
  encode : α → Coded
  decode : Coded → Except DecodingError α

/-- What a reader of one kind of value says of a value of another kind. -/
def unexpected {α : Type} : Coded → Except DecodingError α
  | .null => .error (.valueNotFound [])
  | _ => .error (.typeMismatch [])

@[simp] theorem unexpected_ne_ok {α : Type} {v : Coded} {a : α} : unexpected v ≠ .ok a := by
  cases v <;> simp [unexpected]

/-! ## Single values -/

def string : Coding (List Char) where
  encode := .string
  decode
    | .string text => .ok text
    | v => unexpected v

@[simp] theorem string_decode {v : Coded} {t : List Char} :
    string.decode v = .ok t ↔ v = .string t := by
  cases v <;> simp [string]

def boolean : Coding Bool where
  encode := .bool
  decode
    | .bool b => .ok b
    | v => unexpected v

@[simp] theorem boolean_decode {v : Coded} {b : Bool} :
    boolean.decode v = .ok b ↔ v = .bool b := by
  cases v <;> simp [boolean]

/-- Integers between two bounds: a number that is not one of them is corrupt. -/
def integer (low high : Int) : Coding Int where
  encode n := .number n
  decode
    | .number q =>
      if q.den = 1 ∧ low ≤ q.num ∧ q.num ≤ high then .ok q.num else .error (.dataCorrupted [])
    | v => unexpected v

theorem integer_decode {low high : Int} {v : Coded} {n : Int} :
    (integer low high).decode v = .ok n ↔ v = .number n ∧ low ≤ n ∧ n ≤ high := by
  cases v with
  | number q =>
    simp only [integer, Coded.number.injEq]
    constructor
    · intro h
      by_cases hq : q.den = 1 ∧ low ≤ q.num ∧ q.num ≤ high
      · rw [if_pos hq] at h
        cases h
        exact ⟨(Rat.den_eq_one_iff q).mp hq.1 |>.symm, hq.2⟩
      · rw [if_neg hq] at h
        cases h
    · rintro ⟨rfl, hn⟩
      have hq : ((n : Rat)).den = 1 ∧ low ≤ ((n : Rat)).num ∧ ((n : Rat)).num ≤ high := by
        simpa using hn
      rw [if_pos hq, Rat.num_intCast]
  | null | bool | string | array | object => simp [integer]

def unsigned64 : Coding UInt64 where
  encode n := .number (n.toNat : Int)
  decode v := ((integer 0 18446744073709551615).decode v).map fun n => UInt64.ofNat n.toNat

@[simp] theorem unsigned64_decode {v : Coded} {n : UInt64} :
    unsigned64.decode v = .ok n ↔ v = .number (n.toNat : Int) := by
  have hn := n.toNat_lt
  have hread : unsigned64.decode v = .ok n ↔
      ∃ m : Int, (integer 0 18446744073709551615).decode v = .ok m ∧
        UInt64.ofNat m.toNat = n := by
    cases h : (integer 0 18446744073709551615).decode v <;>
      simp [unsigned64, h, Except.map]
  rw [hread]
  constructor
  · rintro ⟨m, hm, hmn⟩
    obtain ⟨hv, hlow, hhigh⟩ := integer_decode.mp hm
    have hm' : m.toNat % 18446744073709551616 = n.toNat := by
      rw [← hmn]
      simp
    have : m = (n.toNat : Int) := by omega
    rw [hv, this]
  · intro hv
    refine ⟨(n.toNat : Int), integer_decode.mpr ⟨hv, by omega, by omega⟩, ?_⟩
    simp

/-! ## Bytes in base 64 -/

def alphabet : List Char :=
  "ABCDEFGHIJKLMNOPQRSTUVWXYZabcdefghijklmnopqrstuvwxyz0123456789+/".toList

def digit (n : Nat) : Char := alphabet.getD n 'A'

def digitValue (c : Char) : Option Nat := alphabet.findIdx? (· = c)

theorem alphabet_eq : alphabet = ['A', 'B', 'C', 'D', 'E', 'F', 'G', 'H', 'I', 'J', 'K', 'L', 'M',
    'N', 'O', 'P', 'Q', 'R', 'S', 'T', 'U', 'V', 'W', 'X', 'Y', 'Z', 'a', 'b', 'c', 'd', 'e', 'f',
    'g', 'h', 'i', 'j', 'k', 'l', 'm', 'n', 'o', 'p', 'q', 'r', 's', 't', 'u', 'v', 'w', 'x', 'y',
    'z', '0', '1', '2', '3', '4', '5', '6', '7', '8', '9', '+', '/'] := String.toList_ofList

theorem alphabet_codes : alphabet.map Char.toNat =
    List.range' 65 26 ++ List.range' 97 26 ++ List.range' 48 10 ++ [43, 47] := by
  rw [alphabet_eq]
  decide +kernel

theorem nodup_alphabet : alphabet.Nodup := by
  have hrange : ∀ s n, (List.range' s n).Nodup := fun s n => List.nodup_range' 1 (by decide)
  refine List.Nodup.of_map Char.toNat ?_
  simp only [alphabet_codes, List.nodup_append, hrange, true_and, List.mem_append,
    List.mem_range'_1, List.mem_cons, List.not_mem_nil, or_false]
  refine ⟨⟨fun a ha b hb => ?_, fun a ha b hb => ?_⟩, by simp, fun a ha b hb => ?_⟩ <;> omega

theorem digitValue_digit (n : Nat) (hn : n < 64) : digitValue (digit n) = some n := by
  have hlength : n < alphabet.length := by rwa [alphabet_eq]
  rw [digitValue, digit, List.getD_eq_getElem?_getD, List.getElem?_eq_getElem hlength,
    Option.getD_some, List.findIdx?_eq_some_iff_getElem]
  refine ⟨hlength, decide_eq_true rfl, fun j hj => ?_⟩
  rw [decide_eq_true_eq, nodup_alphabet.getElem_inj_iff]
  exact hj.ne

theorem digitValue_pad : digitValue '=' = none := by
  rw [digitValue, alphabet_eq]
  decide +kernel

theorem digit_ne_pad {n : Nat} (hn : n < 64) : digit n ≠ '=' := by
  intro h
  have := digitValue_digit n hn
  rw [h, digitValue_pad] at this
  cases this

def base64Encoded : List UInt8 → List Char
  | a :: b :: c :: rest =>
    digit (a.toNat / 4) :: digit (a.toNat % 4 * 16 + b.toNat / 16) ::
      digit (b.toNat % 16 * 4 + c.toNat / 64) :: digit (c.toNat % 64) :: base64Encoded rest
  | [a, b] =>
    [digit (a.toNat / 4), digit (a.toNat % 4 * 16 + b.toNat / 16), digit (b.toNat % 16 * 4), '=']
  | [a] => [digit (a.toNat / 4), digit (a.toNat % 4 * 16), '=', '=']
  | [] => []

/-- The first byte of four digits, and the next two where they are not padding. -/
def firstByte (w x : Nat) : UInt8 := UInt8.ofNat (w * 4 + x / 16)
def secondByte (x y : Nat) : UInt8 := UInt8.ofNat (x % 16 * 16 + y / 4)
def thirdByte (y z : Nat) : UInt8 := UInt8.ofNat (y % 4 * 64 + z)

def base64Decoded : List Char → Option (List UInt8)
  | [] => some []
  | w :: x :: y :: z :: rest =>
    (digitValue w).bind fun w => (digitValue x).bind fun x =>
      if rest = [] ∧ y = '=' ∧ z = '=' then some [firstByte w x]
      else (digitValue y).bind fun y =>
        if rest = [] ∧ z = '=' then some [firstByte w x, secondByte x y]
        else (digitValue z).bind fun z =>
          (base64Decoded rest).map fun bytes =>
            firstByte w x :: secondByte x y :: thirdByte y z :: bytes
  | _ => none

theorem firstByte_eq (a : UInt8) (low : Nat) (h : low < 16) :
    firstByte (a.toNat / 4) (a.toNat % 4 * 16 + low) = a := by
  have ha := a.toNat_lt
  have hsum : a.toNat / 4 * 4 + (a.toNat % 4 * 16 + low) / 16 = a.toNat := by omega
  rw [firstByte, hsum, UInt8.ofNat_toNat]

theorem secondByte_eq (b : UInt8) (high low : Nat) (h : low < 4) :
    secondByte (high * 16 + b.toNat / 16) (b.toNat % 16 * 4 + low) = b := by
  have hb := b.toNat_lt
  have hsum : (high * 16 + b.toNat / 16) % 16 * 16 + (b.toNat % 16 * 4 + low) / 4 = b.toNat := by
    omega
  rw [secondByte, hsum, UInt8.ofNat_toNat]

theorem thirdByte_eq (c : UInt8) (high : Nat) :
    thirdByte (high * 4 + c.toNat / 64) (c.toNat % 64) = c := by
  have hc := c.toNat_lt
  have hsum : (high * 4 + c.toNat / 64) % 4 * 64 + c.toNat % 64 = c.toNat := by omega
  rw [thirdByte, hsum, UInt8.ofNat_toNat]

theorem base64Decoded_encoded (bytes : List UInt8) :
    base64Decoded (base64Encoded bytes) = some bytes := by
  induction bytes using base64Encoded.induct with
  | case1 a b c rest ih =>
    have ha := a.toNat_lt
    have hb := b.toNat_lt
    have hc := c.toNat_lt
    have hlast : c.toNat % 64 < 64 := by omega
    have hthird : b.toNat % 16 * 4 + c.toNat / 64 < 64 := by omega
    rw [base64Encoded, base64Decoded, digitValue_digit _ (by omega),
      digitValue_digit _ (by omega), digitValue_digit _ hthird, digitValue_digit _ hlast, ih]
    simp only [Option.bind_some, Option.map_some, digit_ne_pad hlast, and_false, if_false]
    rw [firstByte_eq a _ (by omega), secondByte_eq b _ _ (by omega), thirdByte_eq]
  | case2 a b =>
    have ha := a.toNat_lt
    have hb := b.toNat_lt
    have hthird : b.toNat % 16 * 4 < 64 := by omega
    rw [base64Encoded, base64Decoded, digitValue_digit _ (by omega),
      digitValue_digit _ (by omega), digitValue_digit _ hthird]
    simp only [Option.bind_some, digit_ne_pad hthird, false_and, and_false, and_self, if_true,
      if_false]
    have hsecond := secondByte_eq b (a.toNat % 4) 0 (by omega)
    rw [Nat.add_zero] at hsecond
    rw [firstByte_eq a _ (by omega), hsecond]
  | case3 a =>
    have ha := a.toNat_lt
    rw [base64Encoded, base64Decoded, digitValue_digit _ (by omega),
      digitValue_digit _ (by omega)]
    have hfirst := firstByte_eq a 0 (by omega)
    rw [Nat.add_zero] at hfirst
    simp [hfirst]
  | case4 => rw [base64Encoded, base64Decoded]

def base64 : Coding (List UInt8) where
  encode bytes := .string (base64Encoded bytes)
  decode
    | .string text =>
      match base64Decoded text with
      | some bytes => .ok bytes
      | none => .error (.dataCorrupted [])
    | v => unexpected v

theorem base64_decode {v : Coded} {bytes : List UInt8} :
    base64.decode v = .ok bytes ↔ ∃ text, v = .string text ∧ base64Decoded text = some bytes := by
  cases v with
  | string text => cases h : base64Decoded text <;> simp [base64, h]
  | null | bool | number | array | object => simp [base64]

/-! ## Enumerations stored by name -/

structure RawRepresentable (α : Type) where
  allCases : List α
  rawValue : α → List Char
  complete : ∀ a, a ∈ allCases
  distinct : (allCases.map rawValue).Nodup

@[simp] theorem RawRepresentable.rawValue_inj {α : Type} (R : RawRepresentable α) {a b : α} :
    R.rawValue a = R.rawValue b ↔ a = b :=
  ⟨fun h => List.inj_on_of_nodup_map R.distinct (R.complete a) (R.complete b) h,
    fun h => h ▸ rfl⟩

def RawRepresentable.ofRawValue {α : Type} (R : RawRepresentable α) (text : List Char) :
    Option α :=
  R.allCases.find? fun a => R.rawValue a = text

theorem RawRepresentable.ofRawValue_eq_some {α : Type} (R : RawRepresentable α)
    {text : List Char} {a : α} : R.ofRawValue text = some a ↔ R.rawValue a = text := by
  constructor
  · intro h
    simpa using List.find?_some h
  · rintro rfl
    cases h : R.ofRawValue (R.rawValue a) with
    | none =>
      have := List.find?_eq_none.mp h a (R.complete a)
      simp at this
    | some b =>
      have hb : R.rawValue b = R.rawValue a := by simpa using List.find?_some h
      rw [(R.rawValue_inj).mp hb]

def raw {α : Type} (R : RawRepresentable α) : Coding α where
  encode a := .string (R.rawValue a)
  decode
    | .string text =>
      match R.ofRawValue text with
      | some a => .ok a
      | none => .error (.dataCorrupted [])
    | v => unexpected v

@[simp] theorem raw_decode {α : Type} {R : RawRepresentable α} {v : Coded} {a : α} :
    (raw R).decode v = .ok a ↔ v = .string (R.rawValue a) := by
  cases v with
  | string text =>
    have hname : (raw R).decode (.string text) = .ok a ↔ R.ofRawValue text = some a := by
      cases h : R.ofRawValue text <;> simp [raw, h]
    rw [hname, R.ofRawValue_eq_some, Coded.string.injEq, eq_comm]
  | null | bool | number | array | object => simp [raw]

/-! ## Keyed containers -/

abbrev Container := List Char → Option Coded

def Container.empty : Container := fun _ => none

def Container.encode (c : Container) (value : Coded) (forKey : List Char) : Container :=
  Function.update c forKey (some value)

def Container.decode {α : Type} (c : Container) (C : Coding α) (forKey : List Char) :
    Except DecodingError α :=
  match c forKey with
  | none => .error (.keyNotFound forKey [])
  | some v => (C.decode v).mapError (·.under forKey)

def Container.decodeIfPresent {α : Type} (c : Container) (C : Coding α) (forKey : List Char) :
    Except DecodingError (Option α) :=
  match c forKey with
  | none => .ok none
  | some .null => .ok none
  | some v => ((C.decode v).map some).mapError (·.under forKey)

def Coded.container : Coded → Except DecodingError Container
  | .object fields => .ok fields
  | v => unexpected v

@[simp] theorem Coded.container_eq_ok {v : Coded} {c : Container} :
    v.container = .ok c ↔ v = .object c := by
  cases v <;> simp [Coded.container]

theorem Container.decode_eq_ok {α : Type} {c : Container} {C : Coding α} {key : List Char}
    {a : α} : c.decode C key = .ok a ↔ ∃ v, c key = some v ∧ C.decode v = .ok a := by
  cases h : c key <;> simp [Container.decode, h, mapError_eq_ok]

/-- An absent field and a null one read as no value. -/
theorem Container.decodeIfPresent_eq_ok {α : Type} {c : Container} {C : Coding α}
    {key : List Char} (hnull : ∀ a, C.decode .null ≠ .ok a) {x : Option α} :
    c.decodeIfPresent C key = .ok x ↔
      (x = none ∧ (c key = none ∨ c key = some .null)) ∨
      ∃ v a, c key = some v ∧ C.decode v = .ok a ∧ x = some a := by
  have hmap : ∀ v, ((C.decode v).map some).mapError (DecodingError.under key) = .ok x ↔
      ∃ a, C.decode v = .ok a ∧ x = some a := by
    intro v
    cases h : C.decode v <;> simp [Except.map, Except.mapError, eq_comm]
  cases h : c key with
  | none => simp [Container.decodeIfPresent, h, eq_comm]
  | some v =>
    cases v with
    | null =>
      have hnone : ∀ a, C.decode .null = .ok a ↔ False := fun a => iff_false_intro (hnull a)
      simp [Container.decodeIfPresent, h, hnone, eq_comm (a := x)]
    | bool | number | string | array | object => simp [Container.decodeIfPresent, h, hmap]

theorem Container.encode_apply (c : Container) (value : Coded) (key key' : List Char) :
    c.encode value key key' = if key' = key then some value else c key' := by
  by_cases h : key' = key
  · rw [if_pos h, h, Container.encode, Function.update_self]
  · rw [if_neg h, Container.encode, Function.update_of_ne h]

end KeyedCoding
