import Mathlib.Data.List.Nodup
import Mathlib.Data.List.Basic
import Mathlib.Data.List.Forall2
import Mathlib.Data.Nat.Notation

/-! Texts of JSON values: a writer with a free layout, and a reader that takes
back what it wrote. -/

namespace JsonText

inductive Json
  | number (n : Nat)
  | string (s : List Char)
  | array (items : List Json)
  | object (fields : List (List Char × Json))

/-! ## Writing -/

def blank (c : Char) : Bool := c = ' ' || c = '\n' || c = '\r' || c = '\t'

/-- What a writer puts before an item at a depth, and behind a colon. -/
structure Layout where
  gap : Nat → List Char
  space : List Char
  blank_gap : ∀ n, ∀ c ∈ gap n, blank c = true
  blank_space : ∀ c ∈ space, blank c = true

def Layout.compact : Layout where
  gap _ := []
  space := []
  blank_gap := by simp
  blank_space := by simp

def Layout.indented (indent : Nat) : Layout where
  gap depth := '\n' :: List.replicate (indent * depth) ' '
  space := [' ']
  blank_gap := by simp +contextual [blank]
  blank_space := by simp [blank]

/-- The characters with an escape of their own. -/
def shortEscapes : List (Char × Char) :=
  [('"', '"'), ('\\', '\\'), ('\n', 'n'), ('\r', 'r'), ('\t', 't'), ('\x08', 'b'), ('\x0c', 'f')]

def escape (c : Char) : List Char :=
  match shortEscapes.lookup c with
  | some e => ['\\', e]
  | none =>
    if c.toNat < 0x20 then
      ['\\', 'u', '0', '0', Nat.digitChar (c.toNat / 16), Nat.digitChar (c.toNat % 16)]
    else [c]

def quote (s : List Char) : List Char := '"' :: (s.flatMap escape ++ ['"'])

/-- What follows an item of a sequence. -/
def following (L : Layout) (depth : Nat) (close : Char) : List (List Char) → List Char
  | [] => L.gap depth ++ [close]
  | t :: ts => ',' :: (L.gap (depth + 1) ++ (t ++ following L depth close ts))

def sequence (L : Layout) (depth : Nat) (close : Char) : List (List Char) → List Char
  | [] => [close]
  | t :: ts => L.gap (depth + 1) ++ (t ++ following L depth close ts)

def field (L : Layout) (name value : List Char) : List Char :=
  quote name ++ ':' :: (L.space ++ value)

mutual

def write (L : Layout) (depth : Nat) : Json → List Char
  | .number n => Nat.toDigits 10 n
  | .string s => quote s
  | .array items => '[' :: sequence L depth ']' (writeItems L (depth + 1) items)
  | .object fields => '{' :: sequence L depth '}' (writeFields L (depth + 1) fields)

def writeItems (L : Layout) (depth : Nat) : List Json → List (List Char)
  | [] => []
  | x :: xs => write L depth x :: writeItems L depth xs

def writeFields (L : Layout) (depth : Nat) : List (List Char × Json) → List (List Char)
  | [] => []
  | (name, x) :: xs => field L name (write L depth x) :: writeFields L depth xs

end

def dumps (L : Layout) (v : Json) : List Char := write L 0 v

/-! ## Reading -/

abbrev Reader (α : Type) := List Char → Option (α × List Char)

def skip (cs : List Char) : List Char := cs.dropWhile blank

def unescape (e : Char) : Option Char :=
  (('/', '/') :: shortEscapes.map Prod.swap).lookup e

def hexValue (c : Char) : Option Nat :=
  if c.isDigit then some (c.toNat - 0x30)
  else if 0x61 ≤ c.toNat ∧ c.toNat ≤ 0x66 then some (c.toNat - 0x61 + 10)
  else if 0x41 ≤ c.toNat ∧ c.toNat ≤ 0x46 then some (c.toNat - 0x41 + 10)
  else none

/-- The character of a code unit that is not one of a surrogate pair. -/
def ofCodeUnit (n : Nat) : Option Char := if n.isValidChar then some (Char.ofNat n) else none

def readCodeUnit : Reader Char
  | a :: b :: c :: d :: cs => do
    let a ← hexValue a
    let b ← hexValue b
    let c ← hexValue c
    let d ← hexValue d
    let x ← ofCodeUnit (((a * 16 + b) * 16 + c) * 16 + d)
    return (x, cs)
  | _ => none

def readEscape : Reader Char
  | [] => none
  | e :: cs => if e = 'u' then readCodeUnit cs else (unescape e).map fun x => (x, cs)

def readChar : Reader Char
  | [] => none
  | c :: cs =>
    if c = '\\' then readEscape cs else if c.toNat < 0x20 then none else some (c, cs)

/-- What stands before the closing quote. -/
def readString : Nat → Reader (List Char)
  | 0, _ => none
  | _ + 1, [] => none
  | n + 1, c :: cs =>
    if c = '"' then some ([], cs)
    else do
      let (x, cs) ← readChar (c :: cs)
      let (xs, cs) ← readString n cs
      return (x :: xs, cs)

def readFollowing {α : Type} (item : Reader α) (close : Char) : Nat → Reader (List α)
  | 0, _ => none
  | n + 1, cs =>
    match skip cs with
    | [] => none
    | c :: cs =>
      if c = close then some ([], cs)
      else if c = ',' then do
        let (x, cs) ← item cs
        let (xs, cs) ← readFollowing item close n cs
        return (x :: xs, cs)
      else none

def readSequence {α : Type} (item : Reader α) (close : Char) (n : Nat) : Reader (List α) :=
  fun cs =>
    match skip cs with
    | [] => none
    | c :: cs' =>
      if c = close then some ([], cs')
      else do
        let (x, cs) ← item cs
        let (xs, cs) ← readFollowing item close n cs
        return (x :: xs, cs)

def readField {α : Type} (value : Reader α) (n : Nat) : Reader (List Char × α) :=
  fun cs =>
    match skip cs with
    | [] => none
    | c :: cs =>
      if c = '"' then do
        let (name, cs) ← readString n cs
        match skip cs with
        | [] => none
        | c :: cs =>
          if c = ':' then do
            let (x, cs) ← value cs
            return ((name, x), cs)
          else none
      else none

/-- A numeral has no zero before it. -/
def readNumber (c : Char) (cs : List Char) : Nat × List Char :=
  if c = '0' then (0, cs)
  else (Nat.ofDigitChars 10 ((c :: cs).takeWhile Char.isDigit) 0, (c :: cs).dropWhile Char.isDigit)

def readValue : Nat → Reader Json
  | 0, _ => none
  | n + 1, cs =>
    match skip cs with
    | [] => none
    | c :: cs =>
      if c = '"' then (readString n cs).map fun r => (.string r.1, r.2)
      else if c = '[' then
        (readSequence (readValue n) ']' n cs).map fun r => (.array r.1, r.2)
      else if c = '{' then
        (readSequence (readField (readValue n) n) '}' n cs).map fun r => (.object r.1, r.2)
      else if c.isDigit then some (.number (readNumber c cs).1, (readNumber c cs).2)
      else none

def loads (cs : List Char) : Option Json :=
  match readValue (cs.length + 1) cs with
  | some (v, cs) => if skip cs = [] then some v else none
  | none => none

/-! ## Reading back what was written -/

theorem skip_blank {b r : List Char} (hb : ∀ c ∈ b, blank c = true) : skip (b ++ r) = skip r := by
  induction b with
  | nil => rfl
  | cons c b ih =>
    have hc := hb c List.mem_cons_self
    have := ih fun c h => hb c (List.mem_cons_of_mem _ h)
    simpa [skip, hc] using this

theorem skip_cons {c : Char} {r : List Char} (hc : blank c = false) : skip (c :: r) = c :: r := by
  simp [skip, hc]

/-- A numeral ends here. -/
def Closed (r : List Char) : Prop := ∀ c ∈ r.head?, c.isDigit = false

theorem closed_cons {c : Char} {r : List Char} : Closed (c :: r) ↔ c.isDigit = false := by
  simp [Closed]

theorem not_digit_of_blank {c : Char} (h : blank c = true) : c.isDigit = false := by
  have hc : c = ' ' ∨ c = '\n' ∨ c = '\r' ∨ c = '\t' := by
    simpa [blank, or_assoc] using h
  rcases hc with rfl | rfl | rfl | rfl <;> decide

theorem closed_gap {L : Layout} {depth : Nat} {c : Char} {r : List Char} (hc : c.isDigit = false) :
    Closed (L.gap depth ++ c :: r) := by
  have hblank := L.blank_gap depth
  cases hg : L.gap depth with
  | nil => exact closed_cons.mpr hc
  | cons g gs =>
    rw [hg] at hblank
    exact closed_cons.mpr (not_digit_of_blank (hblank g List.mem_cons_self))

theorem unescape_of_lookup {c e : Char} (h : shortEscapes.lookup c = some e) :
    unescape e = some c ∧ e ≠ 'u' := by
  have hall : ∀ p ∈ shortEscapes, unescape p.2 = some p.1 ∧ p.2 ≠ 'u' := by decide
  obtain ⟨l, r, hl, -⟩ := List.lookup_eq_some_iff.mp h
  exact hall (c, e) (by simp [hl])

theorem hexValue_digitChar {n : Nat} (h : n < 16) : hexValue (Nat.digitChar n) = some n := by
  have hall : ∀ n < 16, hexValue (Nat.digitChar n) = some n := by decide
  exact hall n h

theorem ofCodeUnit_toNat (c : Char) : ofCodeUnit c.toNat = some c := by
  have hvalid : c.toNat.isValidChar := c.valid
  rw [ofCodeUnit, if_pos hvalid, Char.ofNat_toNat]

theorem readCodeUnit_escape {c : Char} (h : c.toNat < 0x20) (r : List Char) :
    readCodeUnit ('0' :: '0' :: Nat.digitChar (c.toNat / 16) :: Nat.digitChar (c.toNat % 16) :: r) =
      some (c, r) := by
  have hzero : hexValue '0' = some 0 := by decide
  have hhigh := hexValue_digitChar (n := c.toNat / 16) (by omega)
  have hlow := hexValue_digitChar (n := c.toNat % 16) (by omega)
  have hvalue : ((0 * 16 + 0) * 16 + c.toNat / 16) * 16 + c.toNat % 16 = c.toNat := by omega
  simp only [readCodeUnit, hzero, hhigh, hlow, Option.bind_eq_bind, Option.bind_some, hvalue,
    ofCodeUnit_toNat, Option.pure_def]

theorem readChar_escape (c : Char) (r : List Char) : readChar (escape c ++ r) = some (c, r) := by
  cases hlookup : shortEscapes.lookup c with
  | some e =>
    obtain ⟨hback, hu⟩ := unescape_of_lookup hlookup
    simp [escape, hlookup, readChar, readEscape, hu, hback]
  | none =>
    by_cases hcontrol : c.toNat < 0x20
    · simp [escape, hlookup, hcontrol, readChar, readEscape, readCodeUnit_escape hcontrol]
    · have hslash : c ≠ '\\' := by
        rintro rfl
        exact absurd hlookup (by decide)
      simp [escape, hlookup, hcontrol, readChar, hslash]

theorem escape_head (c : Char) : ∃ d ds, escape c = d :: ds ∧ d ≠ '"' := by
  cases hlookup : shortEscapes.lookup c with
  | some e => exact ⟨'\\', [e], by simp [escape, hlookup], by decide⟩
  | none =>
    by_cases hcontrol : c.toNat < 0x20
    · exact ⟨'\\', _, by simp [escape, hlookup, hcontrol]; rfl, by decide⟩
    · refine ⟨c, [], by simp [escape, hlookup, hcontrol], ?_⟩
      rintro rfl
      exact absurd hlookup (by decide)

theorem readString_escape (n : Nat) (c : Char) (r : List Char) :
    readString (n + 1) (escape c ++ r) = (readString n r).map fun s => (c :: s.1, s.2) := by
  obtain ⟨d, ds, hd, hne⟩ := escape_head c
  have hchar := readChar_escape c r
  rw [hd, List.cons_append] at hchar
  rw [hd, List.cons_append, readString, if_neg hne, hchar]
  cases hs : readString n r <;> simp [hs]

theorem readString_flatMap {s r : List Char} {n : Nat} (hn : (s.flatMap escape).length < n) :
    readString n (s.flatMap escape ++ '"' :: r) = some (s, r) := by
  induction s generalizing n with
  | nil =>
    cases n with
    | zero => exact absurd hn (Nat.not_lt_zero _)
    | succ n => simp [readString]
  | cons c s ih =>
    obtain ⟨d, ds, hd, -⟩ := escape_head c
    have hlength : (escape c).length = ds.length + 1 := by simp [hd]
    rw [List.flatMap_cons, List.length_append] at hn
    cases n with
    | zero => exact absurd hn (Nat.not_lt_zero _)
    | succ n =>
      rw [List.flatMap_cons, List.append_assoc, readString_escape, ih (by omega)]
      rfl

theorem toDigits_head {n : Nat} (hn : 0 < n) :
    ∃ c cs, Nat.toDigits 10 n = c :: cs ∧ c ≠ '0' := by
  induction n using Nat.strongRecOn with
  | ind n ih =>
    rw [Nat.toDigits_eq_if (by decide)]
    by_cases hlt : n < 10
    · have hall : ∀ m < 10, 0 < m → Nat.digitChar m ≠ '0' := by decide
      exact ⟨Nat.digitChar n, [], by rw [if_pos hlt], hall n hlt hn⟩
    · obtain ⟨c, cs, hcs, hc⟩ := ih (n / 10) (by omega) (by omega)
      exact ⟨c, cs ++ [Nat.digitChar (n % 10)], by rw [if_neg hlt, hcs]; rfl, hc⟩

theorem toDigits_isDigit {n : Nat} {c : Char} (h : c ∈ Nat.toDigits 10 n) : c.isDigit = true :=
  Nat.isDigit_of_mem_toDigits (by decide) (by decide) h

theorem span_digits {ds r : List Char} (hds : ∀ c ∈ ds, c.isDigit = true) (hr : Closed r) :
    (ds ++ r).takeWhile Char.isDigit = ds ∧ (ds ++ r).dropWhile Char.isDigit = r := by
  rw [List.takeWhile_append_of_pos hds, List.dropWhile_append_of_pos hds]
  cases r with
  | nil => simp
  | cons c r => simp [closed_cons.mp hr]

theorem readNumber_toDigits (n : Nat) {r : List Char} (hr : Closed r) :
    ∃ c cs, Nat.toDigits 10 n ++ r = c :: cs ∧ c.isDigit = true ∧ readNumber c cs = (n, r) := by
  rcases Nat.eq_zero_or_pos n with rfl | hn
  · exact ⟨'0', r, rfl, by decide, rfl⟩
  · obtain ⟨c, cs, hcs, hc⟩ := toDigits_head hn
    have hspan := span_digits (fun c h => toDigits_isDigit (n := n) h) hr
    rw [hcs] at hspan
    refine ⟨c, cs ++ r, by rw [hcs]; rfl, toDigits_isDigit (n := n) (by simp [hcs]), ?_⟩
    rw [readNumber, if_neg hc, ← List.cons_append, hspan.1, hspan.2, ← hcs,
      Nat.ofDigitChars_ten_toDigits]

/-- The item of a sequence that is written so. -/
def Takes {α : Type} (item : Reader α) (t : List Char) (x : α) : Prop :=
  ∀ b r, (∀ c ∈ b, blank c = true) → Closed r → item (b ++ (t ++ r)) = some (x, r)

/-- What closes a sequence. -/
structure Closing (close : Char) : Prop where
  blank : blank close = false
  digit : close.isDigit = false
  comma : close ≠ ','

section

variable {α : Type} {item : Reader α} {L : Layout} {depth : Nat} {close : Char}
  {ts : List (List Char)} {xs : List α}

theorem closed_following (hclose : Closing close) (r : List Char) :
    Closed (following L depth close ts ++ r) := by
  cases ts with
  | nil =>
    rw [following, List.append_assoc]
    exact closed_gap hclose.digit
  | cons t ts => exact closed_cons.mpr (by decide)

variable (L depth) in
theorem readFollowing_following (hclose : Closing close) (h : List.Forall₂ (Takes item) ts xs)
    {n : Nat} (hn : ts.length < n) (r : List Char) :
    readFollowing item close n (following L depth close ts ++ r) = some (xs, r) := by
  induction h generalizing n with
  | nil =>
    cases n with
    | zero => exact absurd hn (Nat.not_lt_zero _)
    | succ n =>
      have hskip : skip (following L depth close [] ++ r) = close :: r := by
        rw [following, List.append_assoc, skip_blank (L.blank_gap depth)]
        exact skip_cons hclose.blank
      simp [readFollowing, hskip]
  | @cons t x ts xs hx _ ih =>
    cases n with
    | zero => exact absurd hn (Nat.not_lt_zero _)
    | succ n =>
      have htail := ih (n := n) (by simpa using hn)
      have hitem := hx (L.gap (depth + 1)) (following L depth close ts ++ r)
        (L.blank_gap _) (closed_following hclose r)
      have hskip : skip (following L depth close (t :: ts) ++ r) =
          ',' :: (L.gap (depth + 1) ++ (t ++ (following L depth close ts ++ r))) := by
        simp [following, skip, blank]
      simp [readFollowing, hskip, hclose.comma.symm, hitem, htail]

variable (L depth) in
theorem readSequence_sequence (hclose : Closing close) (h : List.Forall₂ (Takes item) ts xs)
    (hstart : ∀ t ∈ ts, ∀ r, ∃ c cs, skip (t ++ r) = c :: cs ∧ c ≠ close)
    {n : Nat} (hn : ts.length < n + 1) (r : List Char) :
    readSequence item close n (sequence L depth close ts ++ r) = some (xs, r) := by
  cases h with
  | nil => simp [readSequence, sequence, skip_cons hclose.blank]
  | @cons t x ts xs hx hxs =>
    obtain ⟨c, cs, hskip, hc⟩ := hstart t List.mem_cons_self (following L depth close ts ++ r)
    have hitem := hx (L.gap (depth + 1)) (following L depth close ts ++ r) (L.blank_gap _)
      (closed_following hclose r)
    have htail := readFollowing_following L depth hclose hxs (n := n) (by simpa using hn) r
    have htext : sequence L depth close (t :: ts) ++ r =
        L.gap (depth + 1) ++ (t ++ (following L depth close ts ++ r)) := by
      simp [sequence]
    rw [htext, readSequence, skip_blank (L.blank_gap _), hskip]
    simp [hc, hitem, htail]

end

theorem takes_readField {value : Reader Json} {L : Layout} {name t : List Char} {v : Json} {n : Nat}
    (hv : Takes value t v) (hn : (field L name t).length ≤ n) :
    Takes (readField value n) (field L name t) (name, v) := by
  intro b r hb hr
  have hname : (name.flatMap escape).length < n := by
    simp only [field, quote, List.length_append, List.length_cons] at hn
    omega
  have hskip : skip (b ++ (field L name t ++ r)) =
      '"' :: (name.flatMap escape ++ '"' :: ':' :: (L.space ++ (t ++ r))) := by
    rw [skip_blank hb]
    simp [field, quote, skip, blank]
  have hcolon : skip (':' :: (L.space ++ (t ++ r))) = ':' :: (L.space ++ (t ++ r)) :=
    skip_cons (by decide)
  simp [readField, hskip, readString_flatMap hname, hcolon, hv L.space r L.blank_space hr]

theorem length_le_following (L : Layout) (depth : Nat) (close : Char) (ts : List (List Char)) :
    ts.length < (following L depth close ts).length ∧
      ∀ t ∈ ts, t.length < (following L depth close ts).length := by
  induction ts with
  | nil => simp [following]
  | cons t ts ih =>
    simp only [following, List.length_cons, List.length_append, List.mem_cons]
    refine ⟨by omega, ?_⟩
    rintro t' (rfl | ht')
    · omega
    · have := ih.2 t' ht'
      omega

theorem length_le_sequence (L : Layout) (depth : Nat) (close : Char) (ts : List (List Char)) :
    ts.length ≤ (sequence L depth close ts).length ∧
      ∀ t ∈ ts, t.length ≤ (sequence L depth close ts).length := by
  cases ts with
  | nil => simp [sequence]
  | cons t ts =>
    have htail := length_le_following L depth close ts
    simp only [sequence, List.length_cons, List.length_append, List.mem_cons]
    refine ⟨by omega, ?_⟩
    rintro t' (rfl | ht')
    · omega
    · have := htail.2 t' ht'
      omega

theorem write_head (L : Layout) (depth : Nat) (v : Json) :
    ∃ c cs, write L depth v = c :: cs ∧ blank c = false ∧ c ≠ ']' ∧ c ≠ '}' := by
  cases v with
  | number n =>
    have hne : Nat.toDigits 10 n ≠ [] := Nat.toDigits_ne_nil
    obtain ⟨c, cs, hcs⟩ := List.exists_cons_of_ne_nil hne
    have hdigit : c.isDigit = true := toDigits_isDigit (n := n) (by simp [hcs])
    refine ⟨c, cs, hcs, ?_, ?_, ?_⟩
    · by_contra hblank
      rw [not_digit_of_blank (Bool.of_not_eq_false hblank)] at hdigit
      exact Bool.false_ne_true hdigit
    · rintro rfl
      exact absurd hdigit (by decide)
    · rintro rfl
      exact absurd hdigit (by decide)
  | string s => exact ⟨'"', _, rfl, by decide, by decide, by decide⟩
  | array items => exact ⟨'[', _, by rw [write], by decide, by decide, by decide⟩
  | object fields => exact ⟨'{', _, by rw [write], by decide, by decide, by decide⟩

theorem mem_writeItems {L : Layout} {depth : Nat} {items : List Json} {t : List Char} :
    t ∈ writeItems L depth items ↔ ∃ v ∈ items, write L depth v = t := by
  induction items with
  | nil => simp [writeItems]
  | cons v items ih => simp [writeItems, ih, eq_comm]

theorem mem_writeFields {L : Layout} {depth : Nat} {fields : List (List Char × Json)}
    {t : List Char} :
    t ∈ writeFields L depth fields ↔ ∃ f ∈ fields, field L f.1 (write L depth f.2) = t := by
  induction fields with
  | nil => simp [writeFields]
  | cons f fields ih =>
    obtain ⟨name, v⟩ := f
    simp [writeFields, ih, eq_comm]

theorem closing_bracket : Closing ']' := ⟨by decide, by decide, by decide⟩

theorem closing_brace : Closing '}' := ⟨by decide, by decide, by decide⟩

mutual

theorem takes_write (L : Layout) (depth n : Nat) (v : Json)
    (hn : (write L depth v).length < n) : Takes (readValue n) (write L depth v) v := by
  intro b r hb hr
  obtain ⟨n, rfl⟩ : ∃ m, n = m + 1 := ⟨n - 1, by omega⟩
  match v with
  | .number k =>
    obtain ⟨c, cs, hcs, hdigit, hnumber⟩ := readNumber_toDigits k hr
    have hblank : blank c = false := by
      by_contra hblank
      rw [not_digit_of_blank (Bool.of_not_eq_false hblank)] at hdigit
      exact Bool.false_ne_true hdigit
    have hquote : c ≠ '"' := by
      rintro rfl
      exact absurd hdigit (by decide)
    have hbracket : c ≠ '[' := by
      rintro rfl
      exact absurd hdigit (by decide)
    have hbrace : c ≠ '{' := by
      rintro rfl
      exact absurd hdigit (by decide)
    rw [write, hcs, readValue, skip_blank hb, skip_cons hblank]
    simp [hquote, hbracket, hbrace, hdigit, hnumber]
  | .string s =>
    have hs : (s.flatMap escape).length < n := by
      simp only [write, quote, List.length_cons, List.length_append] at hn
      omega
    have hskip : skip (b ++ (write L depth (.string s) ++ r)) =
        '"' :: (s.flatMap escape ++ '"' :: r) := by
      rw [skip_blank hb]
      simp [write, quote, skip, blank]
    rw [readValue, hskip]
    simp [readString_flatMap hs]
  | .array items =>
    have hlength := length_le_sequence L depth ']' (writeItems L (depth + 1) items)
    rw [write, List.length_cons] at hn
    have hitems := takes_writeItems L (depth + 1) n items fun t ht => by
      have := hlength.2 t ht
      omega
    have hskip : skip (b ++ (write L depth (.array items) ++ r)) =
        '[' :: (sequence L depth ']' (writeItems L (depth + 1) items) ++ r) := by
      rw [skip_blank hb, write]
      exact skip_cons (by decide)
    have hstart : ∀ t ∈ writeItems L (depth + 1) items, ∀ r, ∃ c cs,
        skip (t ++ r) = c :: cs ∧ c ≠ ']' := by
      intro t ht r
      obtain ⟨v, -, rfl⟩ := mem_writeItems.mp ht
      obtain ⟨c, cs, hcs, hblank, hbracket, -⟩ := write_head L (depth + 1) v
      exact ⟨c, cs ++ r, by rw [hcs]; exact skip_cons hblank, hbracket⟩
    have hread := readSequence_sequence L depth closing_bracket hitems hstart
      (n := n) (by omega) r
    rw [readValue, hskip]
    simp [hread]
  | .object fields =>
    have hlength := length_le_sequence L depth '}' (writeFields L (depth + 1) fields)
    rw [write, List.length_cons] at hn
    have hfields := takes_writeFields L (depth + 1) n fields fun t ht => by
      have := hlength.2 t ht
      omega
    have hskip : skip (b ++ (write L depth (.object fields) ++ r)) =
        '{' :: (sequence L depth '}' (writeFields L (depth + 1) fields) ++ r) := by
      rw [skip_blank hb, write]
      exact skip_cons (by decide)
    have hstart : ∀ t ∈ writeFields L (depth + 1) fields, ∀ r, ∃ c cs,
        skip (t ++ r) = c :: cs ∧ c ≠ '}' := by
      intro t ht r
      obtain ⟨f, -, rfl⟩ := mem_writeFields.mp ht
      exact ⟨'"', _, by rw [field, quote]; exact skip_cons (by decide), by decide⟩
    have hread := readSequence_sequence L depth closing_brace hfields hstart
      (n := n) (by omega) r
    rw [readValue, hskip]
    simp [hread]

theorem takes_writeItems (L : Layout) (depth n : Nat) (items : List Json)
    (hn : ∀ t ∈ writeItems L depth items, t.length < n) :
    List.Forall₂ (Takes (readValue n)) (writeItems L depth items) items := by
  match items with
  | [] => exact .nil
  | v :: items =>
    rw [writeItems] at hn ⊢
    exact .cons (takes_write L depth n v (hn _ List.mem_cons_self))
      (takes_writeItems L depth n items fun t ht => hn t (List.mem_cons_of_mem _ ht))

theorem takes_writeFields (L : Layout) (depth n : Nat) (fields : List (List Char × Json))
    (hn : ∀ t ∈ writeFields L depth fields, t.length < n) :
    List.Forall₂ (Takes (readField (readValue n) n)) (writeFields L depth fields) fields := by
  match fields with
  | [] => exact .nil
  | (name, v) :: fields =>
    rw [writeFields] at hn ⊢
    have hfield := hn _ List.mem_cons_self
    have hvalue : (write L depth v).length < n := by
      simp only [field, List.length_append, List.length_cons] at hfield
      omega
    exact .cons (takes_readField (takes_write L depth n v hvalue) (by omega))
      (takes_writeFields L depth n fields fun t ht => hn t (List.mem_cons_of_mem _ ht))

end

theorem loads_dumps_append (L : Layout) (v : Json) {e : List Char}
    (he : ∀ c ∈ e, blank c = true) : loads (dumps L v ++ e) = some v := by
  have hclosed : Closed e := fun c hc => not_digit_of_blank (he c (List.mem_of_mem_head? hc))
  have hread := takes_write L 0 ((dumps L v ++ e).length + 1) v
    (by rw [List.length_append, dumps]; omega) [] e (by simp) hclosed
  have hread : readValue ((dumps L v ++ e).length + 1) (dumps L v ++ e) = some (v, e) := by
    simpa [dumps] using hread
  have hskip : skip e = [] := by
    have := skip_blank (r := []) he
    rwa [List.append_nil] at this
  rw [loads, hread]
  exact if_pos hskip

theorem loads_dumps (L : Layout) (v : Json) : loads (dumps L v) = some v := by
  have h := loads_dumps_append L v (e := []) (by simp)
  rwa [List.append_nil] at h

end JsonText
