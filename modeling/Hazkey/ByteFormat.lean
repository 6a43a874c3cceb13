import Mathlib.Data.Nat.Digits.Lemmas
import Mathlib.Data.List.Basic

/-! Self-delimiting byte formats. A format writes a value and reads one back from
the front of its input; what follows the value is left over. -/

namespace ByteFormat

structure Format (α : Type) where
  write : α → List UInt8
  read : List UInt8 → Option (α × List UInt8)
  read_write : ∀ a rest, read (write a ++ rest) = some (a, rest)

variable {α β : Type}

namespace Format

/-- Reads a value that takes the whole input. -/
def decode (f : Format α) (bytes : List UInt8) : Option α :=
  (f.read bytes).bind fun (a, rest) => if rest = [] then some a else none

theorem decode_write (f : Format α) (a : α) : f.decode (f.write a) = some a := by
  have h := f.read_write a []
  rw [List.append_nil] at h
  simp [decode, h]

/-- Two writings are equal only when the values are. -/
theorem write_injective (f : Format α) : Function.Injective f.write := by
  intro a b h
  have ha := f.decode_write a
  rw [h, f.decode_write b] at ha
  exact (Option.some.inj ha).symm

def byte : Format UInt8 where
  write b := [b]
  read
    | [] => none
    | b :: rest => some (b, rest)
  read_write _ _ := rfl

def pair (f : Format α) (g : Format β) : Format (α × β) where
  write x := f.write x.1 ++ g.write x.2
  read bytes := (f.read bytes).bind fun (a, rest) =>
    (g.read rest).map fun (b, rest) => ((a, b), rest)
  read_write x rest := by simp [List.append_assoc, f.read_write, g.read_write]

/-- A format of values that are seen as values of another format. -/
def refine (f : Format α) (view : β → α) (build : α → Option β)
    (h : ∀ b, build (view b) = some b) : Format β where
  write b := f.write (view b)
  read bytes := (f.read bytes).bind fun (a, rest) => (build a).map fun b => (b, rest)
  read_write b rest := by simp [f.read_write, h]

/-! Lists, each element after a byte that says it is there. -/

def writeList (f : Format α) : List α → List UInt8
  | [] => [0]
  | a :: as => 1 :: (f.write a ++ f.writeList as)

def readList (f : Format α) : Nat → List UInt8 → Option (List α × List UInt8)
  | 0, _ => none
  | _ + 1, [] => none
  | fuel + 1, mark :: bytes =>
    if mark = 0 then some ([], bytes)
    else (f.read bytes).bind fun (a, rest) =>
      (f.readList fuel rest).map fun (as, rest) => (a :: as, rest)

theorem readList_writeList (f : Format α) (as : List α) (rest : List UInt8) {fuel : Nat}
    (h : as.length < fuel) : f.readList fuel (f.writeList as ++ rest) = some (as, rest) := by
  induction as generalizing fuel with
  | nil =>
    obtain ⟨fuel, rfl⟩ := Nat.exists_eq_succ_of_ne_zero (Nat.ne_of_gt h)
    rfl
  | cons a as ih =>
    obtain ⟨fuel, rfl⟩ := Nat.exists_eq_succ_of_ne_zero (Nat.ne_of_gt (Nat.zero_lt_of_lt h))
    have hlt : as.length < fuel := Nat.lt_of_succ_lt_succ h
    simp [writeList, readList, List.append_assoc, f.read_write, ih hlt]

theorem length_writeList (f : Format α) (as : List α) : as.length < (f.writeList as).length := by
  induction as with
  | nil => exact Nat.one_pos
  | cons a as ih =>
    simp only [writeList, List.length_cons, List.length_append]
    omega

def list (f : Format α) : Format (List α) where
  write := f.writeList
  read bytes := f.readList (bytes.length + 1) bytes
  read_write as rest := by
    refine f.readList_writeList as rest ?_
    have hlen := f.length_writeList as
    rw [List.length_append]
    omega

def option (f : Format α) : Format (Option α) :=
  f.list.refine Option.toList
    (fun
      | [] => some none
      | [a] => some (some a)
      | _ => none)
    (by intro b; cases b <;> rfl)

/-! Numbers and what is counted by them. -/

/-- Base 256, the least significant byte first. -/
def nat : Format Nat :=
  byte.list.refine (fun n => (Nat.digits 256 n).map UInt8.ofNat)
    (fun bytes => some (Nat.ofDigits 256 (bytes.map UInt8.toNat)))
    (by
      intro n
      have hbyte : ∀ d ∈ Nat.digits 256 n, (UInt8.ofNat d).toNat = d := fun d hd =>
        UInt8.toNat_ofNat_of_lt' (Nat.digits_lt_base (by decide) hd)
      have hmap : ((Nat.digits 256 n).map UInt8.ofNat).map UInt8.toNat = Nat.digits 256 n := by
        rw [List.map_map]
        exact (List.map_congr_left hbyte).trans (List.map_id' _)
      rw [hmap, Nat.ofDigits_digits])

def bool : Format Bool := nat.refine Bool.toNat (fun n => some (n == 1))
  (by intro b; cases b <;> rfl)

def int : Format Int :=
  (bool.pair nat).refine (fun n => (decide (n < 0), n.natAbs))
    (fun x => some (if x.1 then -(x.2 : Int) else x.2))
    (by
      intro n
      by_cases h : n < 0
      · simp only [h, decide_true, if_true, Option.some.injEq]
        omega
      · simp only [h, decide_false, Bool.false_eq_true, if_false, Option.some.injEq]
        omega)

def char : Format Char :=
  nat.refine Char.toNat (fun n => if n.isValidChar then some (Char.ofNat n) else none)
    (by
      intro c
      have hvalid : c.toNat.isValidChar := c.valid
      simp [hvalid])

def uint32 : Format UInt32 := nat.refine UInt32.toNat (fun n => some (.ofNat n)) (by simp)

def uint64 : Format UInt64 := nat.refine UInt64.toNat (fun n => some (.ofNat n)) (by simp)

/-- A value of a finite type is written as its place in a list of all of them. -/
def enum [DecidableEq α] (all : List α) (h : ∀ a, a ∈ all) : Format α :=
  nat.refine all.idxOf (fun n => all[n]?) (by
    intro a
    have hlt : all.idxOf a < all.length := List.idxOf_lt_length_iff.mpr (h a)
    rw [List.getElem?_eq_getElem hlt, List.getElem_idxOf])

end Format

end ByteFormat
