import Hazkey.ElfRuntime

/-! Single reads of an ELF file: what they find, and that they stay inside. -/

namespace Hazkey.BundleVerification

open TracedRuns Traced

-- Of the bytes of a list, not of all bytes.
attribute [local instance (1100)] List.decidableBAll

def Event.InBounds : Event → Prop
  | .read available offset size => offset + size ≤ available
  | .inspect _ => True

def Event.inspected : Event → Option ℕ
  | .read _ _ _ => none
  | .inspect offset => some offset

def Failure.IsBundle (failure : Failure) : Prop := ∃ message, failure = .bundle message

/-- A read that stays inside of what it reads from. -/
def Event.Quiet (event : Event) : Prop := event.InBounds ∧ event.inspected = none

abbrev Reads {α : Type} (x : Run α) : Prop := Traced.Sound Event.Quiet Failure.IsBundle x

section

variable {data table : Data} {width offset size index : ℕ} {name description message : String}

@[simp] theorem expect_eq_ok {p : Prop} [Decidable p] {u : Unit} :
    (expect p message).result = .ok u ↔ p := by
  by_cases hp : p
  · simp [expect, hp, pure_eq_ok]
  · simp [expect, hp, fail_ne_ok]

@[simp] theorem readSlice_eq_ok {found : Data} :
    (readSlice data offset size).result = .ok found ↔ found = slice data offset size := by
  simp [readSlice, bind_eq_ok, note_eq_ok, pure_eq_ok]

@[simp] theorem byteAt_eq_ok {value : ℕ} :
    (byteAt data index).result = .ok value ↔ index < data.length ∧ value = field 1 data index := by
  by_cases h : index < data.length
  · simp [byteAt, bind_eq_ok, note_eq_ok, pure_eq_ok, h]
  · simp [byteAt, bind_eq_ok, note_eq_ok, fail_ne_ok, h]

@[simp] theorem unpack_eq_ok {value : ℕ} : (unpack width data offset).result = .ok value ↔
    offset + width ≤ data.length ∧ value = field width data offset := by
  by_cases h : offset + width ≤ data.length
  · simp [unpack, bind_eq_ok, note_eq_ok, pure_eq_ok, h]
  · simp [unpack, bind_eq_ok, note_eq_ok, fail_ne_ok, h]

@[simp] theorem sliceElf_eq_ok {found : Data} :
    (sliceElf data offset size name description).result = .ok found ↔
      offset + size ≤ data.length ∧ found = slice data offset size := by
  simp only [sliceElf, bind_eq_ok, expect_eq_ok, readSlice_eq_ok, exists_const]
  exact and_congr_left fun _ => by omega

def asciiText (data : Data) : Text := data.map fun byte => Char.ofNat byte.toNat

@[simp] theorem decodeAscii_eq_ok {text : Text} : (decodeAscii data message).result = .ok text ↔
    (∀ byte ∈ data, byte.toNat < 0x80) ∧ text = asciiText data := by
  simp only [decodeAscii, bind_eq_ok, expect_eq_ok, pure_eq_ok, exists_const, asciiText]

/-- A string of a table, up to the first zero byte. -/
def IsString (table : Data) (offset : ℕ) (text : Text) : Prop :=
  ∃ bytes rest, table.drop offset = bytes ++ 0 :: rest ∧
    (∀ byte ∈ bytes, byte ≠ 0 ∧ byte.toNat < 0x80) ∧ text = asciiText bytes

theorem slice_length (h : offset + size ≤ data.length) : (slice data offset size).length = size := by
  simp only [slice, List.length_take, List.length_drop]
  omega

theorem slice_rest : slice data offset (data.length - offset) = data.drop offset := by
  rw [slice, List.take_of_length_le (by simp)]

/-- A number in a slice is the number in the file. -/
theorem field_slice {k : ℕ} (hk : k + width ≤ size) :
    field width (slice data offset size) k = field width data (offset + k) := by
  rw [field, field, slice, List.drop_take, List.take_take, List.drop_drop,
    Nat.min_eq_left (by omega)]

theorem elfString_eq_ok {text : Text} :
    (elfString table offset name description).result = .ok text ↔ IsString table offset text := by
  simp only [elfString, bind_eq_ok, expect_eq_ok, readSlice_eq_ok, decodeAscii_eq_ok, exists_const,
    slice_rest, exists_eq_left]
  constructor
  · rintro ⟨-, hzero, hascii, rfl⟩
    obtain ⟨bytes, rest, hsplit, hbytes⟩ := List.eq_append_cons_of_mem hzero
    have hslice : slice table offset ((table.drop offset).idxOf 0) = bytes := by
      rw [slice, hsplit, List.idxOf_append_of_notMem hbytes, List.idxOf_cons_self, Nat.add_zero,
        List.take_left]
    rw [hslice] at hascii ⊢
    exact ⟨bytes, rest, hsplit, fun byte hbyte => ⟨ne_of_mem_of_not_mem hbyte hbytes,
      hascii byte hbyte⟩, rfl⟩
  · rintro ⟨bytes, rest, hsplit, hbytes, rfl⟩
    have hzero : (0 : UInt8) ∉ bytes := fun hmem => (hbytes 0 hmem).1 rfl
    have hslice : slice table offset ((table.drop offset).idxOf 0) = bytes := by
      rw [slice, hsplit, List.idxOf_append_of_notMem hzero, List.idxOf_cons_self, Nat.add_zero,
        List.take_left]
    have hlength := congrArg List.length hsplit
    simp only [List.length_drop, List.length_append, List.length_cons] at hlength
    rw [hslice, hsplit]
    exact ⟨by omega, by simp, fun byte hbyte => (hbytes byte hbyte).2, rfl⟩

/-! No read leaves what it reads from. -/

theorem expect_reads {p : Prop} [Decidable p] : Reads (expect p message) := by
  by_cases hp : p
  · rw [expect, if_pos hp]
    exact .pure ()
  · rw [expect, if_neg hp]
    exact .fail ⟨message, rfl⟩

theorem note_reads (h : offset + size ≤ data.length) :
    Reads (note (.read data.length offset size)) := .note ⟨h, rfl⟩

theorem readSlice_reads (h : offset + size ≤ data.length) : Reads (readSlice data offset size) :=
  (note_reads h).bind fun _ _ => .pure _

theorem byteAt_reads (h : index < data.length) : Reads (byteAt data index) := by
  refine (note_reads h).bind fun _ _ => ?_
  rw [if_pos h]
  exact .pure _

theorem unpack_reads (h : offset + width ≤ data.length) : Reads (unpack width data offset) := by
  refine (note_reads h).bind fun _ _ => ?_
  rw [if_pos h]
  exact .pure _

theorem sliceElf_reads : Reads (sliceElf data offset size name description) := by
  refine expect_reads.bind fun _ h => readSlice_reads ?_
  rw [expect_eq_ok] at h
  omega

theorem decodeAscii_reads : Reads (decodeAscii data message) :=
  expect_reads.bind fun _ _ => .pure _

theorem elfString_reads : Reads (elfString table offset name description) := by
  refine expect_reads.bind fun _ h => ?_
  rw [expect_eq_ok] at h
  refine (readSlice_reads (by omega)).bind fun rest hrest => ?_
  rw [readSlice_eq_ok, slice_rest] at hrest
  refine expect_reads.bind fun _ hzero => ?_
  rw [expect_eq_ok] at hzero
  refine (readSlice_reads ?_).bind fun _ _ => decodeAscii_reads
  have hindex := List.idxOf_lt_length_of_mem hzero
  rw [hrest, List.length_drop] at hindex
  rw [hrest]
  omega

end

end Hazkey.BundleVerification
