import Hazkey.ElfReads
import Mathlib.Data.List.Nodup
import Mathlib.Data.List.Range

/-! What the headers of an ELF file say of its interpreter and of its version tables. -/

namespace Hazkey.BundleVerification

open TracedRuns Traced

/-! ## The file header -/

def headerOf (data : Data) : Header :=
  ⟨field 8 data 32, field 8 data 40, field 2 data 54, field 2 data 56, field 2 data 58,
    field 2 data 60⟩

structure HasHeader (data : Data) : Prop where
  size : elf64HeaderSize ≤ data.length
  magic : slice data 0 4 = elfMagic
  fileClass : field 1 data 4 = elfClass64
  encoding : field 1 data 5 = elfData2Lsb
  version : field 1 data 6 = evCurrent
  machine : field 2 data 18 = emX86_64
  tables : elf64ProgramHeaderSize ≤ (headerOf data).programEntrySize ∧
    (headerOf data).programCount ≠ 0 ∧
    elf64SectionHeaderSize ≤ (headerOf data).sectionEntrySize ∧ (headerOf data).sectionCount ≠ 0

variable {data : Data} {name message : String} {index : ℕ}

theorem readHeader_eq_ok {h : Header} :
    (readHeader data name).result = .ok h ↔ HasHeader data ∧ h = headerOf data := by
  simp only [readHeader, bind_eq_ok, expect_eq_ok, readSlice_eq_ok, byteAt_eq_ok, unpack_eq_ok,
    pure_eq_ok, exists_const, exists_eq_left, and_assoc, exists_and_left]
  constructor
  · rintro ⟨hsize, hmagic, -, hclass, -, hencoding, -, hversion, -, hmachine, -, -, -, -, -, -,
      hprogramSize, hprograms, hsectionSize, hsections, rfl⟩
    exact ⟨⟨hsize, hmagic, hclass, hencoding, hversion, hmachine, hprogramSize, hprograms,
      hsectionSize, hsections⟩, rfl⟩
  · rintro ⟨⟨hsize, hmagic, hclass, hencoding, hversion, hmachine, hprogramSize, hprograms,
      hsectionSize, hsections⟩, rfl⟩
    have hlength : 64 ≤ data.length := hsize
    exact ⟨hsize, hmagic, by omega, hclass, by omega, hencoding, by omega, hversion, by omega,
      hmachine, by omega, by omega, by omega, by omega, by omega, by omega, hprogramSize, hprograms,
      hsectionSize, hsections, rfl⟩

theorem readHeader_reads : Reads (readHeader data name) := by
  refine expect_reads.bind fun _ hsize => ?_
  have hlength : 64 ≤ data.length := expect_eq_ok.mp hsize
  refine (readSlice_reads (by omega)).bind fun _ _ => expect_reads.bind fun _ _ => ?_
  refine (byteAt_reads (by omega)).bind fun _ _ => expect_reads.bind fun _ _ => ?_
  refine (byteAt_reads (by omega)).bind fun _ _ => expect_reads.bind fun _ _ => ?_
  refine (byteAt_reads (by omega)).bind fun _ _ => expect_reads.bind fun _ _ => ?_
  refine (unpack_reads (by omega)).bind fun _ _ => expect_reads.bind fun _ _ => ?_
  refine (unpack_reads (by omega)).bind fun _ _ => (unpack_reads (by omega)).bind fun _ _ => ?_
  refine (unpack_reads (by omega)).bind fun _ _ => (unpack_reads (by omega)).bind fun _ _ => ?_
  refine (unpack_reads (by omega)).bind fun _ _ => (unpack_reads (by omega)).bind fun _ _ => ?_
  exact expect_reads.bind fun _ _ => .pure _

/-! ## The interpreter -/

/-- What a program header of the type of interpreters holds. -/
def HasInterpreter (data : Data) (at' : ℕ) (text : Text) : Prop :=
  field 8 data (at' + 8) + field 8 data (at' + 32) ≤ data.length ∧
    ∃ bytes, slice data (field 8 data (at' + 8)) (field 8 data (at' + 32)) = bytes ++ [0] ∧
      (∀ byte ∈ bytes, byte ≠ 0 ∧ byte.toNat < 0x80) ∧ text = asciiText bytes

theorem terminated_iff {payload : Data} : payload.getLast? = some 0 ∧ payload.count 0 = 1 ↔
    ∃ bytes, payload = bytes ++ [0] ∧ (0 : UInt8) ∉ bytes := by
  constructor
  · rintro ⟨hlast, hcount⟩
    obtain ⟨bytes, rfl⟩ := List.getLast?_eq_some_iff.mp hlast
    refine ⟨bytes, rfl, List.count_eq_zero.mp ?_⟩
    rw [List.count_append, List.count_singleton_self] at hcount
    omega
  · rintro ⟨bytes, rfl, hbytes⟩
    refine ⟨by simp, ?_⟩
    rw [List.count_append, List.count_eq_zero.mpr hbytes, List.count_singleton_self]

/-- A number in a structure of the file. -/
theorem unpack_slice_eq_ok {width start size k value : ℕ} (hslice : start + size ≤ data.length)
    (hk : k + width ≤ size) : (unpack width (slice data start size) k).result = .ok value ↔
      value = field width data (start + k) := by
  rw [unpack_eq_ok, slice_length hslice, field_slice hk, and_iff_right hk]

theorem unpack_slice_reads {width start size k : ℕ} (hslice : start + size ≤ data.length)
    (hk : k + width ≤ size) : Reads (unpack width (slice data start size) k) :=
  unpack_reads (by rwa [slice_length hslice])

theorem readInterpreter_eq_ok {h : Header} {value : Option Text} :
    (readInterpreter data name h index).result = .ok value ↔
      h.programAt index + elf64ProgramHeaderSize ≤ data.length ∧
        (field 4 data (h.programAt index) ≠ ptInterp ∧ value = none ∨
          field 4 data (h.programAt index) = ptInterp ∧
            ∃ text, HasInterpreter data (h.programAt index) text ∧ value = some text) := by
  simp only [readInterpreter, bind_eq_ok, sliceElf_eq_ok, and_assoc, exists_and_left,
    exists_eq_left]
  refine and_congr_right fun hentry => ?_
  have htype : ∀ v, (unpack 4 (slice data (h.programAt index) elf64ProgramHeaderSize) 0).result =
      .ok v ↔ v = field 4 data (h.programAt index) := fun v =>
    unpack_slice_eq_ok hentry (by decide)
  have hoffset : ∀ v, (unpack 8 (slice data (h.programAt index) elf64ProgramHeaderSize) 8).result =
      .ok v ↔ v = field 8 data (h.programAt index + 8) := fun v =>
    unpack_slice_eq_ok hentry (by decide)
  have hsize : ∀ v, (unpack 8 (slice data (h.programAt index) elf64ProgramHeaderSize) 32).result =
      .ok v ↔ v = field 8 data (h.programAt index + 32) := fun v =>
    unpack_slice_eq_ok hentry (by decide)
  simp only [htype, exists_eq_left]
  by_cases hinterp : field 4 data (h.programAt index) = ptInterp
  · rw [if_pos hinterp]
    simp only [bind_eq_ok, hoffset, hsize, sliceElf_eq_ok, expect_eq_ok, terminated_iff,
      decodeAscii_eq_ok, pure_eq_ok, exists_eq_left, exists_const, hinterp, ne_eq, not_true_eq_false,
      false_and, false_or, true_and]
    constructor
    · rintro ⟨payload, ⟨hbounds, rfl⟩, ⟨bytes, hbytes, hzero⟩, text, ⟨hascii, rfl⟩, rfl⟩
      rw [hbytes, List.dropLast_concat] at hascii ⊢
      exact ⟨_, ⟨hbounds, bytes, hbytes, fun byte hbyte => ⟨ne_of_mem_of_not_mem hbyte hzero,
        hascii byte hbyte⟩, rfl⟩, rfl⟩
    · rintro ⟨text, ⟨hbounds, bytes, hbytes, hvalid, rfl⟩, rfl⟩
      refine ⟨_, ⟨hbounds, rfl⟩, ⟨bytes, hbytes, fun hmem => (hvalid 0 hmem).1 rfl⟩, asciiText bytes,
        ?_, rfl⟩
      rw [hbytes, List.dropLast_concat]
      exact ⟨fun byte hbyte => (hvalid byte hbyte).2, rfl⟩
  · rw [if_neg hinterp, pure_eq_ok]
    simp [hinterp]

theorem readInterpreter_reads {h : Header} : Reads (readInterpreter data name h index) := by
  refine sliceElf_reads.bind fun entry hentry => ?_
  obtain ⟨hbounds, rfl⟩ := sliceElf_eq_ok.mp hentry
  refine (unpack_slice_reads hbounds (by decide)).bind fun type _ => ?_
  by_cases hinterp : type = ptInterp
  · rw [if_pos hinterp]
    refine (unpack_slice_reads hbounds (by decide)).bind fun _ _ => ?_
    refine (unpack_slice_reads hbounds (by decide)).bind fun _ _ => ?_
    refine sliceElf_reads.bind fun _ _ => expect_reads.bind fun _ _ => ?_
    exact decodeAscii_reads.bind fun _ _ => .pure _
  · rw [if_neg hinterp]
    exact .pure _

/-! ## The sections -/

def sectionOf (data : Data) (h : Header) (index : ℕ) : Section :=
  ⟨field 4 data (h.sectionAt index + 4), field 8 data (h.sectionAt index + 24),
    field 8 data (h.sectionAt index + 32), field 4 data (h.sectionAt index + 40),
    field 4 data (h.sectionAt index + 44)⟩

def sectionsOf (data : Data) (h : Header) : List Section :=
  (List.range h.sectionCount).map (sectionOf data h)

theorem readSection_eq_ok {h : Header} {value : Option Section} :
    (readSection data name h index).result = .ok value ↔
      h.sectionAt index + elf64SectionHeaderSize ≤ data.length ∧
        value = some (sectionOf data h index) := by
  simp only [readSection, bind_eq_ok, sliceElf_eq_ok, and_assoc, exists_and_left, exists_eq_left]
  refine and_congr_right fun hentry => ?_
  have hfield : ∀ width k v, k + width ≤ elf64SectionHeaderSize →
      ((unpack width (slice data (h.sectionAt index) elf64SectionHeaderSize) k).result = .ok v ↔
        v = field width data (h.sectionAt index + k)) := fun width k v hk =>
    unpack_slice_eq_ok hentry hk
  rw [sectionOf]
  simp only [hfield 4 4 _ (by decide), hfield 8 24 _ (by decide), hfield 8 32 _ (by decide),
    hfield 4 40 _ (by decide), hfield 4 44 _ (by decide), exists_eq_left, pure_eq_ok]

theorem readSection_reads {h : Header} : Reads (readSection data name h index) := by
  refine sliceElf_reads.bind fun entry hentry => ?_
  obtain ⟨hbounds, rfl⟩ := sliceElf_eq_ok.mp hentry
  refine (unpack_slice_reads hbounds (by decide)).bind fun _ _ => ?_
  refine (unpack_slice_reads hbounds (by decide)).bind fun _ _ => ?_
  refine (unpack_slice_reads hbounds (by decide)).bind fun _ _ => ?_
  refine (unpack_slice_reads hbounds (by decide)).bind fun _ _ => ?_
  exact (unpack_slice_reads hbounds (by decide)).bind fun _ _ => .pure _

/-! ## The layout -/

/-- A header, the version section and the section of its strings. -/
structure LaidOut (data : Data) (h : Header) (version table : Section) (l : Layout) : Prop where
  header : HasHeader data ∧ h = headerOf data
  interpreter : ∃ i < h.programCount, (h.programAt i + elf64ProgramHeaderSize ≤ data.length ∧
      field 4 data (h.programAt i) = ptInterp ∧ HasInterpreter data (h.programAt i) l.interpreter) ∧
    ∀ j < h.programCount, j ≠ i → h.programAt j + elf64ProgramHeaderSize ≤ data.length ∧
      field 4 data (h.programAt j) ≠ ptInterp
  sections : ∀ i < h.sectionCount, h.sectionAt i + elf64SectionHeaderSize ≤ data.length
  only : (sectionsOf data h).filter (fun s => s.type = shtGnuVerneed) = [version]
  linked : (sectionsOf data h)[version.link]? = some table ∧ table.type = shtStrtab
  strings : table.offset + table.size ≤ data.length ∧
    l.strings = slice data table.offset table.size
  requirements : version.offset + version.size ≤ data.length ∧
    l.requirements = slice data version.offset version.size
  count : version.info ≠ 0 ∧ version.info ≤ l.requirements.length / structureSize ∧
    l.requirementCount = version.info

def HasLayout (data : Data) (l : Layout) : Prop := ∃ h version table, LaidOut data h version table l

theorem single_eq_ok {α : Type} {l : List α} {a : α} :
    (single l message).result = .ok a ↔ l = [a] := by
  cases l with
  | nil => simp [single, fail_ne_ok]
  | cons b rest =>
    cases rest with
    | nil => rw [single, pure_eq_ok, List.cons.injEq, and_iff_left rfl, eq_comm]
    | cons _ _ => simp [single, fail_ne_ok]

theorem single_reads {α : Type} {l : List α} : Reads (single l message) := by
  cases l with
  | nil => exact .fail ⟨message, rfl⟩
  | cons b rest =>
    cases rest with
    | nil => exact .pure b
    | cons _ _ => exact .fail ⟨message, rfl⟩

theorem pickSection_eq_ok {sections : List Section} {found : Section} :
    (pickSection sections index message).result = .ok found ↔ sections[index]? = some found := by
  rw [pickSection]
  cases h : sections[index]? with
  | none => simp [fail_ne_ok]
  | some s => rw [pure_eq_ok, Option.some.injEq, eq_comm]

theorem pickSection_reads {sections : List Section} :
    Reads (pickSection sections index message) := by
  rw [pickSection]
  cases sections[index]? with
  | none => exact .fail ⟨message, rfl⟩
  | some s => exact .pure s

theorem interpreters_eq_ok {h : Header} {text : Text} :
    (collect (readInterpreter data name h) (List.range h.programCount)).result = .ok [text] ↔
      ∃ i < h.programCount, (h.programAt i + elf64ProgramHeaderSize ≤ data.length ∧
        field 4 data (h.programAt i) = ptInterp ∧ HasInterpreter data (h.programAt i) text) ∧
      ∀ j < h.programCount, j ≠ i → h.programAt j + elf64ProgramHeaderSize ≤ data.length ∧
        field 4 data (h.programAt j) ≠ ptInterp := by
  simp [collect_eq_singleton List.nodup_range, readInterpreter_eq_ok]

theorem readLayout_eq_ok {l : Layout} :
    (readLayout data name).result = .ok l ↔ HasLayout data l := by
  have hsections : ∀ h found,
      (collect (readSection data name h) (List.range h.sectionCount)).result = .ok found ↔
        (∀ i ∈ List.range h.sectionCount,
          h.sectionAt i + elf64SectionHeaderSize ≤ data.length) ∧ found = sectionsOf data h :=
    fun h found => by
      rw [collect_eq_ok fun _ _ => readSection_eq_ok, sectionsOf, ← List.filterMap_eq_map]
      rfl
  simp only [readLayout, bind_eq_ok, readHeader_eq_ok, single_eq_ok, hsections, pickSection_eq_ok,
    expect_eq_ok, sliceElf_eq_ok, pure_eq_ok, List.mem_range]
  constructor
  · rintro ⟨h, hheader, interpreters, hinterpreters, text, rfl, sections, ⟨hbounds, rfl⟩, version,
      hversion, table, htable, -, htype, strings, hstrings, requirements, hrequirements, -,
      ⟨hcount, hbudget⟩, rfl⟩
    exact ⟨h, version, table, hheader, interpreters_eq_ok.mp hinterpreters, hbounds, hversion,
      ⟨htable, htype⟩, hstrings, hrequirements, hcount, hbudget, rfl⟩
  · rintro ⟨h, version, table, hl⟩
    obtain ⟨interpreter, strings, requirements, count⟩ := l
    obtain ⟨hcount, hbudget, rfl⟩ := hl.count
    exact ⟨h, hl.header, _, interpreters_eq_ok.mpr hl.interpreter, _, rfl, _, ⟨hl.sections, rfl⟩,
      version, hl.only, table, hl.linked.1, (), hl.linked.2, _, hl.strings, _, hl.requirements, (),
      ⟨hcount, hbudget⟩, rfl⟩

theorem readLayout_reads : Reads (readLayout data name) := by
  refine readHeader_reads.bind fun h _ => ?_
  refine (Traced.Sound.collect fun i _ => readInterpreter_reads).bind fun _ _ => ?_
  refine single_reads.bind fun _ _ => ?_
  refine (Traced.Sound.collect fun i _ => readSection_reads).bind fun _ _ => ?_
  refine single_reads.bind fun _ _ => pickSection_reads.bind fun _ _ => ?_
  refine expect_reads.bind fun _ _ => sliceElf_reads.bind fun _ _ => ?_
  exact sliceElf_reads.bind fun _ _ => expect_reads.bind fun _ _ => .pure _

end Hazkey.BundleVerification
