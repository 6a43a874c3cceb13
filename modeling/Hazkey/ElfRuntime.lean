import Hazkey.LexicographicOrder
import Hazkey.Text
import Hazkey.TracedRuns
import Mathlib.Data.List.Dedup
import Mathlib.Data.Nat.Digits.Defs

/-! The inspection of an ELF file for the runtime that it asks for, with the reads and
the offsets of the version chain as the events of a run. -/

namespace Hazkey.BundleVerification

open TracedRuns

-- Of the bytes of a list, not of all bytes.
attribute [local instance (1100)] List.decidableBAll

inductive Failure
  | bundle (message : String)
  | valueError (message : String)
  | structError
  | indexError
  deriving DecidableEq

/-- A read of so many bytes from an offset of a piece, or a structure of the version chain. -/
inductive Event
  | read (available offset size : ℕ)
  | inspect (offset : ℕ)
  deriving DecidableEq

abbrev Run := Traced Failure Event

def expect (p : Prop) [Decidable p] (message : String) : Run Unit :=
  if p then pure () else .fail (.bundle message)

/-! ## Reading -/

/-- The number in little-endian bytes. -/
def field (width : ℕ) (data : Data) (offset : ℕ) : ℕ :=
  Nat.ofDigits 256 (((data.drop offset).take width).map UInt8.toNat)

/-- `data[offset:offset + size]`. -/
def slice (data : Data) (offset size : ℕ) : Data := (data.drop offset).take size

def readSlice (data : Data) (offset size : ℕ) : Run Data := do
  Traced.note (.read data.length offset size)
  return slice data offset size

/-- `data[index]`. -/
def byteAt (data : Data) (index : ℕ) : Run ℕ := do
  Traced.note (.read data.length index 1)
  if index < data.length then return field 1 data index else .fail .indexError

/-- `struct.unpack_from` of one number. -/
def unpack (width : ℕ) (data : Data) (offset : ℕ) : Run ℕ := do
  Traced.note (.read data.length offset width)
  if offset + width ≤ data.length then return field width data offset else .fail .structError

def sliceElf (data : Data) (offset size : ℕ) (name description : String) : Run Data := do
  expect (offset ≤ data.length ∧ size ≤ data.length - offset)
    s!"{name} has an invalid {description} range"
  readSlice data offset size

/-- `decode("ascii")`. -/
def decodeAscii (data : Data) (message : String) : Run Text := do
  expect (∀ byte ∈ data, byte.toNat < 0x80) message
  return data.map fun byte => Char.ofNat byte.toNat

def elfString (table : Data) (offset : ℕ) (name description : String) : Run Text := do
  expect (offset < table.length) s!"{name} has an invalid {description} string offset"
  let rest ← readSlice table offset (table.length - offset)
  expect (0 ∈ rest) s!"{name} has an unterminated {description} string"
  let bytes ← readSlice table offset (rest.idxOf 0)
  decodeAscii bytes s!"{name} has a non-ASCII {description} string"

/-! ## Headers -/

def elfMagic : Data := [0x7F, 0x45, 0x4C, 0x46]

def elf64HeaderSize : ℕ := 64

def elf64ProgramHeaderSize : ℕ := 56

def elf64SectionHeaderSize : ℕ := 64

def elfClass64 : ℕ := 2

def elfData2Lsb : ℕ := 1

def evCurrent : ℕ := 1

def emX86_64 : ℕ := 62

def ptInterp : ℕ := 3

def shtStrtab : ℕ := 3

def shtGnuVerneed : ℕ := 0x6FFFFFFE

def elfVersionRequirement : ℕ := 1

structure Header where
  programOffset : ℕ
  sectionOffset : ℕ
  programEntrySize : ℕ
  programCount : ℕ
  sectionEntrySize : ℕ
  sectionCount : ℕ

def Header.programAt (h : Header) (index : ℕ) : ℕ := h.programOffset + index * h.programEntrySize

def Header.sectionAt (h : Header) (index : ℕ) : ℕ := h.sectionOffset + index * h.sectionEntrySize

def readHeader (data : Data) (name : String) : Run Header := do
  expect (elf64HeaderSize ≤ data.length) s!"{name} must be an ELF executable"
  let magic ← readSlice data 0 4
  expect (magic = elfMagic) s!"{name} must be an ELF executable"
  let fileClass ← byteAt data 4
  expect (fileClass = elfClass64) s!"{name} must be ELF64"
  let encoding ← byteAt data 5
  expect (encoding = elfData2Lsb) s!"{name} must be little-endian ELF"
  let version ← byteAt data 6
  expect (version = evCurrent) s!"{name} has an unsupported ELF version"
  let machine ← unpack 2 data 18
  expect (machine = emX86_64) s!"{name} must target EM_X86_64"
  let programOffset ← unpack 8 data 32
  let sectionOffset ← unpack 8 data 40
  let programEntrySize ← unpack 2 data 54
  let programCount ← unpack 2 data 56
  let sectionEntrySize ← unpack 2 data 58
  let sectionCount ← unpack 2 data 60
  expect (elf64ProgramHeaderSize ≤ programEntrySize ∧ programCount ≠ 0 ∧
      elf64SectionHeaderSize ≤ sectionEntrySize ∧ sectionCount ≠ 0)
    s!"{name} is missing required ELF tables"
  return ⟨programOffset, sectionOffset, programEntrySize, programCount, sectionEntrySize,
    sectionCount⟩

/-- The interpreter of a program header that holds one. -/
def readInterpreter (data : Data) (name : String) (header : Header) (index : ℕ) :
    Run (Option Text) := do
  let entry ← sliceElf data (header.programAt index) elf64ProgramHeaderSize name "program header"
  let type ← unpack 4 entry 0
  if type = ptInterp then do
    let offset ← unpack 8 entry 8
    let size ← unpack 8 entry 32
    let payload ← sliceElf data offset size name "interpreter"
    expect (payload.getLast? = some 0 ∧ payload.count 0 = 1)
      s!"{name} has an invalid ELF interpreter"
    let text ← decodeAscii payload.dropLast s!"{name} has a non-ASCII ELF interpreter"
    return some text
  else return none

structure Section where
  type : ℕ
  offset : ℕ
  size : ℕ
  link : ℕ
  info : ℕ
  deriving DecidableEq

def readSection (data : Data) (name : String) (header : Header) (index : ℕ) :
    Run (Option Section) := do
  let entry ← sliceElf data (header.sectionAt index) elf64SectionHeaderSize name "section header"
  let type ← unpack 4 entry 4
  let offset ← unpack 8 entry 24
  let size ← unpack 8 entry 32
  let link ← unpack 4 entry 40
  let info ← unpack 4 entry 44
  return some ⟨type, offset, size, link, info⟩

/-- What the headers lead to. -/
structure Layout where
  interpreter : Text
  strings : Data
  requirements : Data
  requirementCount : ℕ

/-- The only one of a list. -/
def single {α : Type} (l : List α) (message : String) : Run α :=
  match l with
  | [a] => pure a
  | _ => .fail (.bundle message)

/-- `sections[index]`, checked. -/
def pickSection (sections : List Section) (index : ℕ) (message : String) : Run Section :=
  match sections[index]? with
  | none => .fail (.bundle message)
  | some found => pure found

def structureSize : ℕ := 16

def readLayout (data : Data) (name : String) : Run Layout := do
  let header ← readHeader data name
  let interpreters ← Traced.collect (readInterpreter data name header)
    (List.range header.programCount)
  let interpreter ← single interpreters s!"{name} must declare exactly one ELF interpreter"
  let sections ← Traced.collect (readSection data name header) (List.range header.sectionCount)
  let version ← single (sections.filter fun s => s.type = shtGnuVerneed)
    s!"{name} must contain one GNU version requirement table"
  let table ← pickSection sections version.link s!"{name} has an invalid GNU version string table"
  expect (table.type = shtStrtab) s!"{name} GNU version names must use a string table"
  let strings ← sliceElf data table.offset table.size name "dynamic string table"
  let requirements ← sliceElf data version.offset version.size name
    "GNU version requirement table"
  expect (version.info ≠ 0 ∧ version.info ≤ requirements.length / structureSize)
    s!"{name} GNU version chain exceeds its work budget"
  return ⟨interpreter, strings, requirements, version.info⟩

/-! ## The version chain -/

/-- What the walk has visited, the work that is left and the versions found. -/
structure Walked where
  visited : List ℕ
  remaining : ℕ
  versions : List Text

def Walked.visit (w : Walked) (cursor : ℕ) : Walked :=
  { w with visited := w.visited ++ [cursor], remaining := w.remaining - 1 }

def Walked.add (w : Walked) (version : Text) : Walked :=
  { w with versions := w.versions ++ [version] }

/-- A cursor that is new, with work left for it. -/
def enterStructure (w : Walked) (cursor : ℕ) (message : String) : Run Walked := do
  expect (cursor ∉ w.visited ∧ w.remaining ≠ 0) message
  Traced.note (.inspect cursor)
  return w.visit cursor

/-- The auxiliary entries from a cursor on, so many of them. -/
def walkAuxiliaries (l : Layout) (name : String) : ℕ → ℕ → Walked → Run Walked
  | 0, _, w => pure w
  | left + 1, cursor, w => do
    let w ← enterStructure w cursor s!"{name} has a non-monotonic GNU version chain"
    let auxiliary ← sliceElf l.requirements cursor structureSize name "GNU version auxiliary entry"
    let nameOffset ← unpack 4 auxiliary 8
    let next ← unpack 4 auxiliary 12
    let version ← elfString l.strings nameOffset name "GNU version requirement"
    if left ≠ 0 then do
      expect (structureSize ≤ next) s!"{name} has an invalid GNU version chain"
      walkAuxiliaries l name left (cursor + next) (w.add version)
    else do
      expect (next = 0) s!"{name} has an unterminated GNU version chain"
      return w.add version

/-- The requirements from a cursor on, so many of them. -/
def walkRequirements (l : Layout) (name : String) : ℕ → ℕ → Walked → Run Walked
  | 0, _, w => pure w
  | left + 1, cursor, w => do
    let w ← enterStructure w cursor s!"{name} has a non-monotonic GNU requirement chain"
    let entry ← sliceElf l.requirements cursor structureSize name "GNU version requirement"
    let version ← unpack 2 entry 0
    let auxiliaryCount ← unpack 2 entry 2
    let auxiliaryOffset ← unpack 4 entry 8
    let next ← unpack 4 entry 12
    expect (version = elfVersionRequirement ∧ auxiliaryCount ≠ 0)
      s!"{name} has an invalid GNU version requirement"
    expect (structureSize ≤ auxiliaryOffset) s!"{name} has an invalid GNU version chain"
    expect (auxiliaryCount ≤ w.remaining) s!"{name} GNU version chain exceeds its work budget"
    let w ← walkAuxiliaries l name auxiliaryCount (cursor + auxiliaryOffset) w
    if left ≠ 0 then do
      expect (structureSize ≤ next) s!"{name} has an invalid GNU requirement chain"
      expect (cursor + next < l.requirements.length)
        s!"{name} GNU requirement chain is out of range"
      walkRequirements l name left (cursor + next) w
    else do
      expect (next = 0) s!"{name} has an unterminated GNU requirement chain"
      return w

/-! ## Versions -/

/-- The order in which a set of versions is iterated. -/
structure SetOrder where
  run : List Text → List Text
  nodup : ∀ l, (run l).Nodup
  mem : ∀ l v, v ∈ run l ↔ v ∈ l

def digit (c : Char) : Bool := 0x30 ≤ c.toNat && c.toNat ≤ 0x39

/-- The components of a version of the family, as digits. -/
def versionDigits (family value : Text) : Option (List Text) :=
  match family.isPrefixOf? value with
  | none => none
  | some rest =>
    if (rest.splitOn '.').all fun component => component ≠ [] ∧ component.all digit then
      some (rest.splitOn '.')
    else none

def numeral (digits : Text) : ℕ :=
  Nat.ofDigits 10 (digits.reverse.map fun c => c.toNat - 0x30)

/-- `sys.get_int_max_str_digits()`. -/
def maxDigits : ℕ := 4300

/-- `int` of digits. -/
def parseInt (digits : Text) : Run ℕ :=
  if digits.length ≤ maxDigits then pure (numeral digits)
  else .fail (.valueError "Exceeds the limit (4300 digits) for integer string conversion")

def parseComponent (component : Text) : Run (Option ℕ) := do
  let n ← parseInt component
  return some n

def symbolVersionKey (value family : Text) : Run (Option (List ℕ)) :=
  match versionDigits family value with
  | none => pure none
  | some components => do
    let key ← Traced.collect parseComponent components
    return some key

/-- A version of the family, with its key. -/
def matchingVersion (family value : Text) : Run (Option (Text × List ℕ)) := do
  let key ← symbolVersionKey value family
  return key.map fun key => (value, key)

/-- `max` by the key: the first of those that are greatest. -/
def latest (first : Text × List ℕ) (rest : List (Text × List ℕ)) : Text × List ℕ :=
  rest.foldl (fun best found => if WeakOrders.lexLess id best.2 found.2 then found else best) first

def requiredVersion (order : SetOrder) (versions : List Text) (name : String) (family : Text) :
    Run Text := do
  let found ← Traced.collect (matchingVersion family) (order.run versions)
  match found with
  | [] => .fail (.bundle s!"{name} has no {String.ofList family} runtime requirement")
  | first :: rest => pure (latest first rest).1

structure Runtime where
  interpreter : Text
  glibc : Text
  glibcxx : Text
  cxxabi : Text
  deriving DecidableEq

def targetRuntime : Runtime :=
  ⟨"/lib64/ld-linux-x86-64.so.2".toList, "GLIBC_2.38".toList, "GLIBCXX_3.4.32".toList,
    "CXXABI_1.3.15".toList⟩

def requiredRuntime (order : SetOrder) (interpreter : Text) (versions : List Text) (name : String) :
    Run Runtime := do
  let glibc ← requiredVersion order versions name "GLIBC_".toList
  let glibcxx ← requiredVersion order versions name "GLIBCXX_".toList
  let cxxabi ← requiredVersion order versions name "CXXABI_".toList
  expect (Runtime.mk interpreter glibc glibcxx cxxabi = targetRuntime)
    s!"{name} runtime ABI does not match the fixed contract"
  return ⟨interpreter, glibc, glibcxx, cxxabi⟩

def inspectElfRuntimeContract (order : SetOrder) (data : Data) (name : String) : Run Runtime := do
  let l ← readLayout data name
  let walked ← walkRequirements l name l.requirementCount 0
    ⟨[], l.requirements.length / structureSize, []⟩
  requiredRuntime order l.interpreter walked.versions name

end Hazkey.BundleVerification
