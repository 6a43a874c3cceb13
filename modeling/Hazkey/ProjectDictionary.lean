import Hazkey.BestPerKey
import Hazkey.UserDictionary
import Hazkey.WeakOrders

/-! The dictionary of a project: the entries of its snapshot, as the converter is given them,
and the index that finds them. -/

namespace Hazkey

open BestPerKey WeakOrders

structure GrimodexMappedDictionaryEntry where
  ruby : Text
  word : Text
  cid : Int
  mid : Int
  value : Int
  priority : Int
  entryID : Text
  deriving DecidableEq

/-- What two entries share if they are equal up to canonical equivalence of their texts. -/
def GrimodexMappedDictionaryEntry.spelled [CanonicalText] (entry : GrimodexMappedDictionaryEntry) :
    GrimodexMappedDictionaryEntry :=
  { entry with
    ruby := CanonicalText.precomposed entry.ruby
    word := CanonicalText.precomposed entry.word
    entryID := CanonicalText.precomposed entry.entryID }

structure IndexedEntry where
  entry : GrimodexMappedDictionaryEntry
  order : Nat
  deriving DecidableEq

structure GrimodexProjectDictionaryIndex where
  entries : List GrimodexMappedDictionaryEntry := []

/-- A node of the lattice of the converter. -/
structure DicdataElement where
  word : Text
  ruby : Text
  lcid : Int
  rcid : Int
  mid : Int
  value : Int
  isFromUserDictionary : Bool := false

def GrimodexMappedDictionaryEntry.dictionaryElement (entry : GrimodexMappedDictionaryEntry) :
    DicdataElement where
  word := entry.word
  ruby := entry.ruby
  lcid := entry.cid
  rcid := entry.cid
  mid := entry.mid
  value := entry.value

namespace GrimodexProjectDictionaryIndex

variable [RubyText]

def isEmpty (index : GrimodexProjectDictionaryIndex) : Bool := index.entries.isEmpty

def indexedEntries (index : GrimodexProjectDictionaryIndex) : List IndexedEntry :=
  index.entries.zipIdx.map fun x => IndexedEntry.mk x.1 x.2

def entriesForRuby (index : GrimodexProjectDictionaryIndex) (ruby : Text) : List IndexedEntry :=
  (index.entries.zipIdx.map fun x => IndexedEntry.mk x.1 x.2).filter fun x =>
    sameKey x.entry.ruby ruby

def entriesForSurface (index : GrimodexProjectDictionaryIndex) (ruby word : Text) :
    List IndexedEntry :=
  index.indexedEntries.filter fun x => sameKey x.entry.ruby ruby && sameKey x.entry.word word

def entriesMatching (index : GrimodexProjectDictionaryIndex) (data : DicdataElement) :
    List IndexedEntry :=
  if data.lcid = data.rcid then
    index.indexedEntries.filter fun x =>
      sameKey x.entry.ruby data.ruby && sameKey x.entry.word data.word && x.entry.cid = data.lcid
  else []

end GrimodexProjectDictionaryIndex

inductive GrimodexWireCategory
  | person
  | place
  | noun
  deriving DecidableEq

structure GrimodexWireEntry where
  yomi : Text
  surface : Text
  category : GrimodexWireCategory
  priority : Int
  entryID : Text
  deriving DecidableEq

namespace GrimodexProtocolLimits

def projectEntries : Nat := 20000
def projectIDScalars : Nat := 128
def projectNameScalars : Nat := 256
def entryYomiScalars : Nat := 256
def entrySurfaceScalars : Nat := 256
def entryIDScalars : Nat := 128

end GrimodexProtocolLimits

def isASCIIDigit (byte : UInt8) : Bool := 0x30 ≤ byte.toNat && byte.toNat ≤ 0x39

def isASCIIAlphabetic (byte : UInt8) : Bool :=
  (0x41 ≤ byte.toNat && byte.toNat ≤ 0x5A) || (0x61 ≤ byte.toNat && byte.toNat ≤ 0x7A)

namespace GrimodexProtocolValidator

def validASCIIIdentifier (value : Text) (maximum : Nat) (allowDot : Bool) : Bool :=
  !(utf8 value).isEmpty && (utf8 value).length ≤ maximum && value.length = (utf8 value).length &&
    (utf8 value).all fun byte =>
      isASCIIAlphabetic byte || isASCIIDigit byte || byte.toNat = 0x2D || byte.toNat = 0x5F ||
        (allowDot && byte.toNat = 0x2E)

def validProjectID (value : Text) : Bool :=
  validASCIIIdentifier value GrimodexProtocolLimits.projectIDScalars false

def validEntryID (value : Text) : Bool :=
  validASCIIIdentifier value GrimodexProtocolLimits.entryIDScalars false

def validText (value : Text) (minimum maximum : Nat) : Bool :=
  minimum ≤ value.length && value.length ≤ maximum &&
    value.all fun scalar =>
      !(scalar.toNat ≤ 0x1F || (0x7F ≤ scalar.toNat && scalar.toNat ≤ 0x9F))

def validEntry (entry : GrimodexWireEntry) : Bool :=
  validText entry.yomi 1 GrimodexProtocolLimits.entryYomiScalars &&
    validText entry.surface 1 GrimodexProtocolLimits.entrySurfaceScalars &&
    (1 ≤ entry.priority && entry.priority ≤ 3) && validEntryID entry.entryID

end GrimodexProtocolValidator

namespace GrimodexDictionaryMapper

structure Key where
  ruby : Text
  word : Text
  cid : Int
  deriving DecidableEq

structure Candidate where
  mapped : GrimodexMappedDictionaryEntry
  priority : Int
  deriving DecidableEq

def lexicographicallyPrecedes : Data → Data → Bool
  | _, [] => false
  | [], _ :: _ => true
  | x :: xs, y :: ys =>
    x.toNat < y.toNat || x.toNat = y.toNat && lexicographicallyPrecedes xs ys

def utf8Less (left right : Text) : Bool := lexicographicallyPrecedes (utf8 left) (utf8 right)

def cid : GrimodexWireCategory → Int
  | .person => 1289
  | .place => 1293
  | .noun => 1288

def score (category : GrimodexWireCategory) (priority : Int) : Int :=
  (if priority = 3 then -4 else if priority = 2 then -5 else -8) +
    if category = .person then 0 else -1

/-- What a process leaves open: the order of the values of a hash map, and that of a sort by
what is no order. -/
structure Process where
  values : List Candidate → List Candidate
  sorted : (Candidate → Candidate → Bool) → List Candidate → List Candidate
  values_perm : ∀ l, (values l).Perm l
  sorted_perm : ∀ before l, (sorted before l).Perm l
  sorted_ordered : ∀ before l, StrictWeak before l → Ordered before (sorted before l)

section

variable [RubyText]

def candidate (entry : GrimodexWireEntry) : Candidate where
  mapped :=
    { ruby := canonicalRuby entry.yomi
      word := CanonicalText.precomposed entry.surface
      cid := cid entry.category
      mid := 501
      value := score entry.category entry.priority
      priority := entry.priority
      entryID := entry.entryID }
  priority := entry.priority

/-- Keys are those of a hash map, which knows texts up to canonical equivalence. -/
def key (candidate : Candidate) : Key where
  ruby := CanonicalText.precomposed candidate.mapped.ruby
  word := CanonicalText.precomposed candidate.mapped.word
  cid := candidate.mapped.cid

def replaces (entry current : Candidate) : Bool :=
  !(current.priority > entry.priority ||
    current.priority = entry.priority && !utf8Less entry.mapped.entryID current.mapped.entryID)

def precedes (left right : Candidate) : Bool :=
  if left.priority ≠ right.priority then left.priority > right.priority
  else if sameKey left.mapped.ruby right.mapped.ruby = false then
    utf8Less left.mapped.ruby right.mapped.ruby
  else if sameKey left.mapped.word right.mapped.word = false then
    utf8Less left.mapped.word right.mapped.word
  else if left.mapped.cid ≠ right.mapped.cid then left.mapped.cid < right.mapped.cid
  else utf8Less left.mapped.entryID right.mapped.entryID

def unique (entries : List GrimodexWireEntry) : List Candidate :=
  best key replaces [] (entries.map candidate)

def map (process : Process) (entries : List GrimodexWireEntry) :
    List GrimodexMappedDictionaryEntry :=
  (process.sorted precedes (process.values (unique entries))).map (·.mapped)

end

end GrimodexDictionaryMapper

end Hazkey
