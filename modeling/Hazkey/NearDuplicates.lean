import Hazkey.Text
import Hazkey.WeakOrders
import Hazkey.Grouping
import Mathlib.Data.Finset.Sort
import Mathlib.Data.Prod.Lex

/-! The search for near duplicates among the readings of a corpus: an inverted
index of their 3-grams proposes the pairs, and two metrics decide. -/

namespace Hazkey.FrozenCorpus

/-- What the search takes from the `unicodedata` of Python and from `str`. -/
structure UnicodeData where
  nfc : Text → Text
  nfkc : Text → Text
  casefold : Text → Text
  /-- The first letter of the general category. -/
  majorCategory : Char → Char

/-- The order in which Python runs through a set of strings is any order. -/
structure SetOrder where
  iterate : Finset Text → List Text
  nodup : ∀ s, (iterate s).Nodup
  mem_iterate : ∀ s g, g ∈ iterate s ↔ g ∈ s

structure Row where
  id : Text
  reading : Text
  deriving DecidableEq

def jaccardThresholdBasisPoints : Nat := 8000
def levenshteinThresholdBasisPoints : Nat := 9000

section

variable (U : UnicodeData)

def hiraganaOf (character : Char) : Char :=
  if (0x30A1 ≤ character.toNat ∧ character.toNat ≤ 0x30F6) ∨
      (0x30FD ≤ character.toNat ∧ character.toNat ≤ 0x30FE) then
    Char.ofNat (character.toNat - 0x60)
  else character

def katakanaToHiragana (value : Text) : Text := U.nfc ((U.nfc value).map hiraganaOf)

def canonicalReading (value : Text) : Text := U.casefold (katakanaToHiragana U (U.nfkc value))

def nearText (value : Text) : Text :=
  (canonicalReading U value).filter fun character =>
    !(U.majorCategory character = 'P' || U.majorCategory character = 'Z')

end

def trigrams (value : Text) : Finset Text :=
  if value = [] then ∅
  else if value.length < 3 then {value}
  else ((List.range (value.length - 2)).map fun index => (value.drop index).take 3).toFinset

def jaccardBasisPoints (left right : Text) : Nat :=
  if trigrams left ∪ trigrams right = ∅ then 10000
  else (trigrams left ∩ trigrams right).card * 10000 / (trigrams left ∪ trigrams right).card

/-- One entry of a row: after `current`, for the character of `right` at `rightIndex`. -/
def rowEntry (previous : List Nat) (leftCharacter : Char) (current : List Nat) (rightIndex : Nat)
    (rightCharacter : Char) : Nat :=
  min (min (current.getLastD 0 + 1) (previous.getD rightIndex 0 + 1))
    (previous.getD (rightIndex - 1) 0 + if leftCharacter ≠ rightCharacter then 1 else 0)

def extendRow (previous : List Nat) (leftCharacter : Char) : List Nat → Nat → Text → List Nat
  | current, _, [] => current
  | current, rightIndex, rightCharacter :: rest =>
    extendRow previous leftCharacter
      (current ++ [rowEntry previous leftCharacter current rightIndex rightCharacter])
      (rightIndex + 1) rest

def rows (right : Text) : List Nat → Nat → Text → List Nat
  | previous, _, [] => previous
  | previous, leftIndex, leftCharacter :: rest =>
    rows right (extendRow previous leftCharacter [leftIndex] 1 right) (leftIndex + 1) rest

def lastEntry (left right : Text) : Nat :=
  (rows right (List.range (right.length + 1)) 1 left).getLastD 0

/-- The rows run over the shorter string. -/
def levenshteinDistance (left right : Text) : Nat :=
  if left.length < right.length then lastEntry right left else lastEntry left right

def maximumLength (left right : Text) : Nat := max left.length right.length

def levenshteinSimilarityBasisPoints (left right : Text) : Int :=
  if maximumLength left right = 0 then 10000
  else ((maximumLength left right : Int) - levenshteinDistance left right) * 10000 /
    (maximumLength left right : Int)

/-- What the lengths alone allow. -/
def maximumPossibleLevenshtein (left right : Text) : Nat :=
  if maximumLength left right = 0 then 10000
  else min left.length right.length * 10000 / maximumLength left right

/-- An entry of the report. -/
structure NearPair where
  caseIds : List Text
  scope : Text
  jaccardBasisPoints : Nat
  levenshteinBasisPoints : Int
  deriving DecidableEq

/-- Strings are compared by their code points. -/
def textLess : Text → Text → Bool
  | [], [] => false
  | [], _ :: _ => true
  | _ :: _, [] => false
  | a :: s, b :: t => a.toNat < b.toNat || a == b && textLess s t

/-- The lists of ids by their strings. -/
def idsLess : List Text → List Text → Bool
  | [], [] => false
  | [], _ :: _ => true
  | _ :: _, [] => false
  | a :: s, b :: t => textLess a b || a == b && idsLess s t

def pairLess (p q : NearPair) : Bool :=
  textLess p.scope q.scope || p.scope == q.scope && idsLess p.caseIds q.caseIds

def sortedIds (left right : Text) : List Text :=
  if textLess right left then [right, left] else [left, right]

abbrev Reading := Text × Text

/-- `consider`: the entry it appends, if any. -/
def consider (scope : Text) (left right : Reading) : Option NearPair :=
  if jaccardBasisPoints left.2 right.2 < jaccardThresholdBasisPoints ∧
      maximumPossibleLevenshtein left.2 right.2 < levenshteinThresholdBasisPoints then none
  else if jaccardBasisPoints left.2 right.2 < jaccardThresholdBasisPoints ∧
      levenshteinSimilarityBasisPoints left.2 right.2 < levenshteinThresholdBasisPoints then none
  else some
    { caseIds := sortedIds left.1 right.1
      scope := scope
      jaccardBasisPoints := jaccardBasisPoints left.2 right.2
      levenshteinBasisPoints := levenshteinSimilarityBasisPoints left.2 right.2 }

/-- The entries of the inverted index in the order in which they are appended. -/
def postingEntries (O : SetOrder) (readings : List Reading) : List (Text × Nat) :=
  readings.zipIdx.flatMap fun r => (O.iterate (trigrams r.1.2)).map fun gram => (gram, r.2)

def postings (O : SetOrder) (readings : List Reading) : List (Text × List Nat) :=
  Grouping.group (postingEntries O readings)

/-- Each index with each of those after it. -/
def orderedPairs : List Nat → List (ℕ ×ₗ ℕ)
  | [] => []
  | leftIndex :: rest => rest.map (fun rightIndex => toLex (leftIndex, rightIndex)) ++
      orderedPairs rest

def formalCandidates (formalPostings : List (Text × List Nat)) : Finset (ℕ ×ₗ ℕ) :=
  (formalPostings.flatMap fun p => orderedPairs p.2).toFinset

def pilotCandidates (formalPostings pilotPostings : List (Text × List Nat)) : Finset (ℕ ×ₗ ℕ) :=
  (formalPostings.flatMap fun p => p.2.flatMap fun leftIndex =>
    (Grouping.get pilotPostings p.1).map fun pilotIndex => toLex (leftIndex, pilotIndex)).toFinset

def readingAt (readings : List Reading) (index : Nat) : Reading := readings.getD index ([], [])

def formalReadings (U : UnicodeData) (rows : List Row) : List Reading :=
  rows.map fun row => (row.id, nearText U row.reading)

def pilotReadings (U : UnicodeData) (rows : List Row) : List Reading :=
  rows.map fun row => ("pilot-v1:".toList ++ row.id, nearText U row.reading)

def formalScope : Text := "formal-v2".toList
def pilotScope : Text := "pilot-v1-to-formal-v2".toList

def formalPairs (O : SetOrder) (formal : List Reading) : List NearPair :=
  (formalCandidates (postings O formal)).sort.filterMap fun c =>
    consider formalScope (readingAt formal (ofLex c).1) (readingAt formal (ofLex c).2)

def pilotPairs (O : SetOrder) (formal pilot : List Reading) : List NearPair :=
  (pilotCandidates (postings O formal) (postings O pilot)).sort.filterMap fun c =>
    consider pilotScope (readingAt formal (ofLex c).1) (readingAt pilot (ofLex c).2)

def findNearDuplicatePairs (U : UnicodeData) (O : SetOrder) (formalRows pilotRows : List Row) :
    Except String (List NearPair) :=
  if (formalReadings U formalRows).any (fun r => r.2 = []) = true then
    .error "formal reading becomes empty under near-duplicate normalization"
  else
    .ok <| WeakOrders.sortedBy pairLess <|
      formalPairs O (formalReadings U formalRows) ++
        pilotPairs O (formalReadings U formalRows) (pilotReadings U pilotRows)

end Hazkey.FrozenCorpus
