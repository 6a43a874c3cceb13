import Hazkey.FirstOccurrences
import Hazkey.ProjectDictionary

/-! The candidates of the converter, ranked by the dictionary of the project: those that it
knows come first, and those that the converter has dropped are restored. -/

namespace Hazkey

open FirstOccurrences WeakOrders

namespace GrimodexProjectCandidateRanker

/-- A candidate of the converter, with its values and counts of the composed input. -/
structure Candidate (V C : Type) where
  text : Text
  value : V
  composingCount : C
  lastMid : Int
  data : List DicdataElement

/-- What the converter computes of its nodes and candidates. -/
structure ConverterModule (V C : Type) where
  value : DicdataElement → V
  inputCount : Int → C
  parseTemplate : Candidate V C → Candidate V C

structure RankedCandidate (V C : Type) where
  candidate : Candidate V C
  priority : Int
  exactInputMatch : Bool
  stableOrder : Nat

/-- The later of two only counts if it is more. -/
def highest : List Int → Option Int
  | [] => none
  | x :: xs => some (xs.foldl (fun most y => if most < y then y else most) x)

def earliest : List IndexedEntry → Option IndexedEntry
  | [] => none
  | x :: xs => some (xs.foldl (fun least y => if y.order < least.order then y else least) x)

section

variable [RubyText] {V C : Type} (converter : ConverterModule V C)
  (index : GrimodexProjectDictionaryIndex) (inputRuby : Text)

/-- By order, as the entries of a hash map. -/
def matchingEntries (candidate : Candidate V C) : List IndexedEntry :=
  firsts (·.order) [] (index.entriesForSurface inputRuby candidate.text ++
    candidate.data.flatMap index.entriesMatching)

/-- The candidate is a single node, that of the entry. -/
def isNodeOf (candidate : Candidate V C) (entry : GrimodexMappedDictionaryEntry) : Bool :=
  candidate.data.length = 1 && candidate.data.any fun data =>
    sameKey data.word entry.word && sameKey data.ruby entry.ruby && data.lcid = entry.cid &&
      data.rcid = entry.cid

def exactMatches (candidate : Candidate V C) (priority : Int) : List IndexedEntry :=
  (matchingEntries index inputRuby candidate).filter fun indexed =>
    (indexed.entry.priority = priority && sameKey indexed.entry.ruby inputRuby) &&
      (sameKey indexed.entry.word candidate.text || isNodeOf candidate indexed.entry)

def projectNode (entry : GrimodexMappedDictionaryEntry) : DicdataElement :=
  { entry.dictionaryElement with isFromUserDictionary := true }

/-- The candidate is learned as the node of the project. -/
def promoted (candidate : Candidate V C) : Option IndexedEntry → Candidate V C
  | none => candidate
  | some canonical =>
    { candidate with
      value := converter.value (projectNode canonical.entry)
      lastMid := canonical.entry.mid
      data := [projectNode canonical.entry] }

def rankedCandidate (candidate : Candidate V C) (position : Nat) :
    Option (RankedCandidate V C) :=
  (highest ((matchingEntries index inputRuby candidate).map (·.entry.priority))).map
    fun priority =>
      { candidate := promoted converter candidate
          (earliest (exactMatches index inputRuby candidate priority))
        priority := priority
        exactInputMatch := !(exactMatches index inputRuby candidate priority).isEmpty
        stableOrder := position }

/-- The orders of the entries that a candidate represents. -/
def representedOrders (candidate : Candidate V C) : List Nat :=
  match highest ((matchingEntries index inputRuby candidate).map (·.entry.priority)) with
  | none => []
  | some priority => (exactMatches index inputRuby candidate priority).map (·.order)

def restored (count : Nat) (elementCount : Int) (indexed : IndexedEntry) :
    RankedCandidate V C where
  candidate := converter.parseTemplate
    { text := indexed.entry.word
      value := converter.value (projectNode indexed.entry)
      composingCount := converter.inputCount elementCount
      lastMid := indexed.entry.mid
      data := [projectNode indexed.entry] }
  priority := indexed.entry.priority
  exactInputMatch := true
  stableOrder := count + indexed.order

def before (left right : RankedCandidate V C) : Bool :=
  if left.priority ≠ right.priority then left.priority > right.priority
  else if left.exactInputMatch ≠ right.exactInputMatch then left.exactInputMatch
  else left.stableOrder < right.stableOrder

def rankedInput (candidates : List (Candidate V C)) : List (RankedCandidate V C) :=
  candidates.zipIdx.filterMap fun x => rankedCandidate converter index inputRuby x.1 x.2

def rankedEntries (candidates : List (Candidate V C)) (elementCount : Int) :
    List (RankedCandidate V C) :=
  ((index.entriesForRuby inputRuby).filter fun indexed =>
    !(candidates.flatMap (representedOrders index inputRuby)).contains indexed.order).map
      (restored converter candidates.length elementCount)

/-- The first of each text, in the order of the ranking. -/
def promotions (candidates : List (Candidate V C)) (elementCount : Int) :
    List (RankedCandidate V C) :=
  firsts (fun item => CanonicalText.precomposed item.candidate.text) []
    (sortedBy before (rankedInput converter index inputRuby candidates ++
      rankedEntries converter index inputRuby candidates elementCount))

def others (candidates : List (Candidate V C)) (promotedTexts : List Text) :
    List (Candidate V C) :=
  candidates.filter fun candidate => (matchingEntries index inputRuby candidate).isEmpty &&
    !promotedTexts.contains (CanonicalText.precomposed candidate.text)

def rank (candidates : List (Candidate V C)) (convertTarget : Text) (elementCount : Int) :
    List (Candidate V C) :=
  if index.isEmpty then candidates
  else (promotions converter index (RubyText.toKatakana convertTarget) candidates
      elementCount).map (·.candidate) ++
    others index (RubyText.toKatakana convertTarget) candidates
      ((promotions converter index (RubyText.toKatakana convertTarget) candidates
        elementCount).map fun item => CanonicalText.precomposed item.candidate.text)

end

end GrimodexProjectCandidateRanker

end Hazkey
