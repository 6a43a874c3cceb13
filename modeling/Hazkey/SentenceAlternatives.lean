import Hazkey.Text
import Hazkey.WeakOrders

/-! Full sentences made of the natural segments of a reading, and the list of candidates
that they extend. -/

namespace Hazkey

namespace MozcSidecarB1

open WeakOrders

structure SegmentCandidate where
  value : Data
  originalIndex : Nat
  deriving DecidableEq

abbrev Segment := List SegmentCandidate

def continuationBytes : Nat → Nat → Data → Option (Nat × Data)
  | 0, value, rest => some (value, rest)
  | _ + 1, _, [] => none
  | n + 1, value, next :: rest =>
    if next.toNat &&& 0xc0 ≠ 0x80 then none
    else continuationBytes n (value <<< 6 ||| next.toNat &&& 0x3f) rest

/-- The code point at the front, and what follows it. -/
def decodeUtf8 : Data → Option (Nat × Data)
  | [] => none
  | first :: rest =>
    if first.toNat < 0x80 then some (first.toNat, rest)
    else if first.toNat &&& 0xe0 = 0xc0 then continuationBytes 1 (first.toNat &&& 0x1f) rest
    else if first.toNat &&& 0xf0 = 0xe0 then continuationBytes 2 (first.toNat &&& 0x0f) rest
    else if first.toNat &&& 0xf8 = 0xf0 then continuationBytes 3 (first.toNat &&& 0x07) rest
    else none

def appendUtf8 (codePoint : Nat) : Data :=
  if codePoint ≤ 0x7f then [codePoint.toUInt8]
  else if codePoint ≤ 0x7ff then
    [(0xc0 ||| codePoint >>> 6).toUInt8, (0x80 ||| codePoint &&& 0x3f).toUInt8]
  else if codePoint ≤ 0xffff then
    [(0xe0 ||| codePoint >>> 12).toUInt8, (0x80 ||| codePoint >>> 6 &&& 0x3f).toUInt8,
      (0x80 ||| codePoint &&& 0x3f).toUInt8]
  else
    [(0xf0 ||| codePoint >>> 18).toUInt8, (0x80 ||| codePoint >>> 12 &&& 0x3f).toUInt8,
      (0x80 ||| codePoint >>> 6 &&& 0x3f).toUInt8, (0x80 ||| codePoint &&& 0x3f).toUInt8]

def inEveryOther (base first last : Nat) : Bool :=
  first ≤ base && base ≤ last && (base - first) % 2 = 0

def isVoiceable (base : Nat) : Bool :=
  inEveryOther base 0x304b 0x3053 || inEveryOther base 0x3055 0x305d ||
    base = 0x305f || base = 0x3061 || base = 0x3064 || base = 0x3066 || base = 0x3068 ||
    inEveryOther base 0x30ab 0x30b3 || inEveryOther base 0x30b5 0x30bd ||
    base = 0x30bf || base = 0x30c1 || base = 0x30c4 || base = 0x30c6 || base = 0x30c8

/-- A kana and a voicing mark as one kana, or 0. -/
def composeJapaneseVoicing (base mark : Nat) : Nat :=
  if mark ≠ 0x3099 ∧ mark ≠ 0x309a then 0
  else if mark = 0x3099 ∧ base = 0x3046 then 0x3094
  else if mark = 0x3099 ∧ base = 0x30a6 then 0x30f4
  else if mark = 0x3099 ∧ base = 0x309d then 0x309e
  else if mark = 0x3099 ∧ base = 0x30fd then 0x30fe
  else if mark = 0x3099 ∧ isVoiceable base = true then base + 1
  else if 0x306f ≤ base ∧ base ≤ 0x307b ∧ (base - 0x306f) % 3 = 0 then
    base + if mark = 0x3099 then 1 else 2
  else if 0x30cf ≤ base ∧ base ≤ 0x30db ∧ (base - 0x30cf) % 3 = 0 then
    base + if mark = 0x3099 then 1 else 2
  else if mark = 0x3099 ∧ 0x30ef ≤ base ∧ base ≤ 0x30f2 then base + 8
  else 0

/-- One more code point, composed with the last one where they compose. -/
def pushCodePoint (codePoints : List Nat) (codePoint : Nat) : List Nat :=
  match codePoints.getLast? with
  | some base =>
    if (codePoint = 0x3099 ∨ codePoint = 0x309a) ∧ composeJapaneseVoicing base codePoint ≠ 0 then
      codePoints.dropLast ++ [composeJapaneseVoicing base codePoint]
    else codePoints ++ [codePoint]
  | none => [codePoint]

/-- None for what is not UTF-8. Every code point takes a byte at least, so as many rounds as
there are bytes are enough. -/
def composedCodePoints : Nat → List Nat → Data → Option (List Nat)
  | _, codePoints, [] => some codePoints
  | 0, _, _ :: _ => none
  | rounds + 1, codePoints, input =>
    (decodeUtf8 input).bind fun x => composedCodePoints rounds (pushCodePoint codePoints x.1) x.2

def canonicalDedupKey (input : Data) : Data :=
  ((composedCodePoints input.length [] input).map fun codePoints =>
    codePoints.flatMap appendUtf8).getD input

structure BeamLink where
  rankSum : Nat
  previousIndex : Nat
  candidateIndex : Nat
  stableOrder : Nat
  deriving DecidableEq

def linkLess (left right : BeamLink) : Bool :=
  if left.rankSum ≠ right.rankSum then left.rankSum < right.rankSum
  else left.stableOrder < right.stableOrder

/-- Strings are compared by their bytes. -/
def bytesLess : Data → Data → Bool
  | [], [] => false
  | [], _ :: _ => true
  | _ :: _, [] => false
  | a :: s, b :: t => if a.toNat = b.toNat then bytesLess s t else a.toNat < b.toNat

def candidateAt (segment : Segment) (index : Nat) : SegmentCandidate :=
  segment[index]?.getD ⟨[], 0⟩

def candidateLess (segment : Segment) (left right : Nat) : Bool :=
  if (candidateAt segment left).originalIndex ≠ (candidateAt segment right).originalIndex then
    (candidateAt segment left).originalIndex < (candidateAt segment right).originalIndex
  else bytesLess (candidateAt segment left).value (candidateAt segment right).value

def candidateOrder (segment : Segment) (beamWidth : Nat) : List Nat :=
  (sortedBy (candidateLess segment) (List.range segment.length)).take beamWidth

/-- Layers are kept with the last one first. -/
def previousCount : List (List BeamLink) → Nat
  | [] => 1
  | layer :: _ => layer.length

def previousRankSum : List (List BeamLink) → Nat → Nat
  | [], _ => 0
  | layer :: _, previousIndex => (layer[previousIndex]?.map (·.rankSum)).getD 0

/-- The pairs of a link of the last layer and a candidate, numbered in their order. -/
def expanded (layers : List (List BeamLink)) (segment : Segment) (beamWidth : Nat) :
    List BeamLink :=
  ((List.range (previousCount layers)).flatMap fun previousIndex =>
    (candidateOrder segment beamWidth).map fun candidateIndex =>
      (previousIndex, candidateIndex)).zipIdx.map fun x =>
    { rankSum := previousRankSum layers x.1.1 + (candidateAt segment x.1.2).originalIndex
      previousIndex := x.1.1
      candidateIndex := x.1.2
      stableOrder := x.2 }

def buildLayers (beamWidth : Nat) :
    List Segment → List (List BeamLink) → Option (List (List BeamLink))
  | [], layers => some layers
  | segment :: segments, layers =>
    if segment = [] then none
    else if expanded layers segment beamWidth = [] then none
    else
      buildLayers beamWidth segments
        ((sortedBy linkLess (expanded layers segment beamWidth)).take beamWidth :: layers)

/-- The candidates on the way back from a link, the last segment's first. -/
def walk : List (List BeamLink) → Nat → List Nat
  | [], _ => []
  | layer :: layers, linkIndex =>
    match layer[linkIndex]? with
    | some link => link.candidateIndex :: walk layers link.previousIndex
    | none => []

def sentence (segments : List Segment) (path : List Nat) : Data :=
  (List.zipWith (fun segment index => (candidateAt segment index).value) segments
    path.reverse).flatten

def buildNaturalSentenceAlternatives (segments : List Segment) (beamWidth : Nat) : List Data :=
  if segments = [] ∨ beamWidth = 0 then []
  else
    match buildLayers beamWidth segments [] with
    | none => []
    | some layers =>
      (List.range (layers.head?.getD []).length).map fun finalIndex =>
        sentence segments (walk layers finalIndex)

/-- Appends the values with a new key as long as there is room. -/
def appendNew (maxCandidates : Nat) : List Data → List Data → List Data → List Data × List Data
  | result, seen, [] => (result, seen)
  | result, seen, value :: values =>
    if result.length < maxCandidates then
      if canonicalDedupKey value ∈ seen then appendNew maxCandidates result seen values
      else
        appendNew maxCandidates (result ++ [value]) (canonicalDedupKey value :: seen) values
    else (result, seen)

def searchWidth (maxCandidates : Nat) : Nat := min (min maxCandidates 100 * 4) 100

def buildB1Candidates (forced : List SegmentCandidate) (segments : List Segment)
    (maxCandidates : Nat) : List Data :=
  match forced with
  | [] => []
  | first :: others =>
    if maxCandidates = 0 then []
    else if maxCandidates = 1 then [first.value]
    else
      match appendNew maxCandidates [first.value] [canonicalDedupKey first.value]
        (others.map (·.value)) with
      | (result, seen) =>
        if result.length = maxCandidates then result
        else
          (appendNew maxCandidates result seen
            (buildNaturalSentenceAlternatives segments (searchWidth maxCandidates))).1

end MozcSidecarB1

end Hazkey
