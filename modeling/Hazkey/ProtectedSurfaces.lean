import Hazkey.HybridConverter

/-! What a conversion must leave as it was typed, and the forms that are always offered. -/

namespace Hazkey

namespace ProtectedSurfacePolicy

def isASCIIAlphaNumeric (value : Nat) : Bool :=
  (0x30 ≤ value && value ≤ 0x39) || (0x41 ≤ value && value ≤ 0x5A) ||
    (0x61 ≤ value && value ≤ 0x7A)

def isProtectedAlphaNumeric (value : Nat) : Bool :=
  isASCIIAlphaNumeric value || (0xFF10 ≤ value && value ≤ 0xFF19) ||
    (0xFF21 ≤ value && value ≤ 0xFF3A) || (0xFF41 ≤ value && value ≤ 0xFF5A)

/-- The punctuation and symbols of ASCII and of CJK, of either width. -/
def isProtectedSymbol (value : Nat) : Bool :=
  (0x21 ≤ value && value ≤ 0x2F) || (0x3A ≤ value && value ≤ 0x40) ||
    (0x5B ≤ value && value ≤ 0x60) || (0x7B ≤ value && value ≤ 0x7E) ||
    (0x3001 ≤ value && value ≤ 0x303F) || (0xFF01 ≤ value && value ≤ 0xFF0F) ||
    (0xFF1A ≤ value && value ≤ 0xFF20) || (0xFF3B ≤ value && value ≤ 0xFF40) ||
    (0xFF5B ≤ value && value ≤ 0xFF65) || (0xFFE0 ≤ value && value ≤ 0xFFE6)

def isProtectedScalar (scalar : Char) : Bool :=
  isProtectedAlphaNumeric scalar.toNat || isProtectedSymbol scalar.toNat

/-- The spans of a text that are protected, and for the gaps before, between and after them
whether there is anything in it. -/
structure ProtectedLayout where
  spans : List Text
  populatedUnprotectedGaps : List Bool
  deriving DecidableEq

structure LayoutScan extends ProtectedLayout where
  span : Text

def LayoutScan.flushSpan (scan : LayoutScan) : LayoutScan :=
  if scan.span = [] then scan
  else
    { spans := scan.spans ++ [scan.span]
      populatedUnprotectedGaps := scan.populatedUnprotectedGaps ++ [false]
      span := [] }

def LayoutScan.populate (scan : LayoutScan) : LayoutScan :=
  { scan with populatedUnprotectedGaps := scan.populatedUnprotectedGaps.dropLast ++ [true] }

def LayoutScan.step (scan : LayoutScan) (scalar : Char) : LayoutScan :=
  if isProtectedScalar scalar = true then { scan with span := scan.span ++ [scalar] }
  else scan.flushSpan.populate

def protectedLayout (text : Text) : ProtectedLayout :=
  (text.foldl LayoutScan.step ⟨⟨[], [false]⟩, []⟩).flushSpan.toProtectedLayout

variable [CanonicalText]

/-- Spans are compared as texts, so up to canonical equivalence. -/
def ProtectedLayout.normalized (layout : ProtectedLayout) : ProtectedLayout :=
  { layout with spans := layout.spans.map CanonicalText.precomposed }

/-- A text with protected spans becomes one with others. -/
def changesProtectedSurface (text rawInput : Text) : Bool :=
  (protectedLayout rawInput).spans ≠ [] &&
    (protectedLayout text).normalized ≠ (protectedLayout rawInput).normalized

def allows (candidate : ConverterCandidate) (rawInput : Text) : Bool :=
  match candidate.provenance with
  | .projectDictionary | .personalDictionary | .temporaryDictionary | .builtInGuard => true
  | .standard | .zenzai | .unknown => !changesProtectedSurface candidate.text rawInput

end ProtectedSurfacePolicy

/-- The memberwise initializer, which clamps the count. -/
def ConverterCandidate.make (text : Text) ( annotation : Option Text) (consumingCount : Int)
    (provenance : CandidateProvenance) : ConverterCandidate where
  text := text
  annotation := annotation
  consumingCount := max 1 consumingCount
  provenance := provenance

namespace GrimodexBuiltInGuardDictionary

structure GrimodexBuiltInGuardEntry where
  reading : String
  surface : String
  annotation : String

def entries : List GrimodexBuiltInGuardEntry :=
  [⟨"かんそくせい", "可観測性", "構文ガード"⟩,
    ⟨"さいげんせい", "再現性", "構文ガード"⟩,
    ⟨"じっこうせい", "実効性", "構文ガード"⟩,
    ⟨"したほうが", "した方が", "構文ガード"⟩,
    ⟨"おこなう", "行う", "構文ガード"⟩,
    ⟨"および", "及び", "構文ガード"⟩,
    ⟨"ならびに", "並びに", "構文ガード"⟩,
    ⟨"あらかじめ", "予め", "構文ガード"⟩,
    ⟨"とりあつかい", "取り扱い", "構文ガード"⟩,
    ⟨"もとづく", "基づく", "構文ガード"⟩,
    ⟨"かかわらず", "関わらず", "構文ガード"⟩,
    ⟨"ひきつづき", "引き続き", "構文ガード"⟩,
    ⟨"おおむね", "概ね", "構文ガード"⟩,
    ⟨"おのおの", "各々", "構文ガード"⟩,
    ⟨"すべて", "全て", "構文ガード"⟩,
    ⟨"みていく", "見ていく", "構文ガード"⟩]

/-- Hiragana as katakana. -/
def canonicalReading (text : Text) : Text :=
  text.map fun scalar =>
    if 0x3041 ≤ scalar.toNat ∧ scalar.toNat ≤ 0x3096 then Char.ofNat (scalar.toNat + 0x60)
    else scalar

variable [CanonicalText]

def candidates (reading : Text) (consumingCount : Int) : List ConverterCandidate :=
  (entries.filter fun entry =>
    CanonicalText.precomposed (canonicalReading entry.reading.toList) =
      CanonicalText.precomposed (canonicalReading reading)).map fun entry =>
    .make entry.surface.toList
      (some <| String.toList <| GrimodexBuiltInGuardEntry.annotation entry) consumingCount
      .builtInGuard

end GrimodexBuiltInGuardDictionary

end Hazkey
