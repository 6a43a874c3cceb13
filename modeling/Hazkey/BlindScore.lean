import Hazkey.BlindPacket

/-! The scoring of a packet: the reviewer's judgments about x and y become
preferences between the converters. Rates are rationals; the interval and the
sign test are left out. -/

namespace Hazkey.BlindReview

open ConversionQuality JsonText

/-! ## Judgments -/

inductive Judgment
  | x
  | y
  | tie
  | bothBad
  deriving DecidableEq

def Judgment.text : Judgment → Text
  | .x => "x".toList
  | .y => "y".toList
  | .tie => "tie".toList
  | .bothBad => "both_bad".toList

/-- `sorted(ALLOWED_JUDGMENTS)`. -/
def allowedJudgments : List Judgment := [.bothBad, .tie, .x, .y]

def judgmentSchema : Text := "hazkey.blind-conversion-ab-judgment.v1".toList

structure JudgmentRecord where
  case : Text
  judgment : Judgment

def JudgmentRecord.json (r : JudgmentRecord) : Json := .object
  [("case".toList, .string r.case), ("judgment".toList, .string r.judgment.text),
   ("schema".toList, .string judgmentSchema)]

/-- The file a reviewer hands in. -/
def judgmentsFile (records : List JudgmentRecord) : Text :=
  joinLines (records.map fun r => canonicalJson r.json)

def readJudgment (context : String) (v : Json) : Except String JudgmentRecord := do
  let fields ← exactKeys context ["case".toList, "judgment".toList, "schema".toList] v
  readConstant judgmentSchema s!"{context}.schema" (member fields "schema".toList)
  let case ← readText s!"{context}.case" (member fields "case".toList)
  let text ← readText s!"{context}.judgment" (member fields "judgment".toList)
  match allowedJudgments.find? fun j => j.text = text with
  | none =>
    .error s!"{context}.judgment must be one of ['both_bad', 'tie', 'x', 'y']"
  | some judgment => return ⟨case, judgment⟩

abbrev Judgments := List (Text × Judgment)

def readJudgments (context : String) : Judgments → List Json → Except String Judgments
  | judgments, [] => .ok judgments
  | judgments, v :: vs => do
    let record ← readJudgment context v
    require (record.case ∉ judgments.map (·.1)) s!"{context}: duplicate judgment"
    readJudgments context (judgments ++ [(record.case, record.judgment)]) vs

def loadJudgments (H : Hashes) (context : String) (expectedCases : List Text) (file : Text) :
    Except String (Judgments × Text) := do
  let values ← loadLines context file
  let judgments ← readJudgments context [] values
  require ((∀ case ∈ judgments.map (·.1), case ∈ expectedCases) ∧
      ∀ case ∈ expectedCases, case ∈ judgments.map (·.1))
    s!"{context}: judgment case set is incomplete"
  return (judgments, sha256Text H file)

/-! ## Outcomes -/

structure Outcome where
  wins : Nat
  losses : Nat
  ties : Nat
  bothBad : Nat
  deriving DecidableEq

abbrev Outcomes := List (Text × Outcome)

def emptyOutcomes (labels : List Text) : Outcomes := labels.map fun label => (label, ⟨0, 0, 0, 0⟩)

/-- `outcomes[label]` changed. The labels are those of the key. -/
def adjust (label : Text) (f : Outcome → Outcome) (outcomes : Outcomes) : Outcomes :=
  outcomes.map fun e => if e.1 = label then (e.1, f e.2) else e

def Outcome.win (o : Outcome) : Outcome := { o with wins := o.wins + 1 }
def Outcome.lose (o : Outcome) : Outcome := { o with losses := o.losses + 1 }
def Outcome.draw (o : Outcome) : Outcome := { o with ties := o.ties + 1 }
def Outcome.fail (o : Outcome) : Outcome := { o with bothBad := o.bothBad + 1 }

/-- The outcomes, and the winner if there is one. -/
def recordOutcome (outcomes : Outcomes) (xBackend yBackend : Text) (judgment : Judgment) :
    Outcomes × Option Text :=
  match judgment with
  | .tie => (adjust yBackend Outcome.draw (adjust xBackend Outcome.draw outcomes), none)
  | .bothBad => (adjust yBackend Outcome.fail (adjust xBackend Outcome.fail outcomes), none)
  | .x => (adjust yBackend Outcome.lose (adjust xBackend Outcome.win outcomes), some xBackend)
  | .y => (adjust xBackend Outcome.lose (adjust yBackend Outcome.win outcomes), some yBackend)

structure RenderedOutcome where
  counts : Outcome
  allCases : Nat
  decisiveCases : Nat
  decisiveCaseRate : ℚ
  decisiveWinRate : Option ℚ
  preferenceRateAllCases : ℚ
  netPreferenceRateAllCases : ℚ

def renderOutcome (totalCases : Nat) (counts : Outcome) : RenderedOutcome where
  counts := counts
  allCases := totalCases
  decisiveCases := counts.wins + counts.losses
  decisiveCaseRate := rate (counts.wins + counts.losses) totalCases
  decisiveWinRate :=
    if counts.wins + counts.losses = 0 then none
    else some (rate counts.wins (counts.wins + counts.losses))
  preferenceRateAllCases := rate counts.wins totalCases
  netPreferenceRateAllCases := ((counts.wins : ℚ) - (counts.losses : ℚ)) / (totalCases : ℚ)

def renderOutcomes (outcomes : Outcomes) (totalCases : Nat) : List (Text × RenderedOutcome) :=
  (sortedItems outcomes).map fun e => (e.1, renderOutcome totalCases e.2)

/-! ## The report -/

/-- The candidates of a converter, case by case. -/
def candidatesOf (key : Key) (review : Review) (label : Text) : Results :=
  key.cases.filterMap fun c =>
    (review.lookup c.case).bind fun record =>
      if c.xBackend = label then some (c.originalId, record.x)
      else if c.yBackend = label then some (c.originalId, record.y)
      else none

/-- The corpus as the key has it. -/
def keyCorpus (key : Key) : List Row :=
  key.cases.map fun c => ⟨c.originalId, c.reading, List.intercalate ['|'] c.expected, c.category⟩

structure ObjectiveQuality where
  topK : Nat
  byBackend : List (Text × QualityReport)
  pairedComparison : Comparison

def objectiveReport (key : Key) (review : Review) (label : Text) : QualityReport :=
  ConversionQuality.evaluate (keyCorpus key) (candidatesOf key review label) key.topK

def objectiveQuality (key : Key) (review : Review) : Except String ObjectiveQuality := do
  match labelsOf key.backends with
  | [aName, bName] =>
    let comparison ← compareReports (objectiveReport key review aName)
      (objectiveReport key review bName) aName bName
    return {
      topK := key.topK
      byBackend := [(aName, objectiveReport key review aName),
        (bName, objectiveReport key review bName)]
      pairedComparison := comparison }
  | _ => .error "not two labels"

structure UnblindedCase where
  key : KeyCase
  judgment : Judgment
  winner : Option Text

structure CategoryPreference where
  cases : Nat
  byBackend : List (Text × RenderedOutcome)

structure Report where
  sourceRef : Text
  corpus : KeyCorpus
  backends : List BackendMetadata
  reviewSha256 : Text
  judgmentsSha256 : Text
  unblindKeyIntegrity : Text
  cases : Nat
  topK : Nat
  xPlacement : List (Text × Nat)
  yPlacement : List (Text × Nat)
  judgmentCounts : List (Judgment × Nat)
  byBackend : List (Text × RenderedOutcome)
  byCategory : List (Text × CategoryPreference)
  objectiveQuality : ObjectiveQuality
  unblindedCases : List UnblindedCase

/-- What the loop over the cases of the key carries. -/
structure Scoring where
  outcomes : Outcomes
  categoryOutcomes : List (Text × Outcomes)
  categoryCounts : List (Text × Nat)
  judgmentCounts : List (Judgment × Nat)
  unblindedCases : List UnblindedCase

/-- `judgments[opaque_id]`: `_load_judgments` has seen to it that there is one. -/
def judgmentOf (judgments : Judgments) (c : KeyCase) : Judgment :=
  (judgments.lookup c.case).getD .tie

def scoreCase (labels : List Text) (judgments : Judgments) (s : Scoring) (c : KeyCase) :
    Scoring where
  outcomes :=
    (recordOutcome s.outcomes c.xBackend c.yBackend (judgmentOf judgments c)).1
  categoryOutcomes := Tallies.update c.category (emptyOutcomes labels)
    (fun o => (recordOutcome o c.xBackend c.yBackend (judgmentOf judgments c)).1)
    s.categoryOutcomes
  categoryCounts := Tallies.update c.category 0 (· + 1) s.categoryCounts
  judgmentCounts := Tallies.update (judgmentOf judgments c) 0 (· + 1) s.judgmentCounts
  unblindedCases := s.unblindedCases ++
    [⟨c, judgmentOf judgments c,
      (recordOutcome s.outcomes c.xBackend c.yBackend (judgmentOf judgments c)).2⟩]

def scoreCases (labels : List Text) (judgments : Judgments) (cases : List KeyCase) : Scoring :=
  cases.foldl (scoreCase labels judgments) ⟨emptyOutcomes labels, [], [], [], []⟩

def countUnder {κ : Type} [DecidableEq κ] (k : κ) (counts : List (κ × Nat)) : Nat :=
  (counts.lookup k).getD 0

def reportOf (key : Key) (judgmentsSha256 : Text) (s : Scoring) (objective : ObjectiveQuality) :
    Report where
  sourceRef := key.sourceRef
  corpus := key.corpus
  backends := key.backends
  reviewSha256 := key.reviewSha256
  judgmentsSha256 := judgmentsSha256
  unblindKeyIntegrity := key.integrity
  cases := key.cases.length
  topK := key.topK
  xPlacement := key.xPlacement
  yPlacement := key.yPlacement
  judgmentCounts := allowedJudgments.map fun j => (j, countUnder j s.judgmentCounts)
  byBackend := renderOutcomes s.outcomes key.cases.length
  byCategory := (sortedItems s.categoryOutcomes).map fun e =>
    (e.1, ⟨countUnder e.1 s.categoryCounts,
      renderOutcomes e.2 (countUnder e.1 s.categoryCounts)⟩)
  objectiveQuality := objective
  unblindedCases := s.unblindedCases

def score (H : Hashes) (packet : Packet) (judgmentsText : Text) : Except String Report := do
  let loaded ← loadPacket H packet
  let judged ← loadJudgments H "judgments" (loaded.2.map (·.1)) judgmentsText
  let objective ← objectiveQuality loaded.1 loaded.2
  return reportOf loaded.1 judged.2
    (scoreCases (labelsOf loaded.1.backends) judged.1 loaded.1.cases) objective

end Hazkey.BlindReview
