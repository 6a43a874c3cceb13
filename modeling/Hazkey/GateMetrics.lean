import Hazkey.Decimals
import Hazkey.QualityReports

/-! The checks of the adoption gate, from counts that are already derived. -/

namespace Hazkey.AdoptionGate

open ConversionQuality

-- Of the elements of a list, not of all of their type.
attribute [local instance (1100)] List.decidableBAll

structure GatePolicy where
  totalCases : ℤ
  categories : List (Text × ℤ)
  minimumNetBasisPoints : ℤ
  minimumNetCases : ℤ
  minimumTop1DeltaBasisPoints : ℤ
  minimumTop10DeltaBasisPoints : ℤ
  minimumCategoryTop1DeltaBasisPoints : ℤ
  protectedRequired : ℤ
  maximumBothBad : ℤ
  maximumWarmP95RatioBasisPoints : ℤ
  maximumPssRatioBasisPoints : ℤ
  requiredStabilityIds : List Text

structure Human where
  wins : ℤ
  losses : ℤ
  ties : ℤ
  bothBad : ℤ

structure CategoryMetrics where
  cases : ℤ
  top1Hits : ℤ
  deriving DecidableEq

structure QualityItem where
  cases : ℤ
  top1Hits : ℤ
  top10Hits : ℤ
  categories : List (Text × CategoryMetrics)

/-- Latencies are decimals as text. -/
structure Metrics where
  cases : ℤ
  human : Human
  hazkeyQuality : QualityItem
  mozcQuality : QualityItem
  hazkeyLatency : Text
  mozcLatency : Text
  hazkeyPss : ℤ
  mozcPss : ℤ
  stability : List (Text × Bool)

inductive Detail
  | count (actual : ℤ) (operator : Text) (limit : ℤ)
  | rational (numerator denominator left right limitBasisPoints : ℤ)
  | ratio (candidate baseline left right limitBasisPoints : ℤ)
  | decimalRatio (candidate baseline left right : Decimal) (limitBasisPoints : ℤ)
  | state (actual : Bool)
  deriving DecidableEq

structure Check where
  id : Text
  passed : Option Bool
  detail : Detail
  deriving DecidableEq

/-! ## Checks -/

def nonnegativeInt (value : ℤ) (context : String) : Except String Unit :=
  require (0 ≤ value) s!"{context} must be non-negative"

def positiveInt (value : ℤ) (context : String) : Except String Unit :=
  require (1 ≤ value) s!"{context} must be positive"

def countCheck (id : Text) (passed : Bool) (actual : ℤ) (operator : String) (limit : ℤ) : Check :=
  ⟨id, some passed, .count actual operator.toList limit⟩

def rationalCheck (id : Text) (numerator denominator minimum : ℤ) : Except String Check := do
  require (0 < denominator) s!"{String.ofList id}: denominator must be positive"
  return ⟨id, some (decide (minimum * denominator ≤ numerator * 10000)),
    .rational numerator denominator (numerator * 10000) (minimum * denominator) minimum⟩

/-- Numbers of one kind: what they are compared by, and their products. -/
structure Arithmetic (α : Type) where
  value : α → ℚ
  times : α → ℤ → Except String α
  detail : α → α → α → α → ℤ → Detail

def integers : Arithmetic ℤ := ⟨fun n => n, fun n k => .ok (n * k), .ratio⟩

def decimals : Arithmetic Decimal where
  value := Decimal.value
  times d k := match d.multiply (.ofInt k) with
    | none => .error "decimal.Overflow"
    | some product => .ok product
  detail := .decimalRatio

def ratioCheck {α : Type} (A : Arithmetic α) (id : Text) (candidate baseline : α) (maximum : ℤ) :
    Except String Check := do
  require (0 ≤ A.value candidate ∧ 0 < A.value baseline)
    s!"{String.ofList id}: candidate must be non-negative and baseline positive"
  let left ← A.times candidate 10000
  let right ← A.times baseline maximum
  return ⟨id, some (decide (A.value left ≤ A.value right)),
    A.detail candidate baseline left right maximum⟩

/-! ## Metrics -/

def lookupCategory (categories : List (Text × CategoryMetrics)) (category : Text) :
    Except String CategoryMetrics :=
  match categories.lookup category with
  | none => .error s!"KeyError: {String.ofList category}"
  | some metrics => .ok metrics

def normalizeCategories (context : String) (categories : List (Text × CategoryMetrics)) :
    List (Text × ℤ) → Except String (List (Text × CategoryMetrics))
  | [] => .ok []
  | (category, expectedTotal) :: rest => do
    let metrics ← lookupCategory categories category
    positiveInt metrics.cases s!"{context}.categories.{String.ofList category}.cases"
    nonnegativeInt metrics.top1Hits s!"{context}.categories.{String.ofList category}.top1_hits"
    require (metrics.cases = expectedTotal ∧ metrics.top1Hits ≤ metrics.cases)
      s!"{context}.categories.{String.ofList category} totals are inconsistent with policy"
    let normalized ← normalizeCategories context categories rest
    return (category, metrics) :: normalized

def normalizeQuality (policy : GatePolicy) (cases : ℤ) (context : String) (item : QualityItem) :
    Except String QualityItem := do
  positiveInt item.cases s!"{context}.cases"
  nonnegativeInt item.top1Hits s!"{context}.top1_hits"
  nonnegativeInt item.top10Hits s!"{context}.top10_hits"
  require (item.cases = cases ∧ item.top1Hits ≤ item.top10Hits ∧ item.top10Hits ≤ item.cases)
    s!"{context} totals are inconsistent"
  require ((∀ x ∈ item.categories, x.1 ∈ policy.categories.map (·.1)) ∧
      ∀ x ∈ policy.categories, x.1 ∈ item.categories.map (·.1))
    s!"{context}.categories do not match policy"
  let normalized ← normalizeCategories context item.categories policy.categories
  require ((normalized.map (·.2.cases)).sum = item.cases)
    s!"{context}.categories do not add up to cases"
  require ((normalized.map (·.2.top1Hits)).sum = item.top1Hits)
    s!"{context}.categories do not add up to top1_hits"
  return { item with categories := normalized }

def deltaCheck (id : Text) (hazkeyHits hazkeyCases mozcHits mozcCases minimum : ℤ) :
    Except String Check :=
  rationalCheck id (mozcHits * hazkeyCases - hazkeyHits * mozcCases) (mozcCases * hazkeyCases)
    minimum

def categoryChecks (policy : GatePolicy) (hazkey mozc : QualityItem) :
    List Text → Except String (List Check)
  | [] => .ok []
  | category :: rest => do
    let hazkeyCategory ← lookupCategory hazkey.categories category
    let mozcCategory ← lookupCategory mozc.categories category
    let check ← deltaCheck ("category-top1-delta:".toList ++ category) hazkeyCategory.top1Hits
      hazkeyCategory.cases mozcCategory.top1Hits mozcCategory.cases
      policy.minimumCategoryTop1DeltaBasisPoints
    let checks ← categoryChecks policy hazkey mozc rest
    return check :: checks

def stabilityChecks (stability : List (Text × Bool)) : List Text → Except String (List Check)
  | [] => .ok []
  | checkId :: rest =>
    match stability.lookup checkId with
    | none => .error s!"KeyError: {String.ofList checkId}"
    | some passed => do
      let checks ← stabilityChecks stability rest
      return ⟨"stability:".toList ++ checkId, some passed, .state passed⟩ :: checks

/-- None for a text that is no finite decimal. -/
def finiteDecimal (decimal : Text → Option Decimal) (text : Text) : Except String Decimal :=
  match decimal text with
  | none => .error "metrics warm latency values must be finite decimals"
  | some d => .ok d

def sortedCategories (policy : GatePolicy) : List Text :=
  WeakOrders.sortedBy FrozenCorpus.textLess (policy.categories.map (·.1))

def evaluateMetrics (decimal : Text → Option Decimal) (policy : GatePolicy) (metrics : Metrics) :
    Except String (List Check) := do
  positiveInt metrics.cases "metrics.cases"
  nonnegativeInt metrics.human.wins "metrics.human.wins"
  nonnegativeInt metrics.human.losses "metrics.human.losses"
  nonnegativeInt metrics.human.ties "metrics.human.ties"
  nonnegativeInt metrics.human.bothBad "metrics.human.both_bad"
  require (metrics.human.wins + metrics.human.losses + metrics.human.ties + metrics.human.bothBad =
    metrics.cases) "metrics.human counts do not add up to cases"
  let hazkey ← normalizeQuality policy metrics.cases "metrics.quality.hazkey" metrics.hazkeyQuality
  let mozc ← normalizeQuality policy metrics.cases "metrics.quality.mozc" metrics.mozcQuality
  let net ← rationalCheck "human-net-preference-basis-points".toList
    (metrics.human.wins - metrics.human.losses) metrics.cases policy.minimumNetBasisPoints
  let top1 ← deltaCheck "top1-delta".toList hazkey.top1Hits hazkey.cases mozc.top1Hits mozc.cases
    policy.minimumTop1DeltaBasisPoints
  let top10 ← deltaCheck "top10-delta".toList hazkey.top10Hits hazkey.cases mozc.top10Hits
    mozc.cases policy.minimumTop10DeltaBasisPoints
  let categories ← categoryChecks policy hazkey mozc (sortedCategories policy)
  let protectedCategory ← lookupCategory mozc.categories "protected".toList
  let hazkeyLatency ← finiteDecimal decimal metrics.hazkeyLatency
  let mozcLatency ← finiteDecimal decimal metrics.mozcLatency
  let latency ← ratioCheck decimals "warm-latency-p95-ratio".toList mozcLatency hazkeyLatency
    policy.maximumWarmP95RatioBasisPoints
  nonnegativeInt metrics.mozcPss "metrics.total_pss_kib.mozc"
  positiveInt metrics.hazkeyPss "metrics.total_pss_kib.hazkey"
  let pss ← ratioCheck integers "total-pss-ratio".toList metrics.mozcPss metrics.hazkeyPss
    policy.maximumPssRatioBasisPoints
  require ((∀ x ∈ metrics.stability, x.1 ∈ policy.requiredStabilityIds) ∧
      ∀ x ∈ policy.requiredStabilityIds, x ∈ metrics.stability.map (·.1))
    "metrics.stability IDs do not exactly match the frozen policy"
  let stability ← stabilityChecks metrics.stability policy.requiredStabilityIds
  return [countCheck "pilot-case-count".toList (metrics.cases = policy.totalCases) metrics.cases
      "==" policy.totalCases, net,
    countCheck "human-net-preference-cases".toList
      (policy.minimumNetCases ≤ metrics.human.wins - metrics.human.losses)
      (metrics.human.wins - metrics.human.losses) ">=" policy.minimumNetCases, top1, top10] ++
    categories ++
    [countCheck "protected-cases".toList (protectedCategory.top1Hits = policy.protectedRequired)
      protectedCategory.top1Hits "==" policy.protectedRequired,
    countCheck "both-bad".toList (metrics.human.bothBad ≤ policy.maximumBothBad)
      metrics.human.bothBad "<=" policy.maximumBothBad, latency, pss] ++ stability

inductive PilotResult
  | pilotPass
  | pilotFail
  | inconclusive
  deriving DecidableEq

def derivePilotResult (states : List (Option Bool)) : PilotResult :=
  if some false ∈ states then .pilotFail
  else if states ≠ [] ∧ ∀ state ∈ states, state = some true then .pilotPass
  else .inconclusive

end Hazkey.AdoptionGate
