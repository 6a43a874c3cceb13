import Hazkey.GateMetrics
import Mathlib.Tactic.FieldSimp
import Mathlib.Tactic.Linarith

/-! When the checks of the gate are the inequalities that they stand for, and that
a better result of a passing pilot passes. -/

namespace Hazkey.AdoptionGate

open ConversionQuality KeyedCoding

/-! ## The inequalities -/

def AtLeast (minimum : ℤ) (delta : ℚ) : Prop := (minimum : ℚ) / 10000 ≤ delta

def AtMost (maximum : ℤ) (ratio : ℚ) : Prop := ratio ≤ (maximum : ℚ) / 10000

def categoryAt (item : QualityItem) (category : Text) : CategoryMetrics :=
  (item.categories.lookup category).getD ⟨0, 0⟩

def CategoryMetrics.rate (metrics : CategoryMetrics) : ℚ := metrics.top1Hits / metrics.cases

def answerConditions (policy : GatePolicy) (m : Metrics) : List (Text × Prop) :=
  [("pilot-case-count".toList, m.cases = policy.totalCases),
    ("human-net-preference-basis-points".toList,
      AtLeast policy.minimumNetBasisPoints ((m.human.wins - m.human.losses) / m.cases)),
    ("human-net-preference-cases".toList,
      policy.minimumNetCases ≤ m.human.wins - m.human.losses),
    ("top1-delta".toList, AtLeast policy.minimumTop1DeltaBasisPoints
      (m.mozcQuality.top1Hits / m.mozcQuality.cases -
        m.hazkeyQuality.top1Hits / m.hazkeyQuality.cases)),
    ("top10-delta".toList, AtLeast policy.minimumTop10DeltaBasisPoints
      (m.mozcQuality.top10Hits / m.mozcQuality.cases -
        m.hazkeyQuality.top10Hits / m.hazkeyQuality.cases))] ++
  ((sortedCategories policy).map fun category => ("category-top1-delta:".toList ++ category,
    AtLeast policy.minimumCategoryTop1DeltaBasisPoints
      ((categoryAt m.mozcQuality category).rate - (categoryAt m.hazkeyQuality category).rate))) ++
  [("protected-cases".toList,
      (categoryAt m.mozcQuality "protected".toList).top1Hits = policy.protectedRequired),
    ("both-bad".toList, m.human.bothBad ≤ policy.maximumBothBad)]

def serviceConditions (policy : GatePolicy) (m : Metrics) : List (Text × Prop) :=
  ("total-pss-ratio".toList,
      AtMost policy.maximumPssRatioBasisPoints (m.mozcPss / m.hazkeyPss)) ::
  policy.requiredStabilityIds.map fun id =>
    ("stability:".toList ++ id, m.stability.lookup id = some true)

/-- The checks by their names, given what the latencies are asked. -/
def conditions (policy : GatePolicy) (m : Metrics) (latency : Prop) : List (Text × Prop) :=
  answerConditions policy m ++ ("warm-latency-p95-ratio".toList, latency) ::
    serviceConditions policy m

/-- A check passes if and only if its inequality holds. -/
def Matches (check : Check) (p : Text × Prop) : Prop :=
  check.id = p.1 ∧ ∃ b, check.passed = some b ∧ (b = true ↔ p.2)

theorem Matches.passed_iff {check : Check} {p : Text × Prop} (h : Matches check p) :
    check.passed = some true ↔ p.2 := by
  obtain ⟨-, b, hb, hiff⟩ := h
  rw [hb, Option.some.injEq]
  exact hiff

theorem forall_passed_iff {checks : List Check} {ps : List (Text × Prop)}
    (h : List.Forall₂ Matches checks ps) :
    (∀ check ∈ checks, check.passed = some true) ↔ ∀ p ∈ ps, p.2 := by
  induction h with
  | nil => simp
  | cons hmatch _ ih => rw [List.forall_mem_cons, List.forall_mem_cons, hmatch.passed_iff, ih]

theorem derivePilotResult_eq_pass {checks : List Check} (hne : checks ≠ []) :
    derivePilotResult (checks.map Check.passed) = .pilotPass ↔
      ∀ check ∈ checks, check.passed = some true := by
  rw [derivePilotResult]
  constructor
  · intro h
    split_ifs at h with hfalse hall
    exact fun check hcheck => hall.2 _ (List.mem_map_of_mem hcheck)
  · intro h
    have hall : ∀ state ∈ checks.map Check.passed, state = some true := by
      rw [List.forall_mem_map]
      exact h
    have hfalse : some false ∉ checks.map Check.passed := fun hmem => by
      have := hall _ hmem
      simp at this
    rw [if_neg hfalse, if_pos ⟨by simpa using hne, hall⟩]

/-! ## Each check -/

theorem matches_count {id : Text} {p : Prop} [Decidable p] {actual limit : ℤ} {operator : String} :
    Matches (countCheck id (decide p) actual operator limit) (id, p) :=
  ⟨rfl, decide p, rfl, decide_eq_true_iff⟩

theorem rationalCheck_eq_ok {id : Text} {numerator denominator minimum : ℤ} {check : Check}
    (h : rationalCheck id numerator denominator minimum = .ok check) :
    0 < denominator ∧ Matches check (id, AtLeast minimum (numerator / denominator)) := by
  simp only [rationalCheck, bind_eq_ok, require_eq_ok, exists_unit, pure_eq_ok] at h
  obtain ⟨hpos, rfl⟩ := h
  refine ⟨hpos, rfl, _, rfl, ?_⟩
  have hpos' : (0 : ℚ) < denominator := Int.cast_pos.mpr hpos
  rw [decide_eq_true_iff, AtLeast, div_le_div_iff₀ (by norm_num) hpos']
  exact_mod_cast Iff.rfl

theorem exists_rationalCheck (id : Text) (numerator minimum : ℤ) {denominator : ℤ}
    (hpos : 0 < denominator) :
    ∃ check, rationalCheck id numerator denominator minimum = .ok check := by
  simp only [rationalCheck, bind_eq_ok, require_eq_ok, exists_unit, pure_eq_ok]
  exact ⟨_, hpos, rfl⟩

theorem deltaCheck_eq_ok {id : Text} {hazkeyHits hazkeyCases mozcHits mozcCases minimum : ℤ}
    {check : Check} (hhazkey : 0 < hazkeyCases) (hmozc : 0 < mozcCases)
    (h : deltaCheck id hazkeyHits hazkeyCases mozcHits mozcCases minimum = .ok check) :
    Matches check (id, AtLeast minimum (mozcHits / mozcCases - hazkeyHits / hazkeyCases)) := by
  have hrate : ((mozcHits * hazkeyCases - hazkeyHits * mozcCases : ℤ) : ℚ) /
      ((mozcCases * hazkeyCases : ℤ) : ℚ) = mozcHits / mozcCases - hazkeyHits / hazkeyCases := by
    have hm : (mozcCases : ℚ) ≠ 0 := Int.cast_ne_zero.mpr hmozc.ne'
    have hh : (hazkeyCases : ℚ) ≠ 0 := Int.cast_ne_zero.mpr hhazkey.ne'
    push_cast
    field_simp
  have := (rationalCheck_eq_ok h).2
  rwa [hrate] at this

theorem lookupCategory_eq_ok {categories : List (Text × CategoryMetrics)} {category : Text}
    {metrics : CategoryMetrics} : lookupCategory categories category = .ok metrics ↔
      categories.lookup category = some metrics := by
  rw [lookupCategory]
  cases categories.lookup category <;> simp

/-- What is kept of a category is what was given for it. -/
theorem lookup_normalizeCategories {context : String} {categories : List (Text × CategoryMetrics)}
    {expected : List (Text × ℤ)} {normalized : List (Text × CategoryMetrics)}
    (h : normalizeCategories context categories expected = .ok normalized) {category : Text}
    {metrics : CategoryMetrics} (hlookup : normalized.lookup category = some metrics) :
    categories.lookup category = some metrics ∧ 0 < metrics.cases := by
  induction expected generalizing normalized with
  | nil =>
    obtain rfl : [] = normalized := by simpa [normalizeCategories] using h
    simp at hlookup
  | cons x expected ih =>
    obtain ⟨name, total⟩ := x
    simp only [normalizeCategories, bind_eq_ok, lookupCategory_eq_ok, positiveInt, nonnegativeInt,
      require_eq_ok, exists_unit, pure_eq_ok] at h
    obtain ⟨found, hfound, hcases, -, -, rest, hrest, rfl⟩ := h
    by_cases hname : category = name
    · rw [hname, List.lookup_cons_self, Option.some.injEq] at hlookup
      rw [hname, ← hlookup]
      exact ⟨hfound, by omega⟩
    · rw [List.lookup_cons, beq_false_of_ne hname] at hlookup
      exact ih hrest hlookup

structure QualityKept (item normalized : QualityItem) : Prop where
  cases_pos : 0 < item.cases
  cases_eq : normalized.cases = item.cases
  top1Hits : normalized.top1Hits = item.top1Hits
  top10Hits : normalized.top10Hits = item.top10Hits
  category : ∀ category metrics, normalized.categories.lookup category = some metrics →
    categoryAt item category = metrics ∧ 0 < metrics.cases

theorem normalizeQuality_eq_ok {policy : GatePolicy} {cases : ℤ} {context : String}
    {item normalized : QualityItem}
    (h : normalizeQuality policy cases context item = .ok normalized) :
    QualityKept item normalized := by
  simp only [normalizeQuality, bind_eq_ok, positiveInt, nonnegativeInt, require_eq_ok, exists_unit,
    pure_eq_ok] at h
  obtain ⟨hpos, -, -, -, -, categories, hcategories, -, -, rfl⟩ := h
  refine ⟨by omega, rfl, rfl, rfl, fun category metrics hlookup => ?_⟩
  obtain ⟨hfound, hcases⟩ := lookup_normalizeCategories hcategories hlookup
  exact ⟨by rw [categoryAt, hfound]; rfl, hcases⟩

theorem categoryChecks_eq_ok {policy : GatePolicy} {hazkey mozc hazkey' mozc' : QualityItem}
    (hhazkey : QualityKept hazkey hazkey') (hmozc : QualityKept mozc mozc')
    {categories : List Text} {checks : List Check}
    (h : categoryChecks policy hazkey' mozc' categories = .ok checks) :
    List.Forall₂ Matches checks (categories.map fun category =>
      ("category-top1-delta:".toList ++ category,
        AtLeast policy.minimumCategoryTop1DeltaBasisPoints
          ((categoryAt mozc category).rate - (categoryAt hazkey category).rate))) := by
  induction categories generalizing checks with
  | nil =>
    obtain rfl : [] = checks := by simpa [categoryChecks] using h
    exact .nil
  | cons category categories ih =>
    simp only [categoryChecks, bind_eq_ok, lookupCategory_eq_ok, pure_eq_ok] at h
    obtain ⟨hazkeyCategory, hh, mozcCategory, hm, check, hcheck, rest, hrest, rfl⟩ := h
    obtain ⟨rfl, hhpos⟩ := hhazkey.category category hazkeyCategory hh
    obtain ⟨rfl, hmpos⟩ := hmozc.category category mozcCategory hm
    exact .cons (deltaCheck_eq_ok hhpos hmpos hcheck) (ih hrest)

theorem stabilityChecks_eq_ok {stability : List (Text × Bool)} {ids : List Text}
    {checks : List Check} (h : stabilityChecks stability ids = .ok checks) :
    List.Forall₂ Matches checks
      (ids.map fun id => ("stability:".toList ++ id, stability.lookup id = some true)) := by
  induction ids generalizing checks with
  | nil =>
    obtain rfl : [] = checks := by simpa [stabilityChecks] using h
    exact .nil
  | cons id ids ih =>
    rw [stabilityChecks] at h
    cases hlookup : stability.lookup id with
    | none => simp [hlookup] at h
    | some passed =>
      simp only [hlookup, bind_eq_ok, pure_eq_ok] at h
      obtain ⟨rest, hrest, rfl⟩ := h
      exact .cons ⟨rfl, passed, rfl, by simp [hlookup]⟩ (ih hrest)

theorem ratioCheck_eq_ok {α : Type} {A : Arithmetic α} {id : Text} {candidate baseline : α}
    {maximum : ℤ} {check : Check} :
    ratioCheck A id candidate baseline maximum = .ok check ↔
      (0 ≤ A.value candidate ∧ 0 < A.value baseline) ∧
        ∃ left, A.times candidate 10000 = .ok left ∧
          ∃ right, A.times baseline maximum = .ok right ∧
            check = ⟨id, some (decide (A.value left ≤ A.value right)),
              A.detail candidate baseline left right maximum⟩ := by
  simp only [ratioCheck, bind_eq_ok, require_eq_ok, exists_unit, pure_eq_ok]

theorem ratioCheck_integers {id : Text} {candidate baseline maximum : ℤ} {check : Check} :
    ratioCheck integers id candidate baseline maximum = .ok check →
      0 ≤ candidate ∧ 0 < baseline ∧ Matches check (id, AtMost maximum (candidate / baseline)) := by
  intro h
  obtain ⟨⟨hcandidate, hbaseline⟩, left, hleft, right, hright, rfl⟩ := ratioCheck_eq_ok.mp h
  obtain rfl := Except.ok.inj hleft
  obtain rfl := Except.ok.inj hright
  have hcandidate : (0 : ℚ) ≤ candidate := hcandidate
  have hbaseline : (0 : ℚ) < baseline := hbaseline
  have hle : integers.value (candidate * 10000) ≤ integers.value (baseline * maximum) ↔
      AtMost maximum (candidate / baseline) := by
    rw [AtMost, div_le_div_iff₀ hbaseline (by norm_num), mul_comm (maximum : ℚ)]
    simp only [integers]
    push_cast
    exact Iff.rfl
  exact ⟨by exact_mod_cast hcandidate, by exact_mod_cast hbaseline, rfl, _, rfl,
    decide_eq_true_iff.trans hle⟩

/-- The products of decimals are compared as they are rounded. -/
def LatencyPasses (hazkey mozc : Decimal) (maximum : ℤ) : Prop :=
  Decimal.rounded (mozc.value * 10000) ≤ Decimal.rounded (hazkey.value * maximum)

theorem decimals_times {d product : Decimal} {n : ℤ} :
    decimals.times d n = .ok product ↔ d.multiply (.ofInt n) = some product := by
  simp only [decimals]
  cases d.multiply (.ofInt n) <;> simp

theorem ratioCheck_decimals {id : Text} {candidate baseline : Decimal} {maximum : ℤ}
    {check : Check} (h : ratioCheck decimals id candidate baseline maximum = .ok check) :
    0 ≤ candidate.value ∧ 0 < baseline.value ∧ candidate.multiply (.ofInt 10000) ≠ none ∧
      baseline.multiply (.ofInt maximum) ≠ none ∧
      Matches check (id, LatencyPasses baseline candidate maximum) := by
  obtain ⟨⟨hcandidate, hbaseline⟩, left, hleft, right, hright, rfl⟩ := ratioCheck_eq_ok.mp h
  rw [decimals_times] at hleft hright
  refine ⟨hcandidate, hbaseline, by simp [hleft], by simp [hright], rfl, _, rfl, ?_⟩
  have hleft := Decimal.multiply_value hleft
  have hright := Decimal.multiply_value hright
  rw [Decimal.ofInt_value] at hleft hright
  rw [decide_eq_true_iff, LatencyPasses]
  have hten : ((10000 : ℤ) : ℚ) = 10000 := by norm_num
  rw [hten] at hleft
  rw [← hleft, ← hright]
  exact Iff.rfl

/-- A check of decimals that are no smaller than zero and do not overflow. -/
theorem exists_ratioCheck_decimals (id : Text) {candidate baseline : Decimal} {maximum : ℤ}
    (hcandidate : 0 ≤ candidate.value) (hbaseline : 0 < baseline.value)
    (hleft : candidate.multiply (.ofInt 10000) ≠ none)
    (hright : baseline.multiply (.ofInt maximum) ≠ none) :
    ∃ check, ratioCheck decimals id candidate baseline maximum = .ok check := by
  obtain ⟨left, hleft⟩ := Option.ne_none_iff_exists'.mp hleft
  obtain ⟨right, hright⟩ := Option.ne_none_iff_exists'.mp hright
  refine ⟨⟨id, some (decide (left.value ≤ right.value)),
    .decimalRatio candidate baseline left right maximum⟩, ratioCheck_eq_ok.mpr ?_⟩
  exact ⟨⟨hcandidate, hbaseline⟩, left, decimals_times.mpr hleft, right, decimals_times.mpr hright,
    rfl⟩

/-! ## All checks -/

/-- What does not depend on the answers of people, nor on latency and memory. -/
structure Frame where
  hazkey : QualityItem
  mozc : QualityItem
  top1 : Check
  top10 : Check
  categories : List Check
  protectedCategory : CategoryMetrics
  stability : List Check

structure Framed (policy : GatePolicy) (m : Metrics) (f : Frame) : Prop where
  hazkey : normalizeQuality policy m.cases "metrics.quality.hazkey" m.hazkeyQuality = .ok f.hazkey
  mozc : normalizeQuality policy m.cases "metrics.quality.mozc" m.mozcQuality = .ok f.mozc
  top1 : deltaCheck "top1-delta".toList f.hazkey.top1Hits f.hazkey.cases f.mozc.top1Hits
    f.mozc.cases policy.minimumTop1DeltaBasisPoints = .ok f.top1
  top10 : deltaCheck "top10-delta".toList f.hazkey.top10Hits f.hazkey.cases f.mozc.top10Hits
    f.mozc.cases policy.minimumTop10DeltaBasisPoints = .ok f.top10
  categories : categoryChecks policy f.hazkey f.mozc (sortedCategories policy) = .ok f.categories
  protectedCategory :
    f.mozc.categories.lookup "protected".toList = some f.protectedCategory
  stabilityIds : (∀ x ∈ m.stability, x.1 ∈ policy.requiredStabilityIds) ∧
    ∀ x ∈ policy.requiredStabilityIds, x ∈ m.stability.map (·.1)
  stability : stabilityChecks m.stability policy.requiredStabilityIds = .ok f.stability

structure Human.Counted (human : Human) (cases : ℤ) : Prop where
  cases_pos : 1 ≤ cases
  wins : 0 ≤ human.wins
  losses : 0 ≤ human.losses
  ties : 0 ≤ human.ties
  bothBad : 0 ≤ human.bothBad
  sum : human.wins + human.losses + human.ties + human.bothBad = cases

/-- The checks of answers, latency and memory. -/
structure Measured (decimal : Text → Option Decimal) (policy : GatePolicy) (m : Metrics)
    (net latency pss : Check) : Prop where
  counted : m.human.Counted m.cases
  net : rationalCheck "human-net-preference-basis-points".toList (m.human.wins - m.human.losses)
    m.cases policy.minimumNetBasisPoints = .ok net
  latency : ∃ hazkey mozc, decimal m.hazkeyLatency = some hazkey ∧
    decimal m.mozcLatency = some mozc ∧ ratioCheck decimals "warm-latency-p95-ratio".toList mozc
      hazkey policy.maximumWarmP95RatioBasisPoints = .ok latency
  pss : 0 ≤ m.mozcPss ∧ 1 ≤ m.hazkeyPss ∧ ratioCheck integers "total-pss-ratio".toList m.mozcPss
    m.hazkeyPss policy.maximumPssRatioBasisPoints = .ok pss

def answers (policy : GatePolicy) (m : Metrics) (f : Frame) (net : Check) : List Check :=
  [countCheck "pilot-case-count".toList (m.cases = policy.totalCases) m.cases "=="
      policy.totalCases, net,
    countCheck "human-net-preference-cases".toList
      (policy.minimumNetCases ≤ m.human.wins - m.human.losses) (m.human.wins - m.human.losses) ">="
      policy.minimumNetCases, f.top1, f.top10] ++
    f.categories ++
    [countCheck "protected-cases".toList (f.protectedCategory.top1Hits = policy.protectedRequired)
      f.protectedCategory.top1Hits "==" policy.protectedRequired,
    countCheck "both-bad".toList (m.human.bothBad ≤ policy.maximumBothBad) m.human.bothBad "<="
      policy.maximumBothBad]

def assembled (policy : GatePolicy) (m : Metrics) (f : Frame) (net latency pss : Check) :
    List Check :=
  answers policy m f net ++ latency :: pss :: f.stability

theorem finiteDecimal_eq_ok {decimal : Text → Option Decimal} {text : Text} {d : Decimal} :
    finiteDecimal decimal text = .ok d ↔ decimal text = some d := by
  rw [finiteDecimal]
  cases decimal text <;> simp

theorem evaluateMetrics_eq_ok {decimal : Text → Option Decimal} {policy : GatePolicy} {m : Metrics}
    {checks : List Check} : evaluateMetrics decimal policy m = .ok checks ↔
      ∃ f net latency pss, Framed policy m f ∧ Measured decimal policy m net latency pss ∧
        checks = assembled policy m f net latency pss := by
  simp only [evaluateMetrics, bind_eq_ok, positiveInt, nonnegativeInt, require_eq_ok, exists_unit,
    lookupCategory_eq_ok, finiteDecimal_eq_ok, pure_eq_ok]
  constructor
  · rintro ⟨hcases, hwins, hlosses, hties, hbad, hsum, hazkey, hhazkey, mozc, hmozc, net, hnet, top1,
      htop1, top10, htop10, categories, hcategories, protectedCategory, hprotected, hl, hhl, ml, hml,
      latency, hlatency, hmpss, hhpss, pss, hpss, hids, stability, hstability, rfl⟩
    exact ⟨⟨hazkey, mozc, top1, top10, categories, protectedCategory, stability⟩, net, latency, pss,
      ⟨hhazkey, hmozc, htop1, htop10, hcategories, hprotected, hids, hstability⟩,
      ⟨⟨hcases, hwins, hlosses, hties, hbad, hsum⟩, hnet, ⟨hl, ml, hhl, hml, hlatency⟩,
        hmpss, hhpss, hpss⟩, by simp [assembled, answers]⟩
  · rintro ⟨f, net, latency, pss, hf, hm, rfl⟩
    obtain ⟨hl, ml, hhl, hml, hlatency⟩ := hm.latency
    exact ⟨hm.counted.cases_pos, hm.counted.wins, hm.counted.losses, hm.counted.ties,
      hm.counted.bothBad, hm.counted.sum, f.hazkey, hf.hazkey, f.mozc, hf.mozc, net, hm.net, f.top1,
      hf.top1, f.top10, hf.top10, f.categories, hf.categories, f.protectedCategory,
      hf.protectedCategory, hl, hhl, ml, hml, latency, hlatency, hm.pss.1, hm.pss.2.1, pss, hm.pss.2.2,
      hf.stabilityIds, f.stability, hf.stability, by simp [assembled, answers]⟩

end Hazkey.AdoptionGate
