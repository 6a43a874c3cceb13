import Hazkey.GateDecision

/-! The gate decides exactly unless the two products of the latencies round to one
decimal, and a better result of a pilot that passes still passes. -/

namespace Hazkey.AdoptionGate

open ConversionQuality KeyedCoding

/-! ## The exact conditions -/

def LatencyWithin (decimal : Text → Option Decimal) (policy : GatePolicy) (m : Metrics) : Prop :=
  ∃ hazkey mozc, decimal m.hazkeyLatency = some hazkey ∧ decimal m.mozcLatency = some mozc ∧
    AtMost policy.maximumWarmP95RatioBasisPoints (mozc.value / hazkey.value)

/-- A latency above its limit by less than the context can tell. -/
def LatencyLost (decimal : Text → Option Decimal) (policy : GatePolicy) (m : Metrics) : Prop :=
  ∃ hazkey mozc, decimal m.hazkeyLatency = some hazkey ∧ decimal m.mozcLatency = some mozc ∧
    hazkey.value * policy.maximumWarmP95RatioBasisPoints < mozc.value * 10000 ∧
    Decimal.rounded (mozc.value * 10000) =
      Decimal.rounded (hazkey.value * policy.maximumWarmP95RatioBasisPoints)

theorem atMost_iff {candidate baseline : ℚ} {maximum : ℤ} (hbaseline : 0 < baseline) :
    AtMost maximum (candidate / baseline) ↔ candidate * 10000 ≤ baseline * maximum := by
  rw [AtMost, div_le_div_iff₀ hbaseline (by norm_num), mul_comm (maximum : ℚ)]

/-- Rounding keeps what is at most the limit and may let more pass. -/
theorem latencyPasses_iff {hazkey mozc : Decimal} {maximum : ℤ} (hpos : 0 < hazkey.value) :
    LatencyPasses hazkey mozc maximum ↔
      AtMost maximum (mozc.value / hazkey.value) ∨
        (hazkey.value * maximum < mozc.value * 10000 ∧
          Decimal.rounded (mozc.value * 10000) = Decimal.rounded (hazkey.value * maximum)) := by
  rw [atMost_iff hpos, LatencyPasses]
  by_cases hle : mozc.value * 10000 ≤ hazkey.value * maximum
  · exact iff_of_true (Decimal.rounded_mono hle) (.inl hle)
  · have hlt := not_le.mp hle
    constructor
    · intro h
      exact .inr ⟨hlt, le_antisymm h (Decimal.rounded_mono hlt.le)⟩
    · rintro (h | h)
      · exact absurd h hle
      · exact h.2.le

theorem Framed.matches {policy : GatePolicy} {m : Metrics} {f : Frame} (h : Framed policy m f) :
    Matches f.top1 ("top1-delta".toList, AtLeast policy.minimumTop1DeltaBasisPoints
      (m.mozcQuality.top1Hits / m.mozcQuality.cases -
        m.hazkeyQuality.top1Hits / m.hazkeyQuality.cases)) ∧
    Matches f.top10 ("top10-delta".toList, AtLeast policy.minimumTop10DeltaBasisPoints
      (m.mozcQuality.top10Hits / m.mozcQuality.cases -
        m.hazkeyQuality.top10Hits / m.hazkeyQuality.cases)) ∧
    f.protectedCategory = categoryAt m.mozcQuality "protected".toList := by
  have hhazkey := normalizeQuality_eq_ok h.hazkey
  have hmozc := normalizeQuality_eq_ok h.mozc
  have htop1 := h.top1
  have htop10 := h.top10
  rw [hhazkey.cases_eq, hmozc.cases_eq] at htop1 htop10
  rw [hhazkey.top1Hits, hmozc.top1Hits] at htop1
  rw [hhazkey.top10Hits, hmozc.top10Hits] at htop10
  exact ⟨deltaCheck_eq_ok hhazkey.cases_pos hmozc.cases_pos htop1,
    deltaCheck_eq_ok hhazkey.cases_pos hmozc.cases_pos htop10,
    (hmozc.category _ _ h.protectedCategory).1.symm⟩

/-- What is asked of the metrics beside the frame. -/
structure Sound (decimal : Text → Option Decimal) (policy : GatePolicy) (m : Metrics)
    (hazkey mozc : Decimal) : Prop where
  counted : m.human.Counted m.cases
  hazkeyLatency : decimal m.hazkeyLatency = some hazkey
  mozcLatency : decimal m.mozcLatency = some mozc
  candidate_nonneg : 0 ≤ mozc.value
  baseline_pos : 0 < hazkey.value
  candidate_times : mozc.multiply (.ofInt 10000) ≠ none
  baseline_times : hazkey.multiply (.ofInt policy.maximumWarmP95RatioBasisPoints) ≠ none
  mozcPss : 0 ≤ m.mozcPss
  hazkeyPss : 0 < m.hazkeyPss

theorem Measured.sound {decimal : Text → Option Decimal} {policy : GatePolicy} {m : Metrics}
    {net latency pss : Check} (h : Measured decimal policy m net latency pss) :
    ∃ hazkey mozc, Sound decimal policy m hazkey mozc := by
  obtain ⟨hazkey, mozc, hhazkey, hmozc, hratio⟩ := h.latency
  obtain ⟨hcandidate, hbaseline, hleft, hright, -⟩ := ratioCheck_decimals hratio
  obtain ⟨hmozcPss, hhazkeyPss, -⟩ := ratioCheck_integers h.pss.2.2
  exact ⟨hazkey, mozc, h.counted, hhazkey, hmozc, hcandidate, hbaseline, hleft, hright, hmozcPss,
    hhazkeyPss⟩

theorem Sound.measured {decimal : Text → Option Decimal} {policy : GatePolicy} {m : Metrics}
    {hazkey mozc : Decimal} (h : Sound decimal policy m hazkey mozc) :
    ∃ net latency pss, Measured decimal policy m net latency pss := by
  obtain ⟨latency, hlatency⟩ := exists_ratioCheck_decimals "warm-latency-p95-ratio".toList
    h.candidate_nonneg h.baseline_pos h.candidate_times h.baseline_times
  obtain ⟨net, hnet⟩ := exists_rationalCheck "human-net-preference-basis-points".toList
    (m.human.wins - m.human.losses) policy.minimumNetBasisPoints
    (show 0 < m.cases from h.counted.cases_pos)
  have hmozcPss : (0 : ℚ) ≤ m.mozcPss := Int.cast_nonneg h.mozcPss
  have hhazkeyPss : (0 : ℚ) < m.hazkeyPss := Int.cast_pos.mpr h.hazkeyPss
  exact ⟨net, latency, _, h.counted, hnet, ⟨hazkey, mozc, h.hazkeyLatency, h.mozcLatency, hlatency⟩,
    h.mozcPss, h.hazkeyPss, ratioCheck_eq_ok.mpr ⟨⟨hmozcPss, hhazkeyPss⟩, _, rfl, _, rfl, rfl⟩⟩

/-- Every check is its inequality, that of the latencies on rounded products. -/
theorem assembled_matches {decimal : Text → Option Decimal} {policy : GatePolicy} {m : Metrics}
    {f : Frame} {net latency pss : Check} {hazkey mozc : Decimal} (hf : Framed policy m f)
    (hm : Measured decimal policy m net latency pss) (hs : Sound decimal policy m hazkey mozc) :
    List.Forall₂ Matches (assembled policy m f net latency pss)
      (conditions policy m (LatencyPasses hazkey mozc policy.maximumWarmP95RatioBasisPoints)) := by
  obtain ⟨hazkey', mozc', hhazkey, hmozc, hratio⟩ := hm.latency
  obtain rfl := Option.some.inj (hs.hazkeyLatency.symm.trans hhazkey)
  obtain rfl := Option.some.inj (hs.mozcLatency.symm.trans hmozc)
  obtain ⟨-, -, -, -, hlatency⟩ := ratioCheck_decimals hratio
  obtain ⟨-, -, hpss⟩ := ratioCheck_integers hm.pss.2.2
  obtain ⟨htop1, htop10, hprotected⟩ := hf.matches
  have hnet := (rationalCheck_eq_ok hm.net).2
  rw [Int.cast_sub] at hnet
  have hcategories := categoryChecks_eq_ok (normalizeQuality_eq_ok hf.hazkey)
    (normalizeQuality_eq_ok hf.mozc) hf.categories
  refine List.rel_append (List.rel_append (List.rel_append ?_ hcategories) ?_)
    (.cons hlatency (.cons hpss (stabilityChecks_eq_ok hf.stability)))
  · exact .cons matches_count (.cons hnet (.cons matches_count (.cons htop1 (.cons htop10 .nil))))
  · exact .cons (hprotected ▸ matches_count) (.cons matches_count .nil)

theorem pilotPass_iff {checks : List Check} {policy : GatePolicy} {m : Metrics} {latency : Prop}
    (h : List.Forall₂ Matches checks (conditions policy m latency)) :
    derivePilotResult (checks.map Check.passed) = .pilotPass ↔
      ∀ p ∈ conditions policy m latency, p.2 := by
  rw [derivePilotResult_eq_pass, forall_passed_iff h]
  rintro rfl
  have hlength := h.length_eq
  simp [conditions] at hlength

/-- Only one condition is about the latencies. -/
theorem iff_of_matches {checks : List Check} {before after : List (Text × Prop)} {id : Text}
    {P Q : Prop} (hP : List.Forall₂ Matches checks (before ++ (id, P) :: after))
    (hQ : List.Forall₂ Matches checks (before ++ (id, Q) :: after)) : P ↔ Q := by
  induction before generalizing checks with
  | nil =>
    cases hP with
    | cons hP _ =>
      cases hQ with
      | cons hQ _ => exact hP.passed_iff.symm.trans hQ.passed_iff
  | cons p before ih =>
    cases hP with
    | cons _ hP =>
      cases hQ with
      | cons _ hQ => exact ih hP hQ

/-! ## Better results -/

def Passes (decimal : Text → Option Decimal) (policy : GatePolicy) (m : Metrics) : Prop :=
  ∃ checks, evaluateMetrics decimal policy m = .ok checks ∧
    derivePilotResult (checks.map Check.passed) = .pilotPass

instance {decimal : Text → Option Decimal} {policy : GatePolicy} {m : Metrics} :
    Decidable (Passes decimal policy m) :=
  decidable_of_iff ((evaluateMetrics decimal policy m).toOption.any fun checks =>
      derivePilotResult (checks.map Check.passed) = .pilotPass) <| by
    rw [Passes]
    cases evaluateMetrics decimal policy m <;> simp [Except.toOption]

/-- One more win in place of another answer, or a lower latency or memory of Mozc. -/
inductive Improves (decimal : Text → Option Decimal) (m : Metrics) : Metrics → Prop
  | loss (h : 0 < m.human.losses) : Improves decimal m { m with
      human := { m.human with wins := m.human.wins + 1, losses := m.human.losses - 1 } }
  | tie (h : 0 < m.human.ties) : Improves decimal m { m with
      human := { m.human with wins := m.human.wins + 1, ties := m.human.ties - 1 } }
  | bothBad (h : 0 < m.human.bothBad) : Improves decimal m { m with
      human := { m.human with wins := m.human.wins + 1, bothBad := m.human.bothBad - 1 } }
  | latency {text : Text} {mozc lower : Decimal} (h : decimal m.mozcLatency = some mozc)
      (hlower : decimal text = some lower) (hnonneg : 0 ≤ lower.value)
      (hle : lower.value ≤ mozc.value) : Improves decimal m { m with mozcLatency := text }
  | pss {lower : ℤ} (hnonneg : 0 ≤ lower) (hle : lower ≤ m.mozcPss) :
      Improves decimal m { m with mozcPss := lower }

structure NoWorse (m m' : Metrics) : Prop where
  cases : m'.cases = m.cases
  hazkeyQuality : m'.hazkeyQuality = m.hazkeyQuality
  mozcQuality : m'.mozcQuality = m.mozcQuality
  stability : m'.stability = m.stability
  hazkeyPss : m'.hazkeyPss = m.hazkeyPss
  net : m.human.wins - m.human.losses ≤ m'.human.wins - m'.human.losses
  bothBad : m'.human.bothBad ≤ m.human.bothBad
  mozcPss : m'.mozcPss ≤ m.mozcPss

theorem Improves.noWorse {decimal : Text → Option Decimal} {m m' : Metrics}
    (h : Improves decimal m m') : NoWorse m m' := by
  cases h with
  | loss _ => exact ⟨rfl, rfl, rfl, rfl, rfl, by simp only; omega, le_rfl, le_rfl⟩
  | tie _ => exact ⟨rfl, rfl, rfl, rfl, rfl, by simp only; omega, le_rfl, le_rfl⟩
  | bothBad _ => exact ⟨rfl, rfl, rfl, rfl, rfl, by simp only; omega, by simp, le_rfl⟩
  | latency _ _ _ _ => exact ⟨rfl, rfl, rfl, rfl, rfl, le_rfl, le_rfl, le_rfl⟩
  | pss _ hle => exact ⟨rfl, rfl, rfl, rfl, rfl, le_rfl, le_rfl, hle⟩

theorem NoWorse.framed {policy : GatePolicy} {m m' : Metrics} {f : Frame} (h : NoWorse m m')
    (hf : Framed policy m f) : Framed policy m' f := by
  obtain ⟨hhazkey, hmozc, htop1, htop10, hcategories, hprotected, hids, hstability⟩ := hf
  rw [← h.cases, ← h.hazkeyQuality] at hhazkey
  rw [← h.cases, ← h.mozcQuality] at hmozc
  rw [← h.stability] at hids hstability
  exact ⟨hhazkey, hmozc, htop1, htop10, hcategories, hprotected, hids, hstability⟩

/-- Less of what is bounded from above and more of what is bounded from below. -/
theorem NoWorse.conditions {policy : GatePolicy} {m m' : Metrics} {latency latency' : Prop}
    (h : NoWorse m m') (hcases : 0 < m.cases) (hpss : 0 < m.hazkeyPss)
    (hlatency : latency → latency') (hall : ∀ p ∈ conditions policy m latency, p.2) :
    ∀ p ∈ AdoptionGate.conditions policy m' latency', p.2 := by
  have hcases' : (0 : ℚ) ≤ m.cases := Int.cast_nonneg hcases.le
  have hpss' : (0 : ℚ) ≤ m.hazkeyPss := Int.cast_nonneg hpss.le
  have hnet : (m.human.wins - m.human.losses : ℚ) ≤ m'.human.wins - m'.human.losses := by
    exact_mod_cast h.net
  have hmozcPss : (m'.mozcPss : ℚ) ≤ m.mozcPss := Int.cast_le.mpr h.mozcPss
  simp only [AdoptionGate.conditions, answerConditions, serviceConditions, List.forall_mem_append,
    List.forall_mem_cons, h.cases, h.hazkeyQuality, h.mozcQuality, h.stability, h.hazkeyPss]
    at hall ⊢
  obtain ⟨⟨⟨⟨hcount, hpoints, hnetCases, htop1, htop10, -⟩, hcategories⟩, hprotected, hbad, -⟩,
    hwarm, hratio, hstability⟩ := hall
  refine ⟨⟨⟨⟨hcount, ?_, hnetCases.trans h.net, htop1, htop10, by simp⟩, hcategories⟩, hprotected,
    h.bothBad.trans hbad, by simp⟩, hlatency hwarm, ?_, hstability⟩
  · exact hpoints.trans (div_le_div_of_nonneg_right hnet hcases')
  · exact (div_le_div_of_nonneg_right hmozcPss hpss').trans hratio

/-- A product that is smaller in magnitude does not overflow either. -/
theorem multiply_ne_none_of_le {lower d : Decimal} {n : ℤ} (hn : 0 ≤ n) (hnonneg : 0 ≤ lower.value)
    (hle : lower.value ≤ d.value) (h : d.multiply (.ofInt n) ≠ none) :
    lower.multiply (.ofInt n) ≠ none := by
  rw [Ne, Decimal.multiply_eq_none, Decimal.ofInt_value, not_le] at h ⊢
  have hn' : (0 : ℚ) ≤ n := Int.cast_nonneg hn
  have hlow : 0 ≤ Decimal.rounded (lower.value * n) :=
    DecimalRounding.roundTo_nonneg (by decide) (mul_nonneg hnonneg hn')
  have hmono : Decimal.rounded (lower.value * n) ≤ Decimal.rounded (d.value * n) :=
    Decimal.rounded_mono (mul_le_mul_of_nonneg_right hle hn')
  rw [abs_of_nonneg hlow]
  rw [abs_of_nonneg (hlow.trans hmono)] at h
  exact hmono.trans_lt h

theorem Improves.sound {decimal : Text → Option Decimal} {policy : GatePolicy} {m m' : Metrics}
    {hazkey mozc : Decimal} (h : Improves decimal m m') (hs : Sound decimal policy m hazkey mozc) :
    ∃ mozc', mozc'.value ≤ mozc.value ∧ Sound decimal policy m' hazkey mozc' := by
  obtain ⟨⟨hcases, hwins, hlosses, hties, hbothBad, hsum⟩, hh, hm, hcandidate, hbaseline, hleft,
    hright, hmozcPss, hhazkeyPss⟩ := hs
  cases h with
  | loss h =>
    have hcounted : Human.Counted { m.human with
        wins := m.human.wins + 1, losses := m.human.losses - 1 } m.cases :=
      ⟨hcases, by simp only; omega, by simp only; omega, hties, hbothBad, by simp only; omega⟩
    exact ⟨mozc, le_rfl, hcounted, hh, hm, hcandidate, hbaseline, hleft, hright, hmozcPss,
      hhazkeyPss⟩
  | tie h =>
    have hcounted : Human.Counted { m.human with
        wins := m.human.wins + 1, ties := m.human.ties - 1 } m.cases :=
      ⟨hcases, by simp only; omega, hlosses, by simp only; omega, hbothBad, by simp only; omega⟩
    exact ⟨mozc, le_rfl, hcounted, hh, hm, hcandidate, hbaseline, hleft, hright, hmozcPss,
      hhazkeyPss⟩
  | bothBad h =>
    have hcounted : Human.Counted { m.human with
        wins := m.human.wins + 1, bothBad := m.human.bothBad - 1 } m.cases :=
      ⟨hcases, by simp only; omega, hlosses, hties, by simp only; omega, by simp only; omega⟩
    exact ⟨mozc, le_rfl, hcounted, hh, hm, hcandidate, hbaseline, hleft, hright, hmozcPss,
      hhazkeyPss⟩
  | latency h hlower hnonneg hle =>
    obtain rfl := Option.some.inj (hm.symm.trans h)
    exact ⟨_, hle, ⟨hcases, hwins, hlosses, hties, hbothBad, hsum⟩, hh, hlower, hnonneg, hbaseline,
      multiply_ne_none_of_le (by decide) hnonneg hle hleft, hright, hmozcPss, hhazkeyPss⟩
  | pss hnonneg _ =>
    exact ⟨mozc, le_rfl, ⟨hcases, hwins, hlosses, hties, hbothBad, hsum⟩, hh, hm, hcandidate,
      hbaseline, hleft, hright, hnonneg, hhazkeyPss⟩

theorem LatencyPasses.mono {hazkey mozc mozc' : Decimal} {maximum : ℤ}
    (hle : mozc'.value ≤ mozc.value) (h : LatencyPasses hazkey mozc maximum) :
    LatencyPasses hazkey mozc' maximum :=
  (Decimal.rounded_mono (mul_le_mul_of_nonneg_right hle (by norm_num))).trans h

/-- A better pilot is admitted, and passes when the pilot does. -/
theorem Improves.passes {decimal : Text → Option Decimal} {policy : GatePolicy} {m m' : Metrics}
    (h : Improves decimal m m') (hpass : Passes decimal policy m) : Passes decimal policy m' := by
  obtain ⟨checks, hchecks, hresult⟩ := hpass
  obtain ⟨f, net, latency, pss, hf, hm, rfl⟩ := evaluateMetrics_eq_ok.mp hchecks
  obtain ⟨hazkey, mozc, hs⟩ := hm.sound
  obtain ⟨mozc', hle, hs'⟩ := h.sound hs
  obtain ⟨net', latency', pss', hm'⟩ := hs'.measured
  have hf' := h.noWorse.framed hf
  refine ⟨_, evaluateMetrics_eq_ok.mpr ⟨f, net', latency', pss', hf', hm', rfl⟩, ?_⟩
  rw [pilotPass_iff (assembled_matches hf hm hs)] at hresult
  rw [pilotPass_iff (assembled_matches hf' hm' hs')]
  exact h.noWorse.conditions hs.counted.cases_pos hs.hazkeyPss (LatencyPasses.mono hle) hresult

/-! ## When the decision is exact -/

theorem Sound.latencyWithin_iff {decimal : Text → Option Decimal} {policy : GatePolicy}
    {m : Metrics} {hazkey mozc : Decimal} (h : Sound decimal policy m hazkey mozc) :
    LatencyWithin decimal policy m ↔
      AtMost policy.maximumWarmP95RatioBasisPoints (mozc.value / hazkey.value) := by
  simp [LatencyWithin, h.hazkeyLatency, h.mozcLatency]

theorem Sound.latencyPasses_iff {decimal : Text → Option Decimal} {policy : GatePolicy}
    {m : Metrics} {hazkey mozc : Decimal} (h : Sound decimal policy m hazkey mozc) :
    LatencyPasses hazkey mozc policy.maximumWarmP95RatioBasisPoints ↔
      LatencyWithin decimal policy m ∨ LatencyLost decimal policy m := by
  rw [AdoptionGate.latencyPasses_iff h.baseline_pos, h.latencyWithin_iff]
  simp [LatencyLost, h.hazkeyLatency, h.mozcLatency]

theorem Sound.not_within_of_lost {decimal : Text → Option Decimal} {policy : GatePolicy}
    {m : Metrics} {hazkey mozc : Decimal} (h : Sound decimal policy m hazkey mozc)
    (hlost : LatencyLost decimal policy m) : ¬LatencyWithin decimal policy m := by
  rw [h.latencyWithin_iff, atMost_iff h.baseline_pos, not_le]
  obtain ⟨hazkey', mozc', hhazkey, hmozc, hlt, -⟩ := hlost
  obtain rfl := Option.some.inj (h.hazkeyLatency.symm.trans hhazkey)
  obtain rfl := Option.some.inj (h.mozcLatency.symm.trans hmozc)
  exact hlt

/-- Each check is its inequality and a pilot passes when all hold, and keeps passing when it gets
better, unless a latency is above its limit by less than a rounding. -/
theorem gate_exact_iff {decimal : Text → Option Decimal} {policy : GatePolicy} {m : Metrics}
    {checks : List Check} (h : evaluateMetrics decimal policy m = .ok checks) :
    (List.Forall₂ Matches checks (conditions policy m (LatencyWithin decimal policy m)) ∧
      (derivePilotResult (checks.map Check.passed) = .pilotPass ↔
        ∀ p ∈ conditions policy m (LatencyWithin decimal policy m), p.2) ∧
      ∀ m', Improves decimal m m' →
        derivePilotResult (checks.map Check.passed) = .pilotPass → Passes decimal policy m') ↔
    ¬LatencyLost decimal policy m := by
  obtain ⟨f, net, latency, pss, hf, hm, rfl⟩ := evaluateMetrics_eq_ok.mp h
  obtain ⟨hazkey, mozc, hs⟩ := hm.sound
  have hmatches := assembled_matches hf hm hs
  constructor
  · rintro ⟨hexact, -, -⟩ hlost
    have hpasses := iff_of_matches hmatches hexact
    exact hs.not_within_of_lost hlost (hpasses.mp (hs.latencyPasses_iff.mpr (.inr hlost)))
  · intro hkept
    have hlatency : LatencyPasses hazkey mozc policy.maximumWarmP95RatioBasisPoints =
        LatencyWithin decimal policy m := by
      rw [hs.latencyPasses_iff]
      exact propext (or_iff_left hkept)
    rw [hlatency] at hmatches
    exact ⟨hmatches, pilotPass_iff hmatches, fun m' hbetter hpass => hbetter.passes ⟨_, h, hpass⟩⟩

/-! A pilot of one case. The second candidate latency is above half of the baseline. -/

def pilotPolicy : GatePolicy :=
  ⟨1, [("protected".toList, 1)], 0, 0, 0, 0, 0, 1, 0, 5000, 10000, ["restart".toList]⟩

def pilotQuality : QualityItem := ⟨1, 1, 1, [("protected".toList, ⟨1, 1⟩)]⟩

def pilotMetrics (mozcLatency : String) : Metrics :=
  ⟨1, ⟨1, 0, 0, 0⟩, pilotQuality, pilotQuality, "1".toList, mozcLatency.toList, 2, 1,
    [("restart".toList, true)]⟩

def pilotDecimal (text : Text) : Option Decimal :=
  if text = "1".toList then some ⟨false, 1, 0⟩
  else if text = "0.5".toList then some ⟨false, 5, -1⟩
  else if text = "0.50000000000000000000000000001".toList then
    some ⟨false, 50000000000000000000000000001, -29⟩
  else none

/-- A candidate of exactly half of the baseline is decided exactly. -/
theorem gate_exact_half : ∃ checks,
    evaluateMetrics pilotDecimal pilotPolicy (pilotMetrics "0.5") = .ok checks ∧
      List.Forall₂ Matches checks (conditions pilotPolicy (pilotMetrics "0.5")
        (LatencyWithin pilotDecimal pilotPolicy (pilotMetrics "0.5"))) := by
  obtain ⟨checks, h, -⟩ : Passes pilotDecimal pilotPolicy (pilotMetrics "0.5") := by
    decide +kernel
  refine ⟨checks, h, ((gate_exact_iff h).mpr ?_).1⟩
  rintro ⟨hazkey, mozc, hhazkey, hmozc, hlt, -⟩
  obtain rfl : ⟨false, 1, 0⟩ = hazkey := Option.some.inj hhazkey
  obtain rfl : ⟨false, 5, -1⟩ = mozc := Option.some.inj hmozc
  revert hlt
  decide +kernel

/-- A latency above half of the baseline passes a limit of 5000 basis points. -/
theorem gate_rounds_latency : ∃ checks,
    evaluateMetrics pilotDecimal pilotPolicy (pilotMetrics "0.50000000000000000000000000001") =
        .ok checks ∧
      derivePilotResult (checks.map Check.passed) = .pilotPass ∧
      ¬LatencyWithin pilotDecimal pilotPolicy
        (pilotMetrics "0.50000000000000000000000000001") := by
  obtain ⟨checks, h, hpass⟩ : Passes pilotDecimal pilotPolicy
    (pilotMetrics "0.50000000000000000000000000001") := by decide +kernel
  refine ⟨checks, h, hpass, ?_⟩
  rintro ⟨hazkey, mozc, hhazkey, hmozc, hle⟩
  obtain rfl : ⟨false, 1, 0⟩ = hazkey := Option.some.inj hhazkey
  obtain rfl : ⟨false, 50000000000000000000000000001, -29⟩ = mozc := Option.some.inj hmozc
  revert hle
  rw [AtMost]
  decide +kernel

end Hazkey.AdoptionGate
