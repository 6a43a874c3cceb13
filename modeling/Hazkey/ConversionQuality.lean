import Hazkey.NearDuplicates
import Hazkey.Tallies
import Mathlib.Algebra.Order.Field.Rat

/-! The evaluation of one converter on a corpus, and the comparison of two
evaluations. Rates are rationals where the scripts have floating point. -/

namespace Hazkey.ConversionQuality

def require (p : Prop) [Decidable p] (message : String) : Except String Unit :=
  if p then .ok () else .error message

/-- `_string`. -/
def requireString (value : Text) (context : String) : Except String Unit :=
  require (value ≠ []) s!"{context} must be a non-empty string"

def requireStrings (context : String) : Nat → List Text → Except String Unit
  | _, [] => .ok ()
  | index, value :: values => do
    requireString value s!"{context}[{index}]"
    requireStrings context (index + 1) values

/-! ## The corpus -/

structure Row where
  id : Text
  reading : Text
  expected : Text
  category : Text
  deriving DecidableEq

def Row.alternatives (row : Row) : List Text := row.expected.splitOn '|'

def checkRow (context : String) (lineNumber : Nat) (row : Row) : Except String Unit := do
  require (row.reading ≠ []) s!"{context}:{lineNumber}: reading must not be empty"
  require (row.category ≠ []) s!"{context}:{lineNumber}: category must not be empty"
  require ([] ∉ row.alternatives)
    s!"{context}:{lineNumber}: expected alternatives must not be empty"

def checkRows (context : String) : Nat → List Row → Except String Unit
  | _, [] => .ok ()
  | lineNumber, row :: rows => do
    checkRow context lineNumber row
    checkRows context (lineNumber + 1) rows

/-- `load_corpus_bytes`, from the rows as the `csv` module reads them. -/
def loadCorpus (context : String) (rows : List Row) : Except String (List Row) := do
  require (rows ≠ [])
    s!"{context}: required columns are ['category', 'expected', 'id', 'reading']"
  require ([] ∉ rows.map (·.id) ∧ (rows.map (·.id)).Nodup)
    s!"{context}: ids must be non-empty and unique"
  checkRows context 2 rows
  return rows

/-! ## The results -/

/-- A JSON value, of which only texts, lists and objects are told apart. -/
inductive Value
  | text (t : Text)
  | list (items : List Value)
  | object (items : List (Text × Value))
  | other

def candidateText : Value → Except String Text
  | .text t => .ok t
  | .object item =>
    match item.lookup "text".toList with
    | some (.text t) => .ok t
    | _ => .error "unsupported candidate item"
  | _ => .error "unsupported candidate item"

def rawCandidates (payload : List (Text × Value)) : Except String Value :=
  match payload.lookup "candidates".toList with
  | some raw => .ok raw
  | none =>
    match payload.lookup "candidate_window".toList with
    | some (.object window) =>
      match window.lookup "items".toList with
      | some raw => .ok raw
      | none => .error "candidate_window requires an items array"
    | _ => .error "result requires a candidates array or candidate_window object"

def candidateTexts (payload : List (Text × Value)) : Except String (List Text) := do
  let raw ← rawCandidates payload
  match raw with
  | .list items => items.mapM candidateText
  | _ => .error "result candidates must be a list"

abbrev Results := List (Text × List Text)

def loadResult (context : String) (results : Results) : Value → Except String Results
  | .object payload =>
    match payload.lookup "id".toList with
    | some (.text id) => do
      require (id ≠ []) s!"{context}: result id must not be empty"
      require (id ∉ results.map (·.1)) s!"{context}: duplicate result id"
      let candidates ← candidateTexts payload
      return results ++ [(id, candidates)]
    | _ => .error s!"{context}: result requires string id"
  | _ => .error s!"{context}: result requires string id"

/-- The lines are blank, or hold a value. -/
def loadLinesOfResults (path : String) :
    Results → Nat → List (Option Value) → Except String Results
  | results, _, [] => .ok results
  | results, lineNumber, none :: lines => loadLinesOfResults path results (lineNumber + 1) lines
  | results, lineNumber, some payload :: lines => do
    let results ← loadResult s!"{path}:{lineNumber}" results payload
    loadLinesOfResults path results (lineNumber + 1) lines

def loadResults (path : String) (lines : List (Option Value)) : Except String Results :=
  loadLinesOfResults path [] 1 lines

/-! ## The evaluation -/

structure EvaluatedCase where
  id : Text
  category : Text
  reading : Text
  expected : List Text
  top1 : Bool
  /-- Only where `top_k` is not one, as all else of the second metric. -/
  topKHit : Option Bool
  observed : List Text
  deriving DecidableEq

structure Counter where
  total : Nat
  top1 : Nat
  topK : Option Nat
  deriving DecidableEq

structure CategoryReport where
  counts : Counter
  top1Rate : ℚ
  topKRate : Option ℚ

structure QualityReport where
  schema : Text
  topK : Nat
  corpusCases : Nat
  evaluatedCases : Nat
  missingResults : List Text
  top1Hits : Nat
  top1Rate : ℚ
  topKHits : Option Nat
  topKRate : Option ℚ
  byCategory : List (Text × CategoryReport)
  cases : List EvaluatedCase

def reportSchema : Text := "hazkey.conversion-quality-report.v1".toList

def firstAnswers (expected : List Text) : List Text → Bool
  | [] => false
  | first :: _ => expected.contains first

def anyAnswers (expected observed : List Text) : Bool :=
  observed.any fun value => expected.contains value

def evaluateCase (topK : Nat) (row : Row) (result : List Text) : EvaluatedCase where
  id := row.id
  category := row.category
  reading := row.reading
  expected := row.alternatives.filter fun value => value ≠ []
  top1 := firstAnswers (row.alternatives.filter fun value => value ≠ []) result
  topKHit :=
    if topK = 1 then none
    else some (anyAnswers (row.alternatives.filter fun value => value ≠ []) (result.take topK))
  observed := result.take topK

def evaluatedCases (corpus : List Row) (results : Results) (topK : Nat) : List EvaluatedCase :=
  corpus.filterMap fun row => (results.lookup row.id).map (evaluateCase topK row)

def Counter.add (case : EvaluatedCase) (counter : Counter) : Counter where
  total := counter.total + 1
  top1 := counter.top1 + case.top1.toNat
  topK :=
    match case.topKHit with
    | none => counter.topK
    | some hit => some (counter.topK.getD 0 + hit.toNat)

def rate (hits total : Nat) : ℚ := (hits : ℚ) / (total : ℚ)

def categoryReport (counter : Counter) : CategoryReport where
  counts := counter
  top1Rate := rate counter.top1 counter.total
  topKRate := counter.topK.map fun hits => rate hits counter.total

/-- The entries of a dictionary by their names. -/
def sortedItems {α : Type} (d : List (Text × α)) : List (Text × α) :=
  WeakOrders.sortedBy (fun p q => FrozenCorpus.textLess p.1 q.1) d

def countsByCategory (cases : List EvaluatedCase) : List (Text × Counter) :=
  Tallies.tally EvaluatedCase.category ⟨0, 0, none⟩ Counter.add cases

def top1Hits (cases : List EvaluatedCase) : Nat := cases.countP fun case => case.top1

def topKHits (cases : List EvaluatedCase) : Nat :=
  cases.countP fun case => case.topKHit = some true

def evaluate (corpus : List Row) (results : Results) (topK : Nat) : QualityReport where
  schema := reportSchema
  topK := topK
  corpusCases := corpus.length
  evaluatedCases := (evaluatedCases corpus results topK).length
  missingResults := (corpus.map (·.id)).filter fun id => (results.lookup id).isNone
  top1Hits := top1Hits (evaluatedCases corpus results topK)
  -- of no case at all the rate is zero, which division by zero gives as well
  top1Rate := rate (top1Hits (evaluatedCases corpus results topK))
    (evaluatedCases corpus results topK).length
  topKHits := if topK = 1 then none else some (topKHits (evaluatedCases corpus results topK))
  topKRate :=
    if topK = 1 then none
    else some (rate (topKHits (evaluatedCases corpus results topK))
      (evaluatedCases corpus results topK).length)
  byCategory := (sortedItems (countsByCategory (evaluatedCases corpus results topK))).map
    fun e => (e.1, categoryReport e.2)
  cases := evaluatedCases corpus results topK

/-! ## The comparison -/

structure ValidatedCase where
  id : Text
  category : Text
  reading : Text
  expected : List Text
  observed : List Text
  expectedRank : Option Nat
  deriving DecidableEq

def ValidatedCase.top1Hit (case : ValidatedCase) : Bool := case.expectedRank = some 1

def ValidatedCase.topKHit (case : ValidatedCase) : Bool := case.expectedRank.isSome

structure ValidatedReport where
  topK : Nat
  cases : List ValidatedCase

def expectedRank (expected observed : List Text) : Option Nat :=
  (observed.findIdx? fun candidate => expected.contains candidate).map (· + 1)

def requireRate (actual expected : ℚ) (context : String) : Except String Unit := do
  require (0 ≤ actual ∧ actual ≤ 1) s!"{context} must be between zero and one"
  require (|actual - expected| ≤ 1 / 1000000000000) s!"{context} is inconsistent"

/-- The second metric, which a report has where `top_k` is not one. -/
def requireTopK (hitsContext rateContext : String) (topK : Nat) (actualHits : Option Nat)
    (actualRate : Option ℚ) (hits total : Nat) : Except String Unit :=
  if topK = 1 then .ok ()
  else do
    require (actualHits = some hits) s!"{hitsContext} is inconsistent"
    match actualRate with
    | none => .error s!"{rateContext} must be a finite number"
    | some actual => requireRate actual (rate hits total) rateContext

def validateCase (context : String) (topK : Nat) (case : EvaluatedCase) :
    Except String ValidatedCase := do
  requireString case.category s!"{context}.category"
  requireString case.reading s!"{context}.reading"
  requireStrings s!"{context}.expected" 0 case.expected
  require (case.expected ≠ []) s!"{context}.expected must not be empty"
  require case.expected.Nodup s!"{context}.expected contains duplicate alternatives"
  requireStrings s!"{context}.observed" 0 case.observed
  require (case.observed.length ≤ topK) s!"{context}.observed exceeds top_k {topK}"
  require (case.top1 = decide (expectedRank case.expected case.observed = some 1))
    s!"{context}.top1 is inconsistent"
  require (topK ≠ 1 →
      case.topKHit = some (expectedRank case.expected case.observed).isSome)
    s!"{context}.top{topK} is inconsistent"
  return {
    id := case.id
    category := case.category
    reading := case.reading
    expected := case.expected
    observed := case.observed
    expectedRank := expectedRank case.expected case.observed }

def validateCases (label : String) (topK : Nat) :
    List Text → Nat → List EvaluatedCase → Except String (List ValidatedCase)
  | _, _, [] => .ok []
  | seen, index, case :: cases => do
    requireString case.id s!"{label}.cases[{index}].id"
    require (case.id ∉ seen) s!"{label}.cases contains a duplicate id"
    let validated ← validateCase s!"{label}.cases[{index}]" topK case
    let rest ← validateCases label topK (case.id :: seen) (index + 1) cases
    return validated :: rest

def ValidatedCase.count (case : ValidatedCase) (counter : Counter) : Counter where
  total := counter.total + 1
  top1 := counter.top1 + case.top1Hit.toNat
  topK := some (counter.topK.getD 0 + case.topKHit.toNat)

def validatedCounts (cases : List ValidatedCase) : List (Text × Counter) :=
  Tallies.tally ValidatedCase.category ⟨0, 0, some 0⟩ ValidatedCase.count cases

def validateCategory (context : String) (topK : Nat) (counts : Counter)
    (values : CategoryReport) : Except String Unit := do
  require (values.counts.total = counts.total) s!"{context}.total is inconsistent"
  require (values.counts.top1 = counts.top1) s!"{context}.top1 is inconsistent"
  requireRate values.top1Rate (rate counts.top1 counts.total) s!"{context}.top1_rate"
  requireTopK s!"{context}.top{topK}" s!"{context}.top{topK}_rate" topK values.counts.topK
    values.topKRate (counts.topK.getD 0) counts.total

def validateCategories (label : String) (topK : Nat) (raw : List (Text × CategoryReport)) :
    List (Text × Counter) → Except String Unit
  | [] => .ok ()
  | (category, counts) :: rest => do
    match raw.lookup category with
    | none => .error s!"{label}.by_category categories is inconsistent"
    | some values => validateCategory s!"{label}.by_category" topK counts values
    validateCategories label topK raw rest

def validatedHits (cases : List ValidatedCase) : Nat × Nat :=
  (cases.countP ValidatedCase.top1Hit, cases.countP ValidatedCase.topKHit)

def validateReport (report : QualityReport) (label : String) :
    Except String ValidatedReport := do
  require (report.schema = reportSchema) s!"{label}.schema must be the input schema"
  require (1 ≤ report.topK) s!"{label}.top_k must be a positive integer"
  require (report.missingResults = []) s!"{label} is incomplete: missing_results must be empty"
  require (report.cases ≠ []) s!"{label}.cases must not be empty"
  require (report.corpusCases = report.cases.length) s!"{label}.corpus_cases is inconsistent"
  require (report.evaluatedCases = report.cases.length)
    s!"{label}.evaluated_cases is inconsistent"
  let cases ← validateCases label report.topK [] 0 report.cases
  require (report.top1Hits = (validatedHits cases).1) s!"{label}.top1_hits is inconsistent"
  requireRate report.top1Rate (rate (validatedHits cases).1 cases.length) s!"{label}.top1_rate"
  requireTopK s!"{label}.top{report.topK}_hits" s!"{label}.top{report.topK}_rate" report.topK
    report.topKHits report.topKRate (validatedHits cases).2 cases.length
  require (∀ category ∈ report.byCategory.map (·.1), category ∈ cases.map (·.category))
    s!"{label}.by_category categories is inconsistent"
  validateCategories label report.topK report.byCategory (validatedCounts cases)
  return ⟨report.topK, cases⟩

inductive Winner
  | a
  | b
  | tie
  deriving DecidableEq

def winner (aRank bRank : Option Nat) : Winner :=
  match aRank, bRank with
  | none, none => .tie
  | none, some _ => .b
  | some _, none => .a
  | some a, some b => if a < b then .a else if b < a then .b else .tie

structure ComparedCase where
  a : ValidatedCase
  b : ValidatedCase
  winner : Winner
  rankDelta : Option Int
  deriving DecidableEq

def rankDelta (aRank bRank : Option Nat) : Option Int :=
  match aRank, bRank with
  | some a, some b => some ((b : Int) - (a : Int))
  | _, _ => none

def compareCase (a b : ValidatedCase) : Except String ComparedCase := do
  require (b.category = a.category) "case category is inconsistent"
  require (b.reading = a.reading) "case reading is inconsistent"
  require (b.expected = a.expected) "case expected is inconsistent"
  return ⟨a, b, winner a.expectedRank b.expectedRank, rankDelta a.expectedRank b.expectedRank⟩

def compareCases : List ValidatedCase → List ValidatedCase → Except String (List ComparedCase)
  | a :: as, b :: bs => do
    let compared ← compareCase a b
    let rest ← compareCases as bs
    return compared :: rest
  | _, _ => .ok []

/-- `_backend_metrics`. -/
structure Metrics where
  top1Hits : Nat
  top1Rate : ℚ
  topKHits : Nat
  topKRate : ℚ

def metrics (cases : List ValidatedCase) : Metrics where
  top1Hits := (validatedHits cases).1
  top1Rate := rate (validatedHits cases).1 cases.length
  topKHits := (validatedHits cases).2
  topKRate := rate (validatedHits cases).2 cases.length

structure Delta where
  top1Hits : Int
  top1Rate : ℚ
  topKHits : Int
  topKRate : ℚ

def delta (a b : Metrics) : Delta where
  top1Hits := (b.top1Hits : Int) - (a.top1Hits : Int)
  top1Rate := b.top1Rate - a.top1Rate
  topKHits := (b.topKHits : Int) - (a.topKHits : Int)
  topKRate := b.topKRate - a.topKRate

structure Comparison where
  topK : Nat
  aName : Text
  bName : Text
  a : Metrics
  b : Metrics
  delta : Delta
  aWins : Nat
  bWins : Nat
  ties : Nat
  cases : List ComparedCase

def winsOf (w : Winner) (cases : List ComparedCase) : Nat := cases.countP fun case => case.winner = w

/-- The names come without blanks around them. -/
def compareReports (aReport bReport : QualityReport) (aName bName : Text) :
    Except String Comparison := do
  requireString aName "a_name"
  requireString bName "b_name"
  require (aName ≠ bName) "a_name and b_name must be distinct"
  let a ← validateReport aReport "a_report"
  let b ← validateReport bReport "b_report"
  require (b.topK = a.topK) "report top_k is inconsistent"
  require (b.cases.map (·.id) = a.cases.map (·.id)) "report case ids is inconsistent"
  let cases ← compareCases a.cases b.cases
  return {
    topK := a.topK
    aName := aName
    bName := bName
    a := metrics a.cases
    b := metrics b.cases
    delta := delta (metrics a.cases) (metrics b.cases)
    aWins := winsOf .a cases
    bWins := winsOf .b cases
    ties := winsOf .tie cases
    cases := cases }

end Hazkey.ConversionQuality
