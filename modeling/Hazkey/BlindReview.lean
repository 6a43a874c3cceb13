import Hazkey.ConversionQuality
import Hazkey.JsonLines

/-! The preparation of a blind review: two runs of a probe on one corpus become
a file for the reviewer, where the converters are x and y, and a key. -/

namespace Hazkey.BlindReview

open ConversionQuality JsonText

-- Of the characters of a list, not of all characters.
attribute [local instance (1100)] List.decidableBAll

/-! ## Digests -/

abbrev Digest := BitVec 256

/-- `hashlib.sha256`, and `hmac.new` with it. -/
structure Hashes where
  sha256 : Data → Digest
  hmac : Data → Data → Digest

def hexDigitAt (d : Digest) (i : Nat) : Char :=
  Nat.digitChar (d.toNat >>> (4 * (63 - i)) % 16)

def hexOf (d : Digest) : Text := (List.range 64).map (hexDigitAt d)

def digestText (d : Digest) : Text := "sha256:".toList ++ hexOf d

def hexDigits : Text := "0123456789abcdef".toList

/-- `_validate_sha256`. -/
def requireSha256 (value : Text) (context : String) : Except String Unit :=
  require (value.length = 71 ∧ "sha256:".toList <+: value ∧ ∀ c ∈ value.drop 7, c ∈ hexDigits)
    s!"{context} must be a sha256:<64 lowercase hex> digest"

def canonicalJson (v : Json) : Text := dumps .compact v

def sha256Text (H : Hashes) (t : Text) : Text := digestText (H.sha256 (utf8 t))

/-- What the keyed digests of one packet have in common. -/
structure Draw where
  hashes : Hashes
  seed : Data
  corpusSha256 : Text

def Draw.digest (d : Draw) (domain : Text) (parts : List Text) : Digest :=
  d.hashes.hmac d.seed
    (utf8 (canonicalJson (.array ((domain :: d.corpusSha256 :: parts).map .string))))

/-- `sorted(l, key=f)`. -/
def byDigest {α : Type} (f : α → Digest) (l : List α) : List α :=
  WeakOrders.sortedBy (fun a b => decide (f a < f b)) l

/-! ## The runs -/

structure Resource where
  kind : Text
  path : Text
  fingerprint : Text
  deriving DecidableEq

structure CorpusReference where
  sha256 : Text
  cases : Nat
  deriving DecidableEq

/-- What all results of a run have in common. -/
structure Provenance where
  schema : Text
  backend : Text
  backendVersion : Text
  sourceRef : Text
  converterBackend : Text
  warmups : Nat
  iterations : Nat
  topK : Nat
  corpus : CorpusReference
  resource : Resource
  deriving DecidableEq

structure ProbeResult where
  provenance : Provenance
  id : Text
  reading : Text
  category : Text
  candidates : List Text
  deriving DecidableEq

structure Run where
  provenance : Provenance
  cases : List (Text × ProbeResult)

def Run.label (run : Run) : Text := run.provenance.converterBackend

def inputSchemaV3 : Text := "hazkey.ab-probe-result.v3".toList
def hazkey : Text := "hazkey".toList
def mozc : Text := "mozc".toList

def resourceKind (label : Text) : Option Text :=
  if label = hazkey then some "hazkey_dictionary".toList
  else if label = mozc then some "mozc_runtime_inputs".toList
  else none

/-- `validate_result`, of what a result of the third schema says apart from its measurements. -/
def validateResult (context : String) (result : ProbeResult) : Except String Unit := do
  requireString result.id s!"{context}.id"
  requireString result.category s!"{context}.category"
  requireString result.provenance.backend s!"{context}.backend"
  requireString result.provenance.backendVersion s!"{context}.backend_version"
  requireString result.provenance.sourceRef s!"{context}.source_ref"
  requireString result.provenance.resource.kind s!"{context}.resource.kind"
  requireString result.provenance.resource.path s!"{context}.resource.path"
  requireString result.provenance.resource.fingerprint s!"{context}.resource.fingerprint"
  requireString result.provenance.converterBackend s!"{context}.converter_backend"
  require (resourceKind result.provenance.converterBackend ≠ none)
    s!"{context}.converter_backend must be hazkey or mozc"
  require (resourceKind result.provenance.converterBackend =
      some result.provenance.resource.kind)
    s!"{context}.resource.kind does not match converter_backend"
  requireString result.reading s!"{context}.reading"
  require (1 ≤ result.provenance.topK ∧ result.provenance.topK ≤ 10)
    s!"{context}.top_k must be between 1 and 10"
  requireSha256 result.provenance.corpus.sha256 s!"{context}.corpus.sha256"
  require (0 < result.provenance.corpus.cases)
    s!"{context}.corpus.cases must be a positive integer"
  requireStrings s!"{context}.candidates" 0 result.candidates
  require (result.candidates.length ≤ result.provenance.topK)
    s!"{context}.candidates has more values than top_k"
  require (0 < result.provenance.iterations)
    s!"{context}.measurement.iterations must be a positive integer"

def collectCases (path : String) :
    List (Text × ProbeResult) → Nat → List ProbeResult → Except String (List (Text × ProbeResult))
  | cases, _, [] => .ok cases
  | cases, lineNumber, result :: results => do
    validateResult s!"{path}:{lineNumber}" result
    require (result.id ∉ cases.map (·.1)) s!"{path}: duplicate id"
    collectCases path (cases ++ [(result.id, result)]) (lineNumber + 1) results

/-- `load_run_bytes`, from the results on the lines of the file. -/
def loadRun (path : String) (results : List ProbeResult) : Except String Run := do
  let cases ← collectCases path [] 1 results
  match cases with
  | [] => .error s!"{path}: probe run has no results"
  | first :: rest =>
    require (∀ case ∈ first :: rest, case.2.provenance = first.2.provenance)
      s!"{path}: inconsistent fields within run"
    require (first.2.provenance.corpus.cases = (first :: rest).length)
      s!"{path}: corpus.cases does not match result count"
    return ⟨first.2.provenance, first :: rest⟩

/-- The result of a case. `_validate_runs` has seen to it that there is one. -/
def Run.caseOf (run : Run) (id : Text) : ProbeResult :=
  (run.cases.lookup id).getD ⟨run.provenance, id, [], [], []⟩

def validateRunCases (corpus : List Row) (path : String) (run : Run) : Except String Unit := do
  require ((∀ id ∈ run.cases.map (·.1), id ∈ corpus.map (·.id)) ∧
      ∀ id ∈ corpus.map (·.id), id ∈ run.cases.map (·.1))
    s!"{path}: case set does not match corpus"
  require (∀ row ∈ corpus, (run.caseOf row.id).category = row.category)
    s!"{path}: category does not match corpus"
  require (∀ row ∈ corpus, (run.caseOf row.id).reading = row.reading)
    s!"{path}: reading does not match corpus"

def validateRuns (corpus : List Row) (corpusSha256 : Text) (first second : Run) :
    Except String Unit := do
  require (first.provenance.schema = inputSchemaV3 ∧ second.provenance.schema = inputSchemaV3)
    "blind A/B requires hazkey.ab-probe-result.v3"
  require (first.label ≠ second.label)
    "probe runs must use two distinct converter_backend values"
  require (second.provenance.sourceRef = first.provenance.sourceRef)
    "probe runs must have an identical source_ref"
  require (second.provenance.backendVersion = first.provenance.backendVersion)
    "probe runs must have an identical backend_version"
  require (second.provenance.warmups = first.provenance.warmups)
    "probe runs must have an identical warmups"
  require (second.provenance.iterations = first.provenance.iterations)
    "probe runs must have an identical iterations"
  require (second.provenance.topK = first.provenance.topK)
    "probe runs must have an identical top_k"
  require (second.provenance.corpus = first.provenance.corpus)
    "probe runs must have an identical corpus"
  require (first.provenance.corpus = ⟨corpusSha256, corpus.length⟩)
    "probe corpus provenance does not match the supplied corpus"
  validateRunCases corpus "first run" first
  validateRunCases corpus "second run" second

/-! ## The files of a packet -/

structure ReviewRecord where
  case : Text
  reading : Text
  category : Text
  x : List Text
  y : List Text
  integrity : Text
  deriving DecidableEq

structure KeyCase where
  case : Text
  originalId : Text
  reading : Text
  category : Text
  expected : List Text
  xBackend : Text
  yBackend : Text
  reviewRecordSha256 : Text
  deriving DecidableEq

structure BackendMetadata where
  converterBackend : Text
  probeBackend : Text
  backendVersion : Text
  warmups : Nat
  iterations : Nat
  resource : Resource
  runSha256 : Text
  deriving DecidableEq

structure KeyCorpus where
  sha256 : Text
  caseContractSha256 : Text
  cases : Nat
  deriving DecidableEq

structure Key where
  seedSha256 : Text
  sourceRef : Text
  topK : Nat
  corpus : KeyCorpus
  reviewSha256 : Text
  backends : List BackendMetadata
  xPlacement : List (Text × Nat)
  yPlacement : List (Text × Nat)
  cases : List KeyCase
  integrity : Text
  deriving DecidableEq

def reviewSchema : Text := "hazkey.blind-conversion-ab-review.v1".toList
def keySchema : Text := "hazkey.blind-conversion-ab-key.v1".toList

def strings (ts : List Text) : Json := .array (ts.map .string)

/-! The names of an object stand in the order into which `sort_keys` puts them. -/

def ReviewRecord.base (r : ReviewRecord) : Json := .object
  [("case".toList, .string r.case), ("category".toList, .string r.category),
   ("reading".toList, .string r.reading), ("schema".toList, .string reviewSchema),
   ("x".toList, strings r.x), ("y".toList, strings r.y)]

def ReviewRecord.json (r : ReviewRecord) : Json := .object
  [("case".toList, .string r.case), ("category".toList, .string r.category),
   ("integrity".toList, .string r.integrity), ("reading".toList, .string r.reading),
   ("schema".toList, .string reviewSchema), ("x".toList, strings r.x), ("y".toList, strings r.y)]

def KeyCase.json (c : KeyCase) : Json := .object
  [("case".toList, .string c.case), ("category".toList, .string c.category),
   ("expected".toList, strings c.expected), ("original_id".toList, .string c.originalId),
   ("reading".toList, .string c.reading),
   ("review_record_sha256".toList, .string c.reviewRecordSha256),
   ("x_backend".toList, .string c.xBackend), ("y_backend".toList, .string c.yBackend)]

/-- What the corpus says of a case. -/
structure ContractCase where
  id : Text
  reading : Text
  expected : List Text
  category : Text
  deriving DecidableEq

def ContractCase.json (c : ContractCase) : Json := .object
  [("category".toList, .string c.category), ("expected".toList, strings c.expected),
   ("id".toList, .string c.id), ("reading".toList, .string c.reading)]

def contractJson (contract : List ContractCase) : Json :=
  .array ((WeakOrders.sortedBy (fun a b => FrozenCorpus.textLess a.id b.id) contract).map
    ContractCase.json)

def BackendMetadata.json (b : BackendMetadata) : Json := .object
  [("backend_version".toList, .string b.backendVersion),
   ("converter_backend".toList, .string b.converterBackend),
   ("measurement".toList, .object
     [("iterations".toList, .number b.iterations), ("warmups".toList, .number b.warmups)]),
   ("probe_backend".toList, .string b.probeBackend),
   ("resource".toList, .object
     [("fingerprint".toList, .string b.resource.fingerprint),
      ("kind".toList, .string b.resource.kind), ("path".toList, .string b.resource.path)]),
   ("run_sha256".toList, .string b.runSha256)]

def KeyCorpus.json (c : KeyCorpus) : Json := .object
  [("case_contract_sha256".toList, .string c.caseContractSha256),
   ("cases".toList, .number c.cases), ("sha256".toList, .string c.sha256)]

def countsJson (counts : List (Text × Nat)) : Json :=
  .object (counts.map fun e => (e.1, .number e.2))

def Key.placementJson (k : Key) : Json :=
  .object [("x".toList, countsJson k.xPlacement), ("y".toList, countsJson k.yPlacement)]

def Key.base (k : Key) : Json := .object
  [("backends".toList, .array (k.backends.map BackendMetadata.json)),
   ("cases".toList, .array (k.cases.map KeyCase.json)), ("corpus".toList, k.corpus.json),
   ("placement".toList, k.placementJson), ("review_schema".toList, .string reviewSchema),
   ("review_sha256".toList, .string k.reviewSha256), ("schema".toList, .string keySchema),
   ("seed_sha256".toList, .string k.seedSha256), ("source_ref".toList, .string k.sourceRef),
   ("top_k".toList, .number k.topK)]

def Key.json (k : Key) : Json := .object
  [("backends".toList, .array (k.backends.map BackendMetadata.json)),
   ("cases".toList, .array (k.cases.map KeyCase.json)), ("corpus".toList, k.corpus.json),
   ("integrity".toList, .string k.integrity), ("placement".toList, k.placementJson),
   ("review_schema".toList, .string reviewSchema),
   ("review_sha256".toList, .string k.reviewSha256), ("schema".toList, .string keySchema),
   ("seed_sha256".toList, .string k.seedSha256), ("source_ref".toList, .string k.sourceRef),
   ("top_k".toList, .number k.topK)]

/-! ## The placement -/

/-- `xs[:stop]`. -/
def sliceTo {α : Type} (xs : List α) (stop : Int) : List α :=
  if 0 ≤ stop then xs.take stop.toNat else xs.take (xs.length - (-stop).toNat)

section

variable (d : Draw)

def orderedIds (ids : List Text) : List Text :=
  byDigest (fun id => d.digest "review-order-v1".toList [id]) ids

/-- The lowest bit of the first byte. -/
def oddOwner : Bool := (d.digest "odd-owner-v1".toList []).getLsbD 248

def targetFirstXCount (cases : Nat) : Nat :=
  cases / 2 + if cases % 2 = 1 ∧ oddOwner d = true then 1 else 0

abbrev Categories := List (Text × List Text)

def idsByCategory (corpus : List Row) : Categories :=
  Grouping.group (corpus.map fun row => (row.category, row.id))

def extrasNeeded (target : Nat) (categories : Categories) : Int :=
  (target : Int) - ((categories.map fun c => c.2.length / 2).sum : Nat)

def oddCategories (categories : Categories) : List Text :=
  byDigest (fun category => d.digest "category-extra-v1".toList [category])
    ((categories.filter fun c => c.2.length % 2 = 1).map (·.1))

/-- The categories with one placement more than half of their cases. -/
def extraCategories (corpus : List Row) : List Text :=
  sliceTo (oddCategories d (idsByCategory corpus))
    (extrasNeeded (targetFirstXCount d corpus.length) (idsByCategory corpus))

def firstXCount (corpus : List Row) (category : Text × List Text) : Nat :=
  category.2.length / 2 + if category.1 ∈ extraCategories d corpus then 1 else 0

def firstOnX (corpus : List Row) : List Text :=
  (idsByCategory corpus).flatMap fun category =>
    (byDigest (fun id => d.digest "placement-v1".toList [category.1, id]) category.2).take
      (firstXCount d corpus category)

def opaqueId (id : Text) : Text :=
  "blind-".toList ++ (hexOf (d.digest "opaque-case-v1".toList [id])).take 24

end

/-! ## Review and key -/

/-- The rows are those of the id: `by_id[original_id]`. -/
def rowOf (corpus : List Row) (id : Text) : Row :=
  (corpus.find? fun row => row.id = id).getD ⟨id, [], [], []⟩

structure Blinded where
  record : ReviewRecord
  key : KeyCase

def blindedCase (d : Draw) (row : Row) (x y : Run) : Blinded :=
  let record : ReviewRecord := {
    case := opaqueId d row.id
    reading := row.reading
    category := row.category
    x := (x.caseOf row.id).candidates
    y := (y.caseOf row.id).candidates
    integrity := [] }
  let recordSha256 := sha256Text d.hashes (canonicalJson record.base)
  { record := { record with integrity := recordSha256 }
    key := {
      case := opaqueId d row.id
      originalId := row.id
      reading := row.reading
      category := row.category
      expected := row.alternatives
      xBackend := x.label
      yBackend := y.label
      reviewRecordSha256 := recordSha256 } }

def placedCase (d : Draw) (corpus : List Row) (first second : Run) (id : Text) : Blinded :=
  if id ∈ firstOnX d corpus then blindedCase d (rowOf corpus id) first second
  else blindedCase d (rowOf corpus id) second first

def blindCases (d : Draw) (corpus : List Row) (first second : Run) :
    List Text → List Text → Except String (List Blinded)
  | _, [] => .ok []
  | opaqueIds, id :: ids => do
    require (opaqueId d id ∉ opaqueIds) "opaque case handle collision"
    let rest ← blindCases d corpus first second (opaqueId d id :: opaqueIds) ids
    return placedCase d corpus first second id :: rest

def backendMetadata (run : Run) (runSha256 : Text) : BackendMetadata where
  converterBackend := run.label
  probeBackend := run.provenance.backend
  backendVersion := run.provenance.backendVersion
  warmups := run.provenance.warmups
  iterations := run.provenance.iterations
  resource := run.provenance.resource
  runSha256 := runSha256

/-- How often each converter stands on a side. -/
def placementCounts (side : KeyCase → Text) (labels : List Text) (cases : List KeyCase) :
    List (Text × Nat) :=
  sortedItems (labels.map fun label => (label, cases.countP fun c => side c = label))

/-- `_case_contract`. -/
def caseContract (corpus : List Row) : Json :=
  contractJson (corpus.map fun row => ⟨row.id, row.reading, row.alternatives, row.category⟩)

def reviewBytes (records : List ReviewRecord) : Text :=
  joinLines (records.map fun r => canonicalJson r.json)

/-- What is read from a file, with its bytes. -/
structure FileOf (α : Type) where
  bytes : Data
  content : α

def fileSha256 {α : Type} (H : Hashes) (file : FileOf α) : Text := digestText (H.sha256 file.bytes)

def fromHex : Text → Data
  | a :: b :: cs =>
    UInt8.ofNat ((JsonText.hexValue a).getD 0 * 16 + (JsonText.hexValue b).getD 0) :: fromHex cs
  | _ => []

def keyOf (d : Draw) (corpus : List Row) (first second : Run) (firstSha256 secondSha256 : Text)
    (blinded : List Blinded) : Key :=
  let cases := blinded.map (·.key)
  let base : Key := {
    seedSha256 := digestText (d.hashes.sha256 d.seed)
    sourceRef := first.provenance.sourceRef
    topK := first.provenance.topK
    corpus := {
      sha256 := d.corpusSha256
      caseContractSha256 := sha256Text d.hashes (canonicalJson (caseContract corpus))
      cases := corpus.length }
    reviewSha256 := sha256Text d.hashes (reviewBytes (blinded.map (·.record)))
    backends := WeakOrders.sortedBy
      (fun a b => FrozenCorpus.textLess a.converterBackend b.converterBackend)
      [backendMetadata first firstSha256, backendMetadata second secondSha256]
    xPlacement := placementCounts KeyCase.xBackend [first.label, second.label] cases
    yPlacement := placementCounts KeyCase.yBackend [first.label, second.label] cases
    cases := cases
    integrity := [] }
  { base with integrity := sha256Text d.hashes (canonicalJson base.base) }

def buildReviewAndKey (H : Hashes) (corpusFile : FileOf (List Row))
    (firstFile secondFile : FileOf (List ProbeResult)) (seed : Text) :
    Except String (Text × Key) := do
  require (seed.length = 64 ∧ ∀ c ∈ seed, c ∈ hexDigits)
    "seed must be exactly 64 lowercase hex digits"
  let corpus ← loadCorpus "corpus" corpusFile.content
  let first ← loadRun "first run" firstFile.content
  let second ← loadRun "second run" secondFile.content
  validateRuns corpus (fileSha256 H corpusFile) first second
  let d : Draw := ⟨H, fromHex seed, fileSha256 H corpusFile⟩
  let blinded ← blindCases d corpus first second [] (orderedIds d (corpus.map (·.id)))
  return (reviewBytes (blinded.map (·.record)),
    keyOf d corpus first second (fileSha256 H firstFile) (fileSha256 H secondFile) blinded)

end Hazkey.BlindReview
