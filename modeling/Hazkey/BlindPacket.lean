import Hazkey.BlindReview

/-! The files of a packet, and the loader that takes nothing from them that it
has not checked. A file is its text; bytes that are not UTF-8 are refused. -/

namespace Hazkey.BlindReview

open ConversionQuality JsonText

-- Of the characters of a list, not of all characters.
attribute [local instance (1100)] List.decidableBAll

/-! ## Reading values -/

abbrev Fields := List (Text × Json)

/-- `_object` and `_require_exact_keys`. A name that stands twice is refused as well. -/
def exactKeys (context : String) (names : List Text) : Json → Except String Fields
  | .object fields => do
    require ((fields.map (·.1)).isPerm names) s!"{context} fields do not match schema"
    return fields
  | _ => .error s!"{context} must be an object"

/-- A field that `exactKeys` has found. -/
def member (fields : Fields) (name : Text) : Json := (fields.lookup name).getD (.array [])

def readText (context : String) : Json → Except String Text
  | .string s => do
    requireString s context
    return s
  | _ => .error s!"{context} must be a non-empty string"

def readNatural (context : String) : Json → Except String Nat
  | .number n => .ok n
  | _ => .error s!"{context} must be a non-negative integer"

def readPositive (context : String) (v : Json) : Except String Nat := do
  let n ← readNatural context v
  require (n ≠ 0) s!"{context} must be positive"
  return n

def readArray (context : String) : Json → Except String (List Json)
  | .array items => .ok items
  | _ => .error s!"{context} must be an array"

def readSha256 (context : String) : Json → Except String Text
  | .string s => do
    requireSha256 s context
    return s
  | _ => .error s!"{context} must be a sha256:<64 lowercase hex> digest"

/-- One item after another, with their positions. -/
def readItems {α : Type} (read : String → Json → Except String α) (context : String) :
    Nat → List Json → Except String (List α)
  | _, [] => .ok []
  | index, v :: vs => do
    let x ← read s!"{context}[{index}]" v
    let xs ← readItems read context (index + 1) vs
    return x :: xs

def readTexts (context : String) (v : Json) : Except String (List Text) := do
  let items ← readArray context v
  readItems readText context 0 items

def readTopK (context : String) (v : Json) : Except String Nat := do
  let topK ← readNatural context v
  require (1 ≤ topK ∧ topK ≤ 10) s!"{context} must be between 1 and 10"
  return topK

def readConstant (constant : Text) (context : String) : Json → Except String Unit
  | .string s => require (s = constant) s!"{context} is unsupported"
  | _ => .error s!"{context} is unsupported"

/-! ## The key -/

def readResource (context : String) (label : Text) (v : Json) : Except String Resource := do
  let fields ← exactKeys context ["fingerprint".toList, "kind".toList, "path".toList] v
  let kind ← readText s!"{context}.kind" (member fields "kind".toList)
  let path ← readText s!"{context}.path" (member fields "path".toList)
  let fingerprint ← readText s!"{context}.fingerprint" (member fields "fingerprint".toList)
  require (resourceKind label = some kind) s!"{context}.kind does not match converter_backend"
  return ⟨kind, path, fingerprint⟩

def readMeasurement (context : String) (v : Json) : Except String (Nat × Nat) := do
  let fields ← exactKeys context ["iterations".toList, "warmups".toList] v
  let warmups ← readNatural s!"{context}.warmups" (member fields "warmups".toList)
  let iterations ← readPositive s!"{context}.iterations" (member fields "iterations".toList)
  return (warmups, iterations)

def readBackend (context : String) (v : Json) : Except String BackendMetadata := do
  let fields ← exactKeys context
    ["backend_version".toList, "converter_backend".toList, "measurement".toList,
     "probe_backend".toList, "resource".toList, "run_sha256".toList] v
  let converterBackend ← readText s!"{context}.converter_backend"
    (member fields "converter_backend".toList)
  let probeBackend ← readText s!"{context}.probe_backend" (member fields "probe_backend".toList)
  let backendVersion ← readText s!"{context}.backend_version"
    (member fields "backend_version".toList)
  let runSha256 ← readSha256 s!"{context}.run_sha256" (member fields "run_sha256".toList)
  let measurement ← readMeasurement s!"{context}.measurement"
    (member fields "measurement".toList)
  let resource ← readResource s!"{context}.resource" converterBackend
    (member fields "resource".toList)
  return {
    converterBackend := converterBackend
    probeBackend := probeBackend
    backendVersion := backendVersion
    warmups := measurement.1
    iterations := measurement.2
    resource := resource
    runSha256 := runSha256 }

def labelsOf (backends : List BackendMetadata) : List Text := backends.map (·.converterBackend)

/-- The labels are hazkey and mozc, in this order. -/
def checkBackends (context : String) (backends : List BackendMetadata) : Except String Unit := do
  require (backends.length = 2) s!"{context} must contain exactly two backends"
  require (labelsOf backends).Nodup s!"{context} converter_backend values must be unique"
  require (hazkey ∈ labelsOf backends ∧ mozc ∈ labelsOf backends)
    s!"{context} must contain hazkey and mozc"
  require (labelsOf backends =
      WeakOrders.sortedBy FrozenCorpus.textLess (labelsOf backends))
    s!"{context} must be sorted by converter_backend"
  require (∀ a ∈ backends, ∀ b ∈ backends, a.backendVersion = b.backendVersion)
    s!"{context} must have an identical backend_version"
  require (∀ a ∈ backends, ∀ b ∈ backends, (a.warmups, a.iterations) = (b.warmups, b.iterations))
    s!"{context} must have an identical measurement"

def readKeyCorpus (context : String) (v : Json) : Except String KeyCorpus := do
  let fields ← exactKeys context
    ["case_contract_sha256".toList, "cases".toList, "sha256".toList] v
  let sha256 ← readSha256 s!"{context}.sha256" (member fields "sha256".toList)
  let caseContractSha256 ← readSha256 s!"{context}.case_contract_sha256"
    (member fields "case_contract_sha256".toList)
  let cases ← readPositive s!"{context}.cases" (member fields "cases".toList)
  return ⟨sha256, caseContractSha256, cases⟩

def readKeyCase (labels : List Text) (context : String) (v : Json) : Except String KeyCase := do
  let fields ← exactKeys context
    ["case".toList, "category".toList, "expected".toList, "original_id".toList,
     "reading".toList, "review_record_sha256".toList, "x_backend".toList, "y_backend".toList] v
  let case ← readText s!"{context}.case" (member fields "case".toList)
  let originalId ← readText s!"{context}.original_id" (member fields "original_id".toList)
  let reading ← readText s!"{context}.reading" (member fields "reading".toList)
  let category ← readText s!"{context}.category" (member fields "category".toList)
  let expected ← readTexts s!"{context}.expected" (member fields "expected".toList)
  require (expected ≠ []) s!"{context}.expected must not be empty"
  let xBackend ← readText s!"{context}.x_backend" (member fields "x_backend".toList)
  let yBackend ← readText s!"{context}.y_backend" (member fields "y_backend".toList)
  require ([xBackend, yBackend].isPerm labels)
    s!"{context}: x/y backends do not match key backends"
  let reviewRecordSha256 ← readSha256 s!"{context}.review_record_sha256"
    (member fields "review_record_sha256".toList)
  return {
    case := case
    originalId := originalId
    reading := reading
    category := category
    expected := expected
    xBackend := xBackend
    yBackend := yBackend
    reviewRecordSha256 := reviewRecordSha256 }

def readCounts (labels : List Text) (context : String) (v : Json) :
    Except String (List (Text × Nat)) := do
  let fields ← exactKeys context labels v
  let counts ← readItems readNatural context 0 (labels.map (member fields))
  return labels.zip counts

def countsOf (side : KeyCase → Text) (labels : List Text) (cases : List KeyCase) :
    List (Text × Nat) :=
  labels.map fun label => (label, cases.countP fun c => side c = label)

/-- No label stands on a side more than once more than another. -/
def balanced (labels : List Text) (cases : List KeyCase) : Prop :=
  ∀ a ∈ labels, ∀ b ∈ labels,
    cases.countP (fun c => c.xBackend = a) ≤ cases.countP (fun c => c.xBackend = b) + 1

instance (labels : List Text) (cases : List KeyCase) : Decidable (balanced labels cases) :=
  inferInstanceAs (Decidable (∀ a ∈ labels, ∀ b ∈ labels, _ ≤ _))

def checkCases (context : String) (labels : List Text) (corpus : KeyCorpus) (H : Hashes)
    (cases : List KeyCase) : Except String Unit := do
  require (cases.length = corpus.cases) s!"{context}.cases length does not match corpus.cases"
  require (cases.map (·.case)).Nodup s!"{context}: duplicate opaque case"
  require (cases.map (·.originalId)).Nodup s!"{context}: duplicate original id"
  require (corpus.caseContractSha256 = sha256Text H (canonicalJson (contractJson
      (cases.map fun c => ⟨c.originalId, c.reading, c.expected, c.category⟩))))
    s!"{context}: corpus case contract hash mismatch"
  require (balanced labels cases) s!"{context}: x/y placement is unbalanced"
  require (∀ category ∈ cases.map (·.category),
      balanced labels (cases.filter fun c => c.category = category))
    s!"{context}: x/y placement for a category is unbalanced"

def keyNames : List Text :=
  ["backends".toList, "cases".toList, "corpus".toList, "integrity".toList, "placement".toList,
   "review_schema".toList, "review_sha256".toList, "schema".toList, "seed_sha256".toList,
   "source_ref".toList, "top_k".toList]

/-- `_validate_key`, of the object that the file holds. -/
def readKey (H : Hashes) (context : String) (v : Json) : Except String Key := do
  let fields ← exactKeys context keyNames v
  readConstant keySchema s!"{context}.schema" (member fields "schema".toList)
  readConstant reviewSchema s!"{context}.review_schema" (member fields "review_schema".toList)
  let seedSha256 ← readSha256 s!"{context}.seed_sha256" (member fields "seed_sha256".toList)
  let reviewSha256 ← readSha256 s!"{context}.review_sha256"
    (member fields "review_sha256".toList)
  let sourceRef ← readText s!"{context}.source_ref" (member fields "source_ref".toList)
  let topK ← readTopK s!"{context}.top_k" (member fields "top_k".toList)
  let integrity ← readSha256 s!"{context}.integrity" (member fields "integrity".toList)
  let corpus ← readKeyCorpus s!"{context}.corpus" (member fields "corpus".toList)
  let rawBackends ← readArray s!"{context}.backends" (member fields "backends".toList)
  let backends ← readItems readBackend s!"{context}.backends" 0 rawBackends
  checkBackends s!"{context}.backends" backends
  let rawCases ← readArray s!"{context}.cases" (member fields "cases".toList)
  let cases ← readItems (readKeyCase (labelsOf backends)) s!"{context}.cases" 0 rawCases
  checkCases context (labelsOf backends) corpus H cases
  let placement ← exactKeys s!"{context}.placement" ["x".toList, "y".toList]
    (member fields "placement".toList)
  let xPlacement ← readCounts (labelsOf backends) s!"{context}.placement.x"
    (member placement "x".toList)
  let yPlacement ← readCounts (labelsOf backends) s!"{context}.placement.y"
    (member placement "y".toList)
  require (xPlacement = countsOf KeyCase.xBackend (labelsOf backends) cases)
    s!"{context}.placement.x does not match case mappings"
  require (yPlacement = countsOf KeyCase.yBackend (labelsOf backends) cases)
    s!"{context}.placement.y does not match case mappings"
  let key : Key := {
    seedSha256 := seedSha256
    sourceRef := sourceRef
    topK := topK
    corpus := corpus
    reviewSha256 := reviewSha256
    backends := backends
    xPlacement := xPlacement
    yPlacement := yPlacement
    cases := cases
    integrity := integrity }
  require (integrity = sha256Text H (canonicalJson key.base)) s!"{context}: key integrity mismatch"
  return key

def loadJson (context : String) (file : Text) : Except String Json :=
  match loads file with
  | some v => .ok v
  | none => .error s!"{context}: invalid JSON"

def validateKey (H : Hashes) (context : String) (file : Text) : Except String Key := do
  let v ← loadJson context file
  readKey H context v

/-! ## The review -/

/-- `_load_jsonl_bytes`. A blank line holds no value either. -/
def loadLines (context : String) (file : Text) : Except String (List Json) := do
  let values ← (splitlines file).mapM (loadJson context)
  require (values ≠ []) s!"{context}: file has no records"
  return values

def recordNames : List Text :=
  ["case".toList, "category".toList, "integrity".toList, "reading".toList, "schema".toList,
   "x".toList, "y".toList]

/-- What stands on a side. -/
def readCandidates (context : String) (topK : Nat) (v : Json) : Except String (List Text) := do
  let candidates ← readTexts context v
  require (candidates.length ≤ topK) s!"{context} exceeds top_k {topK}"
  return candidates

def readRecord (H : Hashes) (context : String) (key : Key) (v : Json) :
    Except String ReviewRecord := do
  let fields ← exactKeys context recordNames v
  readConstant reviewSchema s!"{context}.schema" (member fields "schema".toList)
  let case ← readText s!"{context}.case" (member fields "case".toList)
  let reading ← readText s!"{context}.reading" (member fields "reading".toList)
  let category ← readText s!"{context}.category" (member fields "category".toList)
  let x ← readCandidates s!"{context}.x" key.topK (member fields "x".toList)
  let y ← readCandidates s!"{context}.y" key.topK (member fields "y".toList)
  let integrity ← readSha256 s!"{context}.integrity" (member fields "integrity".toList)
  let record : ReviewRecord := {
    case := case
    reading := reading
    category := category
    x := x
    y := y
    integrity := integrity }
  require (integrity = sha256Text H (canonicalJson record.base))
    s!"{context}: record integrity mismatch"
  match key.cases.find? fun c => c.case = case with
  | none => .error s!"{context}: unknown case"
  | some keyCase =>
    require (integrity = keyCase.reviewRecordSha256) s!"{context}: record hash does not match key"
    require (reading = keyCase.reading) s!"{context}.reading does not match key"
    require (category = keyCase.category) s!"{context}.category does not match key"
    return record

abbrev Review := List (Text × ReviewRecord)

def readRecords (H : Hashes) (context : String) (key : Key) :
    Review → List Json → Except String Review
  | review, [] => .ok review
  | review, v :: vs => do
    let record ← readRecord H context key v
    require (record.case ∉ review.map (·.1)) s!"{context}: duplicate case"
    readRecords H context key (review ++ [(record.case, record)]) vs

def loadReview (H : Hashes) (context : String) (key : Key) (file : Text) :
    Except String Review := do
  require (sha256Text H file = key.reviewSha256) s!"{context}: review file hash does not match key"
  let values ← loadLines context file
  let review ← readRecords H context key [] values
  require (∀ c ∈ key.cases, c.case ∈ review.map (·.1))
    s!"{context}: review case set does not match key"
  return review

/-! ## The packet -/

structure Manifest where
  cases : Nat
  sourceRef : Text
  topK : Nat
  reviewSha256 : Text
  keySha256 : Text
  keyIntegrity : Text
  integrity : Text

structure Packet where
  review : Text
  key : Text
  manifest : Text

def packetSchema : Text := "hazkey.blind-conversion-ab-packet.v1".toList
def reviewName : Text := "review.jsonl".toList
def keyName : Text := "unblind-key.json".toList

def Manifest.keyJson (m : Manifest) : Json := .object
  [("integrity".toList, .string m.keyIntegrity), ("name".toList, .string keyName),
   ("sha256".toList, .string m.keySha256)]

def Manifest.reviewJson (m : Manifest) : Json := .object
  [("name".toList, .string reviewName), ("sha256".toList, .string m.reviewSha256)]

def Manifest.base (m : Manifest) : Json := .object
  [("cases".toList, .number m.cases), ("key".toList, m.keyJson), ("review".toList, m.reviewJson),
   ("schema".toList, .string packetSchema), ("source_ref".toList, .string m.sourceRef),
   ("top_k".toList, .number m.topK)]

def Manifest.json (m : Manifest) : Json := .object
  [("cases".toList, .number m.cases), ("integrity".toList, .string m.integrity),
   ("key".toList, m.keyJson), ("review".toList, m.reviewJson),
   ("schema".toList, .string packetSchema), ("source_ref".toList, .string m.sourceRef),
   ("top_k".toList, .number m.topK)]

/-- `json.dumps` with an indent, and a line break. -/
def prettyJson (v : Json) : Text := dumps (.indented 2) v ++ ['\n']

def manifestOf (H : Hashes) (key : Key) : Manifest :=
  let base : Manifest := {
    cases := key.corpus.cases
    sourceRef := key.sourceRef
    topK := key.topK
    reviewSha256 := key.reviewSha256
    keySha256 := sha256Text H (prettyJson key.json)
    keyIntegrity := key.integrity
    integrity := [] }
  { base with integrity := sha256Text H (canonicalJson base.base) }

/-- What `prepare` publishes. -/
def packetOf (H : Hashes) (review : Text) (key : Key) : Packet where
  review := review
  key := prettyJson key.json
  manifest := prettyJson (manifestOf H key).json

def prepare (H : Hashes) (corpusFile : FileOf (List Row))
    (firstFile secondFile : FileOf (List ProbeResult)) (seed : Text) : Except String Packet := do
  let built ← buildReviewAndKey H corpusFile firstFile secondFile seed
  return packetOf H built.1 built.2

def manifestNames : List Text :=
  ["cases".toList, "integrity".toList, "key".toList, "review".toList, "schema".toList,
   "source_ref".toList, "top_k".toList]

def readManifest (H : Hashes) (context : String) (v : Json) : Except String Manifest := do
  let fields ← exactKeys context manifestNames v
  readConstant packetSchema s!"{context}.schema" (member fields "schema".toList)
  let cases ← readPositive s!"{context}.cases" (member fields "cases".toList)
  let topK ← readTopK s!"{context}.top_k" (member fields "top_k".toList)
  let sourceRef ← readText s!"{context}.source_ref" (member fields "source_ref".toList)
  let review ← exactKeys s!"{context}.review" ["name".toList, "sha256".toList]
    (member fields "review".toList)
  let key ← exactKeys s!"{context}.key" ["integrity".toList, "name".toList, "sha256".toList]
    (member fields "key".toList)
  readConstant reviewName s!"{context}.review.name" (member review "name".toList)
  readConstant keyName s!"{context}.key.name" (member key "name".toList)
  let reviewSha256 ← readSha256 s!"{context}.review.sha256" (member review "sha256".toList)
  let keySha256 ← readSha256 s!"{context}.key.sha256" (member key "sha256".toList)
  let keyIntegrity ← readSha256 s!"{context}.key.integrity" (member key "integrity".toList)
  let integrity ← readSha256 s!"{context}.integrity" (member fields "integrity".toList)
  let manifest : Manifest := {
    cases := cases
    sourceRef := sourceRef
    topK := topK
    reviewSha256 := reviewSha256
    keySha256 := keySha256
    keyIntegrity := keyIntegrity
    integrity := integrity }
  require (integrity = sha256Text H (canonicalJson manifest.base))
    s!"{context}: packet integrity mismatch"
  return manifest

def loadPacket (H : Hashes) (packet : Packet) : Except String (Key × Review) := do
  let v ← loadJson "manifest.json" packet.manifest
  let manifest ← readManifest H "manifest.json" v
  require (manifest.reviewSha256 = sha256Text H packet.review) "manifest.json: review hash mismatch"
  require (manifest.keySha256 = sha256Text H packet.key) "manifest.json: key hash mismatch"
  let key ← validateKey H "unblind-key.json" packet.key
  require (key.integrity = manifest.keyIntegrity ∧ key.reviewSha256 = manifest.reviewSha256 ∧
      key.sourceRef = manifest.sourceRef ∧ key.topK = manifest.topK ∧
      key.corpus.cases = manifest.cases)
    "manifest.json: manifest does not match unblind key"
  let review ← loadReview H "review.jsonl" key packet.review
  return (key, review)

end Hazkey.BlindReview
