import Hazkey.BlindScore
import Hazkey.QualityReports

/-! What the loader of a packet takes back from the values that were written. -/

namespace Hazkey.BlindReview

open ConversionQuality JsonText KeyedCoding

-- Of the characters of a list, not of all characters.
attribute [local instance (1100)] List.decidableBAll

section

variable {context : String} {α : Type}

def IsSha256 (t : Text) : Prop :=
  t.length = 71 ∧ "sha256:".toList <+: t ∧ ∀ c ∈ t.drop 7, c ∈ hexDigits

theorem requireSha256_eq_ok {t : Text} {u : Unit} :
    requireSha256 t context = .ok u ↔ IsSha256 t := require_eq_ok

theorem isPerm_self (l : List Text) : l.isPerm l = true := List.isPerm_iff.mpr (.refl l)

theorem exactKeys_object {names : List Text} {fields fields' : Fields} :
    exactKeys context names (.object fields) = .ok fields' ↔
      (fields.map (·.1)).isPerm names = true ∧ fields' = fields := by
  simp only [exactKeys, bind_eq_ok, require_eq_ok, pure_eq_ok, exists_and_left, exists_unit]

theorem member_self {name : Text} {v : Json} {fields : Fields} :
    member ((name, v) :: fields) name = v := by
  simp [member]

theorem member_ne {name name' : Text} {v : Json} {fields : Fields} (h : name' ≠ name) :
    member ((name', v) :: fields) name = member fields name := by
  have hname : (name == name') = false := by simpa using Ne.symm h
  simp [member, List.lookup_cons, hname]

theorem readText_string {s t : Text} :
    readText context (.string s) = .ok t ↔ s ≠ [] ∧ t = s := by
  simp only [readText, bind_eq_ok, requireString_eq_ok, pure_eq_ok, exists_and_left, exists_unit]

theorem readNatural_number {n m : Nat} : readNatural context (.number n) = .ok m ↔ m = n := by
  simp only [readNatural, Except.ok.injEq, eq_comm]

theorem readPositive_number {n m : Nat} :
    readPositive context (.number n) = .ok m ↔ n ≠ 0 ∧ m = n := by
  simp only [readPositive, bind_eq_ok, readNatural_number, exists_eq_left, require_eq_ok,
    exists_unit, pure_eq_ok]

theorem readTopK_number {n m : Nat} :
    readTopK context (.number n) = .ok m ↔ (1 ≤ n ∧ n ≤ 10) ∧ m = n := by
  simp only [readTopK, bind_eq_ok, readNatural_number, exists_eq_left, require_eq_ok,
    exists_unit, pure_eq_ok]

theorem readSha256_string {s t : Text} :
    readSha256 context (.string s) = .ok t ↔ IsSha256 s ∧ t = s := by
  simp only [readSha256, bind_eq_ok, requireSha256_eq_ok, pure_eq_ok, exists_and_left,
    exists_unit]

theorem readConstant_string {constant : Text} {u : Unit} :
    readConstant constant context (.string constant) = .ok u ↔ True := by
  simp only [readConstant, require_eq_ok]

theorem readArray_array {items items' : List Json} :
    readArray context (.array items) = .ok items' ↔ items' = items := by
  simp only [readArray, Except.ok.injEq, eq_comm]

/-- A reader of single values reads lists of them. -/
theorem readItems_map {read : String → Json → Except String α} {json : α → Json}
    {Valid : α → Prop} (h : ∀ context x y, read context (json x) = .ok y ↔ Valid x ∧ y = x)
    {index : Nat} {xs ys : List α} :
    readItems read context index (xs.map json) = .ok ys ↔ (∀ x ∈ xs, Valid x) ∧ ys = xs := by
  induction xs generalizing index ys with
  | nil => simp [readItems, eq_comm]
  | cons x xs ih =>
    simp only [List.map_cons, readItems, bind_eq_ok, h, ih, pure_eq_ok, List.forall_mem_cons]
    constructor
    · rintro ⟨_, ⟨hx, rfl⟩, _, ⟨hxs, rfl⟩, rfl⟩
      exact ⟨⟨hx, hxs⟩, rfl⟩
    · rintro ⟨⟨hx, hxs⟩, rfl⟩
      exact ⟨x, ⟨hx, rfl⟩, xs, ⟨hxs, rfl⟩, rfl⟩

theorem readTexts_strings {ts us : List Text} :
    readTexts context (strings ts) = .ok us ↔ (∀ t ∈ ts, t ≠ []) ∧ us = ts := by
  have hitem : ∀ context (s t : Text), readText context (.string s) = .ok t ↔ s ≠ [] ∧ t = s :=
    fun _ _ _ => readText_string
  simp only [readTexts, strings, bind_eq_ok, readArray_array, exists_eq_left,
    readItems_map hitem]

end

/-! ## The key -/

section

variable {context : String}

structure BackendMetadata.Valid (b : BackendMetadata) : Prop where
  probeBackend : b.probeBackend ≠ []
  backendVersion : b.backendVersion ≠ []
  runSha256 : IsSha256 b.runSha256
  iterations : b.iterations ≠ 0
  label : b.converterBackend ≠ []
  kind : b.resource.kind ≠ []
  path : b.resource.path ≠ []
  fingerprint : b.resource.fingerprint ≠ []
  kindOfLabel : resourceKind b.converterBackend = some b.resource.kind

theorem readBackend_json {b b' : BackendMetadata} :
    readBackend context b.json = .ok b' ↔ b.Valid ∧ b' = b := by
  simp (disch := decide) only [readBackend, readMeasurement, readResource, BackendMetadata.json,
    exactKeys_object, bind_eq_ok, List.map_cons, List.map_nil, isPerm_self, true_and,
    exists_eq_left, member_self, member_ne, readText_string, readSha256_string,
    readNatural_number, readPositive_number, require_eq_ok, exists_unit, pure_eq_ok, and_assoc,
    exists_and_left]
  constructor
  · rintro ⟨hlabel, hprobe, hversion, hsha, hiterations, hkind, hpath, hfingerprint, hof, rfl⟩
    exact ⟨⟨hprobe, hversion, hsha, hiterations, hlabel, hkind, hpath, hfingerprint, hof⟩, rfl⟩
  · rintro ⟨h, rfl⟩
    exact ⟨h.label, h.probeBackend, h.backendVersion, h.runSha256, h.iterations, h.kind, h.path,
      h.fingerprint, h.kindOfLabel, rfl⟩

structure KeyCase.Valid (labels : List Text) (c : KeyCase) : Prop where
  case : c.case ≠ []
  originalId : c.originalId ≠ []
  reading : c.reading ≠ []
  category : c.category ≠ []
  expected : c.expected ≠ []
  alternatives : ∀ t ∈ c.expected, t ≠ []
  xBackend : c.xBackend ≠ []
  yBackend : c.yBackend ≠ []
  labels : [c.xBackend, c.yBackend].isPerm labels = true
  sha256 : IsSha256 c.reviewRecordSha256

theorem readKeyCase_json {labels : List Text} {c c' : KeyCase} :
    readKeyCase labels context c.json = .ok c' ↔ c.Valid labels ∧ c' = c := by
  simp (disch := decide) only [readKeyCase, KeyCase.json, exactKeys_object, bind_eq_ok,
    List.map_cons, List.map_nil, isPerm_self, true_and, exists_eq_left, member_self, member_ne,
    readText_string, readTexts_strings, readSha256_string, require_eq_ok, exists_unit,
    pure_eq_ok, and_assoc, exists_and_left]
  constructor
  · rintro ⟨hcase, hid, hreading, hcategory, halternatives, hexpected, hx, hy, hlabels, hsha, rfl⟩
    exact ⟨⟨hcase, hid, hreading, hcategory, hexpected, halternatives, hx, hy, hlabels, hsha⟩,
      rfl⟩
  · rintro ⟨h, rfl⟩
    exact ⟨h.case, h.originalId, h.reading, h.category, h.alternatives, h.expected, h.xBackend,
      h.yBackend, h.labels, h.sha256, rfl⟩

def KeyCorpus.Valid (c : KeyCorpus) : Prop :=
  IsSha256 c.sha256 ∧ IsSha256 c.caseContractSha256 ∧ c.cases ≠ 0

theorem readKeyCorpus_json {c c' : KeyCorpus} :
    readKeyCorpus context c.json = .ok c' ↔ c.Valid ∧ c' = c := by
  simp (disch := decide) only [readKeyCorpus, KeyCorpus.json, KeyCorpus.Valid, exactKeys_object,
    bind_eq_ok, List.map_cons, List.map_nil, isPerm_self, true_and, exists_eq_left, member_self,
    member_ne, readSha256_string, readPositive_number, exists_and_left, pure_eq_ok, and_assoc]

theorem lookup_countsJson {labels : List Text} {count : Text → Nat} {label : Text}
    (h : label ∈ labels) :
    member (labels.map fun l => (l, Json.number (count l))) label = .number (count label) := by
  induction labels with
  | nil => exact absurd h List.not_mem_nil
  | cons l labels ih =>
    by_cases hl : l = label
    · rw [List.map_cons, hl, member_self]
    · rw [List.map_cons, member_ne hl]
      exact ih ((List.mem_cons.mp h).resolve_left (Ne.symm hl))

theorem readCounts_countsOf {side : KeyCase → Text} {labels : List Text} {cases : List KeyCase}
    {counts : List (Text × Nat)} :
    readCounts labels context (countsJson (countsOf side labels cases)) = .ok counts ↔
      counts = countsOf side labels cases := by
  let count : Text → Nat := fun label => cases.countP fun c => side c = label
  have hnumber : ∀ context (n m : Nat),
      readNatural context (.number n) = .ok m ↔ True ∧ m = n := by
    simp [readNatural_number]
  have hfields : (countsOf side labels cases).map (fun e => (e.1, Json.number e.2)) =
      labels.map fun l => (l, Json.number (count l)) := by
    simp [countsOf, count]
  have hmembers : labels.map (member (labels.map fun l => (l, Json.number (count l)))) =
      (labels.map count).map Json.number := by
    rw [List.map_map]
    exact List.map_congr_left fun label h => lookup_countsJson h
  have hnames : ((labels.map fun l => (l, Json.number (count l))).map (·.1)) = labels := by
    rw [List.map_map]
    exact List.map_id labels
  have hzip : labels.zip (labels.map count) = countsOf side labels cases :=
    List.map_prod_left_eq_zip.symm
  rw [countsJson, hfields]
  simp only [readCounts, bind_eq_ok, exactKeys_object, hnames, isPerm_self, true_and,
    exists_eq_left, hmembers, readItems_map hnumber, implies_true, pure_eq_ok, hzip]

structure BackendsAgree (backends : List BackendMetadata) : Prop where
  length : backends.length = 2
  nodup : (labelsOf backends).Nodup
  labels : hazkey ∈ labelsOf backends ∧ mozc ∈ labelsOf backends
  sorted : labelsOf backends = WeakOrders.sortedBy FrozenCorpus.textLess (labelsOf backends)
  version : ∀ a ∈ backends, ∀ b ∈ backends, a.backendVersion = b.backendVersion
  measurement : ∀ a ∈ backends, ∀ b ∈ backends,
    (a.warmups, a.iterations) = (b.warmups, b.iterations)

theorem checkBackends_eq_ok {backends : List BackendMetadata} {u : Unit} :
    checkBackends context backends = .ok u ↔ BackendsAgree backends := by
  simp only [checkBackends, bind_eq_ok, require_eq_ok, exists_unit]
  constructor
  · rintro ⟨h₁, h₂, h₃, h₄, h₅, h₆⟩
    exact ⟨h₁, h₂, h₃, h₄, h₅, h₆⟩
  · rintro ⟨h₁, h₂, h₃, h₄, h₅, h₆⟩
    exact ⟨h₁, h₂, h₃, h₄, h₅, h₆⟩

structure CasesAgree (labels : List Text) (corpus : KeyCorpus) (H : Hashes)
    (cases : List KeyCase) : Prop where
  length : cases.length = corpus.cases
  handles : (cases.map (·.case)).Nodup
  original : (cases.map (·.originalId)).Nodup
  contract : corpus.caseContractSha256 = sha256Text H (canonicalJson (contractJson
    (cases.map fun c => ⟨c.originalId, c.reading, c.expected, c.category⟩)))
  balanced : balanced labels cases
  categories : ∀ category ∈ cases.map (·.category),
    BlindReview.balanced labels (cases.filter fun c => c.category = category)

theorem checkCases_eq_ok {labels : List Text} {corpus : KeyCorpus} {H : Hashes}
    {cases : List KeyCase} {u : Unit} :
    checkCases context labels corpus H cases = .ok u ↔ CasesAgree labels corpus H cases := by
  simp only [checkCases, bind_eq_ok, require_eq_ok, exists_unit]
  constructor
  · rintro ⟨h₁, h₂, h₃, h₄, h₅, h₆⟩
    exact ⟨h₁, h₂, h₃, h₄, h₅, h₆⟩
  · rintro ⟨h₁, h₂, h₃, h₄, h₅, h₆⟩
    exact ⟨h₁, h₂, h₃, h₄, h₅, h₆⟩

structure Key.Valid (H : Hashes) (k : Key) : Prop where
  seedSha256 : IsSha256 k.seedSha256
  reviewSha256 : IsSha256 k.reviewSha256
  sourceRef : k.sourceRef ≠ []
  topK : 1 ≤ k.topK ∧ k.topK ≤ 10
  integrity : IsSha256 k.integrity
  corpus : k.corpus.Valid
  backends : ∀ b ∈ k.backends, b.Valid
  labels : BackendsAgree k.backends
  cases : ∀ c ∈ k.cases, c.Valid (labelsOf k.backends)
  agree : CasesAgree (labelsOf k.backends) k.corpus H k.cases
  hash : k.integrity = sha256Text H (canonicalJson k.base)

/-- A key whose placement is that of its cases is read as it is, or not at all. -/
theorem readKey_json {H : Hashes} {k k' : Key}
    (hx : k.xPlacement = countsOf KeyCase.xBackend (labelsOf k.backends) k.cases)
    (hy : k.yPlacement = countsOf KeyCase.yBackend (labelsOf k.backends) k.cases) :
    readKey H context k.json = .ok k' ↔ k.Valid H ∧ k' = k := by
  have hbackends : ∀ context (b b' : BackendMetadata),
      readBackend context b.json = .ok b' ↔ b.Valid ∧ b' = b := fun _ _ _ => readBackend_json
  have hcases : ∀ context (c c' : KeyCase),
      readKeyCase (labelsOf k.backends) context c.json = .ok c' ↔
        c.Valid (labelsOf k.backends) ∧ c' = c := fun _ _ _ => readKeyCase_json
  simp (disch := decide) only [readKey, Key.json, keyNames, Key.placementJson, exactKeys_object,
    bind_eq_ok, List.map_cons, List.map_nil, isPerm_self, true_and, exists_eq_left, member_self,
    member_ne, readConstant_string, readText_string, readSha256_string, readTopK_number,
    readKeyCorpus_json, readArray_array, readItems_map hbackends, readItems_map hcases,
    exists_unit, checkBackends_eq_ok, checkCases_eq_ok, hx, hy, readCounts_countsOf,
    require_eq_ok, pure_eq_ok, and_assoc, exists_and_left]
  rw [← hx, ← hy]
  constructor
  · rintro ⟨hseed, hreview, hsource, hlow, hhigh, hintegrity, hcorpus, hbackends, hlabels, hcases,
      hagree, hhash, rfl⟩
    exact ⟨⟨hseed, hreview, hsource, ⟨hlow, hhigh⟩, hintegrity, hcorpus, hbackends, hlabels, hcases, hagree,
      hhash⟩, rfl⟩
  · rintro ⟨h, rfl⟩
    exact ⟨h.seedSha256, h.reviewSha256, h.sourceRef, h.topK.1, h.topK.2, h.integrity, h.corpus,
      h.backends, h.labels, h.cases, h.agree, h.hash, rfl⟩

theorem loadJson_eq_ok {file : Text} {v : Json} :
    loadJson context file = .ok v ↔ loads file = some v := by
  cases h : loads file <;> simp [loadJson, h]

theorem loads_prettyJson (v : Json) : loads (prettyJson v) = some v :=
  loads_dumps_append _ v (by simp [blank])

theorem validateKey_eq_ok {H : Hashes} {k k' : Key} {file : Text}
    (hfile : loads file = some k.json)
    (hx : k.xPlacement = countsOf KeyCase.xBackend (labelsOf k.backends) k.cases)
    (hy : k.yPlacement = countsOf KeyCase.yBackend (labelsOf k.backends) k.cases) :
    validateKey H context file = .ok k' ↔ k.Valid H ∧ k' = k := by
  simp only [validateKey, bind_eq_ok, loadJson_eq_ok, hfile, Option.some.injEq,
    exists_eq_left', readKey_json hx hy]

end

/-! ## The review -/

section

variable {context : String}

theorem mapM_loadJson {lines : List Text} {vs : List Json} :
    lines.mapM (loadJson context) = .ok vs ↔ lines.map loads = vs.map some := by
  induction lines generalizing vs with
  | nil =>
    rw [List.mapM_nil, pure_eq_ok]
    cases vs <;> simp
  | cons line lines ih =>
    simp only [List.mapM_cons, bind_eq_ok, loadJson_eq_ok, ih, pure_eq_ok]
    constructor
    · rintro ⟨v, hv, vs, hvs, rfl⟩
      rw [List.map_cons, List.map_cons, hv, hvs]
    · intro h
      cases vs with
      | nil => simp at h
      | cons v vs =>
        obtain ⟨hv, hvs⟩ := List.cons.inj h
        exact ⟨v, hv, vs, hvs, rfl⟩

/-- A file of objects is read as they are, or not at all. -/
theorem loadLines_joinLines {vs ws : List Json} (hvs : ∀ v ∈ vs, ∃ fields, v = .object fields) :
    loadLines context (joinLines (vs.map canonicalJson)) = .ok ws ↔
      (vs ≠ [] ∧ ∀ v ∈ vs, Unbroken (canonicalJson v)) ∧ ws = vs := by
  have hobjects : ∀ t ∈ vs.map canonicalJson, ∃ L fields, t = dumps L (.object fields) := by
    intro t ht
    obtain ⟨v, hv, rfl⟩ := List.mem_map.mp ht
    obtain ⟨fields, rfl⟩ := hvs v hv
    exact ⟨.compact, fields, rfl⟩
  have hback : (vs.map canonicalJson).map loads = vs.map some := by
    rw [List.map_map]
    exact List.map_congr_left fun v _ => loads_dumps _ v
  have hlines : (∀ v ∈ vs, Unbroken (canonicalJson v)) →
      splitlines (joinLines (vs.map canonicalJson)) = vs.map canonicalJson := by
    intro h
    apply splitlines_joinLines
    intro t ht
    obtain ⟨v, hv, rfl⟩ := List.mem_map.mp ht
    exact h v hv
  simp only [loadLines, bind_eq_ok, require_eq_ok, exists_unit, pure_eq_ok, mapM_loadJson]
  constructor
  · rintro ⟨us, hus, hne, rfl⟩
    have hunbroken := unbroken_of_loads hobjects fun line hline hnone => by
      have hmem := List.mem_map_of_mem (f := loads) hline
      rw [hus, hnone] at hmem
      simp at hmem
    have hunbroken : ∀ v ∈ vs, Unbroken (canonicalJson v) :=
      fun v hv => hunbroken _ (List.mem_map_of_mem hv)
    rw [hlines hunbroken, hback] at hus
    obtain rfl := List.map_injective_iff.mpr (Option.some_injective _) hus
    exact ⟨⟨hne, hunbroken⟩, rfl⟩
  · rintro ⟨⟨hne, hunbroken⟩, rfl⟩
    exact ⟨_, by rw [hlines hunbroken, hback], hne, rfl⟩

structure ReviewRecord.Valid (H : Hashes) (key : Key) (r : ReviewRecord) : Prop where
  case : r.case ≠ []
  reading : r.reading ≠ []
  category : r.category ≠ []
  x : (∀ t ∈ r.x, t ≠ []) ∧ r.x.length ≤ key.topK
  y : (∀ t ∈ r.y, t ≠ []) ∧ r.y.length ≤ key.topK
  integrity : IsSha256 r.integrity
  hash : r.integrity = sha256Text H (canonicalJson r.base)
  known : ∃ c, key.cases.find? (fun c => c.case = r.case) = some c ∧
    r.integrity = c.reviewRecordSha256 ∧ r.reading = c.reading ∧ r.category = c.category

theorem readCandidates_strings {topK : Nat} {ts us : List Text} :
    readCandidates context topK (strings ts) = .ok us ↔
      ((∀ t ∈ ts, t ≠ []) ∧ ts.length ≤ topK) ∧ us = ts := by
  simp only [readCandidates, bind_eq_ok, readTexts_strings, require_eq_ok, exists_unit, pure_eq_ok]
  constructor
  · rintro ⟨_, ⟨hts, rfl⟩, hlength, rfl⟩
    exact ⟨⟨hts, hlength⟩, rfl⟩
  · rintro ⟨⟨hts, hlength⟩, rfl⟩
    exact ⟨_, ⟨hts, rfl⟩, hlength, rfl⟩

theorem readRecord_json {H : Hashes} {key : Key} {r r' : ReviewRecord} :
    readRecord H context key r.json = .ok r' ↔ r.Valid H key ∧ r' = r := by
  simp (disch := decide) only [readRecord, ReviewRecord.json, recordNames, exactKeys_object,
    bind_eq_ok, List.map_cons, List.map_nil, isPerm_self, true_and, exists_eq_left, member_self,
    member_ne, readConstant_string, readText_string, readSha256_string, readCandidates_strings,
    require_eq_ok, exists_unit, and_assoc, exists_and_left]
  cases hfind : key.cases.find? fun c => c.case = r.case with
  | none =>
    simp only [reduceCtorEq, and_false, false_iff]
    rintro ⟨h, -⟩
    obtain ⟨c, hc, -⟩ := h.known
    rw [hfind] at hc
    exact Option.some_ne_none c hc.symm
  | some c =>
    simp only [bind_eq_ok, require_eq_ok, exists_unit, pure_eq_ok]
    constructor
    · rintro ⟨hcase, hreading, hcategory, hx, hxs, hy, hys, hsha, hhash, hrecord, hr, hc, rfl⟩
      exact ⟨⟨hcase, hreading, hcategory, ⟨hx, hxs⟩, ⟨hy, hys⟩, hsha, hhash,
        c, hfind, hrecord, hr, hc⟩, rfl⟩
    · rintro ⟨h, rfl⟩
      obtain ⟨c', hc', hrecord, hr, hc⟩ := h.known
      rw [hfind, Option.some.injEq] at hc'
      subst hc'
      exact ⟨h.case, h.reading, h.category, h.x.1, h.x.2, h.y.1, h.y.2, h.integrity, h.hash,
        hrecord, hr, hc, rfl⟩

def reviewOf (records : List ReviewRecord) : Review := records.map fun r => (r.case, r)

theorem readRecords_map {H : Hashes} {key : Key} (before : List ReviewRecord)
    {records : List ReviewRecord}
    {review : Review} (hbefore : (before.map (·.case)).Nodup) :
    readRecords H context key (reviewOf before) (records.map ReviewRecord.json) = .ok review ↔
      ((∀ r ∈ records, r.Valid H key) ∧ ((before ++ records).map (·.case)).Nodup) ∧
        review = reviewOf (before ++ records) := by
  have hnames : ∀ records : List ReviewRecord,
      (reviewOf records).map (·.1) = records.map (·.case) := fun records => by
    rw [reviewOf, List.map_map]
    rfl
  induction records generalizing before with
  | nil => simp [readRecords, hbefore, eq_comm]
  | cons r records ih =>
    have hmore : reviewOf before ++ [(r.case, r)] = reviewOf (before ++ [r]) := by
      simp [reviewOf]
    have hsplit : before ++ r :: records = before ++ [r] ++ records := by simp
    simp only [List.map_cons, readRecords, bind_eq_ok, readRecord_json, require_eq_ok, exists_unit,
      hnames, List.forall_mem_cons]
    constructor
    · rintro ⟨r', ⟨hr, he⟩, hnew, h⟩
      rw [he] at hnew h
      have hnodup : ((before ++ [r]).map (·.case)).Nodup := by
        rw [List.map_append]
        exact hbefore.append (by simp) (by simpa using hnew)
      rw [hmore] at h
      obtain ⟨⟨hrs, hall⟩, h⟩ := (ih _ hnodup).mp h
      rw [hsplit]
      exact ⟨⟨⟨hr, hrs⟩, hall⟩, h⟩
    · rintro ⟨⟨⟨hr, hrs⟩, hnodup⟩, h⟩
      rw [hsplit] at hnodup h
      have hfirst : ((before ++ [r]).map (·.case)).Nodup := by
        rw [List.map_append] at hnodup
        exact (List.nodup_append.mp hnodup).1
      have hnew : r.case ∉ before.map (·.case) := by
        rw [List.map_append] at hfirst
        intro hmem
        exact (List.nodup_append.mp hfirst).2.2 _ hmem _ (by simp) rfl
      refine ⟨r, ⟨hr, rfl⟩, hnew, ?_⟩
      rw [hmore]
      exact (ih _ hfirst).mpr ⟨⟨hrs, hnodup⟩, h⟩

structure RecordsValid (H : Hashes) (key : Key) (records : List ReviewRecord) : Prop where
  hash : sha256Text H (reviewBytes records) = key.reviewSha256
  ne_nil : records ≠ []
  unbroken : ∀ r ∈ records, Unbroken (canonicalJson r.json)
  valid : ∀ r ∈ records, r.Valid H key
  nodup : (records.map (·.case)).Nodup
  covered : ∀ c ∈ key.cases, c.case ∈ records.map (·.case)

/-- A review is read as it was written, or not at all. -/
theorem loadReview_reviewBytes {H : Hashes} {key : Key} {records : List ReviewRecord}
    {review : Review} : loadReview H context key (reviewBytes records) = .ok review ↔
      RecordsValid H key records ∧ review = reviewOf records := by
  have hobjects : ∀ v ∈ records.map ReviewRecord.json, ∃ fields, v = .object fields := by
    intro v hv
    obtain ⟨r, -, rfl⟩ := List.mem_map.mp hv
    exact ⟨_, rfl⟩
  have hfile : reviewBytes records = joinLines ((records.map ReviewRecord.json).map canonicalJson) := by
    rw [List.map_map]
    rfl
  have hnames : (reviewOf records).map (·.1) = records.map (·.case) := by
    rw [reviewOf, List.map_map]
    rfl
  simp only [loadReview, bind_eq_ok, require_eq_ok, exists_unit, pure_eq_ok]
  rw [hfile]
  simp only [loadLines_joinLines hobjects]
  rw [← hfile]
  constructor
  · rintro ⟨hhash, _, ⟨⟨hne, hunbroken⟩, rfl⟩, review', hreview, hcovered, rfl⟩
    obtain ⟨⟨hvalid, hnodup⟩, rfl⟩ := (readRecords_map [] List.nodup_nil).mp hreview
    rw [List.nil_append, hnames] at hcovered
    exact ⟨⟨hhash, by simpa using hne, fun r hr => hunbroken _ (List.mem_map_of_mem hr), hvalid,
      hnodup, hcovered⟩, rfl⟩
  · rintro ⟨h, rfl⟩
    refine ⟨h.hash, _, ⟨⟨by simpa using h.ne_nil, fun v hv => ?_⟩, rfl⟩, reviewOf records, ?_,
      ?_, rfl⟩
    · obtain ⟨r, hr, rfl⟩ := List.mem_map.mp hv
      exact h.unbroken r hr
    · exact (readRecords_map [] List.nodup_nil).mpr ⟨⟨h.valid, h.nodup⟩, rfl⟩
    · rw [hnames]
      exact h.covered

end

/-! ## The packet -/

section

variable {context : String} {H : Hashes}

theorem hexOf_mem {d : Digest} {c : Char} (h : c ∈ hexOf d) : c ∈ hexDigits := by
  obtain ⟨i, -, rfl⟩ := List.mem_map.mp h
  have hall : ∀ n < 16, Nat.digitChar n ∈ hexDigits := by decide
  exact hall _ (Nat.mod_lt _ (by decide))

theorem length_algorithm : "sha256:".toList.length = 7 := by decide

theorem length_hexOf (d : Digest) : (hexOf d).length = 64 := by
  rw [hexOf, List.length_map, List.length_range]

theorem length_digestText (d : Digest) : (digestText d).length = 7 + 64 :=
  List.length_append.trans (congrArg₂ (· + ·) length_algorithm (length_hexOf d))

theorem isSha256_digestText (d : Digest) : IsSha256 (digestText d) := by
  have hdrop : (digestText d).drop 7 = hexOf d := List.drop_left' length_algorithm
  refine ⟨length_digestText d, List.prefix_append _ _, fun c hc => ?_⟩
  rw [hdrop] at hc
  exact hexOf_mem hc

structure Manifest.Valid (H : Hashes) (m : Manifest) : Prop where
  cases : m.cases ≠ 0
  topK : 1 ≤ m.topK ∧ m.topK ≤ 10
  sourceRef : m.sourceRef ≠ []
  reviewSha256 : IsSha256 m.reviewSha256
  keySha256 : IsSha256 m.keySha256
  keyIntegrity : IsSha256 m.keyIntegrity
  integrity : IsSha256 m.integrity
  hash : m.integrity = sha256Text H (canonicalJson m.base)

theorem readManifest_json {m m' : Manifest} :
    readManifest H context m.json = .ok m' ↔ m.Valid H ∧ m' = m := by
  simp (disch := decide) only [readManifest, Manifest.json, Manifest.keyJson, Manifest.reviewJson,
    manifestNames, exactKeys_object, bind_eq_ok, List.map_cons, List.map_nil, isPerm_self,
    true_and, exists_eq_left, member_self, member_ne, readConstant_string, readText_string,
    readSha256_string, readPositive_number, readTopK_number, require_eq_ok, exists_unit,
    pure_eq_ok, and_assoc, exists_and_left]
  constructor
  · rintro ⟨hcases, hlow, hhigh, hsource, hreview, hkey, hkeyIntegrity, hintegrity, hhash, rfl⟩
    exact ⟨⟨hcases, ⟨hlow, hhigh⟩, hsource, hreview, hkey, hkeyIntegrity, hintegrity, hhash⟩, rfl⟩
  · rintro ⟨h, rfl⟩
    exact ⟨h.cases, h.topK.1, h.topK.2, h.sourceRef, h.reviewSha256, h.keySha256, h.keyIntegrity,
      h.integrity, h.hash, rfl⟩

theorem manifestOf_valid {key : Key} (h : key.Valid H) : (manifestOf H key).Valid H where
  cases := h.corpus.2.2
  topK := h.topK
  sourceRef := h.sourceRef
  reviewSha256 := h.reviewSha256
  keySha256 := isSha256_digestText _
  keyIntegrity := h.integrity
  integrity := isSha256_digestText _
  hash := rfl

theorem loadPacket_eq_ok {packet : Packet} {loaded : Key × Review} :
    loadPacket H packet = .ok loaded ↔ ∃ v, loads packet.manifest = some v ∧
      ∃ manifest, readManifest H "manifest.json" v = .ok manifest ∧
        manifest.reviewSha256 = sha256Text H packet.review ∧
        manifest.keySha256 = sha256Text H packet.key ∧
        ∃ key, validateKey H "unblind-key.json" packet.key = .ok key ∧
          (key.integrity = manifest.keyIntegrity ∧ key.reviewSha256 = manifest.reviewSha256 ∧
            key.sourceRef = manifest.sourceRef ∧ key.topK = manifest.topK ∧
            key.corpus.cases = manifest.cases) ∧
          ∃ review, loadReview H "review.jsonl" key packet.review = .ok review ∧
            loaded = (key, review) := by
  simp only [loadPacket, bind_eq_ok, loadJson_eq_ok, require_eq_ok, exists_unit, pure_eq_ok]

/-- A packet is loaded as it was built, or not at all. -/
theorem loadPacket_packetOf {key : Key} {records : List ReviewRecord} {loaded : Key × Review}
    (hx : key.xPlacement = countsOf KeyCase.xBackend (labelsOf key.backends) key.cases)
    (hy : key.yPlacement = countsOf KeyCase.yBackend (labelsOf key.backends) key.cases) :
    loadPacket H (packetOf H (reviewBytes records) key) = .ok loaded ↔
      (key.Valid H ∧ RecordsValid H key records) ∧ loaded = (key, reviewOf records) := by
  rw [loadPacket_eq_ok]
  simp only [packetOf, loads_prettyJson, Option.some.injEq, exists_eq_left', readManifest_json,
    validateKey_eq_ok (loads_prettyJson _) hx hy, loadReview_reviewBytes]
  constructor
  · rintro ⟨m, ⟨-, rfl⟩, -, -, _, ⟨hkey, rfl⟩, -, _, ⟨hrecords, rfl⟩, rfl⟩
    exact ⟨⟨hkey, hrecords⟩, rfl⟩
  · rintro ⟨⟨hkey, hrecords⟩, rfl⟩
    exact ⟨_, ⟨manifestOf_valid hkey, rfl⟩, hrecords.hash.symm, rfl, _, ⟨hkey, rfl⟩,
      ⟨rfl, rfl, rfl, rfl, rfl⟩, _, ⟨hrecords, rfl⟩, rfl⟩

end

/-! ## Judgments -/

section

variable {context : String} {H : Hashes}

theorem find_allowed (j : Judgment) :
    (allowedJudgments.find? fun j' => j'.text = j.text) = some j := by
  cases j <;> decide

theorem readJudgment_json {r r' : JudgmentRecord} :
    readJudgment context r.json = .ok r' ↔ r.case ≠ [] ∧ r' = r := by
  have htext : r.judgment.text ≠ [] := by cases r.judgment <;> decide
  simp (disch := decide) only [readJudgment, JudgmentRecord.json, exactKeys_object, bind_eq_ok,
    List.map_cons, List.map_nil, isPerm_self, true_and, exists_eq_left, member_self, member_ne,
    readConstant_string, readText_string, exists_unit, and_assoc, exists_and_left, find_allowed,
    pure_eq_ok, htext, ne_eq, not_false_eq_true]

def judgmentsOf (records : List JudgmentRecord) : Judgments :=
  records.map fun r => (r.case, r.judgment)

theorem judgmentsOf_names (records : List JudgmentRecord) :
    (judgmentsOf records).map (·.1) = records.map (·.case) := by
  rw [judgmentsOf, List.map_map]
  rfl

theorem readJudgments_map (before : List JudgmentRecord) {records : List JudgmentRecord}
    (hcase : ∀ r ∈ records, r.case ≠ [])
    (hnodup : ((before ++ records).map (·.case)).Nodup) :
    readJudgments context (judgmentsOf before) (records.map JudgmentRecord.json) =
      .ok (judgmentsOf (before ++ records)) := by
  induction records generalizing before with
  | nil => simp [readJudgments]
  | cons r records ih =>
    have hmore : judgmentsOf before ++ [(r.case, r.judgment)] = judgmentsOf (before ++ [r]) := by
      simp [judgmentsOf]
    have hsplit : before ++ r :: records = before ++ [r] ++ records := by simp
    have hnew : r.case ∉ before.map (·.case) := by
      rw [List.map_append] at hnodup
      intro hmem
      exact (List.nodup_append.mp hnodup).2.2 _ hmem _ (by simp) rfl
    rw [hsplit] at hnodup ⊢
    have htail := ih _ (fun r hr => hcase r (List.mem_cons_of_mem _ hr)) hnodup
    rw [List.map_cons, readJudgments, bind_eq_ok]
    refine ⟨r, readJudgment_json.mpr ⟨hcase r List.mem_cons_self, rfl⟩, ?_⟩
    rw [judgmentsOf_names, require, if_pos hnew, hmore]
    exact htail

/-- A reviewer's file with one judgment of each case is taken. -/
theorem loadJudgments_file {cases : List Text} {records : List JudgmentRecord}
    (hne : records ≠ []) (hcase : ∀ r ∈ records, r.case ≠ [])
    (hunbroken : ∀ r ∈ records, Unbroken (canonicalJson r.json))
    (hnodup : (records.map (·.case)).Nodup) (hcases : ∀ t, t ∈ records.map (·.case) ↔ t ∈ cases) :
    loadJudgments H context cases (judgmentsFile records) =
      .ok (judgmentsOf records, sha256Text H (judgmentsFile records)) := by
  have hobjects : ∀ v ∈ records.map JudgmentRecord.json, ∃ fields, v = .object fields := by
    intro v hv
    obtain ⟨r, -, rfl⟩ := List.mem_map.mp hv
    exact ⟨_, rfl⟩
  have hfile : judgmentsFile records =
      joinLines ((records.map JudgmentRecord.json).map canonicalJson) := by
    rw [List.map_map]
    rfl
  have hlines : loadLines context (judgmentsFile records) =
      .ok (records.map JudgmentRecord.json) := by
    rw [hfile, loadLines_joinLines hobjects]
    refine ⟨⟨by simpa using hne, fun v hv => ?_⟩, rfl⟩
    obtain ⟨r, hr, rfl⟩ := List.mem_map.mp hv
    exact hunbroken r hr
  rw [loadJudgments, bind_eq_ok]
  refine ⟨_, hlines, bind_eq_ok.mpr ⟨_, readJudgments_map [] hcase hnodup, ?_⟩⟩
  rw [List.nil_append, judgmentsOf_names, require,
    if_pos ⟨fun t ht => (hcases t).mp ht, fun t ht => (hcases t).mpr ht⟩]
  rfl

end

end Hazkey.BlindReview
