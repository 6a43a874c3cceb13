import Hazkey.BlindPlacement
import Hazkey.LexicographicOrder

/-! What a review and its key are made of, and that they are loaded as they are
unless a text breaks a line. -/

namespace Hazkey.FrozenCorpus

theorem textLess_eq : textLess = WeakOrders.lexLess Char.toNat := by
  funext s t
  induction s generalizing t with
  | nil => cases t <;> rfl
  | cons a s ih =>
    cases t with
    | nil => rfl
    | cons b t =>
      rw [textLess, WeakOrders.lexLess, ih]
      by_cases hab : a = b
      · simp [hab]
      · have hne : a.toNat ≠ b.toNat := fun h => hab (Char.toNat_inj.mp h)
        simp [hab, hne]

end Hazkey.FrozenCorpus

namespace Hazkey.BlindReview

open ConversionQuality JsonText KeyedCoding

-- Of the characters of a list, not of all characters.
attribute [local instance (1100)] List.decidableBAll

theorem contractJson_perm {contract contract' : List ContractCase} (h : contract.Perm contract')
    (hids : (contract.map (·.id)).Nodup) : contractJson contract = contractJson contract' := by
  rw [contractJson, contractJson, FrozenCorpus.textLess_eq,
    WeakOrders.sortedBy_lexLess_perm (fun _ _ => Char.toNat_inj.mp) ContractCase.id h hids]

/-! ## The inputs -/

structure ResultValid (r : ProbeResult) : Prop where
  backend : r.provenance.backend ≠ []
  backendVersion : r.provenance.backendVersion ≠ []
  sourceRef : r.provenance.sourceRef ≠ []
  kind : r.provenance.resource.kind ≠ []
  path : r.provenance.resource.path ≠ []
  fingerprint : r.provenance.resource.fingerprint ≠ []
  label : r.provenance.converterBackend ≠ []
  kindOfLabel : resourceKind r.provenance.converterBackend = some r.provenance.resource.kind
  topK : 1 ≤ r.provenance.topK ∧ r.provenance.topK ≤ 10
  candidates : ∀ t ∈ r.candidates, t ≠ []
  length : r.candidates.length ≤ r.provenance.topK
  iterations : r.provenance.iterations ≠ 0

theorem ResultValid.of_ok {context : String} {r : ProbeResult} {u : Unit}
    (h : validateResult context r = .ok u) : ResultValid r := by
  simp only [validateResult, bind_eq_ok, require_eq_ok, requireString_eq_ok,
    requireStrings_eq_ok, requireSha256_eq_ok, exists_unit] at h
  obtain ⟨-, -, hbackend, hversion, hsource, hkind, hpath, hprint, hlabel, -, hof, -, htop, -, -,
    hcandidates, hlength, hiterations⟩ := h
  exact ⟨hbackend, hversion, hsource, hkind, hpath, hprint, hlabel, hof, htop, hcandidates,
    hlength, Nat.pos_iff_ne_zero.mp hiterations⟩

/-- The results of a run are as its lines were, all of one provenance. -/
structure RunValid (run : Run) : Prop where
  ne_nil : run.cases ≠ []
  results : ∀ e ∈ run.cases, ResultValid e.2 ∧ e.2.provenance = run.provenance
  nodup : (run.cases.map (·.1)).Nodup

theorem collectCases_ok {path : String} {before cases : List (Text × ProbeResult)} {line : Nat}
    {results : List ProbeResult} (h : collectCases path before line results = .ok cases)
    (hbefore : (before.map (·.1)).Nodup) (hvalid : ∀ e ∈ before, ResultValid e.2) :
    (cases.map (·.1)).Nodup ∧ ∀ e ∈ cases, ResultValid e.2 := by
  induction results generalizing before line with
  | nil =>
    obtain rfl := Except.ok.inj h
    exact ⟨hbefore, hvalid⟩
  | cons r results ih =>
    simp only [collectCases, bind_eq_ok, require_eq_ok, exists_unit] at h
    obtain ⟨hresult, hnew, h⟩ := h
    apply ih h
    · rw [List.map_append]
      exact hbefore.append (by simp) (by simpa using hnew)
    · intro e he
      rcases List.mem_append.mp he with he | he
      · exact hvalid e he
      · obtain rfl := List.mem_singleton.mp he
        exact .of_ok hresult

theorem RunValid.of_ok {path : String} {results : List ProbeResult} {run : Run}
    (h : loadRun path results = .ok run) : RunValid run := by
  rw [loadRun, bind_eq_ok] at h
  obtain ⟨cases, hcases, h⟩ := h
  obtain ⟨hnodup, hvalid⟩ := collectCases_ok hcases (by simp) (by simp)
  cases cases with
  | nil => exact absurd h (by simp)
  | cons e cases =>
    simp only [bind_eq_ok, require_eq_ok, exists_unit, pure_eq_ok] at h
    obtain ⟨hsame, -, rfl⟩ := h
    exact ⟨by simp, fun e' he' => ⟨hvalid e' he', hsame e' he'⟩, hnodup⟩

theorem RunValid.provenance {run : Run} (h : RunValid run) :
    ∃ r, ResultValid r ∧ r.provenance = run.provenance := by
  obtain ⟨e, cases, hcases⟩ := List.exists_cons_of_ne_nil h.ne_nil
  have he := h.results e (by simp [hcases])
  exact ⟨e.2, he⟩

theorem RunValid.label {run : Run} (h : RunValid run) : run.label = hazkey ∨ run.label = mozc := by
  obtain ⟨r, hr, he⟩ := h.provenance
  have hkind := hr.kindOfLabel
  rw [he, resourceKind] at hkind
  by_cases hhazkey : run.provenance.converterBackend = hazkey
  · exact .inl hhazkey
  · rw [if_neg hhazkey] at hkind
    by_cases hmozc : run.provenance.converterBackend = mozc
    · exact .inr hmozc
    · rw [if_neg hmozc] at hkind
      exact absurd hkind (by simp)

theorem RunValid.caseOf {run : Run} (h : RunValid run) {id : Text}
    (hid : id ∈ run.cases.map (·.1)) : ResultValid (run.caseOf id) ∧
      (run.caseOf id).provenance = run.provenance := by
  obtain ⟨e, he, rfl⟩ := List.mem_map.mp hid
  have hlookup := Tallies.lookup_eq_some_of_mem h.nodup (k := e.1) (v := e.2) he
  rw [Run.caseOf, hlookup, Option.getD_some]
  exact h.results e he

structure RunsValid (corpus : List Row) (corpusSha256 : Text) (first second : Run) : Prop where
  labels : first.label ≠ second.label
  sourceRef : second.provenance.sourceRef = first.provenance.sourceRef
  backendVersion : second.provenance.backendVersion = first.provenance.backendVersion
  warmups : second.provenance.warmups = first.provenance.warmups
  iterations : second.provenance.iterations = first.provenance.iterations
  topK : second.provenance.topK = first.provenance.topK
  firstIds : ∀ id ∈ corpus.map (·.id), id ∈ first.cases.map (·.1)
  secondIds : ∀ id ∈ corpus.map (·.id), id ∈ second.cases.map (·.1)

theorem RunsValid.of_ok {corpus : List Row} {corpusSha256 : Text} {first second : Run} {u : Unit}
    (h : validateRuns corpus corpusSha256 first second = .ok u) :
    RunsValid corpus corpusSha256 first second := by
  simp only [validateRuns, validateRunCases, bind_eq_ok, require_eq_ok, exists_unit] at h
  obtain ⟨-, hlabels, hsource, hversion, hwarmups, hiterations, htop, -, -, ⟨⟨-, hfirst⟩, -⟩,
    ⟨-, hsecond⟩, -⟩ := h
  exact ⟨hlabels, hsource, hversion, hwarmups, hiterations, htop, hfirst, hsecond⟩

/-! ## What is built -/

def drawOf (H : Hashes) (corpusFile : FileOf (List Row)) (seed : Text) : Draw :=
  ⟨H, fromHex seed, fileSha256 H corpusFile⟩

def blindedOf (d : Draw) (corpus : List Row) (first second : Run) : List Blinded :=
  (orderedIds d (corpus.map (·.id))).map (placedCase d corpus first second)

/-- What is accepted: a corpus, two runs on it, and handles that are all different. -/
structure Accepted (H : Hashes) (corpusFile : FileOf (List Row))
    (firstFile secondFile : FileOf (List ProbeResult)) (seed : Text) (first second : Run) :
    Prop where
  corpus : CorpusValid corpusFile.content
  firstRun : loadRun "first run" firstFile.content = .ok first
  secondRun : loadRun "second run" secondFile.content = .ok second
  runs : RunsValid corpusFile.content (fileSha256 H corpusFile) first second
  handles : ((orderedIds (drawOf H corpusFile seed) (corpusFile.content.map (·.id))).map
    (opaqueId (drawOf H corpusFile seed))).Nodup

theorem Accepted.of_ok {H : Hashes} {corpusFile : FileOf (List Row)}
    {firstFile secondFile : FileOf (List ProbeResult)} {seed : Text} {built : Text × Key}
    (h : buildReviewAndKey H corpusFile firstFile secondFile seed = .ok built) :
    ∃ first second, Accepted H corpusFile firstFile secondFile seed first second ∧
      built = (reviewBytes ((blindedOf (drawOf H corpusFile seed) corpusFile.content first
          second).map (·.record)),
        keyOf (drawOf H corpusFile seed) corpusFile.content first second
          (fileSha256 H firstFile) (fileSha256 H secondFile)
          (blindedOf (drawOf H corpusFile seed) corpusFile.content first second)) := by
  simp only [buildReviewAndKey, bind_eq_ok, require_eq_ok, exists_unit, loadCorpus_eq_ok,
    blindCases_eq_ok, pure_eq_ok] at h
  obtain ⟨-, corpus, ⟨hcorpus, rfl⟩, first, hfirst, second, hsecond, hruns, blinded,
    ⟨⟨-, hhandles⟩, rfl⟩, hbuilt⟩ := h
  exact ⟨first, second, ⟨hcorpus, hfirst, hsecond, .of_ok hruns, hhandles⟩, hbuilt⟩

/-! ## The key that is built -/

section

variable {H : Hashes} {corpusFile : FileOf (List Row)}
  {firstFile secondFile : FileOf (List ProbeResult)} {seed : Text} {first second : Run}

def builtKey (H : Hashes) (corpusFile : FileOf (List Row))
    (firstFile secondFile : FileOf (List ProbeResult)) (seed : Text) (first second : Run) : Key :=
  keyOf (drawOf H corpusFile seed) corpusFile.content first second (fileSha256 H firstFile)
    (fileSha256 H secondFile) (blindedOf (drawOf H corpusFile seed) corpusFile.content first second)

def builtRecords (H : Hashes) (corpusFile : FileOf (List Row)) (seed : Text)
    (first second : Run) : List ReviewRecord :=
  (blindedOf (drawOf H corpusFile seed) corpusFile.content first second).map (·.record)

theorem Accepted.labels
    (h : Accepted H corpusFile firstFile secondFile seed first second) :
    (first.label = hazkey ∧ second.label = mozc) ∨
      (first.label = mozc ∧ second.label = hazkey) := by
  have hne := h.runs.labels
  rcases (RunValid.of_ok h.firstRun).label with hf | hf <;>
    rcases (RunValid.of_ok h.secondRun).label with hs | hs
  · exact absurd (hf.trans hs.symm) hne
  · exact .inl ⟨hf, hs⟩
  · exact .inr ⟨hf, hs⟩
  · exact absurd (hf.trans hs.symm) hne

theorem Accepted.sortedLabels
    (h : Accepted H corpusFile firstFile secondFile seed first second) :
    WeakOrders.sortedBy FrozenCorpus.textLess [first.label, second.label] = [hazkey, mozc] := by
  rcases h.labels with ⟨hf, hs⟩ | ⟨hf, hs⟩
  · rw [hf, hs]
    decide
  · rw [hf, hs]
    decide

theorem Accepted.labelsOf_builtKey
    (h : Accepted H corpusFile firstFile secondFile seed first second) :
    labelsOf (builtKey H corpusFile firstFile secondFile seed first second).backends =
      [hazkey, mozc] := by
  rw [← h.sortedLabels]
  exact (WeakOrders.sortedBy_map FrozenCorpus.textLess BackendMetadata.converterBackend
    [backendMetadata first (fileSha256 H firstFile),
      backendMetadata second (fileSha256 H secondFile)]).symm

theorem Accepted.placementCounts_eq
    (h : Accepted H corpusFile firstFile secondFile seed first second) (side : KeyCase → Text)
    (cases : List KeyCase) :
    placementCounts side [first.label, second.label] cases =
      countsOf side [hazkey, mozc] cases := by
  rw [placementCounts, sortedItems, WeakOrders.sortedBy_map, countsOf, ← h.sortedLabels]

theorem Accepted.placements
    (h : Accepted H corpusFile firstFile secondFile seed first second) :
    (builtKey H corpusFile firstFile secondFile seed first second).xPlacement =
      countsOf KeyCase.xBackend
        (labelsOf (builtKey H corpusFile firstFile secondFile seed first second).backends)
        (builtKey H corpusFile firstFile secondFile seed first second).cases ∧
    (builtKey H corpusFile firstFile secondFile seed first second).yPlacement =
      countsOf KeyCase.yBackend
        (labelsOf (builtKey H corpusFile firstFile secondFile seed first second).backends)
        (builtKey H corpusFile firstFile secondFile seed first second).cases := by
  rw [h.labelsOf_builtKey]
  exact ⟨h.placementCounts_eq _ _, h.placementCounts_eq _ _⟩

variable (H corpusFile firstFile secondFile seed first second) in
theorem builtKey_cases_perm :
    (builtKey H corpusFile firstFile secondFile seed first second).cases.Perm
      (corpusFile.content.map
        (placedKey (drawOf H corpusFile seed) corpusFile.content first second)) :=
  keys_perm _ _ _ _ (orderedIds_perm _)

/-- A packet that was built is loaded as it is, or not at all. -/
theorem Accepted.load (h : Accepted H corpusFile firstFile secondFile seed first second)
    {loaded : Key × Review} :
    loadPacket H (packetOf H (reviewBytes (builtRecords H corpusFile seed first second))
        (builtKey H corpusFile firstFile secondFile seed first second)) = .ok loaded ↔
      ((builtKey H corpusFile firstFile secondFile seed first second).Valid H ∧
        RecordsValid H (builtKey H corpusFile firstFile secondFile seed first second)
          (builtRecords H corpusFile seed first second)) ∧
      loaded = (builtKey H corpusFile firstFile secondFile seed first second,
        reviewOf (builtRecords H corpusFile seed first second)) :=
  loadPacket_packetOf h.placements.1 h.placements.2

/-! ## It is valid -/

theorem Accepted.rowResults (h : Accepted H corpusFile firstFile secondFile seed first second)
    {row : Row} (hrow : row ∈ corpusFile.content) :
    ResultValid (first.caseOf row.id) ∧ ResultValid (second.caseOf row.id) ∧
      (first.caseOf row.id).provenance.topK = first.provenance.topK ∧
      (second.caseOf row.id).provenance.topK = first.provenance.topK := by
  have hid : row.id ∈ corpusFile.content.map (·.id) := List.mem_map_of_mem hrow
  obtain ⟨hf, hft⟩ := (RunValid.of_ok h.firstRun).caseOf (h.runs.firstIds _ hid)
  obtain ⟨hs, hst⟩ := (RunValid.of_ok h.secondRun).caseOf (h.runs.secondIds _ hid)
  refine ⟨hf, hs, by rw [hft], ?_⟩
  rw [hst, h.runs.topK]

theorem backendMetadata_valid {run : Run} (h : RunValid run) (d : Digest) :
    (backendMetadata run (digestText d)).Valid := by
  obtain ⟨r, hr, he⟩ := h.provenance
  have hbackend := hr.backend
  have hversion := hr.backendVersion
  have hiterations := hr.iterations
  have hlabel := hr.label
  have hkind := hr.kind
  have hpath := hr.path
  have hprint := hr.fingerprint
  have hof := hr.kindOfLabel
  rw [he] at hbackend hversion hiterations hlabel hkind hpath hprint hof
  exact {
    probeBackend := hbackend
    backendVersion := hversion
    runSha256 := isSha256_digestText d
    iterations := hiterations
    label := hlabel
    kind := hkind
    path := hpath
    fingerprint := hprint
    kindOfLabel := hof }

theorem Accepted.keyCase_valid
    (h : Accepted H corpusFile firstFile secondFile seed first second) {row : Row}
    (hrow : row ∈ corpusFile.content) :
    (placedKey (drawOf H corpusFile seed) corpusFile.content first second row).Valid
      [hazkey, mozc] := by
  obtain ⟨hcase, hid, hreading, hcategory, hexpected⟩ := placedKey_row
    (drawOf H corpusFile seed) first second h.corpus.nodup hrow
  have hsides : ∀ {x y : Text}, ((x = first.label ∧ y = second.label) ∨
      (x = second.label ∧ y = first.label)) →
      x ≠ [] ∧ y ≠ [] ∧ [x, y].isPerm [hazkey, mozc] = true := by
    rintro x y hxy
    have hlabels : (x = hazkey ∧ y = mozc) ∨ (x = mozc ∧ y = hazkey) := by
      rcases h.labels with ⟨hf, hs⟩ | ⟨hf, hs⟩ <;> rw [hf, hs] at hxy
      · exact hxy
      · exact hxy.symm
    rcases hlabels with ⟨rfl, rfl⟩ | ⟨rfl, rfl⟩ <;> decide
  have hplaced := placedKey_sides (drawOf H corpusFile seed) corpusFile.content first second row
  obtain ⟨hx, hy, hperm⟩ := hsides (hplaced.imp And.right And.right)
  refine ⟨?_, ?_, ?_, ?_, ?_, ?_, hx, hy, hperm, ?_⟩
  · rw [hcase]
    exact List.append_ne_nil_of_left_ne_nil (by decide) _
  · exact hid ▸ h.corpus.ids row hrow
  · exact hreading ▸ h.corpus.readings row hrow
  · exact hcategory ▸ h.corpus.categories row hrow
  · rw [hexpected]
    exact List.splitOn_ne_nil _ _
  · exact hexpected ▸ h.corpus.alternatives row hrow
  · rw [placedKey, placedCase]
    by_cases hmem : row.id ∈ firstOnX (drawOf H corpusFile seed) corpusFile.content
    · rw [if_pos hmem]
      exact isSha256_digestText _
    · rw [if_neg hmem]
      exact isSha256_digestText _

theorem map_placedKey {α : Type} {f : KeyCase → α} {g : Row → α} {d : Draw} {corpus : List Row}
    {cases : List KeyCase} (hcases : cases.Perm (corpus.map (placedKey d corpus first second)))
    (hfg : ∀ row ∈ corpus, f (placedKey d corpus first second row) = g row) :
    (cases.map f).Perm (corpus.map g) := by
  have h := hcases.map f
  have hmap : corpus.map (f ∘ placedKey d corpus first second) = corpus.map g :=
    List.map_congr_left hfg
  rwa [List.map_map, hmap] at h

theorem Accepted.casesAgree
    (h : Accepted H corpusFile firstFile secondFile seed first second) :
    CasesAgree [hazkey, mozc]
      (builtKey H corpusFile firstFile secondFile seed first second).corpus H
      (builtKey H corpusFile firstFile secondFile seed first second).cases := by
  have hperm := builtKey_cases_perm H corpusFile firstFile secondFile seed first second
  have hrows := fun (row : Row) (hrow : row ∈ corpusFile.content) => placedKey_row
    (drawOf H corpusFile seed) first second h.corpus.nodup hrow
  have horiginal : ((builtKey H corpusFile firstFile secondFile seed first second).cases.map
      (·.originalId)).Perm (corpusFile.content.map (·.id)) :=
    map_placedKey hperm fun row hrow => (hrows row hrow).2.1
  have hbalance : ∀ {cases : List KeyCase}, balanced [first.label, second.label] cases →
      balanced [hazkey, mozc] cases := by
    intro cases hb a ha b hb'
    rcases h.labels with ⟨hf, hs⟩ | ⟨hf, hs⟩ <;> rw [hf, hs] at hb
    · exact hb a ha b hb'
    · exact hb a (by simpa [or_comm] using ha) b (by simpa [or_comm] using hb')
  refine ⟨?_, ?_, horiginal.nodup_iff.mpr h.corpus.nodup, ?_,
    hbalance (balanced_corpus h.runs.labels h.corpus.nodup hperm), fun category _ =>
      hbalance (balanced_category h.runs.labels h.corpus.nodup category hperm)⟩
  · rw [hperm.length_eq, List.length_map]
    rfl
  · have hhandles : ((builtKey H corpusFile firstFile secondFile seed first second).cases.map
        (·.case)).Perm (corpusFile.content.map fun row => opaqueId (drawOf H corpusFile seed) row.id) :=
      map_placedKey hperm fun row hrow => (hrows row hrow).1
    have hids := (orderedIds_perm (d := drawOf H corpusFile seed)
      (corpusFile.content.map (·.id))).map (opaqueId (drawOf H corpusFile seed))
    rw [List.map_map] at hids
    exact (hhandles.trans hids.symm).nodup_iff.mpr h.handles
  · have hcontract : ((builtKey H corpusFile firstFile secondFile seed first second).cases.map
        fun c => (⟨c.originalId, c.reading, c.expected, c.category⟩ : ContractCase)).Perm
        (corpusFile.content.map fun row => ⟨row.id, row.reading, row.alternatives, row.category⟩) :=
      map_placedKey hperm fun row hrow => by
        obtain ⟨-, hid, hreading, hcategory, hexpected⟩ := hrows row hrow
        rw [hid, hreading, hcategory, hexpected]
    have hnames : ((builtKey H corpusFile firstFile secondFile seed first second).cases.map
        fun c => (⟨c.originalId, c.reading, c.expected, c.category⟩ : ContractCase)).map (·.id) =
        (builtKey H corpusFile firstFile secondFile seed first second).cases.map (·.originalId) := by
      rw [List.map_map]
      rfl
    have hsame := contractJson_perm hcontract
      (by rw [hnames]; exact horiginal.nodup_iff.mpr h.corpus.nodup)
    rw [hsame]
    rfl

theorem Accepted.key_valid (h : Accepted H corpusFile firstFile secondFile seed first second) :
    (builtKey H corpusFile firstFile secondFile seed first second).Valid H := by
  have hfirst := RunValid.of_ok h.firstRun
  have hsecond := RunValid.of_ok h.secondRun
  obtain ⟨r, hr, he⟩ := hfirst.provenance
  have hsource := hr.sourceRef
  have htop := hr.topK
  rw [he] at hsource htop
  have hlabels := h.labelsOf_builtKey
  have hperm : (builtKey H corpusFile firstFile secondFile seed first second).backends.Perm
      [backendMetadata first (fileSha256 H firstFile),
        backendMetadata second (fileSha256 H secondFile)] :=
    WeakOrders.sortedBy_perm (fun (a b : BackendMetadata) =>
      FrozenCorpus.textLess a.converterBackend b.converterBackend) _
  have hbackends : ∀ b ∈ (builtKey H corpusFile firstFile secondFile seed first second).backends,
      b = backendMetadata first (fileSha256 H firstFile) ∨
        b = backendMetadata second (fileSha256 H secondFile) := by
    intro b hb
    have hmem := hperm.mem_iff.mp hb
    simpa using hmem
  exact {
    seedSha256 := isSha256_digestText _
    reviewSha256 := isSha256_digestText _
    sourceRef := hsource
    topK := htop
    integrity := isSha256_digestText _
    corpus := ⟨isSha256_digestText _, isSha256_digestText _,
      fun hzero => h.corpus.ne_nil (List.length_eq_zero_iff.mp hzero)⟩
    backends := by
      intro b hb
      rcases hbackends b hb with rfl | rfl
      · exact backendMetadata_valid hfirst _
      · exact backendMetadata_valid hsecond _
    labels := {
      length := hperm.length_eq
      nodup := by rw [hlabels]; decide
      labels := by rw [hlabels]; decide
      sorted := by rw [hlabels]; decide
      version := by
        intro a ha b hb
        rcases hbackends a ha with rfl | rfl <;> rcases hbackends b hb with rfl | rfl <;>
          simp [backendMetadata, h.runs.backendVersion]
      measurement := by
        intro a ha b hb
        rcases hbackends a ha with rfl | rfl <;> rcases hbackends b hb with rfl | rfl <;>
          simp [backendMetadata, h.runs.warmups, h.runs.iterations] }
    cases := by
      intro c hc
      obtain ⟨row, hrow, rfl⟩ := List.mem_map.mp ((builtKey_cases_perm ..).mem_iff.mp hc)
      rw [hlabels]
      exact h.keyCase_valid hrow
    agree := by
      rw [hlabels]
      exact h.casesAgree
    hash := rfl }

end

/-! ## The review that is built -/

/-- The text breaks no line of a file of values. -/
abbrev Unsplit (t : Text) : Prop := ∀ c ∈ t, openBreak c = false

section

variable {H : Hashes} {corpusFile : FileOf (List Row)}
  {firstFile secondFile : FileOf (List ProbeResult)} {seed : Text} {first second : Run}

theorem placedCase_case (d : Draw) (corpus : List Row) (first second : Run) (id : Text) :
    (placedCase d corpus first second id).record.case =
      (placedCase d corpus first second id).key.case := by
  rw [placedCase]
  by_cases hmem : id ∈ firstOnX d corpus
  · rw [if_pos hmem]
    rfl
  · rw [if_neg hmem]
    rfl

variable (H corpusFile firstFile secondFile seed first second) in
theorem builtRecords_cases : (builtRecords H corpusFile seed first second).map (·.case) =
    (builtKey H corpusFile firstFile secondFile seed first second).cases.map (·.case) := by
  have hcases : (builtKey H corpusFile firstFile secondFile seed first second).cases =
      (blindedOf (drawOf H corpusFile seed) corpusFile.content first second).map (·.key) := rfl
  rw [builtRecords, hcases, blindedOf, List.map_map, List.map_map, List.map_map, List.map_map]
  apply List.map_congr_left
  intro id _
  exact placedCase_case _ _ _ _ id

theorem Accepted.handlesOf (h : Accepted H corpusFile firstFile secondFile seed first second) :
    (builtKey H corpusFile firstFile secondFile seed first second).cases.map (·.case) =
      (orderedIds (drawOf H corpusFile seed) (corpusFile.content.map (·.id))).map
        (opaqueId (drawOf H corpusFile seed)) := by
  have hcases : (builtKey H corpusFile firstFile secondFile seed first second).cases =
      ((orderedIds (drawOf H corpusFile seed) (corpusFile.content.map (·.id))).map
        (placedCase (drawOf H corpusFile seed) corpusFile.content first second)).map (·.key) := rfl
  rw [hcases, List.map_map, List.map_map]
  apply List.map_congr_left
  intro id hid
  obtain ⟨row, hrow, rfl⟩ := List.mem_map.mp ((orderedIds_perm _).mem_iff.mp hid)
  exact (placedKey_row _ _ _ h.corpus.nodup hrow).1

theorem Accepted.nodup_handles
    (h : Accepted H corpusFile firstFile secondFile seed first second) :
    ((builtKey H corpusFile firstFile secondFile seed first second).cases.map (·.case)).Nodup :=
  h.handlesOf ▸ h.handles

theorem mem_builtRecords {r : ReviewRecord} : r ∈ builtRecords H corpusFile seed first second ↔
    ∃ row ∈ corpusFile.content, r =
      (placedCase (drawOf H corpusFile seed) corpusFile.content first second row.id).record := by
  simp only [builtRecords, blindedOf, List.mem_map, exists_exists_and_eq_and,
    (orderedIds_perm _).mem_iff]
  simp only [eq_comm]

variable (first second) in
theorem placedCase_record (d : Draw) {corpus : List Row} (hids : (corpus.map (·.id)).Nodup)
    {row : Row} (hrow : row ∈ corpus) :
    (placedCase d corpus first second row.id).record.case = opaqueId d row.id ∧
    (placedCase d corpus first second row.id).record.reading = row.reading ∧
    (placedCase d corpus first second row.id).record.category = row.category ∧
    (((placedCase d corpus first second row.id).record.x = (first.caseOf row.id).candidates ∧
      (placedCase d corpus first second row.id).record.y = (second.caseOf row.id).candidates) ∨
    ((placedCase d corpus first second row.id).record.x = (second.caseOf row.id).candidates ∧
      (placedCase d corpus first second row.id).record.y = (first.caseOf row.id).candidates)) := by
  have hplaced := rowOf_eq hids hrow
  by_cases hmem : row.id ∈ firstOnX d corpus
  · simp [placedCase, hmem, blindedCase, hplaced]
  · simp [placedCase, hmem, blindedCase, hplaced]

variable (first second) in
theorem placedCase_integrity (d : Draw) (corpus : List Row) (id : Text) :
    (placedCase d corpus first second id).record.integrity = sha256Text d.hashes (canonicalJson
      (placedCase d corpus first second id).record.base) ∧
    (placedCase d corpus first second id).record.integrity =
      (placedCase d corpus first second id).key.reviewRecordSha256 := by
  rw [placedCase]
  by_cases hmem : id ∈ firstOnX d corpus
  · rw [if_pos hmem]
    exact ⟨rfl, rfl⟩
  · rw [if_neg hmem]
    exact ⟨rfl, rfl⟩

theorem Accepted.record_valid
    (h : Accepted H corpusFile firstFile secondFile seed first second) {row : Row}
    (hrow : row ∈ corpusFile.content) :
    (placedCase (drawOf H corpusFile seed) corpusFile.content first second row.id).record.Valid H
      (builtKey H corpusFile firstFile secondFile seed first second) := by
  obtain ⟨hcase, hreading, hcategory, hsides⟩ := placedCase_record first second
    (drawOf H corpusFile seed) h.corpus.nodup hrow
  obtain ⟨-, -, hreading', hcategory', -⟩ := placedKey_row
    (drawOf H corpusFile seed) first second h.corpus.nodup hrow
  obtain ⟨hhash, hsame⟩ := placedCase_integrity first second
    (drawOf H corpusFile seed) corpusFile.content row.id
  obtain ⟨hf, hs, hft, hst⟩ := h.rowResults hrow
  have hfirst : (∀ t ∈ (first.caseOf row.id).candidates, t ≠ []) ∧
      (first.caseOf row.id).candidates.length ≤ first.provenance.topK :=
    ⟨hf.candidates, hft ▸ hf.length⟩
  have hsecond : (∀ t ∈ (second.caseOf row.id).candidates, t ≠ []) ∧
      (second.caseOf row.id).candidates.length ≤ first.provenance.topK :=
    ⟨hs.candidates, hst ▸ hs.length⟩
  have hfound : (builtKey H corpusFile firstFile secondFile seed first second).cases.find?
      (fun c => c.case = (placedCase (drawOf H corpusFile seed) corpusFile.content first second
        row.id).record.case) =
      some (placedKey (drawOf H corpusFile seed) corpusFile.content first second row) := by
    have hmem : placedKey (drawOf H corpusFile seed) corpusFile.content first second row ∈
        (builtKey H corpusFile firstFile secondFile seed first second).cases :=
      (builtKey_cases_perm ..).mem_iff.mpr (List.mem_map_of_mem hrow)
    have hsome : ((builtKey H corpusFile firstFile secondFile seed first second).cases.find?
        (fun c => c.case = (placedCase (drawOf H corpusFile seed) corpusFile.content first second
          row.id).record.case)).isSome := by
      rw [List.find?_isSome]
      exact ⟨_, hmem, decide_eq_true (placedCase_case _ _ _ _ row.id).symm⟩
    obtain ⟨c, hc⟩ := Option.isSome_iff_exists.mp hsome
    have hname : c.case = (placedKey (drawOf H corpusFile seed) corpusFile.content first second
        row).case := by
      have hsame := List.find?_some hc
      exact (of_decide_eq_true hsame).trans (placedCase_case _ _ _ _ row.id)
    rw [hc, List.inj_on_of_nodup_map h.nodup_handles (List.mem_of_find?_eq_some hc) hmem hname]
  refine ⟨?_, ?_, ?_, ?_, ?_, ?_, hhash, _, hfound, hsame, ?_, ?_⟩
  · rw [hcase, opaqueId]
    exact List.append_ne_nil_of_left_ne_nil (by decide) _
  · exact hreading ▸ h.corpus.readings row hrow
  · exact hcategory ▸ h.corpus.categories row hrow
  · rcases hsides with ⟨hx, -⟩ | ⟨hx, -⟩
    · exact hx ▸ hfirst
    · exact hx ▸ hsecond
  · rcases hsides with ⟨-, hy⟩ | ⟨-, hy⟩
    · exact hy ▸ hsecond
    · exact hy ▸ hfirst
  · rw [hhash]
    exact isSha256_digestText _
  · rw [hreading, hreading']
  · rw [hcategory, hcategory']

/-! ## Lines -/

theorem unsplit_hexDigits {c : Char} (h : c ∈ hexDigits) : openBreak c = false := by
  have hall : ∀ c ∈ hexDigits, openBreak c = false := by decide
  exact hall c h

theorem unsplit_opaqueId (d : Draw) (id : Text) : Unsplit (opaqueId d id) := by
  intro c hc
  rcases List.mem_append.mp hc with hc | hc
  · have hall : ∀ c ∈ "blind-".toList, openBreak c = false := by decide
    exact hall c hc
  · exact unsplit_hexDigits (hexOf_mem (List.mem_of_mem_take hc))

theorem unsplit_digestText (d : Digest) : Unsplit (digestText d) := by
  intro c hc
  rcases List.mem_append.mp hc with hc | hc
  · have hall : ∀ c ∈ "sha256:".toList, openBreak c = false := by decide
    exact hall c hc
  · exact unsplit_hexDigits (hexOf_mem hc)

theorem textsOfItems_strings (ts : List Text) : textsOfItems (ts.map .string) = ts := by
  induction ts with
  | nil => rfl
  | cons t ts ih => rw [List.map_cons, textsOfItems, ih, Json.texts, List.singleton_append]

/-- A record is one line unless one of its texts breaks it. -/
theorem unbroken_record {r : ReviewRecord} (hcase : Unsplit r.case)
    (hintegrity : Unsplit r.integrity) : Unbroken (canonicalJson r.json) ↔
      Unsplit r.reading ∧ Unsplit r.category ∧ (∀ t ∈ r.x, Unsplit t) ∧ ∀ t ∈ r.y, Unsplit t := by
  have hwords : ∀ t ∈ recordNames ++ [reviewSchema], Unsplit t := by decide
  have hword : ∀ {t : Text}, t ∈ recordNames ++ [reviewSchema] → Unsplit t := fun {t} => hwords t
  simp only [canonicalJson, dumps, unbroken_write, ReviewRecord.json, Json.texts, textsOfFields,
    strings, textsOfItems_strings, List.forall_mem_cons, List.forall_mem_append,
    List.not_mem_nil, false_implies, implies_true, and_true]
  constructor
  · rintro ⟨-, -, -, hcategory, -, -, -, hreading, -, -, -, hx, -, hy⟩
    exact ⟨hreading, hcategory, hx, hy⟩
  · rintro ⟨hreading, hcategory, hx, hy⟩
    exact ⟨hword (by decide), hcase, hword (by decide), hcategory, hword (by decide), hintegrity,
      hword (by decide), hreading, hword (by decide), hword (by decide), hword (by decide), hx,
      hword (by decide), hy⟩

/-- The texts of a row and of its results break no line. -/
structure RowUnsplit (first second : Run) (row : Row) : Prop where
  reading : Unsplit row.reading
  category : Unsplit row.category
  first : ∀ t ∈ (first.caseOf row.id).candidates, Unsplit t
  second : ∀ t ∈ (second.caseOf row.id).candidates, Unsplit t

theorem Accepted.records_valid
    (h : Accepted H corpusFile firstFile secondFile seed first second) :
    RecordsValid H (builtKey H corpusFile firstFile secondFile seed first second)
        (builtRecords H corpusFile seed first second) ↔
      ∀ row ∈ corpusFile.content, RowUnsplit first second row := by
  have hunbroken : ∀ row ∈ corpusFile.content, Unbroken (canonicalJson (placedCase
      (drawOf H corpusFile seed) corpusFile.content first second row.id).record.json) ↔
        RowUnsplit first second row := by
    intro row hrow
    obtain ⟨hcase, hreading, hcategory, hsides⟩ := placedCase_record first second
      (drawOf H corpusFile seed) h.corpus.nodup hrow
    rw [unbroken_record (hcase ▸ unsplit_opaqueId _ _)
      ((placedCase_integrity ..).1 ▸ unsplit_digestText _), hreading, hcategory]
    rcases hsides with ⟨hx, hy⟩ | ⟨hx, hy⟩
    · rw [hx, hy]
      exact ⟨fun ⟨a, b, c, d⟩ => ⟨a, b, c, d⟩, fun ⟨a, b, c, d⟩ => ⟨a, b, c, d⟩⟩
    · rw [hx, hy]
      exact ⟨fun ⟨a, b, c, d⟩ => ⟨a, b, d, c⟩, fun ⟨a, b, c, d⟩ => ⟨a, b, d, c⟩⟩
  have hnames := builtRecords_cases H corpusFile firstFile secondFile seed first second
  constructor
  · intro hvalid row hrow
    exact (hunbroken row hrow).mp (hvalid.unbroken _ (mem_builtRecords.mpr ⟨row, hrow, rfl⟩))
  · intro hrows
    refine ⟨rfl, ?_, ?_, ?_, hnames ▸ h.nodup_handles, ?_⟩
    · intro hnil
      obtain ⟨row, hrow⟩ := List.exists_mem_of_ne_nil _ h.corpus.ne_nil
      exact List.not_mem_nil (hnil ▸ mem_builtRecords.mpr ⟨row, hrow, rfl⟩)
    · intro r hr
      obtain ⟨row, hrow, rfl⟩ := mem_builtRecords.mp hr
      exact (hunbroken row hrow).mpr (hrows row hrow)
    · intro r hr
      obtain ⟨row, hrow, rfl⟩ := mem_builtRecords.mp hr
      exact h.record_valid hrow
    · intro c hc
      rw [hnames]
      exact List.mem_map_of_mem hc

end

end Hazkey.BlindReview
