import Hazkey.PacketLoading

/-! What the report says of the reviewer's preferences: the joins of handles,
sides and converters cancel, whatever the digests are. -/

namespace Hazkey.BlindReview

open ConversionQuality JsonText KeyedCoding

-- Of the characters of a list, not of all characters.
attribute [local instance (1100)] List.decidableBAll

/-! ## Preferences -/

/-- What a reviewer who saw the converters would say of a case. -/
inductive Preference
  | hazkey
  | mozc
  | tie
  | bothBad
  deriving DecidableEq

/-- The converter that is preferred. -/
def Preference.winner : Preference → Option Text
  | .hazkey => some BlindReview.hazkey
  | .mozc => some BlindReview.mozc
  | .tie => none
  | .bothBad => none

theorem Preference.winner_hazkey : Preference.hazkey.winner = some BlindReview.hazkey := rfl
theorem Preference.winner_mozc : Preference.mozc.winner = some BlindReview.mozc := rfl
theorem Preference.winner_tie : Preference.tie.winner = none := rfl
theorem Preference.winner_bothBad : Preference.bothBad.winner = none := rfl

/-- The judgment that names the side on which the preferred converter was put. -/
def judgmentFor (p : Preference) (c : KeyCase) : Judgment :=
  match p with
  | .tie => .tie
  | .bothBad => .bothBad
  | .hazkey => if c.xBackend = hazkey then .x else .y
  | .mozc => if c.xBackend = mozc then .x else .y

def judgmentRecord (preference : Text → Preference) (c : KeyCase) : JudgmentRecord where
  case := c.case
  judgment := judgmentFor (preference c.originalId) c

def reviewerRecords (key : Key) (preference : Text → Preference) : List JudgmentRecord :=
  key.cases.map (judgmentRecord preference)

/-- The outcome for a converter, counted from the preferences themselves. -/
def directTally (label : Text) (preferences : List Preference) : Outcome where
  wins := preferences.countP fun p => p.winner = some label
  losses := preferences.countP fun p => p.winner ≠ none ∧ p.winner ≠ some label
  ties := preferences.countP fun p => p = .tie
  bothBad := preferences.countP fun p => p = .bothBad

def Outcome.total (o : Outcome) : Nat := o.wins + o.losses + o.ties + o.bothBad

/-- One wins where the other loses, and every case is counted for both. -/
structure Opposed (cases : Nat) (o o' : Outcome) : Prop where
  wins : o.wins = o'.losses
  losses : o.losses = o'.wins
  total : o.total = cases
  total' : o'.total = cases

theorem hazkey_ne_mozc : hazkey ≠ mozc := by decide

def Outcome.count (label : Text) (p : Preference) (o : Outcome) : Outcome :=
  match p with
  | .tie => o.draw
  | .bothBad => o.fail
  | .hazkey => if label = hazkey then o.win else o.lose
  | .mozc => if label = mozc then o.win else o.lose

theorem total_count (label : Text) (p : Preference) (o : Outcome) :
    (o.count label p).total = o.total + 1 := by
  cases p with
  | hazkey =>
    by_cases hlabel : label = hazkey
    · simp only [Outcome.count, hlabel, if_true, Outcome.win, Outcome.total]
      omega
    · simp only [Outcome.count, hlabel, if_false, Outcome.lose, Outcome.total]
      omega
  | mozc =>
    by_cases hlabel : label = mozc
    · simp only [Outcome.count, hlabel, if_true, Outcome.win, Outcome.total]
      omega
    · simp only [Outcome.count, hlabel, if_false, Outcome.lose, Outcome.total]
      omega
  | tie =>
    simp only [Outcome.count, Outcome.draw, Outcome.total]
    omega
  | bothBad => rfl

theorem directTally_cons (label : Text) (p : Preference) (preferences : List Preference) :
    directTally label (p :: preferences) = (directTally label preferences).count label p := by
  simp only [directTally, List.countP_cons]
  cases p with
  | hazkey =>
    by_cases hlabel : label = hazkey
    · simp [Preference.winner_hazkey, hlabel, Outcome.count, Outcome.win]
    · simp [Preference.winner_hazkey, hlabel, Ne.symm hlabel, Outcome.count, Outcome.lose]
  | mozc =>
    by_cases hlabel : label = mozc
    · simp [Preference.winner_mozc, hlabel, Outcome.count, Outcome.win]
    · simp [Preference.winner_mozc, hlabel, Ne.symm hlabel, Outcome.count, Outcome.lose]
  | tie => simp [Preference.winner_tie, Outcome.count, Outcome.draw]
  | bothBad => simp [Preference.winner_bothBad, Outcome.count, Outcome.fail]

theorem total_directTally (label : Text) (preferences : List Preference) :
    (directTally label preferences).total = preferences.length := by
  induction preferences with
  | nil => rfl
  | cons p preferences ih => rw [directTally_cons, total_count, ih, List.length_cons]

theorem opposed_directTally (preferences : List Preference) :
    Opposed preferences.length (directTally hazkey preferences)
      (directTally mozc preferences) := by
  have hne := hazkey_ne_mozc
  have hne' := hazkey_ne_mozc.symm
  refine ⟨?_, ?_, total_directTally _ _, total_directTally _ _⟩
  · apply List.countP_congr
    intro p _
    cases p <;> simp [Preference.winner, hne, hne']
  · apply List.countP_congr
    intro p _
    cases p <;> simp [Preference.winner, hne, hne']

/-- The order of the cases makes no difference. -/
theorem directTally_perm {preferences preferences' : List Preference}
    (h : preferences.Perm preferences') (label : Text) :
    directTally label preferences = directTally label preferences' := by
  simp only [directTally, h.countP_eq]

/-! ## Sides -/

/-- A case of the key has each converter on one side. -/
def KeyCase.Sided (c : KeyCase) : Prop :=
  (c.xBackend = hazkey ∧ c.yBackend = mozc) ∨ (c.xBackend = mozc ∧ c.yBackend = hazkey)

/-- Both outcomes. -/
def bothOutcomes (o o' : Outcome) : Outcomes := [(hazkey, o), (mozc, o')]

theorem adjust_hazkey (f : Outcome → Outcome) (o o' : Outcome) :
    adjust hazkey f (bothOutcomes o o') = bothOutcomes (f o) o' := by
  simp [adjust, bothOutcomes, hazkey_ne_mozc.symm]

theorem adjust_mozc (f : Outcome → Outcome) (o o' : Outcome) :
    adjust mozc f (bothOutcomes o o') = bothOutcomes o (f o') := by
  simp [adjust, bothOutcomes, hazkey_ne_mozc]

/-- The sides cancel: what is recorded is the preference. -/
theorem recordOutcome_judgmentFor {c : KeyCase} (hc : c.Sided) (p : Preference)
    (o o' : Outcome) :
    (recordOutcome (bothOutcomes o o') c.xBackend c.yBackend (judgmentFor p c)).1 =
      bothOutcomes (o.count hazkey p) (o'.count mozc p) := by
  have hne := hazkey_ne_mozc
  have hne' := hazkey_ne_mozc.symm
  rcases hc with ⟨hx, hy⟩ | ⟨hx, hy⟩
  · cases p <;> simp [judgmentFor, hx, hy, hne, hne', recordOutcome, adjust_hazkey, adjust_mozc,
      Outcome.count]
  · cases p <;> simp [judgmentFor, hx, hy, hne, hne', recordOutcome, adjust_hazkey, adjust_mozc,
      Outcome.count]

theorem recorded_eq {cases : List KeyCase} (hcases : ∀ c ∈ cases, c.Sided)
    {judgment : KeyCase → Judgment} {preference : Text → Preference}
    (hjudgment : ∀ c ∈ cases, judgment c = judgmentFor (preference c.originalId) c) :
    cases.foldl (fun outcomes c =>
        (recordOutcome outcomes c.xBackend c.yBackend (judgment c)).1)
        (emptyOutcomes [hazkey, mozc]) =
      bothOutcomes (directTally hazkey (cases.map fun c => preference c.originalId))
        (directTally mozc (cases.map fun c => preference c.originalId)) := by
  induction cases using List.reverseRecOn with
  | nil => rfl
  | append_singleton cases c ih =>
    have hc := hcases c (by simp)
    have hj := hjudgment c (by simp)
    have hlast : ∀ label, directTally label
        ((cases ++ [c]).map fun c => preference c.originalId) =
        (directTally label (cases.map fun c => preference c.originalId)).count label
          (preference c.originalId) := by
      intro label
      rw [← directTally_cons, List.map_append]
      exact directTally_perm List.perm_append_comm label
    rw [List.foldl_append, ih (fun c hc => hcases c (by simp [hc]))
      (fun c hc => hjudgment c (by simp [hc])), hlast, hlast, List.foldl_cons, List.foldl_nil, hj,
      recordOutcome_judgmentFor hc]

/-! ## The loop over the cases -/

section

variable {labels : List Text} {judgments : Judgments} {cases : List KeyCase}

theorem foldl_scoreCase (s : Scoring) :
    (cases.foldl (scoreCase labels judgments) s).outcomes =
        cases.foldl (fun outcomes c =>
          (recordOutcome outcomes c.xBackend c.yBackend (judgmentOf judgments c)).1) s.outcomes ∧
    (cases.foldl (scoreCase labels judgments) s).categoryOutcomes =
        cases.foldl (fun d c => Tallies.update c.category (emptyOutcomes labels) (fun o =>
          (recordOutcome o c.xBackend c.yBackend (judgmentOf judgments c)).1) d)
          s.categoryOutcomes ∧
    (cases.foldl (scoreCase labels judgments) s).categoryCounts =
        cases.foldl (fun d c => Tallies.update c.category 0 (· + 1) d) s.categoryCounts := by
  induction cases generalizing s with
  | nil => exact ⟨rfl, rfl, rfl⟩
  | cons c cases ih => exact ih _

theorem scoreCases_outcomes : (scoreCases labels judgments cases).outcomes =
    cases.foldl (fun outcomes c =>
      (recordOutcome outcomes c.xBackend c.yBackend (judgmentOf judgments c)).1)
      (emptyOutcomes labels) := (foldl_scoreCase _).1

theorem scoreCases_categoryOutcomes : (scoreCases labels judgments cases).categoryOutcomes =
    Tallies.tally KeyCase.category (emptyOutcomes labels) (fun c o =>
      (recordOutcome o c.xBackend c.yBackend (judgmentOf judgments c)).1) cases :=
  (foldl_scoreCase _).2.1

theorem nodup_categoryOutcomes :
    ((scoreCases labels judgments cases).categoryOutcomes.map (·.1)).Nodup := by
  rw [scoreCases_categoryOutcomes]
  exact Tallies.nodup_tally _

theorem lookup_categoryOutcomes (hcases : ∀ c ∈ cases, c.Sided) {preference : Text → Preference}
    (hjudgment : ∀ c ∈ cases, judgmentOf judgments c = judgmentFor (preference c.originalId) c)
    {category : Text} (hcategory : category ∈ cases.map (·.category)) :
    (scoreCases [hazkey, mozc] judgments cases).categoryOutcomes.lookup category =
      some (bothOutcomes
        (directTally hazkey ((cases.filter fun c => c.category = category).map
          fun c => preference c.originalId))
        (directTally mozc ((cases.filter fun c => c.category = category).map
          fun c => preference c.originalId))) := by
  rw [scoreCases_categoryOutcomes, Tallies.lookup_tally hcategory, Tallies.accumulated,
    recorded_eq (fun c hc => hcases c (List.mem_filter.mp hc).1)
      (fun c hc => hjudgment c (List.mem_filter.mp hc).1)]

end

/-! ## What is loaded -/

section

variable {H : Hashes} {corpusFile : FileOf (List Row)}
  {firstFile secondFile : FileOf (List ProbeResult)} {seed : Text} {first second : Run}
  {preference : Text → Preference} {records : List JudgmentRecord}

theorem Accepted.sided (h : Accepted H corpusFile firstFile secondFile seed first second) :
    ∀ c ∈ (builtKey H corpusFile firstFile secondFile seed first second).cases, c.Sided := by
  intro c hc
  obtain ⟨row, -, rfl⟩ := List.mem_map.mp ((builtKey_cases_perm ..).mem_iff.mp hc)
  have hplaced := (placedKey_sides (drawOf H corpusFile seed) corpusFile.content first
    second row).imp And.right And.right
  rcases h.labels with ⟨hf, hs⟩ | ⟨hf, hs⟩
  · rw [hf, hs] at hplaced
    exact hplaced
  · rw [hf, hs] at hplaced
    exact hplaced.symm

theorem Accepted.preferences (h : Accepted H corpusFile firstFile secondFile seed first second)
    (preference : Text → Preference) :
    ((builtKey H corpusFile firstFile secondFile seed first second).cases.map
      fun c => preference c.originalId).Perm
      (corpusFile.content.map fun row => preference row.id) :=
  map_placedKey (builtKey_cases_perm ..) fun row hrow => by
    rw [(placedKey_row _ _ _ h.corpus.nodup hrow).2.1]

theorem Accepted.preferencesIn (h : Accepted H corpusFile firstFile secondFile seed first second)
    (preference : Text → Preference) (category : Text) :
    (((builtKey H corpusFile firstFile secondFile seed first second).cases.filter
        fun c => c.category = category).map fun c => preference c.originalId).Perm
      ((rowsOf corpusFile.content category).map fun row => preference row.id) := by
  have hperm := (builtKey_cases_perm H corpusFile firstFile secondFile seed first second).filter
      fun c => decide (c.category = category)
  rw [filter_placedKey _ _ _ h.corpus.nodup, ← rowsOf] at hperm
  have hmap := hperm.map fun c => preference c.originalId
  rw [List.map_map] at hmap
  have hrows : (rowsOf corpusFile.content category).map
        ((fun c : KeyCase => preference c.originalId) ∘
          placedKey (drawOf H corpusFile seed) corpusFile.content first second) =
      (rowsOf corpusFile.content category).map fun row => preference row.id := by
    apply List.map_congr_left
    intro row hrow
    rw [Function.comp_apply, (placedKey_row _ _ _ h.corpus.nodup (List.mem_filter.mp hrow).1).2.1]
  rwa [hrows] at hmap

/-! ## The judgments -/

theorem reviewerRecords_names (hrecords : records.Perm
      (reviewerRecords (builtKey H corpusFile firstFile secondFile seed first second) preference)) :
    (records.map (·.case)).Perm
      ((builtKey H corpusFile firstFile secondFile seed first second).cases.map (·.case)) := by
  have hnames := hrecords.map (·.case)
  rw [reviewerRecords, List.map_map] at hnames
  exact hnames

theorem unbroken_judgment {r : JudgmentRecord} (h : Unsplit r.case) :
    Unbroken (canonicalJson r.json) := by
  have hwords : ∀ t ∈ ["case".toList, "judgment".toList, "schema".toList, judgmentSchema],
      ∀ c ∈ t, openBreak c = false := by decide
  have htext : ∀ c ∈ r.judgment.text, openBreak c = false := by
    cases r.judgment <;> decide
  rw [canonicalJson, dumps, unbroken_write]
  intro t ht
  simp only [JudgmentRecord.json, Json.texts, textsOfFields, List.append_nil, List.cons_append,
    List.nil_append, List.mem_cons, List.not_mem_nil, or_false] at ht
  rcases ht with rfl | rfl | rfl | rfl | rfl | rfl
  · exact hwords _ (by simp)
  · exact h
  · exact hwords _ (by simp)
  · exact htext
  · exact hwords _ (by simp)
  · exact hwords _ (by simp)

theorem Accepted.loadJudgments_eq
    (h : Accepted H corpusFile firstFile secondFile seed first second)
    (hnames : (records.map (·.case)).Perm
      ((builtKey H corpusFile firstFile secondFile seed first second).cases.map (·.case))) :
    loadJudgments H "judgments"
        ((reviewOf (builtRecords H corpusFile seed first second)).map (·.1))
        (judgmentsFile records) =
      .ok (judgmentsOf records, sha256Text H (judgmentsFile records)) := by
  have hreview : (reviewOf (builtRecords H corpusFile seed first second)).map (·.1) =
      (builtKey H corpusFile firstFile secondFile seed first second).cases.map (·.case) := by
    rw [reviewOf, List.map_map]
    exact builtRecords_cases ..
  have hcase : ∀ r ∈ records, ∃ row, r.case = opaqueId (drawOf H corpusFile seed) row := by
    intro r hr
    have hmem := hnames.mem_iff.mp (List.mem_map_of_mem (f := (·.case)) hr)
    rw [h.handlesOf] at hmem
    obtain ⟨id, -, hid⟩ := List.mem_map.mp hmem
    exact ⟨id, hid.symm⟩
  apply loadJudgments_file
  · rintro rfl
    have hlength := hnames.length_eq
    rw [List.length_map, List.length_map, (builtKey_cases_perm ..).length_eq, List.length_map]
      at hlength
    exact h.corpus.ne_nil (List.length_eq_zero_iff.mp hlength.symm)
  · intro r hr
    obtain ⟨id, hid⟩ := hcase r hr
    rw [hid, opaqueId]
    exact List.append_ne_nil_of_left_ne_nil (by decide) _
  · intro r hr
    obtain ⟨id, hid⟩ := hcase r hr
    apply unbroken_judgment
    rw [hid]
    exact unsplit_opaqueId _ id
  · exact hnames.nodup_iff.mpr h.nodup_handles
  · intro t
    rw [hreview, hnames.mem_iff]

theorem Accepted.judgmentOf_eq
    (h : Accepted H corpusFile firstFile secondFile seed first second)
    (hrecords : records.Perm
      (reviewerRecords (builtKey H corpusFile firstFile secondFile seed first second) preference))
    {c : KeyCase}
    (hc : c ∈ (builtKey H corpusFile firstFile secondFile seed first second).cases) :
    judgmentOf (judgmentsOf records) c = judgmentFor (preference c.originalId) c := by
  have hnodup : ((judgmentsOf records).map (·.1)).Nodup := by
    rw [judgmentsOf_names]
    exact (reviewerRecords_names hrecords).nodup_iff.mpr h.nodup_handles
  have hmem : (c.case, judgmentFor (preference c.originalId) c) ∈ judgmentsOf records := by
    have hrecord := hrecords.mem_iff.mpr (List.mem_map_of_mem (f := judgmentRecord preference) hc)
    exact List.mem_map.mpr ⟨_, hrecord, rfl⟩
  rw [judgmentOf, Tallies.lookup_eq_some_of_mem hnodup hmem, Option.getD_some]

end

/-! ## The candidates of each converter -/

def Run.results (run : Run) : Results := run.cases.map fun e => (e.1, e.2.candidates)

theorem resultOf_results (run : Run) (row : Row) :
    resultOf run.results row = (run.caseOf row.id).candidates := by
  rw [resultOf, Run.results, Tallies.lookup_mapValues fun _ (r : ProbeResult) => r.candidates,
    Run.caseOf]
  cases run.cases.lookup row.id with
  | none => rfl
  | some r => rfl

section

variable {H : Hashes} {corpusFile : FileOf (List Row)}
  {firstFile secondFile : FileOf (List ProbeResult)} {seed : Text} {first second : Run}

/-- The corpus of the key is the corpus, in another order. -/
theorem Accepted.keyCorpus_perm
    (h : Accepted H corpusFile firstFile secondFile seed first second) :
    (keyCorpus (builtKey H corpusFile firstFile secondFile seed first second)).Perm
      corpusFile.content := by
  have hperm := map_placedKey (f := fun c : KeyCase =>
      (⟨c.originalId, c.reading, List.intercalate ['|'] c.expected, c.category⟩ : Row))
    (g := fun row => row)
    (builtKey_cases_perm H corpusFile firstFile secondFile seed first second) fun row hrow => by
      obtain ⟨-, hid, hreading, hcategory, hexpected⟩ := placedKey_row
        (drawOf H corpusFile seed) first second h.corpus.nodup hrow
      rw [hid, hreading, hcategory, hexpected, Row.alternatives, List.intercalate_splitOn]
  rwa [List.map_id'] at hperm

theorem placedCase_candidates {d : Draw} {corpus : List Row} (hlabels : first.label ≠ second.label)
    (hids : (corpus.map (·.id)).Nodup) {row : Row} (hrow : row ∈ corpus) {run : Run}
    (hrun : run = first ∨ run = second) :
    (if (placedCase d corpus first second row.id).key.xBackend = run.label then
        some (row.id, (placedCase d corpus first second row.id).record.x)
      else if (placedCase d corpus first second row.id).key.yBackend = run.label then
        some (row.id, (placedCase d corpus first second row.id).record.y)
      else none) = some (row.id, (run.caseOf row.id).candidates) := by
  have hplaced := rowOf_eq hids hrow
  by_cases hmem : row.id ∈ firstOnX d corpus
  · rcases hrun with rfl | rfl
    · simp [placedCase, hmem, blindedCase, hplaced]
    · simp [placedCase, hmem, blindedCase, hplaced, hlabels]
  · rcases hrun with rfl | rfl
    · simp [placedCase, hmem, blindedCase, hplaced, hlabels.symm]
    · simp [placedCase, hmem, blindedCase, hplaced]

/-- A converter's candidates come back from the sides on which they were put. -/
theorem Accepted.candidates_eq
    (h : Accepted H corpusFile firstFile secondFile seed first second) {run : Run}
    (hrun : run = first ∨ run = second) :
    candidatesOf (builtKey H corpusFile firstFile secondFile seed first second)
        (reviewOf (builtRecords H corpusFile seed first second)) run.label =
      (orderedIds (drawOf H corpusFile seed) (corpusFile.content.map (·.id))).map
        fun id => (id, (run.caseOf id).candidates) := by
  have hnodup : ((reviewOf (builtRecords H corpusFile seed first second)).map (·.1)).Nodup := by
    rw [reviewOf, List.map_map]
    have hnames := builtRecords_cases H corpusFile firstFile secondFile seed first second
    exact hnames ▸ h.nodup_handles
  have hcases : (builtKey H corpusFile firstFile secondFile seed first second).cases =
      (orderedIds (drawOf H corpusFile seed) (corpusFile.content.map (·.id))).map
        ((·.key) ∘ placedCase (drawOf H corpusFile seed) corpusFile.content first second) := by
    rw [← List.map_map]
    rfl
  rw [candidatesOf, hcases, List.filterMap_map]
  rw [← List.filterMap_eq_map (f := fun id => (id, (run.caseOf id).candidates))]
  apply List.filterMap_congr
  intro id hid
  have hmem := (orderedIds_perm _).mem_iff.mp hid
  obtain ⟨row, hrow, rfl⟩ := List.mem_map.mp hmem
  have hrecord : ((placedCase (drawOf H corpusFile seed) corpusFile.content first second
        row.id).key.case,
      (placedCase (drawOf H corpusFile seed) corpusFile.content first second row.id).record) ∈
      reviewOf (builtRecords H corpusFile seed first second) := by
    rw [← placedCase_case]
    exact List.mem_map_of_mem (f := fun r : ReviewRecord => (r.case, r))
      (List.mem_map_of_mem (List.mem_map_of_mem hid))
  have hid : (placedCase (drawOf H corpusFile seed) corpusFile.content first second
      row.id).key.originalId = row.id := (placedKey_row _ _ _ h.corpus.nodup hrow).2.1
  simp only [Function.comp_apply, Tallies.lookup_eq_some_of_mem hnodup hrecord, Option.bind_some,
    hid]
  exact placedCase_candidates h.runs.labels h.corpus.nodup hrow hrun

theorem Accepted.lookup_candidates
    (h : Accepted H corpusFile firstFile secondFile seed first second) {run : Run}
    (hrun : run = first ∨ run = second) {row : Row} (hrow : row ∈ corpusFile.content) :
    (candidatesOf (builtKey H corpusFile firstFile secondFile seed first second)
        (reviewOf (builtRecords H corpusFile seed first second)) run.label).lookup row.id =
      some (resultOf run.results row) := by
  have hperm := orderedIds_perm (d := drawOf H corpusFile seed) (corpusFile.content.map (·.id))
  rw [h.candidates_eq hrun, resultOf_results]
  apply Tallies.lookup_eq_some_of_mem
  · rw [List.map_map]
    have hids : (orderedIds (drawOf H corpusFile seed) (corpusFile.content.map (·.id))).map
        ((·.1) ∘ fun id => (id, (run.caseOf id).candidates)) =
        orderedIds (drawOf H corpusFile seed) (corpusFile.content.map (·.id)) := List.map_id _
    rw [hids, hperm.nodup_iff]
    exact h.corpus.nodup
  · exact List.mem_map.mpr ⟨row.id, hperm.mem_iff.mpr (List.mem_map_of_mem hrow), rfl⟩

end

/-! ## The objective quality -/

section

variable {H : Hashes} {corpusFile : FileOf (List Row)}
  {firstFile secondFile : FileOf (List ProbeResult)} {seed : Text} {first second : Run}

theorem Accepted.run_of_label
    (h : Accepted H corpusFile firstFile secondFile seed first second) {label : Text}
    (hlabel : label = hazkey ∨ label = mozc) :
    ∃ run, (run = first ∨ run = second) ∧ run.label = label := by
  rcases h.labels with ⟨hf, hs⟩ | ⟨hf, hs⟩
  · rcases hlabel with rfl | rfl
    · exact ⟨first, .inl rfl, hf⟩
    · exact ⟨second, .inr rfl, hs⟩
  · rcases hlabel with rfl | rfl
    · exact ⟨second, .inr rfl, hs⟩
    · exact ⟨first, .inl rfl, hf⟩

theorem Accepted.runCase (h : Accepted H corpusFile firstFile secondFile seed first second)
    {run : Run} (hrun : run = first ∨ run = second) {row : Row}
    (hrow : row ∈ corpusFile.content) :
    ResultValid (run.caseOf row.id) ∧ run.provenance.topK = first.provenance.topK ∧
      row.id ∈ run.results.map (·.1) := by
  have hids : run.results.map (·.1) = run.cases.map (·.1) := by
    rw [Run.results, List.map_map]
    rfl
  have hid : row.id ∈ corpusFile.content.map (·.id) := List.mem_map_of_mem hrow
  rw [hids]
  rcases hrun with rfl | rfl
  · exact ⟨(h.rowResults hrow).1, rfl, h.runs.firstIds _ hid⟩
  · exact ⟨(h.rowResults hrow).2.1, h.runs.topK, h.runs.secondIds _ hid⟩

theorem Accepted.topK (h : Accepted H corpusFile firstFile secondFile seed first second) :
    1 ≤ first.provenance.topK := by
  obtain ⟨r, hr, he⟩ := (RunValid.of_ok h.firstRun).provenance
  rw [← he]
  exact hr.topK.1

theorem Accepted.covers (h : Accepted H corpusFile firstFile secondFile seed first second)
    {run : Run} (hrun : run = first ∨ run = second) :
    Covers (keyCorpus (builtKey H corpusFile firstFile secondFile seed first second))
      (candidatesOf (builtKey H corpusFile firstFile secondFile seed first second)
        (reviewOf (builtRecords H corpusFile seed first second)) run.label) := by
  intro row hrow
  have hlookup := h.lookup_candidates hrun (h.keyCorpus_perm.mem_iff.mp hrow)
  exact List.mem_map_of_mem (f := Prod.fst) (Tallies.mem_of_lookup hlookup)

theorem Accepted.comparable_iff
    (h : Accepted H corpusFile firstFile secondFile seed first second) {run : Run}
    (hrun : run = first ∨ run = second) {row : Row} (hrow : row ∈ corpusFile.content)
    (topK : Nat) :
    Comparable (candidatesOf (builtKey H corpusFile firstFile secondFile seed first second)
        (reviewOf (builtRecords H corpusFile seed first second)) run.label) topK row ↔
      row.alternatives.Nodup := by
  refine ⟨fun hc => hc.1, fun hnodup => ⟨hnodup, fun hmem => ?_⟩⟩
  rw [observedOf, resultOf, h.lookup_candidates hrun hrow, Option.getD_some,
    resultOf_results] at hmem
  exact (h.runCase hrun hrow).1.candidates [] (List.mem_of_mem_take hmem) rfl

def objectiveOf (key : Key) (review : Review) : ObjectiveQuality where
  topK := key.topK
  byBackend := [(hazkey, objectiveReport key review hazkey),
    (mozc, objectiveReport key review mozc)]
  pairedComparison := comparisonOf (keyCorpus key) (candidatesOf key review hazkey)
    (candidatesOf key review mozc) key.topK hazkey mozc

/-- The quality is reported unless a row lists an alternative twice. -/
theorem Accepted.objective_eq_ok
    (h : Accepted H corpusFile firstFile secondFile seed first second) {q : ObjectiveQuality} :
    objectiveQuality (builtKey H corpusFile firstFile secondFile seed first second)
        (reviewOf (builtRecords H corpusFile seed first second)) = .ok q ↔
      (∀ row ∈ corpusFile.content, row.alternatives.Nodup) ∧
        q = objectiveOf (builtKey H corpusFile firstFile secondFile seed first second)
          (reviewOf (builtRecords H corpusFile seed first second)) := by
  obtain ⟨hazkeyRun, hhazkey, hhazkeyLabel⟩ := h.run_of_label (.inl rfl)
  obtain ⟨mozcRun, hmozc, hmozcLabel⟩ := h.run_of_label (.inr rfl)
  have hcompare := fun c => @compareReports_evaluate _ _ _ _ hazkey mozc
    (h.corpus.perm h.keyCorpus_perm) (h.covers hhazkey) (h.covers hmozc) h.topK c
  have hnames : hazkey ≠ [] ∧ mozc ≠ [] ∧ hazkey ≠ mozc := by decide
  have hrows : (∀ row ∈ keyCorpus (builtKey H corpusFile firstFile secondFile seed first second),
      Comparable (candidatesOf (builtKey H corpusFile firstFile secondFile seed first second)
        (reviewOf (builtRecords H corpusFile seed first second)) hazkeyRun.label)
        first.provenance.topK row ∧
      Comparable (candidatesOf (builtKey H corpusFile firstFile secondFile seed first second)
        (reviewOf (builtRecords H corpusFile seed first second)) mozcRun.label)
        first.provenance.topK row) ↔ ∀ row ∈ corpusFile.content, row.alternatives.Nodup := by
    constructor
    · intro hrows row hrow
      exact (hrows row (h.keyCorpus_perm.mem_iff.mpr hrow)).1.1
    · intro hnodup row hrow
      have hrow := h.keyCorpus_perm.mem_iff.mp hrow
      exact ⟨(h.comparable_iff hhazkey hrow _).mpr (hnodup row hrow),
        (h.comparable_iff hmozc hrow _).mpr (hnodup row hrow)⟩
  rw [hhazkeyLabel, hmozcLabel] at hrows hcompare
  simp only [objectiveQuality, h.labelsOf_builtKey, bind_eq_ok, pure_eq_ok]
  constructor
  · rintro ⟨c, hc, rfl⟩
    obtain ⟨⟨-, hcomparable⟩, rfl⟩ := (hcompare c).mp hc
    exact ⟨hrows.mp hcomparable, rfl⟩
  · rintro ⟨hnodup, rfl⟩
    exact ⟨_, (hcompare _).mpr ⟨⟨hnames, hrows.mpr hnodup⟩, rfl⟩, rfl⟩

/-- The hits of a run on the corpus. -/
def runHits (corpus : List Row) (run : Run) : Nat × Option Nat :=
  ((ConversionQuality.evaluate corpus run.results run.provenance.topK).top1Hits,
    (ConversionQuality.evaluate corpus run.results run.provenance.topK).topKHits)

theorem Accepted.hits (h : Accepted H corpusFile firstFile secondFile seed first second)
    {run : Run} (hrun : run = first ∨ run = second) :
    ((objectiveReport (builtKey H corpusFile firstFile secondFile seed first second)
        (reviewOf (builtRecords H corpusFile seed first second)) run.label).top1Hits,
      (objectiveReport (builtKey H corpusFile firstFile secondFile seed first second)
        (reviewOf (builtRecords H corpusFile seed first second)) run.label).topKHits) =
      runHits corpusFile.content run := by
  have hcovers : Covers corpusFile.content run.results := fun row hrow =>
    (h.runCase hrun hrow).2.2
  obtain ⟨row, rows, hcons⟩ := List.exists_cons_of_ne_nil h.corpus.ne_nil
  have htop : run.provenance.topK = first.provenance.topK :=
    (h.runCase hrun (hcons ▸ List.mem_cons_self)).2.1
  obtain ⟨hone, hk⟩ := evaluate_hits_congr h.corpus h.keyCorpus_perm hcovers (h.covers hrun) h.topK
    fun row hrow => by rw [resultOf, h.lookup_candidates hrun hrow, Option.getD_some]
  rw [runHits, htop]
  exact congrArg₂ Prod.mk hone hk

end

/-! ## Scoring -/

section

variable {H : Hashes} {corpusFile : FileOf (List Row)}
  {firstFile secondFile : FileOf (List ProbeResult)} {seed : Text} {first second : Run}
  {preference : Text → Preference} {records : List JudgmentRecord}

/-- Once it is loaded, a packet is scored unless a row lists an alternative twice. -/
theorem Accepted.score_eq_ok
    (h : Accepted H corpusFile firstFile secondFile seed first second)
    (hrows : ∀ row ∈ corpusFile.content, RowUnsplit first second row)
    (hnames : (records.map (·.case)).Perm
      ((builtKey H corpusFile firstFile secondFile seed first second).cases.map (·.case)))
    {report : Report} :
    score H (packetOf H (reviewBytes (builtRecords H corpusFile seed first second))
        (builtKey H corpusFile firstFile secondFile seed first second)) (judgmentsFile records) =
        .ok report ↔
      (∀ row ∈ corpusFile.content, row.alternatives.Nodup) ∧
        report = reportOf (builtKey H corpusFile firstFile secondFile seed first second)
          (sha256Text H (judgmentsFile records))
          (scoreCases [hazkey, mozc] (judgmentsOf records)
            (builtKey H corpusFile firstFile secondFile seed first second).cases)
          (objectiveOf (builtKey H corpusFile firstFile secondFile seed first second)
            (reviewOf (builtRecords H corpusFile seed first second))) := by
  have hload := h.load.mpr ⟨⟨h.key_valid, h.records_valid.mpr hrows⟩, rfl⟩
  have hjudgments := h.loadJudgments_eq hnames
  simp only [score, bind_eq_ok, pure_eq_ok]
  constructor
  · rintro ⟨loaded, hl, judged, hj, q, hq, rfl⟩
    obtain rfl := Except.ok.inj (hload.symm.trans hl)
    obtain rfl := Except.ok.inj (hjudgments.symm.trans hj)
    obtain ⟨hnodup, rfl⟩ := h.objective_eq_ok.mp hq
    rw [h.labelsOf_builtKey]
    exact ⟨hnodup, rfl⟩
  · rintro ⟨hnodup, rfl⟩
    refine ⟨_, hload, _, hjudgments, _, h.objective_eq_ok.mpr ⟨hnodup, rfl⟩, ?_⟩
    rw [h.labelsOf_builtKey]

/-! ## The report -/

def Report.outcome (r : Report) (label : Text) : Option Outcome :=
  (r.byBackend.lookup label).map (·.counts)

def Report.outcomeIn (r : Report) (category label : Text) : Option Outcome :=
  (r.byCategory.lookup category).bind fun p => (p.byBackend.lookup label).map (·.counts)

def Report.hits (r : Report) (label : Text) : Option (Nat × Option Nat) :=
  (r.objectiveQuality.byBackend.lookup label).map fun q => (q.top1Hits, q.topKHits)

theorem sortedItems_bothOutcomes (o o' : Outcome) :
    sortedItems (bothOutcomes o o') = bothOutcomes o o' := by
  have hless : FrozenCorpus.textLess mozc hazkey = false := by decide
  rw [sortedItems, WeakOrders.sortedBy_eq]
  simp [bothOutcomes, List.insertionSort, hless]

theorem lookup_renderOutcomes (o o' : Outcome) (total : Nat) :
    ((renderOutcomes (bothOutcomes o o') total).lookup hazkey).map (·.counts) = some o ∧
      ((renderOutcomes (bothOutcomes o o') total).lookup mozc).map (·.counts) = some o' := by
  have hne : (mozc == hazkey) = false := by decide
  rw [renderOutcomes, sortedItems_bothOutcomes]
  simp [bothOutcomes, List.lookup_cons, hne, renderOutcome]

/-- The outcomes of both converters are the direct tallies of the rows. -/
def Tallied (preference : Text → Preference) (rows : List Row) (outcome : Text → Option Outcome) :
    Prop :=
  ∃ o o', outcome hazkey = some o ∧ outcome mozc = some o' ∧ Opposed rows.length o o' ∧
    o = directTally hazkey (rows.map fun row => preference row.id) ∧
    o' = directTally mozc (rows.map fun row => preference row.id)

/-- What the report says is what the reviewer preferred and what the runs contain. -/
structure Unblinded (corpus : List Row) (first second : Run) (preference : Text → Preference)
    (r : Report) : Prop where
  outcomes : Tallied preference corpus r.outcome
  categories : ∀ category ∈ corpus.map (·.category),
    Tallied preference (rowsOf corpus category) (r.outcomeIn category)
  hits : ∀ run, run = first ∨ run = second → r.hits run.label = some (runHits corpus run)

theorem tallied_of_perm {rows : List Row} {preferences : List Preference} {o : Text → Option Outcome}
    (hperm : preferences.Perm (rows.map fun row => preference row.id))
    (hhazkey : o hazkey = some (directTally hazkey preferences))
    (hmozc : o mozc = some (directTally mozc preferences)) : Tallied preference rows o := by
  have hopposed := opposed_directTally preferences
  rw [hperm.length_eq, List.length_map] at hopposed
  exact ⟨_, _, hhazkey, hmozc, hopposed, directTally_perm hperm _, directTally_perm hperm _⟩

theorem outcomeIn_reportOf (key : Key) (judgmentsSha256 : Text) {s : Scoring}
    (objective : ObjectiveQuality) {category : Text} {outcomes : Outcomes}
    (hnodup : (s.categoryOutcomes.map (·.1)).Nodup)
    (hlookup : s.categoryOutcomes.lookup category = some outcomes) (label : Text) :
    (reportOf key judgmentsSha256 s objective).outcomeIn category label =
      ((renderOutcomes outcomes (countUnder category s.categoryCounts)).lookup label).map
        (·.counts) := by
  have hsorted : (sortedItems s.categoryOutcomes).Perm s.categoryOutcomes :=
    WeakOrders.sortedBy_perm _ _
  have hfound : (reportOf key judgmentsSha256 s objective).byCategory.lookup category =
      some ⟨countUnder category s.categoryCounts,
        renderOutcomes outcomes (countUnder category s.categoryCounts)⟩ := by
    rw [reportOf, Tallies.lookup_mapValues fun k v => (⟨countUnder k s.categoryCounts,
      renderOutcomes v (countUnder k s.categoryCounts)⟩ : CategoryPreference),
      Tallies.lookup_perm hsorted.symm hnodup, hlookup, Option.map_some]
  rw [Report.outcomeIn, hfound, Option.bind_some]

theorem Accepted.unblinded (h : Accepted H corpusFile firstFile secondFile seed first second)
    (hrecords : records.Perm
      (reviewerRecords (builtKey H corpusFile firstFile secondFile seed first second) preference))
    (judgmentsSha256 : Text) :
    Unblinded corpusFile.content first second preference
      (reportOf (builtKey H corpusFile firstFile secondFile seed first second) judgmentsSha256
        (scoreCases [hazkey, mozc] (judgmentsOf records)
          (builtKey H corpusFile firstFile secondFile seed first second).cases)
        (objectiveOf (builtKey H corpusFile firstFile secondFile seed first second)
          (reviewOf (builtRecords H corpusFile seed first second)))) := by
  have hjudgment := fun (c : KeyCase)
    (hc : c ∈ (builtKey H corpusFile firstFile secondFile seed first second).cases) =>
    h.judgmentOf_eq hrecords hc
  constructor
  · have hrender := lookup_renderOutcomes
      (directTally hazkey ((builtKey H corpusFile firstFile secondFile seed first
        second).cases.map fun c => preference c.originalId))
      (directTally mozc ((builtKey H corpusFile firstFile secondFile seed first
        second).cases.map fun c => preference c.originalId))
      (builtKey H corpusFile firstFile secondFile seed first second).cases.length
    rw [← recorded_eq h.sided hjudgment, ← scoreCases_outcomes] at hrender
    exact tallied_of_perm (h.preferences preference) hrender.1 hrender.2
  · intro category hcategory
    have hmem : category ∈ (builtKey H corpusFile firstFile secondFile seed first
        second).cases.map (·.category) := by
      have hcategories := map_placedKey (f := (·.category)) (g := (·.category))
        (builtKey_cases_perm H corpusFile firstFile secondFile seed first second)
        fun row hrow => (placedKey_row _ _ _ h.corpus.nodup hrow).2.2.2.1
      exact hcategories.mem_iff.mpr hcategory
    have hlookup := lookup_categoryOutcomes h.sided hjudgment hmem
    apply tallied_of_perm (h.preferencesIn preference category)
    · rw [outcomeIn_reportOf _ _ _ nodup_categoryOutcomes hlookup]
      exact (lookup_renderOutcomes _ _ _).1
    · rw [outcomeIn_reportOf _ _ _ nodup_categoryOutcomes hlookup]
      exact (lookup_renderOutcomes _ _ _).2
  · intro run hrun
    have hhits := h.hits hrun
    have hlabel : run.label = hazkey ∨ run.label = mozc := by
      rcases hrun with rfl | rfl
      · exact (RunValid.of_ok h.firstRun).label
      · exact (RunValid.of_ok h.secondRun).label
    have hne : (mozc == hazkey) = false := by decide
    rw [← hhits]
    rcases hlabel with he | he
    · simp [Report.hits, reportOf, objectiveOf, he]
    · simp [Report.hits, reportOf, objectiveOf, he, List.lookup_cons, hne]

end

/-! ## Every packet -/

section

variable {H : Hashes} {corpusFile : FileOf (List Row)}
  {firstFile secondFile : FileOf (List ProbeResult)} {seed : Text} {first second : Run}
  {preference : Text → Preference}

theorem validateResult_context {context context' : String} {r : ProbeResult} {u : Unit} :
    validateResult context r = .ok u ↔ validateResult context' r = .ok u := by
  simp only [validateResult, bind_eq_ok, require_eq_ok, requireString_eq_ok,
    requireStrings_eq_ok, requireSha256_eq_ok, exists_unit]

theorem collectCases_path {path path' : String} {before cases : List (Text × ProbeResult)}
    {line line' : Nat} {results : List ProbeResult}
    (h : collectCases path before line results = .ok cases) :
    collectCases path' before line' results = .ok cases := by
  induction results generalizing before line line' with
  | nil => exact h
  | cons r results ih =>
    simp only [collectCases, bind_eq_ok, require_eq_ok, exists_unit] at h ⊢
    obtain ⟨hresult, hnew, h⟩ := h
    exact ⟨validateResult_context.mp hresult, hnew, ih h⟩

/-- The name of a file says nothing of the run in it. -/
theorem loadRun_path {path path' : String} {results : List ProbeResult} {run : Run}
    (h : loadRun path results = .ok run) : loadRun path' results = .ok run := by
  rw [loadRun, bind_eq_ok] at h ⊢
  obtain ⟨cases, hcases, h⟩ := h
  refine ⟨cases, collectCases_path hcases, ?_⟩
  cases cases with
  | nil => exact absurd h (by simp)
  | cons e cases =>
    simp only [bind_eq_ok, require_eq_ok, exists_unit, pure_eq_ok] at h ⊢
    exact h

/-- The numbers of two reports on a corpus. -/
def SameNumbers (corpus : List Row) (r r' : Report) : Prop :=
  ∀ label, label = hazkey ∨ label = mozc → r.outcome label = r'.outcome label ∧
    r.hits label = r'.hits label ∧
    ∀ category ∈ corpus.map (·.category), r.outcomeIn category label = r'.outcomeIn category label

theorem Tallied.same {rows : List Row} {o o' : Text → Option Outcome}
    (h : Tallied preference rows o) (h' : Tallied preference rows o') {label : Text}
    (hlabel : label = hazkey ∨ label = mozc) : o label = o' label := by
  obtain ⟨_, _, hhazkey, hmozc, -, rfl, rfl⟩ := h
  obtain ⟨_, _, hhazkey', hmozc', -, rfl, rfl⟩ := h'
  rcases hlabel with rfl | rfl
  · rw [hhazkey, hhazkey']
  · rw [hmozc, hmozc']

theorem Unblinded.same {r r' : Report} {first' second' : Run}
    (h : Accepted H corpusFile firstFile secondFile seed first second)
    (hr : Unblinded corpusFile.content first second preference r)
    (hr' : Unblinded corpusFile.content first' second' preference r')
    (hruns : (first' = first ∧ second' = second) ∨ (first' = second ∧ second' = first)) :
    SameNumbers corpusFile.content r r' := by
  intro label hlabel
  obtain ⟨run, hrun, rfl⟩ := h.run_of_label hlabel
  have hrun' : run = first' ∨ run = second' := by
    rcases hruns with ⟨rfl, rfl⟩ | ⟨rfl, rfl⟩
    · exact hrun
    · exact hrun.symm
  refine ⟨hr.outcomes.same hr'.outcomes hlabel, ?_, fun category hcategory =>
    (hr.categories category hcategory).same (hr'.categories category hcategory) hlabel⟩
  rw [hr.hits run hrun, hr'.hits run hrun']

/-- The reviewer's file, in any order, is scored to what the reviewer preferred, and so is the
one of any other packet of the same runs. -/
def Unblinds (H : Hashes) (corpusFile : FileOf (List Row))
    (firstFile secondFile : FileOf (List ProbeResult)) (first second : Run)
    (built : Text × Key) (preference : Text → Preference) : Prop :=
  ∀ records : List JudgmentRecord, records.Perm (reviewerRecords built.2 preference) →
    ∃ report, score H (packetOf H built.1 built.2) (judgmentsFile records) = .ok report ∧
      Unblinded corpusFile.content first second preference report ∧
      ∀ (seed' : Text) (firstFile' secondFile' : FileOf (List ProbeResult)) (built' : Text × Key)
        (loaded' : Key × Review) (records' : List JudgmentRecord),
        (firstFile' = firstFile ∧ secondFile' = secondFile) ∨
          (firstFile' = secondFile ∧ secondFile' = firstFile) →
        buildReviewAndKey H corpusFile firstFile' secondFile' seed' = .ok built' →
        loadPacket H (packetOf H built'.1 built'.2) = .ok loaded' →
        records'.Perm (reviewerRecords built'.2 preference) →
        ∃ report', score H (packetOf H built'.1 built'.2) (judgmentsFile records') = .ok report' ∧
          SameNumbers corpusFile.content report report'

theorem Accepted.rows_of_load
    (h : Accepted H corpusFile firstFile secondFile seed first second) {loaded : Key × Review}
    (hload : loadPacket H (packetOf H (reviewBytes (builtRecords H corpusFile seed first second))
      (builtKey H corpusFile firstFile secondFile seed first second)) = .ok loaded) :
    ∀ row ∈ corpusFile.content, RowUnsplit first second row :=
  h.records_valid.mp (h.load.mp hload).1.2

theorem Accepted.scored (h : Accepted H corpusFile firstFile secondFile seed first second)
    (hrows : ∀ row ∈ corpusFile.content, RowUnsplit first second row)
    (hnodup : ∀ row ∈ corpusFile.content, row.alternatives.Nodup) {records : List JudgmentRecord}
    (hrecords : records.Perm
      (reviewerRecords (builtKey H corpusFile firstFile secondFile seed first second)
        preference)) :
    ∃ report, score H (packetOf H (reviewBytes (builtRecords H corpusFile seed first second))
        (builtKey H corpusFile firstFile secondFile seed first second)) (judgmentsFile records) =
        .ok report ∧
      Unblinded corpusFile.content first second preference report :=
  ⟨_, (h.score_eq_ok hrows (reviewerRecords_names hrecords)).mpr ⟨hnodup, rfl⟩,
    h.unblinded hrecords _⟩

theorem Accepted.runs_eq (h : Accepted H corpusFile firstFile secondFile seed first second)
    {seed' : Text} {firstFile' secondFile' : FileOf (List ProbeResult)} {first' second' : Run}
    (h' : Accepted H corpusFile firstFile' secondFile' seed' first' second')
    (hfiles : (firstFile' = firstFile ∧ secondFile' = secondFile) ∨
      (firstFile' = secondFile ∧ secondFile' = firstFile)) :
    (first' = first ∧ second' = second) ∨ (first' = second ∧ second' = first) := by
  rcases hfiles with ⟨rfl, rfl⟩ | ⟨rfl, rfl⟩
  · exact .inl ⟨Except.ok.inj (h'.firstRun.symm.trans h.firstRun),
      Except.ok.inj (h'.secondRun.symm.trans h.secondRun)⟩
  · exact .inr ⟨Except.ok.inj (h'.firstRun.symm.trans (loadRun_path h.secondRun)),
      Except.ok.inj (h'.secondRun.symm.trans (loadRun_path h.firstRun))⟩

/-- Whatever the judgments are, they are scored only where no row lists an alternative twice. -/
theorem nodup_of_score {built : Text × Key} {loaded : Key × Review} {judgments : List JudgmentRecord}
    {report : Report}
    (hbuilt : buildReviewAndKey H corpusFile firstFile secondFile seed = .ok built)
    (hloaded : loadPacket H (packetOf H built.1 built.2) = .ok loaded)
    (hnames : (judgments.map (·.case)).Perm (built.2.cases.map (·.case)))
    (hscore : score H (packetOf H built.1 built.2) (judgmentsFile judgments) = .ok report) :
    ∀ row ∈ corpusFile.content, row.alternatives.Nodup := by
  obtain ⟨first', second', h, rfl⟩ := Accepted.of_ok hbuilt
  exact ((h.score_eq_ok (h.rows_of_load hloaded) hnames).mp hscore).1

/-- A review is loaded only where its texts break no line. -/
theorem unsplit_of_review {built : Text × Key} {context : String} {review : Review}
    (hbuilt : buildReviewAndKey H corpusFile firstFile secondFile seed = .ok built)
    (hfirst : loadRun "first run" firstFile.content = .ok first)
    (hsecond : loadRun "second run" secondFile.content = .ok second)
    (hreview : loadReview H context built.2 built.1 = .ok review) :
    ∀ row ∈ corpusFile.content, RowUnsplit first second row := by
  obtain ⟨first', second', h, rfl⟩ := Accepted.of_ok hbuilt
  obtain rfl := Except.ok.inj (h.firstRun.symm.trans hfirst)
  obtain rfl := Except.ok.inj (h.secondRun.symm.trans hsecond)
  exact h.records_valid.mp (loadReview_reviewBytes.mp hreview).1

theorem built_names {built : Text × Key} (preference : Text → Preference) :
    ((reviewerRecords built.2 preference).map (·.case)).Perm (built.2.cases.map (·.case)) := by
  rw [reviewerRecords, List.map_map]
  exact .refl _

/-- Unblinding gives back the reviewer's preference exactly where no row lists an alternative
twice: there the comparison of the runs fails after the judging. -/
theorem unblinds_iff {built : Text × Key} {loaded : Key × Review}
    (hbuilt : buildReviewAndKey H corpusFile firstFile secondFile seed = .ok built)
    (hloaded : loadPacket H (packetOf H built.1 built.2) = .ok loaded)
    (hfirst : loadRun "first run" firstFile.content = .ok first)
    (hsecond : loadRun "second run" secondFile.content = .ok second) :
    Unblinds H corpusFile firstFile secondFile first second built preference ↔
      ∀ row ∈ corpusFile.content, row.alternatives.Nodup := by
  obtain ⟨first', second', h, rfl⟩ := Accepted.of_ok hbuilt
  obtain rfl := Except.ok.inj (h.firstRun.symm.trans hfirst)
  obtain rfl := Except.ok.inj (h.secondRun.symm.trans hsecond)
  have hrows := h.rows_of_load hloaded
  constructor
  · intro hunblinds
    obtain ⟨report, hreport, -⟩ := hunblinds _ (.refl _)
    exact nodup_of_score hbuilt hloaded (built_names preference) hreport
  · intro hnodup records hrecords
    obtain ⟨report, hscore, hreport⟩ := h.scored hrows hnodup hrecords
    refine ⟨report, hscore, hreport, ?_⟩
    intro seed' firstFile' secondFile' built' loaded' records' hfiles hbuilt' hloaded' hrecords'
    obtain ⟨first'', second'', h', rfl⟩ := Accepted.of_ok hbuilt'
    obtain ⟨report', hscore', hreport'⟩ :=
      h'.scored (h'.rows_of_load hloaded') hnodup hrecords'
    exact ⟨report', hscore', hreport.same h hreport' (h.runs_eq h' hfiles)⟩

end

/-! The corpus of three cases again: with an alternative listed twice, and with a candidate
that ends in a line separator. -/

def doubledCorpus : List Row :=
  [⟨"a".toList, "き".toList, "木|木".toList, "noun".toList⟩,
   ⟨"bb".toList, "か".toList, "課".toList, "noun".toList⟩,
   ⟨"ccc".toList, "み".toList, "見".toList, "verb".toList⟩]

def brokenResults : List ProbeResult :=
  [sampleResult "hazkey" "hazkey_dictionary" "a" "き" "noun" ["木\u2028"],
   sampleResult "hazkey" "hazkey_dictionary" "bb" "か" "noun" ["可", "課"],
   sampleResult "hazkey" "hazkey_dictionary" "ccc" "み" "verb" []]

def sampleSeed : Text := List.replicate 64 '0'

def sampleBuild (corpus : List Row) (results : List ProbeResult) : Except String (Text × Key) :=
  buildReviewAndKey lengthHashes ⟨[1], corpus⟩ ⟨[2], results⟩ ⟨[3], mozcResults⟩ sampleSeed

theorem loadRun_hazkey : loadRun "first run" hazkeyResults = .ok (runOf hazkeyResults) := by
  with_unfolding_all rfl

theorem loadRun_broken : loadRun "first run" brokenResults = .ok (runOf brokenResults) := by
  with_unfolding_all rfl

theorem loadRun_mozc : loadRun "second run" mozcResults = .ok (runOf mozcResults) := by
  with_unfolding_all rfl

theorem exists_of_isOk {ε α : Type} {x : Except ε α} (h : x.isOk = true) : ∃ a, x = .ok a := by
  cases x with
  | ok a => exact ⟨a, rfl⟩
  | error e => exact absurd h (by simp [Except.isOk, Except.toBool])

theorem sample_built : ∃ built, sampleBuild sampleCorpus hazkeyResults = .ok built :=
  exists_of_isOk (by decide +kernel)

theorem doubled_built : ∃ built, sampleBuild doubledCorpus hazkeyResults = .ok built :=
  exists_of_isOk (by decide +kernel)

theorem broken_built : ∃ built, sampleBuild sampleCorpus brokenResults = .ok built :=
  exists_of_isOk (by decide +kernel)

theorem sample_unsplit {corpus : List Row} (h : corpus = sampleCorpus ∨ corpus = doubledCorpus) :
    ∀ row ∈ corpus, RowUnsplit (runOf hazkeyResults) (runOf mozcResults) row := by
  have hreading : ∀ row ∈ sampleCorpus ++ doubledCorpus, Unsplit row.reading := by decide
  have hcategory : ∀ row ∈ sampleCorpus ++ doubledCorpus, Unsplit row.category := by decide
  have hfirst : ∀ row ∈ sampleCorpus ++ doubledCorpus,
      ∀ t ∈ ((runOf hazkeyResults).caseOf row.id).candidates, Unsplit t := by decide
  have hsecond : ∀ row ∈ sampleCorpus ++ doubledCorpus,
      ∀ t ∈ ((runOf mozcResults).caseOf row.id).candidates, Unsplit t := by decide
  intro row hrow
  have hmem : row ∈ sampleCorpus ++ doubledCorpus := by
    rcases h with rfl | rfl
    · exact List.mem_append_left _ hrow
    · exact List.mem_append_right _ hrow
  exact ⟨hreading row hmem, hcategory row hmem, hfirst row hmem, hsecond row hmem⟩

theorem sample_loaded {corpus : List Row} (h : corpus = sampleCorpus ∨ corpus = doubledCorpus)
    {built : Text × Key} (hbuilt : sampleBuild corpus hazkeyResults = .ok built) :
    ∃ loaded, loadPacket lengthHashes (packetOf lengthHashes built.1 built.2) = .ok loaded := by
  obtain ⟨first, second, haccepted, rfl⟩ := Accepted.of_ok hbuilt
  obtain rfl := Except.ok.inj (haccepted.firstRun.symm.trans loadRun_hazkey)
  obtain rfl := Except.ok.inj (haccepted.secondRun.symm.trans loadRun_mozc)
  exact ⟨_, haccepted.load.mpr
    ⟨⟨haccepted.key_valid, haccepted.records_valid.mpr (sample_unsplit h)⟩, rfl⟩⟩

theorem sample_unblinds : ∃ built, sampleBuild sampleCorpus hazkeyResults = .ok built ∧
    Unblinds lengthHashes ⟨[1], sampleCorpus⟩ ⟨[2], hazkeyResults⟩ ⟨[3], mozcResults⟩
      (runOf hazkeyResults) (runOf mozcResults) built fun _ => .mozc := by
  obtain ⟨built, hbuilt⟩ := sample_built
  obtain ⟨loaded, hloaded⟩ := sample_loaded (.inl rfl) hbuilt
  exact ⟨built, hbuilt, (unblinds_iff hbuilt hloaded loadRun_hazkey loadRun_mozc).mpr (by decide)⟩

/-- The packet with an alternative listed twice is built and loaded, and then no judgments are
scored. -/
theorem doubled_unscored : ∃ built loaded, sampleBuild doubledCorpus hazkeyResults = .ok built ∧
    loadPacket lengthHashes (packetOf lengthHashes built.1 built.2) = .ok loaded ∧
    ∀ judgments : List JudgmentRecord,
      (judgments.map (·.case)).Perm (built.2.cases.map (·.case)) → ∀ report,
      score lengthHashes (packetOf lengthHashes built.1 built.2) (judgmentsFile judgments) ≠
        .ok report := by
  obtain ⟨built, hbuilt⟩ := doubled_built
  obtain ⟨loaded, hloaded⟩ := sample_loaded (.inr rfl) hbuilt
  refine ⟨built, loaded, hbuilt, hloaded, fun judgments hnames report hscore => ?_⟩
  have hdoubled : ¬ ∀ row ∈ doubledCorpus, row.alternatives.Nodup := by decide
  exact hdoubled (nodup_of_score hbuilt hloaded hnames hscore)

theorem doubled_not_unblinded : ∃ built loaded,
    sampleBuild doubledCorpus hazkeyResults = .ok built ∧
    loadPacket lengthHashes (packetOf lengthHashes built.1 built.2) = .ok loaded ∧
    ¬ Unblinds lengthHashes ⟨[1], doubledCorpus⟩ ⟨[2], hazkeyResults⟩ ⟨[3], mozcResults⟩
      (runOf hazkeyResults) (runOf mozcResults) built fun _ => .mozc := by
  obtain ⟨built, loaded, hbuilt, hloaded, hscore⟩ := doubled_unscored
  refine ⟨built, loaded, hbuilt, hloaded, fun hunblinds => ?_⟩
  obtain ⟨report, hreport, -⟩ := hunblinds _ (.refl _)
  exact hscore _ (built_names _) report hreport

end Hazkey.BlindReview
