import Hazkey.ConversionQuality
import Hazkey.KeyedCoding

/-! What the comparison accepts of what the evaluation writes, and what it says of it. -/

namespace Hazkey.ConversionQuality

open KeyedCoding

section

variable {context : String} {α : Type}

theorem require_eq_ok {p : Prop} [Decidable p] {message : String} {u : Unit} :
    require p message = .ok u ↔ p := by
  by_cases hp : p
  · simp [require, hp]
  · simp [require, hp]

theorem requireString_eq_ok {value : Text} {u : Unit} :
    requireString value context = .ok u ↔ value ≠ [] := require_eq_ok

theorem pure_eq_ok {a b : α} : (pure a : Except String α) = .ok b ↔ b = a := by
  constructor
  · intro h
    cases h
    rfl
  · rintro rfl
    rfl

theorem exists_unit {p : Unit → Prop} : (∃ u, p u) ↔ p () :=
  ⟨fun ⟨_, h⟩ => h, fun h => ⟨(), h⟩⟩

theorem requireStrings_eq_ok {values : List Text} {index : Nat} {u : Unit} :
    requireStrings context index values = .ok u ↔ ∀ v ∈ values, v ≠ [] := by
  induction values generalizing index with
  | nil => simp [requireStrings]
  | cons value values ih =>
    simp only [requireStrings, bind_eq_ok, requireString_eq_ok, ih, exists_unit,
      List.forall_mem_cons]

end

/-! ## The corpus -/

structure CorpusValid (rows : List Row) : Prop where
  ne_nil : rows ≠ []
  ids : ∀ row ∈ rows, row.id ≠ []
  nodup : (rows.map (·.id)).Nodup
  readings : ∀ row ∈ rows, row.reading ≠ []
  categories : ∀ row ∈ rows, row.category ≠ []
  alternatives : ∀ row ∈ rows, ∀ t ∈ row.alternatives, t ≠ []

theorem checkRows_eq_ok {context : String} {line : Nat} {rows : List Row} {u : Unit} :
    checkRows context line rows = .ok u ↔ ∀ row ∈ rows,
      row.reading ≠ [] ∧ row.category ≠ [] ∧ [] ∉ row.alternatives := by
  induction rows generalizing line with
  | nil => simp [checkRows]
  | cons row rows ih =>
    simp only [checkRows, checkRow, bind_eq_ok, require_eq_ok, exists_unit, ih,
      List.forall_mem_cons, and_assoc]

theorem loadCorpus_eq_ok {context : String} {rows rows' : List Row} :
    loadCorpus context rows = .ok rows' ↔ CorpusValid rows ∧ rows' = rows := by
  simp only [loadCorpus, bind_eq_ok, require_eq_ok, exists_unit, checkRows_eq_ok, pure_eq_ok]
  constructor
  · rintro ⟨hne, ⟨hids, hnodup⟩, hrows, rfl⟩
    refine ⟨⟨hne, fun row h he => ?_, hnodup, fun row h => (hrows row h).1,
      fun row h => (hrows row h).2.1, fun row h t ht he => ?_⟩, rfl⟩
    · exact hids (List.mem_map.mpr ⟨row, h, he⟩)
    · exact (hrows row h).2.2 (he ▸ ht)
  · rintro ⟨h, rfl⟩
    refine ⟨h.ne_nil, ⟨fun hmem => ?_, h.nodup⟩, fun row hrow =>
      ⟨h.readings row hrow, h.categories row hrow,
        fun hmem => h.alternatives row hrow _ hmem rfl⟩, rfl⟩
    obtain ⟨row, hrow, he⟩ := List.mem_map.mp hmem
    exact h.ids row hrow he

theorem CorpusValid.perm {rows rows' : List Row} (h : CorpusValid rows) (hp : rows'.Perm rows) :
    CorpusValid rows' where
  ne_nil he := h.ne_nil (List.perm_nil.mp (he ▸ hp.symm))
  ids row hrow := h.ids row (hp.mem_iff.mp hrow)
  nodup := (hp.map (·.id)).nodup_iff.mpr h.nodup
  readings row hrow := h.readings row (hp.mem_iff.mp hrow)
  categories row hrow := h.categories row (hp.mem_iff.mp hrow)
  alternatives row hrow := h.alternatives row (hp.mem_iff.mp hrow)

/-! ## The evaluation -/

def resultOf (results : Results) (row : Row) : List Text := (results.lookup row.id).getD []

/-- The answers that count for a row. -/
def observedOf (results : Results) (topK : Nat) (row : Row) : List Text :=
  (resultOf results row).take topK

abbrev Covers (corpus : List Row) (results : Results) : Prop :=
  ∀ row ∈ corpus, row.id ∈ results.map (·.1)

theorem Covers.lookup {corpus : List Row} {results : Results} (h : Covers corpus results)
    {row : Row} (hrow : row ∈ corpus) :
    results.lookup row.id = some (resultOf results row) := by
  obtain ⟨e, he, hid⟩ := List.mem_map.mp (h row hrow)
  have hsome : (results.lookup row.id).isSome := by
    rw [List.lookup_isSome_iff]
    exact ⟨e, he, by simp [hid]⟩
  obtain ⟨v, hv⟩ := Option.isSome_iff_exists.mp hsome
  rw [resultOf, hv, Option.getD_some]

def evaluatedRow (results : Results) (topK : Nat) (row : Row) : EvaluatedCase :=
  evaluateCase topK row (resultOf results row)

theorem evaluatedCases_eq {corpus : List Row} {results : Results} (h : Covers corpus results)
    (topK : Nat) : evaluatedCases corpus results topK = corpus.map (evaluatedRow results topK) := by
  have hrow : ∀ row ∈ corpus, (results.lookup row.id).map (evaluateCase topK row) =
      some (evaluatedRow results topK row) := by
    intro row hrow
    rw [h.lookup hrow, Option.map_some, evaluatedRow]
  rw [evaluatedCases, List.filterMap_congr hrow]
  exact congrFun (List.filterMap_eq_map (f := evaluatedRow results topK)) corpus

theorem missingResults_eq {corpus : List Row} {results : Results} (h : Covers corpus results)
    (topK : Nat) : (evaluate corpus results topK).missingResults = [] := by
  apply List.filter_eq_nil_iff.mpr
  intro id hid
  obtain ⟨row, hrow, rfl⟩ := List.mem_map.mp hid
  rw [h.lookup hrow]
  simp

theorem filter_alternatives {corpus : List Row} (h : CorpusValid corpus) {row : Row}
    (hrow : row ∈ corpus) : row.alternatives.filter (fun value => value ≠ []) =
      row.alternatives := by
  apply List.filter_eq_self.mpr
  intro t ht
  simpa using h.alternatives row hrow t ht

/-! ## The rank -/

theorem expectedRank_nil (expected : List Text) : expectedRank expected [] = none := rfl

theorem expectedRank_cons (expected observed : List Text) (t : Text) :
    expectedRank expected (t :: observed) =
      if t ∈ expected then some 1 else (expectedRank expected observed).map (· + 1) := by
  rw [expectedRank, expectedRank, List.findIdx?_cons]
  by_cases ht : t ∈ expected
  · simp [ht]
  · simp [ht, Function.comp_def]

theorem firstAnswers_eq (expected result : List Text) {topK : Nat} (htop : 1 ≤ topK) :
    firstAnswers expected result = decide (expectedRank expected (result.take topK) = some 1) := by
  obtain ⟨k, rfl⟩ := Nat.exists_eq_add_of_le' htop
  cases result with
  | nil => simp [firstAnswers, expectedRank_nil]
  | cons t result =>
    rw [List.take_succ_cons, expectedRank_cons, firstAnswers]
    by_cases ht : t ∈ expected
    · simp [ht]
    · have hlater : (expectedRank expected (result.take k)).map (· + 1) ≠ some 1 := by
        intro h
        obtain ⟨n, hn, he⟩ := Option.map_eq_some_iff.mp h
        rw [expectedRank] at hn
        obtain ⟨m, -, rfl⟩ := Option.map_eq_some_iff.mp hn
        omega
      simp [ht, hlater]

theorem anyAnswers_eq (expected observed : List Text) :
    anyAnswers expected observed = (expectedRank expected observed).isSome := by
  rw [anyAnswers, expectedRank, Option.isSome_map, List.findIdx?_isSome]

/-- The position of the first answer that is expected. -/
def FirstAccepted (expected observed : List Text) : Option Nat → Prop
  | none => ∀ t ∈ observed, t ∉ expected
  | some rank => ∃ before t after, observed = before ++ t :: after ∧ rank = before.length + 1 ∧
      t ∈ expected ∧ ∀ u ∈ before, u ∉ expected

theorem firstAccepted_expectedRank (expected observed : List Text) :
    FirstAccepted expected observed (expectedRank expected observed) := by
  induction observed with
  | nil => simp [expectedRank_nil, FirstAccepted]
  | cons t observed ih =>
    rw [expectedRank_cons]
    by_cases ht : t ∈ expected
    · rw [if_pos ht]
      exact ⟨[], t, observed, rfl, rfl, ht, by simp⟩
    · rw [if_neg ht]
      cases hrank : expectedRank expected observed with
      | none =>
        rw [hrank] at ih
        exact List.forall_mem_cons.mpr ⟨ht, ih⟩
      | some rank =>
        rw [hrank] at ih
        obtain ⟨before, u, after, rfl, rfl, hu, hbefore⟩ := ih
        exact ⟨t :: before, u, after, rfl, rfl, hu, List.forall_mem_cons.mpr ⟨ht, hbefore⟩⟩

/-! ## The cases -/

def validatedRow (results : Results) (topK : Nat) (row : Row) : ValidatedCase where
  id := row.id
  category := row.category
  reading := row.reading
  expected := row.alternatives
  observed := observedOf results topK row
  expectedRank := expectedRank row.alternatives (observedOf results topK row)

/-- No alternative is listed twice, and no answer that counts is empty. -/
def Comparable (results : Results) (topK : Nat) (row : Row) : Prop :=
  row.alternatives.Nodup ∧ [] ∉ observedOf results topK row

section

variable {corpus : List Row} {results : Results} {topK : Nat} {label : String}

theorem evaluatedRow_top1 (h : CorpusValid corpus) (htop : 1 ≤ topK) {row : Row}
    (hrow : row ∈ corpus) : (evaluatedRow results topK row).top1 =
      (validatedRow results topK row).top1Hit := by
  rw [evaluatedRow, evaluateCase, filter_alternatives h hrow]
  exact firstAnswers_eq _ _ htop

theorem evaluatedRow_topKHit (h : CorpusValid corpus) {row : Row} (hrow : row ∈ corpus) :
    (evaluatedRow results topK row).topKHit =
      if topK = 1 then none else some (validatedRow results topK row).topKHit := by
  rw [evaluatedRow, evaluateCase, filter_alternatives h hrow, anyAnswers_eq]
  rfl

theorem evaluatedRow_expected (h : CorpusValid corpus) {row : Row} (hrow : row ∈ corpus) :
    (evaluatedRow results topK row).expected = row.alternatives := filter_alternatives h hrow

theorem validateCase_eq_ok (h : CorpusValid corpus) (htop : 1 ≤ topK) {row : Row}
    (hrow : row ∈ corpus) {context : String} {v : ValidatedCase} :
    validateCase context topK (evaluatedRow results topK row) = .ok v ↔
      Comparable results topK row ∧ v = validatedRow results topK row := by
  have hexpected : (evaluatedRow results topK row).expected = row.alternatives :=
    evaluatedRow_expected h hrow
  have hobserved : (evaluatedRow results topK row).observed = observedOf results topK row := rfl
  have htop1 : (evaluatedRow results topK row).top1 = (validatedRow results topK row).top1Hit :=
    evaluatedRow_top1 h htop hrow
  have htopK : (evaluatedRow results topK row).topKHit =
      if topK = 1 then none else some (validatedRow results topK row).topKHit :=
    evaluatedRow_topKHit h hrow
  simp only [validateCase, bind_eq_ok, require_eq_ok, requireString_eq_ok, requireStrings_eq_ok,
    exists_unit, pure_eq_ok, hexpected, hobserved]
  constructor
  · rintro ⟨-, -, -, -, hnodup, hanswers, -, -, -, rfl⟩
    exact ⟨⟨hnodup, fun hmem => hanswers [] hmem rfl⟩, rfl⟩
  · rintro ⟨⟨hnodup, hanswers⟩, rfl⟩
    refine ⟨h.categories row hrow, h.readings row hrow, h.alternatives row hrow,
      List.splitOn_ne_nil _ _, hnodup, fun t ht he => hanswers (he ▸ ht), ?_, htop1, ?_, rfl⟩
    · exact List.length_take_le _ _
    · intro hone
      rw [htopK, if_neg hone]
      rfl

theorem validateCases_eq_ok (h : CorpusValid corpus) (htop : 1 ≤ topK) {rows : List Row}
    (hrows : ∀ row ∈ rows, row ∈ corpus) (hnodup : (rows.map (·.id)).Nodup) {seen : List Text}
    (hseen : ∀ row ∈ rows, row.id ∉ seen) {index : Nat} {cases : List ValidatedCase} :
    validateCases label topK seen index (rows.map (evaluatedRow results topK)) = .ok cases ↔
      (∀ row ∈ rows, Comparable results topK row) ∧
        cases = rows.map (validatedRow results topK) := by
  induction rows generalizing seen index cases with
  | nil => simp [validateCases, eq_comm]
  | cons row rows ih =>
    obtain ⟨hrow, hrows⟩ := List.forall_mem_cons.mp hrows
    obtain ⟨hnew, hnodup⟩ := List.nodup_cons.mp hnodup
    have hid : (evaluatedRow results topK row).id = row.id := rfl
    have hseen' : ∀ row' ∈ rows, row'.id ∉ row.id :: seen := by
      intro row' hrow' hmem
      rcases List.mem_cons.mp hmem with he | hmem
      · exact hnew (List.mem_map.mpr ⟨row', hrow', he⟩)
      · exact hseen row' (List.mem_cons_of_mem _ hrow') hmem
    simp only [List.map_cons, validateCases, bind_eq_ok, require_eq_ok, requireString_eq_ok,
      exists_unit, pure_eq_ok, hid, validateCase_eq_ok h htop hrow, ih hrows hnodup hseen',
      List.forall_mem_cons]
    constructor
    · rintro ⟨-, -, _, ⟨hc, rfl⟩, _, ⟨hcs, rfl⟩, rfl⟩
      exact ⟨⟨hc, hcs⟩, rfl⟩
    · rintro ⟨⟨hc, hcs⟩, rfl⟩
      exact ⟨h.ids row hrow, hseen row List.mem_cons_self, _, ⟨hc, rfl⟩, _, ⟨hcs, rfl⟩, rfl⟩

end

/-! ## The counts -/

section

variable {corpus : List Row} {results : Results} {topK : Nat} {label : String}

def hits1 (results : Results) (topK : Nat) (rows : List Row) : Nat :=
  rows.countP fun row => (validatedRow results topK row).top1Hit

def hitsK (results : Results) (topK : Nat) (rows : List Row) : Nat :=
  rows.countP fun row => (validatedRow results topK row).topKHit

theorem countP_cons_toNat {α : Type} (p : α → Bool) (x : α) (l : List α) :
    (x :: l).countP p = l.countP p + (p x).toNat := by
  rw [List.countP_cons]
  cases p x
  · rfl
  · rfl

theorem foldl_count (rows : List Row) (n m k : Nat) :
    (rows.map (validatedRow results topK)).foldl (fun v e => ValidatedCase.count e v)
        ⟨n, m, some k⟩ =
      ⟨n + rows.length, m + hits1 results topK rows, some (k + hitsK results topK rows)⟩ := by
  induction rows generalizing n m k with
  | nil => simp [hits1, hitsK]
  | cons row rows ih =>
    have hcount : ValidatedCase.count (validatedRow results topK row) ⟨n, m, some k⟩ =
        ⟨n + 1, m + (validatedRow results topK row).top1Hit.toNat,
          some (k + (validatedRow results topK row).topKHit.toNat)⟩ := rfl
    have hone : hits1 results topK (row :: rows) =
        hits1 results topK rows + (validatedRow results topK row).top1Hit.toNat := by
      rw [hits1, hits1, countP_cons_toNat]
    have htop : hitsK results topK (row :: rows) =
        hitsK results topK rows + (validatedRow results topK row).topKHit.toNat := by
      rw [hitsK, hitsK, countP_cons_toNat]
    rw [List.map_cons, List.foldl_cons, hcount, ih, List.length_cons, hone, htop]
    simp only [Counter.mk.injEq, Option.some.injEq]
    omega

theorem foldl_add (h : CorpusValid corpus) (htop : 1 ≤ topK) {rows : List Row}
    (hrows : ∀ row ∈ rows, row ∈ corpus) (n m : Nat) (k : Option Nat) :
    (rows.map (evaluatedRow results topK)).foldl (fun v e => Counter.add e v) ⟨n, m, k⟩ =
      ⟨n + rows.length, m + hits1 results topK rows,
        if topK = 1 ∨ rows = [] then k else some (k.getD 0 + hitsK results topK rows)⟩ := by
  induction rows generalizing n m k with
  | nil => simp [hits1]
  | cons row rows ih =>
    obtain ⟨hrow, hrows⟩ := List.forall_mem_cons.mp hrows
    have hone : hits1 results topK (row :: rows) =
        hits1 results topK rows + (evaluatedRow results topK row).top1.toNat := by
      rw [hits1, hits1, countP_cons_toNat, evaluatedRow_top1 h htop hrow]
    have htop' : hitsK results topK (row :: rows) =
        hitsK results topK rows + (validatedRow results topK row).topKHit.toNat := by
      rw [hitsK, hitsK, countP_cons_toNat]
    rw [List.map_cons, List.foldl_cons, Counter.add, ih hrows, List.length_cons, hone, htop',
      evaluatedRow_topKHit h hrow]
    by_cases hk : topK = 1
    · simp only [hk, if_true, true_or, Counter.mk.injEq, and_true]
      omega
    · by_cases hnil : rows = []
      · simp [hk, hnil, hits1, hitsK]
      · simp only [hk, hnil, if_false, or_self, reduceCtorEq, Option.getD_some,
          Counter.mk.injEq, Option.some.injEq]
        omega

theorem filter_category {γ : Type} {f : Row → γ} {category : γ → Text}
    (hf : ∀ row, category (f row) = row.category) (k : Text) :
    (corpus.map f).filter (fun e => category e = k) =
      (corpus.filter fun row => row.category = k).map f := by
  rw [List.filter_map]
  congr 1
  apply List.filter_congr
  intro row _
  rw [Function.comp_apply, hf]

def rowsOf (corpus : List Row) (k : Text) : List Row := corpus.filter fun row => row.category = k

theorem lookup_countsByCategory (h : CorpusValid corpus) (htop : 1 ≤ topK) {k : Text}
    (hk : k ∈ corpus.map (·.category)) :
    (countsByCategory (corpus.map (evaluatedRow results topK))).lookup k =
      some ⟨(rowsOf corpus k).length, hits1 results topK (rowsOf corpus k),
        if topK = 1 then none else some (hitsK results topK (rowsOf corpus k))⟩ := by
  have hmem : k ∈ (corpus.map (evaluatedRow results topK)).map EvaluatedCase.category := by
    rw [List.map_map]
    exact hk
  have hne : rowsOf corpus k ≠ [] := by
    obtain ⟨row, hrow, rfl⟩ := List.mem_map.mp hk
    exact List.ne_nil_of_mem (List.mem_filter.mpr ⟨hrow, by simp⟩)
  have hrows : ∀ row ∈ rowsOf corpus k, row ∈ corpus := fun row hrow =>
    (List.mem_filter.mp hrow).1
  rw [countsByCategory, Tallies.lookup_tally hmem, Tallies.accumulated,
    filter_category (f := evaluatedRow results topK) (fun _ => rfl), ← rowsOf,
    foldl_add h htop hrows]
  simp [hne]

theorem of_mem_validatedCounts {k : Text} {counts : Counter}
    (hmem : (k, counts) ∈ validatedCounts (corpus.map (validatedRow results topK))) :
    k ∈ corpus.map (·.category) ∧ counts = ⟨(rowsOf corpus k).length,
      hits1 results topK (rowsOf corpus k), some (hitsK results topK (rowsOf corpus k))⟩ := by
  have hkey : k ∈ (corpus.map (validatedRow results topK)).map ValidatedCase.category :=
    (Tallies.mem_keys_tally _).mp (List.mem_map_of_mem (f := Prod.fst) hmem)
  have hlookup := Tallies.lookup_eq_some_of_mem (Tallies.nodup_tally _) hmem
  rw [Tallies.lookup_tally hkey, Tallies.accumulated,
    filter_category (f := validatedRow results topK) (fun _ => rfl), ← rowsOf, foldl_count]
    at hlookup
  rw [List.map_map] at hkey
  refine ⟨hkey, (Option.some.inj hlookup).symm.trans ?_⟩
  simp

/-! ## The rates -/

theorem rate_le_one {hits total : Nat} (h : hits ≤ total) : 0 ≤ rate hits total ∧
    rate hits total ≤ 1 := by
  refine ⟨div_nonneg (Nat.cast_nonneg _) (Nat.cast_nonneg _), ?_⟩
  exact div_le_one_of_le₀ (Nat.cast_le.mpr h) (Nat.cast_nonneg _)

theorem requireRate_self {hits total : Nat} (h : hits ≤ total) (context : String) :
    requireRate (rate hits total) (rate hits total) context = .ok () := by
  simp only [requireRate, bind_eq_ok, require_eq_ok, exists_unit]
  refine ⟨rate_le_one h, ?_⟩
  rw [sub_self, abs_zero]
  exact div_nonneg zero_le_one (by simp)

theorem hits1_le (rows : List Row) : hits1 results topK rows ≤ rows.length := List.countP_le_length

theorem hitsK_le (rows : List Row) : hitsK results topK rows ≤ rows.length := List.countP_le_length

end

/-! ## The reports -/

section

variable {corpus : List Row} {results : Results} {topK : Nat} {label : String}

theorem requireTopK_self {hits total : Nat} (h : hits ≤ total) (hitsContext rateContext : String) :
    requireTopK hitsContext rateContext topK (if topK = 1 then none else some hits)
      (if topK = 1 then none else some (rate hits total)) hits total = .ok () := by
  by_cases hone : topK = 1
  · simp only [requireTopK, hone, if_true]
  · simp only [requireTopK, hone, if_false, bind_eq_ok, require_eq_ok, exists_unit, true_and]
    exact requireRate_self h _

theorem validateCategories_ok {raw : List (Text × CategoryReport)} {counts : List (Text × Counter)}
    (h : ∀ e ∈ counts, ∃ values, raw.lookup e.1 = some values ∧
      ∀ context, validateCategory context topK e.2 values = .ok ()) :
    validateCategories label topK raw counts = .ok () := by
  induction counts with
  | nil => rfl
  | cons e counts ih =>
    obtain ⟨values, hvalues, hok⟩ := h e List.mem_cons_self
    obtain ⟨k, count⟩ := e
    simp only [validateCategories, hvalues]
    refine bind_eq_ok.mpr ⟨(), hok _, ?_⟩
    exact ih fun e he => h e (List.mem_cons_of_mem _ he)

/-- What the evaluation reports of each category is what the comparison counts. -/
theorem validateCategories_evaluate (h : CorpusValid corpus) (htop : 1 ≤ topK) :
    validateCategories label topK
      ((sortedItems (countsByCategory (corpus.map (evaluatedRow results topK)))).map
        fun e => (e.1, categoryReport e.2))
      (validatedCounts (corpus.map (validatedRow results topK))) = .ok () := by
  apply validateCategories_ok
  rintro ⟨k, counts⟩ hmem
  obtain ⟨hk, rfl⟩ := of_mem_validatedCounts hmem
  have hsorted : (sortedItems (countsByCategory (corpus.map (evaluatedRow results topK)))).Perm
      (countsByCategory (corpus.map (evaluatedRow results topK))) := WeakOrders.sortedBy_perm _ _
  have hnodup : ((countsByCategory (corpus.map (evaluatedRow results topK))).map (·.1)).Nodup :=
    Tallies.nodup_tally _
  refine ⟨categoryReport ⟨(rowsOf corpus k).length, hits1 results topK (rowsOf corpus k),
    if topK = 1 then none else some (hitsK results topK (rowsOf corpus k))⟩, ?_, ?_⟩
  · rw [Tallies.lookup_mapValues (fun _ => categoryReport), Tallies.lookup_perm hsorted.symm hnodup,
      lookup_countsByCategory h htop hk, Option.map_some]
  · intro context
    have hrate : (if topK = 1 then none else some (hitsK results topK (rowsOf corpus k))).map
          (fun hits => rate hits (rowsOf corpus k).length) =
        if topK = 1 then none
        else some (rate (hitsK results topK (rowsOf corpus k)) (rowsOf corpus k).length) := by
      by_cases hone : topK = 1
      · simp [hone]
      · simp [hone]
    simp only [validateCategory, categoryReport, bind_eq_ok, require_eq_ok, exists_unit, true_and,
      hrate, Option.getD_some]
    exact ⟨requireRate_self (hits1_le _) _, requireTopK_self (hitsK_le _) _ _⟩

theorem top1Hits_eq (h : CorpusValid corpus) (htop : 1 ≤ topK) :
    top1Hits (corpus.map (evaluatedRow results topK)) = hits1 results topK corpus := by
  rw [top1Hits, hits1, List.countP_map]
  apply List.countP_congr
  intro row hrow
  rw [Function.comp_apply, evaluatedRow_top1 h htop hrow]

theorem topKHits_eq (h : CorpusValid corpus) (hone : topK ≠ 1) :
    topKHits (corpus.map (evaluatedRow results topK)) = hitsK results topK corpus := by
  rw [topKHits, hitsK, List.countP_map]
  apply List.countP_congr
  intro row hrow
  rw [Function.comp_apply, evaluatedRow_topKHit h hrow, if_neg hone]
  simp

theorem evaluate_top1Hits (h : CorpusValid corpus) (hcovers : Covers corpus results)
    (htop : 1 ≤ topK) :
    (evaluate corpus results topK).top1Hits = hits1 results topK corpus := by
  rw [evaluate, evaluatedCases_eq hcovers]
  exact top1Hits_eq h htop

theorem evaluate_topKHits (h : CorpusValid corpus) (hcovers : Covers corpus results) :
    (evaluate corpus results topK).topKHits =
      if topK = 1 then none else some (hitsK results topK corpus) := by
  by_cases hone : topK = 1
  · simp [evaluate, hone]
  · simp [evaluate, hone, evaluatedCases_eq hcovers, topKHits_eq h hone]

/-- The order of the rows makes no difference to the hits. -/
theorem evaluate_hits_congr {corpus' : List Row} {results' : Results} (h : CorpusValid corpus)
    (hperm : corpus'.Perm corpus) (hcovers : Covers corpus results)
    (hcovers' : Covers corpus' results') (htop : 1 ≤ topK)
    (hresults : ∀ row ∈ corpus, resultOf results' row = resultOf results row) :
    (evaluate corpus' results' topK).top1Hits = (evaluate corpus results topK).top1Hits ∧
      (evaluate corpus' results' topK).topKHits = (evaluate corpus results topK).topKHits := by
  have hrows : ∀ row ∈ corpus, validatedRow results' topK row = validatedRow results topK row := by
    intro row hrow
    rw [validatedRow, validatedRow, observedOf, observedOf, hresults row hrow]
  have hone : hits1 results' topK corpus' = hits1 results topK corpus := by
    rw [hits1, hits1, hperm.countP_eq]
    exact List.countP_congr fun row hrow => by rw [hrows row hrow]
  have hk : hitsK results' topK corpus' = hitsK results topK corpus := by
    rw [hitsK, hitsK, hperm.countP_eq]
    exact List.countP_congr fun row hrow => by rw [hrows row hrow]
  have h' := h.perm hperm
  constructor
  · rw [evaluate_top1Hits h hcovers htop, evaluate_top1Hits h' hcovers' htop, hone]
  · rw [evaluate_topKHits h hcovers, evaluate_topKHits h' hcovers', hk]

theorem validatedHits_eq : validatedHits (corpus.map (validatedRow results topK)) =
    (hits1 results topK corpus, hitsK results topK corpus) := by
  rw [validatedHits, List.countP_map, List.countP_map]
  rfl

def validatedOf (corpus : List Row) (results : Results) (topK : Nat) : ValidatedReport where
  topK := topK
  cases := corpus.map (validatedRow results topK)

theorem validateReport_evaluate (h : CorpusValid corpus) (hcovers : Covers corpus results)
    (htop : 1 ≤ topK) {v : ValidatedReport} :
    validateReport (evaluate corpus results topK) label = .ok v ↔
      (∀ row ∈ corpus, Comparable results topK row) ∧ v = validatedOf corpus results topK := by
  have hcases := evaluatedCases_eq hcovers topK
  have hreport : (evaluate corpus results topK).cases = corpus.map (evaluatedRow results topK) :=
    hcases
  have hlength : ((corpus.map (evaluatedRow results topK)).length) = corpus.length :=
    List.length_map _
  have hlength' : ((corpus.map (validatedRow results topK)).length) = corpus.length :=
    List.length_map _
  simp only [validateReport, bind_eq_ok, require_eq_ok, exists_unit, pure_eq_ok, hreport,
    missingResults_eq hcovers]
  constructor
  · rintro ⟨-, -, -, -, -, -, cases, hvalidated, -, -, -, -, -, rfl⟩
    obtain ⟨hcomparable, rfl⟩ := (validateCases_eq_ok h htop (fun _ hrow => hrow) h.nodup
      fun _ _ => List.not_mem_nil).mp hvalidated
    exact ⟨hcomparable, rfl⟩
  · rintro ⟨hcomparable, rfl⟩
    have htop1 := evaluate_top1Hits h hcovers htop
    have hrate1 : (evaluate corpus results topK).top1Rate =
        rate (hits1 results topK corpus) corpus.length := by
      rw [evaluate, hcases, top1Hits_eq h htop, hlength]
    have htopK : (evaluate corpus results topK).topKHits =
        if topK = 1 then none else some (hitsK results topK corpus) := evaluate_topKHits h hcovers
    have hrateK : (evaluate corpus results topK).topKRate =
        if topK = 1 then none else some (rate (hitsK results topK corpus) corpus.length) := by
      by_cases hone : topK = 1
      · simp [evaluate, hone]
      · simp [evaluate, hone, hcases, topKHits_eq h hone]
    refine ⟨rfl, htop, trivial, ?_, hlength.symm, ?_, _, (validateCases_eq_ok h htop
      (fun _ hrow => hrow) h.nodup fun _ _ => List.not_mem_nil).mpr ⟨hcomparable, rfl⟩, ?_⟩
    · exact fun he => h.ne_nil (List.map_eq_nil_iff.mp he)
    · rw [evaluate, hcases]
    · rw [validatedHits_eq, htop1, hrate1, htopK, hrateK, hlength']
      refine ⟨rfl, requireRate_self (hits1_le _) _, requireTopK_self (hitsK_le _) _ _, ?_, ?_, rfl⟩
      · intro category hmem
        rw [evaluate, hcases, List.map_map] at hmem
        obtain ⟨e, he, rfl⟩ := List.mem_map.mp hmem
        have hkey := (Tallies.mem_keys_tally _).mp
          (List.mem_map_of_mem (f := Prod.fst) ((WeakOrders.sortedBy_perm _ _).mem_iff.mp he))
        rw [List.map_map] at hkey ⊢
        exact hkey
      · rw [evaluate, hcases]
        exact validateCategories_evaluate h htop

end

/-! ## The comparison -/

def Winner.swap : Winner → Winner
  | .a => .b
  | .b => .a
  | .tie => .tie

def ComparedCase.swap (case : ComparedCase) : ComparedCase where
  a := case.b
  b := case.a
  winner := case.winner.swap
  rankDelta := case.rankDelta.map fun n => -n

def Delta.neg (d : Delta) : Delta where
  top1Hits := -d.top1Hits
  top1Rate := -d.top1Rate
  topKHits := -d.topKHits
  topKRate := -d.topKRate

def Comparison.swap (c : Comparison) : Comparison where
  topK := c.topK
  aName := c.bName
  bName := c.aName
  a := c.b
  b := c.a
  delta := c.delta.neg
  aWins := c.bWins
  bWins := c.aWins
  ties := c.ties
  cases := c.cases.map ComparedCase.swap

theorem winner_swap (r s : Option Nat) : winner s r = (winner r s).swap := by
  cases r with
  | none => cases s <;> rfl
  | some m =>
    cases s with
    | none => rfl
    | some n =>
      simp only [winner]
      rcases Nat.lt_trichotomy m n with h | h | h
      · simp [h, Nat.lt_asymm h, Winner.swap]
      · simp [h, Winner.swap]
      · simp [h, Nat.lt_asymm h, Winner.swap]

theorem rankDelta_swap (r s : Option Nat) : rankDelta s r = (rankDelta r s).map fun n => -n := by
  cases r with
  | none => cases s <;> rfl
  | some m =>
    cases s with
    | none => rfl
    | some n => simp [rankDelta]

theorem Winner.swap_eq {w v : Winner} : w.swap = v ↔ w = v.swap := by
  cases w <;> cases v <;> simp [swap]

theorem winsOf_swap (w : Winner) (cases : List ComparedCase) :
    winsOf w (cases.map ComparedCase.swap) = winsOf w.swap cases := by
  rw [winsOf, winsOf, List.countP_map]
  apply List.countP_congr
  intro case _
  simp [ComparedCase.swap, Winner.swap_eq]

theorem delta_swap (a b : Metrics) : delta b a = (delta a b).neg := by
  simp [delta, Delta.neg]

section

variable {corpus : List Row} {a b : Results} {topK : Nat} {aName bName : Text}

def comparedRow (a b : Results) (topK : Nat) (row : Row) : ComparedCase where
  a := validatedRow a topK row
  b := validatedRow b topK row
  winner := winner (validatedRow a topK row).expectedRank (validatedRow b topK row).expectedRank
  rankDelta :=
    rankDelta (validatedRow a topK row).expectedRank (validatedRow b topK row).expectedRank

theorem compareCases_map (rows : List Row) :
    compareCases (rows.map (validatedRow a topK)) (rows.map (validatedRow b topK)) =
      .ok (rows.map (comparedRow a b topK)) := by
  induction rows with
  | nil => rfl
  | cons row rows ih =>
    have hrow : compareCase (validatedRow a topK row) (validatedRow b topK row) =
        .ok (comparedRow a b topK row) := by
      simp only [compareCase, bind_eq_ok, require_eq_ok, exists_unit]
      exact ⟨rfl, rfl, rfl, rfl⟩
    simp only [List.map_cons, compareCases]
    exact bind_eq_ok.mpr ⟨_, hrow, bind_eq_ok.mpr ⟨_, ih, rfl⟩⟩

def comparisonOf (corpus : List Row) (a b : Results) (topK : Nat) (aName bName : Text) :
    Comparison where
  topK := topK
  aName := aName
  bName := bName
  a := metrics (validatedOf corpus a topK).cases
  b := metrics (validatedOf corpus b topK).cases
  delta := delta (metrics (validatedOf corpus a topK).cases)
    (metrics (validatedOf corpus b topK).cases)
  aWins := winsOf .a (corpus.map (comparedRow a b topK))
  bWins := winsOf .b (corpus.map (comparedRow a b topK))
  ties := winsOf .tie (corpus.map (comparedRow a b topK))
  cases := corpus.map (comparedRow a b topK)

theorem comparisonOf_swap : comparisonOf corpus b a topK bName aName =
    (comparisonOf corpus a b topK aName bName).swap := by
  have hcases : corpus.map (comparedRow b a topK) =
      (corpus.map (comparedRow a b topK)).map ComparedCase.swap := by
    rw [List.map_map]
    apply List.map_congr_left
    intro row _
    rw [comparedRow, winner_swap, rankDelta_swap]
    rfl
  rw [comparisonOf, hcases, winsOf_swap, winsOf_swap, winsOf_swap, delta_swap]
  rfl

theorem compareReports_evaluate (h : CorpusValid corpus) (ha : Covers corpus a)
    (hb : Covers corpus b) (htop : 1 ≤ topK) {c : Comparison} :
    compareReports (evaluate corpus a topK) (evaluate corpus b topK) aName bName = .ok c ↔
      ((aName ≠ [] ∧ bName ≠ [] ∧ aName ≠ bName) ∧
        ∀ row ∈ corpus, Comparable a topK row ∧ Comparable b topK row) ∧
      c = comparisonOf corpus a b topK aName bName := by
  simp only [compareReports, bind_eq_ok, require_eq_ok, requireString_eq_ok, exists_unit,
    pure_eq_ok, validateReport_evaluate h ha htop, validateReport_evaluate h hb htop]
  constructor
  · rintro ⟨haName, hbName, hne, _, ⟨hca, rfl⟩, _, ⟨hcb, rfl⟩, -, -, cases, hcases, rfl⟩
    obtain rfl := Except.ok.inj (hcases.symm.trans (compareCases_map corpus))
    exact ⟨⟨⟨haName, hbName, hne⟩, fun row hrow => ⟨hca row hrow, hcb row hrow⟩⟩, rfl⟩
  · rintro ⟨⟨⟨haName, hbName, hne⟩, hcomparable⟩, rfl⟩
    refine ⟨haName, hbName, hne, _, ⟨fun row hrow => (hcomparable row hrow).1, rfl⟩, _,
      ⟨fun row hrow => (hcomparable row hrow).2, rfl⟩, rfl, ?_, _, compareCases_map corpus, rfl⟩
    rw [validatedOf, validatedOf, List.map_map, List.map_map]
    rfl

end

/-! ## Producer and consumer -/

/-- The report is accepted, and says of each row what its candidates do. -/
def ReportAgrees (corpus : List Row) (results : Results) (topK : Nat) : Prop :=
  ∃ v, (∀ label, validateReport (evaluate corpus results topK) label = .ok v) ∧
    List.Forall₂ (fun row (case : ValidatedCase) => case.id = row.id ∧
      FirstAccepted row.alternatives ((resultOf results row).take topK) case.expectedRank)
      corpus v.cases ∧
    (evaluate corpus results topK).top1Hits =
      v.cases.countP (fun case => case.expectedRank = some 1) ∧
    -- where `top_k` is one there is only the first metric
    (evaluate corpus results topK).topKHits.getD (evaluate corpus results topK).top1Hits =
      v.cases.countP (fun case => case.expectedRank.isSome)

/-- Both reports are accepted, and the comparison is the same from either side. -/
structure ReportsAgree (corpus : List Row) (a b : Results) (topK : Nat) (aName bName : Text) :
    Prop where
  first : ReportAgrees corpus a topK
  second : ReportAgrees corpus b topK
  compared : ∃ c, compareReports (evaluate corpus a topK) (evaluate corpus b topK) aName bName =
      .ok c ∧
    compareReports (evaluate corpus b topK) (evaluate corpus a topK) bName aName = .ok c.swap

section

variable {corpus : List Row} {results : Results} {topK : Nat}

theorem rank_of_short (expected : List Text) {observed : List Text} (h : observed.length ≤ 1) :
    expectedRank expected observed = some 1 ↔ (expectedRank expected observed).isSome := by
  cases observed with
  | nil => simp [expectedRank_nil]
  | cons t observed =>
    obtain rfl := List.length_eq_zero_iff.mp (Nat.le_zero.mp (Nat.le_of_succ_le_succ h))
    rw [expectedRank_cons]
    by_cases ht : t ∈ expected
    · simp [ht]
    · simp [ht, expectedRank_nil]

theorem hits1_eq_hitsK (rows : List Row) : hits1 results 1 rows = hitsK results 1 rows := by
  apply List.countP_congr
  intro row _
  have hlength : (observedOf results 1 row).length ≤ 1 := List.length_take_le _ _
  rw [ValidatedCase.top1Hit, ValidatedCase.topKHit, decide_eq_true_iff]
  exact rank_of_short row.alternatives hlength

theorem reportAgrees_iff (h : CorpusValid corpus) (hcovers : Covers corpus results)
    (htop : 1 ≤ topK) : ReportAgrees corpus results topK ↔
      ∀ row ∈ corpus, Comparable results topK row := by
  constructor
  · rintro ⟨v, hv, -⟩
    exact ((validateReport_evaluate h hcovers htop).mp (hv "")).1
  · intro hcomparable
    refine ⟨validatedOf corpus results topK,
      fun label => (validateReport_evaluate h hcovers htop).mpr ⟨hcomparable, rfl⟩, ?_, ?_, ?_⟩
    · rw [validatedOf, List.forall₂_map_right_iff, List.forall₂_same]
      exact fun row _ => ⟨rfl, firstAccepted_expectedRank _ _⟩
    · rw [evaluate_top1Hits h hcovers htop, validatedOf, List.countP_map]
      rfl
    · rw [evaluate_topKHits h hcovers, evaluate_top1Hits h hcovers htop, validatedOf,
        List.countP_map]
      by_cases hone : topK = 1
      · subst hone
        rw [if_pos rfl, Option.getD_none, hits1_eq_hitsK]
        rfl
      · rw [if_neg hone]
        rfl

end

/-- Quality reports are accepted by their consumer unless a row lists an alternative twice or
one of the first candidates is empty. -/
theorem reportsAgree_iff {context : String} {rows corpus : List Row} {a b : Results} {topK : Nat}
    {aName bName : Text} (hcorpus : loadCorpus context rows = .ok corpus)
    (ha : Covers corpus a) (hb : Covers corpus b) (htop : 1 ≤ topK)
    (hnames : aName ≠ [] ∧ bName ≠ [] ∧ aName ≠ bName) :
    ReportsAgree corpus a b topK aName bName ↔ ∀ row ∈ corpus, row.alternatives.Nodup ∧
      [] ∉ (resultOf a row).take topK ∧ [] ∉ (resultOf b row).take topK := by
  obtain ⟨hvalid, rfl⟩ := loadCorpus_eq_ok.mp hcorpus
  constructor
  · rintro ⟨hfirst, hsecond, -⟩ row hrow
    obtain ⟨hnodup, hanswers⟩ := (reportAgrees_iff hvalid ha htop).mp hfirst row hrow
    exact ⟨hnodup, hanswers, ((reportAgrees_iff hvalid hb htop).mp hsecond row hrow).2⟩
  · intro h
    have hca : ∀ row ∈ corpus, Comparable a topK row := fun row hrow =>
      ⟨(h row hrow).1, (h row hrow).2.1⟩
    have hcb : ∀ row ∈ corpus, Comparable b topK row := fun row hrow =>
      ⟨(h row hrow).1, (h row hrow).2.2⟩
    refine ⟨(reportAgrees_iff hvalid ha htop).mpr hca, (reportAgrees_iff hvalid hb htop).mpr hcb,
      comparisonOf corpus a b topK aName bName, ?_, ?_⟩
    · exact (compareReports_evaluate hvalid ha hb htop).mpr
        ⟨⟨hnames, fun row hrow => ⟨hca row hrow, hcb row hrow⟩⟩, rfl⟩
    · rw [← comparisonOf_swap]
      exact (compareReports_evaluate hvalid hb ha htop).mpr
        ⟨⟨⟨hnames.2.1, hnames.1, hnames.2.2.symm⟩,
          fun row hrow => ⟨hcb row hrow, hca row hrow⟩⟩, rfl⟩

/-! A row with an alternative once and twice, and results with a candidate that is empty. -/

def rowOnce : Row := ⟨"a".toList, "き".toList, "木|気".toList, "noun".toList⟩

def rowTwice : Row := ⟨"a".toList, "き".toList, "木|木".toList, "noun".toList⟩

def resultLine (candidates : List String) : Option Value :=
  some (.object [("id".toList, .text "a".toList),
    ("candidates".toList, .list (candidates.map fun t => .text t.toList))])

theorem rowOnce_agrees :
    ReportsAgree [rowOnce] [("a".toList, ["木".toList])] [("a".toList, ["気".toList, []])] 1
      "a".toList "b".toList := by
  have hcorpus : loadCorpus "corpus" [rowOnce] = .ok [rowOnce] := loadCorpus_eq_ok.mpr
    ⟨⟨by decide, by decide, by decide, by decide, by decide, by decide⟩, rfl⟩
  exact (reportsAgree_iff hcorpus (by decide) (by decide) (by decide) (by decide)).mpr (by decide)

theorem reports_rejected :
    (loadCorpus "corpus" [rowTwice] = .ok [rowTwice] ∧
      loadResults "results" [resultLine ["木"]] = .ok [("a".toList, ["木".toList])] ∧
      ∀ v, validateReport (evaluate [rowTwice] [("a".toList, ["木".toList])] 10) "a_report" ≠
        .ok v) ∧
    (loadCorpus "corpus" [rowOnce] = .ok [rowOnce] ∧
      loadResults "results" [resultLine [""]] = .ok [("a".toList, [[]])] ∧
      ∀ v, validateReport (evaluate [rowOnce] [("a".toList, [[]])] 10) "a_report" ≠ .ok v) := by
  have honce : CorpusValid [rowOnce] :=
    ⟨by decide, by decide, by decide, by decide, by decide, by decide⟩
  have htwice : CorpusValid [rowTwice] :=
    ⟨by decide, by decide, by decide, by decide, by decide, by decide⟩
  refine ⟨⟨loadCorpus_eq_ok.mpr ⟨htwice, rfl⟩, rfl, fun v hv => ?_⟩,
    loadCorpus_eq_ok.mpr ⟨honce, rfl⟩, rfl, fun v hv => ?_⟩
  · have := ((validateReport_evaluate htwice (by decide) (by decide)).mp hv).1
    exact absurd (this rowTwice List.mem_cons_self).1 (by decide)
  · have := ((validateReport_evaluate honce (by decide) (by decide)).mp hv).1
    exact (this rowOnce List.mem_cons_self).2 (by decide)

end Hazkey.ConversionQuality
