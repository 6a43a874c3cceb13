import Hazkey.EditDistance
import Hazkey.NearDuplicates

/-! The search for near duplicates reports what the comparison of all pairs
would: few edits leave a 3-gram in common. -/

namespace Hazkey.FrozenCorpus

open EditDistance

/-! ## The two rows -/

/-- The distances from `xs` to the prefixes of `done`: a row, or the part of it that is there. -/
noncomputable def rowTo (xs done : Text) : List Nat :=
  (List.range (done.length + 1)).map fun k => editDistance xs (done.take k)

theorem rowTo_concat (xs done : Text) (y : Char) :
    rowTo xs (done ++ [y]) = rowTo xs done ++ [editDistance xs (done ++ [y])] := by
  rw [rowTo, rowTo, List.length_append, List.length_singleton, List.range_succ, List.map_append]
  congr 1
  · refine List.map_congr_left fun k hk => ?_
    have hle : k ≤ done.length := Nat.lt_succ_iff.mp (List.mem_range.mp hk)
    rw [List.take_append_of_le_length hle]
  · rw [List.map_singleton, List.take_of_length_le (by simp)]

theorem row_getD (xs right : Text) {k : Nat} (hk : k ≤ right.length) :
    (rowTo xs right).getD k 0 = editDistance xs (right.take k) := by
  have hlt : k < right.length + 1 := Nat.lt_succ_of_le hk
  simp [rowTo, List.getD_eq_getElem?_getD, hlt]

theorem rowTo_getLastD (xs done : Text) : (rowTo xs done).getLastD 0 = editDistance xs done := by
  simp [rowTo, List.range_succ]

theorem extendRow_eq (xs : Text) (x : Char) (done rest : Text) :
    extendRow (rowTo xs (done ++ rest)) x (rowTo (xs ++ [x]) done) (done.length + 1) rest =
      rowTo (xs ++ [x]) (done ++ rest) := by
  induction rest generalizing done with
  | nil => rw [extendRow, List.append_nil]
  | cons y rest ih =>
    have hentry : rowEntry (rowTo xs (done ++ y :: rest)) x (rowTo (xs ++ [x]) done)
        (done.length + 1) y = editDistance (xs ++ [x]) (done ++ [y]) := by
      have htake : (done ++ y :: rest).take (done.length + 1) = done ++ [y] := by
        rw [List.append_cons, List.take_append_of_le_length (by simp),
          List.take_of_length_le (by simp)]
      have hdone : (done ++ y :: rest).take (done.length + 1 - 1) = done := by simp
      rw [rowEntry, rowTo_getLastD, row_getD _ _ (by simp), row_getD _ _ (by simp), htake,
        hdone, editDistance_concat]
    have hnext := ih (done ++ [y])
    rw [List.length_append, List.length_singleton, List.append_assoc, List.singleton_append,
      rowTo_concat] at hnext
    rw [extendRow, hentry]
    exact hnext

theorem rows_eq (right done rest : Text) :
    rows right (rowTo done right) (done.length + 1) rest = rowTo (done ++ rest) right := by
  induction rest generalizing done with
  | nil => rw [rows, List.append_nil]
  | cons x rest ih =>
    have hstart : [done.length + 1] = rowTo (done ++ [x]) [] := by
      simp [rowTo, editDistance_nil_right]
    have hrow := extendRow_eq done x [] right
    rw [List.nil_append, ← hstart, List.length_nil] at hrow
    have hnext := ih (done ++ [x])
    rw [List.length_append, List.length_singleton, List.append_assoc,
      List.singleton_append] at hnext
    rw [rows, hrow]
    exact hnext

theorem lastEntry_eq (left right : Text) : lastEntry left right = editDistance left right := by
  have hstart : List.range (right.length + 1) = rowTo [] right := by
    rw [rowTo]
    conv_lhs => rw [← List.map_id (List.range _)]
    refine List.map_congr_left fun k hk => ?_
    have hle : k ≤ right.length := Nat.lt_succ_iff.mp (List.mem_range.mp hk)
    rw [editDistance_nil_left, List.length_take, Nat.min_eq_left hle, id]
  have hrows := rows_eq right [] left
  rw [List.length_nil, List.nil_append, ← hstart] at hrows
  rw [lastEntry, hrows, rowTo_getLastD]

/-- The two rows give the least number of edits. -/
theorem levenshteinDistance_eq (left right : Text) :
    levenshteinDistance left right = editDistance left right := by
  rw [levenshteinDistance, lastEntry_eq, lastEntry_eq]
  split
  · exact editDistance_comm right left
  · rfl

/-! ## Grams and thresholds -/

theorem trigrams_nonempty {t : Text} (ht : t ≠ []) : trigrams t ≠ ∅ := by
  rw [trigrams, if_neg ht]
  by_cases hshort : t.length < 3
  · rw [if_pos hshort]
    exact Finset.singleton_ne_empty t
  · rw [if_neg hshort, Ne, List.toFinset_eq_empty_iff, List.map_eq_nil_iff, List.range_eq_nil]
    omega

theorem mem_trigrams {t w : Text} (hw : w.length = 3) (h : w <:+: t) : w ∈ trigrams t := by
  obtain ⟨l, r, rfl⟩ := h
  have hlong : ¬ (l ++ w ++ r).length < 3 := by
    simp only [List.length_append]
    omega
  have hne : l ++ w ++ r ≠ [] := by
    intro he
    rw [he] at hlong
    exact hlong (by decide)
  rw [trigrams, if_neg hne, if_neg hlong, List.mem_toFinset, List.mem_map]
  refine ⟨l.length, List.mem_range.mpr ?_, ?_⟩
  · simp only [List.length_append]
    omega
  · rw [List.append_assoc, List.drop_left, ← hw, List.take_left]

/-- What the pair is asked for: a metric that reaches its threshold. -/
noncomputable def editSimilarity (left right : Text) : Int :=
  if maximumLength left right = 0 then 10000
  else ((maximumLength left right : Int) - editDistance left right) * 10000 /
    (maximumLength left right : Int)

/-- The comparison of two readings, with neither index nor filter. -/
noncomputable def nearPair (scope : Text) (left right : Reading) : Option NearPair :=
  if 8000 ≤ jaccardBasisPoints left.2 right.2 ∨ 9000 ≤ editSimilarity left.2 right.2 then some
    { caseIds := sortedIds left.1 right.1
      scope := scope
      jaccardBasisPoints := jaccardBasisPoints left.2 right.2
      levenshteinBasisPoints := editSimilarity left.2 right.2 }
  else none

theorem levenshteinSimilarity_eq (left right : Text) :
    levenshteinSimilarityBasisPoints left right = editSimilarity left right := by
  rw [levenshteinSimilarityBasisPoints, editSimilarity, levenshteinDistance_eq]

/-- The similarity is at most what the lengths allow. -/
theorem editSimilarity_le (left right : Text) :
    editSimilarity left right ≤ maximumPossibleLevenshtein left right := by
  rw [editSimilarity, maximumPossibleLevenshtein]
  by_cases hzero : maximumLength left right = 0
  · rw [if_pos hzero, if_pos hzero]
    rfl
  · rw [if_neg hzero, if_neg hzero]
    have hleft := length_le_editDistance left right
    have hright := length_le_editDistance right left
    rw [editDistance_comm right left] at hright
    have hkept : (maximumLength left right : Int) - editDistance left right ≤
        (min left.length right.length : Nat) := by
      rw [maximumLength]
      omega
    rw [Int.natCast_ediv, Int.natCast_mul]
    exact Int.ediv_le_ediv (by omega) (Int.mul_le_mul_of_nonneg_right hkept (by omega))

theorem consider_eq (scope : Text) (left right : Reading) :
    consider scope left right = nearPair scope left right := by
  have hle := editSimilarity_le left.2 right.2
  rw [consider, nearPair, levenshteinSimilarity_eq, jaccardThresholdBasisPoints,
    levenshteinThresholdBasisPoints]
  by_cases h : 8000 ≤ jaccardBasisPoints left.2 right.2 ∨ 9000 ≤ editSimilarity left.2 right.2
  · rw [if_pos h, if_neg (by omega), if_neg (by omega)]
  · rw [if_neg h, if_pos (c := _ ∧ editSimilarity _ _ < _) (by omega), ite_self]

/-- A similarity of nine tenths leaves at most one edit in ten characters. -/
theorem edits_of_similarity {left right : Text} (hlong : maximumLength left right ≠ 0)
    (h : 9000 ≤ editSimilarity left right) :
    10 * editDistance left right ≤ maximumLength left right := by
  rw [editSimilarity, if_neg hlong, Int.le_ediv_iff_mul_le (by omega)] at h
  omega

/-- A pair that is reported has a gram in common. -/
theorem common_gram {scope : Text} {left right : Reading} (hleft : left.2 ≠ [])
    (hne : left.2 ≠ right.2) (h : nearPair scope left right ≠ none) :
    ∃ gram, gram ∈ trigrams left.2 ∧ gram ∈ trigrams right.2 := by
  have hmetric : 8000 ≤ jaccardBasisPoints left.2 right.2 ∨
      9000 ≤ editSimilarity left.2 right.2 := by
    by_contra hm
    exact h (if_neg hm)
  obtain hjaccard | hedits := hmetric
  · have hunion : trigrams left.2 ∪ trigrams right.2 ≠ ∅ := fun he =>
      trigrams_nonempty hleft (Finset.union_eq_empty.mp he).1
    rw [jaccardBasisPoints, if_neg hunion] at hjaccard
    have hcommon : (trigrams left.2 ∩ trigrams right.2).card ≠ 0 := by
      intro hzero
      rw [hzero, Nat.zero_mul, Nat.zero_div] at hjaccard
      omega
    obtain ⟨gram, hgram⟩ := Finset.card_ne_zero.mp hcommon
    exact ⟨gram, Finset.mem_inter.mp hgram⟩
  · have hlength : 0 < left.2.length := List.length_pos_iff.mpr hleft
    have hlong : maximumLength left.2 right.2 ≠ 0 := by
      rw [maximumLength]
      omega
    have hfew := edits_of_similarity hlong hedits
    have hpos := editDistance_pos hne
    rw [maximumLength] at hfew
    have hshort : 3 * (editDistance left.2 right.2 + 1) ≤ max left.2.length right.2.length := by
      omega
    obtain ⟨w, hw, hl, hr⟩ := common_infix hshort
    exact ⟨w, mem_trigrams hw hl, mem_trigrams hw hr⟩

/-! ## The pairs that the index proposes -/

variable {O : SetOrder} {i j : Nat} {l : List Nat} {gram : Text} {readings : List Reading}

theorem mem_orderedPairs (h : l.Pairwise (· < ·)) :
    toLex (i, j) ∈ orderedPairs l ↔ i ∈ l ∧ j ∈ l ∧ i < j := by
  induction l with
  | nil => simp [orderedPairs]
  | cons a rest ih =>
    obtain ⟨ha, hrest⟩ := List.pairwise_cons.mp h
    have hhead : toLex (i, j) ∈ rest.map (fun b => toLex (a, b)) ↔ i = a ∧ j ∈ rest := by
      simp [eq_comm, and_comm]
    rw [orderedPairs, List.mem_append, hhead, ih hrest, List.mem_cons, List.mem_cons]
    constructor
    · rintro (⟨rfl, hj⟩ | ⟨hi, hj, hlt⟩)
      · exact ⟨.inl rfl, .inr hj, ha j hj⟩
      · exact ⟨.inr hi, .inr hj, hlt⟩
    · rintro ⟨rfl | hi, rfl | hj, hlt⟩
      · exact absurd hlt (Nat.lt_irrefl _)
      · exact .inl ⟨rfl, hj⟩
      · exact absurd (ha i hi) (Nat.lt_asymm hlt)
      · exact .inr ⟨hi, hj, hlt⟩

theorem pairwise_row (a : Nat) (h : l.Pairwise (· < ·)) :
    (l.map fun b => (toLex (a, b) : ℕ ×ₗ ℕ)).Pairwise (· < ·) := by
  refine List.pairwise_map.mpr (h.imp ?_)
  intro b c hlt
  exact Prod.Lex.toLex_lt_toLex.mpr (.inr ⟨rfl, hlt⟩)

theorem orderedPairs_pairwise (h : l.Pairwise (· < ·)) : (orderedPairs l).Pairwise (· < ·) := by
  induction l with
  | nil => exact .nil
  | cons a rest ih =>
    obtain ⟨ha, hrest⟩ := List.pairwise_cons.mp h
    refine List.pairwise_append.mpr ⟨pairwise_row a hrest, ih hrest, fun c hc d hd => ?_⟩
    obtain ⟨b, -, rfl⟩ := List.mem_map.mp hc
    have hfirst := ((mem_orderedPairs hrest).mp hd).1
    exact Prod.Lex.toLex_lt_toLex.mpr (.inl (ha _ hfirst))

/-- Each index of the one list with each of the other. -/
def crossPairs (l : List Nat) (m : List Nat) : List (ℕ ×ₗ ℕ) :=
  l.flatMap fun a => m.map fun b => toLex (a, b)

theorem mem_crossPairs {m : List Nat} : toLex (i, j) ∈ crossPairs l m ↔ i ∈ l ∧ j ∈ m := by
  simp [crossPairs]

theorem crossPairs_pairwise {m : List Nat} (h : l.Pairwise (· < ·)) (hm : m.Pairwise (· < ·)) :
    (crossPairs l m).Pairwise (· < ·) := by
  refine List.pairwise_flatMap.mpr ⟨fun a _ => pairwise_row a hm, h.imp ?_⟩
  intro a b hab c hc d hd
  obtain ⟨_, -, rfl⟩ := List.mem_map.mp hc
  obtain ⟨_, -, rfl⟩ := List.mem_map.mp hd
  exact Prod.Lex.toLex_lt_toLex.mpr (.inl hab)

/-- The values of a gram among the entries of one reading. -/
theorem values_row (index : Nat) (s : Finset Text) :
    Grouping.values gram ((O.iterate s).map fun g => (g, index)) =
      if gram ∈ s then [index] else [] := by
  have hgram : (O.iterate s).filter (fun g => g = gram) =
      List.replicate ((O.iterate s).count gram) gram := List.filter_eq gram
  have hfilter : ((O.iterate s).map fun g => (g, index)).filter (fun e => e.1 = gram) =
      List.replicate ((O.iterate s).count gram) (gram, index) := by
    rw [List.filter_map]
    exact (congrArg _ hgram).trans List.map_replicate
  rw [Grouping.values, hfilter]
  by_cases hg : gram ∈ s
  · rw [if_pos hg, List.count_eq_one_of_mem (O.nodup s) ((O.mem_iterate s gram).mpr hg)]
    rfl
  · rw [if_neg hg, List.count_eq_zero_of_not_mem fun h => hg ((O.mem_iterate s gram).mp h)]
    rfl

theorem zipIdx_eq (readings : List Reading) :
    readings.zipIdx = (List.range readings.length).map fun k => (readingAt readings k, k) := by
  apply List.ext_getElem (by simp)
  intro k hk _
  have hlt : k < readings.length := by simpa using hk
  simp [readingAt, hlt]

/-- The indices of the readings that have the gram. -/
def indices (readings : List Reading) (gram : Text) : List Nat :=
  (List.range readings.length).filter fun k => gram ∈ trigrams (readingAt readings k).2

theorem mem_indices {k : Nat} : k ∈ indices readings gram ↔
    k < readings.length ∧ gram ∈ trigrams (readingAt readings k).2 := by
  simp [indices]

theorem indices_pairwise : (indices readings gram).Pairwise (· < ·) :=
  List.pairwise_lt_range.filter _

theorem values_append {κ ι : Type} [DecidableEq κ] (k : κ) (d e : List (κ × ι)) :
    Grouping.values k (d ++ e) = Grouping.values k d ++ Grouping.values k e := by
  simp [Grouping.values]

/-- The index lists for each gram the readings that have it, in order. -/
theorem values_postingEntries :
    Grouping.values gram (postingEntries O readings) = indices readings gram := by
  rw [postingEntries, zipIdx_eq, List.flatMap_map, indices]
  generalize List.range readings.length = l
  induction l with
  | nil => rfl
  | cons k rest ih =>
    rw [List.flatMap_cons, values_append, ih, values_row, List.filter_cons]
    by_cases hk : gram ∈ trigrams (readingAt readings k).2 <;> simp [hk]

theorem mem_postings {vs : List Nat} :
    (gram, vs) ∈ postings O readings ↔ vs ≠ [] ∧ indices readings gram = vs := by
  rw [postings, Grouping.mem_group, values_postingEntries]

theorem mem_formalCandidates : toLex (i, j) ∈ formalCandidates (postings O readings) ↔
    ∃ gram, i ∈ indices readings gram ∧ j ∈ indices readings gram ∧ i < j := by
  rw [formalCandidates, List.mem_toFinset, List.mem_flatMap]
  constructor
  · rintro ⟨⟨gram, vs⟩, hp, hc⟩
    obtain ⟨-, rfl⟩ := mem_postings.mp hp
    exact ⟨gram, (mem_orderedPairs indices_pairwise).mp hc⟩
  · rintro ⟨gram, hij⟩
    refine ⟨(gram, indices readings gram), mem_postings.mpr ⟨?_, rfl⟩,
      (mem_orderedPairs indices_pairwise).mpr hij⟩
    exact List.ne_nil_of_mem hij.1

theorem mem_pilotCandidates {formal pilot : List Reading} :
    toLex (i, j) ∈ pilotCandidates (postings O formal) (postings O pilot) ↔
      ∃ gram, i ∈ indices formal gram ∧ j ∈ indices pilot gram := by
  have hget : ∀ gram, Grouping.get (postings O pilot) gram = indices pilot gram := fun gram =>
    (Grouping.get_group _ _).trans values_postingEntries
  have hcross : ∀ (gram : Text) (vs : List Nat), toLex (i, j) ∈ (vs.flatMap fun left =>
      (Grouping.get (postings O pilot) gram).map fun right => (toLex (left, right) : ℕ ×ₗ ℕ)) ↔
        i ∈ vs ∧ j ∈ indices pilot gram := by
    intro gram vs
    rw [hget]
    exact mem_crossPairs
  rw [pilotCandidates, List.mem_toFinset, List.mem_flatMap]
  constructor
  · rintro ⟨⟨gram, vs⟩, hp, hc⟩
    obtain ⟨-, rfl⟩ := mem_postings.mp hp
    exact ⟨gram, (hcross gram _).mp hc⟩
  · rintro ⟨gram, hij⟩
    refine ⟨(gram, indices formal gram), mem_postings.mpr ⟨?_, rfl⟩, (hcross gram _).mpr hij⟩
    exact List.ne_nil_of_mem hij.1

/-! ## All pairs -/

/-- The sorted set is the part of all pairs, in their order, that is in the set. -/
theorem sort_eq_filter {s : Finset (ℕ ×ₗ ℕ)} {all : List (ℕ ×ₗ ℕ)} (hall : all.Pairwise (· < ·))
    (hsub : ∀ c ∈ s, c ∈ all) : s.sort = all.filter (· ∈ s) := by
  have hset : s = (all.filter (· ∈ s)).toFinset := by
    ext c
    simp only [List.mem_toFinset, List.mem_filter, decide_eq_true_eq]
    exact ⟨fun hc => ⟨hsub c hc, hc⟩, fun hc => hc.2⟩
  have hpairwise := hall.filter (· ∈ s)
  conv_lhs => rw [hset]
  exact (List.toFinset_sort (r := (· ≤ ·)) (hpairwise.imp fun h => Ne.symm (ne_of_gt h))).mpr
    (hpairwise.imp fun h => le_of_lt h)

/-- A search among candidates finds what the search among all finds, where what
is found is a candidate. -/
theorem filterMap_filter_eq {α β : Type} {f g : α → Option β} {p : α → Bool} {all : List α}
    (hfound : ∀ c ∈ all, g c ≠ none → p c = true) (heq : ∀ c, f c = g c) :
    (all.filter p).filterMap f = all.filterMap g := by
  induction all with
  | nil => rfl
  | cons c rest ih =>
    have hrest := ih fun d hd => hfound d (List.mem_cons_of_mem _ hd)
    by_cases hc : p c = true
    · rw [List.filter_cons_of_pos hc, List.filterMap_cons, List.filterMap_cons, heq, hrest]
    · have hnone : g c = none := by
        by_contra hg
        exact hc (hfound c List.mem_cons_self hg)
      rw [List.filter_cons_of_neg hc, List.filterMap_cons, hnone, hrest]

/-- Each formal reading with each of those after it. -/
noncomputable def allFormalPairs : List Reading → List NearPair
  | [] => []
  | left :: rest => rest.filterMap (nearPair formalScope left) ++ allFormalPairs rest

/-- Each formal reading with each of the pilot. -/
noncomputable def allPilotPairs (formal pilot : List Reading) : List NearPair :=
  formal.flatMap fun left => pilot.filterMap (nearPair pilotScope left)

theorem map_readingAt (readings : List Reading) :
    (List.range readings.length).map (readingAt readings) = readings := by
  apply List.ext_getElem (by simp)
  intro k hk hlt
  simp [readingAt, hlt]

theorem orderedPairs_filterMap (l : List Nat) :
    (orderedPairs l).filterMap (fun c => nearPair formalScope (readingAt readings (ofLex c).1)
      (readingAt readings (ofLex c).2)) = allFormalPairs (l.map (readingAt readings)) := by
  induction l with
  | nil => rfl
  | cons a rest ih =>
    rw [orderedPairs, List.filterMap_append, ih, List.filterMap_map, List.map_cons,
      allFormalPairs, List.filterMap_map]
    rfl

theorem crossPairs_filterMap (l m : List Nat) {formal pilot : List Reading} :
    (crossPairs l m).filterMap (fun c => nearPair pilotScope (readingAt formal (ofLex c).1)
      (readingAt pilot (ofLex c).2)) =
        allPilotPairs (l.map (readingAt formal)) (m.map (readingAt pilot)) := by
  rw [crossPairs, allPilotPairs, List.filterMap_flatMap, List.flatMap_map]
  congr 1
  funext a
  rw [List.filterMap_map, List.filterMap_map]
  rfl

section

variable {formal pilot : List Reading}

theorem formalPairs_eq (hnonempty : ∀ r ∈ formal, r.2 ≠ [])
    (hdistinct : (formal.map (·.2)).Nodup) : formalPairs O formal = allFormalPairs formal := by
  have hall : (orderedPairs (List.range formal.length)).Pairwise (· < ·) :=
    orderedPairs_pairwise List.pairwise_lt_range
  have hsub : ∀ c ∈ formalCandidates (postings O formal),
      c ∈ orderedPairs (List.range formal.length) := by
    intro c hc
    have hc : toLex ((ofLex c).1, (ofLex c).2) ∈ formalCandidates (postings O formal) := hc
    obtain ⟨gram, hi, hj, hlt⟩ := mem_formalCandidates.mp hc
    exact (mem_orderedPairs List.pairwise_lt_range).mpr
      ⟨List.mem_range.mpr (mem_indices.mp hi).1, List.mem_range.mpr (mem_indices.mp hj).1, hlt⟩
  rw [formalPairs, sort_eq_filter hall hsub, filterMap_filter_eq ?_ fun c => consider_eq _ _ _,
    orderedPairs_filterMap, map_readingAt]
  intro c hc hfound
  have hc : toLex ((ofLex c).1, (ofLex c).2) ∈ orderedPairs (List.range formal.length) := hc
  obtain ⟨hi, hj, hlt⟩ := (mem_orderedPairs List.pairwise_lt_range).mp hc
  rw [List.mem_range] at hi hj
  have hleft : (readingAt formal (ofLex c).1).2 ≠ [] := by
    have := hnonempty _ (List.getElem_mem hi)
    simpa [readingAt, hi] using this
  have hne : (readingAt formal (ofLex c).1).2 ≠ (readingAt formal (ofLex c).2).2 := by
    intro he
    have hi' : (ofLex c).1 < (formal.map (·.2)).length := by simpa using hi
    have hj' : (ofLex c).2 < (formal.map (·.2)).length := by simpa using hj
    have htexts : (formal.map (·.2))[(ofLex c).1] = (formal.map (·.2))[(ofLex c).2] := by
      simpa [readingAt, hi, hj] using he
    exact absurd (hdistinct.getElem_inj_iff.mp htexts) (Nat.ne_of_lt hlt)
  obtain ⟨gram, hl, hr⟩ := common_gram hleft hne hfound
  rw [decide_eq_true_eq]
  exact mem_formalCandidates.mpr ⟨gram, mem_indices.mpr ⟨hi, hl⟩, mem_indices.mpr ⟨hj, hr⟩, hlt⟩

theorem pilotPairs_eq (hnonempty : ∀ r ∈ formal, r.2 ≠ [])
    (hdistinct : ∀ r ∈ formal, ∀ r' ∈ pilot, r.2 ≠ r'.2) :
    pilotPairs O formal pilot = allPilotPairs formal pilot := by
  have hall : (crossPairs (List.range formal.length) (List.range pilot.length)).Pairwise
      (· < ·) := crossPairs_pairwise List.pairwise_lt_range List.pairwise_lt_range
  have hsub : ∀ c ∈ pilotCandidates (postings O formal) (postings O pilot),
      c ∈ crossPairs (List.range formal.length) (List.range pilot.length) := by
    intro c hc
    have hc : toLex ((ofLex c).1, (ofLex c).2) ∈
      pilotCandidates (postings O formal) (postings O pilot) := hc
    obtain ⟨gram, hi, hj⟩ := mem_pilotCandidates.mp hc
    exact mem_crossPairs.mpr
      ⟨List.mem_range.mpr (mem_indices.mp hi).1, List.mem_range.mpr (mem_indices.mp hj).1⟩
  rw [pilotPairs, sort_eq_filter hall hsub, filterMap_filter_eq ?_ fun c => consider_eq _ _ _,
    crossPairs_filterMap, map_readingAt, map_readingAt]
  intro c hc hfound
  have hc : toLex ((ofLex c).1, (ofLex c).2) ∈
    crossPairs (List.range formal.length) (List.range pilot.length) := hc
  obtain ⟨hi, hj⟩ := mem_crossPairs.mp hc
  rw [List.mem_range] at hi hj
  have hleft : (readingAt formal (ofLex c).1).2 ≠ [] := by
    have := hnonempty _ (List.getElem_mem hi)
    simpa [readingAt, hi] using this
  have hne : (readingAt formal (ofLex c).1).2 ≠ (readingAt pilot (ofLex c).2).2 := by
    have := hdistinct _ (List.getElem_mem hi) _ (List.getElem_mem hj)
    simpa [readingAt, hi, hj] using this
  obtain ⟨gram, hl, hr⟩ := common_gram hleft hne hfound
  rw [decide_eq_true_eq]
  exact mem_pilotCandidates.mpr ⟨gram, mem_indices.mpr ⟨hi, hl⟩, mem_indices.mpr ⟨hj, hr⟩⟩

end

/-- The search reports what the comparison of all pairs reports, with the least
number of edits for the distance, whatever the order in which sets are run through. -/
theorem findNearDuplicatePairs_complete (U : UnicodeData) (O : SetOrder)
    (formalRows pilotRows : List Row)
    (hnonempty : ∀ row ∈ formalRows, nearText U row.reading ≠ [])
    (hdistinct : (formalRows.map fun row => nearText U row.reading).Nodup)
    (hpilot : ∀ row ∈ formalRows, ∀ pilot ∈ pilotRows,
      nearText U row.reading ≠ nearText U pilot.reading) :
    findNearDuplicatePairs U O formalRows pilotRows =
      .ok (WeakOrders.sortedBy pairLess
        (allFormalPairs (formalReadings U formalRows) ++
          allPilotPairs (formalReadings U formalRows) (pilotReadings U pilotRows))) := by
  have hformal : ∀ r ∈ formalReadings U formalRows, r.2 ≠ [] := by
    intro r hr
    obtain ⟨row, hrow, rfl⟩ := List.mem_map.mp hr
    exact hnonempty row hrow
  have hany : ¬ (formalReadings U formalRows).any (fun r => r.2 = []) = true := by
    intro h
    obtain ⟨r, hr, he⟩ := List.any_eq_true.mp h
    exact hformal r hr (of_decide_eq_true he)
  have hnodup : ((formalReadings U formalRows).map (·.2)).Nodup := by
    rw [formalReadings, List.map_map]
    exact hdistinct
  have hother : ∀ r ∈ formalReadings U formalRows, ∀ r' ∈ pilotReadings U pilotRows,
      r.2 ≠ r'.2 := by
    intro r hr r' hr'
    obtain ⟨row, hrow, rfl⟩ := List.mem_map.mp hr
    obtain ⟨pilot, hp, rfl⟩ := List.mem_map.mp hr'
    exact hpilot row hrow pilot hp
  rw [findNearDuplicatePairs, if_neg hany, formalPairs_eq hformal hnodup,
    pilotPairs_eq hformal hother]

/-- Readings that are their own normal forms. -/
def plainUnicode : UnicodeData := ⟨id, id, id, fun _ => 'L'⟩

noncomputable def listOrder : SetOrder := ⟨Finset.toList, Finset.nodup_toList, fun _ _ => Finset.mem_toList⟩

def almostEqualRows : List Row :=
  [⟨"a".toList, "あいうえおかきくけこ".toList⟩, ⟨"b".toList, "あいうえおかきくけさ".toList⟩]

/-- One edit in ten characters is reported for its distance alone. -/
theorem one_edit_is_reported : findNearDuplicatePairs plainUnicode listOrder almostEqualRows [] =
    .ok [⟨["a".toList, "b".toList], formalScope, 7777, 9000⟩] := by
  have hpairs : allFormalPairs (formalReadings plainUnicode almostEqualRows) =
      [⟨["a".toList, "b".toList], formalScope, 7777, 9000⟩] := by
    simp only [formalReadings, almostEqualRows, List.map_cons, List.map_nil, allFormalPairs,
      ← consider_eq]
    decide +kernel
  rw [findNearDuplicatePairs_complete plainUnicode listOrder almostEqualRows [] (by decide +kernel)
    (by decide +kernel) (by decide), hpairs]
  rfl

end Hazkey.FrozenCorpus
