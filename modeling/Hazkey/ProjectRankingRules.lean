import Hazkey.ProjectRanking

/-! The ranking loses no text and repeats none of those it promotes. -/

namespace Hazkey

open FirstOccurrences WeakOrders

namespace GrimodexProjectDictionaryIndex

variable {index : GrimodexProjectDictionaryIndex} {x y : IndexedEntry}

theorem mem_indexedEntries :
    x ∈ index.indexedEntries ↔ index.entries[x.order]? = some x.entry := by
  unfold indexedEntries
  rw [List.mem_map]
  constructor
  · rintro ⟨⟨entry, order⟩, hmem, rfl⟩
    exact List.mem_zipIdx_iff_getElem?.mp hmem
  · intro h
    exact ⟨(x.entry, x.order), List.mem_zipIdx_iff_getElem?.mpr h, rfl⟩

/-- Entries of one order are one. -/
theorem eq_of_order_eq (hx : x ∈ index.indexedEntries) (hy : y ∈ index.indexedEntries)
    (h : x.order = y.order) : x = y := by
  rw [mem_indexedEntries] at hx hy
  rw [h, hy] at hx
  obtain ⟨entry, order⟩ := x
  obtain ⟨entry', order'⟩ := y
  obtain rfl : order = order' := h
  obtain rfl : entry' = entry := Option.some.inj hx
  rfl

theorem indexedEntries_of_isEmpty (h : index.isEmpty = true) : index.indexedEntries = [] := by
  unfold indexedEntries
  rw [List.isEmpty_iff.mp h]
  rfl

variable [RubyText]

theorem mem_entriesForRuby {ruby : Text} : x ∈ index.entriesForRuby ruby ↔
    x ∈ index.indexedEntries ∧ sameKey x.entry.ruby ruby = true := List.mem_filter

theorem mem_of_mem_entriesForSurface {ruby word : Text}
    (h : x ∈ index.entriesForSurface ruby word) : x ∈ index.indexedEntries :=
  (List.mem_filter.mp h).1

theorem mem_of_mem_entriesMatching {data : DicdataElement} (h : x ∈ index.entriesMatching data) :
    x ∈ index.indexedEntries := by
  unfold entriesMatching at h
  by_cases hcid : data.lcid = data.rcid
  · rw [if_pos hcid] at h
    exact (List.mem_filter.mp h).1
  · rw [if_neg hcid] at h
    exact absurd h (List.not_mem_nil)

end GrimodexProjectDictionaryIndex

namespace GrimodexProjectCandidateRanker

open GrimodexProjectDictionaryIndex

section

variable {V C : Type}

/-! The order of the ranking. -/

def byRank : RankedCandidate V C → RankedCandidate V C → Bool :=
  thenBy (fun x y => decide (-x.priority < -y.priority))
    (thenBy (fun x y => decide ((if x.exactInputMatch then 0 else 1 : Int) <
        if y.exactInputMatch then 0 else 1))
      fun x y => decide ((x.stableOrder : Int) < y.stableOrder))

theorem before_eq_byRank (x y : RankedCandidate V C) : before x y = byRank x y := by
  unfold before byRank thenBy
  by_cases hp : x.priority = y.priority
  · rw [if_neg (not_not.mpr hp)]
    cases hx : x.exactInputMatch <;> cases hy : y.exactInputMatch <;> simp [hp, hx, hy]
  · rw [if_pos hp]
    by_cases hlt : y.priority < x.priority
    · simp [hlt]
    · have hgt : x.priority < y.priority := by omega
      simp [hlt, hgt]

theorem weak_before (p : RankedCandidate V C → Prop) : Weak p before := by
  have heq : before = byRank (V := V) (C := C) := by
    funext x y
    exact before_eq_byRank x y
  rw [heq]
  exact (weak_of_rank p _).thenBy ((weak_of_rank p _).thenBy (weak_of_rank p _))

theorem before_total {x y : RankedCandidate V C} (h : x.stableOrder ≠ y.stableOrder)
    (hyx : before y x = false) : before x y = true := by
  rw [before_eq_byRank] at hyx ⊢
  by_contra hxy
  obtain ⟨-, hrest⟩ := thenBy_eq_false.mp (Bool.eq_false_iff.mpr hxy)
  obtain ⟨hp, hrest'⟩ := thenBy_eq_false.mp hyx
  obtain ⟨-, hstable⟩ := thenBy_eq_false.mp (hrest hp)
  obtain ⟨he, hstable'⟩ := thenBy_eq_false.mp
    (hrest' (thenBy_eq_false.mp (Bool.eq_false_iff.mpr hxy)).1)
  have h1 := hstable he
  have h2 := hstable' (thenBy_eq_false.mp (hrest hp)).1
  rw [decide_eq_false_iff_not] at h1 h2
  omega

/-! What the converter gives, and what is restored. -/

theorem highest_eq_none {l : List Int} : highest l = none ↔ l = [] := by
  cases l <;> simp [highest]

theorem zipIdx_pairwise {α : Type} (l : List α) (n : Nat) :
    (l.zipIdx n).Pairwise fun x y => x.2 < y.2 := by
  induction l generalizing n with
  | nil => exact List.Pairwise.nil
  | cons x l ih =>
    rw [List.zipIdx_cons]
    refine List.pairwise_cons.mpr ⟨fun y hy => ?_, ih (n + 1)⟩
    have := List.le_snd_of_mem_zipIdx hy
    exact this

variable [RubyText] {converter : ConverterModule V C} {index : GrimodexProjectDictionaryIndex}
  {inputRuby : Text} {candidate : Candidate V C} {candidates : List (Candidate V C)}
  {indexed : IndexedEntry} {elementCount : Int} {item : RankedCandidate V C}

theorem mem_indexedEntries_of_matching
    (h : indexed ∈ matchingEntries index inputRuby candidate) : indexed ∈ index.indexedEntries := by
  rcases List.mem_append.mp (mem_firsts h) with h | h
  · exact mem_of_mem_entriesForSurface h
  · obtain ⟨data, -, h⟩ := List.mem_flatMap.mp h
    exact mem_of_mem_entriesMatching h

theorem rankedCandidate_eq_none {position : Nat} :
    rankedCandidate converter index inputRuby candidate position = none ↔
      matchingEntries index inputRuby candidate = [] := by
  unfold rankedCandidate
  rw [Option.map_eq_none_iff, highest_eq_none, List.map_eq_nil_iff]

/-- A promoted candidate shows what it showed, at the place it had. -/
theorem rankedCandidate_some {position : Nat}
    (h : rankedCandidate converter index inputRuby candidate position = some item) :
    item.candidate.text = candidate.text ∧ item.stableOrder = position := by
  unfold rankedCandidate at h
  obtain ⟨priority, -, rfl⟩ := Option.map_eq_some_iff.mp h
  refine ⟨?_, rfl⟩
  show (promoted converter candidate _).text = candidate.text
  cases earliest (exactMatches index inputRuby candidate priority) <;> rfl

theorem mem_rankedInput : item ∈ rankedInput converter index inputRuby candidates ↔
    ∃ candidate position, candidates[position]? = some candidate ∧
      rankedCandidate converter index inputRuby candidate position = some item := by
  unfold rankedInput
  rw [List.mem_filterMap]
  constructor
  · rintro ⟨⟨candidate, position⟩, hmem, h⟩
    exact ⟨candidate, position, List.mem_zipIdx_iff_getElem?.mp hmem, h⟩
  · rintro ⟨candidate, position, hmem, h⟩
    exact ⟨(candidate, position), List.mem_zipIdx_iff_getElem?.mpr hmem, h⟩

theorem exists_rankedInput (converter : ConverterModule V C) (h : candidate ∈ candidates)
    (hmatching : matchingEntries index inputRuby candidate ≠ []) :
    ∃ item ∈ rankedInput converter index inputRuby candidates,
      item.candidate.text = candidate.text := by
  obtain ⟨position, hposition⟩ := List.mem_iff_getElem?.mp h
  cases hitem : rankedCandidate converter index inputRuby candidate position with
  | none => exact absurd (rankedCandidate_eq_none.mp hitem) hmatching
  | some item =>
    exact ⟨item, mem_rankedInput.mpr ⟨candidate, position, hposition, hitem⟩,
      (rankedCandidate_some hitem).1⟩

/-- An entry whose order a candidate represents is matched by it exactly. -/
theorem matched_of_represented (hindexed : indexed ∈ index.indexedEntries)
    (h : indexed.order ∈ representedOrders index inputRuby candidate) :
    matchingEntries index inputRuby candidate ≠ [] ∧
      (sameKey indexed.entry.word candidate.text = true ∨
        isNodeOf candidate indexed.entry = true) := by
  unfold representedOrders at h
  cases hp : highest ((matchingEntries index inputRuby candidate).map (·.entry.priority)) with
  | none =>
    rw [hp] at h
    exact absurd h (List.not_mem_nil)
  | some priority =>
    rw [hp] at h
    obtain ⟨other, hother, horder⟩ := List.mem_map.mp h
    obtain ⟨hmatching, hexact⟩ := List.mem_filter.mp hother
    obtain rfl := eq_of_order_eq (mem_indexedEntries_of_matching hmatching) hindexed horder
    exact ⟨List.ne_nil_of_mem hmatching,
      Bool.or_eq_true_iff.mp (Bool.and_eq_true_iff.mp hexact).2⟩

/-! The ranking as a list. -/


theorem rankedInput_pairwise :
    (rankedInput converter index inputRuby candidates).Pairwise fun x y =>
      x.stableOrder < y.stableOrder := by
  apply List.Pairwise.filterMap _ _ (zipIdx_pairwise candidates 0)
  rintro ⟨c, position⟩ ⟨c', position'⟩ hlt x hx y hy
  rw [(rankedCandidate_some hx).2, (rankedCandidate_some hy).2]
  exact hlt

theorem rankedEntries_pairwise :
    (rankedEntries converter index inputRuby candidates elementCount).Pairwise fun x y =>
      x.stableOrder < y.stableOrder := by
  have horders : index.indexedEntries.Pairwise fun x y => x.order < y.order :=
    List.pairwise_map.mpr (zipIdx_pairwise index.entries 0)
  apply List.pairwise_map.mpr
  apply ((horders.filter _).filter _).imp
  intro x y hlt
  show candidates.length + x.order < candidates.length + y.order
  omega

/-- All that is ranked is at a place of its own. -/
theorem ranked_pairwise :
    (rankedInput converter index inputRuby candidates ++
      rankedEntries converter index inputRuby candidates elementCount).Pairwise fun x y =>
        x.stableOrder < y.stableOrder := by
  refine List.pairwise_append.mpr ⟨rankedInput_pairwise, rankedEntries_pairwise, ?_⟩
  intro x hx y hy
  obtain ⟨candidate, position, hposition, hrank⟩ := mem_rankedInput.mp hx
  obtain ⟨indexed, -, rfl⟩ := List.mem_map.mp hy
  rw [(rankedCandidate_some hrank).2]
  have := (List.getElem?_eq_some_iff.mp hposition).1
  show position < candidates.length + indexed.order
  omega

theorem mem_promotions (h : item ∈ promotions converter index inputRuby candidates elementCount) :
    item ∈ rankedInput converter index inputRuby candidates ∨
      item ∈ rankedEntries converter index inputRuby candidates elementCount :=
  List.mem_append.mp ((sortedBy_perm before _).mem_iff.mp (mem_firsts h))

/-- Of what is ranked the text is promoted. -/
theorem promotions_cover (elementCount : Int)
    (h : item ∈ rankedInput converter index inputRuby candidates ∨
      item ∈ rankedEntries converter index inputRuby candidates elementCount) :
    ∃ other ∈ promotions converter index inputRuby candidates elementCount,
      sameKey other.candidate.text item.candidate.text = true := by
  have hmem := (sortedBy_perm before _).mem_iff.mpr (List.mem_append.mpr h)
  have hcovers : ∃ other ∈ promotions converter index inputRuby candidates elementCount,
      CanonicalText.precomposed other.candidate.text =
        CanonicalText.precomposed item.candidate.text := firsts_covers hmem (List.not_mem_nil)
  obtain ⟨other, hother, hkey⟩ := hcovers
  exact ⟨other, hother, decide_eq_true hkey⟩

/-- By priority, then exactness, then the place. -/
theorem promotions_ordered :
    (promotions converter index inputRuby candidates elementCount).Pairwise fun x y =>
      before x y = true := by
  apply List.Pairwise.sublist firsts_sublist
  have hsorted := sortedBy_ordered (weak_before (· ∈ rankedInput converter index inputRuby
    candidates ++ rankedEntries converter index inputRuby candidates elementCount)).strictWeak
  have hplaces : (sortedBy before (rankedInput converter index inputRuby candidates ++
      rankedEntries converter index inputRuby candidates elementCount)).Pairwise fun x y =>
        x.stableOrder ≠ y.stableOrder :=
    ((sortedBy_perm before _).symm.pairwise_iff fun h => Ne.symm h).mp
      (ranked_pairwise.imp fun h => Nat.ne_of_lt h)
  exact hplaces.imp₂ (fun x y hne hyx => before_total hne hyx) hsorted


/-- A text stands for an entry: it is its word, what its word expands to, or that of a
candidate which is its node. -/
def Represents (converter : ConverterModule V C) (candidates : List (Candidate V C))
    (elementCount : Int) (indexed : IndexedEntry) (text : Text) : Prop :=
  sameKey text indexed.entry.word = true ∨
    sameKey text (restored converter candidates.length elementCount indexed).candidate.text = true ∨
    ∃ candidate ∈ candidates, isNodeOf candidate indexed.entry = true ∧
      sameKey text candidate.text = true

/-- What is promoted, and the rest. -/
structure Ranking (converter : ConverterModule V C) (index : GrimodexProjectDictionaryIndex)
    (inputRuby : Text) (candidates : List (Candidate V C)) (elementCount : Int)
    (first : List (RankedCandidate V C)) (rest : List (Candidate V C)) : Prop where
  origin : ∀ item ∈ first, (∃ candidate position, candidates[position]? = some candidate ∧
    rankedCandidate converter index inputRuby candidate position = some item) ∨
      ∃ indexed ∈ index.entriesForRuby inputRuby,
        item = restored converter candidates.length elementCount indexed
  ordered : first.Pairwise fun x y => before x y = true
  sublist : rest.Sublist candidates
  notPromoted : ∀ candidate ∈ rest, matchingEntries index inputRuby candidate = []
  promoted : ∀ candidate ∈ candidates, matchingEntries index inputRuby candidate ≠ [] →
    ∃ item ∈ first, sameKey item.candidate.text candidate.text = true
  kept : ∀ candidate ∈ candidates, matchingEntries index inputRuby candidate = [] →
    candidate ∈ rest ∨ ∃ item ∈ first, sameKey item.candidate.text candidate.text = true
  represented : ∀ indexed ∈ index.entriesForRuby inputRuby,
    ∃ item ∈ first, Represents converter candidates elementCount indexed item.candidate.text
  distinct : (first.map fun item => CanonicalText.precomposed item.candidate.text).Nodup
  apart : ∀ item ∈ first, ∀ candidate ∈ rest,
    sameKey item.candidate.text candidate.text = false

/-- An entry of the reading is represented by a candidate, or it is restored. -/
theorem promotions_represent (h : indexed ∈ index.entriesForRuby inputRuby) :
    ∃ item ∈ promotions converter index inputRuby candidates elementCount,
      Represents converter candidates elementCount indexed item.candidate.text := by
  by_cases hrep : indexed.order ∈ candidates.flatMap (representedOrders index inputRuby)
  · obtain ⟨candidate, hcandidate, horder⟩ := List.mem_flatMap.mp hrep
    obtain ⟨hmatching, hexact⟩ := matched_of_represented (mem_entriesForRuby.mp h).1 horder
    obtain ⟨item, hitem, htext⟩ := exists_rankedInput converter hcandidate hmatching
    obtain ⟨other, hother, hsame⟩ := promotions_cover elementCount (Or.inl hitem)
    rw [htext] at hsame
    refine ⟨other, hother, ?_⟩
    rcases hexact with hword | hnode
    · exact Or.inl (sameKey_trans hsame (sameKey_symm hword))
    · exact Or.inr (Or.inr ⟨candidate, hcandidate, hnode, hsame⟩)
  · have hitem : restored converter candidates.length elementCount indexed ∈
        rankedEntries converter index inputRuby candidates elementCount :=
      List.mem_map_of_mem (List.mem_filter.mpr ⟨h, by simpa using hrep⟩)
    obtain ⟨other, hother, hsame⟩ := promotions_cover elementCount (Or.inr hitem)
    exact ⟨other, hother, Or.inr (Or.inl hsame)⟩

theorem ranking (converter : ConverterModule V C) (index : GrimodexProjectDictionaryIndex)
    (inputRuby : Text) (candidates : List (Candidate V C)) (elementCount : Int) :
    Ranking converter index inputRuby candidates elementCount
      (promotions converter index inputRuby candidates elementCount)
      (others index inputRuby candidates
        ((promotions converter index inputRuby candidates elementCount).map fun item =>
          CanonicalText.precomposed item.candidate.text)) where
  origin item hitem := by
    rcases mem_promotions hitem with h | h
    · exact Or.inl (mem_rankedInput.mp h)
    · obtain ⟨indexed, hindexed, rfl⟩ := List.mem_map.mp h
      exact Or.inr ⟨indexed, (List.mem_filter.mp hindexed).1, rfl⟩
  ordered := promotions_ordered
  sublist := List.filter_sublist
  notPromoted candidate h := by
    have hkept := (Bool.and_eq_true_iff.mp (List.mem_filter.mp h).2).1
    exact List.isEmpty_iff.mp hkept
  promoted candidate h hmatching := by
    obtain ⟨item, hitem, htext⟩ := exists_rankedInput converter h hmatching
    obtain ⟨other, hother, hsame⟩ := promotions_cover elementCount (Or.inl hitem)
    rw [htext] at hsame
    exact ⟨other, hother, hsame⟩
  kept candidate h hmatching := by
    by_cases hpromoted : CanonicalText.precomposed candidate.text ∈
        (promotions converter index inputRuby candidates elementCount).map fun item =>
          CanonicalText.precomposed item.candidate.text
    · obtain ⟨item, hitem, hkey⟩ := List.mem_map.mp hpromoted
      exact Or.inr ⟨item, hitem, decide_eq_true hkey⟩
    · exact Or.inl (List.mem_filter.mpr ⟨h, by simpa [hmatching] using hpromoted⟩)
  represented indexed h := promotions_represent h
  distinct := firsts_keys_nodup
  apart item hitem candidate h := by
    have hkept := (Bool.and_eq_true_iff.mp (List.mem_filter.mp h).2).2
    apply decide_eq_false
    intro heq
    have hmem : CanonicalText.precomposed candidate.text ∈
        (promotions converter index inputRuby candidates elementCount).map fun item =>
          CanonicalText.precomposed item.candidate.text :=
      List.mem_map.mpr ⟨item, hitem, heq⟩
    rw [List.contains_iff_mem.mpr hmem] at hkept
    exact Bool.false_ne_true hkept

/-- Without a dictionary nothing matches. -/
theorem matchingEntries_of_isEmpty (h : index.isEmpty = true) :
    matchingEntries index inputRuby candidate = [] := by
  apply List.eq_nil_iff_forall_not_mem.mpr
  intro indexed hindexed
  have := mem_indexedEntries_of_matching hindexed
  rw [indexedEntries_of_isEmpty h] at this
  exact absurd this (List.not_mem_nil)

theorem ranking_of_isEmpty (h : index.isEmpty = true) :
    Ranking converter index inputRuby candidates elementCount [] candidates where
  origin _ hitem := absurd hitem (List.not_mem_nil)
  ordered := List.Pairwise.nil
  sublist := List.Sublist.refl candidates
  notPromoted _ _ := matchingEntries_of_isEmpty h
  promoted _ _ hmatching := absurd (matchingEntries_of_isEmpty h) hmatching
  kept _ hcandidate _ := Or.inl hcandidate
  represented indexed hindexed := by
    have := (mem_entriesForRuby.mp hindexed).1
    rw [indexedEntries_of_isEmpty h] at this
    exact absurd this (List.not_mem_nil)
  distinct := List.nodup_nil
  apart _ hitem := absurd hitem (List.not_mem_nil)

end

end GrimodexProjectCandidateRanker

end Hazkey
