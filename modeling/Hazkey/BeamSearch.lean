import Hazkey.BeamOrder

/-! The beam keeps the first sentences of all, whatever its width. -/

namespace Hazkey

namespace MozcSidecarB1

open WeakOrders Pruning

variable {segment : Segment} {segments : List Segment} {layers : List (List BeamLink)}
  {link link' : BeamLink} {k index : Nat}

/-- The candidates of a segment in their order. -/
def rankedChoices (segment : Segment) : List Nat :=
  sortedBy (choiceLess segment) (List.range segment.length)

/-- All paths in their order. -/
def rankedPaths (segments : List Segment) : List (List Nat) :=
  sortedBy (pathLess segments) (allPaths segments)

theorem rankedChoices_increasing (segment : Segment) :
    Increasing (choiceLess segment) (rankedChoices segment) :=
  (choiceLess_strictTotal segment _).sortedBy_increasing List.nodup_range

theorem mem_rankedChoices : index ∈ rankedChoices segment ↔ index < segment.length := by
  rw [rankedChoices, (sortedBy_perm _ _).mem_iff, List.mem_range]

theorem rankedPaths_increasing (segments : List Segment) :
    Increasing (pathLess segments) (rankedPaths segments) :=
  (pathLess_strictTotal segments).sortedBy_increasing (allPaths_nodup segments)

theorem mem_rankedPaths {path : List Nat} : path ∈ rankedPaths segments ↔ path ∈ allPaths segments :=
  (sortedBy_perm _ _).mem_iff

/-- A stable sort breaks ties by the position. -/
theorem candidateOrder_eq (segment : Segment) (beamWidth : Nat) :
    candidateOrder segment beamWidth = (rankedChoices segment).take beamWidth := by
  rw [candidateOrder, rankedChoices, sortedBy_congr]
  refine List.pairwise_lt_range.imp fun {x y} hxy => ?_
  simp [choiceLess, Nat.lt_asymm hxy]

/-- The path of a link, if its layer is the next one. -/
def linkPath (layers : List (List BeamLink)) (link : BeamLink) : List Nat :=
  link.candidateIndex :: walk layers link.previousIndex

/-- The links of the last layer are the first paths through the segments, and know the sums of
their ranks. -/
structure Represents (k : Nat) (segments : List Segment) (layers : List (List BeamLink)) :
    Prop where
  paths : (List.range (previousCount layers)).map (walk layers) = (rankedPaths segments).take k
  sums : ∀ i < previousCount layers,
    previousRankSum layers i = rankSum segments (walk layers i)
  populated : 1 ≤ previousCount layers
  depth : layers.length = segments.length

theorem Represents.start (hk : 1 ≤ k) : Represents k [] [] where
  paths := by
    obtain ⟨k, rfl⟩ := Nat.exists_eq_add_of_le' hk
    have hsingle : rankedPaths [] = [[]] := List.perm_singleton.mp (sortedBy_perm _ _)
    rw [hsingle, List.take_succ_cons, List.take_nil]
    rfl
  sums _ _ := rfl
  populated := le_rfl
  depth := rfl

theorem Represents.walk_eq (h : Represents k segments layers) {i : Nat}
    (hi : i < previousCount layers) :
    ((rankedPaths segments).take k)[i]? = some (walk layers i) := by
  rw [← h.paths, List.getElem?_map, List.getElem?_range hi]
  rfl

/-- Links of the last layer are in the order of their paths. -/
theorem Represents.walk_less (h : Represents k segments layers) {i j : Nat} (hij : i < j)
    (hj : j < previousCount layers) :
    pathLess segments (walk layers i) (walk layers j) = true := by
  have hincreasing : Increasing (pathLess segments) ((rankedPaths segments).take k) :=
    (rankedPaths_increasing segments).sublist (List.take_sublist k _)
  obtain ⟨hi', hi⟩ := List.getElem?_eq_some_iff.mp (h.walk_eq (hij.trans hj))
  obtain ⟨hj', hj⟩ := List.getElem?_eq_some_iff.mp (h.walk_eq hj)
  rw [← hi, ← hj]
  exact List.pairwise_iff_getElem.mp hincreasing i j hi' hj' hij

/-- The pairs that are expanded. -/
def pairs (layers : List (List BeamLink)) (segment : Segment) (beamWidth : Nat) :
    List (Nat × Nat) :=
  (List.range (previousCount layers)).flatMap fun previousIndex =>
    (candidateOrder segment beamWidth).map fun candidateIndex => (previousIndex, candidateIndex)

theorem mem_pairs {x : Nat × Nat} : x ∈ pairs layers segment k ↔
    x.1 < previousCount layers ∧ x.2 ∈ (rankedChoices segment).take k := by
  rw [pairs, candidateOrder_eq]
  simp only [List.mem_flatMap, List.mem_range, List.mem_map]
  constructor
  · rintro ⟨i, hi, c, hc, rfl⟩
    exact ⟨hi, hc⟩
  · rintro ⟨hi, hc⟩
    exact ⟨x.1, hi, x.2, hc, rfl⟩

/-- The pairs come in the order of their parts. -/
theorem pairs_ordered (layers : List (List BeamLink)) (segment : Segment) (k : Nat) :
    (pairs layers segment k).Pairwise fun x y =>
      x.1 < y.1 ∨ x.1 = y.1 ∧ choiceLess segment x.2 y.2 = true := by
  rw [pairs, candidateOrder_eq, List.pairwise_flatMap]
  constructor
  · intro i _
    refine List.pairwise_map.mpr (List.Pairwise.imp (fun hless => .inr ⟨rfl, hless⟩) ?_)
    exact (rankedChoices_increasing segment).sublist (List.take_sublist k _)
  · refine List.pairwise_lt_range.imp fun {i j} hij x hx y hy => ?_
    obtain ⟨c, -, rfl⟩ := List.mem_map.mp hx
    obtain ⟨d, -, rfl⟩ := List.mem_map.mp hy
    exact .inl hij

theorem mem_expanded : link ∈ expanded layers segment k ↔
    (pairs layers segment k)[link.stableOrder]? = some (link.previousIndex, link.candidateIndex) ∧
      link.rankSum = previousRankSum layers link.previousIndex +
        (candidateAt segment link.candidateIndex).originalIndex := by
  rw [expanded, List.mem_map]
  constructor
  · rintro ⟨⟨⟨i, c⟩, n⟩, hmem, rfl⟩
    exact ⟨List.mem_zipIdx_iff_getElem?.mp hmem, rfl⟩
  · rintro ⟨hget, hsum⟩
    refine ⟨((link.previousIndex, link.candidateIndex), link.stableOrder),
      List.mem_zipIdx_iff_getElem?.mpr hget, ?_⟩
    rw [← hsum]

theorem expanded_nodup : (expanded layers segment k).Nodup := by
  have hplaces : ((expanded layers segment k).map (·.stableOrder)).Nodup := by
    rw [expanded, List.map_map]
    exact (List.zipIdx_map_snd 0 (pairs layers segment k)).symm ▸ List.nodup_range'
  exact hplaces.of_map _

theorem linkLess_iff : linkLess link link' = true ↔ link.rankSum < link'.rankSum ∨
    link.rankSum = link'.rankSum ∧ link.stableOrder < link'.stableOrder := by
  rw [linkLess]
  by_cases h : link.rankSum = link'.rankSum
  · simp [h]
  · simp [h]

theorem linkLess_strictTotal : StrictTotal linkLess (expanded layers segment k) where
  irrefl link := by
    by_contra h
    have hless := linkLess_iff.mp (Bool.of_not_eq_false h)
    omega
  trans x y z hxy hyz := by
    rw [linkLess_iff] at hxy hyz ⊢
    omega
  total x hx y hy hne := by
    rw [linkLess_iff, linkLess_iff]
    have hplace : x.stableOrder ≠ y.stableOrder := by
      intro heq
      obtain ⟨hget, hsum⟩ := mem_expanded.mp hx
      obtain ⟨hget', hsum'⟩ := mem_expanded.mp hy
      rw [heq, hget'] at hget
      obtain ⟨hprev, hcand⟩ := Prod.mk.inj (Option.some.inj hget)
      refine hne ?_
      cases x
      cases y
      simp_all
    omega

theorem Represents.rankSum_linkPath (h : Represents k segments layers)
    (hlink : link ∈ expanded layers segment k) :
    link.rankSum = rankSum (segment :: segments) (linkPath layers link) := by
  obtain ⟨hget, hsum⟩ := mem_expanded.mp hlink
  have hprev := (mem_pairs.mp (List.mem_of_getElem? hget)).1
  rw [hsum, h.sums _ hprev]
  rfl

/-- The order of links is that of their paths. -/
theorem Represents.linkPath_less (h : Represents k segments layers)
    (hlink : link ∈ expanded layers segment k) (hlink' : link' ∈ expanded layers segment k)
    (hless : linkLess link link' = true) :
    pathLess (segment :: segments) (linkPath layers link) (linkPath layers link') = true := by
  have hsum := h.rankSum_linkPath hlink
  have hsum' := h.rankSum_linkPath hlink'
  rw [linkLess_iff, hsum, hsum'] at hless
  refine pathLess_cons.mpr (hless.imp_right fun ⟨heq, hplace⟩ => ⟨heq, ?_⟩)
  obtain ⟨hget, -⟩ := mem_expanded.mp hlink
  obtain ⟨hget', -⟩ := mem_expanded.mp hlink'
  obtain ⟨hn, hx⟩ := List.getElem?_eq_some_iff.mp hget
  obtain ⟨hn', hx'⟩ := List.getElem?_eq_some_iff.mp hget'
  have hordered := List.pairwise_iff_getElem.mp (pairs_ordered layers segment k) _ _ hn hn' hplace
  rw [hx, hx'] at hordered
  rcases hordered with hprev | ⟨hprev, hchoice⟩
  · have hpath := h.walk_less hprev (mem_pairs.mp (List.mem_of_getElem? hget')).1
    refine .inl ⟨fun heq => ?_, hpath⟩
    rw [heq, pathLess_irrefl] at hpath
    cases hpath
  · dsimp only at hprev hchoice
    exact .inr ⟨by rw [hprev], hchoice⟩

/-- What is expanded is every pair of a kept path and a kept candidate. -/
theorem Represents.mem_linkPaths (h : Represents k segments layers) (path : List Nat) :
    path ∈ (expanded layers segment k).map (linkPath layers) ↔
      ∃ earlier ∈ (rankedPaths segments).take k, ∃ index ∈ (rankedChoices segment).take k,
        path = index :: earlier := by
  rw [List.mem_map]
  constructor
  · rintro ⟨link, hlink, rfl⟩
    obtain ⟨hget, -⟩ := mem_expanded.mp hlink
    obtain ⟨hprev, hcand⟩ := mem_pairs.mp (List.mem_of_getElem? hget)
    exact ⟨_, List.mem_of_getElem? (h.walk_eq hprev), _, hcand, rfl⟩
  · rintro ⟨earlier, hearlier, index, hindex, rfl⟩
    rw [← h.paths] at hearlier
    obtain ⟨i, hi, rfl⟩ := List.mem_map.mp hearlier
    rw [List.mem_range] at hi
    have hmem : (i, index) ∈ pairs layers segment k := mem_pairs.mpr ⟨hi, hindex⟩
    obtain ⟨n, hn⟩ := List.mem_iff_getElem?.mp hmem
    exact ⟨⟨previousRankSum layers i + (candidateAt segment index).originalIndex, i, index, n⟩,
      mem_expanded.mpr ⟨hn, rfl⟩, rfl⟩

/-- The layer of the first links, as paths. -/
theorem Represents.layer_paths (h : Represents k segments layers) (hk : 1 ≤ k) :
    ((sortedBy linkLess (expanded layers segment k)).take k).map (linkPath layers) =
      (rankedPaths (segment :: segments)).take k := by
  have hperm := sortedBy_perm linkLess (expanded layers segment k)
  have hsorted : Increasing (pathLess (segment :: segments))
      ((sortedBy linkLess (expanded layers segment k)).map (linkPath layers)) := by
    refine List.pairwise_map.mpr (List.Pairwise.imp_of_mem ?_
      (linkLess_strictTotal.sortedBy_increasing expanded_nodup))
    intro x y hx hy hless
    exact h.linkPath_less (hperm.mem_iff.mp hx) (hperm.mem_iff.mp hy) hless
  rw [List.map_take]
  refine ((pathLess_extends segment segments).take_eq (rankedPaths_increasing segments)
    ((pathLess_strictTotal segments).mono fun _ => mem_rankedPaths.mp)
    (rankedChoices_increasing segment) (choiceLess_strictTotal segment _) hk
    (rankedPaths_increasing (segment :: segments)) hsorted
    ((pathLess_strictTotal _).mono fun _ => mem_rankedPaths.mp) ?_ ?_).symm
  · intro path
    simp only [mem_rankedPaths, mem_allPaths_cons, mem_rankedChoices, List.mem_range]
  · intro path
    rw [(hperm.map _).mem_iff]
    exact h.mem_linkPaths path

theorem Represents.expanded_ne_nil (h : Represents k segments layers) (hk : 1 ≤ k)
    (hne : segment ≠ []) : expanded layers segment k ≠ [] := by
  have hfirst : rankedChoices segment ≠ [] := by
    have hmem : 0 ∈ rankedChoices segment :=
      mem_rankedChoices.mpr (List.length_pos_of_ne_nil hne)
    exact List.ne_nil_of_mem hmem
  obtain ⟨index, rest, hcons⟩ := List.exists_cons_of_ne_nil hfirst
  have hindex : index ∈ (rankedChoices segment).take k := by
    rw [hcons, List.take_cons (by omega)]
    exact List.mem_cons_self
  have hmem : (0, index) ∈ pairs layers segment k := mem_pairs.mpr ⟨h.populated, hindex⟩
  obtain ⟨n, hn⟩ := List.mem_iff_getElem?.mp hmem
  intro hnil
  have hlink : (⟨previousRankSum layers 0 + (candidateAt segment index).originalIndex, 0, index,
      n⟩ : BeamLink) ∈ expanded layers segment k := mem_expanded.mpr ⟨hn, rfl⟩
  rw [hnil] at hlink
  cases hlink

/-- A layer more, for a segment more. -/
theorem Represents.layer (h : Represents k segments layers) (hk : 1 ≤ k) (hne : segment ≠ []) :
    Represents k (segment :: segments)
      ((sortedBy linkLess (expanded layers segment k)).take k :: layers) where
  paths := by
    rw [← h.layer_paths hk]
    refine List.ext_getElem? fun i => ?_
    rw [List.getElem?_map, List.getElem?_map, previousCount]
    by_cases hi : i < ((sortedBy linkLess (expanded layers segment k)).take k).length
    · rw [List.getElem?_range hi, Option.map_some, walk, List.getElem?_eq_getElem hi]
      rfl
    · rw [List.getElem?_eq_none (by rw [List.length_range]; omega),
        List.getElem?_eq_none (Nat.le_of_not_lt hi)]
      rfl
  sums i hi := by
    rw [previousCount] at hi
    have hmem := List.mem_of_mem_take (List.getElem_mem hi)
    rw [(sortedBy_perm _ _).mem_iff] at hmem
    rw [previousRankSum, walk, List.getElem?_eq_getElem hi]
    exact h.rankSum_linkPath hmem
  populated := by
    have hlen := List.length_pos_of_ne_nil (h.expanded_ne_nil hk hne)
    rw [previousCount, List.length_take, (sortedBy_perm _ _).length_eq]
    omega
  depth := by rw [List.length_cons, List.length_cons, h.depth]

/-- The layers stand for all segments, unless one of them is empty. -/
theorem Represents.buildLayers (h : Represents k segments layers) (hk : 1 ≤ k)
    (rest : List Segment) :
    (buildLayers k rest layers = none ∧ [] ∈ rest) ∨
      ∃ layers', buildLayers k rest layers = some layers' ∧
        Represents k (rest.reverse ++ segments) layers' := by
  induction rest generalizing segments layers with
  | nil => exact .inr ⟨layers, rfl, h⟩
  | cons segment rest ih =>
    rw [MozcSidecarB1.buildLayers]
    by_cases hnil : segment = []
    · exact .inl ⟨if_pos hnil, by simp [hnil]⟩
    · rw [if_neg hnil, if_neg (h.expanded_ne_nil hk hnil)]
      rcases ih (h.layer hk hnil) with ⟨hnone, hmem⟩ | ⟨layers', hsome, hlayers⟩
      · exact .inl ⟨hnone, List.mem_cons_of_mem _ hmem⟩
      · refine .inr ⟨layers', hsome, ?_⟩
        rwa [List.reverse_cons, List.append_assoc]

theorem allPaths_of_mem_nil (h : [] ∈ segments) : allPaths segments = [] := by
  induction segments with
  | nil => cases h
  | cons segment segments ih =>
    rw [allPaths]
    rcases List.mem_cons.mp h with hnil | hmem
    · rw [← hnil]
      simp
    · rw [ih hmem]
      rfl

/-- All sentences in their order: by the sum of the original ranks, by the prefix, and by the
rank, the value and the position of the last candidate. -/
def rankedSentences (segments : List Segment) : List Data :=
  (rankedPaths segments.reverse).map (sentence segments)

theorem buildNaturalSentenceAlternatives_eq (hne : segments ≠ []) (hk : 1 ≤ k) :
    buildNaturalSentenceAlternatives segments k = (rankedSentences segments).take k := by
  rw [buildNaturalSentenceAlternatives, if_neg (by simp [hne]; omega), rankedSentences,
    ← List.map_take]
  rcases (Represents.start hk).buildLayers hk segments with ⟨hnone, hmem⟩ | ⟨layers, hsome, h⟩
  · have hall : rankedPaths segments.reverse = [] := by
      have hnil := allPaths_of_mem_nil (List.mem_reverse.mpr hmem)
      rw [rankedPaths, hnil]
      exact List.perm_nil.mp (sortedBy_perm _ _)
    rw [hnone, hall, List.take_nil]
    rfl
  · rw [List.append_nil] at h
    cases layers with
    | nil =>
      have hlen := h.depth
      rw [List.length_nil, List.length_reverse] at hlen
      exact absurd (List.length_eq_zero_iff.mp hlen.symm) hne
    | cons layer layers =>
      rw [hsome, ← h.paths, List.map_map]
      rfl

/-- The order of sentences decides between any two choices, and there is one sentence for each
choice of a candidate in every segment. -/
theorem rankedPaths_exact (segments : List Segment) :
    Increasing (pathLess segments) (rankedPaths segments) ∧
      ∀ path, path ∈ rankedPaths segments ↔ List.Forall₂
        (fun index (segment : Segment) => index < segment.length) path segments := by
  refine ⟨rankedPaths_increasing segments, fun path => ?_⟩
  rw [mem_rankedPaths]
  induction segments generalizing path with
  | nil => simp [allPaths]
  | cons segment segments ih =>
    rw [mem_allPaths_cons, List.forall₂_cons_right_iff]
    constructor
    · rintro ⟨earlier, hearlier, index, hindex, rfl⟩
      exact ⟨index, earlier, List.mem_range.mp hindex, (ih earlier).mp hearlier, rfl⟩
    · rintro ⟨index, earlier, hindex, hearlier, rfl⟩
      exact ⟨earlier, (ih earlier).mpr hearlier, index, List.mem_range.mpr hindex, rfl⟩

/-- The beam of any width is exact, and a wider one goes on where it stops. Without segments
there is no alternative. -/
theorem buildNaturalSentenceAlternatives_exact (segments : List Segment) (k : Nat) (hk : 1 ≤ k) :
    (segments ≠ [] →
      buildNaturalSentenceAlternatives segments k = (rankedSentences segments).take k) ∧
    (segments = [] → buildNaturalSentenceAlternatives segments k = []) ∧
    (∀ width, k ≤ width → buildNaturalSentenceAlternatives segments k <+:
      buildNaturalSentenceAlternatives segments width) ∧
    Increasing (pathLess segments.reverse) (rankedPaths segments.reverse) ∧
    ∀ path, path ∈ rankedPaths segments.reverse ↔ List.Forall₂
      (fun index (segment : Segment) => index < segment.length) path segments.reverse := by
  have hnil : ∀ width, segments = [] → buildNaturalSentenceAlternatives segments width = [] :=
    fun width h => if_pos (.inl h)
  refine ⟨fun hne => buildNaturalSentenceAlternatives_eq hne hk, hnil k, fun width hle => ?_,
    rankedPaths_exact segments.reverse⟩
  by_cases hne : segments = []
  · rw [hnil k hne]
    exact List.nil_prefix
  · rw [buildNaturalSentenceAlternatives_eq hne hk,
      buildNaturalSentenceAlternatives_eq hne (hk.trans hle)]
    exact List.take_prefix_take_left hle

def lettersInTwoCases : List Segment :=
  [[⟨[0x41], 0⟩, ⟨[0x61], 1⟩], [⟨[0x42], 0⟩, ⟨[0x62], 1⟩]]

theorem letters_alternatives :
    buildNaturalSentenceAlternatives lettersInTwoCases 3 =
        [[0x41, 0x42], [0x41, 0x62], [0x61, 0x42]] ∧
      buildNaturalSentenceAlternatives lettersInTwoCases 3 =
        (rankedSentences lettersInTwoCases).take 3 ∧
      buildNaturalSentenceAlternatives lettersInTwoCases 3 <+:
        buildNaturalSentenceAlternatives lettersInTwoCases 4 := by
  obtain ⟨hexact, -, hprefix, -⟩ :=
    buildNaturalSentenceAlternatives_exact lettersInTwoCases 3 (by decide)
  exact ⟨by decide +kernel, hexact (List.cons_ne_nil _ _), hprefix 4 (by decide)⟩

/-- No segments have one choice in each of them, the empty sentence. -/
theorem alternatives_of_no_segments :
    buildNaturalSentenceAlternatives [] 1 = [] ∧ (rankedSentences []).take 1 = [[]] := by
  have hsingle : rankedPaths [] = [[]] := List.perm_singleton.mp (sortedBy_perm _ _)
  refine ⟨rfl, ?_⟩
  rw [rankedSentences, List.reverse_nil, hsingle]
  rfl

end MozcSidecarB1

end Hazkey
