import Hazkey.LexicographicOrder
import Hazkey.Pruning
import Hazkey.SentenceAlternatives

/-! The order of all sentences: by the sum of their ranks, then by their prefix, then by the
candidate of their last segment. Segments and paths have the last segment first here. -/

namespace Hazkey

namespace MozcSidecarB1

open WeakOrders Pruning

/-- A choice in each segment. -/
def allPaths : List Segment → List (List Nat)
  | [] => [[]]
  | segment :: earlier =>
    (allPaths earlier).flatMap fun path => (List.range segment.length).map (· :: path)

def rankSum : List Segment → List Nat → Nat
  | segment :: earlier, index :: path =>
    rankSum earlier path + (candidateAt segment index).originalIndex
  | _, _ => 0

/-- By original rank, value and position. -/
def choiceLess (segment : Segment) (left right : Nat) : Bool :=
  candidateLess segment left right || !candidateLess segment right left && left < right

def pathLess : List Segment → List Nat → List Nat → Bool
  | segment :: earlier, left :: path, right :: path' =>
    if rankSum (segment :: earlier) (left :: path) ≠ rankSum (segment :: earlier) (right :: path') then
      rankSum (segment :: earlier) (left :: path) < rankSum (segment :: earlier) (right :: path')
    else if path ≠ path' then pathLess earlier path path'
    else choiceLess segment left right
  | _, _, _ => false

variable {segment : Segment} {segments : List Segment} {left right index : Nat}
  {path path' : List Nat}

/-! The order within a segment. -/

theorem bytesLess_eq : bytesLess = lexLess UInt8.toNat := by
  funext s t
  induction s generalizing t with
  | nil => cases t <;> rfl
  | cons a s ih =>
    cases t with
    | nil => rfl
    | cons b t => rw [bytesLess, lexLess, ih]

theorem bytesLess_weak : Weak (fun _ => True) bytesLess := bytesLess_eq ▸ weak_lexLess UInt8.toNat _

theorem candidateLess_eq (segment : Segment) : candidateLess segment =
    thenBy (fun left right => decide (((candidateAt segment left).originalIndex : Int) <
        (candidateAt segment right).originalIndex))
      (fun left right =>
        bytesLess (candidateAt segment left).value (candidateAt segment right).value) := by
  funext left right
  rw [candidateLess, thenBy]
  by_cases h : (candidateAt segment left).originalIndex = (candidateAt segment right).originalIndex
  · simp [h]
  · rw [if_pos h]
    by_cases hlt : (candidateAt segment left).originalIndex <
        (candidateAt segment right).originalIndex
    · simp [hlt]
    · have hgt : (candidateAt segment right).originalIndex <
          (candidateAt segment left).originalIndex := by omega
      simp [hlt, hgt]

theorem candidateLess_weak (segment : Segment) : Weak (fun _ => True) (candidateLess segment) := by
  rw [candidateLess_eq]
  refine (weak_of_rank _ fun index => ((candidateAt segment index).originalIndex : Int)).thenBy ?_
  exact ⟨fun x y _ _ => bytesLess_weak.asymm _ _ trivial trivial,
    fun x y z _ _ _ => bytesLess_weak.notBehind _ _ _ trivial trivial trivial⟩

/-- Any two candidates of a segment are in order. -/
theorem choiceLess_total (h : left ≠ right) :
    choiceLess segment left right = true ∨ choiceLess segment right left = true := by
  unfold choiceLess
  cases hlr : candidateLess segment left right <;> cases hrl : candidateLess segment right left <;>
    simp
  omega

theorem choiceLess_strictTotal (segment : Segment) (l : List Nat) :
    StrictTotal (choiceLess segment) l := by
  have hplace : Weak (fun _ => True) fun x y : Nat => decide (x < y) := by
    simpa only [Int.ofNat_lt] using weak_of_rank (fun _ => True) fun index : Nat => (index : Int)
  exact .of_weak ((candidateLess_weak segment).thenBy hplace) fun _ _ _ _ => choiceLess_total

/-! The order of paths. -/

theorem pathLess_cons : pathLess (segment :: segments) (left :: path) (right :: path') = true ↔
    rankSum (segment :: segments) (left :: path) < rankSum (segment :: segments) (right :: path') ∨
      rankSum (segment :: segments) (left :: path) =
          rankSum (segment :: segments) (right :: path') ∧
        (path ≠ path' ∧ pathLess segments path path' = true ∨
          path = path' ∧ choiceLess segment left right = true) := by
  rw [pathLess]
  by_cases hsum : rankSum (segment :: segments) (left :: path) =
      rankSum (segment :: segments) (right :: path')
  · by_cases hpath : path = path'
    · subst hpath
      simp [hsum]
    · simp [hsum, hpath]
  · rw [if_pos hsum, decide_eq_true_eq]
    simp [hsum]

theorem pathLess_irrefl (segments : List Segment) (path : List Nat) :
    pathLess segments path path = false := by
  cases segments with
  | nil => rfl
  | cons segment segments =>
    cases path with
    | nil => rfl
    | cons index path =>
      by_contra h
      rcases pathLess_cons.mp (Bool.of_not_eq_false h) with hlt | ⟨-, ⟨hne, -⟩ | ⟨-, hless⟩⟩
      · omega
      · exact hne rfl
      · rw [(choiceLess_strictTotal segment []).irrefl index] at hless
        cases hless

theorem pathLess_trans {path'' : List Nat} (h : pathLess segments path path' = true)
    (h' : pathLess segments path' path'' = true) : pathLess segments path path'' = true := by
  induction segments generalizing path path' path'' with
  | nil => cases h
  | cons segment segments ih =>
    cases path with
    | nil => cases h
    | cons x path =>
      cases path' with
      | nil => cases h
      | cons y path' =>
        cases path'' with
        | nil => cases h'
        | cons z path'' =>
          rw [pathLess_cons] at h h' ⊢
          rcases h with h | ⟨hsum, h⟩
          · exact .inl (by omega)
          rcases h' with h' | ⟨hsum', h'⟩
          · exact .inl (by omega)
          refine .inr ⟨hsum.trans hsum', ?_⟩
          rcases h with ⟨hne, h⟩ | ⟨rfl, h⟩
          · have hlt : pathLess segments path path'' = true := by
              rcases h' with ⟨-, h'⟩ | ⟨rfl, -⟩
              · exact ih h h'
              · exact h
            refine .inl ⟨fun heq => ?_, hlt⟩
            rw [heq, pathLess_irrefl] at hlt
            cases hlt
          · rcases h' with h' | ⟨rfl, h'⟩
            · exact .inl h'
            · exact .inr ⟨rfl, (choiceLess_strictTotal segment []).trans x y z h h'⟩

theorem pathLess_total (hlen : path.length = segments.length)
    (hlen' : path'.length = segments.length) (hne : path ≠ path') :
    pathLess segments path path' = true ∨ pathLess segments path' path = true := by
  induction segments generalizing path path' with
  | nil =>
    rw [List.length_eq_zero_iff.mp hlen, List.length_eq_zero_iff.mp hlen'] at hne
    exact absurd rfl hne
  | cons segment segments ih =>
    obtain ⟨x, path, rfl⟩ := List.exists_cons_of_length_eq_add_one hlen
    obtain ⟨y, path', rfl⟩ := List.exists_cons_of_length_eq_add_one hlen'
    simp only [List.length_cons, Nat.add_right_cancel_iff] at hlen hlen'
    rw [pathLess_cons, pathLess_cons]
    rcases Nat.lt_trichotomy (rankSum (segment :: segments) (x :: path))
      (rankSum (segment :: segments) (y :: path')) with hlt | heq | hgt
    · exact .inl (.inl hlt)
    · by_cases hpath : path = path'
      · subst hpath
        have hxy : x ≠ y := fun h => hne (by rw [h])
        exact (choiceLess_total hxy).imp (fun h => .inr ⟨heq, .inr ⟨rfl, h⟩⟩)
          fun h => .inr ⟨heq.symm, .inr ⟨rfl, h⟩⟩
      · exact (ih hlen hlen' hpath).imp (fun h => .inr ⟨heq, .inl ⟨hpath, h⟩⟩)
          fun h => .inr ⟨heq.symm, .inl ⟨Ne.symm hpath, h⟩⟩
    · exact .inr (.inl hgt)

theorem mem_allPaths_cons : path ∈ allPaths (segment :: segments) ↔
    ∃ earlier ∈ allPaths segments, ∃ index ∈ List.range segment.length, path = index :: earlier := by
  simp only [allPaths, List.mem_flatMap, List.mem_map, eq_comm]

theorem length_of_mem_allPaths (h : path ∈ allPaths segments) :
    path.length = segments.length := by
  induction segments generalizing path with
  | nil => simpa [allPaths] using h
  | cons segment segments ih =>
    obtain ⟨earlier, hearlier, index, -, rfl⟩ := mem_allPaths_cons.mp h
    rw [List.length_cons, List.length_cons, ih hearlier]

theorem allPaths_nodup (segments : List Segment) : (allPaths segments).Nodup := by
  induction segments with
  | nil => exact List.nodup_singleton []
  | cons segment segments ih =>
    rw [allPaths, List.nodup_flatMap]
    constructor
    · intro path _
      exact List.nodup_range.map fun _ _ heq => (List.cons.inj heq).1
    · refine ih.imp fun {path path'} hne => ?_
      intro x hx hx'
      obtain ⟨i, -, rfl⟩ := List.mem_map.mp hx
      obtain ⟨j, -, hj⟩ := List.mem_map.mp hx'
      exact hne (List.cons.inj hj).2.symm

theorem pathLess_strictTotal (segments : List Segment) :
    StrictTotal (pathLess segments) (allPaths segments) where
  irrefl := pathLess_irrefl segments
  trans _ _ _ := pathLess_trans
  total _ hx _ hy := pathLess_total (length_of_mem_allPaths hx) (length_of_mem_allPaths hy)

/-- An earlier prefix has no larger sum of ranks. -/
theorem rankSum_le_of_pathLess (h : pathLess segments path path' = true) :
    rankSum segments path ≤ rankSum segments path' := by
  cases segments with
  | nil => cases h
  | cons segment segments =>
    cases path with
    | nil => cases h
    | cons x path =>
      cases path' with
      | nil => cases h
      | cons y path' =>
        rcases pathLess_cons.mp h with h | ⟨h, -⟩ <;> omega

theorem originalIndex_le_of_choiceLess (h : choiceLess segment left right = true) :
    (candidateAt segment left).originalIndex ≤ (candidateAt segment right).originalIndex := by
  by_contra hgt
  have hne : (candidateAt segment right).originalIndex ≠
    (candidateAt segment left).originalIndex := by omega
  have hlr : candidateLess segment left right = false := by
    rw [candidateLess, if_pos hne.symm, decide_eq_false_iff_not]
    omega
  have hrl : candidateLess segment right left = true := by
    rw [candidateLess, if_pos hne, decide_eq_true_eq]
    omega
  simp [choiceLess, hlr, hrl] at h

/-- Sentences are ordered as pairs of a prefix and a last candidate. -/
theorem pathLess_extends (segment : Segment) (segments : List Segment) :
    Extends (pathLess segments) (choiceLess segment) (pathLess (segment :: segments))
      fun path index => index :: path where
  injective path x path' y heq := by
    obtain ⟨hx, hpath⟩ := List.cons.inj heq
    exact ⟨hpath, hx⟩
  first path x path' y hpath hchoice := by
    rw [pathLess_cons]
    have hsum := rankSum_le_of_pathLess hpath
    have hrank : (candidateAt segment x).originalIndex ≤ (candidateAt segment y).originalIndex := by
      rcases hchoice with rfl | hchoice
      · exact le_rfl
      · exact originalIndex_le_of_choiceLess hchoice
    have hne : path ≠ path' := by
      rintro rfl
      rw [pathLess_irrefl] at hpath
      cases hpath
    by_cases hlt : rankSum (segment :: segments) (x :: path) <
        rankSum (segment :: segments) (y :: path')
    · exact .inl hlt
    · refine .inr ⟨?_, .inl ⟨hne, hpath⟩⟩
      rw [rankSum, rankSum] at hlt ⊢
      omega
  second path x y hchoice := by
    rw [pathLess_cons, rankSum, rankSum]
    have hrank := originalIndex_le_of_choiceLess hchoice
    rcases Nat.lt_or_eq_of_le hrank with hlt | heq
    · exact .inl (by omega)
    · exact .inr ⟨by omega, .inr ⟨rfl, hchoice⟩⟩

end MozcSidecarB1

end Hazkey
