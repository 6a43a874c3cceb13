import Hazkey.HybridMerge

/-! The merge of the offline evaluator, and what it says of the one that is deployed. -/

namespace Hazkey

open ServiceProgram Interleaving FirstOccurrences

section

variable [CanonicalText]

def normalizedSurface (value : Text) : Text := CanonicalText.precomposed value

def mozcStablePrefix : Nat := 3

/-- The loops of `_unique_surfaces`, over the candidates of all groups. -/
def collectSurfaces (suggestionLimit : Int) : List Text → List Text → List Text → List Text
  | [], candidates, _ => candidates
  | candidate :: rest, candidates, seen =>
    if normalizedSurface candidate ∈ seen then collectSurfaces suggestionLimit rest candidates seen
    else if ((candidates ++ [candidate]).length : Int) = suggestionLimit then
      candidates ++ [candidate]
    else
      collectSurfaces suggestionLimit rest (candidates ++ [candidate])
        (normalizedSurface candidate :: seen)

def uniqueSurfaces (groups : List (List Text)) (suggestionLimit : Int) : List Text :=
  collectSurfaces suggestionLimit groups.flatten [] []

inductive MergeReason
  | noCandidates
  | hazkeyFallbackMozcEmpty
  | keepMozcHazkeyEmpty
  | promoteHazkeyOneSidedConsensus
  | keepMozcTop1
  deriving DecidableEq, Repr

/-- The order that keeps the stable prefix of Mozc. -/
def stableGroups (hazkey mozc : List Text) : List (List Text) :=
  [mozc.take mozcStablePrefix, hazkey, mozc.drop mozcStablePrefix]

def mergeCandidates (hazkey mozc : List Text) (suggestionLimit : Int) :
    Except String (List Text × MergeReason) :=
  if suggestionLimit < 1 then .error "suggestion_limit must be positive"
  else
    match mozc, hazkey with
    | [], [] => .ok ([], .noCandidates)
    | [], hazkey => .ok (uniqueSurfaces [hazkey] suggestionLimit, .hazkeyFallbackMozcEmpty)
    | mozc, [] => .ok (uniqueSurfaces [mozc] suggestionLimit, .keepMozcHazkeyEmpty)
    | mozcFirst :: mozcRest, hazkeyFirst :: hazkeyRest =>
      let hazkeyTop := normalizedSurface hazkeyFirst
      let mozcTop := normalizedSurface mozcFirst
      let hazkeyTopBelowMozc := mozcRest.any fun candidate => normalizedSurface candidate = hazkeyTop
      let mozcTopInHazkey := (hazkeyFirst :: hazkeyRest).any fun candidate =>
        normalizedSurface candidate = mozcTop
      if hazkeyTopBelowMozc && !mozcTopInHazkey then
        .ok (uniqueSurfaces [[hazkeyFirst], mozcFirst :: mozcRest, hazkeyRest] suggestionLimit,
          .promoteHazkeyOneSidedConsensus)
      else
        .ok (uniqueSurfaces (stableGroups (hazkeyFirst :: hazkeyRest) (mozcFirst :: mozcRest))
          suggestionLimit, .keepMozcTop1)

def mergeCandidatesPreserveMozcTop1 (hazkey mozc : List Text) (suggestionLimit : Int) :
    Except String (List Text × MergeReason) :=
  if suggestionLimit < 1 then .error "suggestion_limit must be positive"
  else
    match mozc, hazkey with
    | [], [] => .ok ([], .noCandidates)
    | [], hazkey => .ok (uniqueSurfaces [hazkey] suggestionLimit, .hazkeyFallbackMozcEmpty)
    | mozc, [] => .ok (uniqueSurfaces [mozc] suggestionLimit, .keepMozcHazkeyEmpty)
    | mozc, hazkey => .ok (uniqueSurfaces (stableGroups hazkey mozc) suggestionLimit, .keepMozcTop1)

/-- The function with which the evaluator replays a policy. -/
def HybridPromotionPolicy.replay : HybridPromotionPolicy → List Text → List Text → Int →
    Except String (List Text × MergeReason)
  | .preserveMozcTop1 => mergeCandidatesPreserveMozcTop1
  | .oneSidedConsensus => mergeCandidates

theorem collectSurfaces_cons (suggestionLimit : Int) (x : Text) (xs candidates seen : List Text) :
    collectSurfaces suggestionLimit (x :: xs) candidates seen =
      if normalizedSurface x ∈ seen then collectSurfaces suggestionLimit xs candidates seen
      else if ((candidates ++ [x]).length : Int) = suggestionLimit then candidates ++ [x]
      else
        collectSurfaces suggestionLimit xs (candidates ++ [x]) (normalizedSurface x :: seen) := rfl

theorem collectSurfaces_eq {suggestionLimit : Int} {xs candidates seen : List Text}
    (h : (candidates.length : Int) < suggestionLimit) :
    collectSurfaces suggestionLimit xs candidates seen = candidates ++
      (firsts normalizedSurface seen xs).take (suggestionLimit - candidates.length).toNat := by
  induction xs generalizing candidates seen with
  | nil =>
    show candidates = candidates ++ _
    simp
  | cons x xs ih =>
    rw [collectSurfaces_cons, firsts_cons]
    have hlength : ((candidates ++ [x]).length : Int) = candidates.length + 1 := by simp
    by_cases hseen : normalizedSurface x ∈ seen
    · rw [if_pos hseen, if_pos hseen]
      exact ih h
    · rw [if_neg hseen, if_neg hseen]
      by_cases hfull : ((candidates ++ [x]).length : Int) = suggestionLimit
      · have hone : (suggestionLimit - candidates.length).toNat = 1 := by omega
        rw [if_pos hfull, hone, List.take_succ_cons, List.take_zero]
      · have hcount : (suggestionLimit - candidates.length).toNat =
            (suggestionLimit - (candidates ++ [x]).length).toNat + 1 := by omega
        rw [if_neg hfull, ih (by omega), hcount, List.take_succ_cons, List.append_assoc]
        rfl

theorem uniqueSurfaces_eq {suggestionLimit : Int} (h : 1 ≤ suggestionLimit)
    (groups : List (List Text)) : uniqueSurfaces groups suggestionLimit =
      (firsts normalizedSurface [] groups.flatten).take suggestionLimit.toNat := by
  rw [uniqueSurfaces, collectSurfaces_eq (by rw [List.length_nil]; omega)]
  simp

/-! The texts of a merge. -/

/-- The texts are different ones after normalisation. -/
def Distinct (texts : List Text) : Prop := (texts.map normalizedSurface).Nodup

instance (texts : List Text) : Decidable (Distinct texts) :=
  inferInstanceAs (Decidable (texts.map normalizedSurface).Nodup)

def textsOf (candidates : List ConverterCandidate) : List Text := candidates.map (·.text)

/-- A list of at most so many texts is left alone exactly if they are distinct. -/
theorem uniqueSurfaces_eq_self {suggestionLimit : Int} (h : 1 ≤ suggestionLimit) {texts : List Text}
    (hlength : (texts.length : Int) ≤ suggestionLimit) :
    uniqueSurfaces [texts] suggestionLimit = texts ↔ Distinct texts := by
  have hfits : (firsts normalizedSurface [] texts).length ≤ suggestionLimit.toNat := by
    have hsublist : (firsts normalizedSurface [] texts).Sublist texts := firsts_sublist
    have hle := hsublist.length_le
    omega
  rw [uniqueSurfaces_eq h, List.flatten_singleton, List.take_of_length_le hfits]
  exact firsts_eq_self

variable {count suggestionLimit : Int} {primary secondary : List ConverterCandidate}

/-- Where all candidates have one count, the loop of a merge goes by their texts. -/
theorem textsOf_mergeKept {ordered : List (Backend × ConverterCandidate)}
    (hcount : ∀ x ∈ ordered, x.2.consumingCount = count) (hlimit : 1 ≤ suggestionLimit)
    {groups : List (List Text)} (hgroups : groups.flatten = ordered.map (·.2.text)) :
    (mergeKept suggestionLimit ordered).map (·.2.text) = uniqueSurfaces groups suggestionLimit := by
  have hkeys : firsts mergeKey [] ordered =
      firsts (fun x : Backend × ConverterCandidate => normalizedSurface x.2.text) [] ordered := by
    apply firsts_key_congr
    · intro x hx y hy
      simp only [mergeKey, deduplicationKey, hcount x hx, hcount y hy, Prod.mk.injEq, true_and]
      rfl
    · intro x hx
      simp
  rw [uniqueSurfaces_eq hlimit, hgroups, firsts_map, mergeKept, hkeys, List.map_take]

omit [CanonicalText] in
theorem count_mergeOrder {promote : Bool}
    (hcount : ∀ x ∈ primary ++ secondary, x.consumingCount = count) :
    ∀ x ∈ mergeOrder promote primary secondary, x.2.consumingCount = count := by
  intro x hx
  apply hcount
  rw [List.mem_append]
  unfold mergeOrder at hx
  split at hx
  · simp only [List.mem_append, List.mem_map] at hx
    rcases hx with (⟨y, hy, rfl⟩ | ⟨y, hy, rfl⟩) | ⟨y, hy, rfl⟩
    · exact .inr (List.mem_of_mem_take hy)
    · exact .inl hy
    · exact .inr (List.mem_of_mem_drop hy)
  · simp only [List.mem_append, List.mem_map] at hx
    rcases hx with (⟨y, hy, rfl⟩ | ⟨y, hy, rfl⟩) | ⟨y, hy, rfl⟩
    · exact .inl (List.mem_of_mem_take hy)
    · exact .inr hy
    · exact .inl (List.mem_of_mem_drop hy)

/-- Both programs put forward the first candidate of Hazkey in the same cases. -/
theorem shouldPromote_texts {x y : ConverterCandidate} {xs ys : List ConverterCandidate}
    (hcount : ∀ z ∈ (x :: xs) ++ y :: ys, z.consumingCount = count) :
    shouldPromote .oneSidedConsensus (x :: xs) (y :: ys) =
      (((textsOf xs).any fun text => normalizedSurface text = normalizedSurface y.text) &&
        !((textsOf (y :: ys)).any fun text => normalizedSurface text = normalizedSurface x.text)) := by
  have hany {zs : List ConverterCandidate} {z : ConverterCandidate}
      (hzs : ∀ w ∈ zs, w ∈ (x :: xs) ++ y :: ys) (hz : z ∈ (x :: xs) ++ y :: ys) :
      (zs.any fun w => deduplicationKey w = deduplicationKey z) =
        (textsOf zs).any fun text => normalizedSurface text = normalizedSurface z.text := by
    rw [textsOf, List.any_map, Bool.eq_iff_iff, List.any_eq_true, List.any_eq_true]
    apply exists_congr
    intro w
    apply and_congr_right
    intro hw
    simp only [deduplicationKey, hcount w (hzs w hw), hcount z hz, Prod.mk.injEq, true_and,
      decide_eq_true_eq, Function.comp_apply]
    exact Iff.rfl
  simp only [shouldPromote]
  rw [hany (fun w hw => by simp [hw]) (by simp), hany (fun w hw => by simp_all) (by simp)]

theorem replay_merge {policy : HybridPromotionPolicy} (hlimit : 1 ≤ suggestionLimit)
    (hcount : ∀ x ∈ primary ++ secondary, x.consumingCount = count) (hprimary : primary ≠ [])
    (hsecondary : secondary ≠ []) :
    (policy.replay (textsOf secondary) (textsOf primary) suggestionLimit).map Prod.fst =
      .ok ((mergeKept suggestionLimit (mergeOrder (shouldPromote policy primary secondary) primary
        secondary)).map (·.2.text)) := by
  obtain ⟨x, xs, rfl⟩ := List.exists_cons_of_ne_nil hprimary
  obtain ⟨y, ys, rfl⟩ := List.exists_cons_of_ne_nil hsecondary
  have hstable : (stableGroups (textsOf (y :: ys)) (textsOf (x :: xs))).flatten =
      (mergeOrder false (x :: xs) (y :: ys)).map (·.2.text) := by
    simp [stableGroups, mergeOrder, textsOf, mozcStablePrefix, Function.comp_def]
  have hpromoted : [[y.text], textsOf (x :: xs), textsOf ys].flatten =
      (mergeOrder true (x :: xs) (y :: ys)).map (·.2.text) := by
    simp [mergeOrder, textsOf, Function.comp_def]
  have hpositive : ¬ suggestionLimit < 1 := by omega
  cases policy with
  | preserveMozcTop1 =>
    have hfalse : shouldPromote .preserveMozcTop1 (x :: xs) (y :: ys) = false := rfl
    rw [hfalse, textsOf_mergeKept (count_mergeOrder hcount) hlimit hstable]
    simp only [HybridPromotionPolicy.replay, mergeCandidatesPreserveMozcTop1, if_neg hpositive]
    rfl
  | oneSidedConsensus =>
    have hreplay : HybridPromotionPolicy.oneSidedConsensus.replay (textsOf (y :: ys))
        (textsOf (x :: xs)) suggestionLimit =
        if shouldPromote .oneSidedConsensus (x :: xs) (y :: ys) = true then
          .ok (uniqueSurfaces [[y.text], textsOf (x :: xs), textsOf ys] suggestionLimit,
            .promoteHazkeyOneSidedConsensus)
        else .ok (uniqueSurfaces (stableGroups (textsOf (y :: ys)) (textsOf (x :: xs)))
          suggestionLimit, .keepMozcTop1) := by
      rw [shouldPromote_texts hcount]
      simp only [HybridPromotionPolicy.replay, mergeCandidates, if_neg hpositive]
      rfl
    rw [hreplay]
    by_cases hpromote : shouldPromote .oneSidedConsensus (x :: xs) (y :: ys) = true
    · rw [if_pos hpromote, hpromote, textsOf_mergeKept (count_mergeOrder hcount) hlimit hpromoted]
      rfl
    · rw [if_neg hpromote, (Bool.not_eq_true _).mp hpromote,
        textsOf_mergeKept (count_mergeOrder hcount) hlimit hstable]
      rfl

theorem replay_mozc {policy : HybridPromotionPolicy} (hlimit : 1 ≤ suggestionLimit)
    (texts : List Text) : (policy.replay [] texts suggestionLimit).map Prod.fst =
      .ok (uniqueSurfaces [texts] suggestionLimit) := by
  have hpositive : ¬ suggestionLimit < 1 := by omega
  cases policy <;> cases texts <;>
    simp only [HybridPromotionPolicy.replay, mergeCandidatesPreserveMozcTop1, mergeCandidates,
      if_neg hpositive] <;> rfl

theorem replay_hazkey {policy : HybridPromotionPolicy} (hlimit : 1 ≤ suggestionLimit)
    (texts : List Text) : (policy.replay texts [] suggestionLimit).map Prod.fst =
      .ok (uniqueSurfaces [texts] suggestionLimit) := by
  have hpositive : ¬ suggestionLimit < 1 := by omega
  cases policy <;> cases texts <;>
    simp only [HybridPromotionPolicy.replay, mergeCandidatesPreserveMozcTop1, mergeCandidates,
      if_neg hpositive] <;> rfl

/-! The answers of a converter. -/

/-- What `segmentCandidates` hands out, where Hazkey has prepared the secondary output or missed
the step. -/
def answered (policy : HybridPromotionPolicy) (primary : ConversionOutput)
    (secondary : Option ConversionOutput) (suggestionLimit : Int) :
    List (Backend × ConverterCandidate) :=
  match secondary with
  | none => primary.candidates.map (Backend.mozc, ·)
  | some secondary => merged policy primary secondary suggestionLimit

variable {c n : Nat} {s s' u : HybridSystem} {calls rest : List (Event childPort HybridSystem)}
  {composition : CompositionInput} {options : ConversionOptions}

theorem segmentCandidates_ends {primary output : ConversionOutput}
    (h : (segmentCandidates n c composition options).Ends hybridMachine (.foreground n)
      (Unhindered c) s (⟨u, ⟨c, .mozc, .segmentCandidates composition options⟩, .ok primary⟩ :: rest)
      (.ok output) s') :
    List.Forall₂ RoutedAs (answered (s.converters c).promotionPolicy primary
      ((s.converters c).frozenOutput composition options) options.suggestionListLimit)
      output.candidates := by
  obtain ⟨v, answer, later, hv, hcalls, h⟩ := h
  obtain rfl : .ok primary = answer := by
    cases hcalls
    rfl
  have hu : Unhindered c s (hybridMachine.record (.foreground n)
      ⟨c, .mozc, .segmentCandidates composition options⟩ (.ok primary) v) :=
    hv.trans ⟨rfl, rfl, id⟩
  obtain ⟨_, _, _, y, -, ⟨-, rfl, hy⟩, h⟩ := Task.ends_bind h
  obtain ⟨_, _, secondary, w, -, hsecondary, h⟩ := Task.ends_bind h
  obtain ⟨x, hx, -, -, rfl, hw⟩ := hsecondary
  have hx : Unhindered c s x := hu.trans (hy.trans hx)
  have hframe : Unhindered c s w := hx.trans
    ((Unhindered.of_discreet (.refl _) rfl).trans hw)
  have hfrozen : (x.converters c).frozenOutput composition options =
      (s.converters c).frozenOutput composition options := by
    rw [hx.frozen]
  rw [← hfrozen]
  unfold answered
  cases hsecondary : (x.converters c).frozenOutput composition options with
  | none =>
    simp only [hsecondary] at h
    obtain ⟨_, _, routed, y, -, hroute, -, he, -⟩ := Task.ends_bind h
    obtain rfl := Except.ok.inj he
    exact (routeOutput_ends hroute).1
  | some secondary =>
    simp only [hsecondary] at h
    obtain ⟨_, _, merged, y, -, hmerge, -, he, -⟩ := Task.ends_bind h
    obtain rfl := Except.ok.inj he
    rw [← hframe.policy]
    exact (merge_ends hmerge).1

omit [CanonicalText] in
theorem forall₂_texts {kept : List (Backend × ConverterCandidate)} {items : List ConverterCandidate}
    (h : List.Forall₂ RoutedAs kept items) : textsOf items = kept.map (·.2.text) := by
  induction h with
  | nil => rfl
  | cons hx _ ih => exact List.cons_eq_cons.mpr ⟨hx.text, ih⟩

/-- The texts of an answer where one list of candidates stands alone. -/
theorem answered_mozc {policy : HybridPromotionPolicy} {primary : ConversionOutput}
    {secondary : Option ConversionOutput}
    (h : secondary.elim [] (·.candidates) = []) :
    (answered policy primary secondary suggestionLimit).map (·.2.text) =
      textsOf primary.candidates := by
  have htexts : (primary.candidates.map (Backend.mozc, ·)).map (·.2.text) =
      textsOf primary.candidates := by
    rw [List.map_map]
    rfl
  cases secondary with
  | none => exact htexts
  | some secondary =>
    have hempty : secondary.candidates = [] := h
    simp only [answered, merged]
    split
    · rename_i hprimary
      rw [hprimary, hempty, List.take_nil]
      rfl
    · rename_i x xs hprimary
      rw [if_pos (by rw [eligibleSecondary, hempty]; rfl)]
      exact htexts

theorem answered_hazkey {policy : HybridPromotionPolicy} {primary : ConversionOutput}
    {secondary : Option ConversionOutput} (hprimary : primary.candidates = [])
    (hlength : ((secondary.elim [] (·.candidates)).length : Int) ≤ suggestionLimit) :
    (answered policy primary secondary suggestionLimit).map (·.2.text) =
      textsOf (secondary.elim [] (·.candidates)) := by
  cases secondary with
  | none =>
    simp only [answered, hprimary]
    rfl
  | some secondary =>
    have hfits : secondary.candidates.take suggestionLimit.toNat = secondary.candidates :=
      List.take_of_length_le (by simp only [Option.elim_some] at hlength; omega)
    simp only [answered, merged, hprimary, hfits, List.map_map]
    rfl

theorem answered_both {policy : HybridPromotionPolicy} {primary secondary : ConversionOutput}
    (hprimary : primary.candidates ≠ []) (hsecondary : secondary.candidates ≠ [])
    (hcount : ∀ x ∈ primary.candidates ++ secondary.candidates, x.consumingCount = count) :
    answered policy primary (some secondary) suggestionLimit =
      mergeKept suggestionLimit (mergeOrder
        (shouldPromote policy primary.candidates secondary.candidates) primary.candidates
        secondary.candidates) := by
  obtain ⟨x, xs, hx⟩ := List.exists_cons_of_ne_nil hprimary
  have heligible : eligibleSecondary x secondary = secondary.candidates := by
    apply List.filter_eq_self.mpr
    intro y hy
    rw [hcount y (List.mem_append_right _ hy), hcount x (by simp [hx])]
    exact decide_eq_true rfl
  simp only [answered, merged, hx, heligible, if_neg hsecondary]

end

attribute [local instance] scalarText byteCodec composedText

/-- Mozc repeats a text, and the other calls are answered as before. -/
def repeatingMozc : (c : ChildCall) → c.call.Answer
  | ⟨_, .mozc, .segmentCandidates _ _⟩ =>
    .ok ⟨[mozcCandidate "仮名".toList, mozcCandidate "仮名".toList], 2⟩
  | call => segmentChildren call

def emptyInput : CompositionInput := ⟨[], 0, [], none, none⟩

end Hazkey
