import Hazkey.PurgeFinalityRuns
import Hazkey.FirstOccurrences

/-! What a Mozc-first hybrid converter answers: the merge of the candidates of Mozc with those
that Hazkey has prepared, in every run among the other threads. -/

namespace Hazkey

open ServiceProgram Interleaving FirstOccurrences

/-- How the other threads may leave a converter while its own thread operates it. -/
structure Unhindered (c : Nat) (s u : HybridSystem) : Prop where
  policy : (u.converters c).promotionPolicy = (s.converters c).promotionPolicy
  frozen : (u.converters c).frozenOutput = (s.converters c).frozenOutput
  published : (u.converters c).candidateFencePublished = true →
    (s.converters c).candidateFencePublished = true

variable {c n : Nat} {s s' u v : HybridSystem} {calls : List (Event childPort HybridSystem)}

theorem Unhindered.refl (s : HybridSystem) : Unhindered c s s := ⟨rfl, rfl, id⟩

theorem Unhindered.trans (h : Unhindered c s u) (h' : Unhindered c u v) : Unhindered c s v :=
  ⟨h'.policy.trans h.policy, h'.frozen.trans h.frozen, fun hv => h.published (h'.published hv)⟩

instance : Std.Refl (Unhindered c) := ⟨.refl⟩

instance : IsTrans HybridSystem (Unhindered c) := ⟨fun _ _ _ => .trans⟩

/-! The workers leave every converter so. -/

theorem Unhindered.of_elsewhere (h : Elsewhere s u) : Unhindered c s u :=
  ⟨by rw [h.converters], by rw [h.converters], by rw [h.converters]; exact id⟩

/-- The part of `Unhindered` that is about the state of the converter. -/
structure Discreet (h h' : MozcFirstHybrid) : Prop where
  policy : h'.promotionPolicy = h.promotionPolicy
  frozen : h'.frozenOutput = h.frozenOutput
  published : h'.candidateFencePublished = true → h.candidateFencePublished = true

theorem Discreet.refl (h : MozcFirstHybrid) : Discreet h h := ⟨rfl, rfl, id⟩

theorem Unhindered.of_discreet {c' : Nat} {h : MozcFirstHybrid}
    (hdiscreet : Discreet (s.converters c') h)
    (hu : u.converters = Function.update s.converters c' h) : Unhindered c s u := by
  by_cases hc : c = c'
  · subst hc
    constructor <;> rw [hu, Function.update_self]
    · exact hdiscreet.policy
    · exact hdiscreet.frozen
    · exact hdiscreet.published
  · constructor <;> rw [hu, Function.update_of_ne hc]
    exact id

theorem frozenOutput_of_pending {h : MozcFirstHybrid} {workID : UInt64}
    {context : SpeculativeConversionContext}
    (hpending : h.speculationState = .pending workID context) :
    h.frozenOutput = fun _ _ => none := by
  funext input options
  simp only [MozcFirstHybrid.frozenOutput, hpending]

theorem admit_discreet (h : MozcFirstHybrid) (workID learningRevision : UInt64) :
    Discreet h (h.admitLocked workID learningRevision).2 := by
  unfold MozcFirstHybrid.admitLocked
  split
  · rename_i currentWorkID current hstate
    split
    · split
      · exact .refl h
      · refine ⟨rfl, ?_, id⟩
        rw [frozenOutput_of_pending hstate]
        rfl
    · exact .refl h
  · exact .refl h

theorem complete_discreet (h : MozcFirstHybrid) (workID learningRevision : UInt64)
    (context : SpeculativeConversionContext) (prepared : Option (PreparedStep × Option UInt64)) :
    Discreet h (h.completeLocked workID context prepared learningRevision).2 := by
  unfold MozcFirstHybrid.completeLocked
  split
  · rename_i hpending
    have hfrozen := frozenOutput_of_pending (of_decide_eq_true hpending)
    split
    · split
      · rename_i step fence
        cases fence with
        | none => exact ⟨rfl, hfrozen ▸ rfl, id⟩
        | some fence => exact ⟨rfl, hfrozen ▸ rfl, fun hfalse => by cases hfalse⟩
      · exact ⟨rfl, hfrozen ▸ rfl, id⟩
    · exact ⟨rfl, hfrozen ▸ rfl, id⟩
  · exact .refl h

section

variable {t : GateThread} {w : Work}

theorem unhindered_elsewhere {α : Type} {p : HybridM α} [p.Within hybridMachine t Elsewhere] :
    p.Within hybridMachine t (Unhindered c) := Task.Within.imp fun _ _ => .of_elsewhere

theorem changeLocked_unhindering {c' : Nat} {f : MozcFirstHybrid → MozcFirstHybrid}
    (hf : ∀ h, Discreet h (f h)) :
    (changeLocked c' f).Within hybridMachine t (Unhindered c) where
  steps _ _ := ⟨.of_discreet (hf _) rfl, trivial⟩

instance (context : SpeculativeConversionContext) (step : Option PreparedStep) :
    (completeWork w.converter w.job w.workID context step).Within hybridMachine t
      (Unhindered c) where
  steps _ _ := ⟨.of_discreet (complete_discreet _ _ _ _ _) rfl, trivial⟩

theorem performAdmittedHazkeyStep_unhindering :
    (performAdmittedHazkeyStep w).Within hybridMachine t (Unhindered c) := by
  unfold performAdmittedHazkeyStep
  have hadmit : (withStateLock w.converter fun learningRevision h =>
      h.admitLocked w.workID learningRevision).Within hybridMachine t (Unhindered c) :=
    ⟨fun _ _ => ⟨.of_discreet (admit_discreet _ _ _) rfl, trivial⟩⟩
  refine .bind hadmit fun admitted => ?_
  cases admitted with
  | none => exact inferInstanceAs (Task.Within _ _ _ (pure ()))
  | some context =>
    have hstop := child_within (t := t) w.converter .hazkey .stopComposition
    refine .bind unhindered_elsewhere fun step => .bind unhindered_elsewhere fun _ =>
      .bind unhindered_elsewhere fun _ => .bind inferInstance fun release => ?_
    exact unhindered_elsewhere

instance : (prepareHazkeyStep w).Within hybridMachine t (Unhindered c) :=
  .bind (changeLocked_unhindering fun _ => ⟨rfl, rfl, id⟩) fun _ =>
    .bind performAdmittedHazkeyStep_unhindering fun _ =>
      changeLocked_unhindering fun _ => ⟨rfl, rfl, id⟩

/-- Nothing is known, and every step is one that leaves the converter undisturbed. -/
def discretion (c : Nat) : Discipline childPort Work HybridSystem GateThread where
  inv _ := True
  rely _ _ _ := True
  guar _ := Unhindered c
  label _ _ _ := True

instance : (discretion c).Compatible := ⟨fun _ _ => trivial, fun _ _ _ _ _ _ => trivial,
  fun _ _ _ _ _ _ _ _ => trivial⟩

theorem steady_unhindered {α : Type} {p : HybridM α} [p.Within hybridMachine t (Unhindered c)] :
    p.Steady hybridMachine (discretion c) t :=
  Task.Within.steady (P := Unhindered c) fun _ _ _ h => ⟨trivial, h⟩

theorem steady_jump (w : Work) :
    (Task.jump w : HybridM Unit).Steady hybridMachine (discretion c) t :=
  ⟨fun _ _ u _ _ => ⟨.refl u, trivial⟩⟩

theorem speculate_unhindering : (speculate w).Steady hybridMachine (discretion c)
    (.worker w.job) := by
  have helsewhere {α : Type} (p : HybridM α) [p.Within hybridMachine (.worker w.job) Elsewhere] :
      p.Steady hybridMachine (discretion c) (.worker w.job) :=
    have := unhindered_elsewhere (c := c) (p := p) (t := .worker w.job)
    steady_unhindered
  unfold speculate
  refine .bind (helsewhere _) fun blocked => .bind (helsewhere _) fun _ =>
    .bind (helsewhere _) fun _ => .bind (helsewhere _) fun admitted => ?_
  split
  · have hend : (endOutstandingWork w.converter).Within hybridMachine (.worker w.job)
        (Unhindered c) := changeLocked_unhindering fun _ => ⟨rfl, rfl, id⟩
    exact .bind steady_unhindered fun _ => .bind (helsewhere _) fun _ =>
      .bind (helsewhere _) fun _ => steady_unhindered
  · exact .bind (helsewhere _) fun _ => steady_jump w

theorem worker_unhindering (j : Nat) : (worker j).Steady hybridMachine (discretion c)
    (.worker j) where
  safe s _ u _ _ _ _ := by
    refine ⟨⟨trivial, .refl u⟩, ?_⟩
    dsimp only
    cases u.submitted[j]? with
    | none => exact fun _ _ _ => trivial
    | some w => exact (steady_jump w).safe _ ⟨trivial, trivial⟩

end

/-! Routing. -/

/-- The candidate that a converter hands out in place of one of a backend. -/
structure RoutedAs (x : Backend × ConverterCandidate) (item : ConverterCandidate) : Prop where
  text : item.text = x.2.text
  annotation : item.annotation = ConverterCandidate.annotation x.2
  provenance : item.provenance = x.2.provenance
  consumingCount : item.consumingCount = max 1 x.2.consumingCount
  isLearnable : item.isLearnable =
    (x.1 = .hazkey && x.2.isLearnable && x.2.sourceID.isSome)

theorem Discreet.routed (h : MozcFirstHybrid) (candidate : ConverterCandidate) (backend : Backend) :
    Discreet h (h.routeLocked candidate backend).2 := ⟨rfl, rfl, id⟩

theorem route_ends {candidate item : ConverterCandidate} {backend : Backend}
    (h : (route c candidate backend).Ends hybridMachine (.foreground n) (Unhindered c) s calls item
      s') : RoutedAs (backend, candidate) item ∧ Unhindered c s s' := by
  obtain ⟨u, hrely, -, -, rfl, hend⟩ := h
  exact ⟨⟨rfl, rfl, rfl, rfl, rfl⟩,
    hrely.trans ((Unhindered.of_discreet (.routed _ candidate backend) rfl).trans hend)⟩

theorem routeAll_ends {candidates items : List ConverterCandidate} {backend : Backend}
    (h : (routeAll c backend candidates).Ends hybridMachine (.foreground n) (Unhindered c) s calls
      items s') :
    List.Forall₂ RoutedAs (candidates.map (backend, ·)) items ∧ Unhindered c s s' := by
  induction candidates generalizing s s' calls items with
  | nil =>
    obtain ⟨-, rfl, hrely⟩ := h
    exact ⟨.nil, hrely⟩
  | cons candidate rest ih =>
    obtain ⟨_, _, item, u, -, hroute, h⟩ := Task.ends_bind h
    obtain ⟨_, _, later, v, -, hrest, -, rfl, hend⟩ := Task.ends_bind h
    obtain ⟨hitem, hu⟩ := route_ends hroute
    obtain ⟨hlater, hv⟩ := ih hrest
    exact ⟨.cons hitem hlater, hu.trans (hv.trans hend)⟩

theorem routeOutput_ends {output routed : ConversionOutput} {backend : Backend}
    (h : (routeOutput c output backend).Ends hybridMachine (.foreground n) (Unhindered c) s calls
      routed s') : List.Forall₂ RoutedAs (output.candidates.map (backend, ·)) routed.candidates ∧
        Unhindered c s s' := by
  obtain ⟨_, _, items, u, -, hall, -, rfl, hend⟩ := Task.ends_bind h
  obtain ⟨hitems, hu⟩ := routeAll_ends hall
  exact ⟨hitems, hu.trans hend⟩

/-- A learnable item is one of Hazkey's. -/
theorem RoutedAs.hazkey {x : Backend × ConverterCandidate} {item : ConverterCandidate}
    (h : RoutedAs x item) (hlearnable : item.isLearnable = true) : x.1 = .hazkey := by
  rw [h.isLearnable, Bool.and_eq_true, Bool.and_eq_true] at hlearnable
  exact of_decide_eq_true hlearnable.1.1

/-! The fence of the window. -/

theorem take_published (h : MozcFirstHybrid)
    (hflag : h.takeCandidateFenceLocked.2.candidateFencePublished = true) :
    h.candidateFencePublished = true := by
  have hdiscard : h.discardFrozenStepLocked.candidateFencePublished =
      h.candidateFencePublished := by
    unfold MozcFirstHybrid.discardFrozenStepLocked
    split <;> rfl
  rw [← hdiscard]
  revert hflag
  unfold MozcFirstHybrid.takeCandidateFenceLocked
  dsimp only
  split
  · exact id
  · intro hfalse
    cases hfalse

theorem releaseUnused_published (h : MozcFirstHybrid)
    (hflag : h.releaseUnusedLocked.2.candidateFencePublished = true) :
    h.candidateFencePublished = true := by
  unfold MozcFirstHybrid.releaseUnusedLocked at hflag
  split at hflag
  · exact take_published h hflag
  · exact hflag

/-- The window is marked as published only where it was before or where it is to be. -/
theorem publishOrRelease_ends {published : Bool}
    (h : (publishOrRelease n c published).Ends hybridMachine (.foreground n) (Unhindered c) s calls
      () s') (hpublished : (s'.converters c).candidateFencePublished = true) :
    published = true ∨ (s.converters c).candidateFencePublished = true := by
  cases published with
  | true => exact .inl rfl
  | false =>
    obtain ⟨_, _, _, u, -, htake, hrelease⟩ := Task.ends_bind h
    have hu : Unhindered c u s' := by
      have hwithin : (releaseCandidateFence n).Within hybridMachine (.foreground n)
          (Unhindered c) := unhindered_elsewhere
      exact hwithin.ends hrelease
    obtain ⟨v, hv, -, -, -, hend⟩ := htake
    have hflag := hend.published (hu.published hpublished)
    simp only [HybridSystem.withConverter, Function.update_self] at hflag
    exact .inr (hv.published (releaseUnused_published _ hflag))

/-! The loop of a merge. -/

section

variable [CanonicalText]

/-- The key under which a candidate is listed once. -/
def mergeKey (x : Backend × ConverterCandidate) : Int × Text := deduplicationKey x.2

/-- What the loop keeps of the candidates in their order. -/
def mergeKept (limit : Int) (ordered : List (Backend × ConverterCandidate)) :
    List (Backend × ConverterCandidate) :=
  (firsts mergeKey [] ordered).take limit.toNat

theorem mergeOrdered_ends {limit : Int} {ordered : List (Backend × ConverterCandidate)}
    {seen : List (Int × Text)} {candidates : List ConverterCandidate} {published : Bool}
    {merged : List ConverterCandidate × Bool}
    (h : (mergeOrdered c limit ordered seen candidates published).Ends hybridMachine
      (.foreground n) (Unhindered c) s calls merged s') :
    ∃ items, List.Forall₂ RoutedAs
        ((firsts mergeKey seen ordered).take (limit - candidates.length).toNat) items ∧
      merged = (candidates ++ items, published || items.any (·.isLearnable)) ∧
      Unhindered c s s' := by
  induction ordered generalizing seen candidates published s calls with
  | nil =>
    obtain ⟨-, rfl, hrely⟩ := h
    exact ⟨[], by simp, by simp, hrely⟩
  | cons x rest ih =>
    obtain ⟨backend, candidate⟩ := x
    unfold mergeOrdered at h
    rw [firsts_cons]
    by_cases hseen : deduplicationKey candidate ∈ seen
    · rw [if_neg fun hnot => hnot.2 hseen] at h
      rw [if_pos (show mergeKey (backend, candidate) ∈ seen from hseen)]
      exact ih h
    · rw [if_neg (show mergeKey (backend, candidate) ∉ seen from hseen)]
      by_cases hlimit : (candidates.length : Int) < limit
      · rw [if_pos ⟨hlimit, hseen⟩] at h
        obtain ⟨_, _, item, u, -, hroute, h⟩ := Task.ends_bind h
        obtain ⟨hitem, hu⟩ := route_ends hroute
        obtain ⟨items, hitems, rfl, hend⟩ := ih h
        have hcount : (limit - candidates.length).toNat =
            (limit - (candidates ++ [item]).length).toNat + 1 := by
          rw [List.length_append, List.length_singleton]
          omega
        refine ⟨item :: items, ?_, ?_, hu.trans hend⟩
        · rw [hcount, List.take_succ_cons]
          exact .cons hitem hitems
        · have hlearnable : (decide (backend = .hazkey) && item.isLearnable) =
              item.isLearnable := by
            cases hl : item.isLearnable with
            | false => exact Bool.and_false _
            | true => simp [show backend = .hazkey from hitem.hazkey hl]
          rw [hlearnable, List.append_assoc, List.any_cons, Bool.or_assoc]
          rfl
      · rw [if_neg fun h => hlimit h.1] at h
        obtain ⟨items, hitems, rfl, hend⟩ := ih h
        have hzero : (limit - candidates.length).toNat = 0 := by omega
        rw [hzero] at hitems ⊢
        rw [List.take_zero] at hitems
        exact ⟨items, hitems, rfl, hend⟩

/-- The candidates of Hazkey that a merge may add. -/
def eligibleSecondary (primaryFirst : ConverterCandidate) (secondary : ConversionOutput) :
    List ConverterCandidate :=
  secondary.candidates.filter fun x => x.consumingCount = primaryFirst.consumingCount

/-- What a merge hands out, as the candidates of the backends. -/
def merged (policy : HybridPromotionPolicy) (primary secondary : ConversionOutput) (limit : Int) :
    List (Backend × ConverterCandidate) :=
  match primary.candidates with
  | [] => (secondary.candidates.take limit.toNat).map (Backend.hazkey, ·)
  | primaryFirst :: _ =>
    let eligible := eligibleSecondary primaryFirst secondary
    if eligible = [] then primary.candidates.map (Backend.mozc, ·)
    else mergeKept limit (mergeOrder (shouldPromote policy primary.candidates eligible)
      primary.candidates eligible)

theorem merge_ends {primary secondary output : ConversionOutput} {options : ConversionOptions}
    (h : (merge n c primary secondary options).Ends hybridMachine (.foreground n) (Unhindered c) s
      calls output s') :
    List.Forall₂ RoutedAs (merged (s.converters c).promotionPolicy primary secondary
        options.suggestionListLimit) output.candidates ∧
      ((s'.converters c).candidateFencePublished = true →
        (∃ item ∈ output.candidates, item.isLearnable = true) ∨
        (s.converters c).candidateFencePublished = true) := by
  unfold merge at h
  unfold merged
  cases hprimary : primary.candidates with
  | nil =>
    simp only [hprimary] at h ⊢
    obtain ⟨_, _, items, u, -, hall, h⟩ := Task.ends_bind h
    obtain ⟨_, _, ⟨⟩, v, -, hpublish, -, rfl, hend⟩ := Task.ends_bind h
    obtain ⟨hitems, hu⟩ := routeAll_ends hall
    refine ⟨hitems, fun hflag => ?_⟩
    rcases publishOrRelease_ends hpublish (hend.published hflag) with hany | hflag
    · exact .inl (List.any_eq_true.mp hany)
    · exact .inr (hu.published hflag)
  | cons primaryFirst rest =>
    simp only [hprimary] at h ⊢
    by_cases heligible : eligibleSecondary primaryFirst secondary = []
    · rw [if_pos heligible]
      rw [if_pos (show secondary.candidates.filter _ = [] from heligible)] at h
      obtain ⟨_, _, ⟨⟩, u, -, hrelease, hroute⟩ := Task.ends_bind h
      obtain ⟨hitems, hu⟩ := routeOutput_ends hroute
      rw [hprimary] at hitems
      refine ⟨hitems, fun hflag => .inr ?_⟩
      rcases @publishOrRelease_ends _ _ _ _ _ false hrelease (hu.published hflag) with hfalse | h
      · cases hfalse
      · exact h
    · rw [if_neg heligible]
      rw [if_neg (show secondary.candidates.filter _ ≠ [] from heligible)] at h
      obtain ⟨_, _, policy, u, -, hpolicy, h⟩ := Task.ends_bind h
      obtain ⟨v, hv, -, -, rfl, hu⟩ := hpolicy
      obtain ⟨_, _, _, w, -, hordered, h⟩ := Task.ends_bind h
      obtain ⟨_, _, ⟨⟩, x, -, hpublish, -, rfl, hend⟩ := Task.ends_bind h
      obtain ⟨items, hitems, rfl, hw⟩ := mergeOrdered_ends hordered
      refine ⟨?_, fun hflag => ?_⟩
      · rw [← hv.policy]
        simp only [List.length_nil, Nat.cast_zero, Int.sub_zero] at hitems
        exact hitems
      · rcases publishOrRelease_ends hpublish (hend.published hflag) with hany | hflag
        · exact .inl (List.any_eq_true.mp hany)
        · exact .inr (hv.published (hu.published (hw.published hflag)))

/-! The specification of a merge that keeps the first candidate of Mozc. -/

/-- What is wanted of the candidates kept of Mozc's and of the eligible ones of Hazkey. -/
structure MozcFirst (primary eligible : List ConverterCandidate) (limit : Int)
    (kept : List (Backend × ConverterCandidate)) : Prop where
  bounded : kept.length ≤ limit.toNat
  distinct : (kept.map mergeKey).Nodup
  stable : (((firsts deduplicationKey [] (primary.take 3)).take limit.toNat).map
    (Backend.mozc, ·)) <+: kept
  ofMozc : ∀ x ∈ kept, x.1 = .mozc → x.2 ∈ primary
  ofHazkey : ∀ x ∈ kept, x.1 = .hazkey → x.2 ∈ eligible
  complete : ∀ x ∈ primary ++ eligible,
    (∃ y ∈ kept, mergeKey y = deduplicationKey x) ∨ kept.length = limit.toNat
  mozcCopy : ∀ x ∈ kept, mergeKey x ∈ (primary.take 3).map deduplicationKey → x.1 = .mozc

variable {primary eligible : List ConverterCandidate}

omit [CanonicalText] in
theorem mem_mergeOrder {x : Backend × ConverterCandidate}
    (h : x ∈ mergeOrder false primary eligible) :
    x.1 = .mozc ∧ x.2 ∈ primary ∨ x.1 = .hazkey ∧ x.2 ∈ eligible := by
  simp only [mergeOrder, Bool.false_eq_true, if_false, List.mem_append, List.mem_map] at h
  rcases h with (⟨y, hy, rfl⟩ | ⟨y, hy, rfl⟩) | ⟨y, hy, rfl⟩
  · exact .inl ⟨rfl, List.mem_of_mem_take hy⟩
  · exact .inr ⟨rfl, hy⟩
  · exact .inl ⟨rfl, List.mem_of_mem_drop hy⟩

omit [CanonicalText] in
theorem mergeOrder_covers {x : ConverterCandidate} (h : x ∈ primary ++ eligible) :
    ∃ y ∈ mergeOrder false primary eligible, y.2 = x := by
  simp only [mergeOrder, Bool.false_eq_true, if_false]
  rcases List.mem_append.mp h with h | h
  · rw [← List.take_append_drop 3 primary] at h
    rcases List.mem_append.mp h with h | h
    · exact ⟨(.mozc, x), List.mem_append_left _ (List.mem_append_left _ (List.mem_map_of_mem h)), rfl⟩
    · exact ⟨(.mozc, x), List.mem_append_right _ (List.mem_map_of_mem h), rfl⟩
  · exact ⟨(.hazkey, x), List.mem_append_left _ (List.mem_append_right _ (List.mem_map_of_mem h)),
      rfl⟩

omit [CanonicalText] in
theorem mergeOrder_eq : mergeOrder false primary eligible =
    (primary.take 3).map (Backend.mozc, ·) ++
      (eligible.map (Backend.hazkey, ·) ++ (primary.drop 3).map (Backend.mozc, ·)) := by
  simp only [mergeOrder, Bool.false_eq_true, if_false, List.append_assoc]

theorem mergeKept_mozcFirst (limit : Int) :
    MozcFirst primary eligible limit (mergeKept limit (mergeOrder false primary eligible)) := by
  have hmem {x : Backend × ConverterCandidate}
      (hx : x ∈ mergeKept limit (mergeOrder false primary eligible)) :
      x ∈ firsts mergeKey [] (mergeOrder false primary eligible) := List.mem_of_mem_take hx
  constructor
  case bounded => exact List.length_take_le _ _
  case distinct =>
    rw [mergeKept, List.map_take]
    exact firsts_keys_nodup.sublist (List.take_sublist _ _)
  case stable =>
    rw [mergeKept, mergeOrder_eq, firsts_append, List.take_append, firsts_map, List.map_take]
    exact List.prefix_append _ _
  case ofMozc =>
    intro x hx hmozc
    rcases mem_mergeOrder (mem_firsts (hmem hx)) with ⟨-, hprimary⟩ | ⟨hhazkey, -⟩
    · exact hprimary
    · rw [hmozc] at hhazkey
      cases hhazkey
  case ofHazkey =>
    intro x hx hhazkey
    rcases mem_mergeOrder (mem_firsts (hmem hx)) with ⟨hmozc, -⟩ | ⟨-, heligible⟩
    · rw [hmozc] at hhazkey
      cases hhazkey
    · exact heligible
  case complete =>
    intro x hx
    obtain ⟨y, hy, rfl⟩ := mergeOrder_covers hx
    obtain ⟨z, hz, hkey⟩ : ∃ z ∈ firsts mergeKey [] (mergeOrder false primary eligible),
        mergeKey z = mergeKey y := firsts_covers hy List.not_mem_nil
    by_cases hlength : (firsts mergeKey [] (mergeOrder false primary eligible)).length ≤ limit.toNat
    · rw [mergeKept, List.take_of_length_le hlength]
      exact .inl ⟨z, hz, hkey⟩
    · right
      rw [mergeKept, List.length_take]
      omega
  case mozcCopy =>
    intro x hx hkey
    have hfirst := hmem hx
    rw [mergeOrder_eq] at hfirst
    have hstable := firsts_append_mem hfirst (by
      rw [List.map_map]
      exact hkey)
    obtain ⟨y, -, rfl⟩ := List.mem_map.mp (mem_firsts hstable)
    rfl

/-- The answer of a merge that keeps the first candidate of Mozc, in every run. Where Hazkey has
nothing for the segment, the answer is Mozc's as it is. -/
theorem merge_mozcFirst {primary secondary output : ConversionOutput} {options : ConversionOptions}
    {primaryFirst : ConverterCandidate}
    (hpolicy : (s.converters c).promotionPolicy = .preserveMozcTop1)
    (hfirst : primary.candidates.head? = some primaryFirst)
    (h : (merge n c primary secondary options).Ends hybridMachine (.foreground n) (Unhindered c) s
      calls output s') :
    ∃ kept, List.Forall₂ RoutedAs kept output.candidates ∧
      (eligibleSecondary primaryFirst secondary ≠ [] → MozcFirst primary.candidates
        (eligibleSecondary primaryFirst secondary) options.suggestionListLimit kept) ∧
      (eligibleSecondary primaryFirst secondary = [] →
        kept = primary.candidates.map (Backend.mozc, ·)) ∧
      ((s'.converters c).candidateFencePublished = true →
        (∃ item ∈ output.candidates, item.isLearnable = true) ∨
        (s.converters c).candidateFencePublished = true) := by
  obtain ⟨hitems, hflag⟩ := merge_ends h
  refine ⟨_, hitems, ?_, ?_, hflag⟩
  · intro heligible
    obtain ⟨rest, hprimary⟩ : ∃ rest, primary.candidates = primaryFirst :: rest :=
      ⟨_, List.eq_cons_of_mem_head? (Option.mem_def.mpr hfirst)⟩
    simp only [merged, hprimary, if_neg heligible, hpolicy, shouldPromote]
    exact mergeKept_mozcFirst _
  · intro heligible
    obtain ⟨rest, hprimary⟩ : ∃ rest, primary.candidates = primaryFirst :: rest :=
      ⟨_, List.eq_cons_of_mem_head? (Option.mem_def.mpr hfirst)⟩
    simp only [merged, hprimary, if_pos heligible]

end

attribute [local instance] scalarText byteCodec composedText

def limitedOptions (suggestionListLimit : Int) : ConversionOptions where
  allowLearning := true
  zenzaiEnabled := false
  secureInput := false
  leftContext := []
  rightContext := []
  suggestionListMode := .predictive
  suggestionListLimit := suggestionListLimit

def twoOfMozc : ConversionOutput := ⟨[mozcCandidate "仮名".toList, mozcCandidate "カナ".toList], 2⟩

/-- A published window whose fence is kept for a learning that is still to come. -/
def deferredSystem : HybridSystem :=
  (soloProcess []).state.withConverter 0 fun h =>
    { h with
      candidateFence := some 1
      candidateFencePublished := true
      candidateFenceDeferredForLearning := true }

/-- Where Hazkey has nothing to add, the answer may be longer than the limit, and the window
stays published though it has nothing to learn. -/
theorem merge_mozcOnly : ∃ calls output s',
    (merge 0 0 twoOfMozc ⟨[], 0⟩ (limitedOptions 1)).Ends hybridMachine (.foreground 0)
      (Unhindered 0) deferredSystem calls output s' ∧
    ¬ (output.candidates.length : Int) ≤ 1 ∧
    (s'.converters 0).candidateFencePublished = true ∧
    ¬ ∃ item ∈ output.candidates, item.isLearnable = true := by
  have hsome : ((merge 0 0 twoOfMozc ⟨[], 0⟩ (limitedOptions 1)).exec hybridMachine (.foreground 0)
    segmentChildren deferredSystem).isSome = true := rfl
  exact ⟨_, _, _, Task.exec_ends (Option.some_get hsome).symm, by decide, rfl, by decide⟩

theorem merge_mozcFirst_two : ∃ kept,
    MozcFirst twoOfMozc.candidates [hazkeyCandidate "かな".toList] 9 kept := by
  have hsome : ((merge 0 0 twoOfMozc ⟨[hazkeyCandidate "かな".toList], 1⟩ (limitedOptions 9)).exec
    hybridMachine (.foreground 0) segmentChildren (soloProcess []).state).isSome = true := rfl
  obtain ⟨kept, -, hkept, -, -⟩ := merge_mozcFirst rfl rfl
    (Task.exec_ends (Option.some_get hsome).symm)
  exact ⟨kept, hkept (by decide)⟩

end Hazkey
