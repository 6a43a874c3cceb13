import Hazkey.CompositionIntegration

/-! The revisions a pin holds: the applied one stays while a composition is on, and the last one
that was seen is applied when it ends. -/

namespace Hazkey

section

variable [CanonicalText] {r s t : GrimodexIntegrationRevision}

theorem sameRevision_iff : sameRevision r s = true ↔ r.spelled = s.spelled := decide_eq_true_iff

theorem sameRevision_self (r : GrimodexIntegrationRevision) : sameRevision r r = true :=
  sameRevision_iff.mpr rfl

theorem sameRevision_symm (h : sameRevision r s = true) : sameRevision s r = true :=
  sameRevision_iff.mpr (sameRevision_iff.mp h).symm

theorem sameRevision_trans (h : sameRevision r s = true) (h' : sameRevision s t = true) :
    sameRevision r t = true :=
  sameRevision_iff.mpr ((sameRevision_iff.mp h).trans (sameRevision_iff.mp h'))

theorem secureInput_eq_of_same (h : sameRevision r s = true) : r.secureInput = s.secureInput := by
  have hspelled : r.spelled.secureInput = s.spelled.secureInput := by rw [sameRevision_iff.mp h]
  exact hspelled

end

namespace GrimodexCompositionGenerationPin

/-- What holds of a pin between calls, with a bound on the generations it has seen. -/
structure Well (pin : GrimodexCompositionGenerationPin) (bound : Nat) : Prop where
  idle : pin.pinned = none → pin.pending = none
  pinned : ∀ r, pin.pinned = some r → pin.applied = some r
  ordered : ∀ r s, pin.applied = some r → pin.pending = some s → r.generation ≤ s.generation
  appliedBound : ∀ r, pin.applied = some r → r.generation ≤ bound
  pendingBound : ∀ r, pin.pending = some r → r.generation ≤ bound
  appliedSecure : ∀ r, pin.applied = some r → r.secureInput = true → r.payload = none
  pendingSecure : ∀ r, pin.pending = some r → r.secureInput = true → r.payload = none

/-- A revision stays applied, or one of no smaller generation takes its place. -/
def Raises (pin pin' : GrimodexCompositionGenerationPin) : Prop :=
  ∀ r, pin.applied = some r → ∃ s, pin'.applied = some s ∧ r.generation ≤ s.generation

/-- What is given is what becomes applied. -/
def Gives (pin : GrimodexCompositionGenerationPin)
    (x : GrimodexCompositionGenerationPin × Option GrimodexIntegrationRevision) : Prop :=
  (x.2 = none ∧ x.1.applied = pin.applied) ∨ ∃ r, x.2 = some r ∧ x.1.applied = some r

variable {pin pin' : GrimodexCompositionGenerationPin} {bound bound' : Nat}
  {r : GrimodexIntegrationRevision}

theorem Well.mono (h : pin.Well bound) (hb : bound ≤ bound') : pin.Well bound' :=
  { h with
    appliedBound := fun r hr => Nat.le_trans (h.appliedBound r hr) hb
    pendingBound := fun r hr => Nat.le_trans (h.pendingBound r hr) hb }

theorem well_of_settled {applied : Option GrimodexIntegrationRevision}
    (hb : ∀ r, applied = some r → r.generation ≤ bound)
    (hs : ∀ r, applied = some r → r.secureInput = true → r.payload = none) :
    Well { applied := applied } bound where
  idle _ := rfl
  pinned _ hr := absurd hr (by simp)
  ordered _ _ _ hs := absurd hs (by simp)
  appliedBound := hb
  pendingBound _ hr := absurd hr (by simp)
  appliedSecure := hs
  pendingSecure _ hr := absurd hr (by simp)

theorem raises_of_eq (h : pin'.applied = pin.applied) : Raises pin pin' :=
  fun r hr => ⟨r, h.trans hr, Nat.le_refl _⟩

theorem raises_of_bound (h : pin.Well bound) (hr : pin'.applied = some r)
    (hb : bound ≤ r.generation) : Raises pin pin' :=
  fun s hs => ⟨r, hr, Nat.le_trans (h.appliedBound s hs) hb⟩

theorem isComposing_eq_false (h : pin.isComposing = false) : pin.pinned = none :=
  Option.not_isSome_iff_eq_none.mp (Bool.eq_false_iff.mp h)

theorem Well.latestBound (h : pin.Well bound) :
    ∀ s, pin.latestKnownRevision = some s → s.generation ≤ bound := by
  intro s hs
  cases hp : pin.pending with
  | some next =>
    rw [latestKnownRevision, hp] at hs
    obtain rfl := Option.some.inj hs
    exact h.pendingBound _ hp
  | none =>
    cases hpinned : pin.pinned with
    | some t =>
      rw [latestKnownRevision, hp, hpinned] at hs
      obtain rfl := Option.some.inj hs
      exact h.appliedBound _ (h.pinned _ hpinned)
    | none =>
      rw [latestKnownRevision, hp, hpinned] at hs
      exact h.appliedBound _ hs

theorem newestGeneration_eq (h : pin.Well bound) (hb : bound ≤ r.generation) :
    pin.newestGeneration r = r.generation := by
  have hall : ∀ known ∈ pin.applied.toList ++ pin.pending.toList ++ pin.pinned.toList,
      known.generation ≤ r.generation := by
    intro known hknown
    simp only [List.mem_append, Option.mem_toList] at hknown
    rcases hknown with (ha | hp) | hpinned
    · exact Nat.le_trans (h.appliedBound known ha) hb
    · exact Nat.le_trans (h.pendingBound known hp) hb
    · exact Nat.le_trans (h.appliedBound known (h.pinned known hpinned)) hb
  unfold newestGeneration
  generalize pin.applied.toList ++ pin.pending.toList ++ pin.pinned.toList = l at hall
  induction l with
  | nil => rfl
  | cons known l ih =>
    rw [List.foldl_cons, Nat.max_eq_left (hall known List.mem_cons_self)]
    exact ih fun other hother => hall other (List.mem_cons_of_mem known hother)

section

variable [CanonicalText]

theorem observe_of_ignored (h : pin.ignores r = true) : pin.observe r = (pin, none) := if_pos h

theorem observe_of_composing (h : pin.ignores r = false) (hc : pin.isComposing = true) :
    pin.observe r = ({ pin with pending := some r }, none) := by
  unfold observe
  rw [if_neg (by simp [h]), if_pos hc]

theorem observe_of_idle (h : pin.ignores r = false) (hc : pin.isComposing = false) :
    pin.observe r = ({ applied := some r }, some r) := by
  unfold observe
  rw [if_neg (by simp [h]), if_neg (by simp [hc]), isComposing_eq_false hc]

theorem gives_observe (pin : GrimodexCompositionGenerationPin) (r : GrimodexIntegrationRevision) :
    pin.Gives (pin.observe r) := by
  cases h : pin.ignores r with
  | true => exact Or.inl (by rw [observe_of_ignored h]; exact ⟨rfl, rfl⟩)
  | false =>
    cases hc : pin.isComposing with
    | true => exact Or.inl (by rw [observe_of_composing h hc]; exact ⟨rfl, rfl⟩)
    | false => exact Or.inr ⟨r, by rw [observe_of_idle h hc]; exact ⟨rfl, rfl⟩⟩

theorem applied_observe_of_composing (hc : pin.isComposing = true) :
    (pin.observe r).1.applied = pin.applied ∧ (pin.observe r).1.pinned = pin.pinned ∧
      (pin.observe r).2 = none := by
  cases h : pin.ignores r with
  | true =>
    rw [observe_of_ignored h]
    exact ⟨rfl, rfl, rfl⟩
  | false =>
    rw [observe_of_composing h hc]
    exact ⟨rfl, rfl, rfl⟩

/-- Of a revision that is no older than what is applied. -/
theorem Well.observe (h : pin.Well bound) (hr : r.generation ≤ bound)
    (hup : ∀ s, pin.applied = some s → s.generation ≤ r.generation)
    (hsecure : r.secureInput = true → r.payload = none) :
    (pin.observe r).1.Well bound ∧ Raises pin (pin.observe r).1 := by
  cases hi : pin.ignores r with
  | true =>
    rw [observe_of_ignored hi]
    exact ⟨h, raises_of_eq rfl⟩
  | false =>
    cases hc : pin.isComposing with
    | true =>
      rw [observe_of_composing hi hc]
      refine ⟨{ h with
        idle := fun hp => ?_
        ordered := ?_
        pendingBound := ?_
        pendingSecure := ?_ }, raises_of_eq rfl⟩
      · change pin.pinned = none at hp
        rw [isComposing, hp] at hc
        exact absurd hc Bool.false_ne_true
      · rintro s _ hs ⟨⟩
        exact hup s hs
      · rintro _ ⟨⟩
        exact hr
      · rintro _ ⟨⟩
        exact hsecure
    | false =>
      rw [observe_of_idle hi hc]
      refine ⟨well_of_settled ?_ ?_, fun s hs => ⟨r, rfl, hup s hs⟩⟩
      · rintro _ ⟨⟩
        exact hr
      · rintro _ ⟨⟩
        exact hsecure

theorem beginComposition_of_composing (hc : pin.isComposing = true) :
    pin.beginComposition r = ((pin.observe r).1, none) := if_pos hc

theorem beginComposition_of_idle (hc : pin.isComposing = false) :
    pin.beginComposition r =
      ({ (pin.observe r).1 with pinned := (pin.observe r).1.applied }, (pin.observe r).2) :=
  if_neg (by simp [hc])

theorem gives_beginComposition (pin : GrimodexCompositionGenerationPin)
    (r : GrimodexIntegrationRevision) : pin.Gives (pin.beginComposition r) := by
  cases hc : pin.isComposing with
  | true =>
    rw [beginComposition_of_composing hc]
    exact Or.inl ⟨rfl, (applied_observe_of_composing hc).1⟩
  | false =>
    rw [beginComposition_of_idle hc]
    exact gives_observe pin r

theorem Well.beginComposition (h : pin.Well bound) (hr : r.generation ≤ bound)
    (hup : ∀ s, pin.applied = some s → s.generation ≤ r.generation)
    (hsecure : r.secureInput = true → r.payload = none) :
    (pin.beginComposition r).1.Well bound ∧ Raises pin (pin.beginComposition r).1 := by
  obtain ⟨hwell, hraises⟩ := h.observe hr hup hsecure
  cases hc : pin.isComposing with
  | true =>
    rw [beginComposition_of_composing hc]
    exact ⟨hwell, hraises⟩
  | false =>
    rw [beginComposition_of_idle hc]
    have hpinned : (pin.observe r).1.pinned = none := by
      cases hi : pin.ignores r with
      | true =>
        rw [observe_of_ignored hi]
        exact isComposing_eq_false hc
      | false =>
        rw [observe_of_idle hi hc]
    exact ⟨{ hwell with
      idle := fun _ => hwell.idle hpinned
      pinned := fun _ hs => hs }, hraises⟩

theorem release_of_none (h : pin.pending = none) :
    pin.release = ({ applied := pin.applied }, none) := by
  unfold release
  rw [h]

theorem release_of_same {s : GrimodexIntegrationRevision} (h : pin.pending = some s)
    (ha : pin.applied.any (sameRevision · s) = true) :
    pin.release = ({ applied := pin.applied }, none) := by
  unfold release
  rw [h]
  exact if_pos ha

theorem release_of_other {s : GrimodexIntegrationRevision} (h : pin.pending = some s)
    (ha : pin.applied.any (sameRevision · s) = false) :
    pin.release = ({ applied := some s, pending := none, pinned := none }, some s) := by
  unfold release
  rw [h]
  exact if_neg (by simp [ha])

theorem gives_release (pin : GrimodexCompositionGenerationPin) : pin.Gives pin.release := by
  cases h : pin.pending with
  | none => exact Or.inl (by rw [release_of_none h]; exact ⟨rfl, rfl⟩)
  | some s =>
    cases ha : pin.applied.any (sameRevision · s) with
    | true => exact Or.inl (by rw [release_of_same h ha]; exact ⟨rfl, rfl⟩)
    | false => exact Or.inr ⟨s, by rw [release_of_other h ha]; exact ⟨rfl, rfl⟩⟩

theorem Well.release (h : pin.Well bound) :
    pin.release.1.Well bound ∧ Raises pin pin.release.1 := by
  cases hp : pin.pending with
  | none =>
    rw [release_of_none hp]
    exact ⟨well_of_settled h.appliedBound h.appliedSecure, raises_of_eq rfl⟩
  | some s =>
    cases ha : pin.applied.any (sameRevision · s) with
    | true =>
      rw [release_of_same hp ha]
      exact ⟨well_of_settled h.appliedBound h.appliedSecure, raises_of_eq rfl⟩
    | false =>
      rw [release_of_other hp ha]
      refine ⟨well_of_settled ?_ ?_, fun a haa => ⟨s, rfl, h.ordered a s haa hp⟩⟩
      · rintro _ ⟨⟩
        exact h.pendingBound s hp
      · rintro _ ⟨⟩
        exact h.pendingSecure s hp

theorem gives_endComposition (pin : GrimodexCompositionGenerationPin)
    (r : GrimodexIntegrationRevision) : pin.Gives (pin.endComposition r) := by
  unfold endComposition
  cases hc : pin.isComposing with
  | true =>
    rw [if_pos rfl]
    have happlied := (applied_observe_of_composing (r := r) hc).1
    rcases gives_release (pin.observe r).1 with ⟨hnone, heq⟩ | hsome
    · exact Or.inl ⟨hnone, heq.trans happlied⟩
    · exact Or.inr hsome
  | false =>
    rw [if_neg Bool.false_ne_true]
    exact gives_observe pin r

theorem Well.endComposition (h : pin.Well bound) (hr : r.generation ≤ bound)
    (hup : ∀ s, pin.applied = some s → s.generation ≤ r.generation)
    (hsecure : r.secureInput = true → r.payload = none) :
    (pin.endComposition r).1.Well bound ∧ Raises pin (pin.endComposition r).1 := by
  obtain ⟨hwell, hraises⟩ := h.observe hr hup hsecure
  unfold GrimodexCompositionGenerationPin.endComposition
  cases hc : pin.isComposing with
  | true =>
    rw [if_pos rfl]
    obtain ⟨hreleased, hraises'⟩ := hwell.release
    refine ⟨hreleased, fun s hs => ?_⟩
    obtain ⟨s', hs', hle⟩ := hraises s hs
    obtain ⟨s'', hs'', hle'⟩ := hraises' s' hs'
    exact ⟨s'', hs'', Nat.le_trans hle hle'⟩
  | false =>
    rw [if_neg Bool.false_ne_true]
    exact ⟨hwell, hraises⟩

/-- A revision that is not older than all that is known is what is known then. -/
theorem latest_of_observe (hb : ∀ s, pin.latestKnownRevision = some s → s.generation ≤ r.generation) :
    ∃ s, (pin.observe r).1.latestKnownRevision = some s ∧ sameRevision s r = true := by
  cases hi : pin.ignores r with
  | true =>
    rw [observe_of_ignored hi]
    obtain ⟨s, hs, hsame⟩ := (Option.any_eq_true _ _).mp hi
    rcases Bool.or_eq_true_iff.mp hsame with hlt | hsame
    · have := hb s hs
      rw [decide_eq_true_eq] at hlt
      omega
    · exact ⟨s, hs, sameRevision_symm hsame⟩
  | false =>
    cases hc : pin.isComposing with
    | true =>
      rw [observe_of_composing hi hc]
      exact ⟨r, rfl, sameRevision_self r⟩
    | false =>
      rw [observe_of_idle hi hc]
      exact ⟨r, rfl, sameRevision_self r⟩

/-- What is known last is applied when the composition ends. -/
theorem applied_release (h : pin.Well bound) {s : GrimodexIntegrationRevision}
    (hs : pin.latestKnownRevision = some s) :
    ∃ t, pin.release.1.applied = some t ∧ sameRevision t s = true := by
  cases hp : pin.pending with
  | none =>
    rw [release_of_none hp]
    refine ⟨s, ?_, sameRevision_self s⟩
    cases hpinned : pin.pinned with
    | none =>
      rw [latestKnownRevision, hp, hpinned] at hs
      exact hs
    | some t =>
      rw [latestKnownRevision, hp, hpinned] at hs
      obtain rfl := Option.some.inj hs
      exact h.pinned _ hpinned
  | some next =>
    rw [latestKnownRevision, hp] at hs
    obtain rfl := Option.some.inj hs
    cases ha : pin.applied.any (sameRevision · next) with
    | true =>
      rw [release_of_same hp ha]
      obtain ⟨t, ht, hsame⟩ := (Option.any_eq_true _ _).mp ha
      exact ⟨t, ht, hsame⟩
    | false =>
      rw [release_of_other hp ha]
      exact ⟨next, rfl, sameRevision_self next⟩

theorem applied_endComposition (h : pin.Well bound) (hb : bound ≤ r.generation)
    (hsecure : r.secureInput = true → r.payload = none) :
    ∃ t, (pin.endComposition r).1.applied = some t ∧ sameRevision t r = true := by
  have hwell := ((h.mono hb).observe (Nat.le_refl _)
    (fun s hs => Nat.le_trans (h.appliedBound s hs) hb) hsecure).1
  obtain ⟨s, hs, hsame⟩ := latest_of_observe (r := r)
    fun s hs => Nat.le_trans (h.latestBound s hs) hb
  unfold endComposition
  cases hc : pin.isComposing with
  | true =>
    rw [if_pos rfl]
    obtain ⟨t, ht, hts⟩ := applied_release hwell hs
    exact ⟨t, ht, sameRevision_trans hts hsame⟩
  | false =>
    rw [if_neg Bool.false_ne_true]
    cases hi : pin.ignores r with
    | true =>
      rw [observe_of_ignored hi] at hs ⊢
      have hpinned := isComposing_eq_false hc
      rw [latestKnownRevision, h.idle hpinned, hpinned] at hs
      exact ⟨s, hs, hsame⟩
    | false =>
      rw [observe_of_idle hi hc]
      exact ⟨r, rfl, sameRevision_self r⟩

/-! Revocation. -/

theorem gives_revokeImmediately (pin : GrimodexCompositionGenerationPin)
    (r : GrimodexIntegrationRevision) : pin.Gives (pin.revokeImmediately r) := by
  unfold revokeImmediately
  by_cases h : pin.applied.any (sameRevision · (pin.revoked r)) = true
  · rw [if_pos h]
    exact Or.inl ⟨rfl, rfl⟩
  · rw [if_neg h]
    exact Or.inr ⟨_, rfl, rfl⟩

theorem Well.revokeImmediately (h : pin.Well bound) (hb : bound ≤ r.generation) :
    (pin.revokeImmediately r).1.Well r.generation ∧ Raises pin (pin.revokeImmediately r).1 := by
  have hgeneration : (pin.revoked r).generation = r.generation := newestGeneration_eq h hb
  have hm := h.mono hb
  unfold GrimodexCompositionGenerationPin.revokeImmediately
  by_cases hsame : pin.applied.any (sameRevision · (pin.revoked r)) = true
  · rw [if_pos hsame]
    exact ⟨well_of_settled hm.appliedBound hm.appliedSecure, raises_of_eq rfl⟩
  · rw [if_neg hsame]
    refine ⟨well_of_settled ?_ ?_, raises_of_bound h rfl (by omega)⟩
    · rintro _ ⟨⟩
      exact Nat.le_of_eq hgeneration
    · rintro _ ⟨⟩ -
      rfl

theorem secure_revokeImmediately (pin : GrimodexCompositionGenerationPin)
    (r : GrimodexIntegrationRevision) :
    ∃ s, (pin.revokeImmediately r).1.applied = some s ∧ s.secureInput = true := by
  unfold revokeImmediately
  by_cases h : pin.applied.any (sameRevision · (pin.revoked r)) = true
  · rw [if_pos h]
    obtain ⟨s, hs, hsame⟩ := (Option.any_eq_true _ _).mp h
    exact ⟨s, hs, secureInput_eq_of_same hsame⟩
  · rw [if_neg h]
    exact ⟨_, rfl, rfl⟩

end

end GrimodexCompositionGenerationPin

end Hazkey
