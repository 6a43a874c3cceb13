import Hazkey.GenerationPins
import Hazkey.HybridEvaluation
import Mathlib.Data.List.Induction

/-! What the converter is given is the applied revision, and during a composition that stays
the one it began with. -/

namespace Hazkey

namespace GrimodexCompositionIntegrationController

/-- What the converter and the session are given of a revision. -/
structure Shown where
  dictionary : List GrimodexMappedDictionaryEntry × GrimodexProjectDictionaryIndex
  conditions : GrimodexProjectConditions
  allowsLearning : Bool
  secureInput : Bool

def shownOf : Option GrimodexIntegrationRevision → Shown
  | none =>
    { dictionary := ([], {}), conditions := .empty, allowsLearning := true, secureInput := false }
  | some revision =>
    { dictionary := ((revision.payload.map (·.dictionaryEntries)).getD [],
        (revision.payload.map (·.dictionaryIndex)).getD {})
      conditions := (revision.payload.map (·.conditions)).getD .empty
      allowsLearning := revision.allowsLearning
      secureInput := revision.secureInput }

def shown (controller : GrimodexCompositionIntegrationController) : Shown where
  dictionary := controller.installed
  conditions := controller.activeConditions
  allowsLearning := controller.allowsLearning
  secureInput := controller.secureInput

def Mirrors (controller : GrimodexCompositionIntegrationController) : Prop :=
  controller.shown = shownOf controller.appliedRevision

variable {controller : GrimodexCompositionIntegrationController}
  {x : GrimodexCompositionGenerationPin × Option GrimodexIntegrationRevision}

theorem mirrors_initial : Mirrors {} := rfl

theorem installed_apply (revision : GrimodexIntegrationRevision) :
    (controller.apply revision).installed =
      ((revision.payload.map (·.dictionaryEntries)).getD [],
        (revision.payload.map (·.dictionaryIndex)).getD {}) := by
  unfold installed apply
  rw [List.foldl_append]
  rfl

theorem shown_apply (revision : GrimodexIntegrationRevision) :
    (controller.apply revision).shown = shownOf (some revision) := by
  unfold shown
  rw [installed_apply]
  rfl

/-- Calls that install nothing. -/
theorem shown_called {call : ApplierCall}
    (h : call = .stopComposition ∨ call = .abortSessionComposition) :
    (controller.called call).shown = controller.shown := by
  unfold shown installed called
  rcases h with rfl | rfl <;> rw [List.foldl_append] <;> rfl

theorem mirrors_applyIfAny (h : controller.Mirrors) (hx : controller.generationPin.Gives x) :
    (controller.applyIfAny x).Mirrors ∧ (controller.applyIfAny x).generationPin = x.1 := by
  obtain ⟨pin, out⟩ := x
  rcases hx with ⟨hnone, heq⟩ | ⟨revision, hsome, heq⟩
  · obtain rfl : out = none := hnone
    refine ⟨?_, rfl⟩
    have happlied : pin.applied = controller.appliedRevision := heq
    show controller.shown = shownOf pin.applied
    rw [happlied]
    exact h
  · obtain rfl : out = some revision := hsome
    refine ⟨?_, rfl⟩
    have happlied : pin.applied = some revision := heq
    show (apply { controller with generationPin := pin } revision).shown = shownOf pin.applied
    rw [shown_apply, happlied]

theorem mirrors_stopAndApply (h : controller.Mirrors) (hx : controller.generationPin.Gives x) :
    (controller.stopAndApply x).Mirrors ∧ (controller.stopAndApply x).generationPin = x.1 := by
  obtain ⟨pin, out⟩ := x
  cases out with
  | none => exact mirrors_applyIfAny h hx
  | some revision =>
    rcases hx with ⟨hnone, -⟩ | ⟨other, hsome, heq⟩
    · exact absurd hnone (by simp)
    · obtain rfl := Option.some.inj hsome
      refine ⟨?_, rfl⟩
      have happlied : pin.applied = some revision := heq
      show (apply (called { controller with generationPin := pin } .stopComposition)
        revision).shown = shownOf pin.applied
      rw [shown_apply, happlied]

theorem mirrors_called {call : ApplierCall} (h : controller.Mirrors)
    (hcall : call = .stopComposition ∨ call = .abortSessionComposition) :
    (controller.called call).Mirrors := (shown_called hcall).trans h

/-- What holds of a controller between calls. -/
structure Well (controller : GrimodexCompositionIntegrationController) (bound : Nat) : Prop where
  mirrors : controller.Mirrors
  pin : controller.generationPin.Well bound

theorem Well.mono {bound bound' : Nat} (h : controller.Well bound) (hb : bound ≤ bound') :
    controller.Well bound' := ⟨h.mirrors, h.pin.mono hb⟩

theorem well_initial : Well {} 0 :=
  ⟨mirrors_initial, GrimodexCompositionGenerationPin.well_of_settled (fun _ h => absurd h (by simp))
    fun _ h => absurd h (by simp)⟩

theorem secureInput_eq (h : controller.Mirrors) :
    controller.secureInput = (controller.appliedRevision.map (·.secureInput)).getD false := by
  have hshown : controller.shown.secureInput = (shownOf controller.appliedRevision).secureInput :=
    congrArg Shown.secureInput h
  rw [show controller.secureInput = controller.shown.secureInput from rfl, hshown]
  cases controller.appliedRevision <;> rfl

theorem exists_of_secureInput (h : controller.Mirrors) (hs : controller.secureInput = true) :
    ∃ r, controller.appliedRevision = some r ∧ r.secureInput = true := by
  rw [secureInput_eq h] at hs
  cases hr : controller.appliedRevision with
  | none =>
    rw [hr] at hs
    exact absurd hs Bool.false_ne_true
  | some r =>
    rw [hr] at hs
    exact ⟨r, rfl, hs⟩

/-- Nothing of a project is given while the applied revision is secure. -/
theorem installed_of_secure {bound : Nat} (h : controller.Well bound) {r : GrimodexIntegrationRevision}
    (hr : controller.appliedRevision = some r) (hs : r.secureInput = true) :
    controller.installed = ([], {}) := by
  have hpayload := h.pin.appliedSecure r hr hs
  have hdictionary : controller.shown.dictionary = (shownOf controller.appliedRevision).dictionary :=
    congrArg Shown.dictionary h.mirrors
  rw [hr] at hdictionary
  change controller.installed = ((r.payload.map (·.dictionaryEntries)).getD [],
    (r.payload.map (·.dictionaryIndex)).getD {}) at hdictionary
  rw [hdictionary, hpayload]
  rfl

theorem secureRevisionIfNeeded_of_not_secure {r : GrimodexIntegrationRevision}
    (h : r.secureInput = false) :
    secureRevisionIfNeeded r = r := if_neg (by simp [h])

theorem secureRevisionIfNeeded_payload {r : GrimodexIntegrationRevision}
    (h : (secureRevisionIfNeeded r).secureInput = true) :
    (secureRevisionIfNeeded r).payload = none := by
  unfold secureRevisionIfNeeded at h ⊢
  cases hs : r.secureInput with
  | true => rfl
  | false =>
    rw [hs, if_neg Bool.false_ne_true, hs] at h
    exact absurd h Bool.false_ne_true

theorem secureRevisionIfNeeded_generation {r : GrimodexIntegrationRevision} :
    (secureRevisionIfNeeded r).generation = r.generation := by
  unfold secureRevisionIfNeeded
  split <;> rfl

section

variable [CanonicalText] {bound : Nat} {r : GrimodexIntegrationRevision}

theorem revoke_well (h : controller.Well bound) (hb : bound ≤ r.generation) :
    (controller.revokeImmediately r).Well r.generation ∧
      GrimodexCompositionGenerationPin.Raises controller.generationPin
        (controller.revokeImmediately r).generationPin := by
  obtain ⟨hmirrors, hpin⟩ := mirrors_applyIfAny (mirrors_called h.mirrors (Or.inr rfl))
    (GrimodexCompositionGenerationPin.gives_revokeImmediately controller.generationPin r)
  obtain ⟨hwell, hraises⟩ := h.pin.revokeImmediately hb
  unfold revokeImmediately
  exact ⟨⟨hmirrors, hpin ▸ hwell⟩, hpin ▸ hraises⟩

theorem revoke_secure (h : controller.Mirrors) : ∃ s,
    (controller.revokeImmediately r).appliedRevision = some s ∧ s.secureInput = true := by
  obtain ⟨-, hpin⟩ := mirrors_applyIfAny (mirrors_called h (Or.inr rfl))
    (GrimodexCompositionGenerationPin.gives_revokeImmediately controller.generationPin r)
  unfold revokeImmediately appliedRevision
  rw [hpin]
  exact GrimodexCompositionGenerationPin.secure_revokeImmediately _ r

theorem revokeIfNeeded_well (h : controller.Well bound) (hb : bound ≤ r.generation) :
    (controller.revokeIfNeeded r).Well r.generation ∧
      GrimodexCompositionGenerationPin.Raises controller.generationPin
        (controller.revokeIfNeeded r).generationPin := by
  unfold revokeIfNeeded
  cases hs : controller.secureInput with
  | true => exact ⟨h.mono hb, GrimodexCompositionGenerationPin.raises_of_eq rfl⟩
  | false => exact revoke_well h hb

theorem revokeIfNeeded_secure (h : controller.Mirrors) : ∃ s,
    (controller.revokeIfNeeded r).appliedRevision = some s ∧ s.secureInput = true := by
  unfold revokeIfNeeded
  cases hs : controller.secureInput with
  | true => exact exists_of_secureInput h hs
  | false => exact revoke_secure h

/-- To begin a composition with the revision that is applied changes no more than the pin. -/
theorem begin_applied_well (h : controller.Well bound) (hr : controller.appliedRevision = some r) :
    Well { controller with generationPin := (controller.generationPin.beginComposition r).1 } bound ∧
      (controller.generationPin.beginComposition r).1.applied = some r := by
  have hsame : (controller.generationPin.beginComposition r).1.applied = some r := by
    cases hc : controller.generationPin.isComposing with
    | true =>
      rw [GrimodexCompositionGenerationPin.beginComposition_of_composing hc]
      exact (GrimodexCompositionGenerationPin.applied_observe_of_composing hc).1.trans hr
    | false =>
      rw [GrimodexCompositionGenerationPin.beginComposition_of_idle hc]
      have hp := GrimodexCompositionGenerationPin.isComposing_eq_false hc
      have hlatest : controller.generationPin.latestKnownRevision = some r := by
        rw [GrimodexCompositionGenerationPin.latestKnownRevision, h.pin.idle hp, hp]
        exact hr
      have hi : controller.generationPin.ignores r = true := by
        unfold GrimodexCompositionGenerationPin.ignores
        rw [hlatest, Option.any_some, sameRevision_self, Bool.or_true]
      rw [GrimodexCompositionGenerationPin.observe_of_ignored hi]
      exact hr
  have hpin := (h.pin.beginComposition (h.pin.appliedBound r hr)
    (fun s hs => by rw [hr.symm.trans hs |> Option.some.inj]) (h.pin.appliedSecure r hr)).1
  refine ⟨⟨?_, hpin⟩, hsame⟩
  show controller.shown = shownOf (controller.generationPin.beginComposition r).1.applied
  rw [hsame, ← hr]
  exact h.mirrors

theorem prepareFirstInput_of_secure {s : GrimodexIntegrationRevision} (h : r.secureInput = true)
    (hs : (controller.revokeIfNeeded r).appliedRevision = some s) : controller.prepareFirstInput r =
      { controller.revokeIfNeeded r with
        generationPin := ((controller.revokeIfNeeded r).generationPin.beginComposition s).1 } := by
  change (controller.revokeIfNeeded r).generationPin.applied = some s at hs
  unfold prepareFirstInput
  rw [if_pos h, hs]

theorem prepareFirstInput_of_not_secure (h : r.secureInput = false) :
    controller.prepareFirstInput r =
      controller.stopAndApply (controller.generationPin.beginComposition r) := by
  unfold prepareFirstInput
  rw [if_neg (by simp [h]), secureRevisionIfNeeded_of_not_secure h]

theorem observe_of_secure (h : r.secureInput = true) :
    controller.observe r = controller.revokeIfNeeded r := if_pos h

theorem observe_of_not_secure (h : r.secureInput = false) : controller.observe r =
    controller.stopAndApply (controller.generationPin.observe r) := if_neg (by simp [h])

/-- Whatever the call, the revisions are not older than those seen before. -/
theorem perform_well (h : controller.Well bound) {call : Call}
    (hb : bound ≤ call.revision.generation) :
    (controller.perform call).Well call.revision.generation ∧
      GrimodexCompositionGenerationPin.Raises controller.generationPin
        (controller.perform call).generationPin := by
  have hm := h.mono hb
  have hup : ∀ s, controller.generationPin.applied = some s →
      s.generation ≤ call.revision.generation := hm.pin.appliedBound
  cases call with
  | prepareFirstInput latest =>
    show (controller.prepareFirstInput latest).Well latest.generation ∧ _
    cases hs : latest.secureInput with
    | true =>
      obtain ⟨hwell, hraises⟩ := revokeIfNeeded_well (r := latest) h hb
      obtain ⟨s, happlied, -⟩ := revokeIfNeeded_secure (r := latest) h.mirrors
      obtain ⟨hbegun, hsame⟩ := begin_applied_well hwell happlied
      show _ ∧ GrimodexCompositionGenerationPin.Raises controller.generationPin
        (controller.prepareFirstInput latest).generationPin
      rw [prepareFirstInput_of_secure hs happlied]
      refine ⟨hbegun, fun t ht => ?_⟩
      obtain ⟨t', ht', hle⟩ := hraises t ht
      exact ⟨t', (hsame.trans happlied.symm).trans ht', hle⟩
    | false =>
      have hsecure : latest.secureInput = true → latest.payload = none := fun he =>
        absurd (hs.symm.trans he) Bool.false_ne_true
      obtain ⟨hmirrors, hpin⟩ := mirrors_stopAndApply h.mirrors
        (GrimodexCompositionGenerationPin.gives_beginComposition controller.generationPin latest)
      obtain ⟨hwell, hraises⟩ := hm.pin.beginComposition (Nat.le_refl _) hup hsecure
      show _ ∧ GrimodexCompositionGenerationPin.Raises controller.generationPin
        (controller.prepareFirstInput latest).generationPin
      rw [prepareFirstInput_of_not_secure hs]
      exact ⟨⟨hmirrors, hpin ▸ hwell⟩, hpin ▸ hraises⟩
  | observe revision =>
    show (controller.observe revision).Well revision.generation ∧
      GrimodexCompositionGenerationPin.Raises controller.generationPin
        (controller.observe revision).generationPin
    cases hs : revision.secureInput with
    | true =>
      rw [observe_of_secure hs]
      exact revokeIfNeeded_well h hb
    | false =>
      have hsecure : revision.secureInput = true → revision.payload = none := fun he =>
        absurd (hs.symm.trans he) Bool.false_ne_true
      obtain ⟨hmirrors, hpin⟩ := mirrors_stopAndApply h.mirrors
        (GrimodexCompositionGenerationPin.gives_observe controller.generationPin revision)
      obtain ⟨hwell, hraises⟩ := hm.pin.observe (Nat.le_refl _) hup hsecure
      rw [observe_of_not_secure hs]
      exact ⟨⟨hmirrors, hpin ▸ hwell⟩, hpin ▸ hraises⟩
  | endOrReset latest =>
    show (controller.endOrReset latest).Well latest.generation ∧
      GrimodexCompositionGenerationPin.Raises controller.generationPin
        (controller.endOrReset latest).generationPin
    unfold endOrReset
    by_cases hrevokes : (latest.secureInput && !controller.secureInput) = true
    · rw [if_pos hrevokes]
      exact revoke_well h hb
    · rw [if_neg hrevokes]
      obtain ⟨hmirrors, hpin⟩ := mirrors_applyIfAny (mirrors_called h.mirrors (Or.inl rfl))
        (GrimodexCompositionGenerationPin.gives_endComposition controller.generationPin
          (secureRevisionIfNeeded latest))
      obtain ⟨hwell, hraises⟩ := hm.pin.endComposition
        (Nat.le_of_eq secureRevisionIfNeeded_generation)
        (fun s hs => by rw [secureRevisionIfNeeded_generation]; exact hup s hs)
        secureRevisionIfNeeded_payload
      exact ⟨⟨hmirrors, hpin ▸ hwell⟩, hpin ▸ hraises⟩
  | revokeImmediately revision => exact revoke_well h hb

/-- After a call with a secure revision the applied one is secure, and after a revocation. -/
theorem perform_secure (h : controller.Well bound) {call : Call}
    (hb : bound ≤ call.revision.generation) (hs : call.revision.secureInput = true) :
    ∃ s, (controller.perform call).appliedRevision = some s ∧ s.secureInput = true := by
  cases call with
  | prepareFirstInput latest =>
    change latest.secureInput = true at hs
    obtain ⟨s, happlied, hsecure⟩ := revokeIfNeeded_secure (r := latest) h.mirrors
    have hsame := (begin_applied_well (revokeIfNeeded_well (r := latest) h hb).1 happlied).2
    refine ⟨s, ?_, hsecure⟩
    show (controller.prepareFirstInput latest).appliedRevision = some s
    rw [prepareFirstInput_of_secure hs happlied]
    exact hsame
  | observe revision =>
    change revision.secureInput = true at hs
    show ∃ s, (controller.observe revision).appliedRevision = some s ∧ _
    rw [observe_of_secure hs]
    exact revokeIfNeeded_secure h.mirrors
  | endOrReset latest =>
    change latest.secureInput = true at hs
    show ∃ s, (controller.endOrReset latest).appliedRevision = some s ∧ _
    unfold endOrReset
    by_cases hrevokes : (latest.secureInput && !controller.secureInput) = true
    · rw [if_pos hrevokes]
      exact revoke_secure h.mirrors
    · rw [if_neg hrevokes]
      obtain ⟨-, hpin⟩ := mirrors_applyIfAny (mirrors_called h.mirrors (Or.inl rfl))
        (GrimodexCompositionGenerationPin.gives_endComposition controller.generationPin
          (secureRevisionIfNeeded latest))
      obtain ⟨t, ht, hsame⟩ := GrimodexCompositionGenerationPin.applied_endComposition h.pin
        (r := secureRevisionIfNeeded latest)
        (by rw [secureRevisionIfNeeded_generation]; exact hb) secureRevisionIfNeeded_payload
      refine ⟨t, ?_, ?_⟩
      · unfold appliedRevision
        rw [hpin]
        exact ht
      · rw [secureInput_eq_of_same hsame]
        unfold secureRevisionIfNeeded
        rw [if_pos hs]
  | revokeImmediately revision => exact revoke_secure h.mirrors

theorem endOrReset_applies (h : controller.Well bound) (hb : bound ≤ r.generation)
    (hs : r.secureInput = false) :
    ∃ t, (controller.endOrReset r).appliedRevision = some t ∧ sameRevision t r = true := by
  unfold endOrReset
  rw [if_neg (by simp [hs]), secureRevisionIfNeeded_of_not_secure hs]
  obtain ⟨-, hpin⟩ := mirrors_applyIfAny (mirrors_called h.mirrors (Or.inl rfl))
    (GrimodexCompositionGenerationPin.gives_endComposition controller.generationPin r)
  unfold appliedRevision
  rw [hpin]
  exact GrimodexCompositionGenerationPin.applied_endComposition h.pin hb fun he =>
    absurd (hs.symm.trans he) Bool.false_ne_true

/-! During a composition. -/

/-- The call takes what is applied away. -/
def Revokes (controller : GrimodexCompositionIntegrationController) : Call → Prop
  | .revokeImmediately _ => True
  | call => call.revision.secureInput = true ∧ controller.secureInput = false

def Ends : Call → Prop
  | .endOrReset _ => True
  | _ => False

/-- Calls before the composition ends, and before it is revoked. -/
def Undisturbed (controller : GrimodexCompositionIntegrationController) : List Call → Prop
  | [] => True
  | call :: calls => ¬Ends call ∧ ¬controller.Revokes call ∧ (controller.perform call).Undisturbed calls

theorem composing_beginComposition {pin : GrimodexCompositionGenerationPin} (h : pin.Well bound) :
    (pin.beginComposition r).1.isComposing = true := by
  cases hc : pin.isComposing with
  | true =>
    rw [GrimodexCompositionGenerationPin.beginComposition_of_composing hc]
    unfold GrimodexCompositionGenerationPin.isComposing
    rw [(GrimodexCompositionGenerationPin.applied_observe_of_composing hc).2.1]
    exact hc
  | false =>
    rw [GrimodexCompositionGenerationPin.beginComposition_of_idle hc]
    show (pin.observe r).1.applied.isSome = true
    cases hi : pin.ignores r with
    | true =>
      rw [GrimodexCompositionGenerationPin.observe_of_ignored hi]
      obtain ⟨s, hs, -⟩ := (Option.any_eq_true _ _).mp hi
      have hp := GrimodexCompositionGenerationPin.isComposing_eq_false hc
      rw [GrimodexCompositionGenerationPin.latestKnownRevision, h.idle hp, hp] at hs
      rw [show pin.applied = some s from hs]
      rfl
    | false =>
      rw [GrimodexCompositionGenerationPin.observe_of_idle hi hc]
      rfl

theorem composing_prepareFirstInput (h : controller.Well bound) (hb : bound ≤ r.generation) :
    (controller.prepareFirstInput r).generationPin.isComposing = true := by
  cases hs : r.secureInput with
  | true =>
    obtain ⟨s, happlied, -⟩ := revokeIfNeeded_secure (r := r) h.mirrors
    rw [prepareFirstInput_of_secure hs happlied]
    exact composing_beginComposition (revokeIfNeeded_well h hb).1.pin
  | false =>
    have hpin := (mirrors_stopAndApply h.mirrors
      (GrimodexCompositionGenerationPin.gives_beginComposition controller.generationPin r)).2
    rw [prepareFirstInput_of_not_secure hs, hpin]
    exact composing_beginComposition h.pin

/-- A composition goes on with what is applied. -/
theorem perform_undisturbed {call : Call} (hc : controller.generationPin.isComposing = true)
    (hends : ¬Ends call) (hrevokes : ¬controller.Revokes call) :
    (controller.perform call).appliedRevision = controller.appliedRevision ∧
      (controller.perform call).generationPin.isComposing = true := by
  have hkept : ∀ revision : GrimodexIntegrationRevision,
      (controller.generationPin.observe revision).1.applied = controller.appliedRevision ∧
        (controller.generationPin.observe revision).1.isComposing = true := fun revision => by
    obtain ⟨happlied, hpinned, -⟩ :=
      GrimodexCompositionGenerationPin.applied_observe_of_composing (r := revision) hc
    refine ⟨happlied, ?_⟩
    unfold GrimodexCompositionGenerationPin.isComposing
    rw [hpinned]
    exact hc
  have hidle : ∀ revision : GrimodexIntegrationRevision, revision.secureInput = true →
      ¬(revision.secureInput = true ∧ controller.secureInput = false) →
      controller.revokeIfNeeded revision = controller := fun revision hs hnot =>
    if_pos (Bool.of_not_eq_false fun hfalse => hnot ⟨hs, hfalse⟩)
  cases call with
  | prepareFirstInput latest =>
    show (controller.prepareFirstInput latest).appliedRevision = _ ∧
      (controller.prepareFirstInput latest).generationPin.isComposing = true
    cases hs : latest.secureInput with
    | true =>
      unfold prepareFirstInput
      rw [if_pos hs, hidle latest hs hrevokes]
      cases ha : controller.generationPin.applied with
      | none => exact ⟨rfl, hc⟩
      | some applied =>
        dsimp only
        rw [GrimodexCompositionGenerationPin.beginComposition_of_composing hc]
        exact hkept applied
    | false =>
      rw [prepareFirstInput_of_not_secure hs,
        GrimodexCompositionGenerationPin.beginComposition_of_composing hc]
      exact hkept latest
  | observe revision =>
    show (controller.observe revision).appliedRevision = _ ∧
      (controller.observe revision).generationPin.isComposing = true
    cases hs : revision.secureInput with
    | true =>
      rw [observe_of_secure hs, hidle revision hs hrevokes]
      exact ⟨rfl, hc⟩
    | false =>
      have hnone := (GrimodexCompositionGenerationPin.applied_observe_of_composing
        (r := revision) hc).2.2
      rw [observe_of_not_secure hs, show controller.generationPin.observe revision =
        ((controller.generationPin.observe revision).1, none) from by rw [← hnone]]
      exact hkept revision
  | endOrReset latest => exact absurd trivial hends
  | revokeImmediately revision => exact absurd trivial hrevokes

theorem applied_of_undisturbed {calls : List Call}
    (hc : controller.generationPin.isComposing = true) (h : controller.Undisturbed calls) :
    (calls.foldl perform controller).appliedRevision = controller.appliedRevision := by
  induction calls generalizing controller with
  | nil => rfl
  | cons call calls ih =>
    obtain ⟨hends, hrevokes, hrest⟩ := h
    obtain ⟨happlied, hc'⟩ := perform_undisturbed hc hends hrevokes
    exact (ih hc' hrest).trans happlied

/-! Runs of calls. -/

/-- The revisions of the calls come in the order of their generations. -/
def InOrder (calls : List Call) : Prop := calls.Pairwise fun x y =>
  x.revision.generation ≤ y.revision.generation

theorem after_append (front rest : List Call) :
    after (front ++ rest) = rest.foldl perform (after front) := List.foldl_append

theorem after_concat (front : List Call) (call : Call) :
    after (front ++ [call]) = (after front).perform call := after_append front [call]

theorem after_well {calls : List Call} (h : InOrder calls)
    (hbound : ∀ call ∈ calls, call.revision.generation ≤ bound) : (after calls).Well bound := by
  induction calls using List.reverseRecOn generalizing bound with
  | nil => exact well_initial.mono (Nat.zero_le bound)
  | append_singleton calls call ih =>
    obtain ⟨hcalls, -, hlast⟩ := List.pairwise_append.mp h
    have hbefore := ih hcalls fun x hx => hlast x hx call List.mem_cons_self
    rw [after_concat]
    exact (perform_well hbefore (Nat.le_refl _)).1.mono (hbound call (by simp))

/-- Before a call the controller has seen nothing that is newer. -/
theorem after_well_of_next {front rest : List Call} {call : Call}
    (h : InOrder (front ++ call :: rest)) : (after front).Well call.revision.generation := by
  obtain ⟨hfront, -, hnext⟩ := List.pairwise_append.mp h
  exact after_well hfront fun x hx => hnext x hx call List.mem_cons_self

theorem raises_foldl {calls : List Call} (h : controller.Well bound) (hcalls : InOrder calls)
    (hbound : ∀ call ∈ calls, bound ≤ call.revision.generation) :
    GrimodexCompositionGenerationPin.Raises controller.generationPin
      (calls.foldl perform controller).generationPin := by
  induction calls generalizing controller bound with
  | nil => exact GrimodexCompositionGenerationPin.raises_of_eq rfl
  | cons call calls ih =>
    obtain ⟨hnext, hcalls⟩ := List.pairwise_cons.mp hcalls
    obtain ⟨hwell, hraises⟩ := perform_well h (hbound call List.mem_cons_self)
    intro s hs
    obtain ⟨t, ht, hle⟩ := hraises s hs
    obtain ⟨u, hu, hle'⟩ := ih hwell hcalls hnext t ht
    exact ⟨u, hu, Nat.le_trans hle hle'⟩

/-- What is installed is the applied revision, which a composition keeps until it ends or is
revoked. -/
theorem integration_pinned {calls : List Call} (h : InOrder calls) :
    (after calls).shown = shownOf (after calls).appliedRevision ∧
    (∀ front latest middle, calls = front ++ .prepareFirstInput latest :: middle →
      (after (front ++ [.prepareFirstInput latest])).Undisturbed middle →
      (after calls).appliedRevision =
        (after (front ++ [.prepareFirstInput latest])).appliedRevision) ∧
    (∀ front latest, calls = front ++ [.endOrReset latest] → latest.secureInput = false →
      ∃ r, (after calls).appliedRevision = some r ∧ sameRevision r latest = true) ∧
    (∀ front call, calls = front ++ [call] → call.revision.secureInput = true →
      (after calls).installed = ([], {})) ∧
    ∀ front rest, calls = front ++ rest → ∀ r, (after front).appliedRevision = some r →
      ∃ s, (after calls).appliedRevision = some s ∧ r.generation ≤ s.generation := by
  have hwell : ∃ bound, (after calls).Well bound := by
    rcases List.eq_nil_or_concat calls with rfl | ⟨front, call, rfl⟩
    · exact ⟨0, well_initial⟩
    · rw [List.concat_eq_append] at h ⊢
      rw [after_concat]
      exact ⟨_, (perform_well (after_well_of_next h) (Nat.le_refl _)).1⟩
  obtain ⟨bound, hwell⟩ := hwell
  refine ⟨hwell.mirrors, ?_, ?_, ?_, ?_⟩
  · rintro front latest middle rfl hmiddle
    have hbefore := after_well_of_next h
    have hc := composing_prepareFirstInput hbefore (Nat.le_refl _)
    rw [← List.singleton_append, ← List.append_assoc, after_append]
    rw [after_concat] at hmiddle ⊢
    exact applied_of_undisturbed hc hmiddle
  · rintro front latest rfl hs
    rw [after_concat]
    exact endOrReset_applies (after_well_of_next h) (Nat.le_refl _) hs
  · rintro front call rfl hs
    have hbefore := after_well_of_next h
    rw [after_concat] at hwell ⊢
    obtain ⟨s, happlied, hsecure⟩ := perform_secure hbefore (Nat.le_refl _) hs
    exact installed_of_secure hwell happlied hsecure
  · rintro front rest rfl
    rw [after_append]
    cases rest with
    | nil => exact fun r hr => ⟨r, hr, Nat.le_refl _⟩
    | cons call rest =>
      obtain ⟨-, hrest, -⟩ := List.pairwise_append.mp h
      refine raises_foldl (after_well_of_next h) hrest fun other hother => ?_
      rcases List.mem_cons.mp hother with rfl | hother
      · exact Nat.le_refl _
      · exact (List.pairwise_cons.mp hrest).1 other hother

end

/-! Two revisions of a project. -/

section

attribute [local instance] composedText

def revisionAt (generation : Nat) : GrimodexIntegrationRevision where
  generation := generation
  payload := some { projectID := ['p'], projectName := ['p'], dictionaryEntries := [],
                    conditions := .empty }
  allowsLearning := true
  secureInput := false

theorem integration_pinned_observing :
    InOrder [.prepareFirstInput (revisionAt 1), .observe (revisionAt 2)] ∧
      (after [.prepareFirstInput (revisionAt 1), .observe (revisionAt 2)]).appliedRevision =
        (after [.prepareFirstInput (revisionAt 1)]).appliedRevision := by
  have h : InOrder [.prepareFirstInput (revisionAt 1), .observe (revisionAt 2)] :=
    List.pairwise_pair.mpr (by decide)
  refine ⟨h, (integration_pinned h).2.1 [] (revisionAt 1) [.observe (revisionAt 2)] rfl ?_⟩
  exact ⟨id, fun hr => absurd hr.1 (by decide), trivial⟩

/-- A revocation ends the composition, and what is observed after it is applied at once. -/
theorem observed_after_revocation :
    InOrder [.prepareFirstInput (revisionAt 1), .revokeImmediately (revisionAt 1),
        .observe (revisionAt 2)] ∧
      (revisionAt 2).secureInput = false ∧
      (after [.prepareFirstInput (revisionAt 1), .revokeImmediately (revisionAt 1),
        .observe (revisionAt 2)]).appliedRevision ≠
      (after [.prepareFirstInput (revisionAt 1),
        .revokeImmediately (revisionAt 1)]).appliedRevision := by
  refine ⟨?_, rfl, by decide⟩
  unfold InOrder
  decide

end

end GrimodexCompositionIntegrationController

end Hazkey
