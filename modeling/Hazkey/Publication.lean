import Hazkey.Rules

/-! The presentation only asks the converter for displays, so a converter
whose display is a function of its input makes the snapshot one of the session. -/

namespace Hazkey

open ServiceProgram

def IsDisplay (c : ConverterCall) : Prop := ∃ i, c = .display i

variable {P : Promise} {s : CompositionSession}

theorem benign_of_isDisplay {c : ConverterCall} (h : IsDisplay c) : Benign s c := by
  obtain ⟨i, rfl⟩ := h
  trivial

theorem asks_display (i : CompositionInput) :
    Prog.Asks (I := converterPort) IsDisplay (converter (.display i)) := ⟨⟨i, rfl⟩, fun _ => trivial⟩

theorem asks_pure {α : Type} (a : α) : Prog.Asks IsDisplay (pure a : ReducerM α) := trivial

theorem currentDisplay_asks (s : CompositionSession) : (currentDisplay s).Asks IsDisplay :=
  asks_display _

theorem suffixDisplay_asks (s : CompositionSession) (count : Nat) :
    (suffixDisplay s count).Asks IsDisplay := asks_display _

theorem validMaterializedLivePrefix_asks (s : CompositionSession) :
    (validMaterializedLivePrefix s).Asks IsDisplay := by
  unfold validMaterializedLivePrefix
  cases s.matchingLivePrefix with
  | none => exact asks_pure _
  | some p => exact Prog.asks_bind (asks_display _) fun _ => asks_pure _

theorem readingComposition_asks (s : CompositionSession) :
    (readingComposition s).Asks IsDisplay := by
  unfold readingComposition
  split
  · exact asks_pure _
  · exact Prog.asks_bind (currentDisplay_asks s) fun _ => asks_pure _

theorem visibleComposition_asks (s : CompositionSession) :
    (visibleComposition s).Asks IsDisplay := by
  unfold visibleComposition
  cases s.shownBranch with
  | segments i => exact asks_pure _
  | candidate c b => exact Prog.asks_bind (suffixDisplay_asks s b) fun _ => asks_pure _
  | reading =>
    refine Prog.asks_bind (validMaterializedLivePrefix_asks s) fun p => ?_
    cases p with
    | none => exact readingComposition_asks s
    | some p => exact Prog.asks_bind (suffixDisplay_asks s _) fun _ => asks_pure _

theorem auxiliaryText_asks (s : CompositionSession) (visible : VisibleComposition) :
    (auxiliaryText s visible).Asks IsDisplay := by
  unfold auxiliaryText
  split
  · refine Prog.asks_bind (currentDisplay_asks s) fun display => ?_
    dsimp only
    split
    · exact asks_pure _
    · cases s.policy.auxTextMode with
      | disabled => exact asks_pure _
      | always => exact asks_pure _
      | whenCursorNotAtEnd =>
        dsimp only
        split
        · exact asks_pure _
        · exact asks_pure _
  · exact asks_pure _

theorem presentation_asks (s : CompositionSession) : (presentation s).Asks IsDisplay := by
  unfold presentation
  split
  · exact Prog.asks_bind (currentDisplay_asks s) fun _ => asks_pure _
  · exact Prog.asks_bind (visibleComposition_asks s) fun v =>
      Prog.asks_bind (auxiliaryText_asks s v) fun _ => asks_pure _

theorem shouldScheduleLiveConversion_asks [SwiftText] (s : CompositionSession) :
    (shouldScheduleLiveConversion s).Asks IsDisplay := by
  unfold shouldScheduleLiveConversion
  split
  · cases s.policy.autoConvertMode with
    | disabled => exact asks_pure _
    | always => exact asks_pure _
    | forMultipleChars => exact Prog.asks_bind (currentDisplay_asks s) fun _ => asks_pure _
  · exact asks_pure _

theorem shouldDirectCommitVisibleSuffix_asks (s : CompositionSession) :
    (shouldDirectCommitVisibleSuffix s).Asks IsDisplay := by
  unfold shouldDirectCommitVisibleSuffix
  split
  · refine Prog.asks_bind (visibleComposition_asks s) fun v => ?_
    cases v.text.getLast? with
    | none => exact asks_pure _
    | some c => exact asks_pure _
  · exact asks_pure _

/-- The stateless converter that displays as `d` does. -/
def displayConverter (d : CompositionInput → CompositionDisplay) : (c : ConverterCall) → c.Answer
  | .display i => d i
  | c => (noopConverter c ()).1

/-- The promise that the display of an input is `d` of it. -/
def DisplaysAs (P : Promise) (d : CompositionInput → CompositionDisplay) : Prop :=
  ∀ i a, P (.display i) a → a = d i

/-- What a query answers when inputs are displayed as `d` displays them. -/
def underDisplay {α : Type} (d : CompositionInput → CompositionDisplay) (p : ReducerM α) : α :=
  p.valueUnder (displayConverter d) (.initial (.initial .standard) false)

/-- The rule of a query: the session stays, and only the display decides the answer. -/
theorem meets_query {α : Type} {p : ReducerM α} (hp : p.Asks IsDisplay)
    {Q : α → CompositionSession → Prop}
    (hQ : ∀ a, (∀ d, DisplaysAs P d → a = underDisplay d p) → Q a s) : Meets P p Q s := by
  refine Meets.mono (Prog.Asks.wp hp fun c => benign_of_isDisplay) ?_
  rintro a u ⟨rfl, ha⟩
  refine hQ a fun d hd => ha (displayConverter d) ?_ _
  rintro c b ⟨i, rfl⟩ hb
  exact hd i b (hb trivial)

namespace CompositionSession

def presentationUnder (s : CompositionSession) (d : CompositionInput → CompositionDisplay) :
    List PreeditSpan × Option Nat × Option Text := underDisplay d (presentation s)

/-- The snapshot of a session whose inputs are displayed as `d` displays them. -/
def snapshotUnder (s : CompositionSession) (d : CompositionInput → CompositionDisplay)
    (effects : List ClientEffect) : SessionSnapshot :=
  s.snapshotShowing (s.presentationUnder d) effects

end CompositionSession

/-- The snapshot is one of the session. -/
def Shows (P : Promise) (s : CompositionSession) (snap : SessionSnapshot) : Prop :=
  (∃ shown, snap = s.snapshotShowing shown snap.effects) ∧
    ∀ d, DisplaysAs P d → snap = s.snapshotUnder d snap.effects

structure Reports (P : Promise) (status : ImeReductionStatus) (effects : List ClientEffect)
    (r : ImeReductionResult) (s : CompositionSession) : Prop where
  status : r.status = status
  effects : r.snapshot.effects = effects
  shows : Shows P s r.snapshot

theorem meets_snapshot {effects : List ClientEffect}
    {Q : SessionSnapshot → CompositionSession → Prop}
    (hQ : ∀ snap, snap.effects = effects → Shows P s snap → Q snap s) :
    Meets P (snapshot effects) Q s := by
  rw [snapshot, meets_bind, meets_session, meets_bind]
  refine meets_query (presentation_asks s) fun shown hd => ?_
  rw [meets_pure]
  refine hQ _ rfl ⟨⟨shown, rfl⟩, fun d h => ?_⟩
  rw [hd d h]
  rfl

theorem meets_success {effects : List ClientEffect}
    {Q : ImeReductionResult → CompositionSession → Prop}
    (hQ : ∀ r, Reports P .success effects r s → Q r s) : Meets P (success effects) Q s := by
  rw [success, meets_bind]
  exact meets_snapshot fun snap he hs => hQ _ ⟨rfl, he, hs⟩

theorem meets_failure {status : ImeReductionStatus} {message : String}
    {Q : ImeReductionResult → CompositionSession → Prop}
    (hQ : ∀ r, Reports P status [] r s → Q r s) : Meets P (failure status message) Q s := by
  rw [failure, meets_bind]
  exact meets_snapshot fun snap he hs => hQ _ ⟨rfl, he, hs⟩

end Hazkey
