import Hazkey.Evaluation

/-! The text that a composition replaces is deleted once: where none is named,
no action but a reconversion or a restore names any, and no answer deletes any. -/

namespace Hazkey

open ServiceProgram

set_option synthInstance.maxSize 800

/-- No text to replace is named where none was. -/
def Unreplaced (r : ImeReducer) (_ : List ConverterEvent) (r' : ImeReducer) : Prop :=
  r.session.reconversionReplacement = none → r'.session.reconversionReplacement = none

instance : Prog.Composes Unreplaced where
  refl _ := id
  trans _ _ _ _ _ h h' hr := h' (h hr)

instance (f : CompositionSession → CompositionSession) [h : Unreplacing f] :
    Prog.Frames Unreplaced (update f) := Prog.frames_modify fun r => h.replacement r.session

theorem unreplaced_ask (c : ConverterCall) :
    @Prog.Frames _ _ c.Answer Unreplaced (converter c) := Prog.frames_ask fun _ _ => id

instance : Overlooks Unreplaced where
  update _ _ h r := h.replacement r.session
  invalidate _ _ := id
  ask _ _ _ _ := id
  call _ _ _ := id
  pend _ _ := id
  empty _ := id

instance : Settles Unreplaced := Overlooks.settles

instance : Teaches Unreplaced := Overlooks.teaches

instance : Admits Unreplaced where
  pin policy := by
    unfold pinCompositionPolicy
    infer_instance
  transition flag _ _ _ := inferInstance

/-! The deletions of an answer, against those that are still to come. -/

def ClientEffect.deletes : ClientEffect → Bool
  | .deleteSurroundingText _ _ _ => true
  | _ => false

/-- Values that carry effects. -/
class Deleting (α : Type) where
  deletions : α → Nat

export Deleting (deletions)

instance : Deleting (List ClientEffect) := ⟨fun effects => effects.countP ClientEffect.deletes⟩

instance : Deleting ImeReductionResult := ⟨fun x => deletions x.snapshot.effects⟩

/-- The deletions a session still owes its client. -/
def CompositionSession.owed (s : CompositionSession) : Nat :=
  if s.reconversionReplacement = none then 0 else 1

theorem owed_le_one (s : CompositionSession) : s.owed ≤ 1 := by
  unfold CompositionSession.owed
  split <;> omega

theorem Unreplaced.owed_le {r r' : ImeReducer} {t : List ConverterEvent}
    (h : Unreplaced r t r') : r'.session.owed ≤ r.session.owed := by
  by_cases hr : r.session.reconversionReplacement = none
  · simp [CompositionSession.owed, hr, h hr]
  · simpa only [CompositionSession.owed, if_neg hr] using owed_le_one r'.session

/-- The value deletes what the session owed, or one of the `n` deletions that
were taken before. -/
class Spares {α : Type} [Deleting α] (n : Nat) (p : ReducerM α) : Prop where
  spares : ∀ r t x r', p.Yields r t x r' → deletions x + r'.session.owed ≤ r.session.owed + n

variable {α β : Type} [Deleting α] {n : Nat}

instance {p : ReducerM β} {k : β → ReducerM α} [hp : Prog.Frames Unreplaced p]
    [hk : ∀ a, Spares n (k a)] : Spares n (p >>= k) where
  spares := by
    intro r t x r' hY
    obtain ⟨t₁, t₂, a, u, rfl, h₁, h₂⟩ := Prog.yields_bind.mp hY
    have hrest := (hk a).spares _ _ _ _ h₂
    have howed := Unreplaced.owed_le (hp.frame _ _ _ _ h₁)
    omega

theorem Spares.bind {p : ReducerM β} {k : β → ReducerM α}
    (hp : Prog.Frames Unreplaced p) (hk : ∀ a, Spares n (k a)) : Spares n (p >>= k) :=
  inferInstance

/-- What was taken may be passed on. -/
theorem Spares.inspect [Deleting β] {p : ReducerM β} {k : β → ReducerM α} [hp : Spares n p]
    (hk : ∀ x, Spares (deletions x) (k x)) : Spares n (p >>= k) where
  spares := by
    intro r t x r' hY
    obtain ⟨t₁, t₂, a, u, rfl, h₁, h₂⟩ := Prog.yields_bind.mp hY
    have hfirst := hp.spares _ _ _ _ h₁
    have hrest := (hk a).spares _ _ _ _ h₂
    omega

instance {c : Prop} [Decidable c] {p q : ReducerM α} [Spares n p] [Spares n q] :
    Spares n (if c then p else q) := by
  split <;> infer_instance

theorem spares_pure {x : α} (h : deletions x ≤ n) : Spares n (pure x : ReducerM α) where
  spares := by
    rintro r t y r' ⟨-, rfl, rfl⟩
    omega

theorem spares_success {effects : List ClientEffect} (h : deletions effects ≤ n) :
    Spares n (success effects) where
  spares := by
    intro r t x r' hY
    obtain ⟨t₁, t₂, snap, u, rfl, hsnap, hend⟩ := Prog.yields_bind.mp hY
    obtain ⟨rfl, he, -⟩ := snapshot_yields hsnap
    obtain ⟨-, rfl, rfl⟩ := hend
    have hx : deletions snap.effects = deletions effects := congrArg deletions he
    change deletions snap.effects + _ ≤ _
    omega

instance : Spares n (success []) := spares_success (Nat.zero_le n)

instance (i : UInt64) (d : UInt32) (m : UInt64) :
    Spares n (success [.scheduleLiveConversion i d m]) :=
  spares_success (by simp [deletions, ClientEffect.deletes])

instance (status : ImeReductionStatus) (message : String) : Spares n (failure status message) where
  spares := by
    intro r t x r' hY
    obtain ⟨rfl, -, he, -⟩ := failure_yields hY
    have hx : deletions x.snapshot.effects = 0 := congrArg deletions he
    change deletions x.snapshot.effects + _ ≤ _
    omega

instance (error : String) : Spares n (converterFailed error) := by
  unfold converterFailed
  infer_instance

/-- The deletion is taken once. -/
instance : Spares n takeReconversionReplacementEffect where
  spares := by
    intro r t deleted u h
    obtain ⟨t₁, t₂, s, v, rfl, ⟨-, rfl, rfl⟩, hbody⟩ := Prog.yields_bind.mp h
    cases hr : v.session.reconversionReplacement with
    | none =>
      rw [hr] at hbody
      obtain ⟨-, rfl, rfl⟩ := hbody
      simp [deletions]
    | some replacement =>
      rw [hr] at hbody
      obtain ⟨t₃, t₄, _, w, rfl, ⟨-, -, rfl⟩, hrest⟩ := Prog.yields_bind.mp hbody
      obtain ⟨t₅, t₆, i, w', rfl, halloc, -, rfl, rfl⟩ := Prog.yields_bind.mp hrest
      have hnone :=
        (inferInstance : Prog.Frames Unreplaced allocateEffectID).frame _ _ _ _ halloc rfl
      simp [deletions, ClientEffect.deletes, CompositionSession.owed, hr, hnone]

theorem deletions_commitText (deleted : List ClientEffect) (i : UInt64) (text : Text) :
    deletions (deleted ++ [.commitText i text]) = deletions deleted := by
  simp [deletions, ClientEffect.deletes]

/-! The actions that commit nothing. -/

instance (isReconversion advance : Bool) : Spares n (convertLegacy isReconversion advance) := by
  unfold convertLegacy
  refine .bind inferInstance fun s => .bind inferInstance fun output => ?_
  cases output with
  | error e => infer_instance
  | ok output =>
    dsimp only
    infer_instance

instance (advance : Bool) : Spares n (convert advance) := by
  unfold convert
  refine .bind inferInstance fun s => ?_
  split
  · infer_instance
  · refine .bind inferInstance fun _ => .bind inferInstance fun supported => ?_
    split
    · refine .bind inferInstance fun _ => .bind inferInstance fun built => ?_
      cases built <;> infer_instance
    · infer_instance

variable [SwiftText]

instance : Spares n refreshAfterEdit := by
  unfold refreshAfterEdit
  infer_instance

instance (revision : UInt64) : Spares n (applyLiveConversion revision) := by
  unfold applyLiveConversion
  infer_instance

instance : Spares n startConversion := by
  unfold startConversion
  infer_instance

instance (c : CandidateSet) : Spares n (selectNavigated c) := by
  unfold selectNavigated
  infer_instance

instance (step : CandidateSet → Int) (message : String) : Spares n (navigateFrom step message) := by
  unfold navigateFrom
  repeat' first | infer_instance | refine .bind inferInstance fun _ => ?_ | split

instance (delta : Int) : Spares n (navigateCandidate delta) := by
  unfold navigateCandidate
  refine .bind inferInstance fun _ => .bind inferInstance fun s => ?_
  split
  · refine .bind inferInstance fun _ => .bind inferInstance fun _ => .inspect fun x => ?_
    split
    · infer_instance
    · exact spares_pure le_rfl
  · infer_instance

instance (delta : Int) : Spares n (navigateCandidatePage delta) := by
  unfold navigateCandidatePage
  infer_instance

instance (id : Text) (generation : UInt64) : Spares n (selectCandidate id generation) := by
  unfold selectCandidate
  repeat' first | infer_instance | refine .bind inferInstance fun _ => ?_ | split

instance (id : Text) (generation : UInt64) : Spares n (forgetCandidate id generation) := by
  unfold forgetCandidate
  repeat' first | infer_instance | refine .bind inferInstance fun _ => ?_ | split

instance (delta : Int) : Spares n (moveActiveSegment delta) := by
  unfold moveActiveSegment
  repeat' first | infer_instance | refine .bind inferInstance fun _ => ?_ | split

instance (delta : Int) : Spares n (resizeLegacySegment delta) := by
  unfold resizeLegacySegment
  dsimp only
  refine .bind inferInstance fun s => ?_
  split
  · infer_instance
  · refine .bind inferInstance fun _ => .bind inferInstance fun _ => .bind inferInstance fun _ =>
      .bind inferInstance fun _ => .bind inferInstance fun _ => .bind inferInstance fun _ =>
        .inspect fun x => ?_
    split
    · infer_instance
    · exact spares_pure le_rfl

instance (kept : List CompositionSegment) (suffix : List CompositionElement) (count : Nat)
    (left : Text) : Spares n (rebuildSegments kept suffix count left) := by
  unfold rebuildSegments
  repeat' first | infer_instance | refine .bind inferInstance fun _ => ?_ | split

instance (delta : Int) : Spares n (resizeSegment delta) := by
  unfold resizeSegment
  dsimp only
  infer_instance

instance : Spares n cancel := by
  unfold cancel
  refine .bind inferInstance fun _ => .bind inferInstance fun _ => .bind inferInstance fun _ =>
    .bind inferInstance fun s => ?_
  split <;> infer_instance

instance (transform : ImeTextTransform) (resolvedLearning : Bool) :
    Spares n (transformComposition transform resolvedLearning) := by
  unfold transformComposition
  dsimp only
  infer_instance

instance (transform : ImeTextTransform) (resolvedLearning : Bool) :
    Spares n (transformSelection transform resolvedLearning) := by
  unfold transformSelection
  dsimp only
  repeat' first | infer_instance | refine .bind inferInstance fun _ => ?_ | split

instance (transform : ImeTextTransform) : Spares n (transformActiveSegment transform) := by
  unfold transformActiveSegment
  infer_instance

instance (provider : Option PinnedCompositionPolicy) : Spares n (beginUnicodeInput provider) := by
  unfold beginUnicodeInput
  repeat' first | infer_instance | refine .bind inferInstance fun _ => ?_ | split

instance (digit : Text) : Spares n (appendUnicodeDigit digit) := by
  unfold appendUnicodeDigit
  infer_instance

instance : Spares n commitUnicodeInput := by
  unfold commitUnicodeInput
  repeat' first | infer_instance | refine .bind inferInstance fun _ => ?_ | split

instance (leftContext rightContext : Text) : Spares n (updateContext leftContext rightContext) := by
  unfold updateContext
  infer_instance

instance (event : ImeLifecycleEvent) : Spares n (lifecycle event) := by
  unfold lifecycle
  refine .bind inferInstance fun s => ?_
  cases event <;> (dsimp only; infer_instance)

/-! The actions that commit. -/

instance (origin : LearningOrigin) : Spares n (commitAll origin) := by
  unfold commitAll
  dsimp only
  refine .bind inferInstance fun _ => .bind inferInstance fun s => ?_
  split
  · infer_instance
  · refine .bind inferInstance fun _ => .bind inferInstance fun shown => ?_
    split
    · refine .bind inferInstance fun _ => .inspect fun deleted => ?_
      have hend : ∀ i text, Spares (deletions deleted) (success (deleted ++ [.commitText i text])) :=
        fun i text => spares_success (deletions_commitText _ _ _).le
      repeat' first | infer_instance | refine .bind inferInstance fun _ => ?_
    · infer_instance

instance : Spares n finishInteractiveEdit := by
  unfold finishInteractiveEdit
  infer_instance

instance (text : Text) (provider : Option PinnedCompositionPolicy) :
    Spares n (insertText text provider) := by
  unfold insertText
  repeat' first | infer_instance | refine .bind inferInstance fun _ => ?_ | split

instance : Spares n deleteBackward := by
  unfold deleteBackward
  infer_instance

instance : Spares n deleteForward := by
  unfold deleteForward
  infer_instance

instance : Spares n finishCursorMovement := by
  unfold finishCursorMovement
  infer_instance

instance (offset : Int) : Spares n (moveCursor offset) := by
  unfold moveCursor
  infer_instance

instance (move : CompositionBuffer → CompositionBuffer) : Spares n (moveCursorToEdge move) := by
  unfold moveCursorToEdge
  infer_instance

instance (count : Nat) (text : Text) (candidates : List CandidateSnapshot) (reading : Text) :
    Spares n (deliver count text candidates reading) := by
  unfold deliver
  refine .bind inferInstance fun _ => .bind inferInstance fun _ => .bind inferInstance fun _ =>
    .inspect fun deleted => ?_
  have hend : ∀ i, Spares (deletions deleted)
      (pure (deleted ++ [.commitText i text]) : ReducerM (List ClientEffect)) :=
    fun i => spares_pure (deletions_commitText _ _ _).le
  infer_instance

instance (committed : List CompositionSegment) (reading : Text) :
    Spares n (commitSegments committed reading) := by
  unfold commitSegments
  dsimp only
  split
  · refine .inspect fun effects => ?_
    have hend : Spares (deletions effects) (success effects) := spares_success le_rfl
    infer_instance
  · infer_instance

instance (candidate : CandidateSnapshot) (reading : Text) :
    Spares n (commitCandidate candidate reading) := by
  unfold commitCandidate
  dsimp only
  refine .bind inferInstance fun s => ?_
  split
  · refine .inspect fun effects => ?_
    have hend : Spares (deletions effects) (success effects) := spares_success le_rfl
    infer_instance
  · infer_instance

instance : Spares n commitSelectedCandidate := by
  unfold commitSelectedCandidate
  refine .bind inferInstance fun s => .bind inferInstance fun _ => ?_
  split
  · infer_instance
  · split <;> infer_instance

/-! The actions that name no text to replace. -/

/-- Whether the action may name the text a composition replaces. -/
def ImeAction.replaces : ImeAction → Bool
  | .reconvert _ _ _ _ _ | .restoreCheckpoint _ => true
  | _ => false

variable [RecoveryCodec]

theorem spares_perform {action : ImeAction} (h : action.replaces = false)
    (provider : Option PinnedCompositionPolicy) : Spares 0 (perform action provider) := by
  cases action with
  | reconvert => cases h
  | restoreCheckpoint => cases h
  | _ =>
    unfold perform
    infer_instance

/-! Runs. -/

/-- Whether the call may name the text a composition replaces. -/
def ReducerCall.replaces : ReducerCall → Bool
  | .reduce action _ _ _ => action.replaces
  | _ => false

/-- The deletions a move emits; an answer from the request cache only repeats effects. -/
def emittedDeletions (m : ReducerMove) : Nat :=
  match m.label, m.value with
  | .reduce _ requestID _ _, some x =>
    if (m.before.requestCache.lookup requestID).isNone then deletions x else 0
  | _, _ => 0

instance : Prog.Frames Unreplaced rebaseRequestCacheToCurrentSnapshot where
  frame := by
    intro r t a r' hY
    obtain ⟨l, rfl, -⟩ := rebase_yields hY
    exact id

theorem reduce_deletions {a : ImeAction} (h : a.replaces = false) {r r' : ImeReducer}
    {requestID : Text} {expectedRevision : Option UInt64}
    {provider : Option PinnedCompositionPolicy} {t : List ConverterEvent} {x : ImeReductionResult}
    (hY : (reduce a requestID expectedRevision provider).Yields r t x r') :
    (if (r.requestCache.lookup requestID).isNone then deletions x else 0) + r'.session.owed ≤
      r.session.owed := by
  cases reduce_answered hY with
  | replayed entry hl => simp [hl]
  | reused entry hl hm hfail =>
    obtain ⟨rfl, -⟩ := failure_yields hfail
    simp [hl]
  | stale hl hm hfail =>
    have hspares := (inferInstance : Spares 0 (failure _ _)).spares _ _ _ _ hfail
    simpa [hl] using hspares
  | performed hl hm hperform =>
    have hspares := (spares_perform h provider).spares _ _ _ _ hperform
    simpa [hl] using hspares

theorem move_deletions {m : ReducerMove} (hm : m.Valid ReducerCall.program)
    (h : m.label.replaces = false) :
    emittedDeletions m + m.after.session.owed ≤ m.before.session.owed := by
  obtain ⟨label, r, t, value, r'⟩ := m
  have hframe {p : ReducerM (Option ImeReductionResult)} (_ : Prog.Frames Unreplaced p)
      (hY : p.Yields r t value r') : 0 + r'.session.owed ≤ r.session.owed := by
    rw [Nat.zero_add]
    exact Unreplaced.owed_le (Prog.Frames.frame _ _ _ _ hY)
  cases label with
  | reduce action requestID expectedRevision provider =>
    obtain ⟨t₁, t₂, x, u, rfl, hY, rfl, rfl, rfl⟩ := Prog.yields_bind.mp hm
    exact reduce_deletions h hY
  | pinCompositionPolicy policy =>
    exact hframe (by unfold ReducerCall.program; infer_instance) hm
  | invalidateCandidatesForExternalDictionaryChange =>
    refine hframe ?_ hm
    unfold ReducerCall.program invalidateCandidatesForExternalDictionaryChange
    infer_instance
  | resumeSpeculativeConversionAfterMaintenance =>
    refine hframe ?_ hm
    unfold ReducerCall.program resumeSpeculativeConversionAfterMaintenance
    infer_instance
  | finalizePendingLearning commit =>
    refine hframe ?_ hm
    unfold ReducerCall.program finalizePendingLearning
    infer_instance

/-- What a run deletes, it owed at the start. -/
theorem run_deletions {r r' : ImeReducer} {moves : List ReducerMove}
    (h : Runs ReducerCall.program r moves r') (hm : ∀ m ∈ moves, m.label.replaces = false) :
    (moves.map emittedDeletions).sum + r'.session.owed ≤ r.session.owed := by
  induction h with
  | nil => simp
  | snoc h hY ih =>
    have hbefore := ih fun m hmem => hm m (List.mem_append_left _ hmem)
    have hlast := move_deletions (m := ⟨_, _, _, _, _⟩) hY
      (hm _ (List.mem_append_right _ (List.mem_singleton_self _)))
    rw [List.map_append, List.sum_append, List.map_singleton, List.sum_singleton]
    dsimp only at hlast
    omega

end Hazkey
