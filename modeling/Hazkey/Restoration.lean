import Hazkey.Recovery

/-! What bytes can do to a session that is asked to restore them. -/

namespace Hazkey

open ServiceProgram

section

variable [SwiftText] [RecoveryCodec] {P : Promise} {s : CompositionSession}
  {c : RecoveryCheckpoint} {data : Data}

/-- What a restored session owes to the checkpoint `c`, and what it keeps of the
session `s` it was restored into. -/
structure Restores (data : Data) (c : RecoveryCheckpoint) (s u : CompositionSession) : Prop where
  decoded : RecoveryCodec.decode data = some c
  learning : u.policy.allowsLearning = true → s.policy.allowsLearning = true
  zenzai : u.policy.zenzaiEnabled = true → s.policy.zenzaiEnabled = true
  secureInput : u.policy.secureInput = false
  inputTableName : u.policy.inputTableName = s.policy.inputTableName
  revision : s.revision < u.revision ∧ c.revision < u.revision
  composition : u.composingText = c.composition
  cursor : u.composingText.cursor ≤ u.composingText.elements.length
  context : u.context = ⟨c.leftContext, c.rightContext, c.policy.projectRevision⟩
  wellFormed : checkpointIsWellFormed u.checkpoint = true

/-- A restore changes nothing or succeeds. -/
def RestoresSafely (data : Data) (s : CompositionSession) (result : ImeReductionResult)
    (u : CompositionSession) : Prop :=
  (result.status ≠ .success → u = s) ∧
    (result.status = .success → ∃ c, Restores data c s u)

omit [RecoveryCodec] in
theorem wellFormed_rebind (p : PinnedCompositionPolicy) (l : Int) :
    (p.rebindLegacySuggestionListLimit l).wellFormed = p.wellFormed := by
  unfold PinnedCompositionPolicy.rebindLegacySuggestionListLimit
  split <;> rfl

omit [RecoveryCodec] in
/-- The validator accepts what it has accepted once more, as the session has it. -/
theorem wellFormed_restored (h : checkpointIsWellFormed c = true) :
    checkpointIsWellFormed (s.restored c).advanceRevision.checkpoint = true := by
  have hpolicy : (restoredPolicy s.policy c.policy).wellFormed = c.policy.wellFormed :=
    wellFormed_rebind c.policy s.policy.suggestionListLimit
  have hphase : ((s.restored c).phase = .unicodeInput) = (c.phase = .unicodeInput) := by
    show ((if c.phase = .unicodeInput then ImePhase.unicodeInput
      else if c.composition.isEmpty then .idle else .composing) = .unicodeInput) = _
    by_cases hp : c.phase = .unicodeInput
    · simp [hp]
    · cases c.composition.isEmpty <;> simp [hp]
  unfold checkpointIsWellFormed at h ⊢
  simp only [Bool.and_eq_true] at h ⊢
  obtain ⟨⟨⟨⟨helements, hwell⟩, hreplacement⟩, hbuffer⟩, hrest⟩ := h
  refine ⟨⟨⟨⟨helements, ?_⟩, hreplacement⟩, hbuffer⟩, ?_⟩
  · exact hpolicy.trans hwell
  · show (if (s.restored c).phase = .unicodeInput then _ else _) = true
    simp only [hphase]
    exact hrest

/-- An accepted checkpoint restores the session safely. -/
theorem restores_restored {s₀ : CompositionSession} (hd : RecoveryCodec.decode data = some c)
    (hle : s.revision ≤ c.revision) (hok : c.Accepted) (hs : s₀.policy = s.policy) :
    Restores data c s (s₀.restored c).advanceRevision := by
  obtain ⟨hrev, -, -, -, hwell⟩ := hok
  have hnext : (c.revision + 1).toNat = c.revision.toNat + 1 := by
    have := UInt64.lt_iff_toNat_lt.mp hrev
    rw [UInt64.toNat_add]
    simp at this ⊢
    omega
  have hbehind : c.revision < c.revision + 1 := by
    rw [UInt64.lt_iff_toNat_lt, hnext]
    omega
  refine
    { decoded := hd
      learning := fun h => ?_
      zenzai := fun h => ?_
      secureInput := rfl
      inputTableName := congrArg (·.inputTableName) hs
      revision := ⟨UInt64.lt_of_le_of_lt hle hbehind, hbehind⟩
      composition := rfl
      cursor := c.composition.cursor_le
      context := rfl
      wellFormed := wellFormed_restored hwell }
  · have hboth : (s₀.policy.allowsLearning && c.policy.allowsLearning) = true := h
    rw [hs, Bool.and_eq_true] at hboth
    exact hboth.1
  · have hboth : (s₀.policy.zenzaiEnabled && c.policy.zenzaiEnabled) = true := h
    rw [hs, Bool.and_eq_true] at hboth
    exact hboth.1

theorem refused_safely {status : ImeReductionStatus} {message : String}
    (hs : status ≠ .success) :
    Meets P (failure status message) (RestoresSafely data s) s :=
  meets_failure fun _ hr => ⟨fun _ => rfl, fun h => absurd (hr.status.symm.trans h) hs⟩

theorem meets_restoreCheckpoint (hc : Coherent s) :
    Meets P (restoreCheckpoint data) (RestoresSafely data s) s := by
  unfold restoreCheckpoint
  rw [meets_bind, meets_session, meets_ite]
  split
  swap
  · exact refused_safely (by decide)
  cases hd : RecoveryCodec.decode data with
  | none => exact refused_safely (by decide)
  | some c =>
    dsimp only
    rw [meets_ite]
    split
    swap
    · exact refused_safely (by decide)
    rw [meets_ite]
    split
    swap
    · exact refused_safely (by decide)
    rename_i hle
    rw [meets_ite]
    split
    swap
    · exact refused_safely (by decide)
    rename_i hok
    simp only [meets_bind, meets_invalidateSpeculation]
    refine meets_resolvePendingLearning hc.sound.unsecure ?_
    simp only [meets_clearLivePresentation, meets_endConverterComposition,
      meets_clearConversionState, meets_update, meets_advanceRevision,
      meets_prepareSpeculativeConversion]
    refine meets_success fun result hr => ⟨fun h => absurd hr.status h, fun _ => ⟨c, ?_⟩⟩
    exact restores_restored hd hle hok rfl

variable {r r' : ImeReducer} {t : List ConverterEvent} {result : ImeReductionResult}

/-- Bytes can neither raise the privileges of a reachable session nor damage it. -/
theorem restoreCheckpoint_safe (h : Reachable r)
    (hY : (restoreCheckpoint data).Yields r t result r') :
    RestoresSafely data r.session result r'.session :=
  (Meets.yields (meets_restoreCheckpoint h.held.coherent) hY).2

/-- A request to restore is replayed, or leaves the session alone, or restores it safely. -/
theorem reduce_restoreCheckpoint_safe {requestID : Text} {expectedRevision : Option UInt64}
    {provider : Option PinnedCompositionPolicy} (h : Reachable r)
    (hR : (reduce (.restoreCheckpoint data) requestID expectedRevision provider).Yields r t result
      r') :
    r'.session = r.session ∨
      result.status = .success ∧ ∃ c, Restores data c r.session r'.session := by
  cases reduce_answered hR with
  | replayed entry hl hm ht hr => exact .inl rfl
  | reused entry hl hm hY => exact .inl (congrArg (·.session) (failure_yields hY).1)
  | stale hl hm hY =>
    rw [session_cache]
    exact .inl (congrArg (·.session) (failure_yields hY).1)
  | performed hl hm hY =>
    rw [session_cache]
    obtain ⟨hkept, hrestored⟩ := restoreCheckpoint_safe h hY
    by_cases hs : result.status = .success
    · exact .inr ⟨hs, hrestored hs⟩
    · exact .inl (hkept hs)

end

attribute [local instance] scalarText byteCodec

/-- A session that denies learning stays so, whatever the bytes ask for. -/
theorem restoreCheckpoint_safe_greedy :
    let r := ImeReducer.initial
      (.initial { PinnedCompositionPolicy.standard with allowsLearning := false }) true
    let greedy := (CompositionSession.initial .standard).checkpoint
    ∃ t result r', (restoreCheckpoint (RecoveryCodec.encode greedy)).Yields r t result r' ∧
      greedy.policy.allowsLearning = true ∧ result.status = .success ∧
      r'.session.policy.allowsLearning = false ∧
      ∃ c, Restores (RecoveryCodec.encode greedy) c r.session r'.session :=
  ⟨_, _, _, Prog.exec_yields stagingConverter _ 0 _, rfl, by decide +kernel, by decide +kernel,
    (restoreCheckpoint_safe ⟨_, _, [], .nil⟩ (Prog.exec_yields stagingConverter _ 0 _)).2
      (by decide +kernel)⟩

end Hazkey
