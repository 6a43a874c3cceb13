import Hazkey.Evaluation

/-! When the checkpoint that a session publishes can be restored, and what it
restores. -/

namespace Hazkey

open ServiceProgram

attribute [local instance] scalarText byteCodec

section

variable [SwiftText]

/-- The checkpoint passes the validator of the session that it comes from. -/
structure Restorable (c : RecoveryCheckpoint) : Prop where
  revision : c.revision < 0xFFFFFFFFFFFFFFFF
  generation : c.nextCandidateGeneration < 0xFFFFFFFFFFFFFFFF
  effectID : 0 < c.nextEffectID ∧ c.nextEffectID < 0xFFFFFFFFFFFFFFFF
  policy : c.policy.wellFormed = true
  replacement : ∀ q, c.reconversionReplacement = some q → q.spans c.composition = true
  rest : c.phase ≠ .unicodeInput →
    c.unicodeInputBuffer.getD [] = [] ∧ c.phaseBeforeUnicodeInput = none

/-- The restored session goes on where the other one was. -/
structure Recovers (s u : CompositionSession) : Prop where
  composition : u.composingText = s.composingText
  context : u.context.leftContext = s.context.leftContext ∧
    u.context.rightContext = s.context.rightContext
  replacement : u.reconversionReplacement = s.reconversionReplacement
  buffer : u.unicodeInputBuffer = s.unicodeInputBuffer
  phase : u.phase = if s.phase = .unicodeInput then .unicodeInput
    else if s.composingText.isEmpty then .idle else .composing

variable {s : CompositionSession} {c : RecoveryCheckpoint}

theorem wellFormed_decoded (c : RecoveryCheckpoint) :
    checkpointIsWellFormed c.decoded = checkpointIsWellFormed c := rfl

/-- Of the validator's demands the session itself meets all but three. -/
theorem checkpointIsWellFormed_iff (hc : Coherent s) (hy : Synced s)
    (hcp : s.recoveryCheckpoint = some c) :
    checkpointIsWellFormed c = true ↔
      c.policy.wellFormed = true ∧
      (∀ q, c.reconversionReplacement = some q → q.spans c.composition = true) ∧
      (c.phase ≠ .unicodeInput →
        c.unicodeInputBuffer.getD [] = [] ∧ c.phaseBeforeUnicodeInput = none) := by
  have hframe := hy.frame c hcp
  have hcomposition : c.composition = s.composingText := congrArg (·.composition) hframe
  have hbuffer : c.unicodeInputBuffer = some s.unicodeInputBuffer :=
    congrArg (·.unicodeInputBuffer) hframe
  have hbefore : c.phaseBeforeUnicodeInput = s.phaseBeforeUnicodeInput :=
    congrArg (·.phaseBeforeUnicodeInput) hframe
  have hvalid : validUnicodeBuffer (c.unicodeInputBuffer.getD []) = true := by
    rw [hbuffer, Option.getD_some, validUnicodeBuffer]
    obtain ⟨hlen, hlower⟩ := hc.sound.buffer
    rw [characterCount_lowercaseHex hlower, hlower]
    simpa using hlen
  have hunicode : c.phase = .unicodeInput →
      c.phaseBeforeUnicodeInput = some .idle ∨ c.phaseBeforeUnicodeInput = some .composing :=
    fun hp => hbefore ▸ (hc.phased.unicode ((hy.unicode c hcp).mp hp)).2.2.2
  have helements (hp : c.policy.wellFormed = true) :
      c.composition.elements.all CompositionElement.wellFormed = true :=
    hcomposition ▸ hy.elements c hcp hp
  unfold checkpointIsWellFormed
  simp only [Bool.and_eq_true, hvalid]
  constructor
  · rintro ⟨⟨⟨⟨-, hp⟩, hr⟩, -⟩, hphase⟩
    refine ⟨hp, fun q hq => ?_, fun hne => ?_⟩
    · simpa [hq] using hr
    · simpa [hne] using hphase
  · rintro ⟨hp, hr, hrest⟩
    refine ⟨⟨⟨⟨helements hp, hp⟩, ?_⟩, trivial⟩, ?_⟩
    · cases hq : c.reconversionReplacement with
      | none => rfl
      | some q => exact hr q hq
    · by_cases hph : c.phase = .unicodeInput
      · simpa [hph] using hunicode hph
      · simpa [hph] using hrest hph

/-- A restored session has what the checkpoint has. -/
theorem recovers_restored {u : CompositionSession} (hy : Synced s)
    (hcp : s.recoveryCheckpoint = some c) :
    Recovers s (u.restored c.decoded).advanceRevision := by
  have hframe := hy.frame c hcp
  have hphase : (c.phase = .unicodeInput) = (s.phase = .unicodeInput) :=
    propext (hy.unicode c hcp)
  have hcomposition : c.composition = s.composingText := congrArg (·.composition) hframe
  refine ⟨hcomposition, ⟨congrArg (·.leftContext) hframe, congrArg (·.rightContext) hframe⟩,
    congrArg (·.reconversionReplacement) hframe,
    congrArg (fun q => q.unicodeInputBuffer.getD []) hframe, ?_⟩
  change (if c.phase = .unicodeInput then ImePhase.unicodeInput
    else if c.composition.isEmpty = true then .idle else .composing) = _
  rw [hcomposition]
  simp only [hphase]

variable [RecoveryCodec] {P : Promise} {policy : PinnedCompositionPolicy}

/-- The last guard of a restore. -/
def RecoveryCheckpoint.Accepted (c : RecoveryCheckpoint) : Prop :=
  c.revision < 0xFFFFFFFFFFFFFFFF ∧ c.nextCandidateGeneration < 0xFFFFFFFFFFFFFFFF ∧
    0 < c.nextEffectID ∧ c.nextEffectID < 0xFFFFFFFFFFFFFFFF ∧ checkpointIsWellFormed c = true

/-- A fresh session restores the checkpoint or refuses it. -/
def RestoredFresh (c : RecoveryCheckpoint) (result : ImeReductionResult)
    (u : CompositionSession) : Prop :=
  (result.status = .success ∧ c.Accepted ∧ result.snapshot.effects = [] ∧
    Pictures u result.snapshot ∧ ∃ s₀ : CompositionSession, s₀.candidates = none ∧
      s₀.segments = [] ∧ u = (s₀.restored c.decoded).advanceRevision) ∨
  (result.status ≠ .success ∧ ¬ c.Accepted)

theorem restoreCheckpoint_fresh (hp : policy.secureInput = false)
    (hs : c.policy.secureInput = false) :
    Meets P (restoreCheckpoint (RecoveryCodec.encode c)) (RestoredFresh c) (.initial policy) := by
  have hle : (CompositionSession.initial policy).revision ≤ c.decoded.revision :=
    UInt64.le_iff_toNat_le.mpr (Nat.zero_le _)
  unfold restoreCheckpoint
  rw [meets_bind, meets_session, meets_ite, if_pos (by exact hp), RecoveryCodec.decode_encode]
  dsimp only
  rw [meets_ite, if_pos (by exact hs), meets_ite, if_pos hle, meets_ite]
  split
  · rename_i hok
    simp only [meets_bind, meets_invalidateSpeculation]
    rw [meets_resolvePendingLearning_nil rfl]
    simp only [meets_clearLivePresentation, meets_endConverterComposition,
      meets_clearConversionState, meets_update, meets_advanceRevision,
      meets_prepareSpeculativeConversion]
    exact meets_success fun result hr => .inl ⟨hr.status, hok, hr.effects, hr.shows.pictures,
      _, rfl, rfl, rfl⟩
  · rename_i hbad
    refine meets_failure fun result hr => .inr ⟨?_, hbad⟩
    rw [hr.status]
    exact fun h => by cases h

variable {r : ImeReducer} {data : Data} {requestID : Text} {expectedRevision : Option UInt64}
  {provider : Option PinnedCompositionPolicy} {stagedLearningEnabled : Bool}

theorem reduce_fresh {t : List ConverterEvent} {result : ImeReductionResult} {r' : ImeReducer}
    (hp : policy.secureInput = false) (hs : c.policy.secureInput = false)
    (he : (expectedRevision.all fun e => e = 0) = true)
    (h : (reduce (.restoreCheckpoint (RecoveryCodec.encode c)) requestID expectedRevision
      provider).Yields (.initial (.initial policy) stagedLearningEnabled) t result r') :
    RestoredFresh c result r'.session := by
  cases reduce_answered h with
  | replayed entry hl => cases hl
  | reused entry hl => cases hl
  | stale hl hm => exact absurd he hm
  | performed hl hm hY =>
    rw [session_cache]
    exact (Meets.yields (restoreCheckpoint_fresh hp hs) hY).2

end

end Hazkey
