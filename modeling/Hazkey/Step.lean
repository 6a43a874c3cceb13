import Hazkey.Coherence

/-! What one action can do to a session. Every exit of every action keeps it,
advances its revision, restores it, or is one of the few listed apart. -/

namespace Hazkey

open ServiceProgram

variable [SwiftText]

/-- The answers to a request that was refused as it stands. -/
def ImeReductionStatus.Rejects : ImeReductionStatus → Prop
  | .invalidAction | .staleCandidate | .staleRevision => True
  | .success | .converterUnavailable | .secureInputViolation => False

section

omit [SwiftText]

/-- Consecutive effect identifiers, from the first to the next free one. -/
def Numbered : UInt64 → List ClientEffect → UInt64 → Prop
  | first, [], next => next = first
  | first, effect :: effects, next => effect.effectID = first ∧ Numbered (first + 1) effects next

/-- The generations of the windows a session holds. -/
def CompositionSession.windowGenerations (s : CompositionSession) : List UInt64 :=
  (s.candidates.map (·.generation)).toList ++ s.segments.map (·.candidates.generation)

/-- The windows of `u` are those of `s` or new ones, in number at most its elements. -/
def Allocated (s u : CompositionSession) : Prop :=
  ∃ k, k ≤ u.composingText.elements.length ∧
    u.nextCandidateGeneration = s.nextCandidateGeneration + UInt64.ofNat k ∧
    ∀ g ∈ u.windowGenerations, g ∈ s.windowGenerations ∨
      ∃ i, 1 ≤ i ∧ i ≤ k ∧ g = s.nextCandidateGeneration + UInt64.ofNat i

/-- The identifiers a step consumes. -/
structure Counted (s : CompositionSession) (effects : List ClientEffect) (u : CompositionSession) :
    Prop where
  numbered : Numbered s.nextEffectID effects u.nextEffectID
  length_le : effects.length ≤ 2
  allocated : Allocated s u

/-- The checkpoint of `u` was cut before the step, or after its last allocation,
or right before the window on show. -/
def CutAt (s u : CompositionSession) : Prop :=
  ∀ c, u.recoveryCheckpoint = some c →
    (s.recoveryCheckpoint = some c ∧ ∀ w, u.candidates = some w → s.candidates = some w) ∨
    c.nextCandidateGeneration = u.nextCandidateGeneration ∨
    (c.nextCandidateGeneration = s.nextCandidateGeneration ∧
      ∀ w, u.candidates = some w → w.generation = c.nextCandidateGeneration + 1)

end

/-- The transform of the selected text, or of the reading, is empty. -/
def EmptyTransform (P : Promise) (s : CompositionSession) (transform : ImeTextTransform) : Prop :=
  match s.selection with
  | some (candidates, index) =>
    transformText (s.selectedSource transform candidates index) transform = []
  | none => ∃ a, P (.display s.currentInput) a ∧ transformText a.text transform = []

/-- The actions that leave Unicode input without ending it. -/
def LeavesUnicode (P : Promise) (s : CompositionSession) : ImeAction → Prop
  | .startConversion => s.phase = .unicodeInput
  | .commitAll => s.phase = .unicodeInput ∧ s.composingText.elements ≠ []
  | .transformActiveSegment transform => s.phase = .unicodeInput ∧
    ∃ a, P (.display s.currentInput) a ∧ transformText a.text transform ≠ []
  | .reconvert text _ _ deleteBefore deleteAfter => s.phase = .unicodeInput ∧
    s.policy.secureInput = false ∧ (text ≠ [] ∧ 0 ≤ deleteBefore ∧ 0 ≤ deleteAfter) ∧
    (deleteBefore + deleteAfter = 0 ∨ deleteBefore + deleteAfter = text.length)
  | .lifecycle .deactivate | .lifecycle .focusChanged | .lifecycle .serverRestarted =>
    s.phase = .unicodeInput ∧ s.policy.secureInput = false
  | _ => False

/-- There is something to navigate. -/
def CompositionSession.navigable (s : CompositionSession) : Prop :=
  ∃ c, s.candidates = some c ∧ c.items ≠ [] ∧ s.phase.holdsCandidates

/-- The exits that change the session and do not advance its revision. -/
inductive Undone (P : Promise) (s : CompositionSession) :
    ImeAction → ImeReductionStatus → CompositionSession → Prop
  | forgetSecure (id : Text) (generation : UInt64) (h : s.policy.secureInput = true) :
      Undone P s (.forgetCandidate id generation) .secureInputViolation s.clearLivePresentation
  | forgetStale (id : Text) (generation : UInt64) (h : s.candidate id generation = none) :
      Undone P s (.forgetCandidate id generation) .staleCandidate s.clearLivePresentation
  | page (delta : Int) (h : ¬ s.navigable) :
      Undone P s (.navigateCandidatePage delta) .invalidAction s.clearLivePresentation
  | navigate (delta : Int) (h : ¬ s.navigable) (hu : ¬ s.unconverted) :
      Undone P s (.navigateCandidate delta) .invalidAction s.clearLivePresentation
  | convert (delta : Int) (k : Nat) (hu : s.unconverted) (ht : Throws P) :
      Undone P s (.navigateCandidate delta) .converterUnavailable
        { s.clearLivePresentation.clearConversion with
          nextCandidateGeneration := s.nextCandidateGeneration + UInt64.ofNat k }
  | transform (t : ImeTextTransform) (h : EmptyTransform P s t)
      (hc : ¬ (s.phase = .composing ∧ t.isAlphabet = true)) :
      Undone P s (.transformActiveSegment t) .success s.clearLivePresentation
  | resize (delta : Int) (hp : s.phase.holdsCandidates) (ht : Throws P) :
      Undone P s (.resizeSegment delta) .converterUnavailable
        { s.clearConversion with phase := s.editablePhase }
  | live (scheduledRevision : UInt64) (h : scheduledRevision = s.revision)
      (hs : ∀ d, DisplaysAs P d → underDisplay d (shouldScheduleLiveConversion s) = false) :
      Undone P s (.applyLiveConversion scheduledRevision) .success
        { s with livePresentation := { s.livePresentation with pendingRevision := none } }

/-- Where a restored session goes on. -/
structure RestoredFrom [RecoveryCodec] (data : Data) (c : RecoveryCheckpoint)
    (s u : CompositionSession) : Prop where
  decoded : RecoveryCodec.decode data = some c
  ahead : s.revision ≤ c.revision ∧ c.revision < 0xFFFFFFFFFFFFFFFF
  room : c.nextCandidateGeneration < 0xFFFFFFFFFFFFFFFF
  revision : u.revision = c.revision + 1
  nextEffectID : u.nextEffectID = c.nextEffectID
  nextCandidateGeneration : u.nextCandidateGeneration = c.nextCandidateGeneration + 1
  windows : u.windowGenerations = []

/-- How a step moves the session. -/
inductive Moved [RecoveryCodec] (P : Promise) (s : CompositionSession) (action : ImeAction)
    (status : ImeReductionStatus) (u : CompositionSession) : Prop
  | kept (h : u = s)
  | advanced (hs : ¬ status.Rejects) (h : u.revision = s.revision + 1)
  | restored (hs : ¬ status.Rejects) (data : Data) (c : RecoveryCheckpoint)
      (ha : action = .restoreCheckpoint data) (h : RestoredFrom data c s u)
  | rested (hs : ¬ status.Rejects) (hp : s.phase = .idle)
      (hsec : u.policy.secureInput = s.policy.secureInput)
      (hu : u =
        { s with
          livePresentation := u.livePresentation
          policy := u.policy
          context := u.context })
  | undone (h : Undone P s action status u)

/-- What a step of the reducer does to a coherent session. -/
structure Stepped [RecoveryCodec] (P : Promise) (s : CompositionSession) (action : ImeAction)
    (status : ImeReductionStatus) (effects : List ClientEffect) (u : CompositionSession) :
    Prop where
  coherent : Coherent u
  synced : Synced u
  moved : Moved P s action status u
  counted : Counted s effects u ∨
    effects = [] ∧ ∃ data c, action = .restoreCheckpoint data ∧ RestoredFrom data c s u
  cut : CutAt s u
  tidy : Tidy s → ¬ LeavesUnicode P s action → Tidy u

/-- The postcondition of an action: its step, and a snapshot of where it ends. -/
def Outcome [RecoveryCodec] (P : Promise) (s : CompositionSession) (action : ImeAction)
    (r : ImeReductionResult) (u : CompositionSession) : Prop :=
  Stepped P s action r.status r.snapshot.effects u ∧ Shows P u r.snapshot

variable [RecoveryCodec] {P : Promise} {s m u : CompositionSession} {action : ImeAction}
  {status : ImeReductionStatus} {effects : List ClientEffect}

theorem Reports.outcome {r : ImeReductionResult} (hr : Reports P status effects r u)
    (h : Stepped P s action status effects u) : Outcome P s action r u := by
  obtain ⟨rfl, rfl, hs⟩ := hr
  exact ⟨h, hs⟩

theorem Stepped.success (h : Stepped P s action .success effects u) :
    Meets P (success effects) (Outcome P s action) u := meets_success fun _ hr => hr.outcome h

theorem Stepped.failure {message : String} (h : Stepped P s action status [] u) :
    Meets P (failure status message) (Outcome P s action) u :=
  meets_failure fun _ hr => hr.outcome h

/-! Identifiers. -/

omit [SwiftText] [RecoveryCodec] in
theorem Numbered.next_eq {first next : UInt64} {effects : List ClientEffect}
    (h : Numbered first effects next) : next = first + UInt64.ofNat effects.length := by
  induction effects generalizing first with
  | nil =>
    obtain rfl : next = first := h
    simp
  | cons effect effects ih =>
    rw [ih h.2, List.length_cons, UInt64.ofNat_add, UInt64.add_assoc, UInt64.add_comm 1]
    rfl

omit [SwiftText] [RecoveryCodec] in
theorem allocated_refl (s : CompositionSession) : Allocated s s :=
  ⟨0, Nat.zero_le _, by simp, fun _ hg => .inl hg⟩

omit [SwiftText] [RecoveryCodec] in
theorem counted_refl (s : CompositionSession) : Counted s [] s :=
  ⟨rfl, Nat.zero_le _, allocated_refl s⟩

omit [SwiftText] [RecoveryCodec] in
/-- A session with no new generation and only old windows. -/
theorem allocated_of_subset (hg : u.nextCandidateGeneration = s.nextCandidateGeneration)
    (hw : ∀ g ∈ u.windowGenerations, g ∈ s.windowGenerations) : Allocated s u :=
  ⟨0, Nat.zero_le _, by simp [hg], fun g hu => .inl (hw g hu)⟩

omit [SwiftText] [RecoveryCodec] in
theorem allocated_cleared (hg : u.nextCandidateGeneration = s.nextCandidateGeneration)
    (hc : u.candidates = none) (hs : u.segments = []) : Allocated s u :=
  allocated_of_subset hg fun g h => by
    simp [CompositionSession.windowGenerations, hc, hs] at h

/-! Steps. -/

theorem Stepped.kept (hc : Coherent s) (hy : Synced s) : Stepped P s action status [] s where
  coherent := hc
  synced := hy
  moved := .kept rfl
  counted := .inl (counted_refl s)
  cut _ h := .inl ⟨h, fun _ => id⟩
  tidy ht _ := ht

/-- The session right before an action advances its revision. -/
structure Ready (s : CompositionSession) (effects : List ClientEffect) (m : CompositionSession) :
    Prop where
  coherent : Coherent m
  revision : m.revision = s.revision
  counted : Counted s effects m

omit [RecoveryCodec] in
theorem Ready.refl (h : Coherent s) : Ready s [] s := ⟨h, rfl, counted_refl s⟩

omit [RecoveryCodec] in
theorem Coherent.advanceRevision (h : Coherent s) : Coherent s.advanceRevision :=
  ⟨h.sound.advanceRevision, h.phased, h.partitioned⟩

omit [SwiftText] [RecoveryCodec] in
theorem advanceRevision_checkpoint {c : RecoveryCheckpoint}
    (h : s.advanceRevision.recoveryCheckpoint = some c) :
    c.nextCandidateGeneration = s.nextCandidateGeneration := by
  unfold CompositionSession.advanceRevision at h
  dsimp only at h
  split at h
  · cases h
  · cases h
    rfl

theorem Ready.advanced (h : Ready s effects m) (hs : ¬ status.Rejects)
    (ht : Tidy s → ¬ LeavesUnicode P s action → Tidy m) :
    Stepped P s action status effects m.advanceRevision where
  coherent := h.coherent.advanceRevision
  synced := h.coherent.sound.synced_advanceRevision
  moved := .advanced hs (congrArg (· + 1) h.revision)
  counted := .inl ⟨h.counted.numbered, h.counted.length_le, h.counted.allocated⟩
  cut _ hc := .inr (.inl (advanceRevision_checkpoint (s := m) hc))
  tidy := ht

/-- The revision a scheduled conversion waits for is set after the advance. -/
theorem Ready.scheduled (h : Ready s effects m) (hs : ¬ status.Rejects)
    (ht : Tidy s → ¬ LeavesUnicode P s action → Tidy m) (hp : m.phase ≠ .unicodeInput)
    (x : Option UInt64) :
    Stepped P s action status effects
      { m.advanceRevision with
        livePresentation := ⟨m.livePresentation.materializedPrefix, x⟩ } := by
  have hstep : Stepped P s action status effects m.advanceRevision := h.advanced hs ht
  obtain ⟨hsound, hph, hpart⟩ := hstep.coherent
  have hsync := hstep.synced
  have hcount := h.counted
  exact
    { coherent := ⟨hsound, ⟨hph.idle, hph.editing, fun hu => absurd hu hp, hph.selecting,
        hph.pending, hph.live⟩, hpart⟩
      synced := ⟨hsync.frame, hsync.unicode, hsync.secure, hsync.elements⟩
      moved := .advanced hs (congrArg (· + 1) h.revision)
      counted := .inl ⟨hcount.numbered, hcount.length_le, hcount.allocated⟩
      cut := hstep.cut
      tidy := hstep.tidy }

omit [RecoveryCodec] in
/-- A session with no new identifier and only old windows. -/
theorem Coherent.ready (h : Coherent m) (hrev : m.revision = s.revision)
    (heff : m.nextEffectID = s.nextEffectID)
    (hgen : m.nextCandidateGeneration = s.nextCandidateGeneration)
    (hw : ∀ g ∈ m.windowGenerations, g ∈ s.windowGenerations) : Ready s [] m :=
  ⟨h, hrev, heff, Nat.zero_le _, allocated_of_subset hgen hw⟩

omit [RecoveryCodec] in
theorem Coherent.resolved (h : Coherent s) :
    Coherent { s with pendingLearningTransactions := [] } := by
  obtain ⟨hsound, hph, hpart⟩ := h
  exact ⟨hsound.resolved, ⟨hph.idle, hph.editing, hph.unicode, hph.selecting,
    fun hp => absurd rfl hp, hph.live⟩, hpart⟩

/-! Steps that change the live presentation only. -/

omit [RecoveryCodec] in
theorem Coherent.relit (h : Coherent s) {x : LivePresentationState}
    (hx : s.policy.secureInput = true → x.materializedPrefix = none)
    (hu : s.phase = .unicodeInput → x = .empty) : Coherent { s with livePresentation := x } := by
  obtain ⟨hsound, hph, hpart⟩ := h
  refine ⟨hsound.withLive hx, ⟨hph.idle, hph.editing, fun hp => ?_, hph.selecting, hph.pending,
    hph.live⟩, hpart⟩
  obtain ⟨hc, hg, -, hb⟩ := hph.unicode hp
  exact ⟨hc, hg, hu hp, hb⟩

omit [RecoveryCodec] in
theorem Coherent.clearLivePresentation (h : Coherent s) : Coherent s.clearLivePresentation :=
  h.relit (fun _ => rfl) fun _ => rfl

theorem Stepped.relit (hc : Coherent s) (hy : Synced s) {x : LivePresentationState}
    (hx : s.policy.secureInput = true → x.materializedPrefix = none)
    (hu : s.phase = .unicodeInput → x = .empty)
    (hm : Moved P s action status { s with livePresentation := x }) :
    Stepped P s action status [] { s with livePresentation := x } where
  coherent := hc.relit hx hu
  synced := ⟨hy.frame, hy.unicode, hy.secure, hy.elements⟩
  moved := hm
  counted := .inl ⟨rfl, Nat.zero_le _, allocated_of_subset rfl fun _ => id⟩
  cut _ h := .inl ⟨h, fun _ => id⟩
  tidy ht _ := ht

/-- The steps that drop the live presentation and do no more. -/
theorem Stepped.unlit (hc : Coherent s) (hy : Synced s)
    (h : Undone P s action status s.clearLivePresentation) :
    Stepped P s action status [] s.clearLivePresentation :=
  Stepped.relit hc hy (fun _ => rfl) (fun _ => rfl) (.undone h)

end Hazkey
