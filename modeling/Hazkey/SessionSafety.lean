import Hazkey.Evaluation

/-! What holds of a session between calls: its phase agrees with its data, its
segments cover its composition, its staged learning is settled once, and secure
input is contained. -/

namespace Hazkey

open ServiceProgram

attribute [local instance] scalarText byteCodec

/-! Phases. -/

section

variable [SwiftText] [RecoveryCodec] {policy : PinnedCompositionPolicy}
  {stagedLearningEnabled : Bool} {moves : List ReducerMove} {r : ImeReducer}

/-- The phase and the data it describes. -/
structure PhaseAgrees (s : CompositionSession) : Prop where
  idle : s.phase = .idle →
    s.composingText.elements = [] ∧ s.candidates = none ∧ s.segments = []
  editing : s.phase = .composing ∨ s.phase = .previewing ∨ s.phase = .selecting ∨
    s.phase = .reconverting → s.composingText.elements ≠ []
  selecting : s.phase = .selecting → ∃ c i, s.candidates = some c ∧ c.items ≠ [] ∧
    c.selectedIndex = some i ∧ i < c.items.length
  unicode : s.phase ≠ .unicodeInput →
    s.unicodeInputBuffer = [] ∧ s.phaseBeforeUnicodeInput = none

omit [RecoveryCodec] in
theorem Coherent.phaseAgrees {s : CompositionSession} (h : Coherent s) (ht : Tidy s) :
    PhaseAgrees s where
  idle := h.phased.idle
  editing hp := by
    refine h.phased.editing ?_ ?_
    · rcases hp with hp | hp | hp | hp <;> simp [hp]
    · rcases hp with hp | hp | hp | hp <;> simp [hp]
  selecting hp := by
    obtain ⟨c, i, hc, hs, hi⟩ := h.phased.selecting hp
    exact ⟨c, i, hc, List.ne_nil_of_length_pos (Nat.zero_lt_of_lt hi), hs, hi⟩
  unicode := ht

end

/-- Deactivation in Unicode input leaves its buffer behind. -/
theorem phase_disagrees_deactivated :
    let r := (evaluate .standard [request .beginUnicodeInput "1",
      request (.appendUnicodeDigit ['1']) "2", request (.lifecycle .deactivate) "3"]).2.2
    Reachable r ∧ r.session.phase = .idle ∧ r.session.unicodeInputBuffer = ['1'] ∧
      ¬ PhaseAgrees r.session :=
  ⟨evaluate_reachable _ _, by decide +kernel, by decide +kernel,
    fun h => absurd (h.unicode (by decide +kernel)).1 (by decide +kernel)⟩

section

variable [SwiftText] [RecoveryCodec] {policy : PinnedCompositionPolicy}
  {stagedLearningEnabled : Bool} {moves : List ReducerMove} {r : ImeReducer}

/-- No action that the move carries out leaves Unicode input without ending it. -/
def KeepsUnicode (m : ReducerMove) : Prop :=
  ∀ action requestID expectedRevision provider,
    m.label = .reduce action requestID expectedRevision provider →
    Performed m.before requestID expectedRevision →
      ¬ LeavesUnicode (Seen m.trace) m.before.session action

theorem Served.tidy {call : ReducerCall} {value : Option ImeReductionResult} {r' : ImeReducer}
    {t : List ConverterEvent} (h : Served r t call value r') (ht : Tidy r.session)
    (hk : KeepsUnicode ⟨call, r, t, value, r'⟩) : Tidy r'.session := by
  cases h with
  | replayed h => exact ht
  | stepped h hp =>
    rcases hp with hp | hp
    · exact h.1.tidy ht (hk _ _ _ _ rfl hp)
    · rwa [hp]
  | maintained h => exact h.tidy ht

/-- Along a run that never leaves Unicode input without ending it the phase
agrees with the data. -/
theorem phase_agrees (h : ReducerRun policy stagedLearningEnabled moves r)
    (hk : ∀ m ∈ moves, KeepsUnicode m) :
    PhaseAgrees r.session ∧
      ∀ m ∈ moves, PhaseAgrees m.before.session ∧ PhaseAgrees m.after.session := by
  have hinit : Held (.initial (.initial policy) stagedLearningEnabled) :=
    held_initial policy stagedLearningEnabled
  have hrun := Runs.guarded (J := fun r => Held r ∧ Tidy r.session) (C := KeepsUnicode)
    ⟨hinit, fun _ => ⟨rfl, rfl⟩⟩ (fun m hi hk hv => ⟨program_held hi.1 hv,
      (program_served hi.1 hv).2.tidy hi.2 hk⟩) h hk
  exact ⟨hrun.1.1.coherent.phaseAgrees hrun.1.2, fun m hm =>
    ⟨(hrun.2 m hm).2.1.1.coherent.phaseAgrees (hrun.2 m hm).2.1.2,
      (hrun.2 m hm).2.2.1.coherent.phaseAgrees (hrun.2 m hm).2.2.2⟩⟩

omit [RecoveryCodec] in
theorem keepsUnicode_of_phase {m : ReducerMove} (h : m.before.session.phase ≠ .unicodeInput) :
    KeepsUnicode m := by
  intro action _ _ _ _ _ hl
  cases action with
  | lifecycle event => cases event <;> first | exact hl | exact h hl.1
  | _ => first | exact hl | exact h hl | exact h hl.1

end

/-- A conversion and a choice of its first candidate. -/
def conversionCalls : List ReducerCall :=
  [request (.insertText ['a', 'b']) "1", request .startConversion "2",
    request (.navigateCandidate 0) "3"]

theorem phase_agrees_conversion :
    let e := evaluate .standard conversionCalls
    PhaseAgrees e.2.2.session ∧
      ∀ m ∈ e.1, PhaseAgrees m.before.session ∧ PhaseAgrees m.after.session :=
  phase_agrees (evaluate_run _ _) fun m hm => keepsUnicode_of_phase
    ((by decide +kernel : ∀ m ∈ (evaluate .standard conversionCalls).1,
      m.before.session.phase ≠ .unicodeInput) m hm)

/-! Segments. -/

section

variable [SwiftText] [RecoveryCodec] {policy : PinnedCompositionPolicy}
  {stagedLearningEnabled : Bool} {moves : List ReducerMove} {r : ImeReducer}

/-- The segments of a reachable session partition its composition. -/
theorem segments_partition (h : Reachable r) :
    (r.session.segments ≠ [] →
      (∀ g ∈ r.session.segments, 1 ≤ g.inputCount) ∧
      (r.session.segments.map (·.inputCount)).sum = r.session.composingText.elements.length ∧
      (∀ g ∈ r.session.segments, g.candidates.items ≠ [] ∧
        (∃ i < g.candidates.items.length, g.candidates.selectedIndex = some i) ∧
        ∀ c ∈ g.candidates.items, c.consumingCount = g.inputCount) ∧
      ∃ i g, r.session.activeSegmentIndex = some i ∧ r.session.segments[i]? = some g ∧
        r.session.candidates = some g.candidates ∧
        r.session.activeBoundary = some g.inputCount) ∧
    (r.session.segments = [] → r.session.activeSegmentIndex = none) := by
  have hpart := h.held.coherent.partitioned
  refine ⟨fun hs => ⟨fun g hg => (hpart.wellFormed g hg).inputCount_pos, hpart.total hs,
    fun g hg => ?_, hpart.active hs⟩, hpart.inactive⟩
  obtain ⟨-, hsel, hcount, -⟩ := hpart.wellFormed g hg
  obtain ⟨i, hi, -⟩ := id hsel
  exact ⟨List.ne_nil_of_length_pos (Nat.zero_lt_of_lt hi), hsel, hcount⟩

end

theorem segments_partition_conversion :
    let s := (evaluate .standard conversionCalls).2.2.session
    s.segments ≠ [] ∧ (s.segments.map (·.inputCount)).sum = s.composingText.elements.length := by
  have hs : (evaluate .standard conversionCalls).2.2.session.segments ≠ [] := by decide +kernel
  exact ⟨hs, ((segments_partition (evaluate_reachable _ _)).1 hs).2.1⟩

/-! Staged learning. -/

section

variable [SwiftText] [RecoveryCodec] {policy : PinnedCompositionPolicy}
  {stagedLearningEnabled : Bool} {moves : List ReducerMove} {r : ImeReducer}

/-- What was staged is pending or was settled, each token once, in the order of
its arrival; and pending learning has nothing beside it. -/
theorem staged_learning_settled_once (h : ReducerRun policy stagedLearningEnabled moves r) :
    (callTrace moves).filterMap stagedToken =
        (callTrace moves).filterMap resolvedToken ++
          r.session.pendingLearningTransactions.map (·.token) ∧
      (r.session.pendingLearningTransactions ≠ [] → r.session.phase = .idle ∧
        r.session.composingText.elements = [] ∧ r.session.policy.secureInput = false) := by
  have hbal : Balanced _ (callTrace moves) r := Runs.frame h
  have hc := h.held.1.coherent
  refine ⟨hbal, fun hp => ?_⟩
  have hidle := hc.phased.pending hp
  exact ⟨hidle, (hc.phased.idle hidle).1, hc.sound.unsecure hp⟩

end

/-- A commit whose learning stays pending, and its settlement by the next input. -/
def learningCalls : List ReducerCall :=
  [request (.insertText ['a']) "1", request .startConversion "2", request .commitSelected "3",
    request (.insertText ['b']) "4", request .startConversion "5", request .commitSelected "6"]

theorem staged_learning_settled_once_commit :
    let e := evaluate .standard learningCalls
    e.2.2.session.pendingLearningTransactions ≠ [] ∧
      (callTrace e.1).filterMap stagedToken = (callTrace e.1).filterMap resolvedToken ++
        e.2.2.session.pendingLearningTransactions.map (·.token) :=
  ⟨by decide +kernel, (staged_learning_settled_once (evaluate_run _ _)).1⟩

/-! Secure input. -/

section

variable [SwiftText] [RecoveryCodec] {policy : PinnedCompositionPolicy}
  {stagedLearningEnabled : Bool} {moves : List ReducerMove} {r : ImeReducer}

/-- Nothing of a secure session leaves it but its reading. -/
structure Contained (s : CompositionSession) : Prop where
  checkpoint : s.recoveryCheckpoint = none ∧ s.publishedRecovery = none
  context : s.context.leftContext = [] ∧ s.context.rightContext = []
  pending : s.pendingLearningTransactions = []
  live : s.livePresentation.materializedPrefix = none ∧ s.matchingLivePrefix = none ∧
    ∀ c, s.candidates = some c → c.liveCandidate = none

omit [RecoveryCodec] in
theorem Coherent.contained {s : CompositionSession} (h : Coherent s)
    (hs : s.policy.secureInput = true) : Contained s := by
  obtain ⟨hcp, hctx, hpend, hlive⟩ := h.sound.secure hs
  refine ⟨⟨hcp, if_pos hs⟩, hctx, hpend, hlive, ?_, h.phased.live hs⟩
  simp [CompositionSession.matchingLivePrefix, hs]

/-- The results of a move made of a secure session carry no checkpoint. -/
theorem Served.recovery {call : ReducerCall} {result : ImeReductionResult} {r' : ImeReducer}
    {t : List ConverterEvent} (h : Served r t call (some result) r') (hc : CacheSound r)
    (hs : r'.session.policy.secureInput = true) : result.snapshot.recovery = none := by
  cases h with
  | replayed h =>
    obtain ⟨entry, hl, -, -, rfl⟩ := h
    obtain ⟨key, hm⟩ := mem_of_lookup hl
    exact (hc.secure hs).2 _ hm
  | stepped h hp => exact h.2.pictures.recovery_secure hs

/-- What a converter may be told of a secure session. -/
def SecureCall : ConverterCall → Prop
  | .prepareSpeculativeConversion _ | .stageLearning _ _ | .updateLearningData _
  | .commitLearning | .forget _ => False
  | .candidates _ o | .segmentCandidates _ o | .realtimeCandidates _ o | .predictions _ o =>
    o.allowLearning = false ∧ o.zenzaiEnabled = false ∧ o.secureInput = true
  | _ => True

omit [SwiftText] [RecoveryCodec] in
theorem benign_secure {s : CompositionSession} {c : ConverterCall} (h : Benign s c)
    (hs : s.policy.secureInput = true) : SecureCall c := by
  cases c <;> simp_all [Benign, SecureCall]

/-- Secure input reaches neither a checkpoint nor what the converter learns. -/
theorem secure_containment (h : ReducerRun policy stagedLearningEnabled moves r) :
    (r.session.policy.secureInput = true → Contained r.session ∧ r.requestCache.length ≤ 1) ∧
    (∀ m ∈ moves, m.after.session.policy.secureInput = true → ∀ result, m.value = some result →
      result.snapshot.recovery = none) ∧
    ∀ e ∈ callTrace moves, e.state.session.policy.secureInput = true →
      SecureCall e.call := by
  obtain ⟨hr, hmoves⟩ := h.held
  refine ⟨fun hs => ⟨hr.coherent.contained hs, ?_⟩, fun m hm hs result hv => ?_, fun e he hs => ?_⟩
  · have hlen := congrArg List.length hr.cache.keys
    rw [List.length_map] at hlen
    exact hlen ▸ (hr.cache.secure hs).1
  · obtain ⟨hvalid, hbefore, -⟩ := hmoves m hm
    have hserved := (program_served hbefore hvalid).2
    rw [hv] at hserved
    exact hserved.recovery hbefore.cache hs
  · obtain ⟨t, ht, het⟩ := List.mem_flatten.mp he
    obtain ⟨m, hm, rfl⟩ := List.mem_map.mp ht
    obtain ⟨hvalid, hbefore, -⟩ := hmoves m hm
    have hb := (program_served hbefore hvalid).1 e het
    exact benign_secure hb hs

end

theorem secure_containment_conversion :
    let e := evaluate { PinnedCompositionPolicy.standard with secureInput := true } conversionCalls
    e.2.2.session.policy.secureInput = true ∧ Contained e.2.2.session ∧
      e.2.2.requestCache.length ≤ 1 ∧
      ∀ q ∈ callTrace e.1, q.state.session.policy.secureInput = true → SecureCall q.call := by
  have hs : (evaluate { PinnedCompositionPolicy.standard with secureInput := true }
      conversionCalls).2.2.session.policy.secureInput = true := by decide +kernel
  have h := secure_containment (evaluate_run
    { PinnedCompositionPolicy.standard with secureInput := true } conversionCalls)
  exact ⟨hs, (h.1 hs).1, (h.1 hs).2, h.2.2⟩

end Hazkey
