import Hazkey.RequestCache

/-! The invariant of the reducer between calls, along every run of requests and
of the calls a server makes on its own. -/

namespace Hazkey

open ServiceProgram

variable [SwiftText]

/-- What a call other than a request does to a session. -/
structure Maintained (s u : CompositionSession) : Prop where
  coherent : Coherent u
  synced : Synced u
  counted : Counted s [] u
  cut : CutAt s u
  tidy : Tidy s → Tidy u

variable {P : Promise} {s m u : CompositionSession} {r r' r₁ : ImeReducer}
  {t : List ConverterEvent}

theorem maintained_refl (hc : Coherent s) (hy : Synced s) : Maintained s s :=
  ⟨hc, hy, counted_refl s, fun _ h => .inl ⟨h, fun _ => id⟩, id⟩

theorem Ready.maintained (h : Ready s [] m) (ht : Tidy s → Tidy m) :
    Maintained s m.advanceRevision where
  coherent := h.coherent.advanceRevision
  synced := h.coherent.sound.synced_advanceRevision
  counted := ⟨h.counted.numbered, h.counted.length_le, h.counted.allocated⟩
  cut _ hc := .inr (.inl (advanceRevision_checkpoint (s := m) hc))
  tidy := ht

theorem Pinned.maintained {b : Bool} (h : Pinned s u b) (hy : Synced s) : Maintained s u where
  coherent := h.coherent
  synced := h.synced hy
  counted := h.ready.counted
  cut c hc := by
    have hw : u.candidates = s.candidates := congrArg (·.candidates) h.frame
    exact .inl ⟨h.cut c hc, fun w hu => hw ▸ hu⟩
  tidy ht hp := by
    have hph : u.phase = s.phase := congrArg (·.phase) h.frame
    exact ht.kept (hph ▸ hp) h.unicode

/-! The calls one by one. -/

omit [SwiftText] in
theorem meets_rebasedRequests {l : List (Text × CachedRequest)}
    {Q : List (Text × CachedRequest) → CompositionSession → Prop} (hQ : ∀ l', Q l' s) :
    Meets P (rebasedRequests l) Q s := by
  induction l generalizing Q with
  | nil => exact hQ []
  | cons entry l ih =>
    obtain ⟨requestID, entry⟩ := entry
    rw [rebasedRequests, meets_bind]
    refine meets_snapshot fun snap _ _ => ?_
    rw [meets_bind]
    refine ih fun later => ?_
    rw [meets_pure]
    exact hQ _

omit [SwiftText] in
theorem meets_rebaseRequestCacheToCurrentSnapshot
    {Q : Unit → CompositionSession → Prop} (hQ : Q () s) :
    Meets P rebaseRequestCacheToCurrentSnapshot Q s := by
  rw [rebaseRequestCacheToCurrentSnapshot, meets_read]
  intro r hr
  rw [meets_bind]
  refine meets_rebasedRequests fun l => ?_
  exact (meets_modify (fun _ => rfl) _).mpr hQ

theorem pinCompositionPolicy_maintained (policy : PinnedCompositionPolicy) (hc : Coherent s)
    (hy : Synced s) : Meets P (pinCompositionPolicy policy) (fun _ => Maintained s) s :=
  meets_pinCompositionPolicy hc fun _ _ h => h.maintained hy

theorem invalidateCandidates_maintained (hc : Coherent s) (hy : Synced s) :
    Meets P invalidateCandidatesForExternalDictionaryChange (fun _ => Maintained s) s := by
  rw [invalidateCandidatesForExternalDictionaryChange, meets_bind, meets_invalidateSpeculation,
    meets_bind, meets_session, meets_when]
  split
  · rename_i hshown
    simp only [meets_bind, meets_endConverterComposition, meets_clearLivePresentation,
      meets_clearConversionState, meets_update, meets_advanceRevision]
    refine meets_rebaseRequestCacheToCurrentSnapshot ?_
    have hu : s.phase ≠ .unicodeInput := by
      intro hp
      obtain ⟨hcand, hseg, hlive, -⟩ := hc.phased.unicode hp
      rcases hshown with h | h | h
      · exact h hcand
      · exact h hseg
      · exact h (by rw [hlive]; rfl)
    have hpending : s.pendingLearningTransactions ≠ [] → s.composingText.elements = [] :=
      fun h => (hc.phased.idle (hc.phased.pending h)).1
    exact Ready.maintained ⟨⟨hc.sound.withLive fun _ => rfl, phased_released hpending,
      partitioned_nil⟩, rfl, rfl, Nat.zero_le _, allocated_cleared rfl rfl rfl⟩ fun ht _ => ht hu
  · exact maintained_refl hc hy

theorem finalizePendingLearning_maintained (commit : Bool) (hc : Coherent s) (hy : Synced s) :
    Meets P (finalizePendingLearning commit) (fun _ => Maintained s) s := by
  rw [finalizePendingLearning, meets_bind]
  by_cases hp : s.pendingLearningTransactions = []
  · rw [meets_resolvePendingLearning_nil hp, meets_when, if_neg Bool.false_ne_true]
    exact maintained_refl hc hy
  · refine meets_resolvePendingLearning hc.sound.unsecure ?_
    rw [meets_when, if_pos (by simpa using hp), meets_bind, meets_advanceRevision]
    refine meets_rebaseRequestCacheToCurrentSnapshot ?_
    have hready : Ready s [] _ := hc.resolved.ready rfl rfl rfl fun _ => id
    exact hready.maintained fun ht => ht

variable [RecoveryCodec] {action : ImeAction} {requestID : Text}
  {expectedRevision : Option UInt64} {provider : Option PinnedCompositionPolicy}
  {result : ImeReductionResult}

/-- A request that was answered from the cache. -/
def Replayed (r : ImeReducer) (action : ImeAction) (requestID : Text)
    (expectedRevision : Option UInt64) (result : ImeReductionResult) : Prop :=
  ∃ entry, r.requestCache.lookup requestID = some entry ∧ entry.action = action ∧
    entry.expectedRevision = expectedRevision ∧ result = entry.result

/-- The request is carried out: it is new and does not come too late. -/
def Performed (r : ImeReducer) (requestID : Text) (expectedRevision : Option UInt64) : Prop :=
  r.requestCache.lookup requestID = none ∧
    (expectedRevision.all fun e => e = r.session.revision) = true

theorem failure_outcome {status : ImeReductionStatus} {message : String} (hc : Coherent r.session)
    (hy : Synced r.session) (hY : (failure status message).Yields r t result r') :
    (∀ e ∈ t, Benign e.state.session e.call) ∧
      Outcome (Seen t) r.session a result r'.session ∧ r'.session = r.session := by
  obtain ⟨hb, ho⟩ := Meets.yields (Stepped.kept hc hy).failure hY
  exact ⟨hb, ho, congrArg (·.session) (failure_yields hY).1⟩

/-- A request is answered from the cache, or by a step of the session. -/
theorem reduce_outcome (hc : Coherent r.session) (hy : Synced r.session)
    (h : (reduce action requestID expectedRevision provider).Yields r t result r') :
    (∀ e ∈ t, Benign e.state.session e.call) ∧
      (r' = r ∧ Replayed r action requestID expectedRevision result ∨
        Outcome (Seen t) r.session action result r'.session ∧
          (Performed r requestID expectedRevision ∨ r'.session = r.session)) := by
  cases reduce_answered h with
  | replayed entry hl hm ht hr =>
    exact ⟨by simp [ht], .inl ⟨rfl, entry, hl, hm.1, hm.2, hr⟩⟩
  | reused entry hl hm hY =>
    obtain ⟨hb, ho, hs⟩ := failure_outcome (a := action) hc hy hY
    exact ⟨hb, .inr ⟨ho, .inr hs⟩⟩
  | stale hl hm hY =>
    obtain ⟨hb, ho, hs⟩ := failure_outcome (a := action) hc hy hY
    rw [session_cache]
    exact ⟨hb, .inr ⟨ho, .inr hs⟩⟩
  | performed hl hm hY =>
    obtain ⟨hb, ho⟩ := Meets.yields (perform_stepped action provider hc hy) hY
    rw [session_cache]
    exact ⟨hb, .inr ⟨ho, .inl ⟨hl, hm⟩⟩⟩

/-! All calls. -/

/-- What is known of a reducer between calls. -/
structure Held (r : ImeReducer) : Prop where
  coherent : Coherent r.session
  synced : Synced r.session
  cache : CacheSound r

omit [RecoveryCodec] in
theorem held_initial (policy : PinnedCompositionPolicy) (stagedLearningEnabled : Bool) :
    Held (.initial (.initial policy) stagedLearningEnabled) where
  coherent := ⟨⟨fun _ => ⟨rfl, ⟨rfl, rfl⟩, rfl, rfl⟩, rfl, ⟨Nat.zero_le _, rfl⟩, fun _ => rfl,
    fun q hq => by cases hq⟩, phased_idle, partitioned_nil⟩
  synced := synced_uncut rfl
  cache := cacheSound_emptied ⟨rfl, rfl⟩

/-- What a call does to the session: a request may be answered from the cache. -/
inductive Served (r : ImeReducer) (t : List ConverterEvent) :
    ReducerCall → Option ImeReductionResult → ImeReducer → Prop
  | replayed {action : ImeAction} {requestID : Text} {expectedRevision : Option UInt64}
      {provider : Option PinnedCompositionPolicy} {result : ImeReductionResult}
      (h : Replayed r action requestID expectedRevision result) :
      Served r t (.reduce action requestID expectedRevision provider) (some result) r
  | stepped {action : ImeAction} {requestID : Text} {expectedRevision : Option UInt64}
      {provider : Option PinnedCompositionPolicy} {result : ImeReductionResult} {r' : ImeReducer}
      (h : Outcome (Seen t) r.session action result r'.session)
      (hp : Performed r requestID expectedRevision ∨ r'.session = r.session) :
      Served r t (.reduce action requestID expectedRevision provider) (some result) r'
  | maintained {call : ReducerCall} {r' : ImeReducer} (h : Maintained r.session r'.session) :
      Served r t call none r'

theorem program_served {call : ReducerCall} {value : Option ImeReductionResult}
    (h : Held r) (hY : call.program.Yields r t value r') :
    (∀ e ∈ t, Benign e.state.session e.call) ∧ Served r t call value r' := by
  cases call with
  | reduce action requestID expectedRevision provider =>
    obtain ⟨t₁, t₂, result, u, rfl, hY, rfl, rfl, rfl⟩ := Prog.yields_bind.mp hY
    rw [List.append_nil]
    obtain ⟨hb, ⟨rfl, hr⟩ | ⟨ho, hp⟩⟩ := reduce_outcome h.coherent h.synced hY
    · exact ⟨hb, .replayed hr⟩
    · exact ⟨hb, .stepped ho hp⟩
  | pinCompositionPolicy policy =>
    obtain ⟨t₁, t₂, b, u, rfl, hY, rfl, rfl, rfl⟩ := Prog.yields_bind.mp hY
    rw [List.append_nil]
    obtain ⟨hb, hm⟩ :=
      (pinCompositionPolicy_maintained policy h.coherent h.synced).yields hY
    exact ⟨hb, .maintained hm⟩
  | invalidateCandidatesForExternalDictionaryChange =>
    obtain ⟨t₁, t₂, b, u, rfl, hY, rfl, rfl, rfl⟩ := Prog.yields_bind.mp hY
    rw [List.append_nil]
    obtain ⟨hb, hm⟩ := (invalidateCandidates_maintained h.coherent h.synced).yields hY
    exact ⟨hb, .maintained hm⟩
  | resumeSpeculativeConversionAfterMaintenance =>
    obtain ⟨t₁, t₂, b, u, rfl, hY, rfl, rfl, rfl⟩ := Prog.yields_bind.mp hY
    rw [List.append_nil]
    have hmeets : Meets (Seen t₁) resumeSpeculativeConversionAfterMaintenance
        (fun _ => Maintained r.session) r.session := by
      rw [resumeSpeculativeConversionAfterMaintenance, meets_prepareSpeculativeConversion]
      exact maintained_refl h.coherent h.synced
    obtain ⟨hb, hm⟩ := hmeets.yields hY
    exact ⟨hb, .maintained hm⟩
  | finalizePendingLearning commit =>
    obtain ⟨t₁, t₂, b, u, rfl, hY, rfl, rfl, rfl⟩ := Prog.yields_bind.mp hY
    rw [List.append_nil]
    obtain ⟨hb, hm⟩ :=
      (finalizePendingLearning_maintained commit h.coherent h.synced).yields hY
    exact ⟨hb, .maintained hm⟩

/-! The cache and the ledger. -/

omit [SwiftText] [RecoveryCodec] in
theorem CacheSound.not_mem (h : CacheSound r) (hl : r.requestCache.lookup requestID = none) :
    requestID ∉ r.requestOrder := by
  rw [← h.keys]
  intro hm
  obtain ⟨entry, he, rfl⟩ := List.mem_map.mp hm
  simpa using List.lookup_eq_none_iff.mp hl entry he

omit [SwiftText] [RecoveryCodec] in
theorem Retained.not_mem (h : Retained r t r') (hn : requestID ∉ r.requestOrder) :
    requestID ∉ r'.requestOrder := by
  rcases h with ⟨-, ho, -⟩ | ⟨⟨-, ho⟩, -⟩
  · rwa [ho]
  · simp [ho]

theorem reduce_cacheSound (h : Held r)
    (hr : (reduce action requestID expectedRevision provider).Yields r t result r') :
    CacheSound r' := by
  cases reduce_answered hr with
  | replayed entry hl hm ht hr => exact h.cache
  | reused entry hl hm hY =>
    obtain ⟨rfl, -⟩ := failure_yields hY
    exact h.cache
  | stale hl hm hY =>
    obtain ⟨rfl, -, -, hp⟩ := failure_yields hY
    exact h.cache.cache (h.cache.not_mem hl) hp.recovery_secure
  | performed hl hm hY =>
    have hframe : Prog.Frames Framed (perform action provider) := inferInstance
    have hkept := (hframe.frame _ _ _ _ hY).retained
    have ho := (Meets.yields (perform_stepped action provider h.coherent h.synced) hY).2
    exact (h.cache.retained hkept).cache (hkept.not_mem (h.cache.not_mem hl))
      ho.2.pictures.recovery_secure

instance (l : List (Text × CachedRequest)) : Prog.Frames Framed (rebasedRequests l) := by
  induction l with
  | nil => exact Prog.frames_pure _
  | cons entry l ih =>
    unfold rebasedRequests
    infer_instance

omit [SwiftText] [RecoveryCodec] in
/-- The ledger says nothing of the cache. -/
theorem balanced_modify {f : ImeReducer → ImeReducer} (h : ∀ r, (f r).session = r.session) :
    Prog.Frames Balanced (Prog.modify f : ReducerM Unit) :=
  Prog.frames_modify fun r => by simp [Balanced, h]

instance : Prog.Frames Balanced rebaseRequestCacheToCurrentSnapshot := by
  have hset (l : List (Text × CachedRequest)) : Prog.Frames Balanced
      (Prog.modify fun r => { r with requestCache := l } : ReducerM Unit) :=
    balanced_modify fun _ => rfl
  unfold rebaseRequestCacheToCurrentSnapshot
  infer_instance

instance : Prog.Frames Balanced (reduce action requestID expectedRevision provider) := by
  have hcached (result : ImeReductionResult) :
      Prog.Frames Balanced (cached result action requestID expectedRevision) := by
    have hset : Prog.Frames Balanced (Prog.modify fun r =>
        r.cache requestID ⟨action, expectedRevision, result⟩ : ReducerM Unit) :=
      balanced_modify fun r => session_cache r _ _
    unfold cached
    infer_instance
  unfold reduce
  refine .bind inferInstance fun r => ?_
  split
  · infer_instance
  · infer_instance

omit [SwiftText] [RecoveryCodec] in
/-- What the helpers keep and a rebase keeps, an external dictionary change keeps. -/
theorem frames_invalidateCandidates {R : ImeReducer → List ConverterEvent → ImeReducer → Prop}
    [Prog.Composes R] [Prog.Frames R rebaseRequestCacheToCurrentSnapshot]
    (hR : ∀ {α : Type} {p : ReducerM α}, Prog.Frames Framed p → Prog.Frames R p) :
    Prog.Frames R invalidateCandidatesForExternalDictionaryChange := by
  unfold invalidateCandidatesForExternalDictionaryChange
  refine .bind (hR inferInstance) fun _ => .bind (hR inferInstance) fun s => ?_
  unfold Prog.when
  split
  · exact .bind (hR inferInstance) fun _ => .bind (hR inferInstance) fun _ =>
      .bind (hR inferInstance) fun _ => .bind (hR inferInstance) fun _ =>
        .bind (hR inferInstance) fun _ => inferInstance
  · exact Prog.frames_pure ()

instance : Prog.Frames Balanced invalidateCandidatesForExternalDictionaryChange :=
  frames_invalidateCandidates fun _ => inferInstance

instance : Prog.Frames CacheKept invalidateCandidatesForExternalDictionaryChange :=
  frames_invalidateCandidates fun _ => inferInstance

instance (call : ReducerCall) : Prog.Frames Balanced call.program := by
  cases call with
  | reduce action requestID expectedRevision provider =>
    dsimp only [ReducerCall.program]
    infer_instance
  | pinCompositionPolicy policy =>
    dsimp only [ReducerCall.program]
    infer_instance
  | invalidateCandidatesForExternalDictionaryChange =>
    dsimp only [ReducerCall.program]
    infer_instance
  | resumeSpeculativeConversionAfterMaintenance =>
    dsimp only [ReducerCall.program]
    unfold resumeSpeculativeConversionAfterMaintenance
    infer_instance
  | finalizePendingLearning commit =>
    dsimp only [ReducerCall.program]
    unfold finalizePendingLearning
    infer_instance

theorem program_cacheSound {call : ReducerCall} {value : Option ImeReductionResult} (h : Held r)
    (hY : call.program.Yields r t value r') : CacheSound r' := by
  have hkept : ∀ {α : Type} (p : ReducerM α) {a : α} {t : List ConverterEvent}
      [hf : Prog.Frames CacheKept p], p.Yields r t a r' → CacheSound r' :=
    fun p _ _ hf hp => hf.frame _ _ _ _ hp h.cache
  cases call with
  | reduce action requestID expectedRevision provider =>
    obtain ⟨t₁, t₂, result, u, rfl, hY, rfl, rfl, rfl⟩ := Prog.yields_bind.mp hY
    exact reduce_cacheSound h hY
  | pinCompositionPolicy policy =>
    obtain ⟨t₁, t₂, b, u, rfl, hY, rfl, rfl, rfl⟩ := Prog.yields_bind.mp hY
    exact hkept _ hY
  | invalidateCandidatesForExternalDictionaryChange =>
    obtain ⟨t₁, t₂, b, u, rfl, hY, rfl, rfl, rfl⟩ := Prog.yields_bind.mp hY
    exact hkept _ hY
  | resumeSpeculativeConversionAfterMaintenance =>
    obtain ⟨t₁, t₂, b, u, rfl, hY, rfl, rfl, rfl⟩ := Prog.yields_bind.mp hY
    unfold resumeSpeculativeConversionAfterMaintenance at hY
    exact hkept _ hY
  | finalizePendingLearning commit =>
    obtain ⟨t₁, t₂, b, u, rfl, hY, rfl, rfl, rfl⟩ := Prog.yields_bind.mp hY
    unfold finalizePendingLearning at hY
    exact hkept _ hY

theorem Served.coherent {call : ReducerCall} {value : Option ImeReductionResult}
    (h : Served r t call value r') (hc : Coherent r.session) (hy : Synced r.session) :
    Coherent r'.session ∧ Synced r'.session := by
  cases h with
  | replayed h => exact ⟨hc, hy⟩
  | stepped h hp => exact ⟨h.1.coherent, h.1.synced⟩
  | maintained h => exact ⟨h.coherent, h.synced⟩

theorem program_held {call : ReducerCall} {value : Option ImeReductionResult} (h : Held r)
    (hY : call.program.Yields r t value r') : Held r' := by
  obtain ⟨hc, hy⟩ := (program_served h hY).2.coherent h.coherent h.synced
  exact ⟨hc, hy, program_cacheSound h hY⟩

/-! Runs. -/

variable {policy : PinnedCompositionPolicy} {stagedLearningEnabled : Bool}
  {moves : List ReducerMove}

theorem ReducerRun.held (h : ReducerRun policy stagedLearningEnabled moves r) :
    Held r ∧ ∀ m ∈ moves, m.Valid ReducerCall.program ∧ Held m.before ∧ Held m.after :=
  Runs.invariant (held_initial policy stagedLearningEnabled)
    (fun _ hi hv => program_held hi hv) h

theorem Reachable.held (h : Reachable r) : Held r := by
  obtain ⟨policy, stagedLearningEnabled, moves, hrun⟩ := h
  exact hrun.held.1

end Hazkey
