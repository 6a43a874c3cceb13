import Hazkey.Recovery

/-! Identifiers across recovery: what a session emits is past all that the
sessions it replaces have returned. -/

namespace Hazkey

open ServiceProgram

attribute [local instance] scalarText byteCodec

/-- The generation of the window that a result publishes; zero where there is none. -/
def ImeReductionResult.generation (x : ImeReductionResult) : Nat :=
  x.snapshot.candidateWindow.generation.toNat

section

variable [SwiftText] [RecoveryCodec]

/-- The counters of a session do not go back: they do not wrap around, and no
checkpoint that is restored into the session is behind them. -/
structure Onward (s u : CompositionSession) : Prop where
  effectID : s.nextEffectID ≤ u.nextEffectID
  generation : s.nextCandidateGeneration ≤ u.nextCandidateGeneration
  elements : u.composingText.elements.length < 2 ^ 64

/-- A session and those it replaced, one after another: what they returned up to
the checkpoint that was restored, and what the session has returned itself. -/
inductive Lineage : List ImeReductionResult → List ImeReductionResult → ImeReducer → Prop
  | opened (policy : PinnedCompositionPolicy) (stagedLearningEnabled : Bool) :
      Lineage [] [] (.initial (.initial policy) stagedLearningEnabled)
  | called {old current : List ImeReductionResult} {r r' : ImeReducer} {call : ReducerCall}
      {t : List ConverterEvent} {value : Option ImeReductionResult} (h : Lineage old current r)
      (hY : call.program.Yields r t value r') (ho : Onward r.session r'.session) :
      Lineage old (current ++ value.toList) r'
  | replaced {old current : List ImeReductionResult} {r₀ r fresh : ImeReducer}
      {action : ImeAction} {requestID requestID' : Text}
      {expectedRevision expectedRevision' : Option UInt64}
      {provider provider' : Option PinnedCompositionPolicy} {t t' : List ConverterEvent}
      {result restored : ImeReductionResult} {c : RecoveryCheckpoint}
      {policy : PinnedCompositionPolicy} {stagedLearningEnabled : Bool}
      (h : Lineage old current r₀)
      (hY : (reduce action requestID expectedRevision provider).Yields r₀ t result r)
      (ho : Onward r₀.session r.session)
      (hnew : ¬ Replayed r₀ action requestID expectedRevision result)
      (hc : result.snapshot.recovery = some c) (hp : policy.secureInput = false)
      (hR : (reduce (.restoreCheckpoint (RecoveryCodec.encode c)) requestID' expectedRevision'
        provider').Yields (.initial (.initial policy) stagedLearningEnabled) t' restored fresh)
      (hs : restored.status = .success) :
      Lineage (old ++ current ++ [result]) [restored] fresh

omit [SwiftText] [RecoveryCodec] in
theorem not_replayed {r : ImeReducer} {action : ImeAction} {requestID : Text}
    {expectedRevision : Option UInt64} {result : ImeReductionResult}
    (h : r.requestCache.lookup requestID = none) :
    ¬ Replayed r action requestID expectedRevision result := by
  rintro ⟨entry, hl, -⟩
  rw [h] at hl
  cases hl

/-! Where the entries of a cache come from. -/

/-- The results in the cache. -/
def ImeReducer.cachedResults (r : ImeReducer) : List ImeReductionResult :=
  r.requestCache.map (·.2.result)

variable {r r' : ImeReducer} {t : List ConverterEvent} {call : ReducerCall}
  {value : Option ImeReductionResult}

/-- A cached result was cached before, perhaps with another picture, or is the answer. -/
def CacheFrom (r : ImeReducer) (value : Option ImeReductionResult) (r' : ImeReducer) : Prop :=
  ∀ x ∈ r'.cachedResults, x ∈ r.cachedResults ∨ value = some x ∨
    ∃ y ∈ r.cachedResults, x.snapshot.effects = y.snapshot.effects ∧
      Pictures r'.session x.snapshot

omit [SwiftText] [RecoveryCodec] in
theorem Retained.cachedResults (h : Retained r t r') {x : ImeReductionResult}
    (hx : x ∈ r'.cachedResults) : x ∈ r.cachedResults := by
  rcases h with ⟨hc, -, -⟩ | ⟨⟨hc, -⟩, -⟩
  · rwa [ImeReducer.cachedResults, hc] at hx
  · rw [ImeReducer.cachedResults, hc] at hx
    cases hx

omit [SwiftText] [RecoveryCodec] in
theorem cacheFrom_of_retained (h : Retained r t r') : CacheFrom r value r' :=
  fun _ hx => .inl (h.cachedResults hx)

omit [SwiftText] [RecoveryCodec] in
theorem cacheFrom_cache {requestID : Text} {cached : CachedRequest}
    (h : Retained r t r') : CacheFrom r (some cached.result) (r'.cache requestID cached) := by
  intro x hx
  obtain ⟨entry, hm, rfl⟩ := List.mem_map.mp hx
  rcases mem_cache hm with hm | rfl
  · exact .inl (h.cachedResults (List.mem_map_of_mem hm))
  · exact .inr (.inl rfl)

omit [SwiftText] [RecoveryCodec] in
theorem cacheFrom_of_rebasing (h : Rebasing r t r') : CacheFrom r value r' := by
  intro x hx
  rcases h with ⟨hc, -⟩ | ⟨-, -, ⟨hc, -⟩ | ⟨hl, -⟩⟩
  · rw [ImeReducer.cachedResults, hc] at hx
    cases hx
  · rw [ImeReducer.cachedResults, hc] at hx
    exact .inl hx
  · obtain ⟨entry', hm, rfl⟩ := List.mem_map.mp hx
    obtain ⟨entry, he, hr⟩ := rebased_mem hl hm
    exact .inr (.inr ⟨_, List.mem_map_of_mem he, hr.effects, hr.pictures⟩)

theorem reduce_cacheFrom {action : ImeAction} {requestID : Text}
    {expectedRevision : Option UInt64} {provider : Option PinnedCompositionPolicy}
    {result : ImeReductionResult}
    (h : (reduce action requestID expectedRevision provider).Yields r t result r') :
    CacheFrom r (some result) r' := by
  have hkept : Retained r [] r := .inl ⟨rfl, rfl, id⟩
  cases reduce_answered h with
  | replayed entry hl hm ht hr => exact cacheFrom_of_retained hkept
  | reused entry hl hm hY =>
    obtain ⟨rfl, -⟩ := failure_yields hY
    exact cacheFrom_of_retained hkept
  | stale hl hm hY =>
    obtain ⟨rfl, -⟩ := failure_yields hY
    exact cacheFrom_cache hkept
  | performed hl hm hY =>
    have hframe : Prog.Frames Framed (perform action provider) := inferInstance
    exact cacheFrom_cache (hframe.frame _ _ _ _ hY).retained

theorem program_cacheFrom (hY : call.program.Yields r t value r') : CacheFrom r value r' := by
  have hframed {α : Type} {p : ReducerM α} {a : α} {t : List ConverterEvent} {u : ImeReducer}
      [hf : Prog.Frames Framed p] (hp : p.Yields r t a u) : Retained r t u :=
    (hf.frame _ _ _ _ hp).retained
  cases call with
  | reduce action requestID expectedRevision provider =>
    obtain ⟨t₁, t₂, result, u, rfl, hY, rfl, rfl, rfl⟩ := Prog.yields_bind.mp hY
    exact reduce_cacheFrom hY
  | pinCompositionPolicy policy =>
    obtain ⟨t₁, t₂, b, u, rfl, hY, rfl, rfl, rfl⟩ := Prog.yields_bind.mp hY
    exact cacheFrom_of_retained (hframed hY)
  | invalidateCandidatesForExternalDictionaryChange =>
    obtain ⟨t₁, t₂, b, u, rfl, hY, rfl, rfl, rfl⟩ := Prog.yields_bind.mp hY
    exact cacheFrom_of_rebasing (invalidateCandidates_rebasing hY)
  | resumeSpeculativeConversionAfterMaintenance =>
    obtain ⟨t₁, t₂, b, u, rfl, hY, rfl, rfl, rfl⟩ := Prog.yields_bind.mp hY
    unfold resumeSpeculativeConversionAfterMaintenance at hY
    exact cacheFrom_of_retained (hframed hY)
  | finalizePendingLearning commit =>
    obtain ⟨t₁, t₂, b, u, rfl, hY, rfl, rfl, rfl⟩ := Prog.yields_bind.mp hY
    exact cacheFrom_of_rebasing (finalizePendingLearning_rebasing hY)

/-! What lies before a session and what lies within it. -/

omit [SwiftText] [RecoveryCodec] in
theorem Numbered.bounds {first next : UInt64} {effects : List ClientEffect}
    (h : Numbered first effects next) (hle : effects.length ≤ 2) (hn : first ≤ next) :
    ∀ e ∈ effects, first.toNat ≤ e.effectID.toNat ∧ e.effectID.toNat < next.toNat := by
  have hroom : first.toNat + effects.length < 2 ^ 64 := by
    rw [h.next_eq, UInt64.le_iff_toNat_le, UInt64.toNat_add,
      UInt64.toNat_ofNat_of_lt' (lt_of_le_of_lt hle (by decide))] at hn
    have hfirst := first.toNat_lt
    omega
  clear hle hn
  induction effects generalizing first with
  | nil => simp
  | cons effect effects ih =>
    obtain ⟨hid, hrest⟩ := h
    rw [List.length_cons] at hroom
    have hsucc : (first + 1).toNat = first.toNat + 1 := by
      rw [UInt64.toNat_add, UInt64.toNat_one]
      omega
    have hnext : next.toNat = first.toNat + 1 + effects.length := by
      rw [hrest.next_eq, UInt64.toNat_add, hsucc,
        UInt64.toNat_ofNat_of_lt' (by change _ < 2 ^ 64; omega)]
      omega
    intro e he
    rcases List.mem_cons.mp he with rfl | he
    · rw [hid]
      omega
    · have hlater := ih hrest (by omega) e he
      omega

/-- What a step allocates lies between the counters before it and after it. -/
structure Between (s : CompositionSession) (effects : List ClientEffect)
    (u : CompositionSession) : Prop where
  effects : ∀ e ∈ effects,
    s.nextEffectID.toNat ≤ e.effectID.toNat ∧ e.effectID.toNat < u.nextEffectID.toNat
  windows : ∀ g ∈ u.windowGenerations, g ∈ s.windowGenerations ∨
    s.nextCandidateGeneration.toNat < g.toNat ∧ g.toNat ≤ u.nextCandidateGeneration.toNat

variable {s u : CompositionSession} {effects : List ClientEffect}

omit [SwiftText] [RecoveryCodec] in
theorem Counted.between (h : Counted s effects u) (ho : Onward s u) : Between s effects u where
  effects := h.numbered.bounds h.length_le ho.effectID
  windows := by
    obtain ⟨k, hk, hnext, hg⟩ := h.allocated
    have hle := ho.generation
    have hlen := ho.elements
    have hs := s.nextCandidateGeneration.toNat_lt
    rw [UInt64.le_iff_toNat_le, hnext, UInt64.toNat_add,
      UInt64.toNat_ofNat_of_lt' (by change _ < 2 ^ 64; omega)] at hle
    intro g hm
    refine (hg g hm).imp id ?_
    rintro ⟨i, hi, hik, rfl⟩
    rw [hnext, UInt64.toNat_add, UInt64.toNat_add,
      UInt64.toNat_ofNat_of_lt' (by change _ < 2 ^ 64; omega),
      UInt64.toNat_ofNat_of_lt' (by change _ < 2 ^ 64; omega)]
    omega

omit [SwiftText] [RecoveryCodec] in
theorem between_of_windows (hw : u.windowGenerations = []) : Between s [] u where
  effects := by simp
  windows := by simp [hw]

/-- The lowest identifiers of a session. -/
structure Marks where
  effectID : Nat
  generation : Nat

/-- The results a session knows are its own, and its checkpoint is past them. -/
structure Fresh (marks : Marks) (known : List ImeReductionResult) (s : CompositionSession) :
    Prop where
  effectID : marks.effectID ≤ s.nextEffectID.toNat
  generation : marks.generation ≤ s.nextCandidateGeneration.toNat
  windows : ∀ g ∈ s.windowGenerations,
    marks.generation < g.toNat ∧ g.toNat ≤ s.nextCandidateGeneration.toNat
  effects : ∀ x ∈ known, ∀ e ∈ x.snapshot.effects,
    marks.effectID ≤ e.effectID.toNat ∧ e.effectID.toNat < s.nextEffectID.toNat
  generations : ∀ x ∈ known, x.generation ≠ 0 →
    marks.generation < x.generation ∧ x.generation ≤ s.nextCandidateGeneration.toNat
  checkpoint : ∀ c, s.recoveryCheckpoint = some c →
    marks.generation ≤ c.nextCandidateGeneration.toNat ∧
    (∀ w, s.candidates = some w → w.generation.toNat ≤ c.nextCandidateGeneration.toNat + 1) ∧
    ∀ x ∈ known, x.generation ≤ c.nextCandidateGeneration.toNat + 1

variable {marks : Marks} {known known' : List ImeReductionResult}

omit [SwiftText] [RecoveryCodec] in
theorem Fresh.mono (h : Fresh marks known s) (hk : ∀ x ∈ known', x ∈ known) :
    Fresh marks known' s where
  effectID := h.effectID
  generation := h.generation
  windows := h.windows
  effects x hx := h.effects x (hk x hx)
  generations x hx := h.generations x (hk x hx)
  checkpoint c hc :=
    have ⟨hm, hw, hx⟩ := h.checkpoint c hc
    ⟨hm, hw, fun x hk' => hx x (hk x hk')⟩

omit [SwiftText] [RecoveryCodec] in
/-- The window of a picture is the one on show. -/
theorem Pictures.generation {x : ImeReductionResult} (h : Pictures u x.snapshot) :
    x.generation = 0 ∨ ∃ w, u.candidates = some w ∧ x.generation = w.generation.toNat := by
  rw [ImeReductionResult.generation, h.candidateWindow, CompositionSession.candidateWindow]
  cases u.candidates with
  | none => exact .inl rfl
  | some w => exact .inr ⟨w, rfl, rfl⟩

omit [SwiftText] [RecoveryCodec] in
theorem generation_mem {w : CandidateSet} (h : u.candidates = some w) :
    w.generation ∈ u.windowGenerations := by
  simp [CompositionSession.windowGenerations, h]

omit [SwiftText] [RecoveryCodec] in
/-- A step keeps a session fresh: what it newly knows is a picture of where it ends. -/
theorem Fresh.step (h : Fresh marks known s) (hb : Between s effects u) (ho : Onward s u)
    (hcut : CutAt s u)
    (hk : ∀ y ∈ known', y ∈ known ∨ Pictures u y.snapshot ∧
      (y.snapshot.effects = effects ∨ ∃ x ∈ known, y.snapshot.effects = x.snapshot.effects)) :
    Fresh marks known' u := by
  have heff := UInt64.le_iff_toNat_le.mp ho.effectID
  have hgen := UInt64.le_iff_toNat_le.mp ho.generation
  have hlow := h.effectID
  have hlast := h.generation
  have hwindows : ∀ g ∈ u.windowGenerations,
      marks.generation < g.toNat ∧ g.toNat ≤ u.nextCandidateGeneration.toNat := by
    intro g hg
    rcases hb.windows g hg with hg | hg
    · have hold := h.windows g hg
      omega
    · omega
  refine ⟨by omega, by omega, hwindows, fun y hy e he => ?_, fun y hy hne => ?_, fun c hc => ?_⟩
  · rcases hk y hy with hy | ⟨-, hye | ⟨x, hx, hye⟩⟩
    · have hold := h.effects y hy e he
      omega
    · have hnew := hb.effects e (hye ▸ he)
      omega
    · have hold := h.effects x hx e (hye ▸ he)
      omega
  · rcases hk y hy with hy | ⟨hp, -⟩
    · have hold := h.generations y hy hne
      omega
    · rcases hp.generation with hz | ⟨w, hw, hg⟩
      · exact absurd hz hne
      · rw [hg]
        exact hwindows _ (generation_mem hw)
  · have hold : ∀ x ∈ known, x.generation ≤ s.nextCandidateGeneration.toNat := by
      intro x hx
      by_cases hz : x.generation = 0
      · omega
      · exact (h.generations x hx hz).2
    -- the window on show and the old results bound every result
    have hresults (b : Nat) (hw : ∀ w, u.candidates = some w → w.generation.toNat ≤ b)
        (hx : ∀ x ∈ known, x.generation ≤ b) : ∀ y ∈ known', y.generation ≤ b := by
      intro y hy
      rcases hk y hy with hy | ⟨hp, -⟩
      · exact hx y hy
      · rcases hp.generation with hz | ⟨w, hu, hg⟩
        · omega
        · rw [hg]
          exact hw w hu
    rcases hcut c hc with ⟨hsc, hsame⟩ | hnext | ⟨hnext, hsucc⟩
    · obtain ⟨hm, hw, hx⟩ := h.checkpoint c hsc
      have hwu : ∀ w, u.candidates = some w →
          w.generation.toNat ≤ c.nextCandidateGeneration.toNat + 1 :=
        fun w hu => hw w (hsame w hu)
      exact ⟨hm, hwu, hresults _ hwu hx⟩
    · have hwu : ∀ w, u.candidates = some w →
          w.generation.toNat ≤ c.nextCandidateGeneration.toNat + 1 := by
        intro w hu
        have hle := (hwindows _ (generation_mem hu)).2
        rw [hnext]
        omega
      refine ⟨by rw [hnext]; omega, hwu, hresults _ hwu fun x hx => ?_⟩
      have hle := hold x hx
      rw [hnext]
      omega
    · have hwu : ∀ w, u.candidates = some w →
          w.generation.toNat ≤ c.nextCandidateGeneration.toNat + 1 := by
        intro w hu
        rw [hsucc w hu, UInt64.toNat_add, UInt64.toNat_one]
        omega
      refine ⟨by rw [hnext]; omega, hwu, hresults _ hwu fun x hx => ?_⟩
      have hle := hold x hx
      rw [hnext]
      omega

/-- What a call answers and what it caches. -/
theorem Fresh.called (h : Fresh marks (known ++ r.cachedResults) r.session) (hheld : Held r)
    (hY : call.program.Yields r t value r') (ho : Onward r.session r'.session) :
    Fresh marks (known ++ value.toList ++ r'.cachedResults) r'.session := by
  have hcache := program_cacheFrom hY
  have hstep {effects : List ClientEffect} (hb : Between r.session effects r'.session)
      (hcut : CutAt r.session r'.session)
      (hv : ∀ x, value = some x → Pictures r'.session x.snapshot ∧ x.snapshot.effects = effects) :
      Fresh marks (known ++ value.toList ++ r'.cachedResults) r'.session := by
    refine h.step hb ho hcut fun y hy => ?_
    rcases List.mem_append.mp hy with hy | hy
    · rcases List.mem_append.mp hy with hy | hy
      · exact .inl (List.mem_append_left _ hy)
      · obtain ⟨hp, he⟩ := hv y (by simpa using hy)
        exact .inr ⟨hp, .inl he⟩
    · rcases hcache y hy with hy | hy | ⟨x, hx, he, hp⟩
      · exact .inl (List.mem_append_right _ hy)
      · obtain ⟨hp, he⟩ := hv y hy
        exact .inr ⟨hp, .inl he⟩
      · exact .inr ⟨hp, .inr ⟨x, List.mem_append_right _ hx, he⟩⟩
  cases (program_served hheld hY).2 with
  | replayed hr =>
    obtain ⟨entry, hl, -, -, rfl⟩ := hr
    obtain ⟨key, hm⟩ := mem_of_lookup hl
    refine h.mono fun x hx => ?_
    rcases List.mem_append.mp hx with hx | hx
    · rcases List.mem_append.mp hx with hx | hx
      · exact List.mem_append_left _ hx
      · obtain rfl : x = entry.result := by simpa using hx
        exact List.mem_append_right _ (List.mem_map_of_mem hm)
    · exact List.mem_append_right _ hx
  | @stepped _ _ _ _ result _ hout hperf =>
    obtain ⟨hs, hshows⟩ := hout
    have hv : ∀ x, some result = some x →
        Pictures r'.session x.snapshot ∧ x.snapshot.effects = result.snapshot.effects := by
      rintro x ⟨⟩
      exact ⟨hshows.pictures, rfl⟩
    rcases hs.counted with hc | ⟨he, data, c, -, hc⟩
    · exact hstep (hc.between ho) hs.cut hv
    · refine hstep (between_of_windows hc.windows) hs.cut fun x hx => ?_
      rw [he] at hv
      exact hv x hx
  | maintained hm =>
    refine hstep (hm.counted.between ho) hm.cut fun x hx => ?_
    cases hx

/-- Old results lie before the marks, and the session is past them. -/
def Past (marks : Marks) (old : List ImeReductionResult) : Prop :=
  ∀ x ∈ old, x.generation ≤ marks.generation ∧
    ∀ e ∈ x.snapshot.effects, e.effectID.toNat < marks.effectID

theorem fresh_restored {c : RecoveryCheckpoint} {policy : PinnedCompositionPolicy}
    {stagedLearningEnabled : Bool} {fresh : ImeReducer} {restored : ImeReductionResult}
    {requestID : Text} {expectedRevision : Option UInt64}
    {provider : Option PinnedCompositionPolicy}
    (hp : policy.secureInput = false) (hsec : c.policy.secureInput = false)
    (hY : (reduce (.restoreCheckpoint (RecoveryCodec.encode c)) requestID expectedRevision
      provider).Yields (.initial (.initial policy) stagedLearningEnabled) t restored fresh)
    (hs : restored.status = .success) :
    Fresh ⟨c.nextEffectID.toNat, c.nextCandidateGeneration.toNat + 1⟩
      ([restored] ++ fresh.cachedResults) fresh.session := by
  have he : (expectedRevision.all fun e => e = 0) = true := by
    cases reduce_answered hY with
    | replayed entry hl => cases hl
    | reused entry hl => cases hl
    | stale hl hm hf =>
      rw [(failure_yields hf).2.1] at hs
      cases hs
    | performed hl hm => exact hm
  rcases reduce_fresh hp hsec he hY with ⟨-, ⟨-, hgen, -⟩, heff, hpic, s₀, hcand, hseg, hu⟩ | hbad
  · have hcandidates : fresh.session.candidates = none := by
      rw [hu]
      exact hcand
    have hnext : fresh.session.nextCandidateGeneration = c.nextCandidateGeneration + 1 := by
      rw [hu]
      rfl
    have heffect : fresh.session.nextEffectID = c.nextEffectID := by
      rw [hu]
      rfl
    have hlast : fresh.session.nextCandidateGeneration.toNat =
        c.nextCandidateGeneration.toNat + 1 := by
      rw [hnext, UInt64.toNat_add, UInt64.toNat_one]
      have hlt := UInt64.lt_iff_toNat_lt.mp hgen
      change _ < 18446744073709551615 at hlt
      omega
    have hwindows : fresh.session.windowGenerations = [] := by
      rw [hu]
      change (s₀.candidates.map (·.generation)).toList ++
        s₀.segments.map (·.candidates.generation) = []
      rw [hcand, hseg]
      rfl
    have hknown : ∀ x ∈ [restored] ++ fresh.cachedResults, x = restored := by
      intro x hx
      rcases List.mem_append.mp hx with hx | hx
      · exact List.mem_singleton.mp hx
      · rcases reduce_cacheFrom hY x hx with hx | hx | ⟨y, hy, -⟩
        · cases hx
        · exact (Option.some.inj hx).symm
        · cases hy
    have hzero : restored.generation = 0 := by
      rcases hpic.generation with hz | ⟨w, hw, -⟩
      · exact hz
      · rw [hcandidates] at hw
        cases hw
    refine ⟨by rw [heffect], by rw [hlast], by simp [hwindows], fun x hx e hm => ?_,
      fun x hx hne => ?_, fun c' hc' => ?_⟩
    · rw [hknown x hx, heff] at hm
      cases hm
    · rw [hknown x hx] at hne
      exact absurd hzero hne
    · have hcut : c'.nextCandidateGeneration = fresh.session.nextCandidateGeneration := by
        rw [hu] at hc'
        rw [hu, advanceRevision_checkpoint hc']
        rfl
      rw [hcut, hlast]
      refine ⟨le_refl _, fun w hw => ?_, fun x hx => ?_⟩
      · rw [hcandidates] at hw
        cases hw
      · rw [hknown x hx, hzero]
        omega
  · exact absurd hs hbad.1

theorem lineage_fresh {old current : List ImeReductionResult} (h : Lineage old current r) :
    Held r ∧ ∃ marks, Past marks old ∧ Fresh marks (current ++ r.cachedResults) r.session := by
  induction h with
  | opened policy stagedLearningEnabled =>
    refine ⟨held_initial policy stagedLearningEnabled, ⟨0, 0⟩, by simp [Past], ?_⟩
    refine ⟨Nat.zero_le _, Nat.zero_le _, ?_, ?_, ?_, ?_⟩
    · intro g hg
      cases hg
    · intro x hx
      cases hx
    · intro x hx
      cases hx
    · intro c hc
      cases hc
  | called h hY ho ih =>
    obtain ⟨hheld, marks, hpast, hfresh⟩ := ih
    exact ⟨program_held hheld hY, marks, hpast, hfresh.called hheld hY ho⟩
  | @replaced old current r₀ r fresh action requestID requestID' expectedRevision
      expectedRevision' provider provider' t t' result restored c policy stagedLearningEnabled
      h hY ho hnew hc hp hR hs ih =>
    obtain ⟨hheld, marks, hpast, hfresh⟩ := ih
    have hcall : (ReducerCall.reduce action requestID expectedRevision provider).program.Yields
        r₀ t (some result) r := by
      rw [← List.append_nil t]
      exact Prog.yields_bind.mpr ⟨t, [], result, r, rfl, hY, rfl, rfl, rfl⟩
    have hlast := hfresh.called hheld hcall ho
    have hheld' := program_held hheld hcall
    have hpic : Pictures r.session result.snapshot := by
      rcases (reduce_outcome hheld.coherent hheld.synced hY).2 with ⟨-, hr⟩ | ⟨hout, -⟩
      · exact absurd hr hnew
      · exact hout.2.pictures
    have hcp : r.session.recoveryCheckpoint = some c := by
      rw [hpic.recovery, CompositionSession.publishedRecovery] at hc
      split at hc
      · cases hc
      · exact hc
    obtain ⟨hmark, -, hknown⟩ := hlast.checkpoint c hcp
    have heffect : c.nextEffectID = r.session.nextEffectID :=
      congrArg (·.nextEffectID) (hheld'.synced.frame c hcp)
    have hR' : (ReducerCall.reduce (.restoreCheckpoint (RecoveryCodec.encode c)) requestID'
        expectedRevision' provider').program.Yields
        (.initial (.initial policy) stagedLearningEnabled) t' (some restored) fresh := by
      rw [← List.append_nil t']
      exact Prog.yields_bind.mpr ⟨t', [], restored, fresh, rfl, hR, rfl, rfl, rfl⟩
    refine ⟨program_held (held_initial policy stagedLearningEnabled) hR', _, ?_,
      fresh_restored hp (hheld'.synced.secure c hcp) hR hs⟩
    intro x hx
    rw [List.append_assoc] at hx
    rcases List.mem_append.mp hx with hx | hx
    · have hold := hpast x hx
      have hle := hlast.effectID
      refine ⟨by dsimp only; omega, fun e he => ?_⟩
      have hlt := hold.2 e he
      dsimp only
      rw [heffect]
      omega
    · have hx' := List.mem_append_left r.cachedResults hx
      refine ⟨hknown x hx', fun e he => ?_⟩
      rw [heffect]
      exact (hlast.effects x hx' e he).2

end

/-- The results of some moves. -/
def returned (moves : List ReducerMove) : List ImeReductionResult := moves.filterMap (·.value)

/-- The calls of a session that restores the last checkpoint of another one. -/
def replacing (old : List ImeReductionResult) (calls : List ReducerCall) : List ReducerCall :=
  match old.getLast?.bind (·.snapshot.recovery) with
  | some c => request (.restoreCheckpoint (RecoveryCodec.encode c)) "restore" :: calls
  | none => calls

/-- A checkpoint that numbers effects from the first one again. -/
def rewound (calls : List ReducerCall) : Data :=
  RecoveryCodec.encode { (evaluate .standard calls).2.2.session.checkpoint with
    revision := 100
    nextEffectID := 1 }

end Hazkey
