import Hazkey.Lineage

/-! A request that is repeated is answered as before, as long as its entry is in
the cache, and does nothing. -/

namespace Hazkey

open ServiceProgram

attribute [local instance] scalarText byteCodec

/-- The request of a call, where it is one that is cached. -/
def ReducerCall.requestID : ReducerCall → Option Text
  | .reduce _ requestID _ _ => some requestID
  | _ => none

/-- The requests of some moves, but for one and for those without an identifier. -/
def furtherRequests (requestID : Text) (moves : List ReducerMove) : Finset Text :=
  (moves.filterMap (·.label.requestID)).toFinset \ {requestID, []}

/-- A change of the session that no request made, and that retries may not undo. -/
def OutOfBand (m : ReducerMove) : Prop :=
  (m.label = .invalidateCandidatesForExternalDictionaryChange ∨
    ∃ commit, m.label = .finalizePendingLearning commit) ∧
  m.after.session.revision ≠ m.before.session.revision

/-- The original snapshot, or a picture of the session after its latest change
out of band. -/
def Repeats (original : SessionSnapshot) (moves : List ReducerMove) (snap : SessionSnapshot) :
    Prop :=
  ((∀ m ∈ moves, ¬ OutOfBand m) ∧ snap = original) ∨
  ∃ earlier m later, moves = earlier ++ m :: later ∧ OutOfBand m ∧
    (∀ m' ∈ later, ¬ OutOfBand m') ∧ Pictures m.after.session snap

/-- The entry of a request in the cache, after some moves. -/
structure Recorded (requestID : Text) (asked : CachedRequest) (moves : List ReducerMove)
    (r : ImeReducer) (entry : CachedRequest) : Prop where
  lookup : r.requestCache.lookup requestID = some entry
  matched : entry.action = asked.action ∧ entry.expectedRevision = asked.expectedRevision
  answer : entry.result.status = asked.result.status ∧
    entry.result.message = asked.result.message
  effects : entry.result.snapshot.effects = asked.result.snapshot.effects
  snapshot : Repeats asked.result.snapshot moves entry.result.snapshot
  place : ∃ older later, r.requestOrder = older ++ requestID :: later ∧
    ∀ id ∈ later, id ∈ furtherRequests requestID moves

variable {r r' r₁ r₂ u : ImeReducer} {t : List ConverterEvent} {requestID : Text}
  {asked entry : CachedRequest} {moves : List ReducerMove} {m : ReducerMove}

/-! Moves that leave the cache alone. -/

theorem Repeats.kept {original snap : SessionSnapshot} (h : Repeats original moves snap)
    (hm : ¬ OutOfBand m) : Repeats original (moves ++ [m]) snap := by
  rcases h with ⟨hnone, hs⟩ | ⟨earlier, x, later, rfl, hx, hl, hs⟩
  · refine .inl ⟨fun m' hm' => ?_, hs⟩
    rcases List.mem_append.mp hm' with hm' | hm'
    · exact hnone m' hm'
    · rwa [List.mem_singleton.mp hm']
  · refine .inr ⟨earlier, x, later ++ [m], by simp, hx, fun m' hm' => ?_, hs⟩
    rcases List.mem_append.mp hm' with hm' | hm'
    · exact hl m' hm'
    · rwa [List.mem_singleton.mp hm']

theorem furtherRequests_mono {more : List ReducerMove} :
    furtherRequests requestID moves ⊆ furtherRequests requestID (moves ++ more) := by
  intro id hid
  simp only [furtherRequests, Finset.mem_sdiff, List.mem_toFinset, List.filterMap_append,
    List.mem_append] at hid ⊢
  exact ⟨.inl hid.1, hid.2⟩

theorem Recorded.kept (h : Recorded requestID asked moves r entry)
    (hc : r'.requestCache = r.requestCache) (ho : r'.requestOrder = r.requestOrder)
    (hm : ¬ OutOfBand m) : Recorded requestID asked (moves ++ [m]) r' entry := by
  obtain ⟨older, later, hplace, hl⟩ := h.place
  exact ⟨hc ▸ h.lookup, h.matched, h.answer, h.effects, h.snapshot.kept hm,
    older, later, ho.trans hplace, fun id hid => furtherRequests_mono (hl id hid)⟩

theorem lookup_filter {α β : Type} [BEq α] [LawfulBEq α] {l : List (α × β)} {k : α}
    {p : α → Bool} (hp : p k = true) :
    (l.filter fun entry => p entry.1).lookup k = l.lookup k := by
  induction l with
  | nil => rfl
  | cons entry l ih =>
    obtain ⟨key, x⟩ := entry
    by_cases hkey : k = key
    · subst hkey
      simp [hp]
    · have hne : (k == key) = false := by simpa using hkey
      rw [List.lookup_cons, hne, ← ih, List.filter_cons]
      split
      · rw [List.lookup_cons, hne]
      · rfl

/-- A new request does not push the entry out. -/
theorem Recorded.cache (h : Recorded requestID asked moves r entry) (hsound : CacheSound r)
    (hs : r.session.policy.secureInput = false) {id : Text} {cached : CachedRequest}
    (hid : m.label.requestID = some id) (hnew : id ∉ r.requestOrder)
    (hcount : (furtherRequests requestID (moves ++ [m])).card < requestCacheLimit)
    (hm : ¬ OutOfBand m) :
    Recorded requestID asked (moves ++ [m]) (r.cache id cached) entry := by
  by_cases hempty : id = []
  · have hsame : r.cache id cached = r := if_pos hempty
    rw [hsame]
    exact h.kept rfl rfl hm
  obtain ⟨older, later, hplace, hl⟩ := h.place
  have hne : id ≠ requestID := by
    rintro rfl
    exact hnew (by simp [hplace])
  have hnodup : (r.requestOrder ++ [id]).Nodup :=
    List.nodup_append.mpr ⟨hsound.nodup, by simp, fun x hx y hy => by
      obtain rfl := List.mem_singleton.mp hy
      exact fun heq => hnew (heq ▸ hx)⟩
  have hfurther : ∀ x ∈ later ++ [id], x ∈ furtherRequests requestID (moves ++ [m]) := by
    intro x hx
    rcases List.mem_append.mp hx with hx | hx
    · exact furtherRequests_mono (hl x hx)
    · obtain rfl := List.mem_singleton.mp hx
      simp [furtherRequests, hid, hne, hempty]
  have hsplit : r.requestOrder ++ [id] = older ++ requestID :: (later ++ [id]) := by
    simp [hplace]
  rw [hsplit] at hnodup
  have hlength : (later ++ [id]).length < requestCacheLimit := by
    have hn : (later ++ [id]).Nodup :=
      (List.nodup_cons.mp (List.nodup_append.mp hnodup).2.1).2
    rw [← List.toFinset_card_of_nodup hn]
    refine lt_of_le_of_lt (Finset.card_le_card fun x hx => ?_) hcount
    exact hfurther x (List.mem_toFinset.mp hx)
  have hdrop : (r.requestOrder ++ [id]).length - requestCacheLimit ≤ older.length := by
    rw [hsplit, List.length_append, List.length_cons]
    omega
  have hkeep : requestID ∉
      (r.requestOrder ++ [id]).take ((r.requestOrder ++ [id]).length - requestCacheLimit) := by
    intro hmem
    rw [hsplit, List.take_append_of_le_length (hsplit ▸ hdrop)] at hmem
    exact (List.nodup_append.mp hnodup).2.2 requestID (List.mem_of_mem_take hmem) requestID
      (List.mem_cons_self ..) rfl
  simp only [ImeReducer.cache, hempty, if_false, ImeReducer.evict, hs, Bool.false_eq_true]
  refine ⟨?_, h.matched, h.answer, h.effects, h.snapshot.kept hm,
    older.drop ((r.requestOrder ++ [id]).length - requestCacheLimit), later ++ [id], ?_, hfurther⟩
  · dsimp only
    rw [lookup_filter (p := fun key => decide (key ∉ _)) (by simpa using hkeep),
      List.lookup_append,
      lookup_filter (p := fun key => decide (key ≠ id)) (by simpa using hne.symm), h.lookup]
    rfl
  · dsimp only
    rw [hsplit, List.drop_append_of_le_length (hsplit ▸ hdrop)]

/-! Any move that is not a purge. -/

theorem Retained.same (h : Retained r t r') (hp : ¬ Purged t) :
    r'.requestCache = r.requestCache ∧ r'.requestOrder = r.requestOrder ∧
      (r.session.policy.secureInput = false → r'.session.policy.secureInput = false) := by
  rcases h with ⟨hc, ho, hs⟩ | ⟨-, hpurged⟩
  · refine ⟨hc, ho, fun hn => ?_⟩
    by_contra hne
    rw [hs (by simpa using hne)] at hn
    cases hn
  · exact absurd hpurged hp

/-- Whether a call is not a purge, to look through a trace. -/
def ConverterCall.keepsState : ConverterCall → Bool
  | .purgeSensitiveState => false
  | _ => true

theorem not_purged (h : (t.all fun e => e.call.keepsState) = true) : ¬ Purged t := by
  rintro ⟨e, he, hc⟩
  have hkeeps : e.call.keepsState = true := List.all_eq_true.mp h e he
  rw [hc] at hkeeps
  cases hkeeps

/-- The entry is kept by a change out of band, with a new picture. -/
theorem Recorded.rebasing (h : Recorded requestID asked moves r entry)
    (hr : Rebasing r t r') (hp : ¬ Purged t) {call : ReducerCall}
    {value : Option ImeReductionResult}
    (hcall : call = .invalidateCandidatesForExternalDictionaryChange ∨
      ∃ commit, call = .finalizePendingLearning commit) :
    ∃ entry', Recorded requestID asked (moves ++ [⟨call, r, t, value, r'⟩]) r' entry' := by
  obtain ⟨older, later, hplace, hl⟩ := h.place
  rcases hr with ⟨-, hpurged⟩ | ⟨ho, -, ⟨hc, hrev⟩ | ⟨hrebased, hrev⟩⟩
  · exact absurd hpurged hp
  · exact ⟨entry, h.kept hc ho fun hm => hm.2 hrev⟩
  · obtain ⟨entry', hlookup, hnew⟩ := rebased_lookup hrebased h.lookup
    have hm : OutOfBand (⟨call, r, t, value, r'⟩ : ReducerMove) := by
      refine ⟨hcall, fun heq => ?_⟩
      rw [hrev] at heq
      simp at heq
    exact ⟨entry', hlookup, ⟨hnew.request.1.trans h.matched.1, hnew.request.2.trans h.matched.2⟩,
      ⟨hnew.answer.1.trans h.answer.1, hnew.answer.2.trans h.answer.2⟩,
      hnew.effects.trans h.effects,
      .inr ⟨moves, _, [], rfl, hm, by simp, hnew.pictures⟩,
      older, later, ho.trans hplace, fun id hid => furtherRequests_mono (hl id hid)⟩

section

variable [SwiftText] [RecoveryCodec]

theorem Recorded.step (h : Recorded requestID asked moves r entry) (hheld : Held r)
    (hs : r.session.policy.secureInput = false) {call : ReducerCall}
    {value : Option ImeReductionResult} (hY : call.program.Yields r t value r') (hp : ¬ Purged t)
    (hcount : (furtherRequests requestID (moves ++ [⟨call, r, t, value, r'⟩])).card <
      requestCacheLimit) :
    (∃ entry', Recorded requestID asked (moves ++ [⟨call, r, t, value, r'⟩]) r' entry') ∧
      r'.session.policy.secureInput = false := by
  have hframed {α : Type} {p : ReducerM α} {a : α} {u : ImeReducer} {t' : List ConverterEvent}
      [hf : Prog.Frames Framed p] (hY : p.Yields r t' a u) (hp : ¬ Purged t') :=
    (hf.frame _ _ _ _ hY).retained.same hp
  cases call with
  | reduce action id expectedRevision provider =>
    have hin : ¬ OutOfBand (⟨.reduce action id expectedRevision provider, r, t, value, r'⟩ :
        ReducerMove) := by
      rintro ⟨h | ⟨commit, h⟩, -⟩ <;> cases h
    obtain ⟨t₁, t₂, result, u, rfl, hY, rfl, rfl, rfl⟩ := Prog.yields_bind.mp hY
    rw [List.append_nil] at hp hcount hin ⊢
    cases reduce_answered hY with
    | replayed => exact ⟨⟨entry, h.kept rfl rfl hin⟩, hs⟩
    | reused entry' hl hm hf =>
      obtain ⟨rfl, -⟩ := failure_yields hf
      exact ⟨⟨entry, h.kept rfl rfl hin⟩, hs⟩
    | stale hl hm hf =>
      obtain ⟨rfl, -⟩ := failure_yields hf
      exact ⟨⟨entry, h.cache hheld.cache hs rfl (hheld.cache.not_mem hl) hcount hin⟩,
        by rwa [session_cache]⟩
    | performed hl hm hperform =>
      have hframe : Prog.Frames Framed (perform action provider) := inferInstance
      have hretained := (hframe.frame _ _ _ _ hperform).retained
      obtain ⟨hc, ho, hsec⟩ := hretained.same hp
      have hcache := hheld.cache.retained hretained
      have hnew := hheld.cache.not_mem hl
      rw [← ho] at hnew
      have hrecorded : Recorded requestID asked moves _ entry :=
        ⟨hc ▸ h.lookup, h.matched, h.answer, h.effects, h.snapshot, ho ▸ h.place⟩
      exact ⟨⟨entry, hrecorded.cache hcache (hsec hs) rfl hnew hcount hin⟩, by
        rw [session_cache]
        exact hsec hs⟩
  | pinCompositionPolicy policy =>
    have hin : ¬ OutOfBand (⟨.pinCompositionPolicy policy, r, t, value, r'⟩ : ReducerMove) := by
      rintro ⟨h | ⟨commit, h⟩, -⟩ <;> cases h
    obtain ⟨t₁, t₂, b, u, rfl, hY, rfl, rfl, rfl⟩ := Prog.yields_bind.mp hY
    rw [List.append_nil] at hp
    obtain ⟨hc, ho, hsec⟩ := hframed hY hp
    exact ⟨⟨entry, h.kept hc ho hin⟩, hsec hs⟩
  | invalidateCandidatesForExternalDictionaryChange =>
    obtain ⟨t₁, t₂, b, u, rfl, hY, rfl, rfl, rfl⟩ := Prog.yields_bind.mp hY
    rw [List.append_nil] at hp ⊢
    have hr := invalidateCandidates_rebasing hY
    refine ⟨h.rebasing hr hp (.inl rfl), ?_⟩
    rcases hr with ⟨-, hpurged⟩ | ⟨-, hpolicy, -⟩
    · exact absurd hpurged hp
    · rwa [hpolicy]
  | resumeSpeculativeConversionAfterMaintenance =>
    have hin : ¬ OutOfBand (⟨.resumeSpeculativeConversionAfterMaintenance, r, t, value, r'⟩ :
        ReducerMove) := by
      rintro ⟨h | ⟨commit, h⟩, -⟩ <;> cases h
    obtain ⟨t₁, t₂, b, u, rfl, hY, rfl, rfl, rfl⟩ := Prog.yields_bind.mp hY
    rw [List.append_nil] at hp
    unfold resumeSpeculativeConversionAfterMaintenance at hY
    obtain ⟨hc, ho, hsec⟩ := hframed hY hp
    exact ⟨⟨entry, h.kept hc ho hin⟩, hsec hs⟩
  | finalizePendingLearning commit =>
    obtain ⟨t₁, t₂, b, u, rfl, hY, rfl, rfl, rfl⟩ := Prog.yields_bind.mp hY
    rw [List.append_nil] at hp ⊢
    have hr := finalizePendingLearning_rebasing hY
    refine ⟨h.rebasing hr hp (.inr ⟨commit, rfl⟩), ?_⟩
    rcases hr with ⟨-, hpurged⟩ | ⟨-, hpolicy, -⟩
    · exact absurd hpurged hp
    · rwa [hpolicy]

theorem Recorded.run (h : Recorded requestID asked [] r₁ entry) (hheld : Held r₁)
    (hs : r₁.session.policy.secureInput = false) (hrun : Runs ReducerCall.program r₁ moves r₂)
    (hp : ¬ Purged (callTrace moves))
    (hcount : (furtherRequests requestID moves).card < requestCacheLimit) :
    (∃ entry', Recorded requestID asked moves r₂ entry') ∧ Held r₂ ∧
      r₂.session.policy.secureInput = false := by
  induction hrun with
  | nil => exact ⟨⟨entry, h⟩, hheld, hs⟩
  | @snoc moves u u' call t value hrun hY ih =>
    have htrace : callTrace (moves ++ [⟨call, u, t, value, u'⟩]) = callTrace moves ++ t := by
      simp [callTrace]
    rw [htrace] at hp
    obtain ⟨⟨entry', hentry⟩, hu, hsu⟩ := ih (fun hpurged => hp (hpurged.append_left t))
      (lt_of_le_of_lt (Finset.card_le_card furtherRequests_mono) hcount)
    obtain ⟨hnext, hsn⟩ := hentry.step hu hsu hY (fun hpurged => hp (hpurged.append_right _)) hcount
    exact ⟨hnext, program_held hu hY, hsn⟩

omit [SwiftText] [RecoveryCodec] in
/-- A request that is answered for the first time is recorded. -/
theorem recorded_cache {cached : CachedRequest} (hid : requestID ≠ [])
    (hnew : requestID ∉ r.requestOrder) (hs : r.session.policy.secureInput = false) :
    Recorded requestID cached [] (r.cache requestID cached) cached := by
  have hlength : (r.requestOrder ++ [requestID]).length - requestCacheLimit ≤
      r.requestOrder.length := by
    rw [List.length_append, List.length_singleton, requestCacheLimit]
    omega
  have hkeep : requestID ∉ (r.requestOrder ++ [requestID]).take
      ((r.requestOrder ++ [requestID]).length - requestCacheLimit) := by
    rw [List.take_append_of_le_length hlength]
    exact fun hm => hnew (List.mem_of_mem_take hm)
  simp only [ImeReducer.cache, hid, if_false, ImeReducer.evict, hs, Bool.false_eq_true]
  refine ⟨?_, ⟨rfl, rfl⟩, ⟨rfl, rfl⟩, rfl, .inl ⟨by simp, rfl⟩,
    r.requestOrder.drop ((r.requestOrder ++ [requestID]).length - requestCacheLimit), [], ?_,
    by simp⟩
  · dsimp only
    have hnone : (r.requestCache.filter fun entry => decide (entry.1 ≠ requestID)).lookup
        requestID = none := by
      rw [List.lookup_eq_none_iff]
      intro entry he
      have hne : entry.1 ≠ requestID := by simpa using (List.mem_filter.mp he).2
      simpa using hne.symm
    rw [lookup_filter (p := fun key => decide (key ∉ _)) (by simpa using hkeep),
      List.lookup_append, hnone]
    simp
  · dsimp only
    rw [List.drop_append_of_le_length hlength]

variable {action : ImeAction} {expectedRevision : Option UInt64}
  {provider : Option PinnedCompositionPolicy} {result : ImeReductionResult}

theorem reduce_recorded (hheld : Held r) (hid : requestID ≠ [])
    (hnew : r.requestCache.lookup requestID = none)
    (hY : (reduce action requestID expectedRevision provider).Yields r t result r₁)
    (hs : r₁.session.policy.secureInput = false) :
    Recorded requestID ⟨action, expectedRevision, result⟩ [] r₁
      ⟨action, expectedRevision, result⟩ := by
  cases reduce_answered hY with
  | replayed entry hl =>
    rw [hnew] at hl
    cases hl
  | reused entry hl =>
    rw [hnew] at hl
    cases hl
  | stale hl hm hf =>
    obtain ⟨rfl, -⟩ := failure_yields hf
    rw [session_cache] at hs
    exact recorded_cache hid (hheld.cache.not_mem hl) hs
  | performed hl hm hperform =>
    have hframe : Prog.Frames Framed (perform action provider) := inferInstance
    have hretained := (hframe.frame _ _ _ _ hperform).retained
    rw [session_cache] at hs
    exact recorded_cache hid (hretained.not_mem (hheld.cache.not_mem hl)) hs

/-- Until 128 other requests were made, or what is cached was purged, a request
that is repeated is answered as before, and no other request takes its place. -/
theorem retry_idempotent (h : Reachable r) :
    (r.requestOrder.Nodup ∧ r.requestCache.map (·.1) = r.requestOrder ∧
      r.requestOrder.length ≤ requestCacheLimit ∧
      (r.session.policy.secureInput = true → r.requestOrder.length ≤ 1)) ∧
    ∀ (requestID : Text) (action : ImeAction) (expectedRevision : Option UInt64)
      (provider : Option PinnedCompositionPolicy) (t : List ConverterEvent)
      (result : ImeReductionResult) (r₁ : ImeReducer) (moves : List ReducerMove) (r₂ : ImeReducer),
      requestID ≠ [] → r.requestCache.lookup requestID = none →
      (reduce action requestID expectedRevision provider).Yields r t result r₁ →
      r₁.session.policy.secureInput = false → Runs ReducerCall.program r₁ moves r₂ →
      ¬ Purged (callTrace moves) → (furtherRequests requestID moves).card < requestCacheLimit →
      (∀ provider' t' result' r₃,
        (reduce action requestID expectedRevision provider').Yields r₂ t' result' r₃ →
        t' = [] ∧ r₃ = r₂ ∧ result'.status = result.status ∧ result'.message = result.message ∧
          result'.snapshot.effects = result.snapshot.effects ∧
          Repeats result.snapshot moves result'.snapshot) ∧
      ∀ action' expectedRevision' provider' t' result' r₃,
        ¬ (action = action' ∧ expectedRevision = expectedRevision') →
        (reduce action' requestID expectedRevision' provider').Yields r₂ t' result' r₃ →
        result'.status = .invalidAction ∧ result'.snapshot.effects = [] ∧ r₃ = r₂ := by
  have hcache := h.held.cache
  refine ⟨⟨hcache.nodup, hcache.keys, hcache.length_le, fun hs => (hcache.secure hs).1⟩, ?_⟩
  intro requestID action expectedRevision provider t result r₁ moves r₂ hid hnew hY hs hrun hp
    hcount
  have hcall : (ReducerCall.reduce action requestID expectedRevision provider).program.Yields r t
      (some result) r₁ := by
    rw [← List.append_nil t]
    exact Prog.yields_bind.mpr ⟨t, [], result, r₁, rfl, hY, rfl, rfl, rfl⟩
  obtain ⟨⟨entry, hentry⟩, -, -⟩ := (reduce_recorded h.held hid hnew hY hs).run
    (program_held h.held hcall) hs hrun hp hcount
  refine ⟨fun provider' t' result' r₃ hY' => ?_,
    fun action' expectedRevision' provider' t' result' r₃ hne hY' => ?_⟩
  · cases reduce_answered hY' with
    | replayed entry' hl hm ht hr =>
      obtain rfl : entry = entry' := Option.some.inj (hentry.lookup.symm.trans hl)
      rw [hr]
      exact ⟨ht, rfl, hentry.answer.1, hentry.answer.2, hentry.effects, hentry.snapshot⟩
    | reused entry' hl hm =>
      obtain rfl : entry = entry' := Option.some.inj (hentry.lookup.symm.trans hl)
      exact absurd hentry.matched hm
    | stale hl => exact absurd (hentry.lookup.symm.trans hl) (by simp)
    | performed hl => exact absurd (hentry.lookup.symm.trans hl) (by simp)
  · cases reduce_answered hY' with
    | replayed entry' hl hm =>
      obtain rfl : entry = entry' := Option.some.inj (hentry.lookup.symm.trans hl)
      exact absurd ⟨hentry.matched.1.symm.trans hm.1, hentry.matched.2.symm.trans hm.2⟩ hne
    | reused entry' hl hm hf =>
      obtain ⟨rfl, hstatus, heff, -⟩ := failure_yields hf
      exact ⟨hstatus, heff, rfl⟩
    | stale hl => exact absurd (hentry.lookup.symm.trans hl) (by simp)
    | performed hl => exact absurd (hentry.lookup.symm.trans hl) (by simp)

end

/-- A commit that is repeated after an insertion and a conversion. -/
theorem retry_idempotent_commit :
    ∃ r t result r₁ moves r₂, (reduce .commitAll "2".toList none none).Yields r t result r₁ ∧
      Runs ReducerCall.program r₁ moves r₂ ∧
      result.snapshot.effects = [.commitText 1 ['a']] ∧ r₂.session.candidates ≠ none ∧
      ∀ provider' t' result' r₃,
        (reduce .commitAll "2".toList none provider').Yields r₂ t' result' r₃ →
        t' = [] ∧ r₃ = r₂ ∧ result'.status = result.status ∧ result'.message = result.message ∧
          result'.snapshot.effects = result.snapshot.effects ∧
          Repeats result.snapshot moves result'.snapshot := by
  have hreachable := evaluate_reachable .standard [request (.insertText ['a']) "1"]
  obtain ⟨r, hr⟩ : ∃ r, (evaluate .standard [request (.insertText ['a']) "1"]).2.2 = r := ⟨_, rfl⟩
  rw [hr] at hreachable
  have hY := Prog.exec_yields stagingConverter (reduce .commitAll "2".toList none none) 0 r
  have hrun := execMoves_runs (I := converterPort) stagingConverter ReducerCall.program
    [request (.insertText ['b']) "3", request .startConversion "4"] 0
    ((reduce .commitAll "2".toList none none).exec stagingConverter 0 r).2.2
  have hretry := (retry_idempotent hreachable).2 "2".toList .commitAll none none _ _ _ _ _
    (by decide +kernel) (by rw [← hr]; decide +kernel) hY (by rw [← hr]; decide +kernel) hrun
    (not_purged (by rw [← hr]; decide +kernel)) (by rw [← hr]; decide +kernel)
  exact ⟨_, _, _, _, _, _, hY, hrun, by rw [← hr]; decide +kernel, by rw [← hr]; decide +kernel,
    hretry.1⟩

/-- Between a change out of band and the retry the session went on: the answer
shows neither its first state nor its last. -/
theorem retry_shows_neither :
    let run := evaluate .standard [request (.insertText ['a']) "1", request .startConversion "2",
      .invalidateCandidatesForExternalDictionaryChange, request (.insertText ['b']) "3",
      request (.insertText ['a']) "1"]
    ∃ first last, (returned run.1).head? = some first ∧ (returned run.1).getLast? = some last ∧
      last.snapshot.revision ≠ first.snapshot.revision ∧
      last.snapshot.revision ≠ run.2.2.session.revision :=
  ⟨_, _, rfl, rfl, by decide +kernel, by decide +kernel⟩

end Hazkey
