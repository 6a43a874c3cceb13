import Hazkey.Ledger

/-! The request cache between calls: one entry a request, in the order of their
arrival, few enough of them, and none with a checkpoint in a secure session. -/

namespace Hazkey

open ServiceProgram

structure CacheSound (r : ImeReducer) : Prop where
  keys : r.requestCache.map (·.1) = r.requestOrder
  nodup : r.requestOrder.Nodup
  length_le : r.requestOrder.length ≤ requestCacheLimit
  secure : r.session.policy.secureInput = true → r.requestOrder.length ≤ 1 ∧
    ∀ entry ∈ r.requestCache, entry.2.result.snapshot.recovery = none

/-- A snapshot of a session, of whatever the converter displays. -/
def Pictures (s : CompositionSession) (snap : SessionSnapshot) : Prop :=
  ∃ shown, snap = s.snapshotShowing shown snap.effects

variable {P : Promise} {s : CompositionSession} {snap : SessionSnapshot} {r r' u : ImeReducer}
  {t : List ConverterEvent}

theorem Shows.pictures (h : Shows P s snap) : Pictures s snap := h.1

theorem Pictures.recovery (h : Pictures s snap) : snap.recovery = s.publishedRecovery := by
  obtain ⟨shown, hs⟩ := h
  exact congrArg (·.recovery) hs

theorem Pictures.recovery_secure (h : Pictures s snap) (hs : s.policy.secureInput = true) :
    snap.recovery = none := by
  rw [h.recovery]
  exact if_pos hs

theorem Pictures.candidateWindow (h : Pictures s snap) :
    snap.candidateWindow = s.candidateWindow := by
  obtain ⟨shown, hs⟩ := h
  exact congrArg (·.candidateWindow) hs

/-! Eviction. -/

theorem cacheSound_emptied (h : r.Emptied) : CacheSound r := by
  obtain ⟨hc, ho⟩ := h
  exact ⟨by rw [hc, ho, List.map_nil], by simp [ho], by simp [ho], fun _ => ⟨by simp [ho],
    by simp [hc]⟩⟩

theorem CacheSound.retained (h : CacheSound r) (hr : Retained r t r') : CacheSound r' := by
  rcases hr with ⟨hc, ho, hs⟩ | he
  · refine ⟨by rw [hc, ho, h.keys], ho ▸ h.nodup, ho ▸ h.length_le, fun hsec => ?_⟩
    rw [hc, ho]
    exact h.secure (hs hsec)
  · exact cacheSound_emptied he.1

theorem filter_not_mem_take {α : Type} [DecidableEq α] {l : List α} (h : l.Nodup) (k : Nat) :
    l.filter (fun x => x ∉ l.take k) = l.drop k := by
  have hsplit : (l.take k ++ l.drop k).Nodup := by rwa [List.take_append_drop]
  have hdisj := (List.nodup_append.mp hsplit).2.2
  have htake : (l.take k).filter (fun x => x ∉ l.take k) = [] :=
    List.filter_eq_nil_iff.mpr fun x hx => by simp [hx]
  have hdrop : (l.drop k).filter (fun x => x ∉ l.take k) = l.drop k :=
    List.filter_eq_self.mpr fun x hx => by simpa using fun hm => hdisj x hm x hx rfl
  conv_lhs => rw [← List.take_append_drop k l]
  rw [List.filter_append, List.take_append_drop, htake, hdrop, List.nil_append]

theorem evict_keys (hk : r.requestCache.map (·.1) = r.requestOrder) (hn : r.requestOrder.Nodup)
    (limit : Nat) :
    (r.evict limit).requestCache.map (·.1) = (r.evict limit).requestOrder := by
  have hf := filter_not_mem_take hn (r.requestOrder.length - limit)
  rw [← hk, List.filter_map] at hf
  simpa [ImeReducer.evict, ← hk, Function.comp_def] using hf

theorem mem_evict {limit : Nat} {entry : Text × CachedRequest}
    (h : entry ∈ (r.evict limit).requestCache) : entry ∈ r.requestCache :=
  (List.mem_filter.mp h).1

theorem mem_cache {requestID : Text} {cached : CachedRequest} {entry : Text × CachedRequest}
    (h : entry ∈ (r.cache requestID cached).requestCache) :
    entry ∈ r.requestCache ∨ entry = (requestID, cached) := by
  unfold ImeReducer.cache at h
  split at h
  · exact .inl h
  · rcases List.mem_append.mp (mem_evict h) with h | h
    · exact .inl (List.mem_filter.mp h).1
    · exact .inr (List.mem_singleton.mp h)

/-- A new request leaves the cache sound. -/
theorem CacheSound.cache (h : CacheSound r) {requestID : Text} {cached : CachedRequest}
    (hnew : requestID ∉ r.requestOrder)
    (hrec : r.session.policy.secureInput = true → cached.result.snapshot.recovery = none) :
    CacheSound (r.cache requestID cached) := by
  by_cases hid : requestID = []
  · simpa [ImeReducer.cache, hid] using h
  have hkeep : r.requestCache.filter (fun entry => entry.1 ≠ requestID) = r.requestCache :=
    List.filter_eq_self.mpr fun entry he => by
      have hm : entry.1 ∈ r.requestOrder := h.keys ▸ List.mem_map_of_mem he
      have hne : entry.1 ≠ requestID := fun heq => hnew (heq ▸ hm)
      simpa using hne
  have hnodup : (r.requestOrder ++ [requestID]).Nodup :=
    List.nodup_append.mpr ⟨h.nodup, by simp, fun x hx y hy => by
      obtain rfl := List.mem_singleton.mp hy
      exact fun heq => hnew (heq ▸ hx)⟩
  have hlength (limit : Nat) : ((r.requestOrder ++ [requestID]).drop
      ((r.requestOrder ++ [requestID]).length - limit)).length ≤ limit := by
    rw [List.length_drop]
    omega
  simp only [ImeReducer.cache, hid, if_false, hkeep]
  refine ⟨evict_keys ?_ hnodup _, hnodup.sublist (List.drop_sublist _ _), ?_, fun hs => ⟨?_, ?_⟩⟩
  · rw [List.map_append, h.keys]
    rfl
  · refine le_trans (hlength _) ?_
    split
    · exact Nat.le_of_ble_eq_true rfl
    · exact le_refl _
  · exact le_trans (hlength _) (le_of_eq (if_pos hs))
  · intro entry he
    have hs : r.session.policy.secureInput = true := hs
    rcases List.mem_append.mp (mem_evict he) with he | he
    · exact (h.secure hs).2 entry he
    · rw [List.mem_singleton.mp he]
      exact hrec hs

/-! Answers and rebased answers. -/

theorem snapshot_yields {effects : List ClientEffect}
    (h : (snapshot effects).Yields r t snap r') :
    r' = r ∧ snap.effects = effects ∧ Pictures r.session snap := by
  obtain ⟨t₁, t₂, s, u, rfl, ⟨rfl, rfl, rfl⟩, hbody⟩ := Prog.yields_bind.mp h
  obtain ⟨t₃, t₄, shown, v, rfl, hask, hend⟩ := Prog.yields_bind.mp hbody
  obtain ⟨rfl, -⟩ := (presentation_asks _).yields hask
  obtain ⟨rfl, rfl, rfl⟩ := hend
  exact ⟨rfl, rfl, shown, rfl⟩

theorem failure_yields {status : ImeReductionStatus} {message : String}
    {result : ImeReductionResult} (h : (failure status message).Yields r t result r') :
    r' = r ∧ result.status = status ∧ result.snapshot.effects = [] ∧
      Pictures r.session result.snapshot := by
  obtain ⟨t₁, t₂, snap, u, rfl, hsnap, hend⟩ := Prog.yields_bind.mp h
  obtain ⟨rfl, he, hp⟩ := snapshot_yields hsnap
  obtain ⟨rfl, rfl, rfl⟩ := hend
  exact ⟨rfl, rfl, he, hp⟩

/-- A rebased entry is the old one with a new picture. -/
structure Rebased (s : CompositionSession) (entry entry' : Text × CachedRequest) : Prop where
  key : entry'.1 = entry.1
  request : entry'.2.action = entry.2.action ∧
    entry'.2.expectedRevision = entry.2.expectedRevision
  answer : entry'.2.result.status = entry.2.result.status ∧
    entry'.2.result.message = entry.2.result.message
  effects : entry'.2.result.snapshot.effects = entry.2.result.snapshot.effects
  pictures : Pictures s entry'.2.result.snapshot

theorem rebasedRequests_yields {l l' : List (Text × CachedRequest)}
    (h : (rebasedRequests l).Yields r t l' r') :
    r' = r ∧ List.Forall₂ (Rebased r.session) l l' := by
  induction l generalizing t l' r' with
  | nil =>
    obtain ⟨rfl, rfl, rfl⟩ := h
    exact ⟨rfl, .nil⟩
  | cons entry l ih =>
    obtain ⟨t₁, t₂, snap, u, rfl, hsnap, hrest⟩ := Prog.yields_bind.mp h
    obtain ⟨rfl, he, hp⟩ := snapshot_yields hsnap
    obtain ⟨t₃, t₄, later, v, rfl, hlater, hend⟩ := Prog.yields_bind.mp hrest
    obtain ⟨rfl, hl⟩ := ih hlater
    obtain ⟨rfl, rfl, rfl⟩ := hend
    exact ⟨rfl, .cons ⟨rfl, ⟨rfl, rfl⟩, ⟨rfl, rfl⟩, he, hp⟩ hl⟩

theorem rebase_yields {a : Unit} (h : rebaseRequestCacheToCurrentSnapshot.Yields r t a r') :
    ∃ l, r' = { r with requestCache := l } ∧
      List.Forall₂ (Rebased r.session) r.requestCache l := by
  obtain ⟨t₁, t₂, q, u, rfl, ⟨rfl, rfl, rfl⟩, hbody⟩ := Prog.yields_bind.mp h
  obtain ⟨t₃, t₄, l, v, rfl, hrest, hend⟩ := Prog.yields_bind.mp hbody
  obtain ⟨rfl, hl⟩ := rebasedRequests_yields hrest
  obtain ⟨rfl, -, rfl⟩ := hend
  exact ⟨l, rfl, hl⟩

theorem rebased_keys {l l' : List (Text × CachedRequest)}
    (h : List.Forall₂ (Rebased s) l l') : l'.map (·.1) = l.map (·.1) := by
  induction h with
  | nil => rfl
  | cons h _ ih => rw [List.map_cons, List.map_cons, h.key, ih]

theorem rebased_mem {l l' : List (Text × CachedRequest)} (h : List.Forall₂ (Rebased s) l l')
    {entry' : Text × CachedRequest} (hm : entry' ∈ l') : ∃ entry ∈ l, Rebased s entry entry' := by
  induction h with
  | nil => cases hm
  | cons h _ ih =>
    rcases List.mem_cons.mp hm with rfl | hm
    · exact ⟨_, List.mem_cons_self .., h⟩
    · obtain ⟨entry, he, hr⟩ := ih hm
      exact ⟨entry, List.mem_cons_of_mem _ he, hr⟩

theorem rebased_lookup {l l' : List (Text × CachedRequest)} (h : List.Forall₂ (Rebased s) l l')
    {requestID : Text} {cached : CachedRequest} (hl : l.lookup requestID = some cached) :
    ∃ cached', l'.lookup requestID = some cached' ∧
      Rebased s (requestID, cached) (requestID, cached') := by
  induction h with
  | nil => cases hl
  | @cons entry entry' l l' h _ ih =>
    obtain ⟨key, e⟩ := entry
    obtain ⟨key', e'⟩ := entry'
    obtain rfl : key' = key := h.key
    rw [List.lookup_cons] at hl ⊢
    split at hl
    · rename_i hkey
      obtain rfl : requestID = key' := by simpa using hkey
      obtain rfl : e = cached := by simpa using hl
      exact ⟨e', rfl, h⟩
    · exact ih hl

/-! What a change out of band does to the cache. -/

theorem endConverterComposition_yields {a : Unit} (h : endConverterComposition.Yields r t a r') :
    r' = r ∨ r' = { r with requestCache := [], requestOrder := [] } ∧ Purged t := by
  obtain ⟨t₁, t₂, s, u, rfl, ⟨rfl, rfl, rfl⟩, hbody⟩ := Prog.yields_bind.mp h
  split at hbody
  · obtain ⟨t₃, t₄, x, v, rfl, ⟨y, t₅, rfl, -, -, rfl⟩, -, -, rfl⟩ := Prog.yields_bind.mp hbody
    exact .inr ⟨rfl, ⟨v, .purgeSensitiveState, y⟩, by simp, rfl⟩
  · obtain ⟨x, t₃, rfl, -, -, rfl⟩ := hbody
    exact .inl rfl

/-- The cache is emptied by a purge, or left alone, or rebased to a new revision. -/
def Rebasing (r : ImeReducer) (t : List ConverterEvent) (r' : ImeReducer) : Prop :=
  r'.requestCache = [] ∧ Purged t ∨
  r'.requestOrder = r.requestOrder ∧ r'.session.policy = r.session.policy ∧
    (r'.requestCache = r.requestCache ∧ r'.session.revision = r.session.revision ∨
      List.Forall₂ (Rebased r'.session) r.requestCache r'.requestCache ∧
        r'.session.revision = r.session.revision + 1)

theorem finalizePendingLearning_rebasing {commit : Bool} {a : Unit}
    (h : (finalizePendingLearning commit).Yields r t a r') : Rebasing r t r' := by
  obtain ⟨t₁, t₂, resolved, u, rfl, hres, hbody⟩ := Prog.yields_bind.mp h
  obtain ⟨rfl, -⟩ := resolvePendingLearning_yields hres
  unfold Prog.when at hbody
  split at hbody
  · obtain ⟨t₃, t₄, x, v, rfl, ⟨-, -, rfl⟩, hrebase⟩ := Prog.yields_bind.mp hbody
    obtain ⟨l, rfl, hl⟩ := rebase_yields hrebase
    exact .inr ⟨rfl, rfl, .inr ⟨hl, rfl⟩⟩
  · obtain ⟨-, -, rfl⟩ := hbody
    exact .inr ⟨rfl, rfl, .inl ⟨rfl, rfl⟩⟩

theorem invalidateCandidates_rebasing {a : Unit}
    (h : invalidateCandidatesForExternalDictionaryChange.Yields r t a r') : Rebasing r t r' := by
  obtain ⟨t₁, t₂, x, u, rfl, hinv, hbody⟩ := Prog.yields_bind.mp h
  obtain ⟨_, _, _, v, _, ⟨_, _, rfl⟩, _, _, _, _, _, rfl⟩ := Prog.yields_bind.mp hinv
  obtain ⟨t₃, t₄, s, v, rfl, ⟨_, _, rfl⟩, hbody⟩ := Prog.yields_bind.mp hbody
  unfold Prog.when at hbody
  split at hbody
  · obtain ⟨t₅, t₆, _, v, rfl, hend, hbody⟩ := Prog.yields_bind.mp hbody
    obtain ⟨_, _, _, v₁, _, ⟨_, _, rfl⟩, hbody⟩ := Prog.yields_bind.mp hbody
    obtain ⟨_, _, _, v₂, _, hclear, hbody⟩ := Prog.yields_bind.mp hbody
    obtain ⟨_, _, _, v₃, _, ⟨_, _, _, _, _, rfl⟩, _, _, rfl⟩ := Prog.yields_bind.mp hclear
    obtain ⟨_, _, _, v₄, _, ⟨_, _, rfl⟩, hbody⟩ := Prog.yields_bind.mp hbody
    obtain ⟨_, _, _, v₅, _, ⟨_, _, rfl⟩, hrebase⟩ := Prog.yields_bind.mp hbody
    obtain ⟨l, rfl, hl⟩ := rebase_yields hrebase
    rcases endConverterComposition_yields hend with rfl | ⟨rfl, e, he, hc⟩
    · exact .inr ⟨rfl, rfl, .inr ⟨hl, rfl⟩⟩
    · cases hl
      exact .inl ⟨rfl, e, by simp [he], hc⟩
  · obtain ⟨-, -, rfl⟩ := hbody
    exact .inr ⟨rfl, rfl, .inl ⟨rfl, rfl⟩⟩

/-! What every call keeps. -/

/-- A sound cache stays sound. -/
def CacheKept (r : ImeReducer) (_ : List ConverterEvent) (r' : ImeReducer) : Prop :=
  CacheSound r → CacheSound r'

instance : Prog.Composes CacheKept where
  refl _ := id
  trans _ _ _ _ _ h h' hc := h' (h hc)

instance : Prog.Composes Balanced where
  refl := balanced_refl
  trans _ _ _ _ _ := Balanced.trans

variable {α : Type}

instance (priority := low) (p : ReducerM α) [h : Prog.Frames Framed p] :
    Prog.Frames CacheKept p where
  frame r t a r' hY hc := hc.retained (h.frame r t a r' hY).retained

instance (priority := low) (p : ReducerM α) [h : Prog.Frames Framed p] :
    Prog.Frames Balanced p where
  frame r t a r' hY := (h.frame r t a r' hY).balanced

instance : Prog.Frames CacheKept rebaseRequestCacheToCurrentSnapshot where
  frame := by
    intro r t a r' hY hc
    obtain ⟨l, rfl, hl⟩ := rebase_yields hY
    refine ⟨(rebased_keys hl).trans hc.keys, hc.nodup, hc.length_le, fun hs => ?_⟩
    refine ⟨(hc.secure hs).1, fun entry' hm => ?_⟩
    obtain ⟨entry, -, hr⟩ := rebased_mem hl hm
    exact hr.pictures.recovery_secure hs

end Hazkey
