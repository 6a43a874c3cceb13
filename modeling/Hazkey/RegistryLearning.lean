import Hazkey.RegistryRuns

/-! What becomes of staged learning when its session leaves the registry. -/

namespace Hazkey

open ServiceProgram

/-! One controller. -/

/-- Nothing is staged and nothing is resolved. -/
structure Silent (c : ImeReducer) (t : List ConverterEvent) (c' : ImeReducer) : Prop where
  staged : t.filterMap stagedToken = []
  resolved : t.filterMap resolution = []
  pending : pendingTokens c'.session = pendingTokens c.session

/-- Nothing is staged, and all that is pending is resolved one way. -/
structure Settled (commit : Bool) (c : ImeReducer) (t : List ConverterEvent) (c' : ImeReducer) :
    Prop where
  staged : t.filterMap stagedToken = []
  resolved : t.filterMap resolution = (pendingTokens c.session).map fun x => (x, commit)
  pending : pendingTokens c'.session = []

section

variable {c u c' : ImeReducer} {t t' : List ConverterEvent} {commit : Bool}

theorem silent_refl (c : ImeReducer) : Silent c [] c := ⟨rfl, rfl, rfl⟩

theorem Silent.trans (h : Silent c t u) (h' : Silent u t' c') : Silent c (t ++ t') c' where
  staged := by simp [h.staged, h'.staged]
  resolved := by simp [h.resolved, h'.resolved]
  pending := h'.pending.trans h.pending

theorem Silent.settles (h : Silent c t u) (h' : Settled commit u t' c') :
    Settled commit c (t ++ t') c' where
  staged := by simp [h.staged, h'.staged]
  resolved := by simp [h.resolved, h'.resolved, h.pending]
  pending := h'.pending

theorem Settled.rests (h : Settled commit c t u) (h' : Silent u t' c') :
    Settled commit c (t ++ t') c' where
  staged := by simp [h.staged, h'.staged]
  resolved := by simp [h.resolved, h'.resolved]
  pending := h'.pending.trans h.pending

/-- The second time there is nothing left to resolve. -/
theorem Settled.trans (h : Settled commit c t u) (h' : Settled commit u t' c') :
    Settled commit c (t ++ t') c' where
  staged := by simp [h.staged, h'.staged]
  resolved := by simp [h.resolved, h'.resolved, h.pending]
  pending := h'.pending

theorem Silent.balanced (h : Silent c t c') : Balanced c t c' := by
  have htokens := filterMap_resolution t
  rw [h.resolved] at htokens
  simp [Balanced, h.staged, ← htokens, h.pending]

theorem Settled.balanced (h : Settled commit c t c') : Balanced c t c' := by
  have htokens := filterMap_resolution t
  rw [h.resolved] at htokens
  simp [Balanced, h.staged, ← htokens, h.pending, Function.comp_def]

instance : Prog.Composes Silent where
  refl := silent_refl
  trans _ _ _ _ _ h h' := h.trans h'

instance : Steady Silent where
  update f hf _ r := by
    refine ⟨rfl, rfl, ?_⟩
    simp only [pendingTokens, hf.pending]
  invalidate _ _ := ⟨rfl, rfl, rfl⟩
  ask call hcall r a := by
    cases call with
    | stageLearning | updateLearningData | commitStagedLearning | discardStagedLearning
    | purgeSensitiveState => exact hcall.elim
    | _ => exact ⟨rfl, rfl, rfl⟩

instance : Prog.Frames Silent purgeConverterSensitiveState where
  frame := by
    intro c t a c' hY
    obtain ⟨rfl, rfl⟩ := purge_yields hY
    exact ⟨rfl, rfl, rfl⟩

instance : Prog.Frames Silent endConverterComposition := by
  unfold endConverterComposition
  infer_instance

instance (l : List (Text × CachedRequest)) : Prog.Frames Silent (rebasedRequests l) := by
  induction l with
  | nil => exact Prog.frames_pure _
  | cons entry l ih =>
    unfold rebasedRequests
    infer_instance

instance : Prog.Frames Silent rebaseRequestCacheToCurrentSnapshot := by
  have hset (l : List (Text × CachedRequest)) : Prog.Frames Silent
      (Prog.modify fun r => { r with requestCache := l } : ReducerM Unit) :=
    Prog.frames_modify fun _ => ⟨rfl, rfl, rfl⟩
  unfold rebaseRequestCacheToCurrentSnapshot
  infer_instance

instance : Prog.Frames Silent invalidateCandidatesForExternalDictionaryChange := by
  unfold invalidateCandidatesForExternalDictionaryChange
  refine .bind inferInstance fun _ => .bind inferInstance fun s => ?_
  unfold Prog.when
  split
  · exact .bind inferInstance fun _ => .bind inferInstance fun _ => .bind inferInstance fun _ =>
      .bind inferInstance fun _ => .bind inferInstance fun _ => inferInstance
  · exact Prog.frames_pure ()

instance (commit : Bool) :
    Prog.Frames (Settled commit) (finalizePendingLearning commit) where
  frame := by
    intro c t a c' hY
    obtain ⟨t₁, t₂, resolved, u, rfl, hresolve, hrest⟩ := Prog.yields_bind.mp hY
    obtain ⟨rfl, hstaged, hresolved⟩ := resolvePendingLearning_yields hresolve
    have hfirst : Settled commit c t₁
        { c with session := { c.session with pendingLearningTransactions := [] } } :=
      ⟨hstaged, hresolved, rfl⟩
    exact hfirst.rests (Prog.Frames.frame (R := Silent) _ _ _ _ hrest)

end

/-! The controllers of a registry. -/

/-- A call made for the converter of the session, as its controller makes it. -/
def converterEvent (sessionID : Text) : RegistryEvent → Option ConverterEvent
  | ⟨r, .converter k call, answer⟩ =>
    if k = sessionID then some ⟨r.controllers k, call, answer⟩ else none
  | _ => none

def callsIn (sessionID : Text) (t : List RegistryEvent) : List ConverterEvent :=
  t.filterMap (converterEvent sessionID)

def SessionRegistry.ids (r : SessionRegistry) : List Text := r.sessions.map (·.1)

variable {r u r' : SessionRegistry} {t t' : List RegistryEvent} {commit : Bool}
  {K L : Text → Prop}

@[simp] theorem callsIn_append (k : Text) :
    callsIn k (t ++ t') = callsIn k t ++ callsIn k t' := List.filterMap_append

theorem callsIn_on (k sessionID : Text) (r : SessionRegistry) (t : List ConverterEvent) :
    callsIn k (t.map ((controllerPart sessionID).event r)) = if sessionID = k then t else [] := by
  unfold callsIn
  by_cases h : sessionID = k
  · rw [if_pos h, List.filterMap_map]
    have hevent : converterEvent k ∘ (controllerPart sessionID).event r = some := by
      funext e
      simp [converterEvent, Part.event, controllerPart, h]
    rw [hevent, List.filterMap_some]
  · rw [if_neg h, List.filterMap_map]
    refine List.filterMap_eq_nil_iff.mpr fun e _ => ?_
    exact if_neg h

/-- What is done on one controller leaves the others alone. -/
theorem onController_yields {α : Type} {sessionID : Text} {p : ReducerM α} {a : α}
    (h : (onController sessionID p).Yields r t a r') :
    p.Yields (r.controllers sessionID) (callsIn sessionID t) a (r'.controllers sessionID) ∧
      ∀ k ≠ sessionID, callsIn k t = [] ∧ r'.controllers k = r.controllers k := by
  obtain ⟨q, hY, rfl, hr'⟩ := Prog.yields_on h
  rw [callsIn_on, if_pos rfl]
  refine ⟨hY, fun k hk => ⟨?_, ?_⟩⟩
  · rw [callsIn_on, if_neg (Ne.symm hk)]
  · rw [hr']
    exact Function.update_of_ne hk ..

/-- The controllers of the kind are settled, the others are silent. -/
structure Resolves (K : Text → Prop) (commit : Bool) (r : SessionRegistry) (t : List RegistryEvent)
    (r' : SessionRegistry) : Prop where
  settled : ∀ k, K k → Settled commit (r.controllers k) (callsIn k t) (r'.controllers k)
  silent : ∀ k, ¬ K k → Silent (r.controllers k) (callsIn k t) (r'.controllers k)

def Quiet (r : SessionRegistry) (t : List RegistryEvent) (r' : SessionRegistry) : Prop :=
  ∀ k, Silent (r.controllers k) (callsIn k t) (r'.controllers k)

theorem Resolves.union (h : Resolves K commit r t u) (h' : Resolves L commit u t' r') :
    Resolves (fun k => K k ∨ L k) commit r (t ++ t') r' where
  settled k hk := by
    rw [callsIn_append]
    by_cases hK : K k
    · by_cases hL : L k
      · exact (h.settled k hK).trans (h'.settled k hL)
      · exact (h.settled k hK).rests (h'.silent k hL)
    · exact (h.silent k hK).settles (h'.settled k (hk.resolve_left hK))
  silent k hk := by
    rw [callsIn_append]
    exact (h.silent k fun hK => hk (.inl hK)).trans (h'.silent k fun hL => hk (.inr hL))

theorem Resolves.congr (h : Resolves K commit r t r') (hKL : ∀ k, K k ↔ L k) :
    Resolves L commit r t r' := by
  have he : K = L := funext fun k => propext (hKL k)
  exact he ▸ h

theorem Resolves.of_controllers (h : Resolves K commit u t r')
    (hu : u.controllers = r.controllers) : Resolves K commit r t r' := by
  obtain ⟨hsettled, hsilent⟩ := h
  rw [hu] at hsettled hsilent
  exact ⟨hsettled, hsilent⟩

theorem Quiet.resolves (h : Quiet r t r') (hK : ∀ k, ¬ K k) : Resolves K commit r t r' :=
  ⟨fun k hk => absurd hk (hK k), fun k _ => h k⟩

theorem Resolves.quiet (h : Resolves K commit r t u) (h' : Quiet u t' r') :
    Resolves K commit r (t ++ t') r' :=
  (h.union (h'.resolves (K := fun _ => False) fun _ => id)).congr (by simp)

theorem Quiet.then (h : Quiet r t u) (h' : Resolves K commit u t' r') :
    Resolves K commit r (t ++ t') r' :=
  ((h.resolves (K := fun _ => False) fun _ => id).union h').congr (by simp)

instance : Prog.Composes Quiet where
  refl _ _ := silent_refl _
  trans r t u t' r' h h' k := by
    rw [callsIn_append]
    exact (h k).trans (h' k)

theorem quiet_ask {c : RegistryRequest} (hc : ∀ k call, c ≠ .converter k call) :
    @Prog.Frames _ _ c.Answer Quiet (Prog.ask (I := registryPort) c) := by
  refine Prog.frames_ask fun r a k => ?_
  have hnone : callsIn k [⟨r, c, a⟩] = [] := by
    cases c with
    | converter k call => exact absurd rfl (hc k call)
    | _ => rfl
  rw [hnone]
  exact silent_refl _

instance : Prog.Frames Quiet now := quiet_ask fun _ _ h => nomatch h

instance (sessionID : Text) : Prog.Frames Quiet (closeEnvironment sessionID) :=
  quiet_ask fun _ _ h => nomatch h

instance (sessionID : Text) : Prog.Frames Quiet (clearProfileLearningData sessionID) :=
  quiet_ask fun _ _ h => nomatch h

instance (sessionID : Text) : Prog.Frames Quiet (reinitializeConfiguration sessionID) :=
  quiet_ask fun _ _ h => nomatch h

instance (sessionID : Text) : Prog.Frames Quiet (replaceUserDictionary sessionID) :=
  quiet_ask fun _ _ h => nomatch h

instance : Prog.Frames Quiet clearIdleLearningData := quiet_ask fun _ _ h => nomatch h

instance : Prog.Frames Quiet recordLearningCommit := quiet_ask fun _ _ h => nomatch h

instance : Prog.Frames Quiet mutateConfiguration := quiet_ask fun _ _ h => nomatch h

instance : Prog.Frames Quiet mutateUserDictionary := quiet_ask fun _ _ h => nomatch h

instance : Prog.Frames Quiet uuid := quiet_ask fun _ _ h => nomatch h

instance (sessionID : Text) : Prog.Frames Quiet (refreshPolicy sessionID) :=
  quiet_ask fun _ _ h => nomatch h

instance (context : GrimodexClientContext) : Prog.Frames Quiet (openEnvironment context) :=
  quiet_ask fun _ _ h => nomatch h

instance {α : Type} (sessionID : Text) (p : ReducerM α) [hp : Prog.Frames Silent p] :
    Prog.Frames Quiet (onController sessionID p) where
  frame := by
    intro r t a r' hY k
    obtain ⟨hhere, helse⟩ := onController_yields hY
    by_cases hk : k = sessionID
    · subst hk
      exact hp.frame _ _ _ _ hhere
    · rw [(helse k hk).1, (helse k hk).2]
      exact silent_refl _

theorem onController_settles (commit : Bool) (sessionID : Text) : Prog.Frames
    (Resolves (· = sessionID) commit) (onController sessionID (finalizePendingLearning commit)) where
  frame := by
    intro r t a r' hY
    obtain ⟨hhere, helse⟩ := onController_yields hY
    refine ⟨fun k hk => ?_, fun k hk => ?_⟩
    · subst hk
      exact Prog.Frames.frame (R := Settled commit) _ _ _ _ hhere
    · rw [(helse k hk).1, (helse k hk).2]
      exact silent_refl _

theorem settle_then (commit : Bool) (sessionID : Text) (p : RegistryM Unit)
    [hp : Prog.Frames Quiet p] : Prog.Frames (Resolves (· = sessionID) commit)
      (onController sessionID (finalizePendingLearning commit) >>= fun _ => p) where
  frame := by
    intro r t a r' hY
    obtain ⟨t₁, t₂, b, u, rfl, hfirst, hlast⟩ := Prog.yields_bind.mp hY
    exact ((onController_settles commit sessionID).frame _ _ _ _ hfirst).quiet
      (hp.frame _ _ _ _ hlast)

/-! Sessions that leave. -/

/-- Sessions left, with their learning resolved one way. -/
structure Sheds (commit : Bool) (r : SessionRegistry) (t : List RegistryEvent)
    (r' : SessionRegistry) : Prop where
  subset : r'.ids ⊆ r.ids
  opened : r'.opened = r.opened
  resolves : Resolves (fun k => k ∈ r.ids ∧ k ∉ r'.ids) commit r t r'

theorem Quiet.sheds (h : Quiet r t r') (hids : r'.ids = r.ids) (hopened : r'.opened = r.opened) :
    Sheds commit r t r' where
  subset := hids ▸ List.Subset.refl _
  opened := hopened
  resolves := h.resolves fun _ hk => hk.2 (hids ▸ hk.1)

instance : Prog.Composes (Sheds commit) where
  refl r := (Prog.Composes.refl (R := Quiet) r).sheds rfl rfl
  trans r t u t' r' h h' := by
    refine ⟨List.Subset.trans h'.subset h.subset, h'.opened.trans h.opened,
      (h.resolves.union h'.resolves).congr fun k => ?_⟩
    constructor
    · rintro (⟨hr, hu⟩ | ⟨hu, hr'⟩)
      · exact ⟨hr, fun hk => hu (h'.subset hk)⟩
      · exact ⟨h.subset hu, hr'⟩
    · rintro ⟨hr, hr'⟩
      by_cases hu : k ∈ u.ids
      · exact .inr ⟨hu, hr'⟩
      · exact .inl ⟨hr, hu⟩

theorem Leaves.ids (h : Leaves r r.sessions r') : r'.ids = r.ids := by
  rw [SessionRegistry.ids, h.sessions]
  rfl

instance (reason : HazkeySessionRemovalReason) (sessionID : Text) :
    Prog.Frames (Sheds reason.commitsPendingLearning) (removeSession reason sessionID) where
  frame := by
    intro r t a r' hY
    have hleaves := removeSession_leaves hY
    rw [removeSession, Prog.yields_read_bind, Prog.yields_when, Prog.yields_modify_bind] at hY
    rcases hY with ⟨hfound, hY⟩ | ⟨-, rfl, -, rfl⟩
    · obtain ⟨x, hx⟩ := Option.ne_none_iff_exists'.mp hfound
      have hmem : sessionID ∈ r.ids := List.mem_map_of_mem (mem_of_session hx)
      have hids : r'.ids = r.ids.filter fun k => k ≠ sessionID := by
        simp only [SessionRegistry.ids, hleaves.sessions, List.filter_map]
        rfl
      obtain ⟨t₁, t₂, b, u, rfl, hinvalidate, hrest⟩ := Prog.yields_bind.mp hY
      obtain ⟨t₃, t₄, b', v, rfl, hfinalize, hclose⟩ := Prog.yields_bind.mp hrest
      have hquiet : Quiet (r.removing sessionID) t₁ u := Prog.Frames.frame _ _ _ _ hinvalidate
      have hsettle := (onController_settles _ sessionID).frame _ _ _ _ hfinalize
      have hend : Quiet v t₄ r' := Prog.Frames.frame _ _ _ _ hclose
      refine ⟨?_, hleaves.opened, ?_⟩
      · rw [hids]
        exact List.filter_subset_self ..
      · have hresolves := (hquiet.then (hsettle.quiet hend)).congr (L := fun k => k = sessionID)
          fun _ => Iff.rfl
        refine (hresolves.of_controllers (r := r) rfl).congr fun k => ?_
        rw [hids]
        by_cases hk : k = sessionID
        · simp [hk, hmem]
        · simp [hk]
    · exact Prog.Composes.refl _

theorem frames_sheds {α : Type} {p : RegistryM α} (hq : Prog.Frames Quiet p)
    (hk : Prog.Frames SessionsKept p) : Prog.Frames (Sheds commit) p where
  frame r t a r' hY := by
    have hkept := hk.frame r t a r' hY
    exact (hq.frame r t a r' hY).sheds hkept.ids hkept.opened

instance : Sweeps (Sheds true) where
  now := frames_sheds inferInstance inferInstance
  touch sessionID time := Prog.frames_modify fun r =>
    Quiet.sheds (fun _ => silent_refl _) (touching_ids r sessionID time) rfl
  remove _ hreason _ := hreason ▸ inferInstance

instance (f : Int) : Prog.Frames (Sheds false) (closeAll f) := by
  have hremove (sessionID : Text) :
      Prog.Frames (Sheds false) (removeSession .socketDisconnect sessionID) :=
    inferInstanceAs (Prog.Frames (Sheds HazkeySessionRemovalReason.socketDisconnect.commitsPendingLearning) _)
  unfold closeAll
  infer_instance

/-! The calls of the registry. -/

def Balances (r : SessionRegistry) (t : List RegistryEvent) (r' : SessionRegistry) : Prop :=
  ∀ k, Balanced (r.controllers k) (callsIn k t) (r'.controllers k)

instance : Prog.Composes Balances where
  refl _ _ := balanced_refl _
  trans r t u t' r' h h' k := by
    rw [callsIn_append]
    exact (h k).trans (h' k)

theorem Resolves.balances (h : Resolves K commit r t r') : Balances r t r' := by
  intro k
  by_cases hk : K k
  · exact (h.settled k hk).balanced
  · exact (h.silent k hk).balanced

/-- Nothing is pending of a session that is not registered. -/
def Rested (r : SessionRegistry) : Prop :=
  ∀ k ∉ r.ids, pendingTokens (r.controllers k).session = []

/-- Whether the sessions that leave in a call have their learning committed. -/
def RegistryCall.commitsPendingLearning : RegistryCall → Bool
  | .closeAll _ => false
  | _ => true

/-- What a call does to staged learning: that of a session that leaves is resolved by
the reason for which it leaves; that of a cleared history is discarded; and for the
sessions that are not registered nothing happens. -/
structure FollowsRemoval (m : RegistryMove) : Prop where
  leaving : ∀ k ∈ m.before.ids, k ∉ m.after.ids →
    Settled m.label.commitsPendingLearning (m.before.controllers k) (callsIn k m.trace)
      (m.after.controllers k)
  absent : ∀ k ∉ m.before.ids, (callsIn k m.trace).filterMap stagedToken = [] ∧
    (callsIn k m.trace).filterMap resolution = []
  cleared : m.label = .clearAllLearningData → ∀ k ∈ m.before.ids,
    Settled false (m.before.controllers k) (callsIn k m.trace) (m.after.controllers k)

/-- What a call keeps, and promises. -/
structure Learns (m : RegistryMove) : Prop where
  rested : Rested m.before → Rested m.after
  balances : Rested m.before → Balances m.before m.trace m.after
  follows : FollowsRemoval m

variable {label : RegistryCall} {value : RegistryAnswer}

theorem Sheds.learns (h : Sheds commit r t r') (hcommit : label.commitsPendingLearning = commit)
    (hlabel : label ≠ .clearAllLearningData) : Learns ⟨label, r, t, value, r'⟩ where
  rested hrest k hk := by
    by_cases hr : k ∈ r.ids
    · exact (h.resolves.settled k ⟨hr, hk⟩).pending
    · exact (h.resolves.silent k fun hk' => hr hk'.1).pending.trans (hrest k hr)
  balances _ := h.resolves.balances
  follows :=
    { leaving := fun k hk hk' => hcommit ▸ h.resolves.settled k ⟨hk, hk'⟩
      absent := fun k hk => by
        have hsilent := h.resolves.silent k fun hk' => hk hk'.1
        exact ⟨hsilent.staged, hsilent.resolved⟩
      cleared := fun he => absurd he hlabel }

theorem Resolves.learns (h : Resolves (· ∈ r.ids) commit r t r') (hids : r'.ids = r.ids)
    (hlabel : label = .clearAllLearningData → commit = false) :
    Learns ⟨label, r, t, value, r'⟩ where
  rested hrest k hk := by
    have hr : k ∉ r.ids := hids ▸ hk
    exact (h.silent k hr).pending.trans (hrest k hr)
  balances _ := h.balances
  follows :=
    { leaving := fun k hk hk' => absurd (hids ▸ hk) hk'
      absent := fun k hk => ⟨(h.silent k hk).staged, (h.silent k hk).resolved⟩
      cleared := fun he k hk => hlabel he ▸ h.settled k hk }

instance (sessionID : Text) : Prog.Frames Quiet (invalidateForDictionaryChange sessionID) := by
  unfold invalidateForDictionaryChange
  infer_instance

instance (affected : List (Text × RegisteredSession)) :
    Prog.Frames Quiet (resumeSpeculationIn affected) := by
  unfold resumeSpeculationIn resumeSpeculativeConversionAfterMaintenance
  infer_instance

instance (affected : List (Text × RegisteredSession)) :
    Prog.Frames Quiet (reinitializeEnvironments affected) := by
  unfold reinitializeEnvironments
  infer_instance

instance : Prog.Frames Quiet reinitializeAll := by
  unfold reinitializeAll
  infer_instance

instance : Prog.Frames Quiet performConfigurationMutation := by
  unfold performConfigurationMutation
  infer_instance

instance : Prog.Frames Quiet changeUserDictionary := by
  unfold changeUserDictionary applyUserDictionaryToSessions
  infer_instance

/-- One session after another is settled. -/
theorem forSessions_resolves {f : Text → RegistryM Unit}
    (hf : ∀ x, Prog.Frames (Resolves (· = x) commit) (f x)) (xs : List (Text × RegisteredSession)) :
    Prog.Frames (Resolves (· ∈ xs.map (·.1)) commit) (forSessions f xs) where
  frame := by
    induction xs with
    | nil =>
      rintro r t a r' ⟨rfl, -, rfl⟩
      exact (Prog.Composes.refl (R := Quiet) r').resolves (by simp)
    | cons x xs ih =>
      intro r t a r' hY
      obtain ⟨t₁, t₂, b, u, rfl, hfirst, hrest⟩ := Prog.yields_bind.mp hY
      refine (((hf x.1).frame _ _ _ _ hfirst).union (ih _ _ _ _ hrest)).congr fun k => ?_
      simp

theorem clearAllLearningData_resolves {a : Unit} (h : clearAllLearningData.Yields r t a r') :
    Resolves (· ∈ r.ids) false r t r' := by
  rw [clearAllLearningData, Prog.yields_read_bind, Prog.yields_ite] at h
  rcases h with ⟨hnil, h⟩ | ⟨-, h⟩
  · have hquiet : Quiet r t r' := Prog.Frames.frame _ _ _ _ h
    exact hquiet.resolves (by simp [SessionRegistry.ids, hnil])
  · obtain ⟨t₁, t₂, b, u, rfl, hinvalidate, hrest⟩ := Prog.yields_bind.mp h
    obtain ⟨t₃, t₄, b', v, rfl, hsettle, hend⟩ := Prog.yields_bind.mp hrest
    have hquiet : Quiet r t₁ u := Prog.Frames.frame _ _ _ _ hinvalidate
    have hresolves := (forSessions_resolves (fun x => settle_then false x _) r.sessions).frame _ _ _ _ hsettle
    have hresume : Quiet v t₄ r' := Prog.Frames.frame _ _ _ _ hend
    exact hquiet.then (hresolves.quiet hresume)

theorem clear_ids {m : RegistryMove} [SwiftText] [RecoveryCodec]
    (hv : m.Valid RegistryCall.program) (hlabel : m.label = .clearAllLearningData) :
    m.after.ids = m.before.ids := by
  unfold Move.Valid at hv
  rw [hlabel] at hv
  obtain ⟨a, hY, -⟩ := Prog.yields_map.mp hv
  have hkept : SessionsKept m.before m.trace m.after := Prog.Frames.frame _ _ _ _ hY
  exact hkept.ids

theorem saveAll_resolves {a : Unit} (h : saveAll.Yields r t a r') :
    Resolves (· ∈ r.ids) true r t r' := by
  rw [saveAll, Prog.yields_read_bind] at h
  obtain ⟨t₁, t₂, b, u, rfl, hinvalidate, hsettle⟩ := Prog.yields_bind.mp h
  have hquiet : Quiet r t₁ u := Prog.Frames.frame _ _ _ _ hinvalidate
  exact hquiet.then ((forSessions_resolves (fun x => settle_then true x _) r.sessions).frame _ _ _ _ hsettle)

/-- An attempt to open sheds sessions, and may then register a new one. -/
theorem attemptOpen_sheds {context : GrimodexClientContext} {f : Int} {bits : UInt64}
    {result : Except HazkeySessionOpenError Text}
    (h : (attemptOpen context f bits).Yields r t result r') :
    ∃ u, Sheds true r t u ∧ (r' = u ∨ ∃ sessionID x reducer, ⟨u, .uuid, sessionID⟩ ∈ t ∧
      pendingTokens reducer.session = [] ∧ r' = u.opening sessionID x reducer) := by
  obtain ⟨t₁, t₂, a, r₀, rfl, hprune, hevict⟩ := Prog.yields_bind.mp h
  rw [Prog.yields_read_bind] at hevict
  obtain ⟨t₃, t₄, b, r₁, rfl, howned, hroom⟩ := Prog.yields_bind.mp hevict
  rw [Prog.yields_read_bind] at hroom
  obtain ⟨t₅, t₆, roomy, r₂, rfl, hregistered, hopen⟩ := Prog.yields_bind.mp hroom
  have h₁ : Sheds true r t₁ r₀ := Prog.Frames.frame _ _ _ _ hprune
  have h₂ : Sheds true r₀ t₃ r₁ := Prog.Frames.frame _ _ _ _ howned
  have h₃ : Sheds true r₁ t₅ r₂ := Prog.Frames.frame _ _ _ _ hregistered
  have hsheds {t : List RegistryEvent} (h₄ : Quiet r₂ t r₂) :
      Sheds true r (t₁ ++ (t₃ ++ (t₅ ++ t))) r₂ :=
    Prog.Composes.trans _ _ _ _ _ h₁ (Prog.Composes.trans _ _ _ _ _ h₂
      (Prog.Composes.trans _ _ _ _ _ h₃ (h₄.sheds rfl rfl)))
  rw [Prog.yields_ite] at hopen
  rcases hopen with ⟨-, hopen⟩ | ⟨-, rfl, -, rfl⟩
  · rw [uuid, Prog.yields_ask_bind] at hopen
    obtain ⟨sessionID, t₇, rfl, hopen⟩ := hopen
    rw [openEnvironment, Prog.yields_ask_bind] at hopen
    obtain ⟨policy, t₈, rfl, hopen⟩ := hopen
    rw [now, Prog.yields_ask_bind] at hopen
    obtain ⟨lastAccess, t₉, rfl, hopen⟩ := hopen
    rw [Prog.yields_modify_bind] at hopen
    obtain ⟨rfl, -, rfl⟩ := hopen
    exact ⟨r₂, hsheds fun _ => silent_refl _, .inr ⟨sessionID, _, _, by simp, rfl, rfl⟩⟩
  · exact ⟨r', hsheds (Prog.Composes.refl _), .inl rfl⟩

theorem access_registered {sessionID : Text} {f : Int} {x : RegisteredSession}
    (h : (access sessionID f).Yields r t (some x) r') : sessionID ∈ r'.ids := by
  obtain ⟨t₁, t₂, a, u, rfl, -, hlook⟩ := Prog.yields_bind.mp h
  rw [Prog.yields_read_bind] at hlook
  cases hfound : (u.session sessionID).filter fun x => x.ownerFd = f with
  | none =>
    simp only [hfound] at hlook
    obtain ⟨-, hnone, -⟩ := hlook
    cases hnone
  | some y =>
    simp only [hfound] at hlook
    rw [now, Prog.yields_ask_bind] at hlook
    obtain ⟨lastAccess, rest, rfl, hlook⟩ := hlook
    rw [Prog.yields_modify_bind] at hlook
    obtain ⟨-, -, rfl⟩ := hlook
    rw [SessionRegistry.ids, touching_ids]
    exact List.mem_map_of_mem (mem_of_session (Option.filter_eq_some_iff.mp hfound).1)

section

variable [SwiftText] [RecoveryCodec]

/-- A request reaches the controller of one registered session. -/
theorem handle_reaches {sessionID : Text} {f : Int} {action : ImeAction} {requestID : Text}
    {expectedRevision : Option UInt64} {result : Option ImeReductionResult}
    (h : (handle sessionID f action requestID expectedRevision).Yields r t result r') :
    ∃ t₁ t₂ u, t = t₁ ++ t₂ ∧ Sheds true r t₁ u ∧ SessionsKept u t₂ r' ∧ Balances u t₂ r' ∧
      ∀ k ∉ u.ids, Silent (u.controllers k) (callsIn k t₂) (r'.controllers k) := by
  obtain ⟨t₁, t₂, x, u, rfl, haccess, hrest⟩ := Prog.yields_bind.mp h
  have hsheds : Sheds true r t₁ u := Prog.Frames.frame _ _ _ _ haccess
  refine ⟨t₁, t₂, u, rfl, hsheds, ?_⟩
  cases x with
  | none =>
    obtain ⟨rfl, -, rfl⟩ := hrest
    exact ⟨Prog.Composes.refl _, Prog.Composes.refl _, fun _ _ => silent_refl _⟩
  | some x =>
    have hmem := access_registered haccess
    have hkept : SessionsKept u t₂ r' := Prog.Frames.frame _ _ _ _ hrest
    refine ⟨hkept, ?_⟩
    -- Only the controller of the session is used.
    have hbalanced {p : ReducerM ImeReductionResult} {v : SessionRegistry}
        {t : List RegistryEvent} {a : ImeReductionResult} (hp : Prog.Frames Balanced p)
        (hY : (onController sessionID p).Yields v t a r') :
        Balances v t r' ∧ ∀ k ≠ sessionID, Silent (v.controllers k) (callsIn k t)
          (r'.controllers k) := by
      obtain ⟨hhere, helse⟩ := onController_yields hY
      have hothers : ∀ k ≠ sessionID, Silent (v.controllers k) (callsIn k t)
          (r'.controllers k) := by
        intro k hk
        rw [(helse k hk).1, (helse k hk).2]
        exact silent_refl _
      refine ⟨fun k => ?_, hothers⟩
      by_cases hk : k = sessionID
      · subst hk
        exact hp.frame _ _ _ _ hhere
      · exact (hothers k hk).balanced
    have hne : ∀ k ∉ u.ids, k ≠ sessionID := by
      rintro k hk rfl
      exact hk hmem
    simp only [Prog.yields_ite] at hrest
    rcases hrest with ⟨-, hrest⟩ | ⟨-, hrest⟩
    · rw [refreshPolicy, Prog.yields_ask_bind] at hrest
      obtain ⟨policy, t₃, rfl, hrest⟩ := hrest
      obtain ⟨t₄, t₅, a, v, rfl, hreduce, rfl, -, rfl⟩ := Prog.yields_bind.mp hrest
      obtain ⟨hb, hs⟩ := hbalanced inferInstance hreduce
      rw [List.append_nil]
      exact ⟨hb, fun k hk => hs k (hne k hk)⟩
    · obtain ⟨t₄, t₅, a, v, rfl, hfail, rfl, -, rfl⟩ := Prog.yields_bind.mp hrest
      obtain ⟨hb, hs⟩ := hbalanced inferInstance hfail
      rw [List.append_nil]
      exact ⟨hb, fun k hk => hs k (hne k hk)⟩

theorem handle_learns {sessionID : Text} {f : Int} {action : ImeAction} {requestID : Text}
    {expectedRevision : Option UInt64} {result : Option ImeReductionResult}
    (h : (handle sessionID f action requestID expectedRevision).Yields r t result r') :
    Learns ⟨.handle sessionID f action requestID expectedRevision, r, t, value, r'⟩ := by
  obtain ⟨t₁, t₂, u, rfl, hsheds, hkept, hbalances, hothers⟩ := handle_reaches h
  have hids : r'.ids = u.ids := hkept.ids
  have hfirst : Learns ⟨.handle sessionID f action requestID expectedRevision, r, t₁, value, u⟩ :=
    hsheds.learns rfl fun he => nomatch he
  refine ⟨fun hrest k hk => ?_, fun hrest => ?_, fun k hk hk' => ?_, fun k hk => ?_,
    fun he => nomatch he⟩
  · have hk : k ∉ u.ids := hids ▸ hk
    exact (hothers k hk).pending.trans (hfirst.rested hrest k hk)
  · exact Prog.Composes.trans (R := Balances) _ _ _ _ _ (hfirst.balances hrest) hbalances
  · have hk' : k ∉ u.ids := hids ▸ hk'
    change Settled true _ (callsIn k (t₁ ++ t₂)) _
    rw [callsIn_append]
    exact (hsheds.resolves.settled k ⟨hk, hk'⟩).rests (hothers k hk')
  · have hsilent := (hsheds.resolves.silent k fun hk' => hk hk'.1).trans
      (hothers k fun hk' => hk (hsheds.subset hk'))
    change (callsIn k (t₁ ++ t₂)).filterMap _ = [] ∧ (callsIn k (t₁ ++ t₂)).filterMap _ = []
    rw [callsIn_append]
    exact ⟨hsilent.staged, hsilent.resolved⟩

omit [SwiftText] [RecoveryCodec] in
theorem opening_controller (r : SessionRegistry) (sessionID : Text) (x : RegisteredSession)
    (reducer : ImeReducer) : (r.opening sessionID x reducer).controllers sessionID = reducer :=
  Function.update_self ..

omit [SwiftText] [RecoveryCodec] in
theorem opening_controller_of_ne {k sessionID : Text} (h : k ≠ sessionID) {x : RegisteredSession}
    {reducer : ImeReducer} : (r.opening sessionID x reducer).controllers k = r.controllers k :=
  Function.update_of_ne h ..

omit [SwiftText] [RecoveryCodec] in
theorem attemptOpen_learns {context : GrimodexClientContext} {f : Int} {bits : UInt64}
    {result : Except HazkeySessionOpenError Text} (hr : Bounded r)
    (h : (attemptOpen context f bits).Yields r t result r') (hfresh : ∀ e ∈ t, DrawsFresh e) :
    Learns ⟨.attemptOpen context f bits, r, t, value, r'⟩ := by
  obtain ⟨u, hsheds, rfl | ⟨sessionID, x, reducer, huuid, hpending, rfl⟩⟩ := attemptOpen_sheds h
  · exact hsheds.learns rfl fun he => nomatch he
  have hnew : sessionID ∉ u.opened := hfresh _ huuid
  have hfirst : Learns ⟨.attemptOpen context f bits, r, t, value, u⟩ :=
    hsheds.learns rfl fun he => nomatch he
  have hknown : sessionID ∉ r.ids := by
    intro hmem
    obtain ⟨y, hy, hid⟩ := List.mem_map.mp hmem
    rw [hsheds.opened] at hnew
    exact hnew (hid ▸ hr.known y hy)
  have hunknown : sessionID ∉ u.ids := fun hmem => hknown (hsheds.subset hmem)
  have hcontroller : ∀ k, pendingTokens (u.controllers sessionID).session = [] →
      pendingTokens ((u.opening sessionID x reducer).controllers k).session =
        pendingTokens (u.controllers k).session := by
    intro k hk
    by_cases hid : k = sessionID
    · subst hid
      rw [opening_controller, hk, hpending]
    · rw [opening_controller_of_ne hid]
  have hids : ∀ k, k ∈ u.ids → k ∈ (u.opening sessionID x reducer).ids := by
    intro k hk
    obtain ⟨y, hy, rfl⟩ := List.mem_map.mp hk
    refine List.mem_map_of_mem (List.mem_append_left _ (List.mem_filter.mpr ⟨hy, ?_⟩))
    refine decide_eq_true ?_
    rintro rfl
    exact hunknown hk
  refine ⟨fun hrest k hk => ?_, fun hrest k => ?_, fun k hk hk' => ?_, hfirst.follows.absent,
    fun he => nomatch he⟩
  · rw [hcontroller k (hfirst.rested hrest _ hunknown)]
    exact hfirst.rested hrest k fun hmem => hk (hids k hmem)
  · have hbalanced := hfirst.balances hrest k
    unfold Balanced at hbalanced ⊢
    rw [hcontroller k (hfirst.rested hrest _ hunknown)]
    exact hbalanced
  · have hk₁ : k ∉ u.ids := fun hmem => hk' (hids k hmem)
    have hne : k ≠ sessionID := by
      rintro rfl
      exact hknown hk
    change Settled true _ _ ((u.opening sessionID x reducer).controllers k)
    rw [opening_controller_of_ne hne]
    exact hsheds.resolves.settled k ⟨hk, hk₁⟩

theorem registryCall_learns {call : RegistryCall} (hr : Bounded r)
    (h : call.program.Yields r t value r') (hfresh : ∀ e ∈ t, DrawsFresh e) :
    Learns ⟨call, r, t, value, r'⟩ := by
  have hsheds {α : Type} {g : α → RegistryAnswer} {p : RegistryM α} [Prog.Frames (Sheds true) p]
      (h : (g <$> p).Yields r t value r') : Sheds true r t r' := Prog.Frames.frame _ _ _ _ h
  have hquiet {p : RegistryM Unit} (hq : Prog.Frames Quiet p) (hk : Prog.Frames SessionsKept p)
      (h : ((fun _ => RegistryAnswer.done) <$> p).Yields r t value r') : Sheds true r t r' :=
    have hp : Prog.Frames (Sheds true) p := frames_sheds hq hk
    (Prog.frames_map).frame _ _ _ _ h
  cases call with
  | attemptOpen context f bits =>
    obtain ⟨result, hY, -⟩ := Prog.yields_map.mp h
    exact attemptOpen_learns hr hY hfresh
  | handle sessionID f action requestID expectedRevision =>
    obtain ⟨result, hY, -⟩ := Prog.yields_map.mp h
    exact handle_learns hY
  | environment | clientContext | semanticController | close | count | diagnostics =>
    exact (hsheds h).learns rfl fun he => nomatch he
  | closeAll f =>
    have hclosed : Sheds false r t r' :=
      (Prog.frames_map (p := closeAll f)).frame _ _ _ _ h
    exact hclosed.learns rfl fun he => nomatch he
  | reinitializeAll | performConfigurationMutation | changeUserDictionary =>
    exact (hquiet inferInstance inferInstance h).learns rfl fun he => nomatch he
  | clearAllLearningData =>
    obtain ⟨a, hY, -⟩ := Prog.yields_map.mp h
    have hkept : SessionsKept r t r' := Prog.Frames.frame _ _ _ _ hY
    exact (clearAllLearningData_resolves hY).learns hkept.ids fun _ => rfl
  | saveAll =>
    obtain ⟨a, hY, -⟩ := Prog.yields_map.mp h
    have hkept : SessionsKept r t r' := Prog.Frames.frame _ _ _ _ hY
    exact (saveAll_resolves hY).learns hkept.ids fun he => nomatch he

/-! Runs. -/

variable {limits : RegistryLimits} {moves : List RegistryMove}

theorem callRule_learns (m : RegistryMove) (hm : Bounded m.before ∧ Rested m.before)
    (hfresh : ∀ e ∈ m.trace, DrawsFresh e) (hv : m.Valid RegistryCall.program) :
    (Bounded m.after ∧ Rested m.after) ∧ Balances m.before m.trace m.after := by
  have hlearns := registryCall_learns hm.1 hv hfresh
  exact ⟨⟨(registryCall_rule hm.1 hv hfresh).1, hlearns.rested hm.2⟩, hlearns.balances hm.2⟩

/-- Between any two states of a run the accounts of every controller balance. -/
theorem runs_balance {s : SessionRegistry} (h : Runs RegistryCall.program s moves r)
    (hs : Bounded s ∧ Rested s) (hfresh : UniqueIDs moves) : Balances s (callTrace moves) r :=
  h.guarded_frame (J := fun r => Bounded r ∧ Rested r)
    (C := fun m => ∀ e ∈ m.trace, DrawsFresh e) hs callRule_learns hfresh

theorem RegistryRun.learns (h : RegistryRun limits moves r) (hfresh : UniqueIDs moves) :
    (Bounded r ∧ Rested r) ∧ ∀ m ∈ moves, m.Valid RegistryCall.program ∧
      (Bounded m.before ∧ Rested m.before) ∧ (Bounded m.after ∧ Rested m.after) :=
  Runs.guarded (J := fun r => Bounded r ∧ Rested r) (C := fun m => ∀ e ∈ m.trace, DrawsFresh e)
    ⟨bounded_initial limits, fun _ _ => rfl⟩
    (fun m hm hc hv => (callRule_learns m hm hc hv).1) h hfresh

/-- The learning that is pending when a session leaves goes the way of the reason; no
token is resolved twice or without having been staged; and what is resolved after a clear
was staged after it. -/
theorem learning_follows_removal (h : RegistryRun limits moves r) (hfresh : UniqueIDs moves) :
    (∀ m ∈ moves, FollowsRemoval m) ∧
    (∀ k, (callsIn k (callTrace moves)).filterMap stagedToken =
        (callsIn k (callTrace moves)).filterMap resolvedToken ++
          pendingTokens (r.controllers k).session ∧
      (k ∉ r.ids → pendingTokens (r.controllers k).session = [])) ∧
    ∀ before m after, moves = before ++ m :: after → m.label = .clearAllLearningData → ∀ k,
      (callsIn k (callTrace after)).filterMap stagedToken =
        (callsIn k (callTrace after)).filterMap resolvedToken ++
          pendingTokens (r.controllers k).session := by
  obtain ⟨⟨-, hrested⟩, hmoves⟩ := h.learns hfresh
  refine ⟨fun m hm => ?_, fun k => ⟨?_, hrested k⟩, ?_⟩
  · obtain ⟨hv, hbefore, -⟩ := hmoves m hm
    exact (registryCall_learns hbefore.1 hv (hfresh m hm)).follows
  · exact runs_balance h ⟨bounded_initial limits, fun _ _ => rfl⟩ hfresh k
  · rintro before m after rfl hlabel k
    have hmem : m ∈ before ++ m :: after := by simp
    obtain ⟨hv, hbefore, hafter⟩ := hmoves m hmem
    have hlearns := registryCall_learns hbefore.1 hv (hfresh m hmem)
    -- After the clear nothing is pending, of a registered session or another.
    have hnone : pendingTokens (m.after.controllers k).session = [] := by
      by_cases hk : k ∈ m.before.ids
      · exact (hlearns.follows.cleared hlabel k hk).pending
      · by_cases hk' : k ∈ m.after.ids
        · exact absurd (clear_ids hv hlabel ▸ hk') hk
        · exact hafter.2 k hk'
    have hrest := runs_balance (Runs.cut h).2.2 hafter
      (fun m' hm' => hfresh m' (by simp [hm'])) k
    unfold Balanced at hrest
    rw [hnone, List.nil_append] at hrest
    exact hrest

end

attribute [local instance] scalarText byteCodec

/-- A client that commits a candidate, whose learning then waits. -/
def stagingCalls (sessionID : Text) (ownerFd : Int) : List RegistryCall :=
  [.handle sessionID ownerFd (.insertText ['a']) ['1'] none,
    .handle sessionID ownerFd .startConversion ['2'] none,
    .handle sessionID ownerFd .commitSelected ['3'] none]

/-- A disconnected client's learning is discarded. -/
theorem learning_follows_removal_disconnect :
    let e := evaluateRegistry (.make 2 1 1800)
      ([openFor 1] ++ stagingCalls (decimal 1) 1 ++ [.closeAll 1])
    e.2.2.ids = [] ∧ ((callsIn (decimal 1) (callTrace e.1)).filterMap resolution).length = 1 ∧
      ∀ m ∈ e.1, FollowsRemoval m := by
  have hall := learning_follows_removal (evaluateRegistry_run (.make 2 1 1800)
    ([openFor 1] ++ stagingCalls (decimal 1) 1 ++ [.closeAll 1]))
    (by unfold UniqueIDs; decide +kernel)
  exact ⟨by decide +kernel, by decide +kernel, hall.1⟩

end Hazkey
