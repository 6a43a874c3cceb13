import Hazkey.Registry
import Mathlib.Data.List.Nodup

/-! The bounds of the registry, and what an owner's call may do to the sessions of
another owner. -/

namespace Hazkey

open ServiceProgram

variable {r r' : SessionRegistry} {t : List RegistryEvent}

/-- What is left of the sessions, beside controllers. -/
structure Leaves (r : SessionRegistry) (sessions : List (Text × RegisteredSession))
    (r' : SessionRegistry) : Prop where
  sessions : r'.sessions = sessions
  limits : r'.limits = r.limits
  opened : r'.opened = r.opened

def SessionsKept (r : SessionRegistry) (_ : List RegistryEvent) (r' : SessionRegistry) : Prop :=
  Leaves r r.sessions r'

instance : Prog.Composes SessionsKept where
  refl _ := ⟨rfl, rfl, rfl⟩
  trans _ _ _ _ _ h h' := ⟨h'.sessions.trans h.sessions, h'.limits.trans h.limits,
    h'.opened.trans h.opened⟩

theorem Leaves.trans {r₁ : SessionRegistry} {l l' : List (Text × RegisteredSession)}
    (h : Leaves r l r₁) (h' : Leaves r₁ l' r') : Leaves r l' r' :=
  ⟨h'.sessions, h'.limits.trans h.limits, h'.opened.trans h.opened⟩

instance {α : Type} (sessionID : Text) (p : ReducerM α) :
    Prog.Frames SessionsKept (onController sessionID p) where
  frame := by
    intro r t a r' hY
    obtain ⟨-, -, -, hr'⟩ := Prog.yields_on hY
    rw [hr']
    exact ⟨rfl, rfl, rfl⟩

theorem sessionsKept_ask (c : RegistryRequest) :
    @Prog.Frames _ _ c.Answer SessionsKept (Prog.ask (I := registryPort) c) :=
  Prog.frames_ask fun _ _ => ⟨rfl, rfl, rfl⟩

instance : Prog.Frames SessionsKept now := sessionsKept_ask _

instance (sessionID : Text) : Prog.Frames SessionsKept (closeEnvironment sessionID) :=
  sessionsKept_ask _

instance (sessionID : Text) : Prog.Frames SessionsKept (clearProfileLearningData sessionID) :=
  sessionsKept_ask _

instance (sessionID : Text) : Prog.Frames SessionsKept (reinitializeConfiguration sessionID) :=
  sessionsKept_ask _

instance (sessionID : Text) : Prog.Frames SessionsKept (replaceUserDictionary sessionID) :=
  sessionsKept_ask _

instance : Prog.Frames SessionsKept clearIdleLearningData := sessionsKept_ask _

instance : Prog.Frames SessionsKept recordLearningCommit := sessionsKept_ask _

instance : Prog.Frames SessionsKept mutateConfiguration := sessionsKept_ask _

instance : Prog.Frames SessionsKept mutateUserDictionary := sessionsKept_ask _

instance (sessionID : Text) : Prog.Frames SessionsKept (refreshPolicy sessionID) :=
  sessionsKept_ask _

instance frames_forSessions {R : SessionRegistry → List RegistryEvent → SessionRegistry → Prop}
    [Prog.Composes R] (f : Text → RegistryM Unit) [hf : ∀ x, Prog.Frames R (f x)]
    (xs : List (Text × RegisteredSession)) : Prog.Frames R (forSessions f xs) := by
  induction xs with
  | nil => exact Prog.frames_pure ()
  | cons x xs ih =>
    unfold forSessions
    infer_instance

/-! Removal. -/

theorem removeSession_leaves {reason : HazkeySessionRemovalReason} {sessionID : Text} {a : Unit}
    (h : (removeSession reason sessionID).Yields r t a r') :
    Leaves r (r.sessions.filter fun x => x.1 ≠ sessionID) r' := by
  rw [removeSession, Prog.yields_read_bind, Prog.yields_when, Prog.yields_modify_bind] at h
  rcases h with ⟨-, h⟩ | ⟨hnone, rfl, -, rfl⟩
  · have hrest := Prog.Frames.frame (R := SessionsKept) _ _ _ _ h
    exact ⟨hrest.sessions, hrest.limits, hrest.opened⟩
  · have hlookup : r'.sessions.lookup sessionID = none := not_not.mp hnone
    refine ⟨(List.filter_eq_self.mpr fun x hx => ?_).symm, rfl, rfl⟩
    have hne := bne_iff_ne.mp (List.lookup_eq_none_iff.mp hlookup x hx)
    exact decide_eq_true hne.symm

theorem removeSessions_leaves {reason : HazkeySessionRemovalReason}
    {xs : List (Text × RegisteredSession)} {a : Unit}
    (h : (forSessions (removeSession reason) xs).Yields r t a r') :
    Leaves r (r.sessions.filter fun x => x.1 ∉ xs.map (·.1)) r' := by
  induction xs generalizing r t with
  | nil =>
    obtain ⟨rfl, -, rfl⟩ := h
    exact ⟨by simp, rfl, rfl⟩
  | cons y ys ih =>
    obtain ⟨t₁, t₂, b, u, rfl, hfirst, hrest⟩ := Prog.yields_bind.mp h
    have hu := removeSession_leaves hfirst
    have hr' := ih hrest
    refine ⟨?_, hr'.limits.trans hu.limits, hr'.opened.trans hu.opened⟩
    rw [hr'.sessions, hu.sessions, List.filter_filter]
    refine List.filter_congr fun x _ => ?_
    by_cases hy : x.1 = y.1 <;> simp [hy]

/-- A session is removed with all that share its id: there is none. -/
theorem filter_ids {sessions : List (Text × RegisteredSession)}
    (hn : (sessions.map (·.1)).Nodup) (p : Text × RegisteredSession → Bool) :
    (sessions.filter fun x => x.1 ∉ (sessions.filter p).map (·.1)) =
      sessions.filter fun x => !p x := by
  refine List.filter_congr fun x hx => ?_
  by_cases hp : p x = true
  · have hmem : x.1 ∈ (sessions.filter p).map (·.1) :=
      List.mem_map_of_mem (List.mem_filter.mpr ⟨hx, hp⟩)
    simp [hp, hmem]
  · have hmem : x.1 ∉ (sessions.filter p).map (·.1) := by
      intro hmem
      obtain ⟨y, hy, hxy⟩ := List.mem_map.mp hmem
      have hy := List.mem_filter.mp hy
      have heq : y = x := List.inj_on_of_nodup_map hn hy.1 hx hxy
      exact hp (heq ▸ hy.2)
    simp [hp, hmem]

def SessionRegistry.pruned (r : SessionRegistry) (time : Date) :
    List (Text × RegisteredSession) :=
  r.sessions.filter fun x => !decide (x.2.lastAccess < time - r.limits.idleTimeout)

theorem pruneExpiredSessions_leaves (hn : (r.sessions.map (·.1)).Nodup) {a : Unit}
    (h : pruneExpiredSessions.Yields r t a r') :
    ∃ (time : Date) (rest : List RegistryEvent), t = ⟨r, .now, time⟩ :: rest ∧
      Leaves r (r.pruned time) r' := by
  rw [pruneExpiredSessions, now, Prog.yields_ask_bind] at h
  obtain ⟨time, rest, rfl, hprune⟩ := h
  have hrest := removeSessions_leaves (Prog.yields_read_bind.mp hprune)
  refine ⟨time, rest, rfl, ?_, hrest.limits, hrest.opened⟩
  rw [hrest.sessions]
  exact filter_ids hn _

/-! The session that was used last. -/

theorem precedes_lastAccess {x y : Text × RegisteredSession} (h : precedes x y = true) :
    x.2.lastAccess ≤ y.2.lastAccess := by
  unfold precedes at h
  split at h
  · rename_i he
    exact he.le
  · exact (of_decide_eq_true h).le

theorem not_precedes_lastAccess {x y : Text × RegisteredSession} (h : ¬ precedes x y = true) :
    y.2.lastAccess ≤ x.2.lastAccess := by
  unfold precedes at h
  split at h
  · rename_i he
    exact he.ge
  · exact not_lt.mp fun hlt => h (decide_eq_true hlt)

theorem leastRecentlyUsed_spec {xs : List (Text × RegisteredSession)}
    {x : Text × RegisteredSession} (h : leastRecentlyUsed xs = some x) :
    x ∈ xs ∧ ∀ y ∈ xs, x.2.lastAccess ≤ y.2.lastAccess := by
  induction xs generalizing x with
  | nil => cases h
  | cons z zs ih =>
    unfold leastRecentlyUsed at h
    cases hz : leastRecentlyUsed zs with
    | none =>
      rw [hz] at h
      obtain rfl := Option.some.inj h
      have hnil : zs = [] := by
        cases zs with
        | nil => rfl
        | cons w ws =>
          unfold leastRecentlyUsed at hz
          split at hz
          · cases hz
          · split at hz <;> cases hz
      simp [hnil]
    | some w =>
      obtain ⟨hw, hleast⟩ := ih hz
      rw [hz] at h
      dsimp only at h
      split at h
      · rename_i hp
        obtain rfl := Option.some.inj h
        refine ⟨List.mem_cons_of_mem _ hw, ?_⟩
        intro y hy
        rcases List.mem_cons.mp hy with rfl | hy
        · exact precedes_lastAccess hp
        · exact hleast y hy
      · rename_i hp
        obtain rfl := Option.some.inj h
        refine ⟨List.mem_cons_self .., ?_⟩
        intro y hy
        rcases List.mem_cons.mp hy with rfl | hy
        · exact le_rfl
        · exact (not_precedes_lastAccess hp).trans (hleast y hy)

theorem leastRecentlyUsed_none {xs : List (Text × RegisteredSession)}
    (h : leastRecentlyUsed xs = none) : xs = [] := by
  cases xs with
  | nil => rfl
  | cons x xs =>
    unfold leastRecentlyUsed at h
    split at h
    · cases h
    · split at h <;> cases h

/-! The invariant. -/

structure Bounded (r : SessionRegistry) : Prop where
  nodup : (r.sessions.map (·.1)).Nodup
  total : r.sessions.length ≤ r.limits.maximumSessions
  owner : ∀ f, (r.owned f).length ≤ r.limits.maximumSessionsPerOwner
  known : ∀ x ∈ r.sessions, x.1 ∈ r.opened

theorem Leaves.bounded {l : List (Text × RegisteredSession)} (h : Leaves r l r')
    (hl : l.Sublist r.sessions) (hr : Bounded r) : Bounded r' where
  nodup := h.sessions ▸ hr.nodup.sublist (hl.map _)
  total := by
    rw [h.sessions, h.limits]
    exact hl.length_le.trans hr.total
  owner f := by
    unfold SessionRegistry.owned
    rw [h.sessions, h.limits]
    exact (hl.filter _).length_le.trans (hr.owner f)
  known x hx := by
    rw [h.sessions] at hx
    rw [h.opened]
    exact hr.known x (hl.subset hx)

theorem pruned_sublist (r : SessionRegistry) (time : Date) :
    (r.pruned time).Sublist r.sessions := List.filter_sublist

/-- One session less, of the owner's. -/
theorem length_filter_id {sessions : List (Text × RegisteredSession)}
    (hn : (sessions.map (·.1)).Nodup) {x : Text × RegisteredSession} (hx : x ∈ sessions) :
    (sessions.filter fun y => y.1 ≠ x.1).length + 1 = sessions.length := by
  induction sessions with
  | nil => cases hx
  | cons y ys ih =>
    have hnodup := List.nodup_cons.mp hn
    by_cases he : y.1 = x.1
    · have hrest : (ys.filter fun z => z.1 ≠ x.1) = ys := by
        refine List.filter_eq_self.mpr fun z hz => ?_
        have hne : z.1 ≠ x.1 := by
          intro hzx
          apply hnodup.1
          show y.1 ∈ ys.map (·.1)
          rw [he, ← hzx]
          exact List.mem_map_of_mem hz
        exact decide_eq_true hne
      rw [List.filter_cons_of_neg (by simp [he]), hrest, List.length_cons]
    · have hmem : x ∈ ys := by
        rcases List.mem_cons.mp hx with rfl | hx
        · exact absurd rfl he
        · exact hx
      rw [List.filter_cons_of_pos (by simp [he]), List.length_cons, List.length_cons,
        ih hnodup.2 hmem]

theorem owned_filter (r : SessionRegistry) (f : Int) (sessionID : Text) :
    ((r.removing sessionID).owned f) = (r.owned f).filter fun y => y.1 ≠ sessionID := by
  simp only [SessionRegistry.owned, SessionRegistry.removing, SessionRegistry.withSessions,
    List.filter_filter, Bool.and_comm]

/-- The owner's least recently used session is gone, and no other. -/
structure Evicted (f : Int) (r : SessionRegistry) (x : Text × RegisteredSession)
    (r' : SessionRegistry) : Prop where
  leaves : Leaves r (r.sessions.filter fun y => y.1 ≠ x.1) r'
  mem : x ∈ r.owned f
  least : ∀ y ∈ r.owned f, x.2.lastAccess ≤ y.2.lastAccess

theorem Evicted.length {f : Int} {x : Text × RegisteredSession} (h : Evicted f r x r')
    (hr : Bounded r) : r'.sessions.length + 1 = r.sessions.length := by
  rw [h.leaves.sessions]
  exact length_filter_id hr.nodup (List.mem_filter.mp h.mem).1

theorem Evicted.owned {f : Int} {x : Text × RegisteredSession} (h : Evicted f r x r')
    (hr : Bounded r) : (r'.owned f).length + 1 = (r.owned f).length := by
  have hn : ((r.owned f).map (·.1)).Nodup := hr.nodup.sublist (List.filter_sublist.map _)
  have hlength := length_filter_id hn h.mem
  rw [← owned_filter] at hlength
  unfold SessionRegistry.owned at hlength ⊢
  rw [h.leaves.sessions]
  exact hlength

theorem Evicted.bounded {f : Int} {x : Text × RegisteredSession} (h : Evicted f r x r')
    (hr : Bounded r) : Bounded r' := h.leaves.bounded List.filter_sublist hr

theorem evict_evicted {f : Int} {x : Text × RegisteredSession}
    (hx : leastRecentlyUsed (r.owned f) = some x) {a : Unit}
    (h : (removeSession .capacityEviction x.1).Yields r t a r') : Evicted f r x r' :=
  ⟨removeSession_leaves h, (leastRecentlyUsed_spec hx).1, (leastRecentlyUsed_spec hx).2⟩

/-- The bound of an owner makes room for one session. -/
theorem evictOwned_spec {f : Int} {fuel : Nat} {a : Unit} (hr : Bounded r)
    (h : (evictOwned f fuel).Yields r t a r') (hfuel : (r.owned f).length ≤ fuel) :
    (r'.owned f).length < r'.limits.maximumSessionsPerOwner ∧
      (SessionsKept r t r' ∨ ∃ x, Evicted f r x r') := by
  have hpos := r.limits.perOwner_pos
  cases fuel with
  | zero =>
    obtain ⟨rfl, -, rfl⟩ := h
    exact ⟨by omega, .inl (Prog.Composes.refl _)⟩
  | succ fuel =>
    rw [evictOwned, Prog.yields_read_bind, Prog.yields_when] at h
    rcases h with ⟨hfull, h⟩ | ⟨hroom, rfl, -, rfl⟩
    · cases hleast : leastRecentlyUsed (r.owned f) with
      | none =>
        have hnil := leastRecentlyUsed_none hleast
        rw [hnil, List.length_nil] at hfull
        omega
      | some x =>
        simp only [hleast] at h
        obtain ⟨t₁, t₂, b, u, rfl, hremove, hrest⟩ := Prog.yields_bind.mp h
        have he := evict_evicted hleast hremove
        have hroom : (u.owned f).length < u.limits.maximumSessionsPerOwner := by
          have hlength := he.owned hr
          have hbound := hr.owner f
          rw [he.leaves.limits]
          omega
        have hstop : r' = u := by
          cases fuel with
          | zero => exact hrest.2.2
          | succ fuel =>
            rw [evictOwned, Prog.yields_read_bind, Prog.yields_when] at hrest
            rcases hrest with ⟨hfull, -⟩ | ⟨-, -, -, rfl⟩
            · omega
            · rfl
        rw [hstop]
        exact ⟨hroom, .inr ⟨x, he⟩⟩
    · exact ⟨by omega, .inl (Prog.Composes.refl _)⟩

/-- What the bound of the registry leaves: room, or a full registry where the owner
has nothing. -/
theorem evictRegistered_spec {f : Int} {fuel : Nat} {roomy : Bool} (hr : Bounded r)
    (h : (evictRegistered f fuel).Yields r t roomy r') (hfuel : r.sessions.length ≤ fuel) :
    (roomy = true ∧ r'.sessions.length < r'.limits.maximumSessions ∧
        (SessionsKept r t r' ∨
          r.limits.maximumSessions ≤ r.sessions.length ∧ ∃ x, Evicted f r x r')) ∨
      (roomy = false ∧ SessionsKept r t r' ∧ r.limits.maximumSessions ≤ r.sessions.length ∧
        r.owned f = []) := by
  have hpos := r.limits.perOwner_pos.trans r.limits.perOwner_le
  cases fuel with
  | zero =>
    obtain ⟨rfl, rfl, rfl⟩ := h
    exact .inl ⟨rfl, by omega, .inl (Prog.Composes.refl _)⟩
  | succ fuel =>
    rw [evictRegistered, Prog.yields_read_bind, Prog.yields_ite] at h
    rcases h with ⟨hfull, h⟩ | ⟨hroom, rfl, rfl, rfl⟩
    · cases hleast : leastRecentlyUsed (r.owned f) with
      | none =>
        simp only [hleast] at h
        obtain ⟨rfl, rfl, rfl⟩ := h
        exact .inr ⟨rfl, Prog.Composes.refl _, hfull, leastRecentlyUsed_none hleast⟩
      | some x =>
        simp only [hleast] at h
        obtain ⟨t₁, t₂, b, u, rfl, hremove, hrest⟩ := Prog.yields_bind.mp h
        have he := evict_evicted hleast hremove
        have hroom : u.sessions.length < u.limits.maximumSessions := by
          have hlength := he.length hr
          have hbound := hr.total
          rw [he.leaves.limits]
          omega
        have hstop : roomy = true ∧ r' = u := by
          cases fuel with
          | zero => exact hrest.2
          | succ fuel =>
            rw [evictRegistered, Prog.yields_read_bind, Prog.yields_ite] at hrest
            rcases hrest with ⟨hfull, -⟩ | ⟨-, -, rfl, rfl⟩
            · omega
            · exact ⟨rfl, rfl⟩
        obtain ⟨rfl, rfl⟩ := hstop
        exact .inl ⟨rfl, hroom, .inr ⟨hfull, x, he⟩⟩
    · exact .inl ⟨rfl, by omega, .inl (Prog.Composes.refl _)⟩

/-! Opening. -/

/-- The id of a new session was never given before. -/
def DrawsFresh : RegistryEvent → Prop
  | ⟨r, .uuid, sessionID⟩ => sessionID ∉ r.opened
  | _ => True

/-- The idle timeout of the session had passed when the call began. -/
def Lapsed (r : SessionRegistry) (t : List RegistryEvent) (x : Text × RegisteredSession) : Prop :=
  ∃ (time : Date) (rest : List RegistryEvent), t = ⟨r, .now, time⟩ :: rest ∧
    x.2.lastAccess < time - r.limits.idleTimeout

theorem lapsed_of_pruned {time : Date} {rest : List RegistryEvent} {x : Text × RegisteredSession}
    (hx : x ∈ r.sessions) (hp : x ∉ r.pruned time) : Lapsed r (⟨r, .now, time⟩ :: rest) x := by
  refine ⟨time, rest, rfl, ?_⟩
  by_contra hlt
  exact hp (List.mem_filter.mpr ⟨hx, by simp [hlt]⟩)

/-- How an attempt to open ends: expired sessions go first, then at most one of the
owner's own. -/
inductive OpenAttempt (f : Int) (context : GrimodexClientContext) (r : SessionRegistry)
    (t : List RegistryEvent) : Except HazkeySessionOpenError Text → SessionRegistry → Prop
  | refused {r' : SessionRegistry} {time : Date} {rest : List RegistryEvent}
      (ht : t = ⟨r, .now, time⟩ :: rest) (hleaves : Leaves r (r.pruned time) r')
      (hfull : r'.limits.maximumSessions ≤ r'.sessions.length) (howned : r'.owned f = []) :
      OpenAttempt f context r t (.error .resourceExhausted) r'
  | opened {r₀ r₁ : SessionRegistry} {time : Date} {rest : List RegistryEvent}
      (ht : t = ⟨r, .now, time⟩ :: rest) (hleaves : Leaves r (r.pruned time) r₀)
      (hevict : Leaves r₀ r₀.sessions r₁ ∨ ∃ x, Evicted f r₀ x r₁)
      (htotal : r₁.sessions.length < r₁.limits.maximumSessions)
      (howner : (r₁.owned f).length < r₁.limits.maximumSessionsPerOwner)
      {sessionID : Text} (huuid : ⟨r₁, .uuid, sessionID⟩ ∈ t) {clientFeatureBits : UInt64}
      {reducer : ImeReducer} {lastAccess : Date} :
      OpenAttempt f context r t (.ok sessionID)
        (r₁.opening sessionID ⟨f, context, clientFeatureBits, lastAccess⟩ reducer)

theorem attemptOpen_spec {f : Int} {context : GrimodexClientContext} {clientFeatureBits : UInt64}
    {result : Except HazkeySessionOpenError Text} (hr : Bounded r)
    (h : (attemptOpen context f clientFeatureBits).Yields r t result r') :
    OpenAttempt f context r t result r' := by
  obtain ⟨t₁, t₂, a, r₀, rfl, hprune, hevict⟩ := Prog.yields_bind.mp h
  obtain ⟨time, rest, rfl, hr₀⟩ := pruneExpiredSessions_leaves hr.nodup hprune
  have hb₀ := hr₀.bounded (pruned_sublist r time) hr
  rw [Prog.yields_read_bind] at hevict
  obtain ⟨t₃, t₄, b, r₁, rfl, howned, hroom⟩ := Prog.yields_bind.mp hevict
  obtain ⟨howner, hfirst⟩ := evictOwned_spec hb₀ howned (List.length_filter_le ..)
  have hb₁ : Bounded r₁ := by
    rcases hfirst with hsame | ⟨x, hx⟩
    · exact hsame.bounded (List.Sublist.refl _) hb₀
    · exact hx.bounded hb₀
  rw [Prog.yields_read_bind] at hroom
  obtain ⟨t₅, t₆, roomy, r₂, rfl, hregistered, hopen⟩ := Prog.yields_bind.mp hroom
  rw [Prog.yields_ite] at hopen
  rcases evictRegistered_spec hb₁ hregistered le_rfl with
    ⟨rfl, htotal, hsecond⟩ | ⟨rfl, hsame, hfull, hnone⟩
  · have howner₂ : (r₂.owned f).length < r₂.limits.maximumSessionsPerOwner := by
      rcases hsecond with hsame | ⟨-, x, hx⟩
      · unfold SessionRegistry.owned at howner ⊢
        rwa [hsame.sessions, hsame.limits]
      · have hlength := hx.owned hb₁
        rw [hx.leaves.limits]
        omega
    have hone : Leaves r₀ r₀.sessions r₂ ∨ ∃ x, Evicted f r₀ x r₂ := by
      rcases hfirst with hsame₁ | ⟨x, hx⟩
      · rcases hsecond with hsame₂ | ⟨-, x, hx⟩
        · exact .inl (Prog.Composes.trans (R := SessionsKept) _ t₃ _ t₅ _ hsame₁ hsame₂)
        · refine .inr ⟨x, ⟨?_, ?_, ?_⟩⟩
          · have hleaves := hsame₁.trans hx.leaves
            rwa [hsame₁.sessions] at hleaves
          · have hmem := hx.mem
            rwa [SessionRegistry.owned, hsame₁.sessions] at hmem
          · have hleast := hx.least
            rwa [SessionRegistry.owned, hsame₁.sessions] at hleast
      · have hlength := hx.length hb₀
        have hbound := hb₀.total
        have hlimits := hx.leaves.limits
        rcases hsecond with hsame₂ | ⟨hfull, -⟩
        · refine .inr ⟨x, ⟨?_, hx.mem, hx.least⟩⟩
          have hleaves := hx.leaves.trans hsame₂
          rwa [hx.leaves.sessions] at hleaves
        · rw [hlimits] at hfull
          omega
    rcases hopen with ⟨-, hopen⟩ | ⟨hfalse, -⟩
    · rw [uuid, Prog.yields_ask_bind] at hopen
      obtain ⟨sessionID, t₇, rfl, hopen⟩ := hopen
      rw [openEnvironment, Prog.yields_ask_bind] at hopen
      obtain ⟨policy, t₈, rfl, hopen⟩ := hopen
      rw [now, Prog.yields_ask_bind] at hopen
      obtain ⟨lastAccess, t₉, rfl, hopen⟩ := hopen
      rw [Prog.yields_modify_bind] at hopen
      obtain ⟨rfl, rfl, rfl⟩ := hopen
      exact .opened rfl hr₀ hone htotal howner₂ (by simp)
    · exact absurd rfl hfalse
  · rcases hopen with ⟨hfalse, -⟩ | ⟨-, rfl, rfl, rfl⟩
    · cases hfalse
    · have hsame₁ : Leaves r₀ r₀.sessions r₁ := by
        rcases hfirst with hsame₁ | ⟨x, hx⟩
        · exact hsame₁
        · have hlength := hx.length hb₀
          have hbound := hb₀.total
          rw [hx.leaves.limits] at hfull
          omega
      have hleaves := (hr₀.trans hsame₁).trans hsame
      rw [hsame₁.sessions, hr₀.sessions] at hleaves
      refine .refused rfl hleaves ?_ ?_
      · rwa [hsame.limits, hsame.sessions]
      · rwa [SessionRegistry.owned, hsame.sessions]

/-! Looking up. -/

theorem touching_ids (r : SessionRegistry) (sessionID : Text) (time : Date) :
    (r.touching sessionID time).sessions.map (·.1) = r.sessions.map (·.1) := by
  simp only [SessionRegistry.touching, SessionRegistry.withSessions, List.map_map]
  refine List.map_congr_left fun x _ => ?_
  simp only [Function.comp_apply]
  split <;> rfl

theorem Bounded.touching (hr : Bounded r) (sessionID : Text) (time : Date) :
    Bounded (r.touching sessionID time) where
  nodup := touching_ids r sessionID time ▸ hr.nodup
  total := by
    have hlength := congrArg List.length (touching_ids r sessionID time)
    simp only [List.length_map] at hlength
    rw [hlength]
    exact hr.total
  owner f := by
    have howned : (r.touching sessionID time).owned f =
        (r.owned f).map fun x =>
          if x.1 = sessionID then (x.1, { x.2 with lastAccess := time }) else x := by
      simp only [SessionRegistry.owned, SessionRegistry.touching, SessionRegistry.withSessions,
        List.filter_map]
      refine congrArg (List.map _) (List.filter_congr fun x _ => ?_)
      simp only [Function.comp_apply]
      split <;> rfl
    rw [howned, List.length_map]
    exact hr.owner f
  known x hx := by
    have hmem : x.1 ∈ (r.touching sessionID time).sessions.map (·.1) := List.mem_map_of_mem hx
    rw [touching_ids] at hmem
    obtain ⟨y, hy, hxy⟩ := List.mem_map.mp hmem
    exact hxy ▸ hr.known y hy

/-- Only the session that is looked up is marked. -/
theorem mem_touching {sessionID : Text} {time : Date} {x : Text × RegisteredSession}
    (hx : x ∈ r.sessions) (hne : x.1 ≠ sessionID) : x ∈ (r.touching sessionID time).sessions :=
  List.mem_map.mpr ⟨x, hx, if_neg hne⟩

theorem Bounded.eq_of_id (hr : Bounded r) {x y : Text × RegisteredSession} (hx : x ∈ r.sessions)
    (hy : y ∈ r.sessions) (h : x.1 = y.1) : x = y :=
  List.inj_on_of_nodup_map hr.nodup hx hy h

theorem mem_of_session {sessionID : Text} {x : RegisteredSession}
    (h : r.session sessionID = some x) : (sessionID, x) ∈ r.sessions := by
  obtain ⟨l₁, l₂, he, -⟩ := List.lookup_eq_some_iff.mp h
  simp [he]

/-- What a call of an owner leaves to the others, and keeps of the bounds. -/
structure Tends (f : Int) (r : SessionRegistry) (t : List RegistryEvent) (r' : SessionRegistry) :
    Prop where
  bounded : Bounded r'
  foreign : ∀ x ∈ r.sessions, x.2.ownerFd ≠ f → x ∈ r'.sessions ∨ Lapsed r t x

theorem Leaves.tends {l : List (Text × RegisteredSession)} (h : Leaves r l r')
    (hl : l.Sublist r.sessions) (hr : Bounded r) {f : Int}
    (hf : ∀ x ∈ r.sessions, x.2.ownerFd ≠ f → x ∈ l ∨ Lapsed r t x) : Tends f r t r' :=
  ⟨h.bounded hl hr, fun x hx hne => h.sessions.symm ▸ hf x hx hne⟩

theorem tends_pruned {f : Int} {time : Date} {rest : List RegistryEvent}
    (h : Leaves r (r.pruned time) r') (hr : Bounded r) :
    Tends f r (⟨r, .now, time⟩ :: rest) r' := by
  refine h.tends (pruned_sublist r time) hr ?_
  intro x hx _
  by_cases hp : x ∈ r.pruned time
  · exact .inl hp
  · exact .inr (lapsed_of_pruned hx hp)

/-- What marks a session of the owner after the expired ones are gone. -/
theorem tends_touched {f : Int} {time : Date} {rest : List RegistryEvent}
    (h : Leaves r (r.pruned time) r') (hr : Bounded r) {sessionID : Text} {x : RegisteredSession}
    (hx : r'.session sessionID = some x) (howner : x.ownerFd = f) (lastAccess : Date) :
    Tends f r (⟨r, .now, time⟩ :: rest) (r'.touching sessionID lastAccess) := by
  have hpruned : Tends f r (⟨r, .now, time⟩ :: rest) r' := tends_pruned h hr
  refine ⟨hpruned.bounded.touching _ _, ?_⟩
  intro y hy hne
  rcases hpruned.foreign y hy hne with hmem | hlapsed
  · refine .inl (mem_touching hmem ?_)
    intro he
    have heq := hpruned.bounded.eq_of_id hmem (mem_of_session hx) he
    exact hne (heq ▸ howner)
  · exact .inr hlapsed

theorem access_spec {sessionID : Text} {f : Int} {x : Option RegisteredSession} (hr : Bounded r)
    (h : (access sessionID f).Yields r t x r') :
    Tends f r t r' ∧ ∀ y, x = some y → (sessionID, y) ∈ r.sessions ∧ y.ownerFd = f := by
  obtain ⟨t₁, t₂, a, r₀, rfl, hprune, hlook⟩ := Prog.yields_bind.mp h
  obtain ⟨time, rest, rfl, hr₀⟩ := pruneExpiredSessions_leaves hr.nodup hprune
  rw [Prog.yields_read_bind] at hlook
  cases hfound : (r₀.session sessionID).filter fun x => x.ownerFd = f with
  | none =>
    simp only [hfound] at hlook
    obtain ⟨rfl, rfl, rfl⟩ := hlook
    exact ⟨tends_pruned hr₀ hr, by simp⟩
  | some y =>
    simp only [hfound] at hlook
    rw [now, Prog.yields_ask_bind] at hlook
    obtain ⟨lastAccess, rest', rfl, hlook⟩ := hlook
    rw [Prog.yields_modify_bind] at hlook
    obtain ⟨rfl, rfl, rfl⟩ := hlook
    obtain ⟨hy, howner⟩ := Option.filter_eq_some_iff.mp hfound
    have howner : y.ownerFd = f := of_decide_eq_true howner
    refine ⟨tends_touched hr₀ hr hy howner _, ?_⟩
    rintro z ⟨⟩
    have hmem := mem_of_session hy
    rw [hr₀.sessions] at hmem
    exact ⟨(pruned_sublist r time).subset hmem, howner⟩

theorem environment_spec {sessionID : Text} {f : Int} {x : Option Text} (hr : Bounded r)
    (h : (environment sessionID f).Yields r t x r') :
    Tends f r t r' ∧ ∀ y, x = some y → ∃ s, (y, s) ∈ r.sessions ∧ s.ownerFd = f := by
  obtain ⟨t₁, t₂, a, r₀, rfl, hprune, hlook⟩ := Prog.yields_bind.mp h
  obtain ⟨time, rest, rfl, hr₀⟩ := pruneExpiredSessions_leaves hr.nodup hprune
  rw [Prog.yields_read_bind] at hlook
  cases hfound : (if sessionID = [] then none else r₀.session sessionID) with
  | none =>
    simp only [hfound] at hlook
    obtain ⟨rfl, rfl, rfl⟩ := hlook
    exact ⟨tends_pruned hr₀ hr, by simp⟩
  | some y =>
    have hy : r₀.session sessionID = some y := by
      by_cases he : sessionID = []
      · rw [if_pos he] at hfound
        cases hfound
      · rwa [if_neg he] at hfound
    simp only [hfound] at hlook
    rw [Prog.yields_ite] at hlook
    rcases hlook with ⟨howner, hlook⟩ | ⟨-, rfl, rfl, rfl⟩
    · rw [now, Prog.yields_ask_bind] at hlook
      obtain ⟨lastAccess, rest', rfl, hlook⟩ := hlook
      rw [Prog.yields_modify_bind] at hlook
      obtain ⟨rfl, rfl, rfl⟩ := hlook
      refine ⟨tends_touched hr₀ hr hy howner _, ?_⟩
      rintro z ⟨⟩
      have hmem := mem_of_session hy
      rw [hr₀.sessions] at hmem
      exact ⟨y, (pruned_sublist r time).subset hmem, howner⟩
    · exact ⟨tends_pruned hr₀ hr, by simp⟩

theorem close_tends {sessionID : Text} {f : Int} {found : Bool} (hr : Bounded r)
    (h : (close sessionID f).Yields r t found r') : Tends f r t r' := by
  rw [close, Prog.yields_read_bind] at h
  cases hfound : (r.session sessionID).filter fun x => x.ownerFd = f with
  | none =>
    simp only [hfound] at h
    obtain ⟨rfl, rfl, rfl⟩ := h
    exact ⟨hr, fun x hx _ => .inl hx⟩
  | some y =>
    simp only [hfound] at h
    obtain ⟨t₁, t₂, a, u, rfl, hremove, rfl, rfl, rfl⟩ := Prog.yields_bind.mp h
    obtain ⟨hy, howner⟩ := Option.filter_eq_some_iff.mp hfound
    have howner : y.ownerFd = f := of_decide_eq_true howner
    refine (removeSession_leaves hremove).tends List.filter_sublist hr ?_
    intro x hx hne
    refine .inl (List.mem_filter.mpr ⟨hx, decide_eq_true ?_⟩)
    intro he
    have heq := hr.eq_of_id hx (mem_of_session hy) he
    exact hne (heq ▸ howner)

theorem closeAll_tends {f : Int} {a : Unit} (hr : Bounded r)
    (h : (closeAll f).Yields r t a r') : Tends f r t r' := by
  rw [closeAll, Prog.yields_read_bind] at h
  refine (removeSessions_leaves h).tends List.filter_sublist hr ?_
  intro x hx hne
  refine .inl (List.mem_filter.mpr ⟨hx, decide_eq_true ?_⟩)
  intro hmem
  obtain ⟨y, hy, hxy⟩ := List.mem_map.mp hmem
  obtain ⟨hy, howner⟩ := List.mem_filter.mp hy
  have heq := hr.eq_of_id hx hy hxy.symm
  exact hne (heq ▸ of_decide_eq_true howner)

/-! Programs that only look up, mark and remove. -/

/-- The relations met by marking a session, and by every removal that commits. -/
class Sweeps (R : SessionRegistry → List RegistryEvent → SessionRegistry → Prop) : Prop
    extends Prog.Composes R where
  now : Prog.Frames R now
  touch : ∀ sessionID time,
    Prog.Frames R (Prog.modify (·.touching sessionID time) : RegistryM Unit)
  remove : ∀ reason : HazkeySessionRemovalReason, reason.commitsPendingLearning = true →
    ∀ sessionID, Prog.Frames R (removeSession reason sessionID)

section

variable {R : SessionRegistry → List RegistryEvent → SessionRegistry → Prop} [h : Sweeps R]

instance : Prog.Frames R now := h.now

instance (sessionID : Text) (time : Date) :
    Prog.Frames R (Prog.modify (·.touching sessionID time) : RegistryM Unit) := h.touch _ _

instance (sessionID : Text) : Prog.Frames R (removeSession .explicitClose sessionID) :=
  h.remove _ rfl _

instance (sessionID : Text) : Prog.Frames R (removeSession .capacityEviction sessionID) :=
  h.remove _ rfl _

instance (sessionID : Text) : Prog.Frames R (removeSession .idleTimeout sessionID) :=
  h.remove _ rfl _

instance : Prog.Frames R pruneExpiredSessions := by
  unfold pruneExpiredSessions
  infer_instance

instance (f : Int) (fuel : Nat) : Prog.Frames R (evictOwned f fuel) := by
  induction fuel with
  | zero => exact Prog.frames_pure ()
  | succ fuel ih =>
    unfold evictOwned
    refine .bind inferInstance fun r => ?_
    cases leastRecentlyUsed (r.owned f) with
    | none => infer_instance
    | some x => infer_instance

instance (f : Int) (fuel : Nat) : Prog.Frames R (evictRegistered f fuel) := by
  induction fuel with
  | zero => exact Prog.frames_pure true
  | succ fuel ih =>
    unfold evictRegistered
    refine .bind inferInstance fun r => ?_
    cases leastRecentlyUsed (r.owned f) with
    | none => infer_instance
    | some x => infer_instance

instance (sessionID : Text) (f : Int) : Prog.Frames R (access sessionID f) := by
  unfold access
  refine .bind inferInstance fun _ => .bind inferInstance fun r => ?_
  cases (r.session sessionID).filter fun x => x.ownerFd = f with
  | none => exact Prog.frames_pure none
  | some x => infer_instance

instance (sessionID : Text) (f : Int) : Prog.Frames R (environment sessionID f) := by
  unfold environment
  refine .bind inferInstance fun _ => .bind inferInstance fun r => ?_
  cases (if sessionID = [] then none else r.session sessionID) with
  | none => exact Prog.frames_pure none
  | some x => infer_instance

instance (sessionID : Text) (f : Int) : Prog.Frames R (clientContext sessionID f) := by
  unfold clientContext
  infer_instance

instance (sessionID : Text) (f : Int) : Prog.Frames R (semanticController sessionID f) := by
  unfold semanticController
  infer_instance

instance (sessionID : Text) (f : Int) : Prog.Frames R (close sessionID f) := by
  unfold close
  refine .bind inferInstance fun r => ?_
  cases (r.session sessionID).filter fun x => x.ownerFd = f with
  | none => exact Prog.frames_pure false
  | some x => infer_instance

instance : Prog.Frames R count := by
  unfold count
  infer_instance

instance : Prog.Frames R diagnostics := by
  unfold diagnostics
  infer_instance

end

end Hazkey
