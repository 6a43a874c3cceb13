import Hazkey.Evaluation
import Hazkey.RegistryBounds

/-! Runs of the registry: its bounds hold throughout, and no owner's call reaches the
session of another owner. -/

namespace Hazkey

open ServiceProgram

abbrev RegistryMove := Move RegistryCall registryPort SessionRegistry RegistryAnswer

/-- The owner on whose behalf a method is called. -/
def RegistryCall.ownerFd : RegistryCall → Option Int
  | .attemptOpen _ f _ | .environment _ f | .clientContext _ f | .semanticController _ f
  | .handle _ f _ _ _ | .close _ f | .closeAll f => some f
  | _ => none

/-- What is returned to an owner belongs to that owner; an opened session is new. -/
def Discloses (r : SessionRegistry) (f : Int) : RegistryAnswer → Prop
  | .opened (.ok sessionID) => ∀ x ∈ r.sessions, x.1 ≠ sessionID
  | .environment (some sessionID) | .controller (some sessionID) =>
    ∃ x, (sessionID, x) ∈ r.sessions ∧ x.ownerFd = f
  | .clientContext (some context) =>
    ∃ x ∈ r.sessions, x.2.ownerFd = f ∧ x.2.clientContext = context
  | _ => True

/-- A call of an owner neither returns, nor marks, nor removes a session of another
owner, but for one whose idle timeout has passed. -/
structure Isolates (f : Int) (m : RegistryMove) : Prop where
  foreign : ∀ x ∈ m.before.sessions, x.2.ownerFd ≠ f →
    x ∈ m.after.sessions ∨ Lapsed m.before m.trace x
  answer : Discloses m.before f m.value

/-- An attempt to open fails only when the registry is full and the owner has nothing,
and makes room by removing what the owner used least recently. -/
structure OpensFairly (f : Int) (m : RegistryMove) : Prop where
  refused : ∀ e, m.value = .opened (.error e) →
    m.after.limits.maximumSessions ≤ m.after.sessions.length ∧ m.after.owned f = [] ∧
      ∀ x ∈ m.before.sessions, x ∈ m.after.sessions ∨ Lapsed m.before m.trace x
  evicted : ∀ x ∈ m.before.sessions, x ∉ m.after.sessions → ¬ Lapsed m.before m.trace x →
    x.2.ownerFd = f ∧ ∀ y ∈ m.before.sessions, y.2.ownerFd = f →
      ¬ Lapsed m.before m.trace y →
        x.2.lastAccess ≤ y.2.lastAccess ∧ (y ∉ m.after.sessions → y = x)

/-- What the registry promises of a call. -/
structure KeepsApart (m : RegistryMove) : Prop where
  isolates : ∀ f, m.label.ownerFd = some f → Isolates f m
  fair : ∀ context f bits, m.label = .attemptOpen context f bits → OpensFairly f m

variable {r r' u : SessionRegistry} {t t' : List RegistryEvent} {f : Int}

theorem Tends.then (h : Tends f r t u) (h' : SessionsKept u t' r') : Tends f r (t ++ t') r' where
  bounded := h'.bounded (List.Sublist.refl _) h.bounded
  foreign x hx hne := by
    rcases h.foreign x hx hne with hmem | ⟨time, rest, rfl, hlt⟩
    · exact .inl (h'.sessions ▸ hmem)
    · exact .inr ⟨time, rest ++ t', rfl, hlt⟩

/-! Opening. -/

theorem Bounded.opening (hr : Bounded r) {sessionID : Text} (hnew : sessionID ∉ r.opened)
    {x : RegisteredSession} (htotal : r.sessions.length < r.limits.maximumSessions)
    (howner : (r.owned x.ownerFd).length < r.limits.maximumSessionsPerOwner)
    (reducer : ImeReducer) :
    (r.opening sessionID x reducer).sessions = r.sessions ++ [(sessionID, x)] ∧
      Bounded (r.opening sessionID x reducer) := by
  have hall : ∀ y ∈ r.sessions, y.1 ≠ sessionID := by
    intro y hy he
    exact hnew (he ▸ hr.known y hy)
  have hsessions : (r.opening sessionID x reducer).sessions = r.sessions ++ [(sessionID, x)] := by
    have hfilter : (r.sessions.filter fun y => y.1 ≠ sessionID) = r.sessions :=
      List.filter_eq_self.mpr fun y hy => decide_eq_true (hall y hy)
    show (r.sessions.filter fun y => y.1 ≠ sessionID) ++ [(sessionID, x)] = _
    rw [hfilter]
  refine ⟨hsessions, ?_, ?_, ?_, ?_⟩
  · rw [hsessions, List.map_append]
    refine List.Nodup.append hr.nodup (by simp) ?_
    intro y hy hy'
    obtain ⟨z, hz, rfl⟩ := List.mem_map.mp hy
    exact hall z hz (by simpa using hy')
  · rw [hsessions, List.length_append]
    exact htotal
  · intro g
    show ((r.opening sessionID x reducer).sessions.filter _).length ≤ _
    rw [hsessions, List.filter_append, List.length_append]
    have hg := hr.owner g
    change (r.owned g).length + _ ≤ r.limits.maximumSessionsPerOwner
    by_cases he : x.ownerFd = g
    · rw [he] at howner
      simp [he]
      omega
    · simp [he]
      omega
  · intro y hy
    rw [hsessions] at hy
    rcases List.mem_append.mp hy with hy | hy
    · exact List.mem_cons_of_mem _ (hr.known y hy)
    · obtain rfl := List.mem_singleton.mp hy
      exact List.mem_cons_self ..

theorem Evicted.fate {x y : Text × RegisteredSession} (h : Evicted f r x u) (hr : Bounded r)
    (hy : y ∈ r.sessions) : y ∈ u.sessions ∨ y = x := by
  by_cases he : y.1 = x.1
  · exact .inr (hr.eq_of_id hy (List.mem_filter.mp h.mem).1 he)
  · refine .inl ?_
    rw [h.leaves.sessions]
    exact List.mem_filter.mpr ⟨hy, decide_eq_true he⟩

theorem attemptOpen_rule {context : GrimodexClientContext} {bits : UInt64}
    {result : Except HazkeySessionOpenError Text} (hr : Bounded r)
    (h : OpenAttempt f context r t result r') (hfresh : ∀ e ∈ t, DrawsFresh e) :
    Bounded r' ∧ KeepsApart ⟨.attemptOpen context f bits, r, t, .opened result, r'⟩ := by
  have hlabel : ∀ context' g bits', RegistryCall.attemptOpen context f bits =
      .attemptOpen context' g bits' → g = f := by
    rintro context' g bits' ⟨⟩
    rfl
  cases h with
  | @refused r' time rest ht hleaves hfull howned =>
    subst ht
    have htends : Tends f r (⟨r, .now, time⟩ :: rest) r' := tends_pruned hleaves hr
    have hgone : ∀ x ∈ r.sessions, x ∈ r'.sessions ∨ Lapsed r (⟨r, .now, time⟩ :: rest) x := by
      intro x hx
      by_cases hp : x ∈ r.pruned time
      · exact .inl (hleaves.sessions.symm ▸ hp)
      · exact .inr (lapsed_of_pruned hx hp)
    refine ⟨htends.bounded, ?_, ?_⟩
    · rintro g ⟨⟩
      exact ⟨fun x hx _ => hgone x hx, trivial⟩
    · intro context' g bits' he
      obtain rfl := hlabel context' g bits' he
      refine ⟨fun e _ => ⟨hfull, howned, hgone⟩, ?_⟩
      intro x hx hnot hlapsed
      exact absurd (hgone x hx) (not_or.mpr ⟨hnot, hlapsed⟩)
  | @opened r₀ r₁ time rest ht hleaves hevict htotal howner sessionID huuid bits' reducer last =>
    subst ht
    have hb₀ := hleaves.bounded (pruned_sublist r time) hr
    have hb₁ : Bounded r₁ := by
      rcases hevict with hsame | ⟨x, hx⟩
      · exact hsame.bounded (List.Sublist.refl _) hb₀
      · exact hx.bounded hb₀
    have hnew : sessionID ∉ r₁.opened := hfresh _ huuid
    obtain ⟨hsessions, hb⟩ := hb₁.opening (x := ⟨f, context, bits', last⟩) hnew htotal howner
      reducer
    have hopened : r₁.opened = r.opened := by
      rcases hevict with hsame | ⟨x, hx⟩
      · exact hsame.opened.trans hleaves.opened
      · exact hx.leaves.opened.trans hleaves.opened
    -- A session is expired, or stays, or is the one that is evicted.
    have hfate : ∀ y ∈ r.sessions, Lapsed r (⟨r, .now, time⟩ :: rest) y ∨
        y ∈ r₀.sessions ∧ (y ∈ (r₁.opening sessionID ⟨f, context, bits', last⟩ reducer).sessions ∨
          ∃ x, Evicted f r₀ x r₁ ∧ y = x) := by
      intro y hy
      by_cases hp : y ∈ r.pruned time
      · have hy₀ : y ∈ r₀.sessions := hleaves.sessions.symm ▸ hp
        refine .inr ⟨hy₀, ?_⟩
        rw [hsessions]
        rcases hevict with hsame | ⟨x, hx⟩
        · exact .inl (List.mem_append_left _ (hsame.sessions.symm ▸ hy₀))
        · rcases hx.fate hb₀ hy₀ with hmem | rfl
          · exact .inl (List.mem_append_left _ hmem)
          · exact .inr ⟨y, hx, rfl⟩
      · exact .inl (lapsed_of_pruned hy hp)
    refine ⟨hb, ?_, ?_⟩
    · rintro g ⟨⟩
      refine ⟨fun y hy hne => ?_, fun y hy he => ?_⟩
      · rcases hfate y hy with hlapsed | ⟨-, hmem | ⟨x, hx, rfl⟩⟩
        · exact .inr hlapsed
        · exact .inl hmem
        · exact absurd (of_decide_eq_true (List.mem_filter.mp hx.mem).2) hne
      · rw [hopened] at hnew
        exact hnew (he ▸ hr.known y hy)
    · intro context' g bits'' he
      obtain rfl := hlabel context' g bits'' he
      refine ⟨fun e he => (nomatch he), ?_⟩
      intro y hy hnot hlapsed
      rcases hfate y hy with h | ⟨-, hmem | ⟨x, hx, rfl⟩⟩
      · exact absurd h hlapsed
      · exact absurd hmem hnot
      · refine ⟨of_decide_eq_true (List.mem_filter.mp hx.mem).2, ?_⟩
        intro z hz howned hz'
        rcases hfate z hz with h | ⟨hz₀, hstay⟩
        · exact absurd h hz'
        · have hle := hx.least z (List.mem_filter.mpr ⟨hz₀, decide_eq_true howned⟩)
          refine ⟨hle, fun hgone => ?_⟩
          rcases hstay with hmem | ⟨w, hw, rfl⟩
          · exact absurd hmem hgone
          · rcases hx.fate hb₀ hz₀ with hmem | rfl
            · rw [hsessions] at hgone
              exact absurd (List.mem_append_left _ hmem) hgone
            · rfl

/-! Every call. -/

/-- A call of an owner that opens nothing. -/
theorem Tends.rule {label : RegistryCall} {value : RegistryAnswer} (h : Tends f r t r')
    (hlabel : label.ownerFd = some f) (hopen : ∀ context g bits, label ≠ .attemptOpen context g bits)
    (hanswer : Discloses r f value) : Bounded r' ∧ KeepsApart ⟨label, r, t, value, r'⟩ := by
  refine ⟨h.bounded, ?_, fun context g bits he => absurd he (hopen context g bits)⟩
  intro g hg
  obtain rfl := Option.some.inj (hlabel.symm.trans hg)
  exact ⟨h.foreign, hanswer⟩

/-- A call on nobody's behalf. -/
theorem bounded_rule {label : RegistryCall} {value : RegistryAnswer} (h : Bounded r')
    (hlabel : label.ownerFd = none) : Bounded r' ∧ KeepsApart ⟨label, r, t, value, r'⟩ := by
  refine ⟨h, fun g hg => ?_, fun context g bits he => ?_⟩
  · exact absurd (hlabel.symm.trans hg) (by simp)
  · change label = _ at he
    rw [he] at hlabel
    cases hlabel

theorem prune_bounded {a : Unit} (hr : Bounded r) (h : pruneExpiredSessions.Yields r t a r') :
    Bounded r' := by
  obtain ⟨time, rest, -, hleaves⟩ := pruneExpiredSessions_leaves hr.nodup h
  exact hleaves.bounded (pruned_sublist r time) hr

section

variable [SwiftText] [RecoveryCodec]

instance (sessionID : Text) : Prog.Frames SessionsKept (invalidateForDictionaryChange sessionID) := by
  unfold invalidateForDictionaryChange
  infer_instance

instance (affected : List (Text × RegisteredSession)) :
    Prog.Frames SessionsKept (resumeSpeculationIn affected) := by
  unfold resumeSpeculationIn
  infer_instance

instance (affected : List (Text × RegisteredSession)) :
    Prog.Frames SessionsKept (reinitializeEnvironments affected) := by
  unfold reinitializeEnvironments
  infer_instance

instance : Prog.Frames SessionsKept reinitializeAll := by
  unfold reinitializeAll
  infer_instance

instance : Prog.Frames SessionsKept performConfigurationMutation := by
  unfold performConfigurationMutation
  infer_instance

instance : Prog.Frames SessionsKept clearAllLearningData := by
  unfold clearAllLearningData
  infer_instance

instance : Prog.Frames SessionsKept applyUserDictionaryToSessions := by
  unfold applyUserDictionaryToSessions
  infer_instance

instance : Prog.Frames SessionsKept changeUserDictionary := by
  unfold changeUserDictionary
  infer_instance

instance : Prog.Frames SessionsKept saveAll := by
  unfold saveAll
  infer_instance

theorem handle_tends {sessionID : Text} {action : ImeAction} {requestID : Text}
    {expectedRevision : Option UInt64} {result : Option ImeReductionResult} (hr : Bounded r)
    (h : (handle sessionID f action requestID expectedRevision).Yields r t result r') :
    Tends f r t r' := by
  obtain ⟨t₁, t₂, x, u, rfl, haccess, hrest⟩ := Prog.yields_bind.mp h
  refine (access_spec hr haccess).1.then ?_
  cases x with
  | none =>
    obtain ⟨rfl, -, rfl⟩ := hrest
    exact Prog.Composes.refl _
  | some x => exact Prog.Frames.frame (R := SessionsKept) _ _ _ _ hrest

theorem registryCall_rule {call : RegistryCall} {value : RegistryAnswer} (hr : Bounded r)
    (h : call.program.Yields r t value r') (hfresh : ∀ e ∈ t, DrawsFresh e) :
    Bounded r' ∧ KeepsApart ⟨call, r, t, value, r'⟩ := by
  have hkept {p : RegistryM Unit} [hp : Prog.Frames SessionsKept p]
      (h : ((fun _ => RegistryAnswer.done) <$> p).Yields r t value r') : Bounded r' := by
    obtain ⟨a, hY, -⟩ := Prog.yields_map.mp h
    exact (hp.frame _ _ _ _ hY).bounded (List.Sublist.refl _) hr
  cases call with
  | attemptOpen context f bits =>
    obtain ⟨result, hY, rfl⟩ := Prog.yields_map.mp h
    exact attemptOpen_rule hr (attemptOpen_spec hr hY) hfresh
  | environment sessionID f =>
    obtain ⟨x, hY, rfl⟩ := Prog.yields_map.mp h
    obtain ⟨htends, hx⟩ := environment_spec hr hY
    refine htends.rule rfl (fun _ _ _ he => nomatch he) ?_
    cases x with
    | none => trivial
    | some x => exact hx x rfl
  | clientContext sessionID f =>
    obtain ⟨x, hY, rfl⟩ := Prog.yields_map.mp h
    obtain ⟨y, haccess, rfl⟩ := Prog.yields_map.mp hY
    obtain ⟨htends, hy⟩ := access_spec hr haccess
    refine htends.rule rfl (fun _ _ _ he => nomatch he) ?_
    cases y with
    | none => trivial
    | some y => exact ⟨_, (hy y rfl).1, (hy y rfl).2, rfl⟩
  | semanticController sessionID f =>
    obtain ⟨x, hY, rfl⟩ := Prog.yields_map.mp h
    obtain ⟨y, haccess, rfl⟩ := Prog.yields_map.mp hY
    obtain ⟨htends, hy⟩ := access_spec hr haccess
    refine htends.rule rfl (fun _ _ _ he => nomatch he) ?_
    cases y with
    | none => trivial
    | some y => exact ⟨y, hy y rfl⟩
  | handle sessionID f action requestID expectedRevision =>
    obtain ⟨x, hY, rfl⟩ := Prog.yields_map.mp h
    exact (handle_tends hr hY).rule rfl (fun _ _ _ he => nomatch he) trivial
  | close sessionID f =>
    obtain ⟨x, hY, rfl⟩ := Prog.yields_map.mp h
    exact (close_tends hr hY).rule rfl (fun _ _ _ he => nomatch he) trivial
  | closeAll f =>
    obtain ⟨x, hY, rfl⟩ := Prog.yields_map.mp h
    exact (closeAll_tends hr hY).rule rfl (fun _ _ _ he => nomatch he) trivial
  | reinitializeAll => exact bounded_rule (hkept h) rfl
  | performConfigurationMutation => exact bounded_rule (hkept h) rfl
  | clearAllLearningData => exact bounded_rule (hkept h) rfl
  | changeUserDictionary => exact bounded_rule (hkept h) rfl
  | saveAll => exact bounded_rule (hkept h) rfl
  | count =>
    obtain ⟨x, hY, rfl⟩ := Prog.yields_map.mp h
    obtain ⟨t₁, t₂, a, u, rfl, hprune, rfl, rfl, rfl⟩ := Prog.yields_bind.mp hY
    exact bounded_rule (prune_bounded hr hprune) rfl
  | diagnostics =>
    obtain ⟨x, hY, rfl⟩ := Prog.yields_map.mp h
    obtain ⟨t₁, t₂, a, u, rfl, hprune, rfl, rfl, rfl⟩ := Prog.yields_bind.mp hY
    exact bounded_rule (prune_bounded hr hprune) rfl

/-! The limits are constants. -/

def LimitsKept (r : SessionRegistry) (_ : List RegistryEvent) (r' : SessionRegistry) : Prop :=
  r'.limits = r.limits

omit [SwiftText] [RecoveryCodec] in
theorem limitsKept_of_sessionsKept {α : Type} {p : RegistryM α}
    (h : Prog.Frames SessionsKept p) : Prog.Frames LimitsKept p where
  frame s t a s' hY := (h.frame s t a s' hY).limits

section

omit [SwiftText] [RecoveryCodec]

instance : Prog.Composes LimitsKept where
  refl _ := rfl
  trans _ _ _ _ _ h h' := h'.trans h

instance (reason : HazkeySessionRemovalReason) (sessionID : Text) :
    Prog.Frames LimitsKept (removeSession reason sessionID) where
  frame _ _ _ _ hY := (removeSession_leaves hY).limits

instance : Sweeps LimitsKept where
  now := Prog.frames_ask fun _ _ => rfl
  touch _ _ := Prog.frames_modify fun _ => rfl
  remove _ _ _ := inferInstance

instance : Prog.Frames LimitsKept uuid := Prog.frames_ask fun _ _ => rfl

instance (context : GrimodexClientContext) : Prog.Frames LimitsKept (openEnvironment context) :=
  Prog.frames_ask fun _ _ => rfl

instance (sessionID : Text) (x : RegisteredSession) (reducer : ImeReducer) :
    Prog.Frames LimitsKept (Prog.modify (·.opening sessionID x reducer) : RegistryM Unit) :=
  Prog.frames_modify fun _ => rfl

instance (context : GrimodexClientContext) (f : Int) (bits : UInt64) :
    Prog.Frames LimitsKept (attemptOpen context f bits) := by
  unfold attemptOpen
  refine .bind inferInstance fun _ => .bind inferInstance fun r => .bind inferInstance fun _ =>
    .bind inferInstance fun u => .bind inferInstance fun roomy => ?_
  infer_instance

instance (f : Int) : Prog.Frames LimitsKept (closeAll f) := by
  unfold closeAll
  infer_instance

end

theorem handle_limits (sessionID : Text) (f : Int) (action : ImeAction) (requestID : Text)
    (expectedRevision : Option UInt64) :
    Prog.Frames LimitsKept (handle sessionID f action requestID expectedRevision) := by
  unfold handle
  refine .bind inferInstance fun x => ?_
  cases x with
  | none => exact Prog.frames_pure none
  | some x => exact limitsKept_of_sessionsKept inferInstance

instance (call : RegistryCall) : Prog.Frames LimitsKept call.program := by
  cases call with
  | handle sessionID f action requestID expectedRevision =>
    have hhandle := handle_limits sessionID f action requestID expectedRevision
    exact Prog.frames_map
  | attemptOpen | environment | clientContext | semanticController | close | closeAll | count
  | diagnostics =>
    dsimp only [RegistryCall.program]
    infer_instance
  | reinitializeAll | performConfigurationMutation | clearAllLearningData
  | changeUserDictionary | saveAll =>
    refine limitsKept_of_sessionsKept ?_
    dsimp only [RegistryCall.program]
    infer_instance

/-- The moves of a registry that was made with these limits. -/
def RegistryRun (limits : RegistryLimits) (moves : List RegistryMove) (r : SessionRegistry) : Prop :=
  Runs RegistryCall.program { limits := limits } moves r

/-- No id is given to two sessions. -/
def UniqueIDs (moves : List RegistryMove) : Prop := ∀ m ∈ moves, ∀ e ∈ m.trace, DrawsFresh e

omit [SwiftText] [RecoveryCodec] in
theorem bounded_initial (limits : RegistryLimits) : Bounded { limits := limits } := by
  have hpos := limits.perOwner_pos
  exact ⟨by simp, by simp, by simp [SessionRegistry.owned], by simp⟩

theorem RegistryRun.bounded {limits : RegistryLimits} {moves : List RegistryMove}
    (h : RegistryRun limits moves r) (hfresh : UniqueIDs moves) :
    Bounded r ∧ ∀ m ∈ moves, m.Valid RegistryCall.program ∧ Bounded m.before ∧ Bounded m.after :=
  Runs.guarded (C := fun m => ∀ e ∈ m.trace, DrawsFresh e) (bounded_initial limits)
    (fun _ hb hc hv => (registryCall_rule hb hv hc).1) h hfresh

end

/-! Running the registry: a second passes at every call. -/

instance : DecidablePred DrawsFresh
  | ⟨r, .uuid, sessionID⟩ => inferInstanceAs (Decidable ((sessionID : Text) ∉ r.opened))
  | ⟨_, .now, _⟩ | ⟨_, .openEnvironment _, _⟩ | ⟨_, .refreshPolicy _, _⟩
  | ⟨_, .converter _ _, _⟩ | ⟨_, .closeEnvironment _, _⟩ | ⟨_, .clearProfileLearningData _, _⟩
  | ⟨_, .clearIdleLearningData, _⟩ | ⟨_, .recordLearningCommit, _⟩
  | ⟨_, .reinitializeConfiguration _, _⟩ | ⟨_, .replaceUserDictionary _, _⟩
  | ⟨_, .mutateConfiguration, _⟩ | ⟨_, .changeUserDictionary, _⟩ => .isTrue trivial

def registryService : (c : RegistryRequest) → Nat → c.Answer × Nat
  | .now, n => ((n : Rat), n + 1)
  | .uuid, n => (decimal n, n + 1)
  | .openEnvironment _, n => (.standard, n + 1)
  | .refreshPolicy _, n => (.standard, n + 1)
  | .converter _ call, n => stagingConverter call n
  | .closeEnvironment _, n => ((), n + 1)
  | .clearProfileLearningData _, n => ((), n + 1)
  | .clearIdleLearningData, n => ((), n + 1)
  | .recordLearningCommit, n => ((), n + 1)
  | .reinitializeConfiguration _, n => ((), n + 1)
  | .replaceUserDictionary _, n => ((), n + 1)
  | .mutateConfiguration, n => (some true, n + 1)
  | .changeUserDictionary, n => (true, n + 1)

attribute [local instance] scalarText byteCodec

/-- The moves and the last state of a registry with these limits. -/
def evaluateRegistry (limits : RegistryLimits) (calls : List RegistryCall) :
    List RegistryMove × Nat × SessionRegistry :=
  execMoves registryService RegistryCall.program calls 0 { limits := limits }

theorem evaluateRegistry_run (limits : RegistryLimits) (calls : List RegistryCall) :
    RegistryRun limits (evaluateRegistry limits calls).1 (evaluateRegistry limits calls).2.2 :=
  execMoves_runs _ _ _ _ _

def someClient : GrimodexClientContext := ⟨"editor".toList, "wayland".toList, false⟩

def openFor (ownerFd : Int) : RegistryCall := .attemptOpen someClient ownerFd 3

end Hazkey
