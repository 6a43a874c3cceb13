import Hazkey.FramingSteps

/-! The ledger of staged learning and the request cache, along every program of
the reducer: tokens leave the session in the order in which they came, and a
session turns secure only after a purge, which empties the cache. -/

namespace Hazkey

open ServiceProgram

def pendingTokens (s : CompositionSession) : List ConverterLearningToken :=
  s.pendingLearningTransactions.map (·.token)

/-- The token a call obtained. -/
def stagedToken : ConverterEvent → Option ConverterLearningToken
  | ⟨_, .stageLearning _ _, token⟩ => token
  | _ => none

/-- The token a call committed or discarded. -/
def resolvedToken : ConverterEvent → Option ConverterLearningToken
  | ⟨_, .commitStagedLearning token, _⟩ => some token
  | ⟨_, .discardStagedLearning token, _⟩ => some token
  | _ => none

/-- The token a call resolved, and whether it was committed. -/
def resolution : ConverterEvent → Option (ConverterLearningToken × Bool)
  | ⟨_, .commitStagedLearning token, _⟩ => some (token, true)
  | ⟨_, .discardStagedLearning token, _⟩ => some (token, false)
  | _ => none

theorem resolution_token (e : ConverterEvent) : (resolution e).map (·.1) = resolvedToken e := by
  obtain ⟨r, c, a⟩ := e
  cases c <;> rfl

theorem filterMap_resolution (t : List ConverterEvent) :
    (t.filterMap resolution).map (·.1) = t.filterMap resolvedToken := by
  rw [List.map_filterMap]
  exact List.filterMap_congr fun e _ => resolution_token e

def ImeReducer.Emptied (r : ImeReducer) : Prop := r.requestCache = [] ∧ r.requestOrder = []

/-- What came was pending or is resolved, each token once and in order. -/
def Balanced (r : ImeReducer) (t : List ConverterEvent) (r' : ImeReducer) : Prop :=
  pendingTokens r.session ++ t.filterMap stagedToken =
    t.filterMap resolvedToken ++ pendingTokens r'.session

/-- The service forgot what it knew. -/
def Purged (t : List ConverterEvent) : Prop := ∃ e ∈ t, e.call = .purgeSensitiveState

/-- The cache is kept by a session that was secure already, or emptied by a purge. -/
def Retained (r : ImeReducer) (t : List ConverterEvent) (r' : ImeReducer) : Prop :=
  (r'.requestCache = r.requestCache ∧ r'.requestOrder = r.requestOrder ∧
    (r'.session.policy.secureInput = true → r.session.policy.secureInput = true)) ∨
  r'.Emptied ∧ Purged t

structure Framed (r : ImeReducer) (t : List ConverterEvent) (r' : ImeReducer) : Prop where
  balanced : Balanced r t r'
  retained : Retained r t r'

/-- What holds of programs that may change the security domain once the cache is empty. -/
structure Emptying (r : ImeReducer) (t : List ConverterEvent) (r' : ImeReducer) : Prop where
  balanced : Balanced r t r'
  emptied : r.Emptied → r'.Emptied

theorem balanced_refl (r : ImeReducer) : Balanced r [] r := by simp [Balanced]

theorem Balanced.trans {r u r' : ImeReducer} {t t' : List ConverterEvent} (h : Balanced r t u)
    (h' : Balanced u t' r') : Balanced r (t ++ t') r' := by
  unfold Balanced at *
  rw [List.filterMap_append, List.filterMap_append, ← List.append_assoc, h, List.append_assoc, h',
    List.append_assoc]

theorem Purged.append_left {t : List ConverterEvent} (h : Purged t) (t' : List ConverterEvent) :
    Purged (t ++ t') := by
  obtain ⟨e, he, hc⟩ := h
  exact ⟨e, List.mem_append_left _ he, hc⟩

theorem Purged.append_right {t' : List ConverterEvent} (h : Purged t') (t : List ConverterEvent) :
    Purged (t ++ t') := by
  obtain ⟨e, he, hc⟩ := h
  exact ⟨e, List.mem_append_right _ he, hc⟩

theorem Retained.trans {r u r' : ImeReducer} {t t' : List ConverterEvent} (h : Retained r t u)
    (h' : Retained u t' r') : Retained r (t ++ t') r' := by
  rcases h' with ⟨hc', ho', hs'⟩ | ⟨he, hp⟩
  · rcases h with ⟨hc, ho, hs⟩ | ⟨he, hp⟩
    · exact .inl ⟨hc'.trans hc, ho'.trans ho, fun h => hs (hs' h)⟩
    · exact .inr ⟨⟨hc'.trans he.1, ho'.trans he.2⟩, hp.append_left _⟩
  · exact .inr ⟨he, hp.append_right _⟩

theorem Retained.emptied {r r' : ImeReducer} {t : List ConverterEvent} (h : Retained r t r')
    (he : r.Emptied) : r'.Emptied := by
  rcases h with ⟨hc, ho, -⟩ | ⟨h, -⟩
  · exact ⟨hc.trans he.1, ho.trans he.2⟩
  · exact h

instance : Prog.Composes Framed where
  refl r := ⟨balanced_refl r, .inl ⟨rfl, rfl, id⟩⟩
  trans _ _ _ _ _ h h' := ⟨h.balanced.trans h'.balanced, h.retained.trans h'.retained⟩

instance : Prog.Composes Emptying where
  refl r := ⟨balanced_refl r, id⟩
  trans _ _ _ _ _ h h' := ⟨h.balanced.trans h'.balanced, fun he => h'.emptied (h.emptied he)⟩

variable {α : Type}

theorem emptying_of_framed {p : ReducerM α} (h : Prog.Frames Framed p) :
    Prog.Frames Emptying p where
  frame s t a s' hY := by
    have hf := h.frame s t a s' hY
    exact ⟨hf.balanced, hf.retained.emptied⟩

/-! The small steps. -/

theorem framed_update (f : CompositionSession → CompositionSession) [h : Keeps f]
    (r : ImeReducer) : Framed r [] { r with session := f r.session } :=
  ⟨by simp [Balanced, pendingTokens, h.pending], .inl ⟨rfl, rfl, fun hs => by rwa [h.policy] at hs⟩⟩

theorem framed_ask {c : ConverterCall} (hs : ∀ s a, stagedToken ⟨s, c, a⟩ = none)
    (hr : ∀ s a, resolvedToken ⟨s, c, a⟩ = none) (r : ImeReducer) (a : c.Answer) :
    Framed r [⟨r, c, a⟩] r :=
  ⟨by simp [Balanced, hs, hr], .inl ⟨rfl, rfl, id⟩⟩

theorem framed_plain {c : ConverterCall} (hc : Plain c) (r : ImeReducer) (a : c.Answer) :
    Framed r [⟨r, c, a⟩] r := by
  refine framed_ask (fun s b => ?_) (fun s b => ?_) r a
  · cases c <;> first | rfl | exact hc.elim
  · cases c <;> first | rfl | exact hc.elim

theorem resolveTransactions_yields {commit : Bool}
    {transactions : List PendingLearningTransaction} {r r' : ImeReducer} {t : List ConverterEvent}
    {a : Unit} (hY : (resolveTransactions commit transactions).Yields r t a r') :
    r' = r ∧ t.filterMap stagedToken = [] ∧
      t.filterMap resolution = transactions.map fun x => (x.token, commit) := by
  induction transactions generalizing r t with
  | nil =>
    obtain ⟨rfl, -, rfl⟩ := hY
    exact ⟨rfl, rfl, rfl⟩
  | cons x xs ih =>
    obtain ⟨t₁, t₂, b, u, rfl, h₁, h₂⟩ := Prog.yields_bind.mp hY
    obtain ⟨rfl, hs, hr⟩ := ih h₂
    cases commit with
    | true =>
      obtain ⟨b, q, rfl, rfl, -, rfl⟩ := h₁
      exact ⟨rfl, hs, congrArg ((x.token, true) :: ·) hr⟩
    | false =>
      obtain ⟨b, q, rfl, rfl, -, rfl⟩ := h₁
      exact ⟨rfl, hs, congrArg ((x.token, false) :: ·) hr⟩

/-- A resolution passes on everything that is pending, one way. -/
theorem resolvePendingLearning_yields {commit b : Bool} {r r' : ImeReducer}
    {t : List ConverterEvent} (h : (resolvePendingLearning commit).Yields r t b r') :
    r' = { r with session := { r.session with pendingLearningTransactions := [] } } ∧
      t.filterMap stagedToken = [] ∧
      t.filterMap resolution = (pendingTokens r.session).map fun x => (x, commit) := by
  obtain ⟨t₁, t₂, s, u, rfl, ⟨rfl, rfl, rfl⟩, hbody⟩ := Prog.yields_bind.mp h
  split at hbody
  · rename_i hnil
    obtain ⟨rfl, -, rfl⟩ := hbody
    exact ⟨by rw [← hnil], rfl, by simp [pendingTokens, hnil]⟩
  · obtain ⟨t₃, t₄, x, v, rfl, ⟨rfl, -, rfl⟩, hrest⟩ := Prog.yields_bind.mp hbody
    obtain ⟨t₅, t₆, y, v, rfl, hres, hrest⟩ := Prog.yields_bind.mp hrest
    obtain ⟨rfl, hs, hr⟩ := resolveTransactions_yields hres
    obtain ⟨t₇, t₈, z, v, rfl, hlearn, rfl, -, rfl⟩ := Prog.yields_bind.mp hrest
    have hplain : t₇.filterMap stagedToken = [] ∧ t₇.filterMap resolution = [] ∧
        r' = { u with session := { u.session with pendingLearningTransactions := [] } } := by
      cases commit with
      | true =>
        obtain ⟨b, q, rfl, rfl, -, rfl⟩ := hlearn
        exact ⟨rfl, rfl, rfl⟩
      | false =>
        obtain ⟨rfl, -, rfl⟩ := hlearn
        exact ⟨rfl, rfl, rfl⟩
    obtain ⟨hs', hr', hu⟩ := hplain
    refine ⟨hu, ?_, ?_⟩
    · simp [hs, hs']
    · simp [hr, hr', pendingTokens]

instance : Replaces Framed where
  replace := framed_update

instance : Revives Framed where
  restore _ _ := ⟨by simp [Balanced, pendingTokens, CompositionSession.restored],
    .inl ⟨rfl, rfl, fun hs => by cases hs⟩⟩

instance : Steady Framed where
  update f _ _ := framed_update f
  invalidate r _ := ⟨by simp [Balanced], .inl ⟨rfl, rfl, id⟩⟩
  ask _ hc := framed_plain hc

theorem framed_resolve (commit : Bool) : Prog.Frames Framed (resolvePendingLearning commit) where
  frame := by
    intro r t a r' hY
    obtain ⟨rfl, hs, hr⟩ := resolvePendingLearning_yields hY
    refine ⟨?_, .inl ⟨rfl, rfl, id⟩⟩
    have htokens := filterMap_resolution t
    rw [hr] at htokens
    simp [Balanced, hs, ← htokens, pendingTokens]

theorem purge_yields {r r' : ImeReducer} {t : List ConverterEvent} {a : Unit}
    (h : purgeConverterSensitiveState.Yields r t a r') :
    r' = { r with requestCache := [], requestOrder := [] } ∧
      t = [⟨r, .purgeSensitiveState, ()⟩] := by
  obtain ⟨t₁, t₂, b, u, rfl, ⟨b', q, rfl, rfl, rfl, rfl⟩, rfl, -, rfl⟩ := Prog.yields_bind.mp h
  exact ⟨rfl, rfl⟩

theorem framed_purged (r : ImeReducer) :
    Framed r [⟨r, .purgeSensitiveState, ()⟩] { r with requestCache := [], requestOrder := [] } :=
  ⟨List.append_nil _, .inr ⟨⟨rfl, rfl⟩, _, List.mem_singleton_self _, rfl⟩⟩

/-- After a purge the domain may change. -/
theorem framed_purge {p : ReducerM α} (h : Prog.Frames Emptying p) :
    Prog.Frames Framed (purgeConverterSensitiveState >>= fun _ => p) where
  frame := by
    intro r t a r' hY
    obtain ⟨t₁, t₂, b, u, rfl, hpurge, hp⟩ := Prog.yields_bind.mp hY
    obtain ⟨rfl, rfl⟩ := purge_yields hpurge
    have hfirst := framed_purged r
    have hlast := h.frame _ _ _ _ hp
    exact ⟨hfirst.balanced.trans hlast.balanced,
      .inr ⟨hlast.emptied ⟨rfl, rfl⟩, _, List.mem_cons_self .., rfl⟩⟩

/-- Updates that keep what is pending, whatever they do to the domain. -/
theorem emptying_update {f : CompositionSession → CompositionSession}
    (h : ∀ s, (f s).pendingLearningTransactions = s.pendingLearningTransactions) :
    Prog.Frames Emptying (update f) :=
  Prog.frames_modify fun r => ⟨by simp [Balanced, pendingTokens, h], id⟩

instance : Prog.Frames Framed purgeConverterSensitiveState where
  frame := by
    intro r t a r' hY
    obtain ⟨rfl, rfl⟩ := purge_yields hY
    exact framed_purged r

/-- A policy of another domain is pinned after the cache was emptied. -/
theorem framed_pin (policy : PinnedCompositionPolicy) :
    Prog.Frames Framed (pinCompositionPolicy policy) where
  frame := by
    intro r t a r' hY
    unfold pinCompositionPolicy at hY
    obtain ⟨t₁, t₂, s, u, rfl, hread, hbody⟩ := Prog.yields_bind.mp hY
    obtain ⟨rfl, rfl, rfl⟩ : t₁ = [] ∧ s = r.session ∧ u = r := hread
    have hframe : ∀ {p : ReducerM Bool}, Prog.Frames Framed p → p.Yields u t₂ a r' →
        Framed u t₂ r' := fun h => h.frame _ _ _ _
    split at hbody
    · split at hbody
      · refine hframe (.bind inferInstance fun _ => .bind (framed_resolve false) fun _ => ?_) hbody
        have hclear : Prog.Frames Emptying clearSecurityDomainState :=
          emptying_of_framed inferInstance
        have hpolicy : Prog.Frames Emptying (update fun s =>
            { s with
              policy := policy
              context := { s.context with projectRevision := policy.projectRevision } }) :=
          emptying_update fun _ => rfl
        exact framed_purge inferInstance
      · rename_i hsame
        obtain ⟨t₃, t₄, b, v, rfl, hset, hend⟩ := Prog.yields_bind.mp hbody
        obtain ⟨rfl, -, rfl⟩ := hset
        obtain ⟨rfl, -, rfl⟩ := hend
        have hsame : u.session.policy.secureInput = policy.secureInput := not_not.mp hsame
        exact ⟨balanced_refl _, .inl ⟨rfl, rfl, fun h => hsame.trans h⟩⟩
    · exact hframe inferInstance hbody

/-- The flag is changed after the cache was emptied. -/
theorem framed_transition (flag : Bool) {p : ReducerM α} (h : Prog.Frames Framed p) :
    Prog.Frames Framed (do
      purgeConverterSensitiveState
      update fun s => { s with policy := { s.policy with secureInput := flag } }
      clearSecurityDomainState
      p) := by
  have hflag : Prog.Frames Emptying (update fun s : CompositionSession =>
      { s with policy := { s.policy with secureInput := flag } }) := emptying_update fun _ => rfl
  have hclear : Prog.Frames Emptying clearSecurityDomainState := emptying_of_framed inferInstance
  have hrest : Prog.Frames Emptying p := emptying_of_framed h
  exact framed_purge inferInstance

instance : Settles Framed where
  resolve := framed_resolve
  purge := inferInstance

instance : Admits Framed where
  pin := framed_pin
  transition flag _ _ h := framed_transition flag h

/-! What a commit teaches. -/

instance (candidate : ConverterCandidate) :
    @Prog.Frames _ _ Unit Framed (converter (.updateLearningData candidate)) :=
  Prog.frames_ask fun r a => framed_ask (c := .updateLearningData candidate) (fun _ _ => rfl)
    (fun _ _ => rfl) r a

/-- A staged token is pending from then on. -/
instance (origin : LearningOrigin) (reading : Text) (candidate : ConverterCandidate) :
    Prog.Frames Framed (stageCandidate origin reading candidate) where
  frame := by
    intro r t a r' hY
    unfold stageCandidate at hY
    obtain ⟨t₁, t₂, token, u, rfl, hask, hbody⟩ := Prog.yields_bind.mp hY
    obtain ⟨token', q, rfl, rfl, rfl, rfl⟩ := hask
    cases token with
    | some token =>
      obtain ⟨t₃, t₄, b, v, rfl, hset, hend⟩ := Prog.yields_bind.mp hbody
      obtain ⟨rfl, -, rfl⟩ := hset
      obtain ⟨rfl, -, rfl⟩ := hend
      refine ⟨?_, .inl ⟨rfl, rfl, id⟩⟩
      simp [Balanced, pendingTokens, stagedToken, resolvedToken]
    | none =>
      have hrest : Prog.Frames Framed (if candidate.provenance ≠ .builtInGuard then do
          converter (.updateLearningData candidate)
          pure true
        else (pure false : ReducerM Bool)) := inferInstance
      have hframe := hrest.frame _ _ _ _ hbody
      have hstart : Framed u [⟨u, .stageLearning candidate reading, none⟩] u :=
        ⟨List.append_nil _, .inl ⟨rfl, rfl, id⟩⟩
      exact Prog.Composes.trans _ _ _ _ _ hstart hframe

instance (candidates : List ConverterCandidate) :
    Prog.Frames Framed (updateCandidates candidates) := by
  induction candidates with
  | nil => exact Prog.frames_pure ()
  | cons c cs ih =>
    unfold updateCandidates
    infer_instance

instance (origin : LearningOrigin) (reading : Text) (candidates : List ConverterCandidate) :
    Prog.Frames Framed (stageCandidates origin reading candidates) := by
  induction candidates with
  | nil => exact Prog.frames_pure false
  | cons c cs ih =>
    unfold stageCandidates
    infer_instance

instance : Teaches Framed where
  learn candidates origin reading := by
    unfold learn
    infer_instance

end Hazkey
