import Hazkey.Replacement
import Hazkey.Restoration

/-! The policy of a composition is pinned: it changes between compositions, with
the security domain, and by a restore. -/

namespace Hazkey

open ServiceProgram

set_option synthInstance.maxSize 800

def PolicyKept (r : ImeReducer) (_ : List ConverterEvent) (r' : ImeReducer) : Prop :=
  r'.session.policy = r.session.policy

instance : Prog.Composes PolicyKept where
  refl _ := rfl
  trans _ _ _ _ _ h h' := h'.trans h

instance : Overlooks PolicyKept where
  update _ h _ r := h.policy r.session
  invalidate _ _ := rfl
  ask _ _ _ _ := rfl
  call _ _ _ := rfl
  pend _ _ := rfl
  empty _ := rfl

instance : Settles PolicyKept := Overlooks.settles

instance : Teaches PolicyKept := Overlooks.teaches

instance : Replaces PolicyKept where
  replace _ h r := h.policy r.session

section

variable {α : Type} {r r' u : ImeReducer} {t : List ConverterEvent}
  {provider : Option PinnedCompositionPolicy}

theorem kept_of_frames {p : ReducerM α} {a : α} [hp : Prog.Frames PolicyKept p]
    (hY : p.Yields r t a r') : r'.session.policy = r.session.policy := hp.frame _ _ _ _ hY

/-- The policy is as before, or the one on offer between two compositions. -/
def Repins (provider : Option PinnedCompositionPolicy) (s u : CompositionSession) : Prop :=
  u.policy = s.policy ∨
    s.phase = .idle ∧ s.composingText.isEmpty = true ∧ provider = some u.policy

theorem pinCompositionPolicy_repins {policy : PinnedCompositionPolicy} {b : Bool}
    (hY : (pinCompositionPolicy policy).Yields r t b r') : Repins (some policy) r.session r'.session := by
  unfold pinCompositionPolicy at hY
  obtain ⟨_, _, _, _, rfl, ⟨rfl, rfl, rfl⟩, hbody⟩ := Prog.yields_bind.mp hY
  split at hbody
  case isFalse =>
    obtain ⟨-, -, rfl⟩ := hbody
    exact .inl rfl
  case isTrue hidle =>
    refine .inr ⟨hidle.1, hidle.2, ?_⟩
    split at hbody
    · obtain ⟨_, _, _, _, -, -, hbody⟩ := Prog.yields_bind.mp hbody
      obtain ⟨_, _, _, _, -, -, hbody⟩ := Prog.yields_bind.mp hbody
      obtain ⟨_, _, _, _, -, -, hbody⟩ := Prog.yields_bind.mp hbody
      obtain ⟨_, _, _, _, -, -, hbody⟩ := Prog.yields_bind.mp hbody
      obtain ⟨_, _, _, _, -, ⟨-, -, rfl⟩, -, -, rfl⟩ := Prog.yields_bind.mp hbody
      rfl
    · obtain ⟨_, _, _, _, -, ⟨-, -, rfl⟩, -, -, rfl⟩ := Prog.yields_bind.mp hbody
      rfl

theorem pinCompositionPolicyIfNeeded_repins {b : Bool}
    (hY : (pinCompositionPolicyIfNeeded provider).Yields r t b r') : Repins provider r.session r'.session := by
  unfold pinCompositionPolicyIfNeeded at hY
  obtain ⟨_, _, _, _, rfl, ⟨rfl, rfl, rfl⟩, hbody⟩ := Prog.yields_bind.mp hY
  split at hbody
  case isFalse =>
    obtain ⟨-, -, rfl⟩ := hbody
    exact .inl rfl
  case isTrue =>
    cases provider with
    | none =>
      obtain ⟨-, -, rfl⟩ := hbody
      exact .inl rfl
    | some policy => exact pinCompositionPolicy_repins hbody

/-- What goes on after a pin keeps the policy. -/
theorem repins_of_bind {k : Bool → ReducerM α} {a : α} (hk : ∀ b, Prog.Frames PolicyKept (k b))
    (hY : (pinCompositionPolicyIfNeeded provider >>= k).Yields r t a r') :
    Repins provider r.session r'.session := by
  obtain ⟨_, _, b, u, -, hpin, hrest⟩ := Prog.yields_bind.mp hY
  have hkept : r'.session.policy = u.session.policy := (hk b).frame _ _ _ _ hrest
  rcases pinCompositionPolicyIfNeeded_repins hpin with hu | ⟨hp, he, hu⟩
  · exact .inl (hkept.trans hu)
  · exact .inr ⟨hp, he, hu.trans (congrArg some hkept.symm)⟩

/-- An invalidation leaves the session alone. -/
theorem repins_of_invalidateSpeculation {reason : SpeculationInvalidationReason}
    {p : ReducerM α} {a : α}
    (hp : ∀ {u t}, u.session = r.session → p.Yields u t a r' → Repins provider u.session r'.session)
    (hY : (invalidateSpeculation reason >>= fun _ => p).Yields r t a r') :
    Repins provider r.session r'.session := by
  obtain ⟨_, _, _, u, -, hinvalidate, hrest⟩ := Prog.yields_bind.mp hY
  have hu : u.session = r.session := by
    obtain ⟨_, _, -, -, -, rfl⟩ := hinvalidate
    rfl
  have h := hp hu hrest
  rwa [hu] at h

variable [SwiftText]

theorem insertText_repins {text : Text} {result : ImeReductionResult}
    (hY : (insertText text provider).Yields r t result r') : Repins provider r.session r'.session := by
  unfold insertText at hY
  obtain ⟨_, _, _, _, rfl, ⟨rfl, rfl, rfl⟩, hbody⟩ := Prog.yields_bind.mp hY
  split at hbody
  · refine repins_of_invalidateSpeculation (fun _ hrest => ?_) hbody
    exact repins_of_bind (fun b => inferInstance) hrest
  · exact .inl (kept_of_frames hbody)

omit [SwiftText] in
theorem beginUnicodeInput_repins {result : ImeReductionResult}
    (hY : (beginUnicodeInput provider).Yields r t result r') : Repins provider r.session r'.session := by
  unfold beginUnicodeInput at hY
  obtain ⟨_, _, _, _, rfl, ⟨rfl, rfl, rfl⟩, hbody⟩ := Prog.yields_bind.mp hY
  split at hbody
  · refine repins_of_invalidateSpeculation (fun _ hrest => ?_) hbody
    refine repins_of_bind (fun b => ?_) hrest
    repeat' first | infer_instance | refine .bind inferInstance fun _ => ?_
  · exact .inl (kept_of_frames hbody)

theorem reconvert_repins {text leftContext rightContext : Text} {deleteBefore deleteAfter : Int}
    {result : ImeReductionResult}
    (hY : (reconvert text leftContext rightContext deleteBefore deleteAfter provider).Yields r t
      result r') : Repins provider r.session r'.session := by
  unfold reconvert at hY
  dsimp only at hY
  split at hY
  · split at hY
    · refine repins_of_bind (fun b => ?_) hY
      repeat' first | infer_instance | refine .bind inferInstance fun _ => ?_
    · exact .inl (kept_of_frames hY)
  · exact .inl (kept_of_frames hY)

/-! All calls. -/

/-- The policy that a call offers to a composition that starts with it. -/
def ReducerCall.offered : ReducerCall → Option PinnedCompositionPolicy
  | .reduce _ _ _ provider => provider
  | .pinCompositionPolicy policy => some policy
  | _ => none

/-- How a call moves the policy. -/
inductive PolicyMoved (s : CompositionSession) :
    ReducerCall → Option ImeReductionResult → CompositionSession → Prop
  | kept {call : ReducerCall} {value : Option ImeReductionResult} {u : CompositionSession}
      (h : u.policy = s.policy) : PolicyMoved s call value u
  | pinned {call : ReducerCall} {value : Option ImeReductionResult} {u : CompositionSession}
      (hp : s.phase = .idle) (he : s.composingText.isEmpty = true)
      (ho : call.offered = some u.policy) : PolicyMoved s call value u
  | flipped {flag : Bool} {requestID : Text} {expectedRevision : Option UInt64}
      {provider : Option PinnedCompositionPolicy} {result : ImeReductionResult}
      {u : CompositionSession} (hf : s.policy.secureInput ≠ flag)
      (h : u.policy = { s.policy with secureInput := flag }) :
      PolicyMoved s (.reduce (.lifecycle (.secureInputChanged flag)) requestID expectedRevision
        provider) (some result) u
  | restored {data : Data} {requestID : Text} {expectedRevision : Option UInt64}
      {provider : Option PinnedCompositionPolicy} {result : ImeReductionResult}
      {u : CompositionSession} (h : result.status = .success) :
      PolicyMoved s (.reduce (.restoreCheckpoint data) requestID expectedRevision provider)
        (some result) u

omit [SwiftText] in
theorem secureInputChanged_policy {flag : Bool} {result : ImeReductionResult}
    (hY : (lifecycle (.secureInputChanged flag)).Yields r t result r') :
    r'.session.policy = r.session.policy ∨
      r.session.policy.secureInput ≠ flag ∧
        r'.session.policy = { r.session.policy with secureInput := flag } := by
  unfold lifecycle at hY
  obtain ⟨_, _, _, _, -, ⟨-, hs, hu⟩, hbody⟩ := Prog.yields_bind.mp hY
  rw [hs, hu] at hbody
  dsimp only at hbody
  split at hbody
  case isFalse => exact .inl (kept_of_frames hbody)
  case isTrue hne =>
    refine .inr ⟨hne, ?_⟩
    obtain ⟨_, _, _, u₁, -, hinvalidate, hbody⟩ := Prog.yields_bind.mp hbody
    obtain ⟨_, _, _, u₂, -, hresolve, hbody⟩ := Prog.yields_bind.mp hbody
    obtain ⟨_, _, _, u₃, -, hpurge, hbody⟩ := Prog.yields_bind.mp hbody
    obtain ⟨_, _, _, u₄, -, ⟨-, -, hflag⟩, hbody⟩ := Prog.yields_bind.mp hbody
    have hbefore : u₃.session.policy = r.session.policy :=
      (kept_of_frames hpurge).trans ((kept_of_frames hresolve).trans (kept_of_frames hinvalidate))
    have hafter : r'.session.policy = u₄.session.policy := kept_of_frames hbody
    rw [hafter, hflag, ← hbefore]

variable [RecoveryCodec] {expectedRevision : Option UInt64} {requestID : Text}

/-- A performed action moves the policy as the request that asks for it. -/
theorem perform_policy {action : ImeAction} {result : ImeReductionResult} (h : Reachable r)
    (hY : (perform action provider).Yields r t result r') :
    PolicyMoved r.session (.reduce action requestID expectedRevision provider) (some result)
      r'.session := by
  have hpinned (hr : Repins provider r.session r'.session) :
      PolicyMoved r.session (.reduce action requestID expectedRevision provider) (some result)
        r'.session := by
    rcases hr with hkept | ⟨hp, he, ho⟩
    · exact .kept hkept
    · exact .pinned hp he ho
  cases action with
  | insertText text => exact hpinned (insertText_repins hY)
  | reconvert text leftContext rightContext deleteBefore deleteAfter =>
    exact hpinned (reconvert_repins hY)
  | beginUnicodeInput => exact hpinned (beginUnicodeInput_repins hY)
  | restoreCheckpoint data =>
    by_cases hs : result.status = .success
    · exact .restored hs
    · exact .kept (congrArg (·.policy) ((restoreCheckpoint_safe h hY).1 hs))
  | lifecycle event =>
    cases event with
    | secureInputChanged flag =>
      rcases secureInputChanged_policy hY with hkept | ⟨hf, hflag⟩
      · exact .kept hkept
      · exact .flipped hf hflag
    | _ =>
      dsimp only [perform, lifecycle] at hY
      exact .kept (kept_of_frames hY)
  | _ =>
    dsimp only [perform] at hY
    exact .kept (kept_of_frames hY)

theorem reduce_policy {action : ImeAction} {result : ImeReductionResult} (h : Reachable r)
    (hY : (reduce action requestID expectedRevision provider).Yields r t result r') :
    PolicyMoved r.session (.reduce action requestID expectedRevision provider) (some result)
      r'.session := by
  cases reduce_answered hY with
  | replayed entry hl hm ht hr => exact .kept rfl
  | reused entry hl hm hf => exact .kept (kept_of_frames hf)
  | stale hl hm hf =>
    rw [session_cache]
    exact .kept (kept_of_frames hf)
  | performed hl hm hp =>
    rw [session_cache]
    exact perform_policy h hp

instance (l : List (Text × CachedRequest)) : Prog.Frames PolicyKept (rebasedRequests l) := by
  induction l with
  | nil => exact Prog.frames_pure _
  | cons entry l ih =>
    unfold rebasedRequests
    infer_instance

instance : Prog.Frames PolicyKept rebaseRequestCacheToCurrentSnapshot := by
  have hset (l : List (Text × CachedRequest)) : Prog.Frames PolicyKept
      (Prog.modify fun r => { r with requestCache := l } : ReducerM Unit) :=
    Prog.frames_modify fun _ => rfl
  unfold rebaseRequestCacheToCurrentSnapshot
  infer_instance

instance : Prog.Frames PolicyKept invalidateCandidatesForExternalDictionaryChange := by
  unfold invalidateCandidatesForExternalDictionaryChange
  refine .bind inferInstance fun _ => .bind inferInstance fun s => ?_
  unfold Prog.when
  split
  · infer_instance
  · exact Prog.frames_pure ()

/-- A composition keeps its pinned policy. -/
theorem program_policy {call : ReducerCall} {value : Option ImeReductionResult}
    (h : Reachable r) (hY : call.program.Yields r t value r') :
    PolicyMoved r.session call value r'.session := by
  cases call with
  | reduce action requestID expectedRevision provider =>
    obtain ⟨_, _, result, _, -, hR, -, rfl, rfl⟩ := Prog.yields_bind.mp hY
    exact reduce_policy h hR
  | pinCompositionPolicy policy =>
    obtain ⟨_, _, _, _, -, hpin, -, -, rfl⟩ := Prog.yields_bind.mp hY
    rcases pinCompositionPolicy_repins hpin with hkept | ⟨hp, he, ho⟩
    · exact .kept hkept
    · exact .pinned hp he ho
  | invalidateCandidatesForExternalDictionaryChange =>
    dsimp only [ReducerCall.program] at hY
    exact .kept (kept_of_frames hY)
  | resumeSpeculativeConversionAfterMaintenance =>
    dsimp only [ReducerCall.program] at hY
    unfold resumeSpeculativeConversionAfterMaintenance at hY
    exact .kept (kept_of_frames hY)
  | finalizePendingLearning commit =>
    dsimp only [ReducerCall.program] at hY
    unfold finalizePendingLearning at hY
    exact .kept (kept_of_frames hY)

end

attribute [local instance] scalarText byteCodec

/-- A composition that has begun takes no other policy. -/
theorem program_policy_composing :
    let r := (evaluate .standard [request (.insertText ['a']) "1"]).2.2
    let call := ReducerCall.reduce (.insertText ['b']) "2".toList none
      (some { PinnedCompositionPolicy.standard with allowsLearning := false })
    ∃ t value r', call.program.Yields r t value r' ∧
      PolicyMoved r.session call value r'.session ∧ r.session.composingText.isEmpty = false ∧
      r'.session.policy.allowsLearning = true :=
  ⟨_, _, _, Prog.exec_yields stagingConverter _ 0 _,
    program_policy (evaluate_reachable _ _)
      (Prog.exec_yields stagingConverter (ReducerCall.program (.reduce _ _ _ _)) 0 _),
    by decide +kernel, by decide +kernel⟩

end Hazkey
