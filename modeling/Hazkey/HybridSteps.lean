import Hazkey.HybridThreads

/-! What the operations of a hybrid converter do to its fence and to its work,
and the steps they consist of. -/

namespace Hazkey

open ServiceProgram Interleaving

/-! Changes under the lock. -/

def SpeculationState.atRest : SpeculationState → Bool
  | .pending _ _ => false
  | _ => true

/-- Work goes on under its own number, and none is started. -/
structure Continues (h h' : MozcFirstHybrid) : Prop where
  pending : ∀ k x, h'.speculationState = .pending k x → ∃ y, h.speculationState = .pending k y
  next : h'.nextSpeculationWorkID = h.nextSpeculationWorkID
  started : h'.prefetchStarted = h.prefetchStarted

/-- A change that leaves the fence where it is. -/
structure Kept (h h' : MozcFirstHybrid) : Prop extends Continues h h' where
  fence : h'.candidateFence = h.candidateFence

/-- The fence is where it was, or was taken to be released. -/
def Handed (h : MozcFirstHybrid) (r : Option UInt64 × MozcFirstHybrid) : Prop :=
  r.1 = none ∧ r.2.candidateFence = h.candidateFence ∨
    ∃ fence, r.1 = some fence ∧ h.candidateFence = some fence ∧ r.2.candidateFence = none

structure Taken (h : MozcFirstHybrid) (r : Option UInt64 × MozcFirstHybrid) : Prop extends
    Continues h r.2 where
  handed : Handed h r

theorem Continues.refl (h : MozcFirstHybrid) : Continues h h :=
  ⟨fun _ x hx => ⟨x, hx⟩, rfl, rfl⟩

theorem Continues.rest {h h' : MozcFirstHybrid} (hrest : h'.speculationState.atRest = true)
    (hnext : h'.nextSpeculationWorkID = h.nextSpeculationWorkID)
    (hstarted : h'.prefetchStarted = h.prefetchStarted) : Continues h h' where
  pending k x hx := by
    rw [hx] at hrest
    exact absurd hrest Bool.false_ne_true
  next := hnext
  started := hstarted

theorem Continues.trans {h h' h'' : MozcFirstHybrid} (h₁ : Continues h h')
    (h₂ : Continues h' h'') : Continues h h'' where
  pending k x hx := by
    obtain ⟨y, hy⟩ := h₂.pending k x hx
    exact h₁.pending k y hy
  next := h₂.next.trans h₁.next
  started := h₂.started.trans h₁.started

theorem Kept.refl (h : MozcFirstHybrid) : Kept h h := ⟨.refl h, rfl⟩

theorem Kept.trans {h h' h'' : MozcFirstHybrid} (h₁ : Kept h h') (h₂ : Kept h' h'') :
    Kept h h'' := ⟨h₁.toContinues.trans h₂.toContinues, h₂.fence.trans h₁.fence⟩

section

variable {h h' : MozcFirstHybrid} {r : Option UInt64 × MozcFirstHybrid}

theorem Kept.taken (hk : Kept h h') : Taken h (none, h') := ⟨hk.toContinues, .inl ⟨rfl, hk.fence⟩⟩

theorem Kept.then (hk : Kept h h') (ht : Taken h' r) : Taken h r where
  toContinues := hk.toContinues.trans ht.toContinues
  handed := by
    rcases ht.handed with ⟨hn, hf⟩ | ⟨fence, hs, hf, hn⟩
    · exact .inl ⟨hn, hf.trans hk.fence⟩
    · exact .inr ⟨fence, hs, hk.fence ▸ hf, hn⟩

theorem Taken.kept (ht : Taken h r) (hk : Kept r.2 h') : Taken h (r.1, h') where
  toContinues := ht.toContinues.trans hk.toContinues
  handed := by
    rcases ht.handed with ⟨hn, hf⟩ | ⟨fence, hs, hf, hn⟩
    · exact .inl ⟨hn, hk.fence.trans hf⟩
    · exact .inr ⟨fence, hs, hf, hk.fence.trans hn⟩

end

variable (h : MozcFirstHybrid)

theorem discard_kept : Kept h h.discardFrozenStepLocked := by
  unfold MozcFirstHybrid.discardFrozenStepLocked
  split
  · exact ⟨.rest rfl rfl rfl, rfl⟩
  · exact .refl h

theorem take_taken : Taken h h.takeCandidateFenceLocked := by
  have hd := discard_kept h
  unfold MozcFirstHybrid.takeCandidateFenceLocked
  dsimp only
  split
  · exact hd.taken
  · rename_i fence hf
    exact ⟨⟨hd.pending, hd.next, hd.started⟩, .inr ⟨fence, rfl, hd.fence ▸ hf, rfl⟩⟩

theorem takeUnneeded_taken : Taken h h.takeUnneededFence := by
  unfold MozcFirstHybrid.takeUnneededFence
  split
  · exact take_taken h
  · exact (Kept.refl h).taken

theorem invalidate_taken (reason : SpeculationInvalidationReason) :
    Taken h (h.invalidateLocked reason) := by
  have hidle : Kept h h.idled := ⟨.rest rfl rfl rfl, rfl⟩
  unfold MozcFirstHybrid.invalidateLocked
  split
  · exact Kept.taken ⟨.rest rfl rfl rfl, rfl⟩
  · split
    · exact hidle.taken
    · split
      · exact hidle.then (take_taken _)
      · exact hidle.taken

theorem retire_taken : Taken h h.retireLocked := by
  unfold MozcFirstHybrid.retireLocked
  split
  · have hunpublished : Kept h { h with candidateFencePublished := false } :=
      ⟨⟨fun _ x hx => ⟨x, hx⟩, rfl, rfl⟩, rfl⟩
    have hretired : Kept h h.unpublished := hunpublished.trans (discard_kept _)
    split
    · exact hretired.then (take_taken _)
    · exact hretired.taken
  · exact (Kept.refl h).taken

theorem miss_taken (revision : CompositionRevision) : Taken h (h.missLocked revision) :=
  (takeUnneeded_taken h).kept ⟨.rest rfl rfl rfl, rfl⟩

theorem lock_taken (revision : CompositionRevision) (learningRevision : UInt64) :
    Taken h (h.lockLocked revision learningRevision) := by
  have hfrozen (context : Option SpeculativeConversionContext) (step : Option PreparedStep) :
      Kept h { h with speculationState := .frozen revision context step } :=
    ⟨.rest rfl rfl rfl, rfl⟩
  unfold MozcFirstHybrid.lockLocked
  split
  · exact miss_taken h revision
  · split
    · exact (Kept.refl h).taken
    · exact miss_taken h revision
  · split
    · split
      · exact (hfrozen _ _).taken
      · exact (hfrozen _ _).then (take_taken _)
    · exact miss_taken h revision
  · split
    · exact (hfrozen _ _).taken
    · exact miss_taken h revision

theorem releaseUnused_taken : Taken h h.releaseUnusedLocked := by
  unfold MozcFirstHybrid.releaseUnusedLocked
  split
  · exact take_taken h
  · exact (Kept.refl h).taken

theorem releaseUnpublishedFrozen_taken : Taken h h.releaseUnpublishedFrozenLocked := by
  unfold MozcFirstHybrid.releaseUnpublishedFrozenLocked
  split
  · exact takeUnneeded_taken h
  · exact (Kept.refl h).taken

theorem takeDeferred_taken : Taken h h.takeDeferredFence := by
  unfold MozcFirstHybrid.takeDeferredFence
  split
  · exact take_taken h
  · exact (Kept.refl h).taken

theorem takeDiscarded_taken : Taken h h.takeDiscardedFence := by
  unfold MozcFirstHybrid.takeDiscardedFence
  split
  · exact take_taken h
  · exact (Kept.refl h).taken

theorem trim_kept : Kept h h.trimCandidateRoutes := by
  unfold MozcFirstHybrid.trimCandidateRoutes
  generalize h.candidateRouteOrder.length - 512 = excess
  exact ⟨⟨fun _ x hx => ⟨x, hx⟩, rfl, rfl⟩, rfl⟩

theorem purge_taken : Taken h h.purgeLocked := by
  have hemptied : Kept h h.emptied := ⟨.rest rfl rfl rfl, rfl⟩
  exact hemptied.then (take_taken h.emptied)

/-- The fence stays, or makes way for the work that is started. -/
theorem prepare_handed (context : SpeculativeConversionContext) :
    Handed h (h.prepareLocked context).2 := by
  unfold MozcFirstHybrid.prepareLocked
  split
  · exact .inl ⟨rfl, rfl⟩
  · exact (takeUnneeded_taken h).handed

/-- The worker keeps its fence and releases it, has none, or leaves it to the converter. -/
structure Completed (h : MozcFirstHybrid) (workID : UInt64)
    (prepared : Option (PreparedStep × Option UInt64)) (r : Bool × MozcFirstHybrid) : Prop extends
    Continues h r.2 where
  handed : r.2.candidateFence = h.candidateFence ∧
      (r.1 = true ∨ r.1 = false ∧ prepared.bind (·.2) = none) ∨
    ∃ fence, r.1 = false ∧ prepared.bind (·.2) = some fence ∧ r.2.candidateFence = some fence ∧
      ∃ context, h.speculationState = .pending workID context

theorem complete_completed (workID : UInt64) (context : SpeculativeConversionContext)
    (prepared : Option (PreparedStep × Option UInt64)) (learningRevision : UInt64) :
    Completed h workID prepared (h.completeLocked workID context prepared learningRevision) := by
  unfold MozcFirstHybrid.completeLocked
  split
  · rename_i hpending
    split
    · split
      · rename_i step fence
        cases fence with
        | none => exact ⟨.rest rfl rfl rfl, .inl ⟨rfl, .inr ⟨rfl, rfl⟩⟩⟩
        | some fence =>
          exact ⟨.rest rfl rfl rfl,
            .inr ⟨fence, rfl, rfl, rfl, context, of_decide_eq_true hpending⟩⟩
      · exact ⟨.rest rfl rfl rfl, .inl ⟨rfl, .inr ⟨rfl, rfl⟩⟩⟩
    · exact ⟨.rest rfl rfl rfl, .inl ⟨rfl, .inl rfl⟩⟩
  · exact ⟨.refl h, .inl ⟨rfl, .inl rfl⟩⟩

theorem admit_kept (workID learningRevision : UInt64) :
    Kept h (h.admitLocked workID learningRevision).2 := by
  unfold MozcFirstHybrid.admitLocked
  split
  · rename_i currentWorkID current hstate
    split
    · split
      · exact .refl h
      · refine ⟨⟨fun k x hx => ⟨current, ?_⟩, rfl, rfl⟩, rfl⟩
        rw [hstate, (SpeculationState.pending.inj hx).1]
    · exact .refl h
  · exact .refl h

/-! Steps. -/

/-- Submitted work carries its number. -/
def HybridSystem.Numbered (s : HybridSystem) : Prop :=
  ∀ (j : Nat) w, s.submitted[j]? = some w → w.job = j

theorem HybridSystem.Numbered.append {s : HybridSystem} {c : Nat} {workID : UInt64}
    (h : s.Numbered) (j : Nat) (w : Work)
    (hj : (s.submitted ++ [⟨s.submitted.length, c, workID⟩])[j]? = some w) : w.job = j := by
  rcases Nat.lt_or_ge j s.submitted.length with hlt | hge
  · rw [List.getElem?_append_left hlt] at hj
    exact h j w hj
  · rw [List.getElem?_append_right hge] at hj
    obtain ⟨hzero, rfl⟩ := List.getElem?_eq_some_iff.mp hj
    simp only [List.length_singleton] at hzero
    rw [List.getElem_singleton]
    dsimp only
    omega

def ConverterCall.convertsSegments : ConverterCall → Bool
  | .segmentCandidates _ _ => true
  | _ => false

/-- A discipline that allows the steps of a foreground thread wherever they are
taken, on the converters that are its own. -/
class Serves (D : Discipline childPort Work HybridSystem GateThread) (n : Nat)
    (own : Nat → Prop) : Prop extends D.Compatible where
  mozc : ∀ c request, Task.Steady hybridMachine D (.foreground n) (child c .mozc request)
  hazkey : ∀ c request, request.convertsSegments = false →
    Task.Steady hybridMachine D (.foreground n)
      (withHazkeyLock (.foreground n) (child c .hazkey request))
  suspend : Task.Steady hybridMachine D (.foreground n) (suspendSpeculation n)
  resume : Task.Steady hybridMachine D (.foreground n) (resumeSpeculation n)
  release : Task.Steady hybridMachine D (.foreground n) (releaseCandidateFence n)
  change : ∀ c, own c → ∀ f, (∀ h, Kept h (f h)) →
    Task.Steady hybridMachine D (.foreground n) (changeLocked c f)
  state : ∀ {α : Type} (c : Nat), own c → ∀ f : UInt64 → MozcFirstHybrid → α × MozcFirstHybrid,
    (∀ l h, Kept h (f l h).2) → Task.Steady hybridMachine D (.foreground n) (withStateLock c f)
  take : ∀ c, own c → ∀ f, (∀ l h, Taken h (f l h)) →
    Task.Steady hybridMachine D (.foreground n) (takeLocked n c f)
  prepare : ∀ c, own c → ∀ context,
    Task.Steady hybridMachine D (.foreground n) (prepareSpeculation n c context)
  look : ∀ {α : Type} (f : HybridSystem → α),
    Task.Steady hybridMachine D (.foreground n) (Task.atomically fun s => (f s, s))
  wait : ∀ c, Task.Steady hybridMachine D (.foreground n) (waitForActiveWorkToFinish c)
  returned : ∀ c, own c → ∀ request, request ≠ .purgeSensitiveState →
    Task.Steady hybridMachine D (.foreground n) (recordReturn c request)
  purge : ∀ c, own c → Task.Steady hybridMachine D (.foreground n)
    (purgeSensitiveState n c >>= fun a => recordReturn c .purgeSensitiveState >>= fun _ => pure a)
  act : ∀ c, own c → Task.Steady hybridMachine D (.foreground n) (beginReduction c)
  acted : ∀ c, own c → ∀ r, Task.Steady hybridMachine D (.foreground n) (endReduction c r)
  lock : Task.Steady hybridMachine D (.foreground n) (lockGate (.foreground n))
  unlock : Task.Steady hybridMachine D (.foreground n) (unlockOwnGate n)
  learn : ∀ revision, Task.Steady hybridMachine D (.foreground n) (recordLearning revision)

section

variable {D : Discipline childPort Work HybridSystem GateThread} {n c : Nat} {own : Nat → Prop}

/-! Two operations of several steps, where each of the steps is allowed anywhere. -/

section

variable [D.Compatible] (hrelease : Task.Steady hybridMachine D (.foreground n)
  (releaseCandidateFence n))
include hrelease

theorem steady_prepareSpeculation {context : SpeculativeConversionContext}
    (hlook : Task.Steady hybridMachine D (.foreground n)
      (Task.atomically fun s : HybridSystem => (s.learningRevision, s)))
    (hprepare : ∀ context, Task.Steady hybridMachine D (.foreground n)
      (prepareLocked n c context))
    (houtstanding : Task.Steady hybridMachine D (.foreground n) (changeLocked c fun h =>
      { h with outstandingWorkCountValue := h.outstandingWorkCountValue + 1 }))
    (hsubmit : ∀ workID, Task.Steady hybridMachine D (.foreground n) (submit c workID)) :
    Task.Steady hybridMachine D (.foreground n) (prepareSpeculation n c context) := by
  unfold prepareSpeculation
  split
  · refine .bind hlook fun _ => .bind (hprepare _) fun workID => .bind hrelease fun _ => ?_
    cases workID <;> (dsimp only; infer_instance)
  · infer_instance

theorem steady_purgeSensitiveState
    (hsuspend : Task.Steady hybridMachine D (.foreground n) (suspendSpeculation n))
    (htake : Task.Steady hybridMachine D (.foreground n)
      (takeLocked n c fun _ h => h.purgeLocked))
    (hmozc : Task.Steady hybridMachine D (.foreground n) (child c .mozc .purgeSensitiveState))
    (hhazkey : Task.Steady hybridMachine D (.foreground n)
      (withHazkeyLock (.foreground n) (child c .hazkey .purgeSensitiveState)))
    (hwait : Task.Steady hybridMachine D (.foreground n) (waitForActiveWorkToFinish c))
    (hresume : Task.Steady hybridMachine D (.foreground n) (resumeSpeculation n)) :
    Task.Steady hybridMachine D (.foreground n) (purgeSensitiveState n c) := by
  unfold purgeSensitiveState
  exact .bind hsuspend fun _ => .bind htake fun _ => inferInstance

end

section

theorem steady_call (hS : Serves D n own) (backend : Backend) {request : ConverterCall}
    (h : request.convertsSegments = false) :
    Task.Steady hybridMachine D (.foreground n) (call n c backend request) := by
  cases backend with
  | mozc => exact hS.mozc c request
  | hazkey => exact hS.hazkey c request h

variable [hS : Serves D n own] (hc : own c)
include hS hc

theorem steady_take {f : UInt64 → MozcFirstHybrid → Option UInt64 × MozcFirstHybrid}
    (hf : ∀ l h, Taken h (f l h)) :
    Task.Steady hybridMachine D (.foreground n)
      (takeLocked n c f >>= fun _ => releaseCandidateFence n) :=
  .bind (hS.take c hc f hf) fun _ => hS.release

theorem steady_route (candidate : ConverterCandidate) (backend : Backend) :
    Task.Steady hybridMachine D (.foreground n) (route c candidate backend) :=
  hS.state c hc _ fun _ _ => ⟨⟨fun _ x hx => ⟨x, hx⟩, rfl, rfl⟩, rfl⟩

theorem steady_routeAll (backend : Backend) (candidates : List ConverterCandidate) :
    Task.Steady hybridMachine D (.foreground n) (routeAll c backend candidates) := by
  induction candidates with
  | nil => exact .pure _
  | cons candidate rest ih =>
    have hroute := steady_route hc candidate backend (n := n) (D := D)
    unfold routeAll
    infer_instance

theorem steady_routeOutput (output : ConversionOutput) (backend : Backend) :
    Task.Steady hybridMachine D (.foreground n) (routeOutput c output backend) := by
  have hroute := steady_routeAll hc backend output.candidates (n := n) (D := D)
  unfold routeOutput
  infer_instance

theorem steady_routeResult (output : Except String ConversionOutput) :
    Task.Steady hybridMachine D (.foreground n) (routeResult c output) := by
  cases output with
  | error e => exact .pure _
  | ok output =>
    have hroute := steady_routeOutput hc output .mozc (n := n) (D := D)
    unfold routeResult
    infer_instance

theorem steady_candidateRoute (candidate : ConverterCandidate) :
    Task.Steady hybridMachine D (.foreground n) (candidateRoute c candidate) :=
  hS.state c hc _ fun _ h => .refl h

theorem steady_withRoute {α : Type} (candidate : ConverterCandidate)
    {p : Option CandidateRoute → HybridM α}
    (hp : ∀ route, Task.Steady hybridMachine D (.foreground n) (p route)) :
    Task.Steady hybridMachine D (.foreground n) (candidateRoute c candidate >>= p) :=
  .bind (steady_candidateRoute hc candidate) hp

theorem steady_dirty (backend : Backend) :
    Task.Steady hybridMachine D (.foreground n) (changeLocked c (·.dirty backend)) :=
  hS.change c hc _ fun _ => ⟨⟨fun _ x hx => ⟨x, hx⟩, rfl, rfl⟩, rfl⟩

theorem steady_releaseUnused :
    Task.Steady hybridMachine D (.foreground n) (releaseUnusedCandidateFence n c) :=
  steady_take hc fun _ h => releaseUnused_taken h

theorem steady_publishOrRelease (published : Bool) :
    Task.Steady hybridMachine D (.foreground n) (publishOrRelease n c published) := by
  have hpublish := hS.change c hc (·.publishLocked)
    fun _ => ⟨⟨fun _ x hx => ⟨x, hx⟩, rfl, rfl⟩, rfl⟩
  have hrelease := steady_releaseUnused hc (n := n) (D := D)
  unfold publishOrRelease
  infer_instance

theorem steady_realtimeCandidates (composition : CompositionInput) (options : ConversionOptions) :
    Task.Steady hybridMachine D (.foreground n) (realtimeCandidates c composition options) := by
  have hall := steady_routeAll hc (n := n) (D := D)
  unfold realtimeCandidates
  refine .bind (hS.mozc c _) fun output => ?_
  cases output <;> (dsimp only; infer_instance)

theorem steady_commitLearning :
    Task.Steady hybridMachine D (.foreground n) (commitLearning n c) := by
  have hmozc := hS.mozc c .commitLearning
  have hhazkey := hS.hazkey c .commitLearning rfl
  unfold commitLearning
  refine .bind (hS.state c hc _ fun _ _ => ⟨⟨fun _ x hx => ⟨x, hx⟩, rfl, rfl⟩, rfl⟩) fun _ =>
    .bind inferInstance fun _ => .bind inferInstance fun _ => ?_
  exact steady_take hc fun _ h => takeDeferred_taken h

theorem steady_stageLearning (candidate : ConverterCandidate) (reading : Text) :
    Task.Steady hybridMachine D (.foreground n) (stageLearning n c candidate reading) := by
  have hstage (backend : Backend) (token : ConverterLearningToken) :=
    hS.state c hc (fun _ h => h.stageLocked backend token)
      fun _ _ => ⟨⟨fun _ x hx => ⟨x, hx⟩, rfl, rfl⟩, rfl⟩
  refine steady_withRoute hc candidate fun route => ?_
  cases route with
  | none => exact .pure _
  | some route =>
    refine .bind (steady_call hS _ rfl) fun childToken => ?_
    cases childToken <;> (dsimp only; infer_instance)

theorem steady_unstage (token : ConverterLearningToken) :
    Task.Steady hybridMachine D (.foreground n)
      (withStateLock c fun _ h => h.unstageLocked token) :=
  hS.state c hc _ fun _ _ => ⟨⟨fun _ x hx => ⟨x, hx⟩, rfl, rfl⟩, rfl⟩

theorem steady_commitStagedLearning (token : ConverterLearningToken) :
    Task.Steady hybridMachine D (.foreground n) (commitStagedLearning n c token) := by
  refine .bind (steady_unstage hc token) fun route => ?_
  cases route with
  | none => exact .pure _
  | some route => exact .bind (steady_call hS _ rfl) fun _ => steady_dirty hc _

theorem steady_discardStagedLearning (token : ConverterLearningToken) :
    Task.Steady hybridMachine D (.foreground n) (discardStagedLearning n c token) := by
  refine .bind (steady_unstage hc token) fun route => ?_
  cases route with
  | none => exact .pure _
  | some route =>
    exact .bind (steady_call hS _ rfl) fun _ => steady_take hc fun _ h => takeDiscarded_taken h

variable [CanonicalText]

theorem steady_mergeOrdered (limit : Int) (ordered : List (Backend × ConverterCandidate))
    (seen : List (Int × Text)) (candidates : List ConverterCandidate) (published : Bool) :
    Task.Steady hybridMachine D (.foreground n)
      (mergeOrdered c limit ordered seen candidates published) := by
  induction ordered generalizing seen candidates published with
  | nil => exact .pure _
  | cons x rest ih =>
    have hroute := steady_route hc x.2 x.1 (n := n) (D := D)
    unfold mergeOrdered
    infer_instance

theorem steady_merge (primary secondary : ConversionOutput) (options : ConversionOptions) :
    Task.Steady hybridMachine D (.foreground n) (merge n c primary secondary options) := by
  have hall := steady_routeAll hc (n := n) (D := D)
  have houtput := steady_routeOutput hc (n := n) (D := D)
  have hrelease := steady_releaseUnused hc (n := n) (D := D)
  have hpublish := steady_publishOrRelease hc (n := n) (D := D)
  have hordered := steady_mergeOrdered hc (n := n) (D := D)
  have hpolicy := hS.look fun s => (s.converters c).promotionPolicy
  unfold merge
  cases primary.candidates <;> (dsimp only; infer_instance)

theorem steady_segmentCandidates (composition : CompositionInput) (options : ConversionOptions) :
    Task.Steady hybridMachine D (.foreground n) (segmentCandidates n c composition options) := by
  have hfrozen := hS.state c hc (fun _ h => (h.frozenOutput composition options, h))
    fun _ h => .refl h
  have houtput := steady_routeOutput hc (n := n) (D := D)
  have hmerge := steady_merge hc (n := n) (D := D)
  have hunpublished : Task.Steady hybridMachine D (.foreground n)
      (releaseUnpublishedFrozenFence n c) :=
    steady_take hc fun _ h => releaseUnpublishedFrozen_taken h
  unfold segmentCandidates
  refine .bind (hS.mozc c _) fun primary => ?_
  cases primary with
  | error e =>
    dsimp only
    infer_instance
  | ok primary =>
    refine .bind hfrozen fun secondary => ?_
    cases secondary <;> (dsimp only; infer_instance)

theorem steady_operate {request : ConverterCall} (hrequest : request ≠ .purgeSensitiveState) :
    Task.Steady hybridMachine D (.foreground n) (operate n c request) := by
  have hresult := steady_routeResult hc (n := n) (D := D)
  cases request with
  | supportsSegmentEditing => exact hS.mozc c _
  | display composition => exact hS.mozc c _
  | inputCursorPosition composition offset => exact hS.mozc c _
  | candidates composition options => exact .bind (hS.mozc c _) hresult
  | segmentCandidates composition options => exact steady_segmentCandidates hc _ _
  | realtimeCandidates composition options => exact steady_realtimeCandidates hc _ _
  | predictions composition options => exact .bind (hS.mozc c _) hresult
  | setCompletedData candidate =>
    refine steady_withRoute hc candidate fun route => ?_
    cases route with
    | none => exact .pure _
    | some route => exact steady_call hS _ rfl
  | updateLearningData candidate =>
    refine steady_withRoute hc candidate fun route => ?_
    cases route with
    | none => exact .pure _
    | some route => exact .bind (steady_call hS _ rfl) fun _ => steady_dirty hc _
  | commitLearning => exact steady_commitLearning hc
  | stageLearning candidate reading => exact steady_stageLearning hc _ _
  | commitStagedLearning token => exact steady_commitStagedLearning hc _
  | discardStagedLearning token => exact steady_discardStagedLearning hc _
  | forget candidate =>
    refine steady_withRoute hc candidate fun route => ?_
    cases route with
    | none => exact .pure _
    | some route => exact steady_call hS _ rfl
  | stopComposition =>
    exact .bind (hS.mozc c _) fun _ =>
      steady_take hc fun _ h => (trim_kept h).then (takeDeferred_taken _)
  | purgeSensitiveState => exact absurd rfl hrequest
  | prepareSpeculativeConversion context => exact hS.prepare c hc _
  | invalidateSpeculativeConversion reason =>
    exact steady_take hc fun _ h => invalidate_taken h reason
  | lockCandidateOrder revision => exact steady_take hc fun l h => lock_taken h revision l
  | retireCandidateWindow => exact steady_take hc fun _ h => retire_taken h

/-- Every method of the converter is allowed. -/
theorem steady_serve (request : ConverterCall) :
    Task.Steady hybridMachine D (.foreground n) (serve n c request) := by
  by_cases hrequest : request = .purgeSensitiveState
  · subst hrequest
    exact hS.purge c hc
  · exact .bind (steady_operate hc hrequest) fun _ =>
      .bind (hS.returned c hc request hrequest) fun _ => inferInstance

end

/-! Scripts. -/

variable [CanonicalText]

/-- The command concerns no converter but those of `own`. -/
def ForegroundCommand.Concerns (own : Nat → Prop) : ForegroundCommand → Prop
  | .reduce c _ => own c
  | .operate c _ => own c
  | _ => True

theorem steady_operateProgram [hS : Serves D n own] (hc : own c) {α : Type}
    (p : Prog converterPort ImeReducer α) (r : ImeReducer) :
    Task.Steady hybridMachine D (.foreground n) (operateProgram n c p r) := by
  induction p generalizing r with
  | pure a => exact .pure _
  | get k ih => exact ih r r
  | set u k ih => exact ih u
  | call request k ih => exact .bind (steady_serve hc request) fun a => ih a r

variable [SwiftText] [RecoveryCodec]

theorem steady_command [hS : Serves D n own] (command : ForegroundCommand)
    (hc : command.Concerns own) :
    Task.Steady hybridMachine D (.foreground n) (command.run n) := by
  cases command with
  | reduce c e =>
    exact .bind (hS.act c hc) fun r => .bind (steady_operateProgram hc e.program r) fun result =>
      hS.acted c hc result.2
  | operate c request =>
    exact .bind (steady_serve hc request) fun _ => .pure ()
  | acquireFence => exact hS.suspend
  | releaseFence => exact hS.resume
  | lock => exact hS.lock
  | unlock => exact hS.unlock
  | recordLearning revision => exact hS.learn revision

/-- Every script is allowed. -/
theorem steady_foreground [hS : Serves D n own] (script : List ForegroundCommand)
    (hc : ∀ command ∈ script, command.Concerns own) :
    Task.Steady hybridMachine D (.foreground n) (foreground n script) := by
  induction script with
  | nil => exact .pure _
  | cons command rest ih =>
    exact .bind (steady_command command (hc command List.mem_cons_self)) fun _ =>
      ih fun other hother => hc other (List.mem_cons_of_mem _ hother)

end

end Hazkey
