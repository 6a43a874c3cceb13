import Hazkey.FenceExclusion
import Hazkey.HybridEvaluation

/-! Fence exclusion in every interleaving of the workers with the foreground. -/

namespace Hazkey

open ServiceProgram Interleaving FenceAccounts

attribute [local instance] scalarText byteCodec composedText

variable {s s' u : HybridSystem} {c j : Nat} {p : Prop}

/-- The worker is in the gate and has its lock; where `p` holds, no candidate fence
is held. -/
structure Inside (p : Prop) (j : Nat) (s : HybridSystem) : Prop where
  owner : s.gate.owner = some (.worker j)
  admitted : s.admitted j = true
  clean : p → s.Clean

theorem Inside.rely (h : Inside p j s) (hr : Undisturbed (.worker j) s u) : Inside p j u where
  owner := hr.owner h.owner
  admitted := (hr.work j rfl).trans h.admitted
  clean hp := hr.clean h.owner (h.clean hp)

/-- A step of the worker and those of the others after it. -/
theorem Inside.next (h : Inside p j s) (hr : Undisturbed (.worker j) s' u)
    (howner : s'.gate.owner = s.gate.owner) (hadmitted : s'.admitted = s.admitted)
    (hclean : p → s.Clean → s'.Clean) : Inside p j u := by
  refine Inside.rely ⟨howner.trans h.owner, ?_, fun hp => hclean hp (h.clean hp)⟩ hr
  rw [hadmitted]
  exact h.admitted

theorem Inside.weaken (h : Inside p j s) : Inside False j s := ⟨h.owner, h.admitted, False.elim⟩

/-- The worker has the lock and is not in the gate. -/
structure Outside (j : Nat) (s : HybridSystem) : Prop where
  owner : s.gate.owner = some (.worker j)
  admitted : s.admitted j = false

theorem Outside.rely (h : Outside j s) (hr : Undisturbed (.worker j) s u) : Outside j u where
  owner := hr.owner h.owner
  admitted := (hr.work j rfl).trans h.admitted

/-! The body. -/

/-- What the worker does under the lock of a converter leaves the gate alone. -/
theorem safe_state {α : Type} {f : UInt64 → MozcFirstHybrid → α × MozcFirstHybrid}
    (hf : ∀ l h, Kept h (f l h).2) (hs : Inside p j s) :
    (withStateLock c f).Safe hybridMachine exclusion (.worker j) (fun _ => Inside p j) s :=
  Task.Safe.atomically fun u hsu hu _ =>
    ⟨allows_kept hu.1 (f := fun _ => (f u.learningRevision (u.converters c)).2) (hf _ _),
      fun _ hv _ => (hs.rely hsu).next hv rfl rfl fun _ => id⟩

theorem safe_change {f : MozcFirstHybrid → MozcFirstHybrid} (hf : ∀ h, Kept h (f h))
    (hs : Inside p j s) :
    (changeLocked c f).Safe hybridMachine exclusion (.worker j) (fun _ => Inside p j) s :=
  Task.Safe.modify fun _ hsu hu _ =>
    ⟨allows_kept hu.1 (hf _), fun _ hv _ => (hs.rely hsu).next hv rfl rfl fun _ => id⟩

theorem safe_child {backend : Backend} {request : ConverterCall} (hs : Inside p j s) :
    (child c backend request).Safe hybridMachine exclusion (.worker j) (fun _ => Inside p j) s :=
  Task.Safe.invoke fun _ hsu hu _ _ =>
    ⟨allows_answer hu.1 fun _ _ _ _ => ⟨j, rfl, (hs.rely hsu).admitted⟩,
      fun _ hv _ => (hs.rely hsu).next hv rfl rfl fun _ => id⟩

theorem safe_acquireWorkFence (hs : Inside True j s) :
    (acquireWorkFence j).Safe hybridMachine exclusion (.worker j)
      (fun _ => Inside False j) s := by
  refine Task.Safe.await fun u hsu hu hready _ => ?_
  have hin := hs.rely hsu
  refine ⟨allows_acquire hu.1 hready hin.owner (hin.clean trivial), fun v hv _ => ?_⟩
  have howner : u.gate.acquireSpeculationFence.2.owner = u.gate.owner := by
    obtain ⟨token, next, -, hacquire⟩ := ExecutionGate.acquire_spec hready
    rw [hacquire]
  exact Inside.next ⟨hin.owner, hin.admitted, False.elim⟩ hv howner rfl False.elim

theorem safe_releaseWorkFence (hs : Inside False j s) :
    (releaseWorkFence j).Safe hybridMachine exclusion (.worker j)
      (fun _ => Inside False j) s := by
  refine Task.Safe.modify fun u hsu hu _ => ?_
  have hin := hs.rely hsu
  cases hj : u.workFence j with
  | none => exact ⟨allows_quiet hu.1 rfl rfl rfl rfl rfl rfl, fun v hv _ => hin.rely hv⟩
  | some token =>
    exact ⟨allows_released hu.1 (a := .work j) hj (HybridSystem.held_work none) rfl rfl rfl rfl rfl,
      fun v hv _ => hin.next hv rfl rfl False.elim⟩

/-- The result is stored with its fence, which goes to the converter. -/
theorem safe_completeWork {workID : UInt64} {context : SpeculativeConversionContext}
    {step : Option PreparedStep} (hs : Inside False j s) :
    (completeWork c j workID context step).Safe hybridMachine exclusion (.worker j)
      (fun _ => Inside False j) s := by
  refine Task.Safe.atomically fun u hsu hu _ => ?_
  have hin := hs.rely hsu
  refine ⟨?_, fun v hv _ => hin.next hv rfl rfl False.elim⟩
  have hcompleted := complete_completed (u.converters c) workID context
    (step.map fun step => (step, u.workFence j)) u.learningRevision
  generalize (u.converters c).completeLocked workID context
    (step.map fun step => (step, u.workFence j)) u.learningRevision = r at hcompleted
  dsimp only
  generalize hw : { u.withConverter c fun _ => r.2 with
    workFence := if r.1 = true then u.workFence else Function.update u.workFence j none } = w
  have hbeside : Beside u w := by
    subst hw
    exact beside_of_gate rfl rfl rfl rfl rfl
  have hgate : w.gate = u.gate := hw ▸ rfl
  have hacquired : w.acquiredBy = u.acquiredBy := hw ▸ rfl
  rcases HybridSystem.held_completed hcompleted hw.symm with hheld | ⟨-, hheld⟩ | ⟨-, hheld⟩
  · exact hbeside.allows_same hu.1 (congrArg _ hgate) hacquired hheld
  · exact hbeside.allows_drop hu.1 (congrArg _ hgate) hacquired hheld
  · exact hbeside.allows_handOver hu.1 (congrArg _ hgate) hacquired (a := .work j)
      (b := .candidate c) rfl hheld

theorem safe_makeHazkeyStep {context : SpeculativeConversionContext} {workID : UInt64}
    (hs : exclusion.Holds s) (hin : Inside True j s) :
    (makeHazkeyStep c context workID).Safe hybridMachine exclusion (.worker j)
      (fun _ => Inside True j) s := by
  have hlook : ∀ (v : HybridSystem), Inside True j v →
      (withStateLock c fun _ h => (h.speculationIsPending workID context, h)).Safe hybridMachine
        exclusion (.worker j) (fun _ => Inside True j) v :=
    fun v hv => safe_state (fun _ h => .refl h) hv
  have hreturn {α : Type} (a : α) (v : HybridSystem) (hv : Inside True j v) :
      (pure a : HybridM α).Safe hybridMachine exclusion (.worker j) (fun _ => Inside True j) v :=
    fun _ hw _ => hv.rely hw
  refine (hlook s hin).bind inferInstance hs fun pending v hv hin => ?_
  refine .ite (fun _ => ?_) fun _ => hreturn _ v hin
  refine (safe_child hin).bind inferInstance hv fun requested w hw hin => ?_
  cases requested with
  | error e => exact hreturn _ w hin
  | ok requested => exact (hlook w hin).bind inferInstance hw fun _ x _ hin => hreturn _ x hin

theorem safe_performAdmittedHazkeyStep {w : Work} (hs : exclusion.Holds s)
    (hin : Inside True w.job s) :
    (performAdmittedHazkeyStep w).Safe hybridMachine exclusion (.worker w.job)
      (fun _ => Inside False w.job) s := by
  refine (safe_state (fun l h => admit_kept h w.workID l) hin).bind inferInstance hs
    fun admitted v hv hin => ?_
  cases admitted with
  | none => exact fun _ hx _ => hin.weaken.rely hx
  | some context =>
    refine (safe_makeHazkeyStep hv hin).bind inferInstance hv fun step v hv hin => ?_
    have hacquire := Task.Safe.ite (c := step.any (·.teaches) = true)
      (fun _ => safe_acquireWorkFence hin) (q := (.done () : HybridM Unit))
      fun _ => fun _ hx _ => hin.weaken.rely hx
    refine hacquire.bind inferInstance hv fun _ v hv hin => ?_
    refine (safe_child hin).bind inferInstance hv fun _ v hv hin => ?_
    refine (safe_completeWork hin).bind inferInstance hv fun release v hv hin => ?_
    exact .ite (fun _ => safe_releaseWorkFence hin) fun _ => fun _ hx _ => hin.rely hx

theorem safe_prepareHazkeyStep {w : Work} (hs : exclusion.Holds s) (hin : Inside True w.job s) :
    (prepareHazkeyStep w).Safe hybridMachine exclusion (.worker w.job)
      (fun _ => Inside False w.job) s := by
  have hkept (k : Int) (h : MozcFirstHybrid) :
      Kept h { h with activeWorkCount := h.activeWorkCount + k } :=
    ⟨⟨fun _ x hx => ⟨x, hx⟩, rfl, rfl⟩, rfl⟩
  refine (safe_change (hkept 1) hin).bind inferInstance hs fun _ v hv hin => ?_
  refine (safe_performAdmittedHazkeyStep hv hin).bind inferInstance hv fun _ v hv hin => ?_
  exact safe_change (hkept (-1)) hin

/-! Admission. -/

/-- Whoever is in the gate has its lock, so at most one worker is. -/
theorem none_inside (hs : Exclusive s) (h : s.gate.owner = some (.worker j)) {k : Nat}
    (hk : k ≠ j) : s.admitted k = false := by
  by_contra hadmitted
  rw [Bool.not_eq_false] at hadmitted
  have howner := (hs.admitted k hadmitted).symm.trans h
  exact hk (GateThread.worker.inj (Option.some.inj howner))

theorem allows_waiting (hs : Exclusive s) (k : Int) :
    exclusion.Allows (.worker j) s (s.withGate (·.waiting k)) := by
  have hbeside : Beside s (s.withGate (·.waiting k)) :=
    ⟨rfl, rfl, rfl, rfl, id, fun _ hv hsp => ⟨hv, hsp⟩, calls_none s⟩
  exact hbeside.allows_same hs rfl rfl rfl

/-- A worker enters and leaves the gate while it has the lock. -/
theorem allows_attend (hs : Exclusive s) (howner : s.gate.owner = some (.worker j))
    {present : Bool} (hwas : s.admitted j = !present)
    (hpresent : present = true → s.gate.speculationFences = ∅) :
    exclusion.Allows (.worker j) s (s.attend j present) := by
  have hother {i : Nat} (hi : i ≠ j) : (s.attend j present).admitted i = false :=
    (Function.update_of_ne hi _ _).trans (none_inside hs howner hi)
  have hself : (s.attend j present).admitted j = present := Function.update_self _ _ _
  have hsole {i : Nat} (hi : (s.attend j present).admitted i = true) : i = j := by
    by_contra hij
    rw [hother hij] at hi
    cases hi
  have hactive : (∃ i, (s.attend j present).admitted i = true) ∧
        (s.attend j present).gate.activeSpeculationCountValue = 1 ∨
      (∀ i, (s.attend j present).admitted i = false) ∧
        (s.attend j present).gate.activeSpeculationCountValue = 0 := by
    rcases hs.active with ⟨⟨k, hk⟩, hone⟩ | ⟨hnone, hzero⟩
    · have hkj : k = j := by
        by_contra hkj
        rw [none_inside hs howner hkj] at hk
        cases hk
      rw [hkj, hwas] at hk
      have hpresent : present = false := by simpa using hk
      subst hpresent
      refine .inr ⟨fun i => ?_, ?_⟩
      · by_cases hi : i = j
        · exact hi ▸ hself
        · exact hother hi
      · change s.gate.activeSpeculationCountValue + -1 = 0
        omega
    · have hpresent : present = true := by simpa using hwas.symm.trans (hnone j)
      subst hpresent
      refine .inl ⟨⟨j, hself⟩, ?_⟩
      change s.gate.activeSpeculationCountValue + 1 = 1
      omega
  refine ⟨⟨hs.lock, fun i hi => hsole hi ▸ howner, hactive, hs.numbered, hs.accounts, hs.source,
    hs.sole⟩, fun t ht => ?_, fun i hi => ?_, calls_none s⟩
  · have hnot : s.gate.owner ≠ some t := fun ho => ht (Option.some.inj (ho.symm.trans howner))
    refine ⟨fun ho => absurd ho hnot, fun ho => absurd ho hnot, fun i hi => ?_⟩
    have hij : i ≠ j := fun he => ht (hi.trans (congrArg _ he))
    exact Function.update_of_ne hij _ _
  · obtain rfl := hsole hi
    exact .inr (hpresent (hself.symm.trans hi))

/-- The attempt waits until no fence is held, and then for the lock. -/
theorem safe_lockGate (hout : s.admitted j = false) :
    (lockGate (.worker j)).Safe hybridMachine exclusion (.worker j) (fun _ => Outside j) s := by
  refine .await fun u hsu hu hready _ => ?_
  have hout := (hsu.work j rfl).trans hout
  refine ⟨allows_lock hu.1 hready fun k hk => GateThread.worker.inj hk ▸ hout, fun v hv _ => ?_⟩
  have hlocked : Outside j (u.withGate (·.lock (.worker j))) := ⟨rfl, hout⟩
  exact hlocked.rely hv

theorem safe_unlockGate (hs : Outside j s) :
    unlockGate.Safe hybridMachine exclusion (.worker j) (fun _ u => u.admitted j = false) s := by
  refine .modify fun u hsu hu _ => ?_
  have hout := hs.rely hsu
  refine ⟨allows_unlock hu.1 hout.owner fun k hk => ?_, fun v hv _ =>
    (hv.work j rfl).trans hout.admitted⟩
  exact GateThread.worker.inj hk ▸ hout.admitted

/-- With the lock the worker looks again whether a fence is held. -/
theorem safe_enterGate (hs : Outside j s) :
    (enterGate j).Safe hybridMachine exclusion (.worker j)
      (fun admitted u => if admitted = true then Inside True j u else Outside j u) s := by
  refine .atomically fun u hsu hu _ => ?_
  have hout := hs.rely hsu
  by_cases hfences : u.gate.speculationFences = ∅
  · rw [if_pos hfences]
    refine ⟨allows_attend hu.1 hout.owner hout.admitted fun _ => hfences, fun v hv _ => ?_⟩
    have hclean : (u.attend j true).Clean := fun v hv => by
      change v ∈ u.gate.speculationFences at hv
      rw [hfences] at hv
      exact absurd hv (Finset.notMem_empty v)
    have hin : Inside True j (u.attend j true) :=
      ⟨hout.owner, Function.update_self _ _ _, fun _ => hclean⟩
    exact hin.rely hv
  · rw [if_neg hfences]
    exact ⟨allows_quiet hu.1 rfl rfl rfl rfl rfl rfl, fun v hv _ => hout.rely hv⟩

theorem safe_leaveGate (hs : Inside False j s) :
    (leaveGate j).Safe hybridMachine exclusion (.worker j) (fun _ => Outside j) s := by
  refine .modify fun u hsu hu _ => ?_
  have hin := hs.rely hsu
  refine ⟨allows_attend hu.1 hin.owner hin.admitted fun h => absurd h Bool.false_ne_true,
    fun v hv _ => ?_⟩
  have hout : Outside j (u.attend j false) := ⟨hin.owner, Function.update_self _ _ _⟩
  exact hout.rely hv

theorem safe_beginWaiting (hout : s.admitted j = false) :
    beginWaiting.Safe hybridMachine exclusion (.worker j) (fun _ u => u.admitted j = false) s := by
  refine .atomically fun u hsu hu _ => ?_
  have hout := (hsu.work _ rfl).trans hout
  split
  · exact ⟨allows_quiet hu.1 rfl rfl rfl rfl rfl rfl, fun _ hx _ => (hx.work _ rfl).trans hout⟩
  · exact ⟨allows_waiting hu.1 1, fun _ hx _ => (hx.work _ rfl).trans hout⟩

theorem safe_endWaiting (hout : s.admitted j = false) :
    endWaiting.Safe hybridMachine exclusion (.worker j) (fun _ u => u.admitted j = false) s :=
  .await fun _ hsu hu _ _ => ⟨allows_waiting hu.1 (-1), fun _ hx _ =>
    (hx.work _ rfl).trans ((hsu.work _ rfl).trans hout)⟩

theorem allows_idle (hs : Exclusive s) : exclusion.Allows (.worker j) s s :=
  allows_quiet hs rfl rfl rfl rfl rfl rfl

theorem safe_speculate {w : Work} (hs : exclusion.Holds s) (hout : s.admitted w.job = false) :
    (speculate w).Safe hybridMachine exclusion (.worker w.job) (fun _ _ => True) s := by
  refine (safe_beginWaiting hout).bind inferInstance hs fun blocked v hv hout => ?_
  refine Task.Safe.bind (Q := fun _ u => u.admitted w.job = false) inferInstance hv
    (.ite (fun _ => safe_endWaiting hout) fun _ => fun _ hx _ => (hx.work _ rfl).trans hout)
    fun _ v hv hout => ?_
  refine (safe_lockGate hout).bind inferInstance hv fun _ v hv hout => ?_
  refine (safe_enterGate hout).bind inferInstance hv fun admitted v hv hadmitted => ?_
  refine .ite (fun h => ?_) fun h => ?_
  · rw [if_pos h] at hadmitted
    refine (safe_prepareHazkeyStep hv hadmitted).bind inferInstance hv fun _ v hv hin => ?_
    refine (safe_leaveGate hin).bind inferInstance hv fun _ v hv hout => ?_
    refine (safe_unlockGate hout).bind inferInstance hv fun _ v hv _ => ?_
    exact .modify fun u _ hu _ => ⟨allows_kept hu.1 ⟨⟨fun _ x hx => ⟨x, hx⟩, rfl, rfl⟩, rfl⟩,
      fun _ _ _ => trivial⟩
  · rw [if_neg h] at hadmitted
    refine (safe_unlockGate hadmitted).bind inferInstance hv fun _ v hv hout => ?_
    exact fun u hvu hu => ⟨(allows_idle hu.1).guar, rfl, (hvu.work _ rfl).trans hout⟩

theorem safe_worker (hout : s.admitted j = false) :
    (worker j).Safe hybridMachine exclusion (.worker j) (fun _ _ => True) s := by
  intro u hsu hu _ _
  refine ⟨allows_idle hu.1, ?_⟩
  dsimp only
  cases hw : u.submitted[j]? with
  | none => exact fun _ _ _ => trivial
  | some w =>
    obtain rfl := hu.1.numbered j w hw
    exact fun v hv hvi => ⟨(allows_idle hvi.1).guar, rfl,
      (hv.work _ rfl).trans ((hsu.work _ rfl).trans hout)⟩

/-! Every interleaving. -/

section

variable [SwiftText] [RecoveryCodec] [CanonicalText]
variable {scripts : Nat → List ForegroundCommand} {promotionPolicy : Nat → HybridPromotionPolicy}
  {policy : Nat → PinnedCompositionPolicy} {stagedLearningEnabled : Nat → Bool}
  {learningRevision : UInt64} {p q : Pool childPort Work HybridSystem GateThread}

theorem start_held : (startProcess scripts promotionPolicy policy stagedLearningEnabled
    learningRevision).state.held = fun _ => none := by
  funext x
  cases x <;> rfl

theorem start_exclusive : Exclusive (startProcess scripts promotionPolicy policy
    stagedLearningEnabled learningRevision).state where
  lock := ⟨fun _ => rfl, fun _ => rfl⟩
  admitted j hj := absurd hj Bool.false_ne_true
  active := .inr ⟨fun _ => rfl, rfl⟩
  numbered j w hw := nomatch hw
  accounts := by
    rw [start_held]
    exact ⟨fun _ _ h => (nomatch h), fun _ _ _ h => (nomatch h)⟩
  source := by
    rw [start_held]
    exact fun _ _ h => (nomatch h)
  sole v _ hv := absurd hv (Finset.notMem_empty v)

theorem start_disciplined : (startProcess scripts promotionPolicy policy stagedLearningEnabled
    learningRevision).Disciplined hybridMachine exclusion where
  inv := start_exclusive
  safe t := by
    cases t with
    | foreground n =>
      exact (steady_foreground (scripts n)
        (show ∀ command ∈ scripts n, command.Concerns fun _ => True from fun command _ => by
          cases command <;> trivial)).safe _ ⟨start_exclusive, trivial⟩
    | worker j => exact safe_worker rfl

theorem reaches_disciplined (h : Pool.Reaches hybridMachine (startProcess scripts promotionPolicy
    policy stagedLearningEnabled learningRevision) p) : p.Disciplined hybridMachine exclusion :=
  start_disciplined.reaches inferInstance
    (fun _ _ _ hs hlabel => hlabel.1 ▸ safe_speculate hs hlabel.2) (fun _ _ => trivial) h

/-- At most one candidate fence is held; while a foreground thread has the lock of the
gate no worker is in it; a worker enters where no fence is held, only a worker that is
in the gate converts speculatively, and nobody loses the lock to another thread. -/
theorem fence_exclusion (h : Pool.Reaches hybridMachine (startProcess scripts promotionPolicy
    policy stagedLearningEnabled learningRevision) p) :
    (∀ v v', v ∈ p.state.gate.speculationFences → v' ∈ p.state.gate.speculationFences →
      p.state.Speculative v → p.state.Speculative v' → v = v') ∧
    (∀ c c' v v', (p.state.converters c).candidateFence = some v →
      (p.state.converters c').candidateFence = some v' → c = c') ∧
    (∀ n j, p.state.gate.owner = some (.foreground n) → p.state.admitted j = false) ∧
    ∀ t q, Pool.Step hybridMachine t p q →
      (∀ j, q.state.admitted j = true →
        p.state.admitted j = true ∨ p.state.gate.speculationFences = ∅) ∧
      (∃ new, q.state.log = p.state.log ++ new ∧ ∀ e ∈ new, e.speculates = true →
        ∃ j, e.thread = .worker j ∧ p.state.admitted j = true) ∧
      ∀ u, u ≠ t → p.state.gate.owner = some u → q.state.gate.owner = some u := by
  have hp := reaches_disciplined h
  have hexclusive : Exclusive p.state := hp.inv
  refine ⟨hexclusive.sole, fun c c' v v' hc hc' => ?_, fun n j hn => ?_, fun t q hstep => ?_⟩
  · have hv := hexclusive.accounts.mem (.candidate c) v hc
    have hv' := hexclusive.accounts.mem (.candidate c') v' hc'
    have hsp := (hexclusive.source (.candidate c) v hc).mpr rfl
    have hsp' := (hexclusive.source (.candidate c') v' hc').mpr rfl
    obtain rfl := hexclusive.sole v v' hv hv' hsp hsp'
    exact FenceHolder.candidate.inj (hexclusive.accounts.distinct _ _ v hc hc')
  · by_contra hj
    rw [Bool.not_eq_false] at hj
    have howner := (hexclusive.admitted j hj).symm.trans hn
    cases howner
  · have hguar : Excludes t p.state q.state := (hp.step inferInstance
      (fun _ _ _ hs hlabel => hlabel.1 ▸ safe_speculate hs hlabel.2) trivial trivial hstep).2
    exact ⟨hguar.admission, hguar.calls, fun u hu ho => (hguar.others u hu).owner ho⟩

end

/-- A worker that is in the gate has converted the input and holds a fence for it. -/
theorem fence_exclusion_insert :
    ∃ p, Pool.Reaches hybridMachine
        (soloProcess [.reduce 0 (request (.insertText "か".toList) "1")]) p ∧
      p.state.gate.speculationFences = {1} ∧
      ∀ v v', v ∈ p.state.gate.speculationFences → v' ∈ p.state.gate.speculationFences →
        p.state.Speculative v → p.state.Speculative v' → v = v' := by
  have hrun : (scheduled [.reduce 0 (request (.insertText "か".toList) "1")]
      (List.replicate 16 (.foreground 0) ++ List.replicate 12 (.worker 0))).map
      (·.state.gate.speculationFences) = some {1} := by decide +kernel
  obtain ⟨p, hp, hfences⟩ := Option.map_eq_some_iff.mp hrun
  have hreach := Pool.schedule_reaches hp
  exact ⟨p, hreach, hfences, (fence_exclusion hreach).1⟩

end Hazkey
