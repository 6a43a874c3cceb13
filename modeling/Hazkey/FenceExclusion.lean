import Hazkey.FenceHolders

/-! Fence exclusion: speculative work enters the gate only where no fence is
held, holds its lock throughout, and leaves at most one candidate fence. -/

namespace Hazkey

open ServiceProgram Interleaving FenceAccounts

namespace HybridSystem

/-- A fence that was acquired for candidates, by a worker. -/
def Speculative (s : HybridSystem) (v : UInt64) : Prop := ∃ j, s.acquiredBy v = some (.worker j)

/-- No candidate fence is held. -/
def Clean (s : HybridSystem) : Prop := ∀ v ∈ s.gate.speculationFences, ¬ s.Speculative v

end HybridSystem

/-- The worker that is in the gate holds its lock, and fences are accounted for. -/
structure Exclusive (s : HybridSystem) : Prop where
  lock : s.gate.owner = none ↔ s.gate.depth = 0
  admitted : ∀ j, s.admitted j = true → s.gate.owner = some (.worker j)
  active : (∃ j, s.admitted j = true) ∧ s.gate.activeSpeculationCountValue = 1 ∨
    (∀ j, s.admitted j = false) ∧ s.gate.activeSpeculationCountValue = 0
  numbered : s.Numbered
  accounts : Accounts s.held s.gate.speculationFences
  source : ∀ x v, s.held x = some v → (s.Speculative v ↔ x.isSuspension = false)
  sole : ∀ v v', v ∈ s.gate.speculationFences → v' ∈ s.gate.speculationFences →
    s.Speculative v → s.Speculative v' → v = v'

/-- A call that converts segments speculatively. -/
def ChildEvent.speculates (e : ChildEvent) : Bool :=
  e.call.backend = .hazkey && e.call.call.convertsSegments

/-- What a thread finds unchanged: the lock while it owns it, and that only the
owner of the lock adds a candidate fence. -/
structure Undisturbed (t : GateThread) (s s' : HybridSystem) : Prop where
  owner : s.gate.owner = some t → s'.gate.owner = some t
  clean : s.gate.owner = some t → s.Clean → s'.Clean
  work : ∀ j, t = .worker j → s'.admitted j = s.admitted j

/-- What a step of a thread does to the gate: a worker is admitted where no fence
is held, and only an admitted worker converts speculatively. -/
structure Excludes (t : GateThread) (s s' : HybridSystem) : Prop where
  others : ∀ u, u ≠ t → Undisturbed u s s'
  admission : ∀ j, s'.admitted j = true → s.admitted j = true ∨ s.gate.speculationFences = ∅
  calls : ∃ new, s'.log = s.log ++ new ∧ ∀ e ∈ new, e.speculates = true →
    ∃ j, e.thread = .worker j ∧ s.admitted j = true

def exclusion : Discipline childPort Work HybridSystem GateThread where
  inv := Exclusive
  rely := Undisturbed
  guar := Excludes
  label t w s := t = .worker w.job ∧ s.admitted w.job = false

instance : exclusion.Compatible where
  refl _ _ := ⟨id, fun _ => id, fun _ _ => rfl⟩
  trans _ _ _ _ h₁ h₂ :=
    ⟨fun h => h₂.owner (h₁.owner h), fun h hc => h₂.clean (h₁.owner h) (h₁.clean h hc),
      fun j hj => (h₂.work j hj).trans (h₁.work j hj)⟩
  guar _ u _ _ htu _ _ h := h.others u fun he => htu he.symm

variable {t : GateThread} {s u : HybridSystem} {n c j : Nat}

/-! Steps that change no lock. -/

/-- A step beside the lock: it admits nobody, adds no candidate fence and makes
no speculative call. -/
structure Beside (s s' : HybridSystem) : Prop where
  owner : s'.gate.owner = s.gate.owner
  depth : s'.gate.depth = s.gate.depth
  active : s'.gate.activeSpeculationCountValue = s.gate.activeSpeculationCountValue
  admitted : s'.admitted = s.admitted
  numbered : s.Numbered → s'.Numbered
  fences : ∀ v ∈ s'.gate.speculationFences, s'.Speculative v →
    v ∈ s.gate.speculationFences ∧ s.Speculative v
  calls : ∃ new, s'.log = s.log ++ new ∧ ∀ e ∈ new, e.speculates = true →
    ∃ j, e.thread = .worker j ∧ s.admitted j = true

theorem calls_none (s : HybridSystem) : ∃ new, s.log = s.log ++ new ∧
    ∀ e ∈ new, e.speculates = true → ∃ j, e.thread = .worker j ∧ s.admitted j = true :=
  ⟨[], (List.append_nil _).symm, fun _ he => absurd he List.not_mem_nil⟩

theorem Beside.clean {s' : HybridSystem} (h : Beside s s') (hc : s.Clean) : s'.Clean :=
  fun v hv hsp => hc v (h.fences v hv hsp).1 (h.fences v hv hsp).2

theorem Beside.excludes {s' : HybridSystem} (h : Beside s s') : Excludes t s s' where
  others _ _ := ⟨fun ho => h.owner.trans ho, fun _ => h.clean, fun j _ => congrFun h.admitted j⟩
  admission j hj := .inl ((congrFun h.admitted j).symm.trans hj)
  calls := h.calls

theorem Beside.exclusive {s' : HybridSystem} (h : Beside s s') (hs : Exclusive s)
    (haccounts : Accounts s'.held s'.gate.speculationFences)
    (hsource : ∀ x v, s'.held x = some v → (s'.Speculative v ↔ x.isSuspension = false)) :
    Exclusive s' where
  lock := by
    rw [h.owner, h.depth]
    exact hs.lock
  admitted := by
    rw [h.owner, h.admitted]
    exact hs.admitted
  active := by
    rw [h.active, h.admitted]
    exact hs.active
  numbered := h.numbered hs.numbered
  accounts := haccounts
  source := hsource
  sole v v' hv hv' hsp hsp' :=
    hs.sole v v' (h.fences v hv hsp).1 (h.fences v' hv' hsp').1 (h.fences v hv hsp).2
      (h.fences v' hv' hsp').2

theorem Beside.allows {s' : HybridSystem} (h : Beside s s') (hs : Exclusive s)
    (haccounts : Accounts s'.held s'.gate.speculationFences)
    (hsource : ∀ x v, s'.held x = some v → (s'.Speculative v ↔ x.isSuspension = false)) :
    exclusion.Allows t s s' := ⟨h.exclusive hs haccounts hsource, h.excludes⟩

/-- A step that hands fences on from one holder to the next. -/
theorem Beside.allows_move {s' : HybridSystem} (h : Beside s s') (hs : Exclusive s)
    (hgate : s'.gate.speculationFences = s.gate.speculationFences)
    (hacquired : s'.acquiredBy = s.acquiredBy)
    (haccounts : Accounts s'.held s.gate.speculationFences)
    (hheld : ∀ x v, s'.held x = some v →
      ∃ y, s.held y = some v ∧ y.isSuspension = x.isSuspension) :
    exclusion.Allows t s s' := by
  refine h.allows hs (hgate ▸ haccounts) fun x v hx => ?_
  obtain ⟨y, hy, hxy⟩ := hheld x v hx
  unfold HybridSystem.Speculative
  rw [hacquired, ← hxy]
  exact hs.source y v hy

/-- A step that changes no fence. -/
theorem Beside.allows_same {s' : HybridSystem} (h : Beside s s') (hs : Exclusive s)
    (hgate : s'.gate.speculationFences = s.gate.speculationFences)
    (hacquired : s'.acquiredBy = s.acquiredBy) (hheld : s'.held = s.held) :
    exclusion.Allows t s s' :=
  h.allows_move hs hgate hacquired (hheld ▸ hs.accounts) fun x _ hx => ⟨x, hheld ▸ hx, rfl⟩

/-- A step that drops what a holder has. -/
theorem Beside.allows_drop {s' : HybridSystem} (h : Beside s s') (hs : Exclusive s)
    (hgate : s'.gate.speculationFences = s.gate.speculationFences)
    (hacquired : s'.acquiredBy = s.acquiredBy) {a : FenceHolder}
    (hheld : s'.held = Function.update s.held a none) : exclusion.Allows t s s' := by
  refine h.allows_move hs hgate hacquired (hheld ▸ hs.accounts.drop a) fun x v hx => ?_
  rw [hheld] at hx
  exact ⟨x, (update_none_eq_some hx).2, rfl⟩

theorem Beside.allows_handOver {s' : HybridSystem} (h : Beside s s') (hs : Exclusive s)
    (hgate : s'.gate.speculationFences = s.gate.speculationFences)
    (hacquired : s'.acquiredBy = s.acquiredBy) {a b : FenceHolder}
    (hab : a.isSuspension = b.isSuspension) (hheld : s'.held = handOver s.held a b) :
    exclusion.Allows t s s' := by
  refine h.allows_move hs hgate hacquired (hheld ▸ hs.accounts.move a b) fun x v hx => ?_
  rw [hheld] at hx
  unfold handOver at hx
  by_cases hxb : x = b
  · subst hxb
    rw [Function.update_self] at hx
    exact ⟨a, hx, hab⟩
  · rw [Function.update_of_ne hxb] at hx
    exact ⟨x, (update_none_eq_some hx).2, rfl⟩

/-- A step that releases the fence of a holder. -/
theorem Beside.allows_release {s' : HybridSystem} (h : Beside s s') (hs : Exclusive s)
    {a : FenceHolder} {v : UInt64} (ha : s.held a = some v)
    (hgate : s'.gate.speculationFences = s.gate.speculationFences.erase v)
    (hacquired : s'.acquiredBy = s.acquiredBy)
    (hheld : s'.held = Function.update s.held a none) : exclusion.Allows t s s' := by
  refine h.allows hs ?_ fun x w hx => ?_
  · rw [hheld, hgate]
    exact hs.accounts.release ha
  · rw [hheld] at hx
    unfold HybridSystem.Speculative
    rw [hacquired]
    exact hs.source x w (update_none_eq_some hx).2

/-! The steps of the foreground. -/

/-- A step that leaves the gate and what was recorded of it alone. -/
theorem beside_of_gate {s' : HybridSystem} (hgate : s'.gate = s.gate)
    (hadmitted : s'.admitted = s.admitted) (hsubmitted : s'.submitted = s.submitted)
    (hacquired : s'.acquiredBy = s.acquiredBy) (hlog : s'.log = s.log) : Beside s s' where
  owner := congrArg _ hgate
  depth := congrArg _ hgate
  active := congrArg _ hgate
  admitted := hadmitted
  numbered h := by
    unfold HybridSystem.Numbered
    rw [hsubmitted]
    exact h
  fences v hv hsp := by
    unfold HybridSystem.Speculative at hsp
    rw [hacquired] at hsp
    exact ⟨hgate ▸ hv, hsp⟩
  calls := by
    rw [hlog]
    exact calls_none s

theorem allows_quiet (hs : Exclusive s) {s' : HybridSystem} (hgate : s'.gate = s.gate)
    (hadmitted : s'.admitted = s.admitted) (hsubmitted : s'.submitted = s.submitted)
    (hacquired : s'.acquiredBy = s.acquiredBy) (hlog : s'.log = s.log) (hheld : s'.held = s.held) :
    exclusion.Allows t s s' :=
  (beside_of_gate hgate hadmitted hsubmitted hacquired hlog).allows_same hs (congrArg _ hgate)
    hacquired hheld

theorem allows_kept (hs : Exclusive s) {f : MozcFirstHybrid → MozcFirstHybrid}
    (hf : Kept (s.converters c) (f (s.converters c))) :
    exclusion.Allows t s (s.withConverter c f) := by
  refine allows_quiet hs rfl rfl rfl rfl rfl ?_
  rw [HybridSystem.held_withConverter, hf.fence]
  exact Function.update_eq_self _ _

/-- A locked change that may take the fence of its converter. -/
theorem allows_taken (hs : Exclusive s) {r : Option UInt64 × MozcFirstHybrid}
    (hr : Handed (s.converters c) r) :
    exclusion.Allows t s { s.withConverter c fun _ => r.2 with
      fenceToRelease := Function.update s.fenceToRelease n r.1 } := by
  have hbeside : Beside s { s.withConverter c fun _ => r.2 with
      fenceToRelease := Function.update s.fenceToRelease n r.1 } :=
    beside_of_gate rfl rfl rfl rfl rfl
  rcases HybridSystem.held_taken hr rfl with hheld | hheld
  · exact hbeside.allows_drop hs rfl rfl hheld
  · exact hbeside.allows_handOver hs rfl rfl (a := .candidate c) (b := .releasing n) rfl hheld

theorem calls_of_answer {call : ChildCall} {answer : call.call.Answer}
    (h : ∀ e : ChildEvent, e.thread = t → e.call = call → e.speculates = true →
      ∃ j, t = .worker j ∧ s.admitted j = true) :
    ∃ new, (hybridMachine.record t call answer s).log = s.log ++ new ∧
      ∀ e ∈ new, e.speculates = true → ∃ j, e.thread = .worker j ∧ s.admitted j = true := by
  refine ⟨[⟨t, call, answer⟩], rfl, fun e he hsp => ?_⟩
  have he := List.mem_singleton.mp he
  subst he
  exact h _ rfl rfl hsp

theorem allows_answer (hs : Exclusive s) {call : ChildCall} {answer : call.call.Answer}
    (h : ∀ e : ChildEvent, e.thread = t → e.call = call → e.speculates = true →
      ∃ j, t = .worker j ∧ s.admitted j = true) :
    exclusion.Allows t s (hybridMachine.record t call answer s) := by
  have hbeside : Beside s (hybridMachine.record t call answer s) :=
    ⟨rfl, rfl, rfl, rfl, id, fun _ hv hsp => ⟨hv, hsp⟩, calls_of_answer h⟩
  exact hbeside.allows_same hs rfl rfl rfl

/-- The lock is taken where nobody is in the gate. -/
theorem none_admitted (hs : Exclusive s) (hopen : s.gate.isOpen t = true)
    (ht : ∀ j, t = .worker j → s.admitted j = false) (j : Nat) : s.admitted j = false := by
  by_contra hj
  rw [Bool.not_eq_false] at hj
  have howner := hs.admitted j hj
  unfold ExecutionGate.isOpen at hopen
  rw [howner] at hopen
  have htj : GateThread.worker j = t := by simpa using hopen
  rw [ht j htj.symm] at hj
  cases hj

/-- The lock changes hands where nobody is in the gate. -/
theorem allows_gate (hs : Exclusive s) (hnone : ∀ j, s.admitted j = false)
    {f : ExecutionGate → ExecutionGate} (hlock : (f s.gate).owner = none ↔ (f s.gate).depth = 0)
    (hothers : ∀ u, u ≠ t → s.gate.owner ≠ some u)
    (hactive : (f s.gate).activeSpeculationCountValue = s.gate.activeSpeculationCountValue)
    (hfences : (f s.gate).speculationFences = s.gate.speculationFences) :
    exclusion.Allows t s (s.withGate f) where
  inv :=
    { lock := hlock
      admitted := fun j hj => absurd ((hnone j).symm.trans hj) Bool.false_ne_true
      active := by
        have h := hs.active
        rw [← hactive] at h
        exact h
      numbered := hs.numbered
      accounts := by
        have h := hs.accounts
        rw [← hfences] at h
        exact h
      source := hs.source
      sole := by
        have h := hs.sole
        rw [← hfences] at h
        exact h }
  guar :=
    { others := fun u hu => ⟨fun ho => absurd ho (hothers u hu), fun ho => absurd ho (hothers u hu),
        fun _ _ => rfl⟩
      admission := fun _ hj => .inl hj
      calls := calls_none s }

theorem allows_lock (hs : Exclusive s) (hopen : s.gate.isOpen t = true)
    (ht : ∀ j, t = .worker j → s.admitted j = false) :
    exclusion.Allows t s (s.withGate (·.lock t)) := by
  refine allows_gate hs (none_admitted hs hopen ht) (by simp [ExecutionGate.lock])
    (fun u hu ho => ?_) rfl rfl
  unfold ExecutionGate.isOpen at hopen
  rw [ho] at hopen
  exact hu (by simpa using hopen)

theorem allows_unlock (hs : Exclusive s) (ho : s.gate.owner = some t)
    (ht : ∀ j, t = .worker j → s.admitted j = false) :
    exclusion.Allows t s (s.withGate (·.unlock)) := by
  have hopen : s.gate.isOpen t = true := by simp [ExecutionGate.isOpen, ho]
  have hdepth : s.gate.depth ≠ 0 := fun hd => by
    rw [hs.lock.mpr hd] at ho
    cases ho
  refine allows_gate hs (none_admitted hs hopen ht) ?_ (fun u hu hou => hu ?_) rfl rfl
  · unfold ExecutionGate.unlock
    dsimp only
    split
    · simp only [true_iff]
      omega
    · rw [ho]
      simp only [reduceCtorEq, false_iff]
      omega
  · exact Option.some.inj (hou.symm.trans ho)

/-! Acquisition and release. -/

/-- The fence that a thread acquires, held by one that had none. -/
theorem acquire_accounts (hs : Exclusive s) {a : FenceHolder} {token : UInt64}
    {u : HybridSystem} (htoken : token ∉ s.gate.speculationFences)
    (hgate : u.gate.speculationFences = insert token s.gate.speculationFences)
    (hacquired : u.acquiredBy = Function.update s.acquiredBy token (some t))
    (hheld : u.held = Function.update s.held a (some token))
    (ha : (∃ j, t = .worker j) ↔ a.isSuspension = false) :
    Accounts u.held u.gate.speculationFences ∧
      ∀ x v, u.held x = some v → (u.Speculative v ↔ x.isSuspension = false) := by
  rw [hheld, hgate]
  refine ⟨hs.accounts.acquire a htoken, fun x v hx => ?_⟩
  unfold HybridSystem.Speculative
  rw [hacquired]
  rcases update_some_eq_some hx with ⟨rfl, rfl⟩ | ⟨-, hx⟩
  · simp only [Function.update_self, Option.some.injEq]
    exact ha
  · have hv : v ≠ token := fun hv => htoken (hv ▸ hs.accounts.mem x v hx)
    rw [Function.update_of_ne hv]
    exact hs.source x v hx

theorem speculative_of_acquired {s' : HybridSystem} {token v : UInt64}
    (hacquired : s'.acquiredBy = Function.update s.acquiredBy token (some t)) (hv : v ≠ token)
    (hsp : s'.Speculative v) : s.Speculative v := by
  obtain ⟨j, hj⟩ := hsp
  rw [hacquired, Function.update_of_ne hv] at hj
  exact ⟨j, hj⟩

/-- The fence of a suspension is no candidate fence. -/
theorem allows_suspend (hs : Exclusive s)
    (hready : s.gate.freshSpeculationFence.isSome = true) :
    exclusion.Allows t s { s with
      gate := s.gate.acquireSpeculationFence.2
      suspensions := Function.update s.suspensions n
        (s.gate.acquireSpeculationFence.1 :: s.suspensions n)
      acquiredBy := Function.update s.acquiredBy s.gate.acquireSpeculationFence.1
        (some (.foreground n)) } := by
  obtain ⟨token, next, htoken, hacquire⟩ := ExecutionGate.acquire_spec hready
  rw [hacquire]
  let s' : HybridSystem := { s with
    gate := { s.gate with
      speculationFences := insert token s.gate.speculationFences
      nextSpeculationFenceID := next }
    suspensions := Function.update s.suspensions n (token :: s.suspensions n)
    acquiredBy := Function.update s.acquiredBy token (some (.foreground n)) }
  have hheld : s'.held = Function.update s.held (.suspension n (s.suspensions n).length)
      (some token) := HybridSystem.held_push token
  obtain ⟨haccounts, hsource⟩ := acquire_accounts hs htoken (u := s') rfl rfl hheld
    (by simp [FenceHolder.isSuspension])
  have hfences : ∀ v ∈ s'.gate.speculationFences, s'.Speculative v →
      v ∈ s.gate.speculationFences ∧ s.Speculative v := by
    intro v hv hsp
    have hvt : v ≠ token := by
      rintro rfl
      obtain ⟨j, hj⟩ := hsp
      simp [s'] at hj
    exact ⟨(Finset.mem_insert.mp hv).resolve_left hvt, speculative_of_acquired rfl hvt hsp⟩
  have hbeside : Beside s s' := ⟨rfl, rfl, rfl, rfl, id, hfences, calls_none s⟩
  exact hbeside.allows hs haccounts hsource

/-- A fence that a worker acquires while no candidate fence is held. -/
theorem allows_acquire (hs : Exclusive s) (hready : s.gate.freshSpeculationFence.isSome = true)
    (howner : s.gate.owner = some (.worker j)) (hclean : s.Clean) :
    exclusion.Allows (.worker j) s { s with
      gate := s.gate.acquireSpeculationFence.2
      workFence := Function.update s.workFence j (some s.gate.acquireSpeculationFence.1)
      acquiredBy := Function.update s.acquiredBy s.gate.acquireSpeculationFence.1
        (some (.worker j)) } := by
  obtain ⟨token, next, htoken, hacquire⟩ := ExecutionGate.acquire_spec hready
  rw [hacquire]
  let s' : HybridSystem := { s with
    gate := { s.gate with
      speculationFences := insert token s.gate.speculationFences
      nextSpeculationFenceID := next }
    workFence := Function.update s.workFence j (some token)
    acquiredBy := Function.update s.acquiredBy token (some (.worker j)) }
  have hheld : s'.held = Function.update s.held (.work j) (some token) :=
    HybridSystem.held_work (some token)
  obtain ⟨haccounts, hsource⟩ := acquire_accounts hs htoken (u := s') rfl rfl hheld
    (by simp [FenceHolder.isSuspension])
  have hsole : ∀ v ∈ s'.gate.speculationFences, s'.Speculative v → v = token := by
    intro v hv hsp
    by_contra hvt
    exact hclean v ((Finset.mem_insert.mp hv).resolve_left hvt)
      (speculative_of_acquired rfl hvt hsp)
  refine ⟨⟨hs.lock, hs.admitted, hs.active, hs.numbered, haccounts, hsource,
    fun v v' hv hv' hsp hsp' => (hsole v hv hsp).trans (hsole v' hv' hsp').symm⟩, ?_⟩
  have hothers (u : GateThread) (hu : u ≠ .worker j) : s.gate.owner ≠ some u := fun ho =>
    hu (Option.some.inj (ho.symm.trans howner))
  exact ⟨fun u hu => ⟨fun ho => absurd ho (hothers u hu), fun ho => absurd ho (hothers u hu),
    fun _ _ => rfl⟩, fun _ hj => .inl hj, calls_none s⟩

/-- A fence is released by its holder, if it has one. -/
theorem allows_released (hs : Exclusive s) {s' : HybridSystem} {a : FenceHolder} {v : UInt64}
    (ha : s.held a = some v) (hheld : s'.held = Function.update s.held a none)
    (hgate : s'.gate = s.gate.releaseSpeculationFence v) (hadmitted : s'.admitted = s.admitted)
    (hsubmitted : s'.submitted = s.submitted) (hacquired : s'.acquiredBy = s.acquiredBy)
    (hlog : s'.log = s.log) : exclusion.Allows t s s' := by
  have hbeside : Beside s s' :=
    { owner := by rw [hgate]; rfl
      depth := by rw [hgate]; rfl
      active := by rw [hgate]; rfl
      admitted := hadmitted
      numbered := fun h => by
        unfold HybridSystem.Numbered
        rw [hsubmitted]
        exact h
      fences := fun v hv hsp => by
        rw [hgate] at hv
        unfold HybridSystem.Speculative at hsp
        rw [hacquired] at hsp
        exact ⟨Finset.mem_of_mem_erase hv, hsp⟩
      calls := by
        rw [hlog]
        exact calls_none s }
  exact hbeside.allows_release hs ha (by rw [hgate]; rfl) hacquired hheld

/-! The foreground. -/

/-- While a thread owns the lock it stays the owner. -/
theorem safe_own_child {request : ConverterCall} (hrequest : request.convertsSegments = false)
    (ho : s.gate.owner = some (.foreground n)) :
    (child c .hazkey request).Safe hybridMachine exclusion (.foreground n)
      (fun _ u => u.gate.owner = some (.foreground n)) s := by
  refine Task.Safe.invoke fun u hsu hu a _ => ⟨allows_answer hu.1 fun e _ he hsp => ?_,
    fun v hv _ => hv.owner (hsu.owner ho)⟩
  unfold ChildEvent.speculates at hsp
  rw [he, hrequest, Bool.and_false] at hsp
  cases hsp

theorem safe_withHazkeyLock {request : ConverterCall}
    (hrequest : request.convertsSegments = false) (hs : exclusion.Holds s) :
    (withHazkeyLock (.foreground n) (child c .hazkey request)).Safe hybridMachine exclusion
      (.foreground n) (fun _ _ => True) s := by
  have hlock : (lockGate (.foreground n)).Safe hybridMachine exclusion (.foreground n)
      (fun _ u => u.gate.owner = some (.foreground n)) s :=
    Task.Safe.await fun u _ hu hready _ =>
      ⟨allows_lock hu.1 hready fun _ hj => (nomatch hj), fun v hv _ => hv.owner rfl⟩
  refine hlock.bind inferInstance hs fun _ u hu ho => ?_
  refine (safe_own_child hrequest ho).bind inferInstance hu fun a v hv hov => ?_
  have hunlock : unlockGate.Safe hybridMachine exclusion (.foreground n) (fun _ _ => True) v :=
    Task.Safe.modify fun w hvw hw _ =>
      ⟨allows_unlock hw.1 (hvw.owner hov) fun _ hj => (nomatch hj), fun _ _ _ => trivial⟩
  exact hunlock.bind inferInstance hv fun _ _ _ _ => fun _ _ _ => trivial

section

variable (n c : Nat)

theorem steady_mozc_child (request : ConverterCall) :
    Task.Steady hybridMachine exclusion (.foreground n) (child c .mozc request) :=
  Task.steady_invoke fun u a hu _ => allows_answer hu.1 fun e _ he hsp => by
    unfold ChildEvent.speculates at hsp
    rw [he] at hsp
    cases hsp

theorem steady_suspend :
    Task.Steady hybridMachine exclusion (.foreground n) (suspendSpeculation n) :=
  Task.steady_await fun _ hu hready _ => allows_suspend hu.1 hready

theorem steady_resume :
    Task.Steady hybridMachine exclusion (.foreground n) (resumeSpeculation n) :=
  Task.steady_modify fun u hu _ => by
    cases hn : u.suspensions n with
    | nil => exact allows_quiet hu.1 rfl rfl rfl rfl rfl rfl
    | cons v rest =>
      exact allows_released hu.1 (HybridSystem.held_last hn) (HybridSystem.held_pop hn) rfl rfl rfl
        rfl rfl

theorem steady_release :
    Task.Steady hybridMachine exclusion (.foreground n) (releaseCandidateFence n) :=
  Task.steady_modify fun u hu _ => by
    cases hn : u.fenceToRelease n with
    | none => exact allows_quiet hu.1 rfl rfl rfl rfl rfl rfl
    | some v =>
      exact allows_released hu.1 (a := .releasing n) hn (HybridSystem.held_releasing none) rfl rfl
        rfl rfl rfl

theorem steady_taken {f : UInt64 → MozcFirstHybrid → Option UInt64 × MozcFirstHybrid}
    (hf : ∀ l h, Taken h (f l h)) :
    Task.Steady hybridMachine exclusion (.foreground n) (takeLocked n c f) :=
  Task.steady_modify fun _ hu _ => allows_taken hu.1 (hf _ _).handed

theorem steady_look {α : Type} (f : HybridSystem → α) :
    Task.Steady hybridMachine exclusion (.foreground n) (Task.atomically fun s => (f s, s)) :=
  Task.steady_atomically fun _ hu _ => allows_quiet hu.1 rfl rfl rfl rfl rfl rfl

theorem steady_wait :
    Task.Steady hybridMachine exclusion (.foreground n) (waitForActiveWorkToFinish c) :=
  Task.steady_await fun _ hu _ _ => allows_quiet hu.1 rfl rfl rfl rfl rfl rfl

theorem steady_return (request : ConverterCall) :
    Task.Steady hybridMachine exclusion (.foreground n) (recordReturn c request) :=
  Task.steady_modify fun _ hu _ => allows_quiet hu.1 rfl rfl rfl rfl rfl rfl

theorem steady_prepareLocked (context : SpeculativeConversionContext) :
    Task.Steady hybridMachine exclusion (.foreground n) (prepareLocked n c context) :=
  Task.steady_atomically fun _ hu _ => allows_taken hu.1 (prepare_handed _ context)

theorem steady_submit (workID : UInt64) :
    Task.Steady hybridMachine exclusion (.foreground n) (submit c workID) :=
  Task.steady_modify fun u hu _ =>
    Beside.allows_same ⟨rfl, rfl, rfl, rfl, fun h => h.append, fun _ hv hsp => ⟨hv, hsp⟩,
      calls_none u⟩ hu.1 rfl rfl rfl

end

instance : Serves exclusion n fun _ => True where
  mozc := steady_mozc_child n
  hazkey _ _ hrequest := ⟨fun _ hs => safe_withHazkeyLock hrequest hs⟩
  suspend := steady_suspend n
  resume := steady_resume n
  release := steady_release n
  change c _ f hf := Task.steady_modify fun u hu _ => allows_kept hu.1 (hf _)
  state c _ f hf := Task.steady_atomically fun u hu _ =>
    allows_kept hu.1 (f := fun _ => (f u.learningRevision (u.converters c)).2) (hf _ _)
  take c _ f hf := steady_taken n c hf
  prepare c _ context := steady_prepareSpeculation (steady_release n) (steady_look n _)
    (steady_prepareLocked n c) (Task.steady_modify fun u hu _ =>
      allows_kept hu.1 ⟨⟨fun _ x hx => ⟨x, hx⟩, rfl, rfl⟩, rfl⟩) (steady_submit n c)
  look := steady_look n
  wait := steady_wait n
  returned c _ request _ := steady_return n c request
  purge c _ := .bind (steady_purgeSensitiveState (steady_release n) (steady_suspend n)
    (steady_taken n c fun _ h => purge_taken h) (steady_mozc_child n c _)
    ⟨fun _ hs => safe_withHazkeyLock rfl hs⟩ (steady_wait n c) (steady_resume n)) fun _ =>
      .bind (steady_return n c _) fun _ => inferInstance
  act c _ := Task.steady_atomically fun u hu _ => allows_quiet hu.1 rfl rfl rfl rfl rfl rfl
  acted c _ r := Task.steady_modify fun u hu _ => allows_quiet hu.1 rfl rfl rfl rfl rfl rfl
  lock := Task.steady_await fun u hu hready _ =>
    allows_lock hu.1 hready fun _ hj => (nomatch hj)
  unlock := Task.steady_modify fun u hu _ => by
    split
    · rename_i ho
      exact allows_unlock hu.1 ho fun _ hj => (nomatch hj)
    · exact allows_quiet hu.1 rfl rfl rfl rfl rfl rfl
  learn revision := Task.steady_modify fun u hu _ => allows_quiet hu.1 rfl rfl rfl rfl rfl rfl

end Hazkey
