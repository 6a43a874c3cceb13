import Hazkey.LearningSynchronization

/-! No conversion is answered from a history that someone else has changed
since, and every change of the history is published once. -/

namespace Hazkey

open Interleaving

namespace ConverterCall

def forgets : ConverterCall → Bool
  | .forget _ => true
  | _ => false

end ConverterCall

namespace LearningEvent

def isRecord : LearningEvent → Bool
  | .recorded _ => true
  | .called .. => false

/-- A conversion sees the revision of the store and has missed no commit; a
cache is reloaded only where a commit was missed. -/
def Served : LearningEvent → Prop
  | .called base observed current missed _ =>
    (base.call.converts = true → observed = some current ∧ missed = false) ∧
      (base.synchronising = true → missed = true)
  | .recorded _ => True

/-- An instance forgets only when it has seen the revision of the store, and
reloads its cache only when nothing is pending in its base. -/
def Orderly : LearningEvent → Prop
  | .called base observed current _ persisted =>
    (base.call.forgets = true → observed = some current) ∧
      (base.synchronising = true → persisted = false)
  | .recorded _ => True

end LearningEvent

namespace LearningSynchronized

/-- The increments of the store. -/
def commits (log : List LearningEvent) : Nat := log.countP (·.isRecord)

/-- Every call that wrote the history belongs to a commit, which is followed at
once by the one increment of its instance. -/
inductive Published : List LearningEvent → Prop
  | nil : Published []
  | call {base : BaseCall} {observed : Option UInt64} {current : UInt64} {missed : Bool}
      {h : List LearningEvent} (hquiet : base.call.writes = false ∨ base.synchronising = true) :
      Published h → Published (.called base observed current missed false :: h)
  | commit (base : BaseCall) {observed : Option UInt64} {current : UInt64}
      {missed persisted : Bool} {h : List LearningEvent} (hwrites : base.call.writes = true)
      (hown : base.synchronising = false) : Published h →
      Published (.recorded (some base.converter) ::
        .called base observed current missed persisted :: h)
  | external {h : List LearningEvent} : Published h → Published (.recorded none :: h)

/-- The operations so far met the condition, and the revision has not wrapped. -/
structure Orderly (s : LearningSystem) : Prop where
  events : ∀ e ∈ s.log, e.Orderly
  bound : commits s.log < 2 ^ 64

/-- An instance is behind the store exactly where it missed a commit. -/
structure Fresh (revision : UInt64) (c : LearningConverter) : Prop where
  bound : c.observedRevision.toNat ≤ revision.toNat
  missed : c.missed = true ↔ c.observedRevision ≠ revision

structure Consistent (s : LearningSystem) : Prop where
  revision : s.revision.toNat = commits s.log
  fresh : ∀ j c, s.converters j = some c → Fresh s.revision c
  published : Published s.log

/-- The same while an instance is about to observe the store. -/
structure Apart (i : Nat) (s : LearningSystem) : Prop where
  revision : s.revision.toNat = commits s.log
  others : ∀ j c, j ≠ i → s.converters j = some c → Fresh s.revision c
  own : ∃ c, s.converters i = some c ∧ c.missed = false

/-- What the owner of the lock finds: others can only create instances. -/
structure Growth (s s' : LearningSystem) : Prop where
  revision : s'.revision = s.revision
  log : s'.log = s.log
  kept : ∀ j c, s.converters j = some c → s'.converters j = some c
  created : ∀ j c, s'.converters j = some c → s.converters j = some c ∨ c = ⟨s.revision, false⟩

theorem Growth.refl (s : LearningSystem) : Growth s s := ⟨rfl, rfl, fun _ _ => id, fun _ _ => .inl⟩

theorem Growth.trans {s u v : LearningSystem} (h : Growth s u) (h' : Growth u v) : Growth s v where
  revision := h'.revision.trans h.revision
  log := h'.log.trans h.log
  kept j c hc := h'.kept j c (h.kept j c hc)
  created j c hc := by
    obtain hc | rfl := h'.created j c hc
    · exact h.created j c hc
    · exact .inr (by rw [h.revision])

theorem fresh_new (revision : UInt64) : Fresh revision ⟨revision, false⟩ := ⟨Nat.le_refl _, by simp⟩

theorem Consistent.grows {s s' : LearningSystem} (h : Consistent s) (hg : Growth s s') :
    Consistent s' where
  revision := by
    rw [hg.revision, hg.log]
    exact h.revision
  fresh j c hc := by
    rw [hg.revision]
    obtain hc | rfl := hg.created j c hc
    · exact h.fresh j c hc
    · exact fresh_new _
  published := by
    rw [hg.log]
    exact h.published

theorem Apart.grows {i : Nat} {s s' : LearningSystem} (h : Apart i s) (hg : Growth s s') :
    Apart i s' where
  revision := by
    rw [hg.revision, hg.log]
    exact h.revision
  others j c hj hc := by
    rw [hg.revision]
    obtain hc | rfl := hg.created j c hc
    · exact h.others j c hj hc
    · exact fresh_new _
  own := by
    obtain ⟨c, hc, hmissed⟩ := h.own
    exact ⟨c, hg.kept i c hc, hmissed⟩

/-! ## The discipline of the lock -/

structure LearningRely (t : GateThread) (s s' : LearningSystem) : Prop where
  persists : ∀ j, (s.converters j).isSome = true → (s'.converters j).isSome = true
  unowned : s'.gate.owner = some t → s.gate.owner = some t
  owned : s.gate.owner = some t → s'.gate.owner = some t ∧ Growth s s'

def freshness : Discipline basePort Empty LearningSystem GateThread where
  inv s := (s.gate.owner = none → Consistent s) ∧ ∀ e ∈ s.log, e.Served
  known := Orderly
  rely := LearningRely
  guar t s s' := ∀ u, u ≠ t → LearningRely u s s'
  label _ _ _ := False

instance : freshness.Compatible where
  refl _ s := ⟨fun _ => id, id, fun h => ⟨h, Growth.refl s⟩⟩
  trans _ s u v h h' := by
    refine ⟨fun j hj => h'.persists j (h.persists j hj), fun ho => h.unowned (h'.unowned ho), ?_⟩
    intro ho
    obtain ⟨hu, hsu⟩ := h.owned ho
    obtain ⟨hv, huv⟩ := h'.owned hu
    exact ⟨hv, hsu.trans huv⟩
  guar _ u _ _ htu _ _ h := h u fun he => htu he.symm

variable {t : GateThread} {s u : LearningSystem} {i : Nat} {c : ConverterCall}

/-- Between its operations a thread that has the lock finds everything in order. -/
def Rest (t : GateThread) (s : LearningSystem) : Prop := s.gate.owner = some t → Consistent s

structure Held (t : GateThread) (s : LearningSystem) : Prop where
  owner : s.gate.owner = some t
  consistent : Consistent s

theorem Rest.rely (h : Rest t s) (hr : LearningRely t s u) : Rest t u := by
  intro hu
  have hs := hr.unowned hu
  exact (h hs).grows (hr.owned hs).2

theorem Held.rely (h : Held t s) (hr : LearningRely t s u) : Held t u :=
  ⟨(hr.owned h.owner).1, h.consistent.grows (hr.owned h.owner).2⟩

theorem Held.rest (h : Held t s) : Rest t s := fun _ => h.consistent

/-- A step of the owner of the lock that keeps the lock. -/
theorem allows_owned {s' : LearningSystem} (howner : s.gate.owner = some t)
    (hgate : s'.gate = s.gate)
    (hpersists : ∀ j, (s.converters j).isSome = true → (s'.converters j).isSome = true)
    (hserved : ∀ e ∈ s'.log, e.Served) : freshness.Allows t s s' where
  inv := by
    refine ⟨fun hnone => ?_, hserved⟩
    rw [hgate, howner] at hnone
    cases hnone
  guar v hv := by
    refine ⟨hpersists, fun ho => ?_, fun ho => ?_⟩
    · rwa [hgate] at ho
    · rw [howner] at ho
      exact absurd (Option.some.inj ho).symm hv

theorem safe_lock (hs : Rest t s) :
    (lockLearning t).Safe learningMachine freshness t (fun _ => Held t) s := by
  refine Task.Safe.await fun u hsu hu hready _ => ?_
  have hopen : u.gate.owner = none ∨ u.gate.owner = some t := by
    simpa [ExecutionGate.isOpen] using hready
  have hconsistent : Consistent u := by
    obtain ho | ho := hopen
    · exact hu.1.1 ho
    · exact hs.rely hsu ho
  have hlocked : Held t { u with gate := u.gate.lock t } :=
    ⟨rfl, hconsistent.revision, hconsistent.fresh, hconsistent.published⟩
  refine ⟨⟨⟨fun hnone => (Option.some_ne_none _ hnone).elim, hu.1.2⟩, fun v hv => ⟨fun _ => id, ?_, ?_⟩⟩,
    fun w hw _ => hlocked.rely hw⟩
  · intro ho
    exact absurd (Option.some.inj ho).symm hv
  · intro ho
    rw [ho] at hopen
    obtain h | h := hopen
    · cases h
    · exact absurd (Option.some.inj h) hv

/-- A step that only lets the lock go. -/
theorem allows_unlock (hu : freshness.Holds s) (hs : Held t s) :
    freshness.Allows t s { s with gate := s.gate.unlock } where
  inv := ⟨fun _ => ⟨hs.consistent.revision, hs.consistent.fresh, hs.consistent.published⟩, hu.1.2⟩
  guar v hv := by
    refine ⟨fun _ => id, fun ho => ?_, fun ho => ?_⟩
    · by_cases hd : s.gate.depth ≤ 1
      · simp [ExecutionGate.unlock, hd] at ho
      · simpa [ExecutionGate.unlock, hd] using ho
    · rw [hs.owner] at ho
      exact absurd (Option.some.inj ho).symm hv

theorem Held.unlocked (hs : Held t s) : Rest t { s with gate := s.gate.unlock } :=
  fun _ => ⟨hs.consistent.revision, hs.consistent.fresh, hs.consistent.published⟩

theorem safe_unlock (hs : Held t s) :
    unlockLearning.Safe learningMachine freshness t (fun _ => Rest t) s :=
  Task.Safe.modify fun _ hsu hu _ =>
    ⟨allows_unlock hu (hs.rely hsu), fun _ hv _ => (hs.rely hsu).unlocked.rely hv⟩

theorem exists_other (t : GateThread) : ∃ u, u ≠ t := by
  cases t with
  | foreground n => exact ⟨.worker 0, GateThread.noConfusion⟩
  | worker j => exact ⟨.foreground 0, GateThread.noConfusion⟩

/-- What holds under the lock holds of the method that takes it. -/
theorem safe_withLock {α : Type} {P : LearningSystem → Prop} {body : LearningM α}
    (hP : ∀ s s', (∀ j, (s.converters j).isSome = true → (s'.converters j).isSome = true) →
      P s → P s')
    (hbody : ∀ u, freshness.Holds u → Held t u → P u →
      body.Safe learningMachine freshness t (fun _ => Held t) u)
    (hs : freshness.Holds s) (hrest : Rest t s) (hPs : P s) :
    (withLearningLock t body).Safe learningMachine freshness t (fun _ => Rest t) s := by
  have hlock := Task.Safe.frame (P := P) (p := lockLearning t) ?_ hs (safe_lock hrest) hPs
  · refine hlock.bind inferInstance hs fun _ u hu hheld => ?_
    refine (hbody u hu hheld.1 hheld.2).bind inferInstance hu fun a v hv hheld => ?_
    refine (safe_unlock hheld).bind inferInstance hv fun _ w _ hrest => ?_
    exact Task.Safe.pure fun _ hx _ => hrest.rely hx
  · intro v w _ _ hstep hPv
    obtain hr | hg := hstep
    · exact hP v w hr.persists hPv
    · obtain ⟨other, hother⟩ := exists_other t
      exact hP v w (hg other hother).persists hPv

/-! ## Base calls -/

theorem commits_called {base : BaseCall} {o : Option UInt64} {r : UInt64} {m p : Bool}
    {h : List LearningEvent} : commits (.called base o r m p :: h) = commits h := by
  simp [commits, LearningEvent.isRecord]

theorem commits_recorded {source : Option Nat} {h : List LearningEvent} :
    commits (.recorded source :: h) = commits h + 1 := by
  simp [commits, LearningEvent.isRecord]

theorem isSome_of_updated {c' : LearningConverter → LearningConverter} (j : Nat)
    (h : (s.converters j).isSome = true) :
    (Function.update s.converters i ((s.converters i).map c') j).isSome = true := by
  by_cases hj : j = i
  · subst hj
    rw [Function.update_self, Option.isSome_map]
    exact h
  · rwa [Function.update_of_ne hj]

/-- The log after a call under the gate. -/
theorem afterCall_log (base : BaseCall) (wrote : Bool) (h : base.call.bypassesGate = false) :
    (s.afterCall base wrote).log = .called base (s.observed base.converter) s.revision
      (s.missed base.converter) (base.call.writes && wrote) :: s.log := by
  have hgate : ¬ base.call.bypassesGate = true := by simp [h]
  unfold LearningSystem.afterCall
  rw [if_neg hgate]
  split <;> rfl

theorem afterCall_gate (base : BaseCall) (wrote : Bool) :
    (s.afterCall base wrote).gate = s.gate := by
  unfold LearningSystem.afterCall
  split
  · rfl
  · split <;> rfl

theorem afterCall_persists (base : BaseCall) (wrote : Bool) (j : Nat)
    (h : (s.converters j).isSome = true) :
    ((s.afterCall base wrote).converters j).isSome = true := by
  unfold LearningSystem.afterCall
  split
  · exact h
  · split
    · exact isSome_of_updated j h
    · exact h

/-- The owner of the lock may make a call that the log can bear. -/
theorem allows_call (base : BaseCall) (wrote : Bool) (hs : freshness.Holds s)
    (howner : s.gate.owner = some t) (hgate : base.call.bypassesGate = false)
    (hconverts : base.call.converts = true →
      s.observed base.converter = some s.revision ∧ s.missed base.converter = false)
    (hsync : base.synchronising = true → s.missed base.converter = true) :
    freshness.Allows t s (s.afterCall base wrote) := by
  refine allows_owned howner (afterCall_gate base wrote) (afterCall_persists base wrote) ?_
  intro e he
  rw [afterCall_log base wrote hgate, List.mem_cons] at he
  obtain rfl | he := he
  · exact ⟨hconverts, hsync⟩
  · exact hs.1.2 e he

/-- A call that writes nothing leaves everything in order. -/
theorem Held.called (hs : Held t s) (base : BaseCall) (wrote : Bool)
    (hwrites : base.call.writes = false) : Held t (s.afterCall base wrote) := by
  have hcommit : base.call ≠ .commitLearning := by
    intro he
    rw [he] at hwrites
    cases hwrites
  by_cases hgate : base.call.bypassesGate = true
  · simpa [LearningSystem.afterCall, hgate] using hs
  · have hafter : s.afterCall base wrote = s.note (.called base (s.observed base.converter)
        s.revision (s.missed base.converter) false) := by
      simp [LearningSystem.afterCall, hgate, hcommit, hwrites]
    rw [hafter]
    refine ⟨hs.owner, ?_, hs.consistent.fresh, .call (.inl hwrites) hs.consistent.published⟩
    exact hs.consistent.revision.trans commits_called.symm

/-- An instance that is up to date, under the lock. -/
structure Ready (t : GateThread) (i : Nat) (s : LearningSystem) : Prop where
  held : Held t s
  current : ∃ c, s.converters i = some c ∧ c.observedRevision = s.revision

theorem Ready.rely (h : Ready t i s) (hr : LearningRely t s u) : Ready t i u := by
  refine ⟨h.held.rely hr, ?_⟩
  obtain ⟨c, hc, hcur⟩ := h.current
  have hg := (hr.owned h.held.owner).2
  exact ⟨c, hg.kept i c hc, hcur.trans hg.revision.symm⟩

theorem Ready.observed (h : Ready t i s) :
    s.observed i = some s.revision ∧ s.missed i = false := by
  obtain ⟨c, hc, hcur⟩ := h.current
  have hmissed : c.missed = false := by
    by_contra hm
    exact (h.held.consistent.fresh i c hc).missed.mp (Bool.of_not_eq_false hm) hcur
  exact ⟨by simp [LearningSystem.observed, hc, hcur], by simp [LearningSystem.missed, hc, hmissed]⟩

/-- A call that neither converts nor writes, or a conversion of an instance that is up to date. -/
theorem safe_base (hwrites : c.writes = false) (hgate : c.bypassesGate = false)
    (hholds : freshness.Holds s) (hs : Held t s) (hready : c.converts = true → Ready t i s) :
    (base i c).Safe learningMachine freshness t (fun _ => Held t) s := by
  refine Task.Safe.bind (Q := fun _ => Held t) inferInstance hholds ?_ ?_
  · refine Task.Safe.invoke fun u hsu hu a _ => ⟨?_, fun v hv _ => ?_⟩
    · exact allows_call _ _ hu (hs.rely hsu).owner hgate
        (fun hc => ((hready hc).rely hsu).observed) (fun hc => by cases hc)
    · exact ((hs.rely hsu).called _ _ hwrites).rely hv
  · exact fun a u _ hu => Task.Safe.pure fun v hv _ => hu.rely hv

/-! ## Synchronising and publishing -/

/-- The instance has reloaded its cache and is about to observe the store. -/
structure Reloaded (t : GateThread) (i : Nat) (s : LearningSystem) : Prop where
  owner : s.gate.owner = some t
  apart : Apart i s
  published : Published s.log

theorem Reloaded.rely (h : Reloaded t i s) (hr : LearningRely t s u) : Reloaded t i u := by
  obtain ⟨howner, hg⟩ := hr.owned h.owner
  refine ⟨howner, h.apart.grows hg, ?_⟩
  rw [hg.log]
  exact h.published

/-- Once it observes the store it is up to date. -/
theorem Reloaded.observe (h : Reloaded t i s) : Ready t i (s.observe i s.revision) := by
  obtain ⟨c, hc, hmissed⟩ := h.apart.own
  have hown : (s.observe i s.revision).converters i = some ⟨s.revision, c.missed⟩ := by
    simp [LearningSystem.observe, hc]
  refine ⟨⟨h.owner, h.apart.revision, fun j d hd => ?_, h.published⟩, ⟨_, hown, rfl⟩⟩
  by_cases hj : j = i
  · subst hj
    rw [hown] at hd
    obtain rfl := Option.some.inj hd
    rw [hmissed]
    exact fresh_new _
  · have hd' : s.converters j = some d := by
      simpa [LearningSystem.observe, Function.update_of_ne hj] using hd
    exact h.apart.others j d hj hd'

theorem safe_observe {r : UInt64} (hs : Reloaded t i s) (hr : r = s.revision) :
    (setObservedRevision i r).Safe learningMachine freshness t
      (fun _ => Ready t i) s := by
  refine Task.Safe.modify fun u hsu hu _ => ?_
  have hrev : r = u.revision := hr.trans (hsu.owned hs.owner).2.revision.symm
  rw [hrev]
  refine ⟨allows_owned (hs.rely hsu).owner rfl (fun j => isSome_of_updated j) hu.1.2, ?_⟩
  exact fun v hv _ => (hs.rely hsu).observe.rely hv

theorem reloaded_own {c : LearningConverter} (h : s.converters i = some c) :
    (s.reloaded i).converters i = some { c with missed := false } := by
  simp [LearningSystem.reloaded, h]

theorem reloaded_others {j : Nat} (h : j ≠ i) :
    (s.reloaded i).converters j = s.converters j := by
  simp [LearningSystem.reloaded, Function.update_of_ne h]

/-- After a call of `commitLearning` the instance has missed nothing. -/
theorem apart_of_commit (base : BaseCall) {wrote : Bool} (hs : Consistent s)
    (hcommit : base.call = .commitLearning)
    (hexists : (s.converters base.converter).isSome = true) :
    Apart base.converter (s.afterCall base wrote) := by
  have hafter : s.afterCall base wrote = (s.note (.called base (s.observed base.converter)
      s.revision (s.missed base.converter) wrote)).reloaded base.converter := by
    simp [LearningSystem.afterCall, hcommit, ConverterCall.bypassesGate, ConverterCall.writes]
  rw [hafter]
  refine ⟨hs.revision.trans commits_called.symm, fun j d hj hd => ?_, ?_⟩
  · rw [reloaded_others hj] at hd
    exact hs.fresh j d hd
  · obtain ⟨c, hc⟩ := Option.isSome_iff_exists.mp hexists
    exact ⟨_, reloaded_own hc, rfl⟩

/-- An instance that forgets has missed nothing before. -/
theorem apart_of_forget (base : BaseCall) {wrote : Bool} (hs : Consistent s)
    (hforget : base.call.forgets = true)
    (hobserved : s.observed base.converter = some s.revision) :
    Apart base.converter (s.afterCall base wrote) := by
  obtain ⟨candidate, hcall⟩ : ∃ candidate, base.call = .forget candidate := by
    cases h : base.call <;> simp [h, ConverterCall.forgets] at hforget ⊢
  have hafter : s.afterCall base wrote = s.note (.called base (s.observed base.converter)
      s.revision (s.missed base.converter) wrote) := by
    simp [LearningSystem.afterCall, hcall, ConverterCall.bypassesGate, ConverterCall.writes]
  rw [hafter]
  refine ⟨hs.revision.trans commits_called.symm, fun j d _ hd => hs.fresh j d hd, ?_⟩
  obtain ⟨c, hc, hcur⟩ := Option.map_eq_some_iff.mp hobserved
  refine ⟨c, hc, ?_⟩
  by_contra hm
  exact (hs.fresh _ c hc).missed.mp (Bool.of_not_eq_false hm) hcur

/-- An instance that exists, under the lock. -/
structure Present (t : GateThread) (i : Nat) (s : LearningSystem) : Prop where
  held : Held t s
  present : (s.converters i).isSome = true

theorem Present.rely (h : Present t i s) (hr : LearningRely t s u) : Present t i u :=
  ⟨h.held.rely hr, hr.persists i h.present⟩

theorem safe_read {α : Type} {f : LearningSystem → α} {Q : α → LearningSystem → Prop}
    (h : ∀ u v, LearningRely t s u → LearningRely t u v → Q (f u) v) :
    (Task.atomically fun s => (f s, s) : LearningM α).Safe learningMachine freshness t Q s :=
  Task.Safe.atomically fun u hsu hu _ =>
    ⟨⟨hu.1, fun v _ => Discipline.Compatible.refl (D := freshness) v u⟩, fun v hv _ => h u v hsu hv⟩

theorem safe_call {base : BaseCall} {Q : LearningSystem → Prop}
    (h : ∀ u wrote, LearningRely t s u → freshness.Holds u → Orderly (u.afterCall base wrote) →
      freshness.Allows t u (u.afterCall base wrote) ∧
        ∀ v, LearningRely t (u.afterCall base wrote) v → Q v) :
    (Task.invoke (I := basePort) base : LearningM _).Safe learningMachine freshness t
      (fun _ => Q) s :=
  Task.Safe.invoke fun u hsu hu a hk =>
    ⟨(h u a.2 hsu hu hk).1, fun v hv _ => (h u a.2 hsu hu hk).2 v hv⟩

/-- The call that reloads the cache is made where a commit was missed. -/
theorem safe_reload {r : UInt64} (hs : Present t i s) (hr : r = s.revision)
    (hbehind : s.observed i ≠ some s.revision) :
    (Task.invoke (I := basePort) ⟨i, .commitLearning, true⟩ : LearningM _).Safe learningMachine
      freshness t (fun _ u => r = u.revision ∧ Reloaded t i u) s := by
  refine safe_call fun u wrote hsu hu hknown => ?_
  have hpresent := hs.rely hsu
  have hg := (hsu.owned hs.held.owner).2
  obtain ⟨c, hc⟩ := Option.isSome_iff_exists.mp hs.present
  have hcu := hg.kept i c hc
  have hne : c.observedRevision ≠ u.revision := by
    intro he
    apply hbehind
    rw [LearningSystem.observed, hc, Option.map_some, he, hg.revision]
  have hmissed : u.missed i = true := by
    have := (hpresent.held.consistent.fresh i c hcu).missed.mpr hne
    simp [LearningSystem.missed, hcu, this]
  have hlog := afterCall_log (s := u) ⟨i, .commitLearning, true⟩ wrote rfl
  have hwrote : wrote = false := by
    have he := hknown.events _ (by rw [hlog]; exact List.mem_cons_self)
    simpa [LearningEvent.Orderly, ConverterCall.writes] using he.2 rfl
  have hreloaded : Reloaded t i (u.afterCall ⟨i, .commitLearning, true⟩ wrote) := by
    refine ⟨?_, apart_of_commit ⟨i, .commitLearning, true⟩ hpresent.held.consistent rfl
      hpresent.present, ?_⟩
    · rw [afterCall_gate]
      exact hpresent.held.owner
    · rw [hlog, hwrote]
      exact .call (.inr rfl) hpresent.held.consistent.published
  refine ⟨allows_call _ _ hu hpresent.held.owner rfl Bool.noConfusion fun _ => hmissed, ?_⟩
  intro v hv
  refine ⟨?_, hreloaded.rely hv⟩
  rw [(hv.owned hreloaded.owner).2.revision, hr, ← hg.revision]
  rfl

/-- A synchronised instance is up to date. -/
theorem safe_synchronize (hholds : freshness.Holds s) (hs : Present t i s) :
    (synchronizePersistedLearningIfNeeded i).Safe learningMachine freshness t
      (fun _ => Ready t i) s := by
  have hcurrent : currentRevision.Safe learningMachine freshness t
      (fun r u => r = u.revision ∧ Present t i u) s := by
    refine safe_read fun u v hsu hv => ⟨?_, (hs.rely hsu).rely hv⟩
    exact (hv.owned (hs.rely hsu).held.owner).2.revision.symm
  refine hcurrent.bind inferInstance hholds fun r u hu ⟨hr, hpu⟩ => ?_
  have hobserved : (observedRevision i).Safe learningMachine freshness t
      (fun o v => r = v.revision ∧ Present t i v ∧ v.observed i = some o) u := by
    refine safe_read fun v w huv hw => ?_
    have hpv := hpu.rely huv
    obtain ⟨c, hc⟩ := Option.isSome_iff_exists.mp hpv.present
    have hg := (hw.owned hpv.held.owner).2
    refine ⟨?_, hpv.rely hw, ?_⟩
    · rw [hr, hg.revision, (huv.owned hpu.held.owner).2.revision]
    · simp [LearningSystem.observed, hc, hg.kept i c hc]
  refine hobserved.bind inferInstance hu fun o v hv ⟨hrv, hpv, hov⟩ => ?_
  by_cases hro : r = o
  · rw [if_pos hro]
    refine Task.Safe.pure fun w hw _ => Ready.rely ⟨hpv.held, ?_⟩ hw
    obtain ⟨c, hc, hcur⟩ := Option.map_eq_some_iff.mp hov
    exact ⟨c, hc, by rw [hcur, ← hro, hrv]⟩
  · rw [if_neg hro]
    have hbehind : v.observed i ≠ some v.revision := by
      rw [hov, ← hrv]
      intro he
      exact hro (Option.some.inj he).symm
    refine (safe_reload hpv hrv hbehind).bind inferInstance hv fun _ w _ ⟨hrw, hreloaded⟩ => ?_
    exact safe_observe hreloaded hrw

/-! The store. -/

theorem toNat_next {revision : UInt64} (hbound : revision.toNat + 1 < 2 ^ 64) :
    (revision + 1).toNat = revision.toNat + 1 := by
  rw [UInt64.toNat_add]
  exact Nat.mod_eq_of_lt hbound

/-- Another's commit leaves an instance behind. -/
theorem Fresh.recorded {revision : UInt64} {c : LearningConverter} (h : Fresh revision c)
    (hbound : revision.toNat + 1 < 2 ^ 64) : Fresh (revision + 1) { c with missed := true } := by
  have hnext := toNat_next hbound
  have hle := h.bound
  refine ⟨by rw [hnext]; exact Nat.le_succ_of_le hle, ⟨fun _ he => ?_, fun _ => rfl⟩⟩
  have : c.observedRevision.toNat = revision.toNat + 1 := by
    rw [← hnext, ← he]
  omega

theorem recorded_persists {source : Option Nat} (j : Nat)
    (h : (s.converters j).isSome = true) :
    ((s.recorded source).converters j).isSome = true := by
  simpa [LearningSystem.recorded] using h

theorem recorded_revision {source : Option Nat} (hrevision : s.revision.toNat = commits s.log)
    (hs : Orderly (s.recorded source)) :
    s.revision.toNat + 1 < 2 ^ 64 ∧
      (s.recorded source).revision.toNat = commits (s.recorded source).log := by
  have hbound : s.revision.toNat + 1 < 2 ^ 64 := by
    have := hs.bound
    rw [LearningSystem.recorded, commits_recorded] at this
    rwa [hrevision]
  refine ⟨hbound, ?_⟩
  rw [LearningSystem.recorded, commits_recorded, toNat_next hbound, hrevision]

theorem allows_recorded {source : Option Nat} (hs : freshness.Holds s)
    (howner : s.gate.owner = some t) : freshness.Allows t s (s.recorded source) := by
  refine allows_owned howner rfl recorded_persists fun e he => ?_
  obtain rfl | he := List.mem_cons.mp he
  · trivial
  · exact hs.1.2 e he

/-- A commit that is made beside the instances is missed by all of them. -/
theorem Held.recorded (h : Held t s) (hs : Orderly (s.recorded none)) :
    Held t (s.recorded none) := by
  obtain ⟨hbound, hrevision⟩ := recorded_revision h.consistent.revision hs
  refine ⟨h.owner, hrevision, fun j d hd => ?_, .external h.consistent.published⟩
  obtain ⟨c, hc, rfl⟩ := Option.map_eq_some_iff.mp hd
  exact (h.consistent.fresh j c hc).recorded hbound

/-- The instance has changed the history and has not yet published the change. -/
structure Committing (t : GateThread) (i : Nat) (s : LearningSystem) : Prop where
  owner : s.gate.owner = some t
  apart : Apart i s
  pending : Published (.recorded (some i) :: s.log)

theorem Committing.rely (h : Committing t i s) (hr : LearningRely t s u) : Committing t i u := by
  obtain ⟨howner, hg⟩ := hr.owned h.owner
  refine ⟨howner, h.apart.grows hg, ?_⟩
  rw [hg.log]
  exact h.pending

theorem Committing.recorded (h : Committing t i s) (hs : Orderly (s.recorded (some i))) :
    Reloaded t i (s.recorded (some i)) := by
  obtain ⟨hbound, hrevision⟩ := recorded_revision h.apart.revision hs
  refine ⟨h.owner, ⟨hrevision, fun j d hj hd => ?_, ?_⟩, h.pending⟩
  · obtain ⟨c, hc, rfl⟩ := Option.map_eq_some_iff.mp hd
    have hne : ¬ some i = some j := fun he => hj (Option.some.inj he).symm
    rw [if_neg hne]
    exact (h.apart.others j c hj hc).recorded hbound
  · obtain ⟨c, hc, hmissed⟩ := h.apart.own
    exact ⟨c, by simp [LearningSystem.recorded, hc], hmissed⟩

theorem safe_commit (hwrites : c.writes = true) (hs : Present t i s) :
    (Task.invoke (I := basePort) ⟨i, c, false⟩ : LearningM _).Safe learningMachine freshness t
      (fun _ => Committing t i) s := by
  refine safe_call fun u wrote hsu hu hknown => ?_
  have hpresent := hs.rely hsu
  have hgate : c.bypassesGate = false := by
    cases c <;> first | rfl | cases hwrites
  have hconverts : c.converts = false := by
    cases c <;> first | rfl | cases hwrites
  have hlog := afterCall_log (s := u) ⟨i, c, false⟩ wrote hgate
  have hapart : Apart i (u.afterCall ⟨i, c, false⟩ wrote) := by
    by_cases hcommit : c = .commitLearning
    · exact apart_of_commit ⟨i, c, false⟩ hpresent.held.consistent hcommit hpresent.present
    · have hforget : c.forgets = true := by
        cases c <;> first | rfl | exact absurd rfl hcommit | cases hwrites
      have he := hknown.events _ (by rw [hlog]; exact List.mem_cons_self)
      exact apart_of_forget ⟨i, c, false⟩ hpresent.held.consistent hforget (he.1 hforget)
  have hcommitting : Committing t i (u.afterCall ⟨i, c, false⟩ wrote) := by
    refine ⟨?_, hapart, ?_⟩
    · rw [afterCall_gate]
      exact hpresent.held.owner
    · rw [hlog]
      exact .commit ⟨i, c, false⟩ hwrites rfl hpresent.held.consistent.published
  refine ⟨allows_call _ _ hu hpresent.held.owner hgate (fun h => ?_) Bool.noConfusion,
    fun v hv => hcommitting.rely hv⟩
  rw [hconverts] at h
  cases h

theorem safe_recordOwn (hs : Committing t i s) :
    (recordCommit (some i)).Safe learningMachine freshness t
      (fun r u => r = u.revision ∧ Reloaded t i u) s := by
  refine Task.Safe.atomically fun u hsu hu hknown => ?_
  have hcommitting := hs.rely hsu
  have hreloaded := hcommitting.recorded hknown
  refine ⟨allows_recorded hu hcommitting.owner, fun v hv _ => ⟨?_, hreloaded.rely hv⟩⟩
  exact (hv.owned hreloaded.owner).2.revision.symm

/-! ## Methods, commands and threads -/

theorem safe_publish (hwrites : c.writes = true) (hholds : freshness.Holds s)
    (hrest : Rest t s) (hpresent : (s.converters i).isSome = true) :
    (publish t i c).Safe learningMachine freshness t (fun _ => Rest t) s := by
  refine safe_withLock (P := fun s => (s.converters i).isSome = true)
    (fun _ _ h => h i) (fun u hu hheld hi => ?_) hholds hrest hpresent
  refine Task.Safe.bind (Q := fun _ => Committing t i) inferInstance hu ?_ ?_
  · refine (safe_commit hwrites ⟨hheld, hi⟩).bind inferInstance hu fun a v _ hv => ?_
    exact Task.Safe.pure fun w hw _ => hv.rely hw
  · intro a v hv hcommitting
    refine (safe_recordOwn hcommitting).bind inferInstance hv fun r w hw ⟨hr, hreloaded⟩ => ?_
    refine (safe_observe hreloaded hr).bind inferInstance hw fun _ x _ hready => ?_
    exact Task.Safe.pure fun y hy _ => hready.held.rely hy

theorem safe_convert (hwrites : c.writes = false) (hgate : c.bypassesGate = false)
    (hholds : freshness.Holds s) (hrest : Rest t s) (hpresent : (s.converters i).isSome = true) :
    (convert t i c).Safe learningMachine freshness t (fun _ => Rest t) s := by
  refine safe_withLock (P := fun s => (s.converters i).isSome = true)
    (fun _ _ h => h i) (fun u hu hheld hi => ?_) hholds hrest hpresent
  refine (safe_synchronize hu ⟨hheld, hi⟩).bind inferInstance hu fun _ v hv hready => ?_
  exact safe_base hwrites hgate hv hready.held fun _ => hready

theorem safe_quiet (hwrites : c.writes = false) (hgate : c.bypassesGate = false)
    (hconverts : c.converts = false) (hholds : freshness.Holds s) (hrest : Rest t s) :
    (withLearningLock t (base i c)).Safe learningMachine freshness t
      (fun _ => Rest t) s := by
  refine safe_withLock (P := fun _ => True) (fun _ _ _ => id) (fun u hu hheld _ => ?_) hholds
    hrest trivial
  refine safe_base hwrites hgate hu hheld fun h => ?_
  rw [hconverts] at h
  cases h

theorem safe_bypass (hgate : c.bypassesGate = true) (hholds : freshness.Holds s)
    (hrest : Rest t s) :
    (base i c).Safe learningMachine freshness t (fun _ => Rest t) s := by
  have hcall : (Task.invoke (I := basePort) ⟨i, c, false⟩ : LearningM _).Safe learningMachine
      freshness t (fun _ => Rest t) s := by
    refine safe_call fun u wrote hsu hu _ => ?_
    have hsame : u.afterCall ⟨i, c, false⟩ wrote = u := by
      simp [LearningSystem.afterCall, hgate]
    rw [hsame]
    exact ⟨⟨hu.1, fun v _ => Discipline.Compatible.refl (D := freshness) v u⟩,
      fun v hv => (hrest.rely hsu).rely hv⟩
  refine hcall.bind inferInstance hholds fun _ u _ hu => ?_
  exact Task.Safe.pure fun v hv _ => hu.rely hv

theorem safe_perform (hholds : freshness.Holds s) (hrest : Rest t s)
    (hpresent : (s.converters i).isSome = true) :
    (perform t i c).Safe learningMachine freshness t (fun _ => Rest t) s := by
  cases c with
  | candidates | segmentCandidates | realtimeCandidates | predictions =>
    exact safe_convert rfl rfl hholds hrest hpresent
  | commitLearning | forget => exact safe_publish rfl hholds hrest hpresent
  | supportsSegmentEditing | prepareSpeculativeConversion | invalidateSpeculativeConversion
  | lockCandidateOrder | retireCandidateWindow => exact safe_bypass rfl hholds hrest
  | display | inputCursorPosition | setCompletedData | updateLearningData | stageLearning
  | commitStagedLearning | discardStagedLearning | stopComposition | purgeSensitiveState =>
    exact safe_quiet rfl rfl rfl hholds hrest

/-- The system with a new instance. -/
theorem growth_create : Growth s (if s.converters i = none then
    { s with converters := Function.update s.converters i (some ⟨s.revision, false⟩) } else s) := by
  by_cases hi : s.converters i = none
  · rw [if_pos hi]
    refine ⟨rfl, rfl, fun j c hc => ?_, fun j c hc => ?_⟩
    · have hj : j ≠ i := by
        rintro rfl
        rw [hi] at hc
        cases hc
      simpa [Function.update_of_ne hj] using hc
    · by_cases hj : j = i
      · subst hj
        right
        simpa using hc.symm
      · left
        simpa [Function.update_of_ne hj] using hc
  · rw [if_neg hi]
    exact Growth.refl s

theorem safe_create (hrest : Rest t s) :
    (createConverter i).Safe learningMachine freshness t (fun _ => Rest t) s := by
  refine Task.Safe.modify fun u hsu hu _ => ?_
  have hg := growth_create (s := u) (i := i)
  have hgate : (if u.converters i = none then
      { u with converters := Function.update u.converters i (some ⟨u.revision, false⟩) }
      else u).gate = u.gate := by
    split <;> rfl
  refine ⟨⟨⟨fun ho => ?_, fun e he => ?_⟩, fun v _ => ⟨fun j hj => ?_, fun ho => ?_, fun ho => ?_⟩⟩,
    fun v hv _ => Rest.rely (fun ho => ?_) hv⟩
  · rw [hgate] at ho
    exact (hu.1.1 ho).grows hg
  · rw [hg.log] at he
    exact hu.1.2 e he
  · obtain ⟨c, hc⟩ := Option.isSome_iff_exists.mp hj
    rw [hg.kept j c hc]
    rfl
  · rwa [hgate] at ho
  · exact ⟨hgate.symm ▸ ho, hg⟩
  · rw [hgate] at ho
    exact (hrest.rely hsu ho).grows hg

theorem safe_unlockOwn (hrest : Rest t s) :
    (Task.modify fun s => if s.gate.owner = some t then { s with gate := s.gate.unlock } else s :
      LearningM Unit).Safe learningMachine freshness t (fun _ => Rest t) s := by
  refine Task.Safe.modify fun u hsu hu _ => ?_
  by_cases ho : u.gate.owner = some t
  · rw [if_pos ho]
    have hheld : Held t u := ⟨ho, hrest.rely hsu ho⟩
    exact ⟨allows_unlock hu hheld, fun v hv _ => hheld.unlocked.rely hv⟩
  · rw [if_neg ho]
    exact ⟨⟨hu.1, fun v _ => Discipline.Compatible.refl (D := freshness) v u⟩,
      fun v hv _ => (hrest.rely hsu).rely hv⟩

theorem safe_external (hholds : freshness.Holds s) (hrest : Rest t s) :
    (LearningCommand.recordCommit.run t).Safe learningMachine freshness t
      (fun _ => Rest t) s := by
  refine safe_withLock (P := fun _ => True) (fun _ _ _ => id) (fun u hu hheld _ => ?_) hholds
    hrest trivial
  have hrecord : (recordCommit none).Safe learningMachine freshness t (fun _ => Held t) u := by
    refine Task.Safe.atomically fun v huv hv hknown => ?_
    have hrecorded := (hheld.rely huv).recorded hknown
    exact ⟨allows_recorded hv (hheld.rely huv).owner, fun w hw _ => hrecorded.rely hw⟩
  refine hrecord.bind inferInstance hu fun _ v _ hheld => ?_
  exact Task.Safe.pure fun w hw _ => hheld.rely hw

theorem safe_command (command : LearningCommand) (hholds : freshness.Holds s)
    (hrest : Rest t s) :
    (command.run t).Safe learningMachine freshness t (fun _ => Rest t) s := by
  cases command with
  | create i => exact safe_create hrest
  | perform i c =>
    have hcreated : (Task.atomically fun s => ((s.converters i).isSome, s) : LearningM Bool).Safe
        learningMachine freshness t
        (fun b u => (b = true → (u.converters i).isSome = true) ∧ Rest t u) s :=
      safe_read fun u v hsu hv => ⟨hv.persists i, (hrest.rely hsu).rely hv⟩
    refine hcreated.bind inferInstance hholds fun b u hu ⟨hb, hrest⟩ => ?_
    refine Task.Safe.ite (fun h => ?_) fun _ => fun v hv _ => hrest.rely hv
    refine (safe_perform hu hrest (hb h)).bind inferInstance hu fun _ v _ hv => ?_
    exact Task.Safe.pure fun w hw _ => hv.rely hw
  | recordCommit => exact safe_external hholds hrest
  | lock => exact (safe_lock hrest).mono fun _ _ _ h => h.rest
  | unlock => exact safe_unlockOwn hrest

theorem safe_thread (script : List LearningCommand) (hholds : freshness.Holds s)
    (hrest : Rest t s) :
    (learningThread t script).Safe learningMachine freshness t (fun _ _ => True) s := by
  induction script generalizing s with
  | nil => exact fun _ _ _ => trivial
  | cons command rest ih =>
    exact (safe_command command hholds hrest).bind inferInstance hholds fun _ u hu hrest =>
      ih hu hrest

/-! ## Runs -/

/-- A run whose every state meets the condition. -/
def OrderlyRun : Pool basePort Empty LearningSystem GateThread →
    Pool basePort Empty LearningSystem GateThread → Prop :=
  Relation.ReflTransGen fun p q => (∃ t, Pool.Step learningMachine t p q) ∧ Orderly q.state

theorem orderly_start (scripts : GateThread → List LearningCommand) :
    Orderly (startLearning scripts).state where
  events _ he := absurd he List.not_mem_nil
  bound := Nat.two_pow_pos 64

theorem disciplined_start (scripts : GateThread → List LearningCommand) :
    (startLearning scripts).Disciplined learningMachine freshness := by
  have hconsistent : Consistent (startLearning scripts).state :=
    ⟨rfl, fun _ _ hc => (Option.some_ne_none _ hc.symm).elim, .nil⟩
  have hinv : freshness.inv (startLearning scripts).state :=
    ⟨fun _ => hconsistent, fun e he => absurd he List.not_mem_nil⟩
  exact ⟨hinv, fun t => safe_thread (scripts t) ⟨hinv, orderly_start scripts⟩ fun _ => hconsistent⟩

theorem disciplined_run {scripts : GateThread → List LearningCommand}
    {q : Pool basePort Empty LearningSystem GateThread}
    (h : OrderlyRun (startLearning scripts) q) :
    q.Disciplined learningMachine freshness ∧ Orderly q.state := by
  induction h with
  | refl => exact ⟨disciplined_start scripts, orderly_start scripts⟩
  | tail _ hstep ih =>
    obtain ⟨⟨t, hstep⟩, hq⟩ := hstep
    exact ⟨(ih.1.step inferInstance (fun _ l => l.elim) ih.2 hq hstep).1, hq⟩

/-- In every orderly run conversions are served from the newest history, caches
are reloaded only after a commit of someone else, and while nobody has the gate
every change of the history has incremented the store once and an instance is
behind the store exactly where it missed a commit. -/
theorem learning_synchronized {scripts : GateThread → List LearningCommand}
    {q : Pool basePort Empty LearningSystem GateThread}
    (h : OrderlyRun (startLearning scripts) q) :
    (∀ base observed current missed persisted,
      .called base observed current missed persisted ∈ q.state.log →
      (base.call.converts = true → observed = some current ∧ missed = false) ∧
        (base.synchronising = true → missed = true)) ∧
    (q.state.gate.owner = none →
      Published q.state.log ∧ q.state.revision.toNat = commits q.state.log ∧
        ∀ i c, q.state.converters i = some c →
          (c.missed = true ↔ c.observedRevision ≠ q.state.revision)) := by
  obtain ⟨hdisciplined, -⟩ := disciplined_run h
  obtain ⟨hconsistent, hserved⟩ := hdisciplined.inv
  refine ⟨fun base o r m p he => hserved _ he, fun hfree => ?_⟩
  have hc := hconsistent hfree
  exact ⟨hc.published, hc.revision, fun i c hi => (hc.fresh i c hi).missed⟩

/-! Runs by a schedule. -/

instance : (e : LearningEvent) → Decidable e.Orderly
  | .called .. => inferInstanceAs (Decidable (_ ∧ _))
  | .recorded _ => inferInstanceAs (Decidable True)

instance (s : LearningSystem) : Decidable (Orderly s) :=
  decidable_of_iff ((∀ e ∈ s.log, e.Orderly) ∧ commits s.log < 2 ^ 64)
    ⟨fun h => ⟨h.1, h.2⟩, fun h => ⟨h.events, h.bound⟩⟩

/-- A schedule that stops where a state does not meet the condition. -/
def orderlySchedule (answer : (c : BaseCall) → basePort.Answer c) :
    List GateThread → Pool basePort Empty LearningSystem GateThread →
      Option (Pool basePort Empty LearningSystem GateThread)
  | [], p => some p
  | t :: rest, p =>
    match (p.tasks t).advance learningMachine answer t p.state with
    | none => none
    | some (task, s) =>
      if Orderly s then orderlySchedule answer rest ⟨s, Function.update p.tasks t task⟩ else none

theorem orderlySchedule_run {answer : (c : BaseCall) → basePort.Answer c}
    {schedule : List GateThread} {p q : Pool basePort Empty LearningSystem GateThread}
    (h : orderlySchedule answer schedule p = some q) : OrderlyRun p q := by
  induction schedule generalizing p with
  | nil =>
    obtain rfl := Option.some.inj h
    exact .refl
  | cons t rest ih =>
    rw [orderlySchedule] at h
    cases hstep : (p.tasks t).advance learningMachine answer t p.state with
    | none =>
      rw [hstep] at h
      cases h
    | some next =>
      rw [hstep] at h
      simp only [Option.ite_none_right_eq_some] at h
      exact .head ⟨⟨t, .run (Task.advance_step hstep)⟩, h.1⟩ (ih h.2)

/-- A base converter that has something to save whenever it is asked. -/
def savingBase (c : BaseCall) : basePort.Answer c :=
  ((noopConverter c.call ()).1, !c.synchronising)

def oneThread (script : List LearningCommand) : GateThread → List LearningCommand
  | .foreground 0 => script
  | _ => []

def untyped : CompositionInput := { elements := [], cursor := 0, leftContext := [] }

def plainOptions : ConversionOptions := ⟨true, false, false, [], [], .disabled, 9⟩

/-- The first of two instances converts after a commit of the second. -/
def committing : List LearningCommand :=
  [.create 0, .create 1, .perform 1 .commitLearning,
    .perform 0 (.candidates untyped plainOptions)]

theorem commit_is_seen : ∃ q, OrderlyRun (startLearning (oneThread committing)) q ∧
    q.state.log.length = 4 ∧ Published q.state.log ∧
      ∀ base observed current missed persisted,
        .called base observed current missed persisted ∈ q.state.log →
          base.call.converts = true → observed = some current ∧ missed = false := by
  have hrun : (orderlySchedule savingBase (List.replicate 16 (.foreground 0))
      (startLearning (oneThread committing))).map
        (fun q => (q.state.log.length, q.state.gate.owner)) = some (4, none) := by
    decide +kernel
  obtain ⟨q, hq, hlog⟩ := Option.map_eq_some_iff.mp hrun
  have hq := orderlySchedule_run hq
  obtain ⟨hserved, hfree⟩ := learning_synchronized hq
  refine ⟨q, hq, congrArg Prod.fst hlog, (hfree (congrArg Prod.snd hlog)).1, ?_⟩
  exact fun base o r m p he => (hserved base o r m p he).1

/-- The same, but the first instance forgets a candidate in between: it takes
the store's revision for its own and never reloads its cache. -/
def forgetting : List LearningCommand :=
  [.create 0, .create 1, .perform 1 .commitLearning,
    .perform 0 (.forget { text := [], consumingCount := 0 }),
    .perform 0 (.candidates untyped plainOptions)]

theorem forget_hides_commit :
    ¬ ∀ scripts q, Pool.Reaches learningMachine (startLearning scripts) q →
      ∀ base observed current missed persisted,
        .called base observed current missed persisted ∈ q.state.log →
          base.call.converts = true → observed = some current ∧ missed = false := by
  intro h
  have hrun : ((startLearning (oneThread forgetting)).schedule learningMachine savingBase
      (List.replicate 20 (.foreground 0))).map (·.state.log) = some [
        .called ⟨0, .candidates untyped plainOptions, false⟩ (some 2) 2 true false,
        .recorded (some 0),
        .called ⟨0, .forget { text := [], consumingCount := 0 }, false⟩ (some 0) 1 true true,
        .recorded (some 1),
        .called ⟨1, .commitLearning, false⟩ (some 0) 0 false true] := by
    decide +kernel
  obtain ⟨q, hq, hlog⟩ := Option.map_eq_some_iff.mp hrun
  have hserved := h _ q (Pool.schedule_reaches hq) _ _ _ _ _
    (by rw [hlog]; exact List.mem_cons_self) rfl
  cases hserved.2

end LearningSynchronized

end Hazkey
