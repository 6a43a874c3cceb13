import Hazkey.HybridSteps

/-! A purge is final: it leaves nothing behind, and work that was submitted before
it is recognised as stale by its number. -/

namespace Hazkey

open ServiceProgram Interleaving

/-- The number of the work that is started as the `i`th, from zero on. -/
def workIDAt (i : Nat) : UInt64 := UInt64.ofNat (i % (2 ^ 64 - 1) + 1)

theorem toNat_workIDAt (i : Nat) : (workIDAt i).toNat = i % (2 ^ 64 - 1) + 1 := by
  unfold workIDAt
  rw [UInt64.toNat_ofNat']
  have hi : i % (2 ^ 64 - 1) < 2 ^ 64 - 1 := Nat.mod_lt _ (by decide)
  exact Nat.mod_eq_of_lt (by omega)

theorem workIDAt_succ (i : Nat) : nextCounter (workIDAt i) = workIDAt (i + 1) := by
  have hi := toNat_workIDAt i
  have hlt : i % (2 ^ 64 - 1) < 2 ^ 64 - 1 := Nat.mod_lt _ (by decide)
  unfold nextCounter
  split
  · rename_i hmax
    rw [hmax] at hi
    have hlast : i % (2 ^ 64 - 1) = 2 ^ 64 - 2 := by
      change 2 ^ 64 - 1 = _ at hi
      omega
    apply UInt64.toNat_inj.mp
    rw [toNat_workIDAt]
    change 1 = _
    omega
  · rename_i hmax
    apply UInt64.toNat_inj.mp
    rw [toNat_workIDAt, UInt64.toNat_add, hi]
    change (_ + 1) % 2 ^ 64 = _
    have hne : i % (2 ^ 64 - 1) ≠ 2 ^ 64 - 2 := by
      intro he
      apply hmax
      apply UInt64.toNat_inj.mp
      rw [hi, he]
      rfl
    omega

/-- Numbers differ before they wrap around. -/
theorem workIDAt_inj {i k : Nat} (hi : i < 2 ^ 64 - 1) (hk : k < 2 ^ 64 - 1)
    (h : workIDAt i = workIDAt k) : i = k := by
  have hn := congrArg UInt64.toNat h
  rw [toNat_workIDAt, toNat_workIDAt, Nat.mod_eq_of_lt hi, Nat.mod_eq_of_lt hk] at hn
  omega

namespace MozcFirstHybrid

/-- How many pieces of work were started. -/
def started (h : MozcFirstHybrid) : Nat := h.prefetchStarted.toNat

/-- The work is the one that the converter waits for. -/
def Awaits (h : MozcFirstHybrid) (workID : UInt64) : Prop :=
  ∃ context, h.speculationState = .pending workID context

end MozcFirstHybrid

/-- What is stored for candidates: prepared steps, the fence and the routes. -/
structure StoresAlike (h h' : MozcFirstHybrid) : Prop where
  speculation : h'.speculationState = h.speculationState
  fence : h'.candidateFence = h.candidateFence
  routes : h'.candidateRoutes = h.candidateRoutes

/-- What work changes of a converter. -/
structure Worked (h h' : MozcFirstHybrid) : Prop where
  routes : h'.candidateRoutes = h.candidateRoutes
  order : h'.candidateRouteOrder = h.candidateRouteOrder
  staged : h'.stagedRoutes = h.stagedRoutes
  dirty : h'.dirtyBackends = h.dirtyBackends
  speculation : (∀ k, ¬ h.Awaits k) →
    h'.speculationState = h.speculationState ∧ h'.candidateFence = h.candidateFence

/-- What a purge leaves of a converter. -/
structure Emptied (h : MozcFirstHybrid) : Prop where
  routes : h.candidateRoutes = ∅
  order : h.candidateRouteOrder = []
  staged : h.stagedRoutes = ∅
  dirty : h.dirtyBackends = ∅
  speculation : h.speculationState = .idle
  fence : h.candidateFence = none

theorem Worked.refl (h : MozcFirstHybrid) : Worked h h :=
  ⟨rfl, rfl, rfl, rfl, fun _ => ⟨rfl, rfl⟩⟩

theorem Worked.trans {h h' h'' : MozcFirstHybrid} (h₁ : Worked h h') (h₂ : Worked h' h'') :
    Worked h h'' where
  routes := h₂.routes.trans h₁.routes
  order := h₂.order.trans h₁.order
  staged := h₂.staged.trans h₁.staged
  dirty := h₂.dirty.trans h₁.dirty
  speculation hidle := by
    obtain ⟨hstate, hfence⟩ := h₁.speculation hidle
    obtain ⟨hstate', hfence'⟩ := h₂.speculation fun k hk => hidle k (by
      unfold MozcFirstHybrid.Awaits at hk ⊢
      rwa [hstate] at hk)
    exact ⟨hstate'.trans hstate, hfence'.trans hfence⟩

/-- Work finds nothing to do where a purge has been. -/
theorem Emptied.worked {h h' : MozcFirstHybrid} (hp : Emptied h) (hw : Worked h h') : Emptied h' := by
  obtain ⟨hstate, hfence⟩ := hw.speculation fun k hk => by
    obtain ⟨x, hx⟩ := hk
    rw [hp.speculation] at hx
    cases hx
  exact ⟨hw.routes.trans hp.routes, hw.order.trans hp.order, hw.staged.trans hp.staged,
    hw.dirty.trans hp.dirty, hstate.trans hp.speculation, hfence.trans hp.fence⟩

theorem purge_empties (h : MozcFirstHybrid) : Emptied h.purgeLocked.2 := by
  have hdiscard : h.emptied.discardFrozenStepLocked = h.emptied := rfl
  unfold MozcFirstHybrid.purgeLocked MozcFirstHybrid.takeCandidateFenceLocked
  simp only [hdiscard]
  cases hfence : h.emptied.candidateFence with
  | none => exact ⟨rfl, rfl, rfl, rfl, rfl, hfence⟩
  | some fence => exact ⟨rfl, rfl, rfl, rfl, rfl, rfl⟩

/-! The discipline of one converter that one foreground thread operates. -/

/-- The work was started by its converter. -/
def HybridSystem.Issued (s : HybridSystem) (c : Nat) (workID : UInt64) : Prop :=
  ∃ i < (s.converters c).started, workID = workIDAt i

/-- Work carries the number under which it was started, and a converter waits for
the work that it started last. -/
structure Issuance (s : HybridSystem) : Prop where
  numbered : s.Numbered
  nonneg : ∀ c, 0 ≤ (s.converters c).prefetchStarted
  next : ∀ c, (s.converters c).nextSpeculationWorkID = workIDAt (s.converters c).started
  awaited : ∀ c k, (s.converters c).Awaits k →
    0 < (s.converters c).started ∧ k = workIDAt ((s.converters c).started - 1)
  submitted : ∀ w ∈ s.submitted, s.Issued w.converter w.workID

/-- Work stays submitted, and the count of started work only grows. -/
structure Later (s s' : HybridSystem) : Prop where
  submitted : ∀ (j : Nat) w, s.submitted[j]? = some w → s'.submitted[j]? = some w
  started : ∀ c, (s.converters c).started ≤ (s'.converters c).started

theorem HybridSystem.Issued.later {s s' : HybridSystem} {c : Nat} {workID : UInt64}
    (h : s.Issued c workID) (hl : Later s s') : s'.Issued c workID := by
  obtain ⟨i, hi, hk⟩ := h
  exact ⟨i, Nat.lt_of_lt_of_le hi (hl.started c), hk⟩

section

variable (n₀ c₀ : Nat)

/-- What a thread finds done by the others: the thread that operates the converter
finds only what work does. -/
structure Attended (t : GateThread) (s s' : HybridSystem) : Prop extends Later s s' where
  worked : t = .foreground n₀ → Worked (s.converters c₀) (s'.converters c₀)

/-- What a step of a thread does. A worker stores something only for the work that the
converter waits for, and a converter waits for work only once it has started it. -/
structure Advances (t : GateThread) (s s' : HybridSystem) : Prop extends Later s s' where
  worked : t ≠ .foreground n₀ → Worked (s.converters c₀) (s'.converters c₀)
  awaited : ∀ c k, (s'.converters c).Awaits k →
    (s.converters c).started < (s'.converters c).started ∨ ∃ k', (s.converters c).Awaits k'
  stored : ∀ j, t = .worker j → ∀ c, StoresAlike (s.converters c) (s'.converters c) ∨
    ∃ w, s.submitted[j]? = some w ∧ w.converter = c ∧ (s.converters c).Awaits w.workID
  purged : s'.returned = s.returned ++ [(c₀, .purgeSensitiveState)] → Emptied (s'.converters c₀)

def finality : Discipline childPort Work HybridSystem GateThread where
  inv := Issuance
  rely := Attended n₀ c₀
  guar := Advances n₀ c₀
  label t w s := t = .worker w.job ∧ s.submitted[w.job]? = some w

instance : (finality n₀ c₀).Compatible where
  refl _ _ := ⟨⟨fun _ _ => id, fun _ => Nat.le_refl _⟩, fun _ => .refl _⟩
  trans _ _ _ _ h₁ h₂ :=
    ⟨⟨fun j w hw => h₂.submitted j w (h₁.submitted j w hw),
      fun c => Nat.le_trans (h₁.started c) (h₂.started c)⟩,
      fun ht => (h₁.worked ht).trans (h₂.worked ht)⟩
  guar _ _ _ _ htu _ _ h := ⟨h.toLater, fun hu => h.worked fun ht => htu (ht.trans hu.symm)⟩

end

variable {n₀ c₀ n c j : Nat} {t : GateThread} {s s' : HybridSystem}

/-! The steps of the foreground. -/

theorem Continues.awaits {h h' : MozcFirstHybrid} (hc : Continues h h') {k : UInt64}
    (hk : h'.Awaits k) : h.Awaits k := by
  obtain ⟨x, hx⟩ := hk
  exact hc.pending k x hx

theorem Continues.started_eq {h h' : MozcFirstHybrid} (hc : Continues h h') :
    h'.started = h.started := congrArg Int.toNat hc.started

theorem Issuance.continues (hs : Issuance s)
    (hconverters : ∀ c, Continues (s.converters c) (s'.converters c)) (hnumbered : s'.Numbered)
    (hsubmitted : ∀ w ∈ s'.submitted, s.Issued w.converter w.workID) : Issuance s' where
  numbered := hnumbered
  nonneg c := by
    rw [(hconverters c).started]
    exact hs.nonneg c
  next c := by
    rw [(hconverters c).next, (hconverters c).started_eq]
    exact hs.next c
  awaited c k hk := by
    rw [(hconverters c).started_eq]
    exact hs.awaited c k ((hconverters c).awaits hk)
  submitted w hw := by
    obtain ⟨i, hi, hk⟩ := hsubmitted w hw
    exact ⟨i, (hconverters w.converter).started_eq ▸ hi, hk⟩

/-- A change of a foreground thread that starts no work. -/
theorem allows_continues (hs : Issuance s) (hsubmitted : s'.submitted = s.submitted)
    (hconverters : ∀ c, Continues (s.converters c) (s'.converters c))
    (hworked : n ≠ n₀ → Worked (s.converters c₀) (s'.converters c₀))
    (hreturned : s'.returned = s.returned ++ [(c₀, .purgeSensitiveState)] →
      Emptied (s'.converters c₀)) :
    (finality n₀ c₀).Allows (.foreground n) s s' where
  inv := hs.continues hconverters (by unfold HybridSystem.Numbered; rw [hsubmitted]; exact hs.numbered)
    (by rw [hsubmitted]; exact hs.submitted)
  guar :=
    { submitted := fun j w hw => by rw [hsubmitted]; exact hw
      started := fun c => ((hconverters c).started_eq).ge
      worked := fun ht => hworked fun hn => ht (congrArg _ hn)
      awaited := fun _ k hk => .inr ⟨k, (hconverters _).awaits hk⟩
      stored := fun _ hj => by cases hj
      purged := hreturned }

theorem not_returned {s : HybridSystem} {x : Nat × ConverterCall} :
    s.returned ≠ s.returned ++ [x] := fun h => by
  have hlength := congrArg List.length h
  simp at hlength

/-- A step that changes no converter. -/
structure Elsewhere (s s' : HybridSystem) : Prop where
  submitted : s'.submitted = s.submitted
  converters : s'.converters = s.converters
  returned : s'.returned = s.returned

theorem allows_elsewhere (hs : Issuance s) (h : Elsewhere s s') :
    (finality n₀ c₀).Allows t s s' := by
  have hcontinues (c : Nat) : Continues (s.converters c) (s'.converters c) :=
    h.converters ▸ .refl _
  refine ⟨hs.continues hcontinues ?_ (h.submitted ▸ hs.submitted),
    ⟨fun _ _ hw => h.submitted ▸ hw, fun c => (hcontinues c).started_eq.ge⟩,
    fun _ => h.converters ▸ .refl _, fun _ k hk => .inr ⟨k, (hcontinues _).awaits hk⟩,
    fun _ _ _ => .inl (h.converters ▸ ⟨rfl, rfl, rfl⟩),
    fun hr => absurd (h.returned.symm.trans hr) not_returned⟩
  unfold HybridSystem.Numbered
  rw [h.submitted]
  exact hs.numbered

theorem continues_withConverter {f : MozcFirstHybrid → MozcFirstHybrid}
    (hf : Continues (s.converters c) (f (s.converters c)))
    (hconverters : s'.converters = (s.withConverter c f).converters) (k : Nat) :
    Continues (s.converters k) (s'.converters k) := by
  rw [hconverters]
  by_cases hk : k = c
  · subst hk
    simpa only [HybridSystem.withConverter, Function.update_self] using hf
  · simpa only [HybridSystem.withConverter, Function.update_of_ne hk] using .refl _

theorem worked_elsewhere {f : MozcFirstHybrid → MozcFirstHybrid} (hc : c ≠ c₀)
    (hconverters : s'.converters = (s.withConverter c f).converters) :
    Worked (s.converters c₀) (s'.converters c₀) := by
  rw [hconverters]
  simpa only [HybridSystem.withConverter, Function.update_of_ne hc.symm] using .refl _

/-- A change of a converter of the thread's own. -/
theorem allows_own (hs : Issuance s) (hc : n = n₀ ∨ c ≠ c₀) {f : MozcFirstHybrid → MozcFirstHybrid}
    (hf : Continues (s.converters c) (f (s.converters c)))
    (hconverters : s'.converters = (s.withConverter c f).converters)
    (hsubmitted : s'.submitted = s.submitted) (hreturned : s'.returned = s.returned) :
    (finality n₀ c₀).Allows (.foreground n) s s' :=
  allows_continues hs hsubmitted (continues_withConverter hf hconverters)
    (fun hn => worked_elsewhere (hc.resolve_left hn) hconverters)
    fun h => absurd (hreturned.symm.trans h) not_returned

/-- Work is started under the next number, and its converter waits for it. -/
theorem prepare_starts (h : MozcFirstHybrid) (context : SpeculativeConversionContext) :
    (h.prepareLocked context).1 = none ∧ (h.prepareLocked context).2.2 = h ∨
    (h.prepareLocked context).1 = some h.nextSpeculationWorkID ∧
      (h.prepareLocked context).2.2.speculationState = .pending h.nextSpeculationWorkID context ∧
      (h.prepareLocked context).2.2.nextSpeculationWorkID = nextCounter h.nextSpeculationWorkID ∧
      (h.prepareLocked context).2.2.prefetchStarted = h.prefetchStarted + 1 := by
  unfold MozcFirstHybrid.prepareLocked
  split
  · exact .inl ⟨rfl, rfl⟩
  · have htaken := takeUnneeded_taken h
    refine .inr ⟨rfl, ?_, ?_, ?_⟩
    · unfold MozcFirstHybrid.replaceSpeculation
      dsimp only
      rw [htaken.next]
    · exact congrArg nextCounter htaken.next
    · exact congrArg (· + 1) htaken.started

/-- What `prepareLocked` leaves in the memory. -/
theorem allows_prepare (hs : Issuance s) (hc : n = n₀ ∨ c ≠ c₀)
    (context : SpeculativeConversionContext) :
    (finality n₀ c₀).Allows (.foreground n) s
        { s.withConverter c fun _ => ((s.converters c).prepareLocked context).2.2 with
          fenceToRelease := Function.update s.fenceToRelease n
            ((s.converters c).prepareLocked context).2.1 } ∧
      ∀ k, ((s.converters c).prepareLocked context).1 = some k →
        ({ s.withConverter c fun _ => ((s.converters c).prepareLocked context).2.2 with
          fenceToRelease := Function.update s.fenceToRelease n
            ((s.converters c).prepareLocked context).2.1 } : HybridSystem).Issued c k := by
  have hstarts := prepare_starts (s.converters c) context
  generalize (s.converters c).prepareLocked context = r at hstarts
  obtain ⟨workID, fence, h⟩ := r
  dsimp only at hstarts ⊢
  generalize hs' : ({ s.withConverter c fun _ => h with
    fenceToRelease := Function.update s.fenceToRelease n fence } : HybridSystem) = s'
  have hconverters : s'.converters = (s.withConverter c fun _ => h).converters := hs' ▸ rfl
  have hsubmitted : s'.submitted = s.submitted := hs' ▸ rfl
  have hreturned : s'.returned = s.returned := hs' ▸ rfl
  rcases hstarts with ⟨rfl, rfl⟩ | ⟨rfl, hstate, hnext, hstarted⟩
  · exact ⟨allows_own hs hc (.refl _) hconverters hsubmitted hreturned, fun _ hk => nomatch hk⟩
  · have hc' : s'.converters c = h := by
      rw [hconverters]
      exact Function.update_self _ _ _
    have hother {k : Nat} (hk : k ≠ c) : s'.converters k = s.converters k := by
      rw [hconverters]
      exact Function.update_of_ne hk _ _
    have hcount : (s'.converters c).started = (s.converters c).started + 1 := by
      have hnonneg := hs.nonneg c
      unfold MozcFirstHybrid.started
      rw [hc', hstarted]
      omega
    have hlater : Later s s' :=
      ⟨fun j w hw => hsubmitted ▸ hw, fun k => by
        by_cases hk : k = c
        · rw [hk, hcount]
          exact Nat.le_succ _
        · rw [hother hk]⟩
    have hawaits : ∀ k, (s'.converters c).Awaits k → k = (s.converters c).nextSpeculationWorkID := by
      rintro k ⟨x, hx⟩
      rw [hc', hstate] at hx
      exact (SpeculationState.pending.inj hx).1.symm
    refine ⟨⟨⟨?_, fun k => ?_, fun k => ?_, fun k workID hk => ?_, fun w hw => ?_⟩,
      hlater, fun ht => ?_, fun k workID hk => ?_, (fun _ hj => by cases hj),
      fun h => absurd (hreturned.symm.trans h) not_returned⟩, fun k hk => ?_⟩
    · unfold HybridSystem.Numbered
      rw [hsubmitted]
      exact hs.numbered
    · by_cases hkc : k = c
      · have hnonneg := hs.nonneg c
        rw [hkc, hc', hstarted]
        omega
      · rw [hother hkc]
        exact hs.nonneg k
    · by_cases hkc : k = c
      · rw [hkc, hcount, hc', hnext, hs.next c, workIDAt_succ]
      · rw [hother hkc]
        exact hs.next k
    · by_cases hkc : k = c
      · subst hkc
        rw [hawaits workID hk, hcount, hs.next k]
        exact ⟨Nat.succ_pos _, rfl⟩
      · rw [hother hkc] at hk ⊢
        exact hs.awaited k workID hk
    · exact (hs.submitted w (hsubmitted ▸ hw)).later hlater
    · exact worked_elsewhere (hc.resolve_left fun hn => ht (congrArg _ hn)) hconverters
    · by_cases hkc : k = c
      · rw [hkc, hcount]
        exact .inl (Nat.lt_succ_self _)
      · rw [hother hkc] at hk
        exact .inr ⟨workID, hk⟩
    · refine ⟨(s.converters c).started, hcount ▸ Nat.lt_succ_self _, ?_⟩
      exact (Option.some.inj hk).symm.trans (hs.next c)

/-- Neither the thread nor the others take back that work was issued or submitted. -/
theorem later_of_step {u v : HybridSystem}
    (h : (finality n₀ c₀).rely t u v ∨ (finality n₀ c₀).guar t u v) : Later u v :=
  h.elim (fun hr => hr.toLater) fun hg => hg.toLater

theorem allows_submit (hs : Issuance s) {workID : UInt64} (hworkID : s.Issued c workID) :
    (finality n₀ c₀).Allows (.foreground n) s
      { s with submitted := s.submitted ++ [⟨s.submitted.length, c, workID⟩] } where
  inv := hs.continues (fun _ => .refl _) (fun j w hw => hs.numbered.append j w hw) fun w hw => by
    rcases List.mem_append.mp hw with hw | hw
    · exact hs.submitted w hw
    · obtain rfl := List.mem_singleton.mp hw
      exact hworkID
  guar :=
    { submitted := fun j w hw => by
        obtain ⟨hj, hw⟩ := List.getElem?_eq_some_iff.mp hw
        exact (List.getElem?_append_left hj).trans (List.getElem?_eq_some_iff.mpr ⟨hj, hw⟩)
      started := fun _ => Nat.le_refl _
      worked := fun _ => .refl _
      awaited := fun _ k hk => .inr ⟨k, hk⟩
      stored := fun _ hj => by cases hj
      purged := fun h => absurd h not_returned }

/-! The steps that change no converter. -/

section

variable (n c : Nat)

instance : (releaseCandidateFence n).Within hybridMachine t Elsewhere where
  steps s _ := by
    refine ⟨?_, trivial⟩
    dsimp only
    split <;> exact ⟨rfl, rfl, rfl⟩

instance : (resumeSpeculation n).Within hybridMachine t Elsewhere where
  steps s _ := by
    refine ⟨?_, trivial⟩
    dsimp only
    split <;> exact ⟨rfl, rfl, rfl⟩

instance : (suspendSpeculation n).Within hybridMachine t Elsewhere :=
  ⟨fun _ _ => ⟨⟨rfl, rfl, rfl⟩, trivial⟩⟩

instance : (lockGate t).Within hybridMachine t Elsewhere :=
  ⟨fun _ _ => ⟨⟨rfl, rfl, rfl⟩, trivial⟩⟩

instance : unlockGate.Within hybridMachine t Elsewhere :=
  ⟨fun _ _ => ⟨⟨rfl, rfl, rfl⟩, trivial⟩⟩

theorem child_within (backend : Backend) (request : ConverterCall) :
    (child c backend request).Within hybridMachine t Elsewhere :=
  ⟨fun _ _ => ⟨⟨rfl, rfl, rfl⟩, trivial⟩⟩

instance {α : Type} (body : HybridM α) [body.Within hybridMachine t Elsewhere] :
    (withHazkeyLock t body).Within hybridMachine t Elsewhere := by
  unfold withHazkeyLock
  infer_instance

instance : (waitForActiveWorkToFinish c).Within hybridMachine t Elsewhere :=
  ⟨fun _ _ => ⟨⟨rfl, rfl, rfl⟩, trivial⟩⟩

instance {α : Type} (f : HybridSystem → α) :
    (Task.atomically fun s => (f s, s) : HybridM α).Within hybridMachine t Elsewhere :=
  ⟨fun _ _ => ⟨⟨rfl, rfl, rfl⟩, trivial⟩⟩

end

section

variable (n₀ c₀ n c)

theorem final_elsewhere {α : Type} (p : HybridM α) [p.Within hybridMachine t Elsewhere] :
    Task.Steady hybridMachine (finality n₀ c₀) t p :=
  Task.Within.steady fun _ _ hu => allows_elsewhere hu.1

theorem final_change (hc : n = n₀ ∨ c ≠ c₀) {f : MozcFirstHybrid → MozcFirstHybrid}
    (hf : ∀ h, Kept h (f h)) :
    Task.Steady hybridMachine (finality n₀ c₀) (.foreground n) (changeLocked c f) :=
  Task.steady_modify fun _ hu _ => allows_own hu.1 hc (hf _).toContinues rfl rfl rfl

/-- Work is submitted under the number that it was given. -/
theorem final_prepareSpeculation (hc : n = n₀ ∨ c ≠ c₀) (context : SpeculativeConversionContext) :
    Task.Steady hybridMachine (finality n₀ c₀) (.foreground n)
      (prepareSpeculation n c context) := by
  have hframe {k : UInt64} (u v : HybridSystem) (_ : (finality n₀ c₀).Holds u)
      (_ : (finality n₀ c₀).Holds v)
      (h : (finality n₀ c₀).rely (.foreground n) u v ∨ (finality n₀ c₀).guar (.foreground n) u v)
      (hu : u.Issued c k) : v.Issued c k := hu.later (later_of_step h)
  have hprepare (context : SpeculativeConversionContext) (s : HybridSystem) :
      (prepareLocked n c context).Safe hybridMachine (finality n₀ c₀) (.foreground n)
        (fun workID u => ∀ k, workID = some k → u.Issued c k) s := by
    refine .atomically fun u _ hu _ => ?_
    obtain ⟨hallows, hissued⟩ := allows_prepare hu.1 hc context
    exact ⟨hallows, fun v hv _ k hk => (hissued k hk).later hv.toLater⟩
  have hcount := final_change n₀ c₀ n c hc (f := fun h =>
    { h with outstandingWorkCountValue := h.outstandingWorkCountValue + 1 })
    fun _ => ⟨⟨fun _ x hx => ⟨x, hx⟩, rfl, rfl⟩, rfl⟩
  refine ⟨fun s hs => ?_⟩
  unfold prepareSpeculation
  refine .ite (fun _ => ?_) fun _ _ _ _ => trivial
  refine ((final_elsewhere n₀ c₀ (Task.atomically fun s => (s.learningRevision, s))).safe s hs).bind inferInstance hs fun learningRevision u hu _ => ?_
  refine (hprepare _ u).bind inferInstance hu fun workID u hu hworkID => ?_
  cases workID with
  | none => exact ((final_elsewhere n₀ c₀ (releaseCandidateFence n)).safe u hu).bind inferInstance hu fun _ _ _ _ _ _ _ => trivial
  | some workID =>
    refine ((final_elsewhere n₀ c₀ (releaseCandidateFence n)).safe u hu |>.frame hframe hu (hworkID workID rfl)).bind
      inferInstance hu fun _ u hu hissued => ?_
    refine (hcount.safe u hu |>.frame hframe hu hissued.2).bind inferInstance hu
      fun _ u hu hissued => ?_
    exact .modify fun v huv hv _ =>
      ⟨allows_submit hv.1 (hissued.2.later huv.toLater), fun _ _ _ => trivial⟩

/-- Until the purge returns, nothing is stored again. -/
theorem final_purge (hc : n = n₀ ∨ c ≠ c₀) :
    Task.Steady hybridMachine (finality n₀ c₀) (.foreground n)
      (purgeSensitiveState n c >>= fun a =>
        recordReturn c .purgeSensitiveState >>= fun _ => pure a) := by
  have htaken (s : HybridSystem) := purge_taken (s.converters c)
  have hafter (u v : HybridSystem)
      (h : Elsewhere u v ∨ (finality n₀ c₀).rely (.foreground n) u v)
      (hu : c = c₀ → Emptied (u.converters c₀)) (he : c = c₀) : Emptied (v.converters c₀) := by
    rcases h with h | h
    · rw [h.converters]
      exact hu he
    · exact (hu he).worked (h.worked (congrArg _ (hc.resolve_right fun hne => hne he)))
  have hmozc := child_within (t := .foreground n) c .mozc .purgeSensitiveState
  have hhazkey := child_within (t := .foreground n) c .hazkey .purgeSensitiveState
  refine ⟨fun s hs => ?_⟩
  refine Task.Safe.bind (Q := fun _ u => c = c₀ → Emptied (u.converters c₀)) inferInstance hs ?_
    fun _ u hu hemptied => ?_
  · refine ((final_elsewhere n₀ c₀ (suspendSpeculation n)).safe s hs).bind inferInstance hs
      fun _ u hu _ => ?_
    refine Task.Safe.bind (Q := fun _ u => c = c₀ → Emptied (u.converters c₀)) inferInstance hu
      (.modify fun v _ hv _ => ?_) fun _ v hv hemptied =>
        Task.Within.safe (P := Elsewhere) (fun _ _ hx => allows_elsewhere hx.1) hafter hemptied
    refine ⟨allows_own (f := fun _ => (v.converters c).purgeLocked.2) hv.1 hc
      (htaken v).toContinues rfl rfl rfl, fun w hw _ => ?_⟩
    refine hafter _ w (.inr hw) fun he => ?_
    subst he
    simpa only [HybridSystem.withConverter, Function.update_self] using
      purge_empties (v.converters c)
  · have hreturn : (recordReturn c .purgeSensitiveState).Safe hybridMachine (finality n₀ c₀)
        (.foreground n) (fun _ _ => True) u := by
      refine .modify fun v huv hv _ => ⟨allows_continues hv.1 rfl (fun _ => .refl _)
        (fun _ => .refl _) fun hr => ?_, fun _ _ _ => trivial⟩
      have he : c = c₀ := by
        have hlast := List.append_cancel_left hr
        exact (Prod.mk.inj (List.cons.inj hlast).1).1
      exact hafter u v (.inr huv) hemptied he
    exact hreturn.bind inferInstance hu fun _ _ _ _ _ _ _ => trivial

end

end Hazkey
