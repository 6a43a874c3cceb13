import Hazkey.PurgeFinality
import Hazkey.HybridEvaluation

/-! The finality of a purge in every interleaving of the workers with the foreground. -/

namespace Hazkey

open ServiceProgram Interleaving

attribute [local instance] scalarText byteCodec composedText

variable {n₀ c₀ n c j : Nat} {t : GateThread} {s s' : HybridSystem}

instance final_serves : Serves (finality n₀ c₀) n fun c => n = n₀ ∨ c ≠ c₀ where
  mozc c request := by
    have := child_within (t := .foreground n) c .mozc request
    exact final_elsewhere n₀ c₀ _
  hazkey c request _ := by
    have := child_within (t := .foreground n) c .hazkey request
    exact final_elsewhere n₀ c₀ _
  suspend := final_elsewhere n₀ c₀ _
  resume := final_elsewhere n₀ c₀ _
  release := final_elsewhere n₀ c₀ _
  change c hc f hf := final_change n₀ c₀ n c hc hf
  state c hc f hf := Task.steady_atomically fun u hu _ =>
    allows_own (f := fun _ => (f u.learningRevision (u.converters c)).2) hu.1 hc
      (hf _ _).toContinues rfl rfl rfl
  take c hc f hf := Task.steady_modify fun u hu _ =>
    allows_own (f := fun _ => (f u.learningRevision (u.converters c)).2) hu.1 hc
      (hf _ _).toContinues rfl rfl rfl
  prepare c hc context := final_prepareSpeculation n₀ c₀ n c hc context
  look f := final_elsewhere n₀ c₀ _
  wait c := final_elsewhere n₀ c₀ _
  returned c _ request hrequest := Task.steady_modify fun u hu _ =>
    allows_continues hu.1 rfl (fun _ => .refl _) (fun _ => .refl _) fun hr =>
      absurd (Prod.mk.inj (List.cons.inj (List.append_cancel_left hr)).1).2 hrequest
  purge c hc := final_purge n₀ c₀ n c hc
  act c _ := Task.steady_atomically fun u hu _ => allows_elsewhere hu.1 ⟨rfl, rfl, rfl⟩
  acted c _ r := Task.steady_modify fun u hu _ => allows_elsewhere hu.1 ⟨rfl, rfl, rfl⟩
  lock := final_elsewhere n₀ c₀ _
  unlock := Task.steady_modify fun u hu _ => by
    split <;> exact allows_elsewhere hu.1 ⟨rfl, rfl, rfl⟩
  learn revision := Task.steady_modify fun u hu _ => allows_elsewhere hu.1 ⟨rfl, rfl, rfl⟩

/-! The worker. -/

/-- A change of a converter by work of number `workID`. -/
structure WorkedFor (workID : UInt64) (h h' : MozcFirstHybrid) : Prop extends
    Continues h h', Worked h h' where
  stored : StoresAlike h h' ∨ h.Awaits workID

theorem WorkedFor.refl {workID : UInt64} (h : MozcFirstHybrid) : WorkedFor workID h h :=
  ⟨.refl h, .refl h, .inl ⟨rfl, rfl, rfl⟩⟩

/-- Work changes what the converter waits for, or nothing. -/
theorem workedFor_awaited {workID : UInt64} {h h' : MozcFirstHybrid} (hc : Continues h h')
    (hawaits : h.Awaits workID) (hroutes : h'.candidateRoutes = h.candidateRoutes)
    (horder : h'.candidateRouteOrder = h.candidateRouteOrder)
    (hstaged : h'.stagedRoutes = h.stagedRoutes) (hdirty : h'.dirtyBackends = h.dirtyBackends) :
    WorkedFor workID h h' :=
  ⟨hc, ⟨hroutes, horder, hstaged, hdirty, fun hnone => absurd hawaits (hnone _)⟩, .inr hawaits⟩

theorem admit_worked (h : MozcFirstHybrid) (workID learningRevision : UInt64) :
    WorkedFor workID h (h.admitLocked workID learningRevision).2 := by
  have hc := (admit_kept h workID learningRevision).toContinues
  have hcases : (h.admitLocked workID learningRevision).2 = h ∨
      ∃ x, h.speculationState = .pending workID x ∧ ∃ y,
        (h.admitLocked workID learningRevision).2 = { h with speculationState := y } := by
    unfold MozcFirstHybrid.admitLocked
    split
    · rename_i currentWorkID current hstate
      split
      · rename_i hid
        subst hid
        split
        · exact .inl rfl
        · exact .inr ⟨current, hstate, _, rfl⟩
      · exact .inl rfl
    · exact .inl rfl
  rcases hcases with he | ⟨x, hx, y, he⟩
  · rw [he]
    exact .refl h
  · rw [he] at hc ⊢
    exact workedFor_awaited hc ⟨x, hx⟩ rfl rfl rfl rfl

theorem complete_worked (h : MozcFirstHybrid) (workID : UInt64)
    (context : SpeculativeConversionContext) (prepared : Option (PreparedStep × Option UInt64))
    (learningRevision : UInt64) :
    WorkedFor workID h (h.completeLocked workID context prepared learningRevision).2 := by
  have hc := (complete_completed h workID context prepared learningRevision).toContinues
  unfold MozcFirstHybrid.completeLocked at hc ⊢
  split at hc
  · rename_i hpending
    have hawaits : h.Awaits workID := ⟨context, of_decide_eq_true hpending⟩
    rw [if_pos hpending]
    split at hc
    · rename_i hrevision
      rw [if_pos hrevision]
      cases prepared with
      | none => exact workedFor_awaited hc hawaits rfl rfl rfl rfl
      | some prepared =>
        obtain ⟨step, fence⟩ := prepared
        cases fence with
        | none => exact workedFor_awaited hc hawaits rfl rfl rfl rfl
        | some fence => exact workedFor_awaited hc hawaits rfl rfl rfl rfl
    · rename_i hrevision
      rw [if_neg hrevision]
      exact workedFor_awaited hc hawaits rfl rfl rfl rfl
  · rename_i hpending
    rw [if_neg hpending]
    exact .refl h

/-- A step of submitted work on its converter. -/
theorem allows_work (hs : Issuance s) {w : Work} (hw : s.submitted[j]? = some w)
    {f : MozcFirstHybrid → MozcFirstHybrid}
    (hf : WorkedFor w.workID (s.converters w.converter) (f (s.converters w.converter)))
    (hconverters : s'.converters = (s.withConverter w.converter f).converters)
    (hsubmitted : s'.submitted = s.submitted) (hreturned : s'.returned = s.returned) :
    (finality n₀ c₀).Allows (.worker j) s s' := by
  have hcontinues := continues_withConverter hf.toContinues hconverters
  have hself : s'.converters w.converter = f (s.converters w.converter) := by
    rw [hconverters]
    exact Function.update_self _ _ _
  have hother {k : Nat} (hk : k ≠ w.converter) : s'.converters k = s.converters k := by
    rw [hconverters]
    exact Function.update_of_ne hk _ _
  refine ⟨hs.continues hcontinues (by unfold HybridSystem.Numbered; rw [hsubmitted]; exact hs.numbered)
    (hsubmitted ▸ hs.submitted), ⟨fun _ _ hw => hsubmitted ▸ hw, fun c => (hcontinues c).started_eq.ge⟩,
    fun _ => ?_, fun _ k hk => .inr ⟨k, (hcontinues _).awaits hk⟩, fun i hi c => ?_,
    fun h => absurd (hreturned.symm.trans h) not_returned⟩
  · by_cases hc : c₀ = w.converter
    · rw [hc, hself]
      exact hf.toWorked
    · rw [hother hc]
      exact .refl _
  · obtain rfl := GateThread.worker.inj hi
    by_cases hc : c = w.converter
    · subst hc
      rcases hf.stored with halike | hawaits
      · exact .inl (hself ▸ halike)
      · exact .inr ⟨w, hw, rfl, hawaits⟩
    · rw [hother hc]
      exact .inl ⟨rfl, rfl, rfl⟩

section

variable {w : Work}

theorem final_work_state {α : Type} {f : UInt64 → MozcFirstHybrid → α × MozcFirstHybrid}
    (hf : ∀ l h, WorkedFor w.workID h (f l h).2) (hw : s.submitted[w.job]? = some w) :
    (withStateLock w.converter f).Safe hybridMachine (finality n₀ c₀) (.worker w.job)
      (fun _ u => u.submitted[w.job]? = some w) s := by
  refine .atomically fun u hsu hu _ => ?_
  have hw := hsu.submitted w.job w hw
  exact ⟨allows_work (f := fun _ => (f u.learningRevision (u.converters w.converter)).2) hu.1 hw
    (hf _ _) rfl rfl rfl, fun v hv _ => hv.submitted w.job w hw⟩

instance (workID : UInt64) (context : SpeculativeConversionContext) :
    (withStateLock c fun _ h => (h.speculationIsPending workID context, h)).Within hybridMachine t
      Elsewhere :=
  ⟨fun _ _ => ⟨⟨rfl, Function.update_eq_self _ _, rfl⟩, trivial⟩⟩

instance (context : SpeculativeConversionContext) (workID : UInt64) :
    (makeHazkeyStep c context workID).Within hybridMachine t Elsewhere := by
  unfold makeHazkeyStep
  refine .bind inferInstance fun pending => ?_
  have hanswered (answer : Except String ConversionOutput) : Task.Within (α := Option PreparedStep)
      hybridMachine t Elsewhere (match answer with
      | .error _ => pure none
      | .ok requested => do
        let pending ← withStateLock c fun _ h => (h.speculationIsPending workID context, h)
        let candidates := requested.candidates.take context.options.suggestionListLimit.toNat
        pure (if pending = true then
          some ⟨context.input, context.options,
            ⟨candidates, min requested.pageSize candidates.length⟩⟩
          else none) : HybridM (Option PreparedStep)) := by
    cases answer <;> (dsimp only; infer_instance)
  split
  · exact .bind (child_within c _ _) hanswered
  · infer_instance

instance : (acquireWorkFence j).Within hybridMachine t Elsewhere :=
  ⟨fun _ _ => ⟨⟨rfl, rfl, rfl⟩, trivial⟩⟩

instance : (releaseWorkFence j).Within hybridMachine t Elsewhere where
  steps s _ := by
    refine ⟨?_, trivial⟩
    dsimp only
    split <;> exact ⟨rfl, rfl, rfl⟩

instance : beginWaiting.Within hybridMachine t Elsewhere where
  steps s _ := by
    refine ⟨?_, trivial⟩
    dsimp only
    split <;> exact ⟨rfl, rfl, rfl⟩

instance : endWaiting.Within hybridMachine t Elsewhere :=
  ⟨fun _ _ => ⟨⟨rfl, rfl, rfl⟩, trivial⟩⟩

instance : (enterGate j).Within hybridMachine t Elsewhere where
  steps s _ := by
    refine ⟨?_, trivial⟩
    dsimp only
    split <;> exact ⟨rfl, rfl, rfl⟩

instance : (leaveGate j).Within hybridMachine t Elsewhere :=
  ⟨fun _ _ => ⟨⟨rfl, rfl, rfl⟩, trivial⟩⟩

instance {c : Prop} [Decidable c] {p : HybridM Unit} [p.Within hybridMachine t Elsewhere] :
    (Task.when c p).Within hybridMachine t Elsewhere :=
  inferInstanceAs ((if c then p else pure ()).Within hybridMachine t Elsewhere)

/-- Steps that change no converter leave the work submitted. -/
theorem final_quiet {α : Type} (p : HybridM α)
    [p.Within hybridMachine (.worker w.job) Elsewhere] (hw : s.submitted[w.job]? = some w) :
    p.Safe hybridMachine (finality n₀ c₀) (.worker w.job)
      (fun _ u => u.submitted[w.job]? = some w) s :=
  Task.Within.safe (P := Elsewhere) (fun _ _ hu => allows_elsewhere hu.1)
    (fun _ _ h hu => h.elim (fun he => he.submitted ▸ hu) fun hr => hr.submitted _ w hu) hw

theorem final_work_change {f : MozcFirstHybrid → MozcFirstHybrid}
    (hf : ∀ h, WorkedFor w.workID h (f h)) (hw : s.submitted[w.job]? = some w) :
    (changeLocked w.converter f).Safe hybridMachine (finality n₀ c₀) (.worker w.job)
      (fun _ u => u.submitted[w.job]? = some w) s := by
  refine .modify fun u hsu hu _ => ?_
  have hw := hsu.submitted w.job w hw
  exact ⟨allows_work hu.1 hw (hf _) rfl rfl rfl, fun v hv _ => hv.submitted w.job w hw⟩

theorem final_completeWork {context : SpeculativeConversionContext} {step : Option PreparedStep}
    (hw : s.submitted[w.job]? = some w) :
    (completeWork w.converter w.job w.workID context step).Safe hybridMachine (finality n₀ c₀)
      (.worker w.job) (fun _ u => u.submitted[w.job]? = some w) s := by
  refine .atomically fun u hsu hu _ => ?_
  have hw := hsu.submitted w.job w hw
  exact ⟨allows_work (f := fun h => (h.completeLocked w.workID context
    (step.map fun step => (step, u.workFence w.job)) u.learningRevision).2) hu.1 hw
    (complete_worked _ _ _ _ _) rfl rfl rfl, fun v hv _ => hv.submitted w.job w hw⟩

theorem final_performAdmittedHazkeyStep (hs : (finality n₀ c₀).Holds s)
    (hw : s.submitted[w.job]? = some w) :
    (performAdmittedHazkeyStep w).Safe hybridMachine (finality n₀ c₀) (.worker w.job)
      (fun _ u => u.submitted[w.job]? = some w) s := by
  refine (final_work_state (fun l h => admit_worked h w.workID l) hw).bind inferInstance hs
    fun admitted v hv hw => ?_
  cases admitted with
  | none => exact fun u hu _ => hu.submitted _ w hw
  | some context =>
    refine (final_quiet _ hw).bind inferInstance hv fun step v hv hw => ?_
    refine (final_quiet _ hw).bind inferInstance hv fun _ v hv hw => ?_
    have := child_within (t := .worker w.job) w.converter .hazkey .stopComposition
    refine (final_quiet _ hw).bind inferInstance hv fun _ v hv hw => ?_
    exact (final_completeWork hw).bind inferInstance hv fun release v hv hw => final_quiet _ hw

theorem final_speculate (hs : (finality n₀ c₀).Holds s) (hw : s.submitted[w.job]? = some w) :
    (speculate w).Safe hybridMachine (finality n₀ c₀) (.worker w.job) (fun _ _ => True) s := by
  have hcount (k : Int) (h : MozcFirstHybrid) :
      WorkedFor w.workID h { h with activeWorkCount := h.activeWorkCount + k } :=
    ⟨⟨fun _ x hx => ⟨x, hx⟩, rfl, rfl⟩, ⟨rfl, rfl, rfl, rfl, fun _ => ⟨rfl, rfl⟩⟩,
      .inl ⟨rfl, rfl, rfl⟩⟩
  have hend (h : MozcFirstHybrid) : WorkedFor w.workID h
      { h with outstandingWorkCountValue := h.outstandingWorkCountValue - 1 } :=
    ⟨⟨fun _ x hx => ⟨x, hx⟩, rfl, rfl⟩, ⟨rfl, rfl, rfl, rfl, fun _ => ⟨rfl, rfl⟩⟩,
      .inl ⟨rfl, rfl, rfl⟩⟩
  refine (final_quiet _ hw).bind inferInstance hs fun blocked v hv hw => ?_
  refine (final_quiet _ hw).bind inferInstance hv fun _ v hv hw => ?_
  refine (final_quiet _ hw).bind inferInstance hv fun _ v hv hw => ?_
  refine (final_quiet _ hw).bind inferInstance hv fun admitted v hv hw => ?_
  refine .ite (fun _ => ?_) fun _ => ?_
  · refine Task.Safe.bind (Q := fun _ u => u.submitted[w.job]? = some w) inferInstance hv ?_
      fun _ v hv hw => ?_
    · refine (final_work_change (hcount 1) hw).bind inferInstance hv fun _ v hv hw => ?_
      refine (final_performAdmittedHazkeyStep hv hw).bind inferInstance hv fun _ v hv hw => ?_
      exact final_work_change (hcount (-1)) hw
    · refine (final_quiet _ hw).bind inferInstance hv fun _ v hv hw => ?_
      refine (final_quiet _ hw).bind inferInstance hv fun _ v hv hw => ?_
      exact (final_work_change hend hw).mono fun _ _ _ _ => trivial
  · refine (final_quiet _ hw).bind inferInstance hv fun _ v hv hw => fun u hu hi => ?_
    have hallows : (finality n₀ c₀).Allows (.worker w.job) u u :=
      allows_elsewhere hi.1 ⟨rfl, rfl, rfl⟩
    exact ⟨hallows.guar, rfl, hu.submitted _ w hw⟩

theorem final_worker :
    (worker j).Safe hybridMachine (finality n₀ c₀) (.worker j) (fun _ _ => True) s := by
  intro u _ hu _ _
  refine ⟨allows_elsewhere hu.1 ⟨rfl, rfl, rfl⟩, ?_⟩
  dsimp only
  cases hw : u.submitted[j]? with
  | none => exact fun _ _ _ => trivial
  | some w =>
    obtain rfl := hu.1.numbered j w hw
    intro v hv hvi
    have hallows : (finality n₀ c₀).Allows (.worker w.job) v v :=
      allows_elsewhere hvi.1 ⟨rfl, rfl, rfl⟩
    exact ⟨hallows.guar, rfl, hv.submitted _ w hw⟩

end

/-! Every interleaving. -/

section

variable {p q : Pool childPort Work HybridSystem GateThread}

theorem final_label (t : GateThread) (w : Work) (s : HybridSystem)
    (hs : (finality n₀ c₀).Holds s) (h : (finality n₀ c₀).label t w s) :
    (hybridMachine.program w).Safe hybridMachine (finality n₀ c₀) t (fun _ _ => True) s :=
  h.1 ▸ final_speculate hs h.2

theorem disciplined_advances (hp : p.Disciplined hybridMachine (finality n₀ c₀))
    (hstep : Pool.Step hybridMachine t p q) :
    q.Disciplined hybridMachine (finality n₀ c₀) ∧ Advances n₀ c₀ t p.state q.state :=
  hp.step inferInstance final_label trivial trivial hstep

/-- After a state in which a converter waits for nothing, it waits for work only that
it started later. -/
theorem awaits_later (hp : p.Disciplined hybridMachine (finality n₀ c₀))
    (hidle : ∀ k, ¬ (p.state.converters c).Awaits k) (hr : Pool.Reaches hybridMachine p q) :
    q.Disciplined hybridMachine (finality n₀ c₀) ∧ Later p.state q.state ∧
      ∀ k, (q.state.converters c).Awaits k →
        (p.state.converters c).started < (q.state.converters c).started := by
  induction hr with
  | refl =>
    exact ⟨hp, ⟨fun _ _ => id, fun _ => Nat.le_refl _⟩, fun k hk => absurd hk (hidle k)⟩
  | tail _ hstep ih =>
    obtain ⟨t, hstep⟩ := hstep
    obtain ⟨hu, hlater, hawaits⟩ := ih
    obtain ⟨hv, hadvances⟩ := disciplined_advances hu hstep
    refine ⟨hv, ⟨fun j w hw => hadvances.submitted j w (hlater.submitted j w hw),
      fun c => Nat.le_trans (hlater.started c) (hadvances.started c)⟩, fun k hk => ?_⟩
    rcases hadvances.awaited c k hk with hlt | ⟨k', hk'⟩
    · exact Nat.lt_of_le_of_lt (hlater.started c) hlt
    · exact Nat.lt_of_lt_of_le (hawaits k' hk') (hadvances.started c)

/-- Work submitted before such a state stores nothing after it. -/
theorem stale_stores (hp : p.Disciplined hybridMachine (finality n₀ c₀))
    (hidle : ∀ k, ¬ (p.state.converters c).Awaits k) {u v : Pool childPort Work HybridSystem GateThread}
    (hr : Pool.Reaches hybridMachine p u) (hj : j < p.state.submitted.length)
    (hstep : Pool.Step hybridMachine (.worker j) u v)
    (hstarted : (u.state.converters c).prefetchStarted < 2 ^ 64) :
    StoresAlike (u.state.converters c) (v.state.converters c) := by
  obtain ⟨hu, hlater, hawaits⟩ := awaits_later hp hidle hr
  rcases (disciplined_advances hu hstep).2.stored j rfl c with halike | ⟨w, hw, rfl, hawait⟩
  · exact halike
  · have hbefore : p.state.submitted[j]? = some p.state.submitted[j] :=
      List.getElem?_eq_getElem hj
    have hsame := (hlater.submitted j _ hbefore).symm.trans hw
    have hissued := (hp.inv : Issuance p.state).submitted _ (List.getElem_mem hj)
    rw [Option.some.inj hsame] at hissued
    obtain ⟨i, hi, hnumber⟩ := hissued
    have hawaited := (hu.inv : Issuance u.state).awaited w.converter w.workID hawait
    have hlt := hawaits w.workID hawait
    have hbound : (u.state.converters w.converter).started < 2 ^ 64 := by
      unfold MozcFirstHybrid.started
      omega
    have heq := workIDAt_inj (i := i) (k := (u.state.converters w.converter).started - 1)
      (by omega) (by omega) (hnumber.symm.trans hawaited.2)
    omega

end

section

variable [SwiftText] [RecoveryCodec] [CanonicalText]
variable {scripts : Nat → List ForegroundCommand} {promotionPolicy : Nat → HybridPromotionPolicy}
  {policy : Nat → PinnedCompositionPolicy} {stagedLearningEnabled : Nat → Bool}
  {learningRevision : UInt64} {p q : Pool childPort Work HybridSystem GateThread}

theorem start_issuance : Issuance (startProcess scripts promotionPolicy policy
    stagedLearningEnabled learningRevision).state where
  numbered _ _ hw := nomatch hw
  nonneg _ := Int.le_refl 0
  next _ := rfl
  awaited _ _ hk := by
    obtain ⟨x, hx⟩ := hk
    cases hx
  submitted _ hw := nomatch hw

/-- Only the thread `n₀` operates the converter `c₀`. -/
def Operates (scripts : Nat → List ForegroundCommand) (n₀ c₀ : Nat) : Prop :=
  ∀ n, n ≠ n₀ → ∀ command ∈ scripts n, command.Concerns (· ≠ c₀)

theorem final_start (hown : Operates scripts n₀ c₀) : (startProcess scripts promotionPolicy policy
    stagedLearningEnabled learningRevision).Disciplined hybridMachine (finality n₀ c₀) where
  inv := start_issuance
  safe t := by
    cases t with
    | foreground n =>
      have hconcerns : ∀ command ∈ scripts n, command.Concerns fun c => n = n₀ ∨ c ≠ c₀ := ?_
      · exact (steady_foreground (scripts n) hconcerns).safe _ ⟨start_issuance, trivial⟩
      intro command hcommand
      by_cases hn : n = n₀
      · cases command <;> first | exact .inl hn | trivial
      · have hconcerns := hown n hn command hcommand
        cases command <;> first | exact .inr hconcerns | trivial
    | worker j => exact final_worker

/-- When a purge returns nothing is left, and no work that was submitted before ever
stores anything again. -/
theorem purge_final (hown : Operates scripts n₀ c₀)
    (h : Pool.Reaches hybridMachine (startProcess scripts promotionPolicy policy
      stagedLearningEnabled learningRevision) p)
    (hstep : Pool.Step hybridMachine t p q)
    (hreturn : q.state.returned = p.state.returned ++ [(c₀, .purgeSensitiveState)]) :
    Emptied (q.state.converters c₀) ∧
    ∀ u v j, Pool.Reaches hybridMachine q u → j < q.state.submitted.length →
      Pool.Step hybridMachine (.worker j) u v →
      (u.state.converters c₀).prefetchStarted < 2 ^ 64 →
      StoresAlike (u.state.converters c₀) (v.state.converters c₀) := by
  have hp := Pool.Disciplined.reaches inferInstance final_label (final_start hown)
    (fun _ _ => trivial) h
  obtain ⟨hq, hadvances⟩ := disciplined_advances hp hstep
  have hemptied := hadvances.purged hreturn
  refine ⟨hemptied, fun u v j hr hj hwork hstarted => ?_⟩
  refine stale_stores hq (fun k hk => ?_) hr hj hwork hstarted
  obtain ⟨x, hx⟩ := hk
  rw [hemptied.speculation] at hx
  cases hx

end

def purgingScript : List ForegroundCommand :=
  [.reduce 0 (request (.insertText "か".toList) "1"), .operate 0 .purgeSensitiveState]

/-- The purge returns while the work of the insertion has not been admitted yet. -/
theorem purge_final_insert :
    ∃ q, Pool.Reaches hybridMachine (soloProcess purgingScript) q ∧
      q.state.submitted.length = 1 ∧ Emptied (q.state.converters 0) ∧
      ∀ u v, Pool.Reaches hybridMachine q u → Pool.Step hybridMachine (.worker 0) u v →
        (u.state.converters 0).prefetchStarted < 2 ^ 64 →
        StoresAlike (u.state.converters 0) (v.state.converters 0) := by
  have hrun : (scheduled purgingScript (List.replicate 32 (.foreground 0) ++ [.foreground 0])).map
      (fun q => (q.state.submitted.length, q.state.returned)) = (scheduled purgingScript
      (List.replicate 32 (.foreground 0))).map (fun p => (1, p.state.returned ++
        [(0, .purgeSensitiveState)])) := by decide +kernel
  have hbefore : (scheduled purgingScript (List.replicate 32 (.foreground 0))).isSome = true := by
    decide +kernel
  obtain ⟨p, hp⟩ := Option.isSome_iff_exists.mp hbefore
  rw [hp] at hrun
  obtain ⟨q, hq, hreturn⟩ := Option.map_eq_some_iff.mp hrun
  obtain ⟨hsubmitted, hreturn⟩ := Prod.mk.inj hreturn
  have hstep := Pool.schedule_last hp hq
  have hown : Operates (fun n => if n = 0 then purgingScript else []) 0 0 := by
    intro n hn command hcommand
    simp [hn] at hcommand
  obtain ⟨hemptied, hstale⟩ := purge_final hown (Pool.schedule_reaches hp) hstep hreturn
  exact ⟨q, Pool.schedule_reaches hq, hsubmitted, hemptied, fun u v hu hwork hstarted =>
    hstale u v 0 hu (hsubmitted ▸ Nat.one_pos) hwork hstarted⟩

end Hazkey
