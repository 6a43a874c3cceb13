import Hazkey.ServiceRuns

/-! Observers of the calls of a run, and programs whose calls an observer finds in place. -/

namespace ServiceProgram

/-- An observer takes note of a call and its answer, or finds it out of place. -/
abbrev Monitor (I : Interface) (W : Type) := W → (c : I.Call) → I.Answer c → Option W

variable {I : Interface} {S W E α β ε : Type} {M : Monitor I W}

/-- What the observer has noted after the calls, if each was in place. -/
def Monitor.follow (M : Monitor I W) : W → List (Event I S) → Option W
  | w, [] => some w
  | w, e :: t => (M w e.call e.answer).bind fun next => M.follow next t

theorem Monitor.follow_append {w v : W} {t t' : List (Event I S)} (h : M.follow w t = some v) :
    M.follow w (t ++ t') = M.follow v t' := by
  induction t generalizing w with
  | nil =>
    obtain rfl : w = v := Option.some.inj h
    rfl
  | cons e t ih =>
    rw [Monitor.follow, Option.bind_eq_some_iff] at h
    obtain ⟨next, hnext, h⟩ := h
    rw [List.cons_append, Monitor.follow, hnext, Option.bind_some]
    exact ih h

namespace Prog

/-- All calls of the program are in place, and each of its runs ends in the postcondition. -/
def Watched (M : Monitor I W) : Prog I S α → (α → S → W → Prop) → S → W → Prop
  | .pure a, Q, s, w => Q a s w
  | .get k, Q, s, w => (k s).Watched M Q s w
  | .set u k, Q, _, w => k.Watched M Q u w
  | .call c k, Q, s, w => ∀ a, ∃ next, M w c a = some next ∧ (k a).Watched M Q s next

variable {p : Prog I S α} {Q R : α → S → W → Prop} {s s' : S} {w : W}

theorem Watched.follow {t : List (Event I S)} {a : α} (h : p.Watched M Q s w)
    (hY : p.Yields s t a s') : ∃ v, M.follow w t = some v ∧ Q a s' v := by
  induction p generalizing s w t with
  | pure b =>
    obtain ⟨rfl, rfl, rfl⟩ := hY
    exact ⟨w, rfl, h⟩
  | get k ih => exact ih s h hY
  | set u k ih => exact ih h hY
  | call c k ih =>
    obtain ⟨b, r, rfl, hY⟩ := hY
    obtain ⟨next, hnext, h⟩ := h b
    obtain ⟨v, hv, hQ⟩ := ih b h hY
    refine ⟨v, ?_, hQ⟩
    rw [Monitor.follow, hnext]
    exact hv

@[simp] theorem watched_pure (a : α) : (Pure.pure a : Prog I S α).Watched M Q s w ↔ Q a s w :=
  Iff.rfl

@[simp] theorem watched_read {Q : S → S → W → Prop} :
    (read : Prog I S S).Watched M Q s w ↔ Q s s w := Iff.rfl

@[simp] theorem watched_modify {f : S → S} {Q : Unit → S → W → Prop} :
    (modify f : Prog I S Unit).Watched M Q s w ↔ Q () (f s) w := Iff.rfl

@[simp] theorem watched_ask {c : I.Call} {Q : I.Answer c → S → W → Prop} :
    (ask c : Prog I S _).Watched M Q s w ↔ ∀ a, ∃ next, M w c a = some next ∧ Q a s next := Iff.rfl

@[simp] theorem watched_bind {f : α → Prog I S β} {Q : β → S → W → Prop} :
    (p >>= f).Watched M Q s w ↔ p.Watched M (fun a u v => (f a).Watched M Q u v) s w := by
  change (p.bind f).Watched M Q s w ↔ _
  induction p generalizing s w with
  | pure a => exact Iff.rfl
  | get k ih => exact ih s
  | set u k ih => exact ih
  | call c k ih => simp only [bind, Watched, ih]

@[simp] theorem watched_map {f : α → β} {Q : β → S → W → Prop} :
    (f <$> p).Watched M Q s w ↔ p.Watched M (fun a => Q (f a)) s w :=
  watched_bind

theorem Watched.mono (h : p.Watched M Q s w) (hQR : ∀ a u v, Q a u v → R a u v) :
    p.Watched M R s w := by
  induction p generalizing s w with
  | pure a => exact hQR a s w h
  | get k ih => exact ih s h
  | set u k ih => exact ih h
  | call c k ih =>
    intro a
    obtain ⟨next, hnext, h⟩ := h a
    exact ⟨next, hnext, ih a h⟩

/-! Programs that throw. -/

section

variable {x : ExceptT ε (Prog I S) α} {f : α → ExceptT ε (Prog I S) β}
  {P : Except ε α → S → W → Prop} {T : Except ε β → S → W → Prop}

/-- The rule of sequencing: what is thrown first is thrown. -/
theorem Watched.andThen (h : x.run.Watched M P s w)
    (hok : ∀ a u v, P (.ok a) u v → (f a).run.Watched M T u v)
    (herror : ∀ e u v, P (.error e) u v → T (.error e) u v) :
    (x >>= f).run.Watched M T s w := by
  rw [ExceptT.run_bind, watched_bind]
  refine h.mono fun r u v hr => ?_
  cases r with
  | ok a => exact hok a u v hr
  | error e => exact herror e u v hr

@[simp] theorem watched_run_pure (a : α) :
    (Pure.pure a : ExceptT ε (Prog I S) α).run.Watched M P s w ↔ P (.ok a) s w := Iff.rfl

@[simp] theorem watched_run_throw (e : ε) :
    (throw e : ExceptT ε (Prog I S) α).run.Watched M P s w ↔ P (.error e) s w := Iff.rfl

@[simp] theorem watched_run_lift_bind {q : Prog I S α} :
    ((liftM q : ExceptT ε (Prog I S) α) >>= f).run.Watched M T s w ↔
      q.Watched M (fun a u v => (f a).run.Watched M T u v) s w := by
  change (ExceptT.lift q >>= f).run.Watched M T s w ↔ _
  rw [ExceptT.run_bind, ExceptT.run_lift, watched_bind, watched_map]

end

end Prog

namespace Runs

variable {program : E → Prog I S α} {s u : S} {moves : List (Move E I S α)} {w : W}

/-- What holds at first and is kept by each program holds after every run, and the calls of the run
are all in place. -/
theorem watched {J : S → W → Prop} (h0 : J s w)
    (hstep : ∀ e u v, J u v → (program e).Watched M (fun _ => J) u v)
    (h : Runs program s moves u) : ∃ v, M.follow w (callTrace moves) = some v ∧ J u v := by
  induction h with
  | nil => exact ⟨w, rfl, h0⟩
  | snoc h hY ih =>
    obtain ⟨v, hv, hJ⟩ := ih
    obtain ⟨v', hv', hJ'⟩ := (hstep _ _ v hJ).follow hY
    refine ⟨v', ?_, hJ'⟩
    simp only [callTrace, List.map_append, List.map_cons, List.map_nil, List.flatten_append,
      List.flatten_cons, List.flatten_nil, List.append_nil]
    exact (Monitor.follow_append hv).trans hv'

/-- What a program establishes, at its place in a run. -/
theorem watched_move {J : S → W → Prop} {Q : E → S → W → α → S → W → Prop} (h0 : J s w)
    (hstep : ∀ e u v, J u v → (program e).Watched M (fun a u' v' => J u' v' ∧ Q e u v a u' v') u v)
    {m : Move E I S α} {more : List (Move E I S α)} (h : Runs program s (moves ++ m :: more) u) :
    ∃ v v', M.follow w (callTrace moves) = some v ∧ J m.before v ∧ M.follow v m.trace = some v' ∧
      J m.after v' ∧ Q m.label m.before v m.value m.after v' := by
  obtain ⟨hinit, hvalid, -⟩ := h.cut
  obtain ⟨v, hv, hJ⟩ := hinit.watched h0
    fun e u v hJ => (hstep e u v hJ).mono fun _ _ _ hQ => hQ.1
  obtain ⟨v', hv', hJ', hQ⟩ := (hstep m.label m.before v hJ).follow hvalid
  exact ⟨v, v', hv, hJ, hv', hJ', hQ⟩

end Runs

end ServiceProgram
