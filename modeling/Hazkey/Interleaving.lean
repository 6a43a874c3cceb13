import Hazkey.ServiceProgram
import Mathlib.Logic.Function.Basic
import Mathlib.Logic.Relation
import Mathlib.Order.Defs.Unbundled

/-! Threads that share a state and interleave at atomic sections, and the rule
of rely and guarantee for all their runs. -/

namespace Interleaving

open ServiceProgram

/-- What is left of a thread: a section waits until it is ready and then changes
the state in one step; a call returns at some later step; a jump continues with
the program of its label. -/
inductive Task (I : Interface) (L S α : Type) : Type
  | done (a : α)
  | atomic (ready : S → Bool) (act : S → S) (k : S → Task I L S α)
  | call (c : I.Call) (k : I.Answer c → Task I L S α)
  | jump (l : L)

variable {I : Interface} {L S T α β : Type}

namespace Task

def bind : Task I L S α → (α → Task I L S β) → Task I L S β
  | .done a, f => f a
  | .atomic ready act k, f => .atomic ready act fun s => (k s).bind f
  | .call c k, f => .call c fun a => (k a).bind f
  | .jump l, _ => .jump l

instance : Monad (Task I L S) where
  pure := Task.done
  bind := Task.bind

/-- One step on the state, with a value. -/
def atomically (f : S → α × S) : Task I L S α :=
  .atomic (fun _ => true) (fun s => (f s).2) fun s => .done (f s).1

def modify (f : S → S) : Task I L S Unit := .atomic (fun _ => true) f fun _ => .done ()

/-- Waits until the state is ready. -/
def await (ready : S → Bool) (act : S → S) : Task I L S Unit := .atomic ready act fun _ => .done ()

def invoke (c : I.Call) : Task I L S (I.Answer c) := .call c .done

/-- The conditional statement without an else branch. -/
def when (c : Prop) [Decidable c] (p : Task I L S Unit) : Task I L S Unit :=
  if c then p else .done ()

end Task

/-- What a program of threads is made of: the programs of the labels, and what a
returning call leaves in the state. -/
structure Machine (I : Interface) (L S T : Type) where
  program : L → Task I L S Unit
  record : T → (c : I.Call) → I.Answer c → S → S

/-- One step of a thread. -/
inductive Task.Step (M : Machine I L S T) (t : T) :
    Task I L S Unit → S → Task I L S Unit → S → Prop
  | atomic {ready : S → Bool} {act : S → S} {k : S → Task I L S Unit} {s : S}
      (h : ready s = true) : Task.Step M t (.atomic ready act k) s (k s) (act s)
  | call {c : I.Call} {k : I.Answer c → Task I L S Unit} {s : S} (a : I.Answer c) :
      Task.Step M t (.call c k) s (k a) (M.record t c a s)
  | jump {l : L} {s : S} : Task.Step M t (.jump l) s (M.program l) s

structure Pool (I : Interface) (L S T : Type) where
  state : S
  tasks : T → Task I L S Unit

/-- One thread takes a step. -/
inductive Pool.Step [DecidableEq T] (M : Machine I L S T) (t : T) (p : Pool I L S T) :
    Pool I L S T → Prop
  | run {task : Task I L S Unit} {s : S} (h : Task.Step M t (p.tasks t) p.state task s) :
      Pool.Step M t p ⟨s, Function.update p.tasks t task⟩

/-- Any interleaving. -/
def Pool.Reaches [DecidableEq T] (M : Machine I L S T) : Pool I L S T → Pool I L S T → Prop :=
  Relation.ReflTransGen fun p q => ∃ t, Pool.Step M t p q

/-! Schedules. -/

/-- The next step of a thread, where its section is ready and its calls are answered. -/
def Task.advance (M : Machine I L S T) (answer : (c : I.Call) → I.Answer c) (t : T) :
    Task I L S Unit → S → Option (Task I L S Unit × S)
  | .done _, _ => none
  | .atomic ready act k, s => if ready s = true then some (k s, act s) else none
  | .call c k, s => some (k (answer c), M.record t c (answer c) s)
  | .jump l, s => some (M.program l, s)

/-- The threads take steps in the order of the schedule. -/
def Pool.schedule [DecidableEq T] (M : Machine I L S T) (answer : (c : I.Call) → I.Answer c) :
    List T → Pool I L S T → Option (Pool I L S T)
  | [], p => some p
  | t :: rest, p =>
    match (p.tasks t).advance M answer t p.state with
    | none => none
    | some (task, s) => Pool.schedule M answer rest ⟨s, Function.update p.tasks t task⟩

theorem Task.advance_step {M : Machine I L S T} {answer : (c : I.Call) → I.Answer c} {t : T}
    {task task' : Task I L S Unit} {s s' : S}
    (h : task.advance M answer t s = some (task', s')) : Task.Step M t task s task' s' := by
  cases task with
  | done a => cases h
  | atomic ready act k =>
    simp only [advance, Option.ite_none_right_eq_some] at h
    obtain ⟨hready, h⟩ := h
    obtain ⟨rfl, rfl⟩ := Prod.mk.inj (Option.some.inj h)
    exact .atomic hready
  | call c k =>
    obtain ⟨rfl, rfl⟩ := Prod.mk.inj (Option.some.inj h)
    exact .call (answer c)
  | jump l =>
    obtain ⟨rfl, rfl⟩ := Prod.mk.inj (Option.some.inj h)
    exact .jump

/-- What a schedule leads to is reached. -/
theorem Pool.schedule_reaches [DecidableEq T] {M : Machine I L S T}
    {answer : (c : I.Call) → I.Answer c} {schedule : List T} {p q : Pool I L S T}
    (h : p.schedule M answer schedule = some q) : Pool.Reaches M p q := by
  induction schedule generalizing p with
  | nil =>
    obtain rfl := Option.some.inj h
    exact .refl
  | cons t rest ih =>
    unfold schedule at h
    cases hstep : (p.tasks t).advance M answer t p.state with
    | none =>
      rw [hstep] at h
      cases h
    | some next =>
      rw [hstep] at h
      exact .head ⟨t, .run (Task.advance_step hstep)⟩ (ih h)

/-- The last step of a schedule. -/
theorem Pool.schedule_last [DecidableEq T] {M : Machine I L S T}
    {answer : (c : I.Call) → I.Answer c} {schedule : List T} {t : T} {p u q : Pool I L S T}
    (hu : p.schedule M answer schedule = some u)
    (h : p.schedule M answer (schedule ++ [t]) = some q) : Pool.Step M t u q := by
  induction schedule generalizing p with
  | nil =>
    obtain rfl := Option.some.inj hu
    simp only [List.nil_append, schedule] at h
    cases hstep : (p.tasks t).advance M answer t p.state with
    | none =>
      rw [hstep] at h
      cases h
    | some next =>
      rw [hstep] at h
      obtain rfl := Option.some.inj h
      exact .run (Task.advance_step hstep)
  | cons v rest ih =>
    simp only [List.cons_append, schedule] at hu h
    cases hstep : (p.tasks v).advance M answer v p.state with
    | none =>
      rw [hstep] at h
      cases h
    | some next =>
      rw [hstep] at hu h
      exact ih hu h

/-! Runs of one task to its end. -/

namespace Task

/-- The task ends with a value after the given calls, the others changing the state between its
steps as `R` says. -/
def Ends (M : Machine I L S T) (t : T) (R : S → S → Prop) :
    Task I L S α → S → List (Event I S) → α → S → Prop
  | .done b, s, calls, a, s' => calls = [] ∧ a = b ∧ R s s'
  | .atomic ready act k, s, calls, a, s' =>
    ∃ u, R s u ∧ ready u = true ∧ (k u).Ends M t R (act u) calls a s'
  | .call c k, s, calls, a, s' => ∃ u x rest, R s u ∧ calls = ⟨u, c, x⟩ :: rest ∧
      (k x).Ends M t R (M.record t c x u) rest a s'
  | .jump _, _, _, _, _ => False

/-- The run that nobody disturbs, the calls answered by a function. -/
def exec (M : Machine I L S T) (t : T) (answer : (c : I.Call) → I.Answer c) :
    Task I L S α → S → Option (List (Event I S) × α × S)
  | .done a, s => some ([], a, s)
  | .atomic ready act k, s => if ready s = true then (k s).exec M t answer (act s) else none
  | .call c k, s => ((k (answer c)).exec M t answer (M.record t c (answer c) s)).map fun r =>
      (⟨s, c, answer c⟩ :: r.1, r.2)
  | .jump _, _ => none

section

variable {M : Machine I L S T} {t : T} {R : S → S → Prop} {s s' : S} {calls : List (Event I S)}
  {a : α} {p : Task I L S α}

theorem exec_ends [Std.Refl R] {answer : (c : I.Call) → I.Answer c}
    (h : p.exec M t answer s = some (calls, a, s')) : p.Ends M t R s calls a s' := by
  induction p generalizing s calls with
  | done b =>
    obtain ⟨rfl, rfl, rfl⟩ : [] = calls ∧ b = a ∧ s = s' := by simpa [exec] using h
    exact ⟨rfl, rfl, Std.Refl.refl _⟩
  | atomic ready act k ih =>
    simp only [exec, Option.ite_none_right_eq_some] at h
    exact ⟨s, Std.Refl.refl s, h.1, ih s h.2⟩
  | call c k ih =>
    obtain ⟨⟨rest, b, u⟩, hrest, he⟩ := Option.map_eq_some_iff.mp h
    obtain ⟨rfl, rfl, rfl⟩ : ⟨s, c, answer c⟩ :: rest = calls ∧ b = a ∧ u = s' := by
      simpa using he
    exact ⟨s, _, rest, Std.Refl.refl s, rfl, ih _ hrest⟩
  | jump l => cases h

/-- The run of a sequence is a run of its first part and then one of the rest. -/
theorem ends_bind [Std.Refl R] {f : α → Task I L S β} {b : β}
    (h : (p >>= f).Ends M t R s calls b s') : ∃ calls₁ calls₂ a u, calls = calls₁ ++ calls₂ ∧
      p.Ends M t R s calls₁ a u ∧ (f a).Ends M t R u calls₂ b s' := by
  change (p.bind f).Ends M t R s calls b s' at h
  induction p generalizing s calls with
  | done a => exact ⟨[], calls, a, s, rfl, ⟨rfl, rfl, Std.Refl.refl s⟩, h⟩
  | atomic ready act k ih =>
    obtain ⟨u, hrely, hready, h⟩ := h
    obtain ⟨calls₁, calls₂, a, v, rfl, hp, hf⟩ := ih u h
    exact ⟨calls₁, calls₂, a, v, rfl, ⟨u, hrely, hready, hp⟩, hf⟩
  | call c k ih =>
    obtain ⟨u, x, rest, hrely, rfl, h⟩ := h
    obtain ⟨calls₁, calls₂, a, v, rfl, hp, hf⟩ := ih x h
    exact ⟨⟨u, c, x⟩ :: calls₁, calls₂, a, v, rfl, ⟨u, x, calls₁, hrely, rfl, hp⟩, hf⟩
  | jump l => exact h.elim

end

end Task

/-! Rely and guarantee. -/

/-- What each thread keeps true of every state, what is known of every state from
elsewhere, what a thread may find changed and may change, and what holds where it
jumps to a label. -/
structure Discipline (I : Interface) (L S T : Type) where
  inv : S → Prop
  known : S → Prop := fun _ => True
  rely : T → S → S → Prop
  guar : T → S → S → Prop
  label : T → L → S → Prop

def Discipline.Holds (D : Discipline I L S T) (s : S) : Prop := D.inv s ∧ D.known s

/-- What a thread guarantees the others rely on. -/
class Discipline.Compatible (D : Discipline I L S T) : Prop where
  refl : ∀ t s, D.rely t s s
  trans : ∀ t s u v, D.rely t s u → D.rely t u v → D.rely t s v
  guar : ∀ t u s v, t ≠ u → D.Holds s → D.Holds v → D.guar t s v → D.rely u s v

/-- A step that the thread may take. -/
structure Discipline.Allows (D : Discipline I L S T) (t : T) (s v : S) : Prop where
  inv : D.inv v
  guar : D.guar t s v

/-- A task that keeps the discipline from a state on, whatever the others do
between its steps, and ends in `Q`. -/
def Task.Safe (M : Machine I L S T) (D : Discipline I L S T) (t : T) (Q : α → S → Prop) :
    Task I L S α → S → Prop
  | .done a, s => ∀ u, D.rely t s u → D.Holds u → Q a u
  | .atomic ready act k, s => ∀ u, D.rely t s u → D.Holds u → ready u = true → D.known (act u) →
      D.Allows t u (act u) ∧ (k u).Safe M D t Q (act u)
  | .call c k, s => ∀ u, D.rely t s u → D.Holds u → ∀ a, D.known (M.record t c a u) →
      D.Allows t u (M.record t c a u) ∧ (k a).Safe M D t Q (M.record t c a u)
  | .jump l, s => ∀ u, D.rely t s u → D.Holds u → D.guar t u u ∧ D.label t l u

variable {M : Machine I L S T} {D : Discipline I L S T} {t : T} {Q R : α → S → Prop} {s u : S}

namespace Task

theorem Safe.rely (hD : D.Compatible) {p : Task I L S α} (h : p.Safe M D t Q s)
    (hr : D.rely t s u) : p.Safe M D t Q u := by
  cases p with
  | done a => exact fun v hv => h v (hD.trans _ _ _ _ hr hv)
  | atomic ready act k => exact fun v hv => h v (hD.trans _ _ _ _ hr hv)
  | call c k => exact fun v hv => h v (hD.trans _ _ _ _ hr hv)
  | jump l => exact fun v hv => h v (hD.trans _ _ _ _ hr hv)

/-- The rule of consequence. -/
theorem Safe.mono {p : Task I L S α} (h : p.Safe M D t Q s)
    (hQR : ∀ a u, D.Holds u → Q a u → R a u) : p.Safe M D t R s := by
  induction p generalizing s with
  | done a => exact fun u hu hi => hQR a u hi (h u hu hi)
  | atomic ready act k ih =>
    intro u hu hi hready hknown
    obtain ⟨hstep, hk⟩ := h u hu hi hready hknown
    exact ⟨hstep, ih u hk⟩
  | call c k ih =>
    intro u hu hi a hknown
    obtain ⟨hstep, hk⟩ := h u hu hi a hknown
    exact ⟨hstep, ih a hk⟩
  | jump l => exact h

/-- The rule of sequencing. -/
theorem Safe.bind {p : Task I L S α} {f : α → Task I L S β} {R : β → S → Prop}
    (hD : D.Compatible) (hs : D.Holds s) (h : p.Safe M D t Q s)
    (hf : ∀ a u, D.Holds u → Q a u → (f a).Safe M D t R u) : (p >>= f).Safe M D t R s := by
  change (p.bind f).Safe M D t R s
  induction p generalizing s with
  | done a => exact hf a s hs (h s (hD.refl t s) hs)
  | atomic ready act k ih =>
    intro u hu hi hready hknown
    obtain ⟨hstep, hk⟩ := h u hu hi hready hknown
    exact ⟨hstep, ih u ⟨hstep.inv, hknown⟩ hk⟩
  | call c k ih =>
    intro u hu hi a hknown
    obtain ⟨hstep, hk⟩ := h u hu hi a hknown
    exact ⟨hstep, ih a ⟨hstep.inv, hknown⟩ hk⟩
  | jump l => exact h

/-- The rule of framing: what neither the thread nor the others undo holds at the end. -/
theorem Safe.frame {p : Task I L S α} {P : S → Prop}
    (hP : ∀ u v, D.Holds u → D.Holds v → D.rely t u v ∨ D.guar t u v → P u → P v)
    (hs : D.Holds s) (h : p.Safe M D t Q s) (hPs : P s) :
    p.Safe M D t (fun a u => Q a u ∧ P u) s := by
  induction p generalizing s with
  | done a => exact fun u hu hi => ⟨h u hu hi, hP s u hs hi (.inl hu) hPs⟩
  | atomic ready act k ih =>
    intro u hu hi hready hknown
    obtain ⟨hstep, hk⟩ := h u hu hi hready hknown
    have hu : P u := hP s u hs hi (.inl hu) hPs
    have hact : D.Holds (act u) := ⟨hstep.inv, hknown⟩
    exact ⟨hstep, ih u hact hk (hP u _ hi hact (.inr hstep.guar) hu)⟩
  | call c k ih =>
    intro u hu hi a hknown
    obtain ⟨hstep, hk⟩ := h u hu hi a hknown
    have hu : P u := hP s u hs hi (.inl hu) hPs
    have hact : D.Holds (M.record t c a u) := ⟨hstep.inv, hknown⟩
    exact ⟨hstep, ih a hact hk (hP u _ hi hact (.inr hstep.guar) hu)⟩
  | jump l => exact h

theorem Safe.pure {a : α} (h : ∀ u, D.rely t s u → D.Holds u → Q a u) :
    (Pure.pure a : Task I L S α).Safe M D t Q s := h

theorem Safe.ite {c : Prop} [Decidable c] {p q : Task I L S α} (hp : c → p.Safe M D t Q s)
    (hq : ¬ c → q.Safe M D t Q s) : (if c then p else q).Safe M D t Q s := by
  split
  · rename_i h
    exact hp h
  · rename_i h
    exact hq h

theorem Safe.atomically {f : S → α × S}
    (h : ∀ u, D.rely t s u → D.Holds u → D.known (f u).2 → D.Allows t u (f u).2 ∧
      ∀ v, D.rely t (f u).2 v → D.Holds v → Q (f u).1 v) :
    (Task.atomically f : Task I L S α).Safe M D t Q s :=
  fun u hu hi _ => h u hu hi

theorem Safe.modify {f : S → S} {Q : Unit → S → Prop}
    (h : ∀ u, D.rely t s u → D.Holds u → D.known (f u) → D.Allows t u (f u) ∧
      ∀ v, D.rely t (f u) v → D.Holds v → Q () v) :
    (Task.modify f : Task I L S Unit).Safe M D t Q s :=
  fun u hu hi _ => h u hu hi

theorem Safe.await {ready : S → Bool} {f : S → S} {Q : Unit → S → Prop}
    (h : ∀ u, D.rely t s u → D.Holds u → ready u = true → D.known (f u) →
      D.Allows t u (f u) ∧ ∀ v, D.rely t (f u) v → D.Holds v → Q () v) :
    (Task.await ready f : Task I L S Unit).Safe M D t Q s := h

theorem Safe.invoke {c : I.Call} {Q : I.Answer c → S → Prop}
    (h : ∀ u, D.rely t s u → D.Holds u → ∀ a, D.known (M.record t c a u) →
      D.Allows t u (M.record t c a u) ∧
        ∀ v, D.rely t (M.record t c a u) v → D.Holds v → Q a v) :
    (Task.invoke c : Task I L S _).Safe M D t Q s := h

/-! Tasks whose steps all change the state in one way. -/

def AllSteps (M : Machine I L S T) (t : T) (P : S → S → Prop) : Task I L S α → Prop
  | .done _ => True
  | .atomic ready act k => ∀ s, ready s = true → P s (act s) ∧ (k s).AllSteps M t P
  | .call c k => ∀ s a, P s (M.record t c a s) ∧ (k a).AllSteps M t P
  | .jump _ => False

/-- Every step of the task changes the state as `P` says, wherever it is taken. -/
class Within (M : Machine I L S T) (t : T) (P : S → S → Prop) (p : Task I L S α) : Prop where
  steps : p.AllSteps M t P

section

variable {P : S → S → Prop} {A : S → Prop} {p : Task I L S α} {f : α → Task I L S β}

instance (a : α) : (Pure.pure a : Task I L S α).Within M t P := ⟨trivial⟩

instance [hp : p.Within M t P] [hf : ∀ a, (f a).Within M t P] : (p >>= f).Within M t P where
  steps := by
    have hp := hp.steps
    change (p.bind f).AllSteps M t P
    induction p with
    | done a => exact (hf a).steps
    | atomic ready act k ih => exact fun s hs => ⟨(hp s hs).1, ih s (hp s hs).2⟩
    | call c k ih => exact fun s a => ⟨(hp s a).1, ih a (hp s a).2⟩
    | jump l => exact hp

theorem Within.bind (hp : p.Within M t P) (hf : ∀ a, (f a).Within M t P) :
    (p >>= f).Within M t P := inferInstance

instance {c : Prop} [Decidable c] {p q : Task I L S α} [hp : p.Within M t P]
    [hq : q.Within M t P] : (if c then p else q).Within M t P := by
  split <;> assumption

/-- Such steps keep what they and the others leave true. -/
theorem Within.safe [hp : p.Within M t P]
    (hallows : ∀ u v, D.Holds u → P u v → D.Allows t u v)
    (hA : ∀ u v, P u v ∨ D.rely t u v → A u → A v) (hs : A s) :
    p.Safe M D t (fun _ => A) s := by
  have hp := hp.steps
  induction p generalizing s with
  | done a => exact fun u hu _ => hA s u (.inr hu) hs
  | atomic ready act k ih =>
    intro u hu hi hready _
    obtain ⟨hP, hk⟩ := hp u hready
    exact ⟨hallows u _ hi hP, ih u (hA u _ (.inl hP) (hA s u (.inr hu) hs)) hk⟩
  | call c k ih =>
    intro u hu hi a _
    obtain ⟨hP, hk⟩ := hp u a
    exact ⟨hallows u _ hi hP, ih a (hA u _ (.inl hP) (hA s u (.inr hu) hs)) hk⟩
  | jump l => exact hp.elim

theorem Within.imp {P' : S → S → Prop} [hp : p.Within M t P] (h : ∀ s u, P s u → P' s u) :
    p.Within M t P' where
  steps := by
    have hp := hp.steps
    induction p with
    | done a => exact hp
    | atomic ready act k ih => exact fun s hs => ⟨h _ _ (hp s hs).1, ih s (hp s hs).2⟩
    | call c k ih => exact fun s a => ⟨h _ _ (hp s a).1, ih a (hp s a).2⟩
    | jump l => exact hp

/-- What the steps of a task change is within what the others may change. -/
theorem Within.ends {R : S → S → Prop} [hp : p.Within M t R] [IsTrans S R]
    {calls : List (Event I S)} {a : α} {s' : S} (h : p.Ends M t R s calls a s') : R s s' := by
  have hp := hp.steps
  induction p generalizing s calls with
  | done b => exact h.2.2
  | atomic ready act k ih =>
    obtain ⟨u, hrely, hready, h⟩ := h
    obtain ⟨hstep, hk⟩ := hp u hready
    exact IsTrans.trans _ _ _ (IsTrans.trans _ _ _ hrely hstep) (ih u h hk)
  | call c k ih =>
    obtain ⟨u, x, rest, hrely, rfl, h⟩ := h
    obtain ⟨hstep, hk⟩ := hp u x
    exact IsTrans.trans _ _ _ (IsTrans.trans _ _ _ hrely hstep) (ih x h hk)
  | jump l => exact hp.elim

end

/-! Tasks that need to know nothing of the states they meet. -/

/-- Every step of the task is allowed wherever it is taken. -/
class Steady (M : Machine I L S T) (D : Discipline I L S T) (t : T)
    (p : Task I L S α) : Prop where
  safe : ∀ s, D.Holds s → p.Safe M D t (fun _ _ => True) s

theorem Within.steady {P : S → S → Prop} {p : Task I L S α} [p.Within M t P]
    (hallows : ∀ u v, D.Holds u → P u v → D.Allows t u v) : p.Steady M D t where
  safe _ _ := Within.safe (A := fun _ => True) hallows (fun _ _ _ _ => trivial) trivial

section

variable {f : α → Task I L S β} {p q : Task I L S α}

instance (a : α) : (Pure.pure a : Task I L S α).Steady M D t where
  safe _ _ := fun _ _ _ => trivial

instance [hD : D.Compatible] [hp : p.Steady M D t] [hf : ∀ a, (f a).Steady M D t] :
    (p >>= f).Steady M D t where
  safe s hs := (hp.safe s hs).bind hD hs fun a u hu _ => (hf a).safe u hu

/-! The same by name, where a program has to be looked at by hand. -/

theorem Steady.pure (a : α) : (Pure.pure a : Task I L S α).Steady M D t := inferInstance

theorem Steady.bind [D.Compatible] (hp : p.Steady M D t) (hf : ∀ a, (f a).Steady M D t) :
    (p >>= f).Steady M D t := inferInstance

theorem steady_modify {f : S → S} (h : ∀ u, D.Holds u → D.known (f u) → D.Allows t u (f u)) :
    (Task.modify f : Task I L S Unit).Steady M D t where
  safe _ _ := Safe.modify fun u _ hu hk => ⟨h u hu hk, fun _ _ _ => trivial⟩

theorem steady_atomically {f : S → α × S}
    (h : ∀ u, D.Holds u → D.known (f u).2 → D.Allows t u (f u).2) :
    (Task.atomically f : Task I L S α).Steady M D t where
  safe _ _ := Safe.atomically fun u _ hu hk => ⟨h u hu hk, fun _ _ _ => trivial⟩

theorem steady_await {ready : S → Bool} {f : S → S}
    (h : ∀ u, D.Holds u → ready u = true → D.known (f u) → D.Allows t u (f u)) :
    (Task.await ready f : Task I L S Unit).Steady M D t where
  safe _ _ := Safe.await fun u _ hu hr hk => ⟨h u hu hr hk, fun _ _ _ => trivial⟩

theorem steady_invoke {c : I.Call}
    (h : ∀ u a, D.Holds u → D.known (M.record t c a u) → D.Allows t u (M.record t c a u)) :
    (Task.invoke c : Task I L S _).Steady M D t where
  safe _ _ := Safe.invoke fun u _ hu a hk => ⟨h u a hu hk, fun _ _ _ => trivial⟩

instance {c : Prop} [Decidable c] [hp : p.Steady M D t] [hq : q.Steady M D t] :
    (if c then p else q).Steady M D t where
  safe s hs := Safe.ite (fun _ => hp.safe s hs) fun _ => hq.safe s hs

instance {c : Prop} [Decidable c] {p : Task I L S Unit} [hp : p.Steady M D t] :
    (Task.when c p).Steady M D t where
  safe s hs := Safe.ite (fun _ => hp.safe s hs) fun _ _ _ _ => trivial

end

end Task

/-- Every thread keeps the discipline from here on. -/
structure Pool.Disciplined (M : Machine I L S T) (D : Discipline I L S T) (p : Pool I L S T) :
    Prop where
  inv : D.inv p.state
  safe : ∀ t, (p.tasks t).Safe M D t (fun _ _ => True) p.state

variable [DecidableEq T] {p q : Pool I L S T}

/-- A step of a disciplined pool is one its thread guarantees. -/
theorem Pool.Disciplined.step (hD : D.Compatible)
    (hlabel : ∀ t l s, D.Holds s → D.label t l s →
      (M.program l).Safe M D t (fun _ _ => True) s)
    (h : p.Disciplined M D) (hp : D.known p.state) (hq : D.known q.state)
    (hstep : Pool.Step M t p q) : q.Disciplined M D ∧ D.guar t p.state q.state := by
  obtain @⟨task, s', hrun⟩ := hstep
  have hholds : D.Holds p.state := ⟨h.inv, hp⟩
  have hnext : D.Allows t p.state s' ∧ task.Safe M D t (fun _ _ => True) s' := by
    have ht := h.safe t
    generalize p.tasks t = current at ht hrun
    cases hrun with
    | atomic hready => exact ht p.state (hD.refl _ _) hholds hready hq
    | call a => exact ht p.state (hD.refl _ _) hholds a hq
    | jump =>
      obtain ⟨hguar, hl⟩ := ht p.state (hD.refl _ _) hholds
      exact ⟨⟨h.inv, hguar⟩, hlabel t _ _ hholds hl⟩
  obtain ⟨⟨hinv, hguar⟩, hsafe⟩ := hnext
  refine ⟨⟨hinv, fun u => ?_⟩, hguar⟩
  by_cases hu : u = t
  · subst hu
    simpa only [Function.update_self] using hsafe
  · dsimp only
    rw [Function.update_of_ne hu]
    exact (h.safe u).rely hD
      (hD.guar t u _ _ (fun he => hu he.symm) hholds ⟨hinv, hq⟩ hguar)

/-- The rule of rely and guarantee: the discipline holds in every interleaving. -/
theorem Pool.Disciplined.reaches (hD : D.Compatible)
    (hlabel : ∀ t l s, D.Holds s → D.label t l s →
      (M.program l).Safe M D t (fun _ _ => True) s)
    (h : p.Disciplined M D) (hknown : ∀ q, Pool.Reaches M p q → D.known q.state)
    (hr : Pool.Reaches M p q) : q.Disciplined M D := by
  induction hr with
  | refl => exact h
  | @tail u v hpu hstep ih =>
    obtain ⟨t, ht⟩ := hstep
    exact (ih.step hD hlabel (hknown u hpu) (hknown v (hpu.tail ⟨t, ht⟩)) ht).1

end Interleaving
