import Mathlib.Logic.Basic
import Mathlib.Data.List.Basic

/-! Programs over a state of their own that call an external service. A run
yields the trace of its calls and the answers it met; a service, known or
unknown, is a condition on traces. -/

namespace ServiceProgram

/-- The calls a service accepts and the type of the answer to each. -/
structure Interface where
  Call : Type
  Answer : Call → Type

inductive Prog (I : Interface) (S α : Type) : Type
  | pure (a : α)
  | get (k : S → Prog I S α)
  | set (s : S) (k : Prog I S α)
  | call (c : I.Call) (k : I.Answer c → Prog I S α)

/-- One call, with the caller's state when it was made. -/
structure Event (I : Interface) (S : Type) where
  state : S
  call : I.Call
  answer : I.Answer call

/-- What the caller owes at each call, in a view of its state, and what the
service promises of its answers. -/
structure Contract (I : Interface) (V : Type) where
  requires : V → I.Call → Prop
  ensures : (c : I.Call) → I.Answer c → Prop

variable {I : Interface} {S V W α β : Type}

def Contract.Honoured (K : Contract I V) (t : List (Event I S)) : Prop :=
  ∀ e ∈ t, K.ensures e.call e.answer

namespace Prog

def bind : Prog I S α → (α → Prog I S β) → Prog I S β
  | .pure a, f => f a
  | .get k, f => .get fun s => (k s).bind f
  | .set s k, f => .set s (k.bind f)
  | .call c k, f => .call c fun a => (k a).bind f

instance : Monad (Prog I S) where
  pure := Prog.pure
  bind := Prog.bind

def read : Prog I S S := .get .pure

def modify (f : S → S) : Prog I S Unit := .get fun s => .set (f s) (.pure ())

def ask (c : I.Call) : Prog I S (I.Answer c) := .call c .pure

/-- The conditional statement without an else branch. -/
def when (c : Prop) [Decidable c] (p : Prog I S Unit) : Prog I S Unit :=
  if c then p else .pure ()

/-- Some run of `p` from `s` makes exactly the calls of `t` and ends in `s'` with value `a`. -/
def Yields : Prog I S α → S → List (Event I S) → α → S → Prop
  | .pure b, s, t, a, s' => t = [] ∧ a = b ∧ s' = s
  | .get k, s, t, a, s' => (k s).Yields s t a s'
  | .set u k, _, t, a, s' => k.Yields u t a s'
  | .call c k, s, t, a, s' => ∃ b r, t = ⟨s, c, b⟩ :: r ∧ (k b).Yields s r a s'

theorem yields_bind {p : Prog I S α} {f : α → Prog I S β} {s s' : S}
    {t : List (Event I S)} {b : β} :
    (p >>= f).Yields s t b s' ↔
      ∃ t₁ t₂ a u, t = t₁ ++ t₂ ∧ p.Yields s t₁ a u ∧ (f a).Yields u t₂ b s' := by
  change (p.bind f).Yields s t b s' ↔ _
  induction p generalizing s t with
  | pure a =>
    constructor
    · intro h
      exact ⟨[], t, a, s, rfl, ⟨rfl, rfl, rfl⟩, h⟩
    · rintro ⟨_, t₂, _, _, rfl, ⟨rfl, rfl, rfl⟩, h⟩
      exact h
  | get k ih => exact ih s
  | set u k ih => exact ih
  | call c k ih =>
    constructor
    · rintro ⟨a, r, rfl, h⟩
      obtain ⟨t₁, t₂, x, u, rfl, hp, hf⟩ := (ih a).mp h
      exact ⟨⟨s, c, a⟩ :: t₁, t₂, x, u, rfl, ⟨a, t₁, rfl, hp⟩, hf⟩
    · rintro ⟨_, t₂, x, u, rfl, ⟨a, t₁, rfl, hp⟩, hf⟩
      exact ⟨a, t₁ ++ t₂, rfl, (ih a).mpr ⟨t₁, t₂, x, u, rfl, hp, hf⟩⟩

theorem yields_pure {a b : α} {s s' : S} {t : List (Event I S)} :
    (Pure.pure b : Prog I S α).Yields s t a s' ↔ t = [] ∧ a = b ∧ s' = s := Iff.rfl

theorem yields_read_bind {f : S → Prog I S α} {s s' : S} {t : List (Event I S)} {a : α} :
    (read >>= f).Yields s t a s' ↔ (f s).Yields s t a s' := Iff.rfl

theorem yields_modify {f : S → S} {s s' : S} {t : List (Event I S)} {a : Unit} :
    (modify f : Prog I S Unit).Yields s t a s' ↔ t = [] ∧ a = () ∧ s' = f s := Iff.rfl

theorem yields_modify_bind {f : S → S} {k : Unit → Prog I S α} {s s' : S}
    {t : List (Event I S)} {a : α} :
    (modify f >>= k).Yields s t a s' ↔ (k ()).Yields (f s) t a s' := Iff.rfl

theorem yields_ask_bind {c : I.Call} {k : I.Answer c → Prog I S α} {s s' : S}
    {t : List (Event I S)} {a : α} :
    (ask c >>= k).Yields s t a s' ↔ ∃ b r, t = ⟨s, c, b⟩ :: r ∧ (k b).Yields s r a s' := Iff.rfl

theorem yields_ask {c : I.Call} {s s' : S} {t : List (Event I S)} {a : I.Answer c} :
    (ask c : Prog I S _).Yields s t a s' ↔ t = [⟨s, c, a⟩] ∧ s' = s := by
  constructor
  · rintro ⟨b, r, rfl, rfl, rfl, rfl⟩
    exact ⟨rfl, rfl⟩
  · rintro ⟨rfl, rfl⟩
    exact ⟨a, [], rfl, rfl, rfl, rfl⟩

theorem yields_map {p : Prog I S α} {f : α → β} {s s' : S} {t : List (Event I S)} {b : β} :
    (f <$> p).Yields s t b s' ↔ ∃ a, p.Yields s t a s' ∧ b = f a := by
  change (p >>= fun a => Pure.pure (f a)).Yields s t b s' ↔ _
  rw [yields_bind]
  constructor
  · rintro ⟨t₁, t₂, a, u, rfl, hp, rfl, rfl, rfl⟩
    exact ⟨a, by simpa using hp, rfl⟩
  · rintro ⟨a, hp, rfl⟩
    exact ⟨t, [], a, s', (List.append_nil t).symm, hp, rfl, rfl, rfl⟩

theorem yields_ite {c : Prop} [Decidable c] {p q : Prog I S α} {s s' : S}
    {t : List (Event I S)} {a : α} :
    (if c then p else q).Yields s t a s' ↔
      c ∧ p.Yields s t a s' ∨ ¬ c ∧ q.Yields s t a s' := by
  by_cases h : c <;> simp [h]

theorem yields_when {c : Prop} [Decidable c] {p : Prog I S Unit} {s s' : S}
    {t : List (Event I S)} {a : Unit} :
    (when c p).Yields s t a s' ↔ c ∧ p.Yields s t a s' ∨ ¬ c ∧ t = [] ∧ a = () ∧ s' = s :=
  yields_ite

/-! The weakest precondition under a contract, for a view of the state: what a
program reads beyond the view may be anything. -/

/-- Every call of every run meets the contract, and every run whose answers
honour it ends in the postcondition. -/
def wp (view : S → V) (K : Contract I V) : Prog I S α → (α → V → Prop) → V → Prop
  | .pure a, Q, v => Q a v
  | .get k, Q, v => ∀ s, view s = v → (k s).wp view K Q v
  | .set s k, Q, _ => k.wp view K Q (view s)
  | .call c k, Q, v => K.requires v c ∧ ∀ a, K.ensures c a → (k a).wp view K Q v

variable {view : S → V} {K : Contract I V}

theorem wp.sound {p : Prog I S α} {Q : α → V → Prop} {s s' : S} {t : List (Event I S)} {a : α}
    (h : p.wp view K Q (view s)) (hY : p.Yields s t a s') (ht : K.Honoured t) :
    (∀ e ∈ t, K.requires (view e.state) e.call) ∧ Q a (view s') := by
  induction p generalizing s t with
  | pure b =>
    obtain ⟨rfl, rfl, rfl⟩ := hY
    exact ⟨by simp, h⟩
  | get k ih => exact ih s (h s rfl) hY ht
  | set u k ih => exact ih h hY ht
  | call c k ih =>
    obtain ⟨b, r, rfl, hY⟩ := hY
    have hr := List.forall_mem_cons.mp ht
    have hh := ih b (h.2 b hr.1) hY hr.2
    exact ⟨List.forall_mem_cons.mpr ⟨h.1, hh.1⟩, hh.2⟩

theorem wp.post {p : Prog I S α} {Q : α → V → Prop} {s s' : S} {t : List (Event I S)} {a : α}
    (h : p.wp view K Q (view s)) (hY : p.Yields s t a s') (ht : K.Honoured t) : Q a (view s') :=
  (h.sound hY ht).2

@[simp] theorem wp_pure (a : α) (Q : α → V → Prop) (v : V) :
    (Pure.pure a : Prog I S α).wp view K Q v = Q a v := rfl

theorem wp_read (Q : S → V → Prop) (v : V) :
    (read : Prog I S S).wp view K Q v = ∀ s, view s = v → Q s v := rfl

theorem wp_modify (f : S → S) (Q : Unit → V → Prop) (v : V) :
    (modify f : Prog I S Unit).wp view K Q v = ∀ s, view s = v → Q () (view (f s)) := rfl

theorem wp_ask (c : I.Call) (Q : I.Answer c → V → Prop) (v : V) :
    (ask c : Prog I S _).wp view K Q v =
      (K.requires v c ∧ ∀ a, K.ensures c a → Q a v) := rfl

@[simp] theorem wp_bind (p : Prog I S α) (f : α → Prog I S β) (Q : β → V → Prop) (v : V) :
    (p >>= f).wp view K Q v = p.wp view K (fun a u => (f a).wp view K Q u) v := by
  change (p.bind f).wp view K Q v = _
  induction p generalizing v with
  | pure a => rfl
  | get k ih => simp only [bind, wp, ih]
  | set u k ih => exact ih (view u)
  | call c k ih => simp only [bind, wp, ih]

/-- Neither says anything of what lies beyond the view. -/
theorem wp_read_view (hv : view.Surjective) (k : V → Prog I S α) (Q : α → V → Prop) (v : V) :
    (read >>= fun s => k (view s)).wp view K Q v = (k v).wp view K Q v := by
  obtain ⟨s, rfl⟩ := hv v
  rw [wp_bind, wp_read]
  exact propext ⟨fun h => h s rfl, fun h u hu => hu ▸ h⟩

theorem wp_modify_view (hv : view.Surjective) {f : S → S} {g : V → V}
    (h : ∀ s, view (f s) = g (view s)) (Q : Unit → V → Prop) (v : V) :
    (modify f : Prog I S Unit).wp view K Q v = Q () (g v) := by
  obtain ⟨s, rfl⟩ := hv v
  rw [wp_modify]
  exact propext ⟨fun hh => h s ▸ hh s rfl, fun hh u hu => by rw [h, hu]; exact hh⟩

@[simp] theorem wp_ite (c : Prop) [Decidable c] (p q : Prog I S α) (Q : α → V → Prop) (v : V) :
    (if c then p else q).wp view K Q v =
      if c then p.wp view K Q v else q.wp view K Q v := by
  split <;> rfl

@[simp] theorem wp_when (c : Prop) [Decidable c] (p : Prog I S Unit) (Q : Unit → V → Prop)
    (v : V) : (when c p).wp view K Q v = if c then p.wp view K Q v else Q () v := by
  unfold when
  split <;> rfl

theorem wp_mono {p : Prog I S α} {Q R : α → V → Prop} {v : V} (h : p.wp view K Q v)
    (hQR : ∀ a u, Q a u → R a u) : p.wp view K R v := by
  induction p generalizing v with
  | pure a => exact hQR a v h
  | get k ih => exact fun s hs => ih s (h s hs)
  | set u k ih => exact ih h
  | call c k ih => exact ⟨h.1, fun a ha => ih a (h.2 a ha)⟩

/-- The rule of sequencing with an intermediate assertion. -/
theorem wp_seq {p : Prog I S α} {f : α → Prog I S β} {P : α → V → Prop} {Q : β → V → Prop}
    {v : V} (hp : p.wp view K P v) (hf : ∀ a u, P a u → (f a).wp view K Q u) :
    (p >>= f).wp view K Q v := by
  rw [wp_bind]
  exact wp_mono hp hf

/-! Relations of the states before and after a run, and of its calls. -/

/-- A relation that holds of doing nothing and of one run after another. -/
class Composes (R : S → List (Event I S) → S → Prop) : Prop where
  refl : ∀ s, R s [] s
  trans : ∀ s t u t' s', R s t u → R u t' s' → R s (t ++ t') s'

/-- Every run of `p` relates its ends and its trace by `R`. Instance search
finds this through the structure of a program. -/
class Frames (R : S → List (Event I S) → S → Prop) (p : Prog I S α) : Prop where
  frame : ∀ s t a s', p.Yields s t a s' → R s t s'

section

variable {R : S → List (Event I S) → S → Prop}

instance frames_pure [hR : Composes R] (a : α) : Frames R (Pure.pure a : Prog I S α) where
  frame := by
    rintro s t b s' ⟨rfl, rfl, rfl⟩
    exact hR.refl _

instance frames_read [hR : Composes R] : Frames R (read : Prog I S S) where
  frame := by
    rintro s t b s' ⟨rfl, rfl, rfl⟩
    exact hR.refl _

instance frames_bind [hR : Composes R] {p : Prog I S α} {f : α → Prog I S β} [hp : Frames R p]
    [hf : ∀ a, Frames R (f a)] : Frames R (p >>= f) where
  frame := by
    intro s t b s' h
    obtain ⟨t₁, t₂, a, u, rfl, h₁, h₂⟩ := yields_bind.mp h
    exact hR.trans s t₁ u t₂ s' (hp.frame _ _ _ _ h₁) ((hf a).frame _ _ _ _ h₂)

/-- The same, where a continuation has to be looked at by hand. -/
theorem Frames.bind [Composes R] {p : Prog I S α} {f : α → Prog I S β} (hp : Frames R p)
    (hf : ∀ a, Frames R (f a)) : Frames R (p >>= f) := inferInstance

instance frames_map {p : Prog I S α} {f : α → β} [hp : Frames R p] : Frames R (f <$> p) where
  frame := by
    intro s t b s' h
    obtain ⟨a, hY, -⟩ := yields_map.mp h
    exact hp.frame _ _ _ _ hY

instance frames_ite {c : Prop} [Decidable c] {p q : Prog I S α} [Frames R p] [Frames R q] :
    Frames R (if c then p else q) := by
  split
  · infer_instance
  · infer_instance

instance frames_when [Composes R] {c : Prop} [Decidable c] {p : Prog I S Unit} [Frames R p] :
    Frames R (when c p) := by
  unfold when
  split
  · infer_instance
  · exact frames_pure ()

theorem frames_modify {f : S → S} (h : ∀ s, R s [] (f s)) :
    Frames R (modify f : Prog I S Unit) where
  frame := by
    rintro s t b s' ⟨rfl, -, rfl⟩
    exact h s

theorem frames_ask {c : I.Call} (h : ∀ s a, R s [⟨s, c, a⟩] s) :
    Frames R (ask c : Prog I S _) where
  frame := by
    rintro s t b s' ⟨a, r, rfl, rfl, rfl, rfl⟩
    exact h _ _

end

/-! Running a program against a service that is a function of its own state. -/

def exec (answer : (c : I.Call) → W → I.Answer c × W) :
    Prog I S α → W → S → α × W × S
  | .pure a, w, s => (a, w, s)
  | .get k, w, s => (k s).exec answer w s
  | .set u k, w, _ => k.exec answer w u
  | .call c k, w, s => (k (answer c w).1).exec answer (answer c w).2 s

/-- The calls such a run makes. -/
def execTrace (answer : (c : I.Call) → W → I.Answer c × W) :
    Prog I S α → W → S → List (Event I S)
  | .pure _, _, _ => []
  | .get k, w, s => (k s).execTrace answer w s
  | .set u k, w, _ => k.execTrace answer w u
  | .call c k, w, s =>
    ⟨s, c, (answer c w).1⟩ :: (k (answer c w).1).execTrace answer (answer c w).2 s

theorem exec_yields (answer : (c : I.Call) → W → I.Answer c × W) (p : Prog I S α) (w : W)
    (s : S) : p.Yields s (p.execTrace answer w s) (p.exec answer w s).1 (p.exec answer w s).2.2 := by
  induction p generalizing w s with
  | pure a => exact ⟨rfl, rfl, rfl⟩
  | get k ih => exact ih s w s
  | set u k ih => exact ih w u
  | call c k ih => exact ⟨_, _, rfl, ih _ _ _⟩

theorem execTrace_answer (answer : (c : I.Call) → W → I.Answer c × W) (p : Prog I S α) (w : W)
    (s : S) : ∀ e ∈ p.execTrace answer w s, ∃ w', e.answer = (answer e.call w').1 := by
  induction p generalizing w s with
  | pure a => exact fun e he => by cases he
  | get k ih => exact ih s w s
  | set u k ih => exact ih w u
  | call c k ih => exact List.forall_mem_cons.mpr ⟨⟨w, rfl⟩, ih _ _ _⟩

theorem exec_bind (answer : (c : I.Call) → W → I.Answer c × W) (p : Prog I S α)
    (f : α → Prog I S β) (w : W) (s : S) :
    (p >>= f).exec answer w s =
      (f (p.exec answer w s).1).exec answer (p.exec answer w s).2.1 (p.exec answer w s).2.2 := by
  change (p.bind f).exec answer w s = _
  induction p generalizing w s with
  | pure a => rfl
  | get k ih => exact ih s w s
  | set u k ih => exact ih w u
  | call c k ih => exact ih _ _ _

/-! Programs that only ask. -/

/-- The program leaves the state alone and makes calls of the kind `P` only. -/
def Asks (P : I.Call → Prop) : Prog I S α → Prop
  | .pure _ => True
  | .get _ => False
  | .set _ _ => False
  | .call c k => P c ∧ ∀ a, (k a).Asks P

/-- The value when the service answers as `f` does. -/
def valueUnder (f : (c : I.Call) → I.Answer c) (p : Prog I S α) (s : S) : α :=
  (p.exec (fun c w => (f c, w)) () s).1

variable {P : I.Call → Prop}

theorem asks_bind {p : Prog I S α} {f : α → Prog I S β} (hp : p.Asks P)
    (hf : ∀ a, (f a).Asks P) : (p >>= f).Asks P := by
  change (p.bind f).Asks P
  induction p with
  | pure a => exact hf a
  | get k => exact hp.elim
  | set u k => exact hp.elim
  | call c k ih => exact ⟨hp.1, fun a => ih a (hp.2 a)⟩

/-- A program that only asks ends where it began. -/
theorem Asks.yields {p : Prog I S α} (hp : p.Asks P) {s s' : S} {t : List (Event I S)} {a : α}
    (hY : p.Yields s t a s') : s' = s ∧ ∀ e ∈ t, e.state = s ∧ P e.call := by
  induction p generalizing t with
  | pure b =>
    obtain ⟨rfl, rfl, rfl⟩ := hY
    exact ⟨rfl, by simp⟩
  | get k => exact hp.elim
  | set u k => exact hp.elim
  | call c k ih =>
    obtain ⟨b, r, rfl, hY⟩ := hY
    have hr := ih b (hp.2 b) hY
    exact ⟨hr.1, List.forall_mem_cons.mpr ⟨⟨rfl, hp.1⟩, hr.2⟩⟩

theorem valueUnder_pure (f : (c : I.Call) → I.Answer c) (a : α) (s : S) :
    (Pure.pure a : Prog I S α).valueUnder f s = a := rfl

theorem Asks.valueUnder_bind {p : Prog I S α} (hp : p.Asks P) (f : (c : I.Call) → I.Answer c)
    (k : α → Prog I S β) (s : S) :
    (p >>= k).valueUnder f s = (k (p.valueUnder f s)).valueUnder f s := by
  have hs := (hp.yields (p.exec_yields (fun c (w : Unit) => (f c, w)) () s)).1
  rw [valueUnder, exec_bind, hs]
  rfl

/-- A program that only asks ends in the view it began in, and its value is
determined as far as the answers are. -/
theorem Asks.wp {p : Prog I S α} (hp : p.Asks P) {v : V} (hr : ∀ c, P c → K.requires v c) :
    p.wp view K (fun a u => u = v ∧ ∀ f : (c : I.Call) → I.Answer c,
      (∀ c a, P c → K.ensures c a → a = f c) → ∀ s, a = p.valueUnder f s) v := by
  induction p with
  | pure a => exact ⟨rfl, fun _ _ _ => rfl⟩
  | get k => exact hp.elim
  | set u k => exact hp.elim
  | call c k ih =>
    refine ⟨hr c hp.1, fun a ha => wp_mono (ih a (hp.2 a)) fun b u hb => ⟨hb.1, ?_⟩⟩
    intro f hf s
    obtain rfl := hf c a hp.1 ha
    exact hb.2 f hf s

end Prog

end ServiceProgram
