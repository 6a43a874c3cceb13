import Hazkey.ServiceProgram

/-! Programs over a service with a state of its own, which the caller sees through
the answers only. -/

namespace ServiceProgram

/-- What a caller owes the service at each call, and what the service may answer
and become. -/
structure Protocol (I : Interface) (W : Type) where
  requires : W → I.Call → Prop
  after : W → (c : I.Call) → I.Answer c → W → Prop

namespace Prog

variable {I : Interface} {S V W α β : Type}

/-- Every run of the program makes calls that the service accepts, and ends in the
postcondition of a view of its state and of the state of the service. -/
def Steers (view : S → V) (K : Protocol I W) : Prog I S α → (α → V → W → Prop) → V → W → Prop
  | .pure a, Q, v, w => Q a v w
  | .get k, Q, v, w => ∀ s, view s = v → (k s).Steers view K Q v w
  | .set s k, Q, _, w => k.Steers view K Q (view s) w
  | .call c k, Q, v, w => K.requires w c ∧ ∀ a w', K.after w c a w' → (k a).Steers view K Q v w'

variable {view : S → V} {K : Protocol I W} {Q R : α → V → W → Prop} {v : V} {w : W}

theorem Steers.mono {p : Prog I S α} (h : p.Steers view K Q v w)
    (hQR : ∀ a v w, Q a v w → R a v w) : p.Steers view K R v w := by
  induction p generalizing v w with
  | pure a => exact hQR a v w h
  | get k ih => exact fun s hs => ih s (h s hs)
  | set s k ih => exact ih h
  | call c k ih => exact ⟨h.1, fun a w' ha => ih a (h.2 a w' ha)⟩

/-- The rule of sequencing. -/
theorem Steers.bind {p : Prog I S α} {f : α → Prog I S β} {R : β → V → W → Prop}
    (h : p.Steers view K Q v w) (hf : ∀ a v w, Q a v w → (f a).Steers view K R v w) :
    (p >>= f).Steers view K R v w := by
  change (p.bind f).Steers view K R v w
  induction p generalizing v w with
  | pure a => exact hf a v w h
  | get k ih => exact fun s hs => ih s (h s hs)
  | set s k ih => exact ih h
  | call c k ih => exact ⟨h.1, fun a w' ha => ih a (h.2 a w' ha)⟩

theorem Steers.pure {a : α} (h : Q a v w) : (Pure.pure a : Prog I S α).Steers view K Q v w := h

theorem Steers.ite {c : Prop} [Decidable c] {p q : Prog I S α}
    (hp : c → p.Steers view K Q v w) (hq : ¬ c → q.Steers view K Q v w) :
    (if c then p else q).Steers view K Q v w := by
  split
  · rename_i h
    exact hp h
  · rename_i h
    exact hq h

theorem Steers.when {c : Prop} [Decidable c] {p : Prog I S Unit} {Q : Unit → V → W → Prop}
    (hp : c → p.Steers view K Q v w) (hq : ¬ c → Q () v w) :
    (when c p).Steers view K Q v w := Steers.ite hp hq

theorem Steers.read {Q : S → V → W → Prop} (h : ∀ s, view s = v → Q s v w) :
    (Prog.read : Prog I S S).Steers view K Q v w := h

theorem Steers.modify {f : S → S} {Q : Unit → V → W → Prop}
    (h : ∀ s, view s = v → Q () (view (f s)) w) :
    (Prog.modify f : Prog I S Unit).Steers view K Q v w := h

theorem Steers.ask {c : I.Call} {Q : I.Answer c → V → W → Prop} (hc : K.requires w c)
    (h : ∀ a w', K.after w c a w' → Q a v w') :
    (Prog.ask c : Prog I S _).Steers view K Q v w := ⟨hc, h⟩

/-- What a run of the program comes to is what every run comes to. -/
theorem Steers.and {p : Prog I S α} (hQ : p.Steers view K Q v w) (hR : p.Steers view K R v w) :
    p.Steers view K (fun a v w => Q a v w ∧ R a v w) v w := by
  induction p generalizing v w with
  | pure a => exact ⟨hQ, hR⟩
  | get k ih => exact fun s hs => ih s (hQ s hs) (hR s hs)
  | set s k ih => exact ih hQ hR
  | call c k ih => exact ⟨hQ.1, fun a w' ha => ih a (hQ.2 a w' ha) (hR.2 a w' ha)⟩

/-! Assertions that a program keeps. -/

/-- Instance search finds this through the structure of a program. -/
class Keeps (view : S → V) (K : Protocol I W) (J : V → W → Prop) (p : Prog I S α) : Prop where
  steers : ∀ v w, J v w → p.Steers view K (fun _ => J) v w

section

variable {J : V → W → Prop} {p q : Prog I S α} {f : α → Prog I S β}

instance keeps_pure (a : α) : (Pure.pure a : Prog I S α).Keeps view K J := ⟨fun _ _ => id⟩

instance keeps_read : (Prog.read : Prog I S S).Keeps view K J := ⟨fun _ _ h _ _ => h⟩

instance keeps_bind [hp : p.Keeps view K J] [hf : ∀ a, (f a).Keeps view K J] :
    (p >>= f).Keeps view K J :=
  ⟨fun v w h => (hp.steers v w h).bind fun a v w h => (hf a).steers v w h⟩

/-- The same, where a continuation has to be looked at by hand. -/
theorem Keeps.bind (hp : p.Keeps view K J) (hf : ∀ a, (f a).Keeps view K J) :
    (p >>= f).Keeps view K J := inferInstance

instance keeps_ite {c : Prop} [Decidable c] [hp : p.Keeps view K J] [hq : q.Keeps view K J] :
    (if c then p else q).Keeps view K J :=
  ⟨fun v w h => .ite (fun _ => hp.steers v w h) fun _ => hq.steers v w h⟩

instance keeps_when {c : Prop} [Decidable c] {p : Prog I S Unit} [hp : p.Keeps view K J] :
    (when c p).Keeps view K J :=
  ⟨fun v w h => .when (fun _ => hp.steers v w h) fun _ => h⟩

theorem keeps_modify {f : S → S} (h : ∀ s w, J (view s) w → J (view (f s)) w) :
    (Prog.modify f : Prog I S Unit).Keeps view K J :=
  ⟨fun _ w hJ s hs => h s w (hs ▸ hJ)⟩

theorem keeps_ask {c : I.Call} (hc : ∀ v w, J v w → K.requires w c)
    (h : ∀ v w a w', J v w → K.after w c a w' → J v w') :
    (Prog.ask c : Prog I S _).Keeps view K J :=
  ⟨fun v w hJ => ⟨hc v w hJ, fun a w' ha => h v w a w' hJ ha⟩⟩

/-- A program that keeps an assertion, before one that starts from it. -/
theorem Keeps.then (hp : p.Keeps view K J) {R : β → V → W → Prop} (h : J v w)
    (hf : ∀ a v w, J v w → (f a).Steers view K R v w) : (p >>= f).Steers view K R v w :=
  (hp.steers v w h).bind hf

end

end Prog

end ServiceProgram
