import Hazkey.ServiceProgram
import Mathlib.Logic.Equiv.Defs

/-! Programs on a part of a larger state, whose calls are among those of a larger
service. -/

namespace ServiceProgram

/-- A part of the state, and the calls made for it. -/
structure Part (I J : Interface) (T S : Type) where
  get : S → T
  put : T → S → S
  call : I.Call → J.Call
  answer : (c : I.Call) → I.Answer c ≃ J.Answer (call c)
  get_put : ∀ t s, get (put t s) = t
  put_get : ∀ s, put (get s) s = s
  put_put : ∀ t t' s, put t (put t' s) = put t s

variable {I J : Interface} {S T α β : Type}

/-- A call of the part, as the larger service meets it. -/
def Part.event (P : Part I J T S) (s : S) (e : Event I T) : Event J S :=
  ⟨P.put e.state s, P.call e.call, P.answer e.call e.answer⟩

namespace Prog

def on (P : Part I J T S) : Prog I T α → Prog J S α
  | .pure a => .pure a
  | .get k => .get fun s => (k (P.get s)).on P
  | .set t k => .get fun s => .set (P.put t s) (k.on P)
  | .call c k => .call (P.call c) fun b => (k ((P.answer c).symm b)).on P

variable {P : Part I J T S}

/-- A run on the part changes nothing beside it. -/
theorem yields_on {p : Prog I T α} {s s' : S} {t : List (Event J S)} {a : α}
    (h : (p.on P).Yields s t a s') :
    ∃ r, p.Yields (P.get s) r a (P.get s') ∧ t = r.map (P.event s) ∧
      s' = P.put (P.get s') s := by
  induction p generalizing s t with
  | pure b =>
    obtain ⟨rfl, rfl, rfl⟩ := h
    exact ⟨[], ⟨rfl, rfl, rfl⟩, rfl, (P.put_get _).symm⟩
  | get k ih => exact ih (P.get s) h
  | set u k ih =>
    obtain ⟨r, hY, rfl, hs'⟩ := ih h
    rw [P.get_put] at hY
    rw [P.put_put] at hs'
    refine ⟨r, hY, List.map_congr_left fun e _ => ?_, hs'⟩
    simp only [Part.event, P.put_put]
  | call c k ih =>
    obtain ⟨b, r, rfl, hY⟩ := h
    obtain ⟨r', hr, rfl, hs'⟩ := ih _ hY
    refine ⟨⟨P.get s, c, (P.answer c).symm b⟩ :: r', ⟨_, r', rfl, hr⟩, ?_, hs'⟩
    simp only [List.map_cons, Part.event, P.put_get, Equiv.apply_symm_apply]

/-- What a program does to the part, it does there. -/
theorem Frames.on {R : T → List (Event I T) → T → Prop} {Q : S → List (Event J S) → S → Prop}
    {p : Prog I T α} (hp : Frames R p)
    (h : ∀ s r u, R (P.get s) r u → Q s (r.map (P.event s)) (P.put u s)) :
    Frames Q (p.on P) where
  frame := by
    intro s t a s' hY
    obtain ⟨r, hr, rfl, hs'⟩ := yields_on hY
    rw [hs']
    exact h s r _ (hp.frame _ _ _ _ hr)

end Prog

end ServiceProgram
