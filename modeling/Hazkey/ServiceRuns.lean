import Hazkey.ServiceProgram
import Mathlib.Data.List.Induction

/-! Runs of a component whose client picks one program after another. -/

namespace ServiceProgram

/-- One program of a run: who was asked for what, and what came of it. -/
structure Move (E : Type) (I : Interface) (S α : Type) where
  label : E
  before : S
  trace : List (Event I S)
  value : α
  after : S

/-- The moves lead from the first state to the last, each by a run of its program. -/
inductive Runs {E : Type} {I : Interface} {S α : Type} (program : E → Prog I S α) (s : S) :
    List (Move E I S α) → S → Prop
  | nil : Runs program s [] s
  | snoc {moves : List (Move E I S α)} {u u' : S} {e : E} {t : List (Event I S)} {a : α}
      (h : Runs program s moves u) (hY : (program e).Yields u t a u') :
      Runs program s (moves ++ [⟨e, u, t, a, u'⟩]) u'

variable {E : Type} {I : Interface} {S α : Type} {program : E → Prog I S α}

/-- The calls of a run, in order. -/
def callTrace (moves : List (Move E I S α)) : List (Event I S) := (moves.map (·.trace)).flatten

/-- A move that is a run of its program. -/
def Move.Valid (program : E → Prog I S α) (m : Move E I S α) : Prop :=
  (program m.label).Yields m.before m.trace m.value m.after

namespace Runs

variable {s u u' : S} {moves more : List (Move E I S α)}

theorem append (h : Runs program s moves u) (h' : Runs program u more u') :
    Runs program s (moves ++ more) u' := by
  induction h' with
  | nil => simpa using h
  | snoc _ hY ih =>
    rw [← List.append_assoc]
    exact ih.snoc hY

/-- The rule of invariants: what holds at first, and is kept by every move that
meets the condition, holds before and after each move of a run of such moves. -/
theorem guarded {J : S → Prop} {C : Move E I S α → Prop} (h0 : J s)
    (hstep : ∀ m, J m.before → C m → m.Valid program → J m.after)
    (h : Runs program s moves u) (hC : ∀ m ∈ moves, C m) :
    J u ∧ ∀ m ∈ moves, m.Valid program ∧ J m.before ∧ J m.after := by
  induction h with
  | nil => exact ⟨h0, by simp⟩
  | snoc h hY ih =>
    obtain ⟨hu, hm⟩ := ih fun m hm => hC m (List.mem_append_left _ hm)
    have hlast := hstep _ hu (hC _ (List.mem_append_right _ (List.mem_singleton_self _))) hY
    refine ⟨hlast, fun m hmem => ?_⟩
    rcases List.mem_append.mp hmem with hmem | hmem
    · exact hm m hmem
    · obtain rfl := List.mem_singleton.mp hmem
      exact ⟨hY, hu, hlast⟩

theorem invariant {J : S → Prop} (h0 : J s)
    (hstep : ∀ m : Move E I S α, J m.before → m.Valid program → J m.after)
    (h : Runs program s moves u) :
    J u ∧ ∀ m ∈ moves, m.Valid program ∧ J m.before ∧ J m.after :=
  h.guarded (C := fun _ => True) h0 (fun m hi _ => hstep m hi) fun _ _ => trivial

/-- A relation that composes holds from end to end of a run of such moves, if each
of them that starts from the invariant meets it. -/
theorem guarded_frame {J : S → Prop} {C : Move E I S α → Prop}
    {R : S → List (Event I S) → S → Prop} [hR : Prog.Composes R] (h0 : J s)
    (hstep : ∀ m, J m.before → C m → m.Valid program → J m.after ∧ R m.before m.trace m.after)
    (h : Runs program s moves u) (hC : ∀ m ∈ moves, C m) : R s (callTrace moves) u := by
  induction h with
  | nil => exact hR.refl s
  | snoc h hY ih =>
    have hinit := fun m hm => hC m (List.mem_append_left _ hm)
    have hlast := hstep _ (h.guarded h0 (fun m hJ hm hv => (hstep m hJ hm hv).1) hinit).1
      (hC _ (List.mem_append_right _ (List.mem_singleton_self _))) hY
    have hcat := hR.trans _ _ _ _ _ (ih hinit) hlast.2
    simpa only [callTrace, List.map_append, List.map_cons, List.map_nil, List.flatten_append,
      List.flatten_cons, List.flatten_nil, List.append_nil] using hcat

theorem of_snoc {m : Move E I S α} (h : Runs program s (moves ++ [m]) u) :
    Runs program s moves m.before ∧ m.Valid program ∧ m.after = u := by
  generalize hl : moves ++ [m] = l at h
  cases h with
  | nil => simp at hl
  | snoc h hY =>
    obtain ⟨rfl, hm⟩ := List.append_inj' hl rfl
    obtain rfl := List.singleton_inj.mp hm
    exact ⟨h, hY, rfl⟩

/-- A run may be cut at any of its moves. -/
theorem cut {m : Move E I S α} (h : Runs program s (moves ++ m :: more) u) :
    Runs program s moves m.before ∧ m.Valid program ∧ Runs program m.after more u := by
  induction more using List.reverseRecOn generalizing u with
  | nil =>
    obtain ⟨hinit, hv, rfl⟩ := h.of_snoc
    exact ⟨hinit, hv, .nil⟩
  | append_singleton more last ih =>
    rw [← List.cons_append, ← List.append_assoc] at h
    obtain ⟨hinit, hlast, rfl⟩ := h.of_snoc
    obtain ⟨hfirst, hv, hmore⟩ := ih hinit
    exact ⟨hfirst, hv, hmore.snoc hlast⟩

/-- A relation that composes holds from end to end of a run. -/
theorem frame {R : S → List (Event I S) → S → Prop} [hR : Prog.Composes R]
    [hstep : ∀ e, Prog.Frames R (program e)] (h : Runs program s moves u) :
    R s (callTrace moves) u :=
  h.guarded_frame (J := fun _ => True) (C := fun _ => True) trivial
    (fun m _ _ hv => ⟨trivial, (hstep m.label).frame _ _ _ _ hv⟩) fun _ _ => trivial

end Runs

/-! Running one program after another against a service that is a function of its own state. -/

variable {W : Type}

def execMoves (answer : (c : I.Call) → W → I.Answer c × W) (program : E → Prog I S α) :
    List E → W → S → List (Move E I S α) × W × S
  | [], w, s => ([], w, s)
  | e :: es, w, s =>
    let next := (program e).exec answer w s
    let rest := execMoves answer program es next.2.1 next.2.2
    (⟨e, s, (program e).execTrace answer w s, next.1, next.2.2⟩ :: rest.1, rest.2)

theorem execMoves_runs (answer : (c : I.Call) → W → I.Answer c × W) (program : E → Prog I S α)
    (es : List E) (w : W) (s : S) :
    Runs program s (execMoves answer program es w s).1 (execMoves answer program es w s).2.2 := by
  induction es generalizing w s with
  | nil => exact .nil
  | cons e es ih =>
    have hfirst : Runs program s ([] ++ [_]) _ :=
      Runs.nil.snoc ((program e).exec_yields answer w s)
    exact hfirst.append (ih _ _)

end ServiceProgram
