import Hazkey.ReducerInvariant
import Hazkey.RecoveryData

/-! Running the reducer: a runtime of texts and converters that are functions. -/

namespace Hazkey

open ServiceProgram

/-- The runtime of texts whose scalars are Characters of their own, as those of
ASCII texts and of kana are; it converts the widths of ASCII only. -/
@[reducible] def scalarText : SwiftText where
  characters t := t.map ([·])
  flatten_characters t := by induction t <;> simp_all
  character_ne_nil t c h := by
    obtain ⟨x, -, rfl⟩ := List.mem_map.mp h
    simp
  characters_character t c h := by
    obtain ⟨x, -, rfl⟩ := List.mem_map.mp h
    rfl
  characters_ascii t _ := rfl
  characters_fullwidth t := by simp
  characters_halfwidth t := by simp
  fullwidthToHalfwidth t := some (t.map halfwidthScalar)
  halfwidthToFullwidth t := some (t.map fullwidthScalar)

attribute [local instance] scalarText byteCodec

/-- A converter that numbers the candidates it is asked to learn. -/
def stagingConverter : (c : ConverterCall) → Nat → c.Answer × Nat
  | .stageLearning _ _, n => (some ⟨decimal n⟩, n + 1)
  | c, n => ((noopConverter c ()).1, n)

theorem stagingConverter_displays {α : Type} (p : ReducerM α) (n : Nat) (r : ImeReducer) :
    DisplaysAs (Seen (p.execTrace stagingConverter n r)) defaultDisplay := by
  rintro i a ⟨u, hm⟩
  obtain ⟨k, hk⟩ := p.execTrace_answer stagingConverter n r _ hm
  exact hk

def request (action : ImeAction) (requestID : String) : ReducerCall :=
  .reduce action requestID.toList none none

/-- The moves and the last state of a reducer, of a fresh session of the policy. -/
def evaluate (policy : PinnedCompositionPolicy) (calls : List ReducerCall) :
    List ReducerMove × Nat × ImeReducer :=
  execMoves stagingConverter ReducerCall.program calls 0 (.initial (.initial policy) true)

theorem evaluate_run (policy : PinnedCompositionPolicy) (calls : List ReducerCall) :
    ReducerRun policy true (evaluate policy calls).1 (evaluate policy calls).2.2 :=
  execMoves_runs _ _ _ _ _

theorem evaluate_reachable (policy : PinnedCompositionPolicy) (calls : List ReducerCall) :
    Reachable (evaluate policy calls).2.2 := ⟨policy, true, _, evaluate_run policy calls⟩

end Hazkey
