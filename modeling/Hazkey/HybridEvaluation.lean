import Hazkey.HybridThreads
import Hazkey.Evaluation

/-! Running a process: a schedule of its threads, and children that are functions. -/

namespace Hazkey

open ServiceProgram Interleaving

/-- The runtime of texts that are their own canonical composition, as those of ASCII
texts and of kana without marks are. -/
@[reducible] def composedText : CanonicalText where
  precomposed t := t

attribute [local instance] scalarText byteCodec composedText

def mozcCandidate (text : Text) : ConverterCandidate :=
  { text := text, consumingCount := 1, sourceID := some "mozc-1".toList, isLearnable := false }

def hazkeyCandidate (text : Text) : ConverterCandidate :=
  { text := text, consumingCount := 1, sourceID := some "hazkey-1".toList }

/-- Children that convert one segment, and stage what they are given. -/
def segmentChildren : (c : ChildCall) → c.call.Answer
  | ⟨_, .mozc, .segmentCandidates _ _⟩ => .ok ⟨[mozcCandidate "仮名".toList], 1⟩
  | ⟨_, .hazkey, .segmentCandidates _ _⟩ => .ok ⟨[hazkeyCandidate "仮名".toList, hazkeyCandidate "カナ".toList], 2⟩
  | ⟨_, _, .stageLearning _ _⟩ => some ⟨"token".toList⟩
  | ⟨_, _, call⟩ => (noopConverter call ()).1

/-- The foreground thread 0 follows the script, and the others do nothing. -/
def soloProcess (script : List ForegroundCommand) : Pool childPort Work HybridSystem GateThread :=
  startProcess (fun n => if n = 0 then script else []) (fun _ => .preserveMozcTop1)
    (fun _ => .standard) (fun _ => true) 0

def scheduled (script : List ForegroundCommand) (schedule : List GateThread) :
    Option (Pool childPort Work HybridSystem GateThread) :=
  (soloProcess script).schedule hybridMachine segmentChildren schedule

end Hazkey
