import Hazkey.HybridConverter

/-! The threads of a process: any number of hybrid converters that share one
gate, the foreground threads that drive them, and the workers. -/

namespace Hazkey

open ServiceProgram Interleaving

variable [SwiftText] [RecoveryCodec] [CanonicalText]

/-- A program of a reducer, each of whose calls is an operation of its converter. -/
def operateProgram {α : Type} (n c : Nat) :
    Prog converterPort ImeReducer α → ImeReducer → HybridM (α × ImeReducer)
  | .pure a, r => pure (a, r)
  | .get k, r => operateProgram n c (k r) r
  | .set u k, _ => operateProgram n c k u
  | .call request k, r => serve n c request >>= fun a => operateProgram n c (k a) r

/-- What a foreground thread does next: a call of a reducer or of a converter,
or one of the steps of a maintenance operation. -/
inductive ForegroundCommand
  | reduce (c : Nat) (e : ReducerCall)
  | operate (c : Nat) (request : ConverterCall)
  | acquireFence
  | releaseFence
  | lock
  | unlock
  | recordLearning (revision : UInt64)

/-- The reducer is acting from its call until the call returns. -/
def beginReduction (c : Nat) : HybridM ImeReducer :=
  .atomically fun s => (s.reducers c, { s with acting := Function.update s.acting c true })

def endReduction (c : Nat) (r : ImeReducer) : HybridM Unit :=
  .modify fun s =>
    { s with
      reducers := Function.update s.reducers c r
      acting := Function.update s.acting c false }

def actReducer (n c : Nat) (e : ReducerCall) : HybridM Unit := do
  let r ← beginReduction c
  let result ← operateProgram n c e.program r
  endReduction c result.2

/-- A thread unlocks only what it has locked. -/
def unlockOwnGate (n : Nat) : HybridM Unit :=
  .modify fun s => if s.gate.owner = some (.foreground n) then s.withGate (·.unlock) else s

def recordLearning (revision : UInt64) : HybridM Unit :=
  .modify fun s => { s with learningRevision := revision }

def ForegroundCommand.run (n : Nat) : ForegroundCommand → HybridM Unit
  | .reduce c e => actReducer n c e
  | .operate c request => do
    let _ ← serve n c request
    pure ()
  | .acquireFence => suspendSpeculation n
  | .releaseFence => resumeSpeculation n
  | .lock => lockGate (.foreground n)
  | .unlock => unlockOwnGate n
  | .recordLearning revision => Hazkey.recordLearning revision

def foreground (n : Nat) : List ForegroundCommand → HybridM Unit
  | [] => pure ()
  | command :: rest => do
    command.run n
    foreground n rest

def hybridMachine : Machine childPort Work HybridSystem GateThread where
  program := speculate
  record t c a s := { s with log := s.log ++ [⟨t, c, a⟩] }

/-- A process whose converters and reducers are new. -/
def startProcess (scripts : Nat → List ForegroundCommand)
    (promotionPolicy : Nat → HybridPromotionPolicy)
    (policy : Nat → PinnedCompositionPolicy) (stagedLearningEnabled : Nat → Bool)
    (learningRevision : UInt64) : Pool childPort Work HybridSystem GateThread where
  state :=
    { converters := fun c => { promotionPolicy := promotionPolicy c }
      reducers := fun c => .initial (.initial (policy c)) (stagedLearningEnabled c)
      learningRevision := learningRevision }
  tasks
    | .foreground n => foreground n (scripts n)
    | .worker j => worker j

end Hazkey
