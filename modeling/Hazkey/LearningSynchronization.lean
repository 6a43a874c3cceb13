import Hazkey.ExecutionGate
import Hazkey.Port

/-! Converters that share one persisted learning history. Each keeps the
revision of the history that its base converter has seen. -/

namespace Hazkey

open Interleaving

namespace ConverterCall

/-- The calls that are answered from the persisted history. -/
def converts : ConverterCall → Bool
  | .candidates _ _ | .segmentCandidates _ _ | .realtimeCandidates _ _ | .predictions _ _ => true
  | _ => false

/-- The calls that write the persisted history, where there is something to write. -/
def writes : ConverterCall → Bool
  | .commitLearning | .forget _ => true
  | _ => false

/-- The calls that are passed on without the gate. -/
def bypassesGate : ConverterCall → Bool
  | .supportsSegmentEditing | .prepareSpeculativeConversion _
  | .invalidateSpeculativeConversion _ | .lockCandidateOrder _ | .retireCandidateWindow => true
  | _ => false

end ConverterCall

/-- A call of the base converter of an instance; `synchronising` marks the one
that only reloads its cache. -/
structure BaseCall where
  converter : Nat
  call : ConverterCall
  synchronising : Bool := false
  deriving DecidableEq

/-- With its answer a base converter says whether it wrote the persisted history. -/
abbrev basePort : ServiceProgram.Interface where
  Call := BaseCall
  Answer c := c.call.Answer × Bool

/-- An instance. `missed` is a note of the model: a commit of someone else was
recorded since the base last reloaded the history. -/
structure LearningConverter where
  observedRevision : UInt64
  missed : Bool := false
  deriving DecidableEq

/-- What the model notes, newest first: a base call under the gate, with the
revisions and the note at its return, and an increment of the store. -/
inductive LearningEvent
  | called (base : BaseCall) (observed : Option UInt64) (current : UInt64) (missed persisted : Bool)
  | recorded (source : Option Nat)
  deriving DecidableEq

structure LearningSystem where
  gate : ExecutionGate := {}
  revision : UInt64 := 0
  converters : Nat → Option LearningConverter := fun _ => none
  log : List LearningEvent := []

namespace LearningSystem

def observed (s : LearningSystem) (i : Nat) : Option UInt64 :=
  (s.converters i).map (·.observedRevision)

def missed (s : LearningSystem) (i : Nat) : Bool := ((s.converters i).map (·.missed)).getD false

/-- `commitLearning` of the base saves what is pending and drops its cache. -/
def reloaded (s : LearningSystem) (i : Nat) : LearningSystem :=
  { s with
    converters :=
      Function.update s.converters i
        ((s.converters i).map fun c => { c with missed := false }) }

def note (s : LearningSystem) (e : LearningEvent) : LearningSystem := { s with log := e :: s.log }

def afterCall (s : LearningSystem) (c : BaseCall) (wrote : Bool) : LearningSystem :=
  if c.call.bypassesGate then s
  else
    let noted := s.note <|
      .called c (s.observed c.converter) s.revision (s.missed c.converter) (c.call.writes && wrote)
    if c.call = .commitLearning then noted.reloaded c.converter else noted

/-- `recordCommit`. -/
def recorded (s : LearningSystem) (source : Option Nat) : LearningSystem :=
  { s with
    revision := s.revision + 1
    converters := fun i =>
      (s.converters i).map fun c => if source = some i then c else { c with missed := true }
    log := .recorded source :: s.log }

def observe (s : LearningSystem) (i : Nat) (revision : UInt64) : LearningSystem :=
  { s with
    converters :=
      Function.update s.converters i
        ((s.converters i).map fun c => { c with observedRevision := revision }) }

end LearningSystem

abbrev LearningM (α : Type) := Task basePort Empty LearningSystem α

/-! The revision store and the gate. -/

def currentRevision : LearningM UInt64 := .atomically fun s => (s.revision, s)

def recordCommit (source : Option Nat) : LearningM UInt64 :=
  .atomically fun s => (s.revision + 1, s.recorded source)

def lockLearning (t : GateThread) : LearningM Unit :=
  .await (fun s => s.gate.isOpen t) fun s => { s with gate := s.gate.lock t }

def unlockLearning : LearningM Unit := .modify fun s => { s with gate := s.gate.unlock }

def withLearningLock {α : Type} (t : GateThread) (body : LearningM α) : LearningM α := do
  lockLearning t
  let a ← body
  unlockLearning
  pure a

/-! `LearningSynchronizedKanaKanjiConverter`. -/

namespace LearningSynchronized

def base (i : Nat) (c : ConverterCall) : LearningM c.Answer := do
  let answer ← .invoke (I := basePort) ⟨i, c, false⟩
  pure answer.1

def observedRevision (i : Nat) : LearningM UInt64 :=
  .atomically fun s => ((s.observed i).getD 0, s)

def setObservedRevision (i : Nat) (revision : UInt64) : LearningM Unit :=
  .modify fun s => s.observe i revision

def synchronizePersistedLearningIfNeeded (i : Nat) : LearningM Unit := do
  let currentRevision ← Hazkey.currentRevision
  let observed ← observedRevision i
  if currentRevision = observed then pure ()
  else do
    let _ ← .invoke (I := basePort) ⟨i, .commitLearning, true⟩
    setObservedRevision i currentRevision

def convert (t : GateThread) (i : Nat) (c : ConverterCall) : LearningM c.Answer :=
  withLearningLock t do
    synchronizePersistedLearningIfNeeded i
    base i c

/-- A method that changes the persisted history and publishes the change. -/
def publish (t : GateThread) (i : Nat) (c : ConverterCall) : LearningM c.Answer :=
  withLearningLock t do
    let answer ← base i c
    let revision ← recordCommit (some i)
    setObservedRevision i revision
    pure answer

def perform (t : GateThread) (i : Nat) : (c : ConverterCall) → LearningM c.Answer
  | .supportsSegmentEditing => base i .supportsSegmentEditing
  | .display composition => withLearningLock t (base i (.display composition))
  | .inputCursorPosition composition offset =>
    withLearningLock t (base i (.inputCursorPosition composition offset))
  | .candidates composition options => convert t i (.candidates composition options)
  | .segmentCandidates composition options => convert t i (.segmentCandidates composition options)
  | .realtimeCandidates composition options => convert t i (.realtimeCandidates composition options)
  | .predictions composition options => convert t i (.predictions composition options)
  | .setCompletedData candidate => withLearningLock t (base i (.setCompletedData candidate))
  | .updateLearningData candidate => withLearningLock t (base i (.updateLearningData candidate))
  | .commitLearning => publish t i .commitLearning
  | .stageLearning candidate reading => withLearningLock t (base i (.stageLearning candidate reading))
  | .commitStagedLearning token => withLearningLock t (base i (.commitStagedLearning token))
  | .discardStagedLearning token => withLearningLock t (base i (.discardStagedLearning token))
  | .forget candidate => publish t i (.forget candidate)
  | .stopComposition => withLearningLock t (base i .stopComposition)
  | .purgeSensitiveState => withLearningLock t (base i .purgeSensitiveState)
  | .prepareSpeculativeConversion context => base i (.prepareSpeculativeConversion context)
  | .invalidateSpeculativeConversion reason => base i (.invalidateSpeculativeConversion reason)
  | .lockCandidateOrder revision => base i (.lockCandidateOrder revision)
  | .retireCandidateWindow => base i .retireCandidateWindow

end LearningSynchronized

/-! The threads. -/

/-- A new instance reads the store without the gate. -/
def createConverter (i : Nat) : LearningM Unit :=
  .modify fun s =>
    if s.converters i = none then
      { s with converters := Function.update s.converters i (some ⟨s.revision, false⟩) }
    else s

/-- What a thread does next. Sections of several operations are locked and
unlocked around them; a thread unlocks only what it has locked. -/
inductive LearningCommand
  | create (i : Nat)
  | perform (i : Nat) (c : ConverterCall)
  | recordCommit
  | lock
  | unlock

def LearningCommand.run (t : GateThread) : LearningCommand → LearningM Unit
  | .create i => createConverter i
  | .perform i c => do
    let created ← .atomically fun s => ((s.converters i).isSome, s)
    Task.when (created = true) do
      let _ ← LearningSynchronized.perform t i c
      pure ()
  | .recordCommit => withLearningLock t do
    let _ ← Hazkey.recordCommit none
    pure ()
  | .lock => lockLearning t
  | .unlock => .modify fun s => if s.gate.owner = some t then { s with gate := s.gate.unlock } else s

def learningThread (t : GateThread) : List LearningCommand → LearningM Unit
  | [] => pure ()
  | command :: rest => do
    command.run t
    learningThread t rest

def learningMachine : Machine basePort Empty LearningSystem GateThread where
  program l := l.elim
  record _ c a s := s.afterCall c a.2

def startLearning (scripts : GateThread → List LearningCommand) :
    Pool basePort Empty LearningSystem GateThread where
  state := {}
  tasks t := learningThread t (scripts t)

end Hazkey
