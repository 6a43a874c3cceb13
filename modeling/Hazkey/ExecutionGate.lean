import Hazkey.Interleaving
import Mathlib.Data.Finset.Card

/-! The gate that serialises the calls of all sessions to the shared converter,
and the fences that keep speculative work out of it. -/

namespace Hazkey

/-- Who holds the lock: a foreground thread, or a submitted piece of work. -/
inductive GateThread
  | foreground (n : Nat)
  | worker (j : Nat)
  deriving DecidableEq, Repr

structure ExecutionGate where
  owner : Option GateThread := none
  depth : Nat := 0
  speculationFences : Finset UInt64 := ∅
  nextSpeculationFenceID : UInt64 := 1
  activeSpeculationCountValue : Int := 0
  waitingSpeculationCountValue : Int := 0

namespace ExecutionGate

/-- The recursive lock can be taken. -/
def isOpen (g : ExecutionGate) (t : GateThread) : Bool := g.owner = none || g.owner = some t

def lock (g : ExecutionGate) (t : GateThread) : ExecutionGate :=
  { g with owner := some t, depth := g.depth + 1 }

def unlock (g : ExecutionGate) : ExecutionGate :=
  { g with owner := if g.depth ≤ 1 then none else g.owner, depth := g.depth - 1 }

/-- The counts of the speculative work that waits, and of that in the gate. -/
def waiting (g : ExecutionGate) (k : Int) : ExecutionGate :=
  { g with waitingSpeculationCountValue := g.waitingSpeculationCountValue + k }

def attending (g : ExecutionGate) (k : Int) : ExecutionGate :=
  { g with activeSpeculationCountValue := g.activeSpeculationCountValue + k }

def nextID (id : UInt64) : UInt64 := if id = 0xFFFFFFFFFFFFFFFF then 1 else id + 1

/-- The first value that is not held, and the one after it. -/
def freshFence (fences : Finset UInt64) : Nat → UInt64 → Option (UInt64 × UInt64)
  | 0, _ => none
  | fuel + 1, id =>
    if id ∈ fences then freshFence fences fuel (nextID id) else some (id, nextID id)

/-- The search of `acquireSpeculationFence`. It passes the held values only, so
their number bounds it; where every value is held it does not end. -/
def freshSpeculationFence (g : ExecutionGate) : Option (UInt64 × UInt64) :=
  freshFence g.speculationFences (g.speculationFences.card + 1) g.nextSpeculationFenceID

def acquireSpeculationFence (g : ExecutionGate) : UInt64 × ExecutionGate :=
  match g.freshSpeculationFence with
  | none => (0, g)
  | some (token, next) =>
    (token, { g with
      speculationFences := insert token g.speculationFences, nextSpeculationFenceID := next })

def releaseSpeculationFence (g : ExecutionGate) (token : UInt64) : ExecutionGate :=
  { g with speculationFences := g.speculationFences.erase token }

theorem freshFence_notMem {fences : Finset UInt64} {fuel : Nat} {id token next : UInt64}
    (h : freshFence fences fuel id = some (token, next)) : token ∉ fences := by
  induction fuel generalizing id with
  | zero => cases h
  | succ fuel ih =>
    unfold freshFence at h
    split at h
    · exact ih h
    · rename_i hid
      obtain ⟨rfl, -⟩ := Prod.mk.inj (Option.some.inj h)
      exact hid

/-- A fence that was found is new and is then held. -/
theorem acquire_spec {g : ExecutionGate} (h : g.freshSpeculationFence.isSome = true) :
    ∃ token next, token ∉ g.speculationFences ∧
      g.acquireSpeculationFence = (token, { g with
        speculationFences := insert token g.speculationFences
        nextSpeculationFenceID := next }) := by
  obtain ⟨⟨token, next⟩, hf⟩ := Option.isSome_iff_exists.mp h
  refine ⟨token, next, freshFence_notMem hf, ?_⟩
  unfold acquireSpeculationFence
  rw [hf]

end ExecutionGate

end Hazkey
