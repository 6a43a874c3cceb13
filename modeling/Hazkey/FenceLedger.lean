import Hazkey.Port
import Hazkey.ServiceProtocol
import Mathlib.Data.Finset.Basic

/-! What the operations of a hybrid converter do to its fence, as its caller sees
them: work comes and goes between the calls, the rest changes at calls only. -/

namespace Hazkey

open ServiceProgram

/-- What becomes of speculation: work is under way or has just ended, its result is
frozen, or there is no result to wait for. -/
inductive SpeculationStage
  | idle
  | working
  | prepared
  | settled
  deriving DecidableEq

/-- What a held fence is needed for. -/
inductive FenceUse
  | free
  | plain
  | published
  | deferred
  | publishedDeferred
  deriving DecidableEq

namespace FenceUse

def isDeferred : FenceUse → Bool
  | .deferred | .publishedDeferred => true
  | _ => false

def isPublished : FenceUse → Bool
  | .published | .publishedDeferred => true
  | _ => false

def defer : FenceUse → FenceUse
  | .plain => .deferred
  | .published => .publishedDeferred
  | use => use

def publish : FenceUse → FenceUse
  | .plain => .published
  | .deferred => .publishedDeferred
  | use => use

end FenceUse

/-- While work is under way the fence counts as plain: it may be there or not. -/
structure FenceLedger where
  stage : SpeculationStage := .idle
  fence : FenceUse := .free
  staged : Finset ConverterLearningToken := ∅
  dirty : Bool := false

namespace FenceLedger

/-- A result that is waited for, or frozen, is not yet needed for learning; what is
staged needs the fence, if there is one. -/
structure Valid (l : FenceLedger) : Prop where
  staged : l.staged ≠ ∅ → l.fence ≠ .plain ∧ l.fence ≠ .published
  working : l.stage = .working → l.fence = .plain
  prepared : l.stage = .prepared → l.fence.isDeferred = false ∧ l.staged = ∅

/-- The fence goes, and a frozen result with it. -/
def take (l : FenceLedger) : FenceLedger :=
  { l with
    fence := .free
    stage := if l.stage = .prepared then .settled else l.stage }

def takeDeferred (l : FenceLedger) : FenceLedger :=
  if l.fence.isDeferred = true ∧ l.staged = ∅ ∧ l.dirty = false then l.take else l

def takeDiscarded (l : FenceLedger) : FenceLedger :=
  if l.fence.isDeferred = true ∧ l.staged = ∅ then l.take else l

def retired (l : FenceLedger) : FenceLedger :=
  match l.fence with
  | .published => l.take
  | .publishedDeferred => { l.take with fence := .deferred }
  | _ => l

/-- What is held at the call. -/
def MayHold (l : FenceLedger) (use : FenceUse) : Prop :=
  use = l.fence ∨ l.stage = .working ∧ use = .free

def invalidated (l : FenceLedger) (use : FenceUse) (reason : SpeculationInvalidationReason) :
    FenceLedger :=
  if reason = .commit then { l with stage := .idle, fence := use.defer }
  else if use.isPublished = true ∨ l.staged ≠ ∅ then { l with stage := .idle, fence := use }
  else { l with stage := .idle, fence := .free }

/-- What the caller owes: it prepares only where the fence is not needed any more, and
learns only where no result is waited for and the fence, if any, is kept for that. -/
def Requires (l : FenceLedger) : ConverterCall → Prop
  | .prepareSpeculativeConversion _ => (l.fence = .free ∨ l.fence = .plain) ∧ l.staged = ∅
  | .stageLearning _ _ => (l.stage = .idle ∨ l.stage = .settled) ∧
      l.fence ≠ .plain ∧ l.fence ≠ .published
  | _ => True

/-- What an operation may leave. -/
def After (l : FenceLedger) : (c : ConverterCall) → c.Answer → FenceLedger → Prop
  | .invalidateSpeculativeConversion reason, _, l' =>
    ∃ use, l.MayHold use ∧ l' = l.invalidated use reason
  | .lockCandidateOrder _, _, l' =>
    l' = l ∧ (l.stage = .prepared ∨ l.stage = .settled) ∨
      (l.stage = .working ∧ ∃ use, l.MayHold use ∧ l' = { l with stage := .prepared, fence := use }) ∨
      l' = { l with stage := .settled, fence := if l.fence = .plain then .free else l.fence }
  | .prepareSpeculativeConversion _, _, l' =>
    l' = l ∨ l' = { l with stage := .working, fence := .plain }
  | .retireCandidateWindow, _, l' => l' = l.retired
  | .stopComposition, _, l' => l' = l.takeDeferred
  | .commitLearning, _, l' => l' = ({ l with dirty := false }).takeDeferred
  | .stageLearning _ _, none, l' => l' = l
  | .stageLearning _ _, some token, l' => l' = { l with staged := insert token l.staged }
  | .commitStagedLearning token, _, l' =>
    ∃ dirty, l' = { l with staged := l.staged.erase token, dirty := dirty }
  | .discardStagedLearning token, _, l' =>
    l' = if token ∈ l.staged then ({ l with staged := l.staged.erase token }).takeDiscarded else l
  | .updateLearningData _, _, l' => ∃ dirty, l' = { l with dirty := dirty }
  | .purgeSensitiveState, _, l' => l' = {}
  | .segmentCandidates _ _, _, l' =>
    l' = l ∨ (l.stage = .prepared ∧ l' = { l with fence := l.fence.publish }) ∨
      ((l.stage = .prepared ∨ l.stage = .settled) ∧ l.fence.isDeferred = false ∧ l' = l.take)
  | _, _, l' => l' = l

end FenceLedger

def fenceProtocol : Protocol converterPort FenceLedger where
  requires := FenceLedger.Requires
  after l c a l' := l.After c a l' ∧ l'.Valid

end Hazkey
