import Hazkey.HybridState
import Hazkey.ReducerRuns

/-! The operations of the Mozc-first hybrid converter and the work it submits, as
threads that meet at its locks. -/

namespace Hazkey

open ServiceProgram Interleaving

/-- `precomposedStringWithCanonicalMapping` of the runtime. -/
class CanonicalText where
  precomposed : Text → Text

/-- A call of one of the two backends of a converter. -/
structure ChildCall where
  converter : Nat
  backend : Backend
  call : ConverterCall

abbrev childPort : Interface := ⟨ChildCall, fun c => c.call.Answer⟩

structure ChildEvent where
  thread : GateThread
  call : ChildCall
  answer : call.call.Answer

/-- The work a submitted closure carries. -/
structure Work where
  job : Nat
  converter : Nat
  workID : UInt64
  deriving DecidableEq

/-- The memory that the threads share, and of their local variables the fences.
`admitted`, `acquiredBy`, `log` and `returned` record what was done and are read by
no step. -/
structure HybridSystem where
  gate : ExecutionGate := {}
  converters : Nat → MozcFirstHybrid := fun _ => {}
  submitted : List Work := []
  workFence : Nat → Option UInt64 := fun _ => none
  fenceToRelease : Nat → Option UInt64 := fun _ => none
  suspensions : Nat → List UInt64 := fun _ => []
  learningRevision : UInt64 := 0
  reducers : Nat → ImeReducer
  acting : Nat → Bool := fun _ => false
  admitted : Nat → Bool := fun _ => false
  acquiredBy : UInt64 → Option GateThread := fun _ => none
  log : List ChildEvent := []
  returned : List (Nat × ConverterCall) := []

abbrev HybridM (α : Type) := Task childPort Work HybridSystem α

namespace HybridSystem

def withConverter (s : HybridSystem) (c : Nat) (f : MozcFirstHybrid → MozcFirstHybrid) :
    HybridSystem :=
  { s with converters := Function.update s.converters c (f (s.converters c)) }

def withGate (s : HybridSystem) (f : ExecutionGate → ExecutionGate) : HybridSystem :=
  { s with gate := f s.gate }

end HybridSystem

/-! The gate. -/

def lockGate (t : GateThread) : HybridM Unit :=
  .await (fun s => s.gate.isOpen t) (·.withGate (·.lock t))

def unlockGate : HybridM Unit := .modify (·.withGate (·.unlock))

def withHazkeyLock {α : Type} (t : GateThread) (body : HybridM α) : HybridM α := do
  lockGate t
  let a ← body
  unlockGate
  pure a

/-- `acquireSpeculationFence`, into a variable of the foreground thread. -/
def suspendSpeculation (n : Nat) : HybridM Unit :=
  .await (fun s => s.gate.freshSpeculationFence.isSome) fun s =>
    let acquired := s.gate.acquireSpeculationFence
    { s with
      gate := acquired.2
      suspensions := Function.update s.suspensions n (acquired.1 :: s.suspensions n)
      acquiredBy := Function.update s.acquiredBy acquired.1 (some (.foreground n)) }

/-- Releases the fence that the thread acquired last. -/
def resumeSpeculation (n : Nat) : HybridM Unit :=
  .modify fun s =>
    match s.suspensions n with
    | [] => s
    | token :: rest =>
      { s with
        gate := s.gate.releaseSpeculationFence token
        suspensions := Function.update s.suspensions n rest }

/-- `acquireSpeculationFence`, into a variable of the work. -/
def acquireWorkFence (j : Nat) : HybridM Unit :=
  .await (fun s => s.gate.freshSpeculationFence.isSome) fun s =>
    let acquired := s.gate.acquireSpeculationFence
    { s with
      gate := acquired.2
      workFence := Function.update s.workFence j (some acquired.1)
      acquiredBy := Function.update s.acquiredBy acquired.1 (some (.worker j)) }

def releaseWorkFence (j : Nat) : HybridM Unit :=
  .modify fun s =>
    match s.workFence j with
    | none => s
    | some token =>
      { s with
        gate := s.gate.releaseSpeculationFence token
        workFence := Function.update s.workFence j none }

def releaseCandidateFence (n : Nat) : HybridM Unit :=
  .modify fun s =>
    match s.fenceToRelease n with
    | none => s
    | some token =>
      { s with
        gate := s.gate.releaseSpeculationFence token
        fenceToRelease := Function.update s.fenceToRelease n none }

/-! The locks of one converter, which the foreground thread `n` operates. -/

section

variable (n c : Nat)

def withStateLock {α : Type} (f : UInt64 → MozcFirstHybrid → α × MozcFirstHybrid) : HybridM α :=
  .atomically fun s =>
    let r := f s.learningRevision (s.converters c)
    (r.1, s.withConverter c fun _ => r.2)

def changeLocked (f : MozcFirstHybrid → MozcFirstHybrid) : HybridM Unit :=
  .modify (·.withConverter c f)

/-- A change that may take the fence, and the release of what it took. -/
def takeLocked
    (f : UInt64 → MozcFirstHybrid → Option UInt64 × MozcFirstHybrid) : HybridM Unit :=
  .modify fun s =>
    let r := f s.learningRevision (s.converters c)
    { s.withConverter c fun _ => r.2 with
      fenceToRelease := Function.update s.fenceToRelease n r.1 }

def child (backend : Backend) (call : ConverterCall) : HybridM call.Answer :=
  .invoke (I := childPort) ⟨c, backend, call⟩

/-- A call of the backend that a route names. -/
def call (backend : Backend) (request : ConverterCall) : HybridM request.Answer :=
  match backend with
  | .mozc => child c .mozc request
  | .hazkey => withHazkeyLock (.foreground n) (child c .hazkey request)

/-! Routing. -/

def route (candidate : ConverterCandidate) (backend : Backend) : HybridM ConverterCandidate :=
  withStateLock c fun _ h => h.routeLocked candidate backend

def routeAll (backend : Backend) : List ConverterCandidate → HybridM (List ConverterCandidate)
  | [] => pure []
  | candidate :: rest => do
    let routed ← route c candidate backend
    let later ← routeAll backend rest
    pure (routed :: later)

def routeOutput (output : ConversionOutput) (backend : Backend) : HybridM ConversionOutput := do
  let candidates ← routeAll c backend output.candidates
  pure ⟨candidates, min output.pageSize output.candidates.length⟩

def candidateRoute (candidate : ConverterCandidate) : HybridM (Option CandidateRoute) :=
  withStateLock c fun _ h => (h.candidateRoute candidate, h)

/-! Merging. -/

def releaseUnusedCandidateFence : HybridM Unit := do
  takeLocked n c fun _ h => h.releaseUnusedLocked
  releaseCandidateFence n

def releaseUnpublishedFrozenFence : HybridM Unit := do
  takeLocked n c fun _ h => h.releaseUnpublishedFrozenLocked
  releaseCandidateFence n

section

variable [CanonicalText]

/-- Two candidates of one count whose texts are canonically equivalent. -/
def deduplicationKey (candidate : ConverterCandidate) : Int × Text :=
  (candidate.consumingCount, CanonicalText.precomposed candidate.text)

def shouldPromote (policy : HybridPromotionPolicy) (primary secondary : List ConverterCandidate) :
    Bool :=
  match policy, primary, secondary with
  | .oneSidedConsensus, primaryFirst :: primaryRest, secondaryFirst :: _ =>
    (primaryRest.any fun x => deduplicationKey x = deduplicationKey secondaryFirst) &&
      !(secondary.any fun x => deduplicationKey x = deduplicationKey primaryFirst)
  | _, _, _ => false

def mergeOrder (promote : Bool) (primary secondary : List ConverterCandidate) :
    List (Backend × ConverterCandidate) :=
  if promote = true then
    (secondary.take 1).map (Backend.hazkey, ·) ++ primary.map (Backend.mozc, ·) ++
      (secondary.drop 1).map (Backend.hazkey, ·)
  else
    (primary.take 3).map (Backend.mozc, ·) ++ secondary.map (Backend.hazkey, ·) ++
      (primary.drop 3).map (Backend.mozc, ·)

/-- The loop of `merge`: what it routed, and whether that can teach Hazkey. -/
def mergeOrdered (limit : Int) :
    List (Backend × ConverterCandidate) → List (Int × Text) → List ConverterCandidate → Bool →
      HybridM (List ConverterCandidate × Bool)
  | [], _, candidates, published => pure (candidates, published)
  | (backend, candidate) :: rest, seen, candidates, published =>
    if (candidates.length : Int) < limit ∧ deduplicationKey candidate ∉ seen then do
      let routed ← route c candidate backend
      mergeOrdered limit rest (deduplicationKey candidate :: seen) (candidates ++ [routed])
        (published || (backend = .hazkey && routed.isLearnable))
    else mergeOrdered limit rest seen candidates published

def publishOrRelease (published : Bool) : HybridM Unit :=
  if published = true then changeLocked c (·.publishLocked) else releaseUnusedCandidateFence n c

def merge (primary secondary : ConversionOutput) (options : ConversionOptions) :
    HybridM ConversionOutput := do
  match primary.candidates with
  | [] => do
    let limited := secondary.candidates.take options.suggestionListLimit.toNat
    let candidates ← routeAll c .hazkey limited
    publishOrRelease n c (candidates.any (·.isLearnable))
    pure ⟨candidates, min secondary.pageSize limited.length⟩
  | primaryFirst :: _ => do
    let eligibleSecondary :=
      secondary.candidates.filter fun x => x.consumingCount = primaryFirst.consumingCount
    if eligibleSecondary = [] then do
      releaseUnusedCandidateFence n c
      routeOutput c primary .mozc
    else do
      let policy ← Task.atomically fun s : HybridSystem => ((s.converters c).promotionPolicy, s)
      let promote := shouldPromote policy primary.candidates eligibleSecondary
      let merged ← mergeOrdered c options.suggestionListLimit
        (mergeOrder promote primary.candidates eligibleSecondary) [] [] false
      publishOrRelease n c merged.2
      pure ⟨merged.1, min options.suggestionListLimit merged.1.length⟩

def segmentCandidates (composition : CompositionInput) (options : ConversionOptions) :
    HybridM (Except String ConversionOutput) := do
  let primary ← child c .mozc (.segmentCandidates composition options)
  match primary with
  | .error e => do
    releaseUnpublishedFrozenFence n c
    pure (.error e)
  | .ok primary => do
    let secondary ← withStateLock c fun _ h => (h.frozenOutput composition options, h)
    match secondary with
    | none => do
      let output ← routeOutput c primary .mozc
      pure (.ok output)
    | some secondary => do
      let output ← merge n c primary secondary options
      pure (.ok output)

end

/-! Mozc alone. -/

def routeResult (output : Except String ConversionOutput) :
    HybridM (Except String ConversionOutput) :=
  match output with
  | .error e => pure (.error e)
  | .ok output => do
    let routed ← routeOutput c output .mozc
    pure (.ok routed)

def candidates (composition : CompositionInput) (options : ConversionOptions) :
    HybridM (Except String ConversionOutput) := do
  let output ← child c .mozc (.candidates composition options)
  routeResult c output

def predictions (composition : CompositionInput) (options : ConversionOptions) :
    HybridM (Except String ConversionOutput) := do
  let output ← child c .mozc (.predictions composition options)
  routeResult c output

def realtimeCandidates (composition : CompositionInput) (options : ConversionOptions) :
    HybridM (Except String RealtimeConversionOutput) := do
  let output ← child c .mozc (.realtimeCandidates composition options)
  match output with
  | .error e => pure (.error e)
  | .ok output => do
    let live ← routeAll c .mozc output.liveCandidate.toList
    let candidates ← routeAll c .mozc output.candidates
    pure (.ok ⟨live.head?, candidates, min output.pageSize output.candidates.length⟩)

/-! Speculation. -/

def submit (workID : UInt64) : HybridM Unit :=
  .modify fun s => { s with submitted := s.submitted ++ [⟨s.submitted.length, c, workID⟩] }

def prepareLocked (context : SpeculativeConversionContext) : HybridM (Option UInt64) :=
  .atomically fun s =>
    let r := (s.converters c).prepareLocked context
    (r.1, { s.withConverter c fun _ => r.2.2 with
      fenceToRelease := Function.update s.fenceToRelease n r.2.1 })

def prepareSpeculation (context : SpeculativeConversionContext) : HybridM Unit :=
  if context.options.secureInput = false ∧ context.input.elements ≠ [] ∧
      context.input.cursor = context.input.elements.length then do
    let learningRevision ← Task.atomically fun s : HybridSystem => (s.learningRevision, s)
    let workID ← prepareLocked n c { context with learningRevision := learningRevision }
    releaseCandidateFence n
    match workID with
    | none => pure ()
    | some workID => do
      changeLocked c fun h =>
        { h with outstandingWorkCountValue := h.outstandingWorkCountValue + 1 }
      submit c workID
  else pure ()

def invalidateSpeculativeConversion (reason : SpeculationInvalidationReason) : HybridM Unit := do
  takeLocked n c fun _ h => h.invalidateLocked reason
  releaseCandidateFence n

def retireCandidateWindow : HybridM Unit := do
  takeLocked n c fun _ h => h.retireLocked
  releaseCandidateFence n

def lockOrder (revision : CompositionRevision) : HybridM Unit := do
  takeLocked n c fun learningRevision h => h.lockLocked revision learningRevision
  releaseCandidateFence n

/-! Learning. -/

def setCompletedData (candidate : ConverterCandidate) : HybridM Unit := do
  let route ← candidateRoute c candidate
  match route with
  | none => pure ()
  | some route => call n c route.backend (.setCompletedData route.original)

def updateLearningData (candidate : ConverterCandidate) : HybridM Unit := do
  let route ← candidateRoute c candidate
  match route with
  | none => pure ()
  | some route => do
    call n c route.backend (.updateLearningData route.original)
    changeLocked c (·.dirty route.backend)

def commitLearning : HybridM Unit := do
  let backends ← withStateLock c fun _ h => (h.dirtyBackends, { h with dirtyBackends := ∅ })
  Task.when (Backend.mozc ∈ backends) (child c .mozc .commitLearning)
  Task.when (Backend.hazkey ∈ backends) (withHazkeyLock (.foreground n) (child c .hazkey .commitLearning))
  takeLocked n c fun _ h => h.takeDeferredFence
  releaseCandidateFence n

def stageLearning (candidate : ConverterCandidate) (reading : Text) :
    HybridM (Option ConverterLearningToken) := do
  let route ← candidateRoute c candidate
  match route with
  | none => pure none
  | some route => do
    let childToken : Option ConverterLearningToken ←
      call n c route.backend (.stageLearning route.original reading)
    match childToken with
    | none => pure none
    | some childToken => do
      let token ← withStateLock c fun _ h => h.stageLocked route.backend childToken
      pure (some token)

def commitStagedLearning (token : ConverterLearningToken) : HybridM Unit := do
  let route ← withStateLock c fun _ h => h.unstageLocked token
  match route with
  | none => pure ()
  | some route => do
    call n c route.backend (.commitStagedLearning route.original)
    changeLocked c (·.dirty route.backend)

def discardStagedLearning (token : ConverterLearningToken) : HybridM Unit := do
  let route ← withStateLock c fun _ h => h.unstageLocked token
  match route with
  | none => pure ()
  | some route => do
    call n c route.backend (.discardStagedLearning route.original)
    takeLocked n c fun _ h => h.takeDiscardedFence
    releaseCandidateFence n

def forget (candidate : ConverterCandidate) : HybridM Unit := do
  let route ← candidateRoute c candidate
  match route with
  | none => pure ()
  | some route => call n c route.backend (.forget route.original)

def stopComposition : HybridM Unit := do
  child c .mozc .stopComposition
  takeLocked n c fun _ h => h.trimCandidateRoutes.takeDeferredFence
  releaseCandidateFence n

def waitForActiveWorkToFinish : HybridM Unit :=
  .await (fun s => (s.converters c).activeWorkCount ≤ 0) id

/-- A crossing into another security domain waits for the work under way. -/
def purgeSensitiveState : HybridM Unit := do
  suspendSpeculation n
  takeLocked n c fun _ h => h.purgeLocked
  releaseCandidateFence n
  child c .mozc .purgeSensitiveState
  withHazkeyLock (.foreground n) (child c .hazkey .purgeSensitiveState)
  waitForActiveWorkToFinish c
  resumeSpeculation n

/-! The worker. -/

/-- What Hazkey answered to work that is still wanted, cut to the list limit. -/
def makeHazkeyStep (context : SpeculativeConversionContext) (workID : UInt64) :
    HybridM (Option PreparedStep) := do
  let pending ← withStateLock c fun _ h => (h.speculationIsPending workID context, h)
  if pending = true then do
    let requested : Except String ConversionOutput ←
      child c .hazkey (.segmentCandidates context.input context.options)
    match requested with
    | .error _ => pure none
    | .ok requested => do
      let pending ← withStateLock c fun _ h => (h.speculationIsPending workID context, h)
      let candidates := requested.candidates.take context.options.suggestionListLimit.toNat
      pure (if pending = true then
        some ⟨context.input, context.options, ⟨candidates, min requested.pageSize candidates.length⟩⟩
        else none)
  else pure none

/-- A step whose candidates can teach Hazkey. -/
def PreparedStep.teaches (step : PreparedStep) : Bool :=
  step.options.allowLearning && step.output.candidates.any fun candidate =>
    candidate.isLearnable && candidate.sourceID.isSome

/-- Stores the result, which then holds the fence of the work. -/
def completeWork (j : Nat) (workID : UInt64) (context : SpeculativeConversionContext)
    (step : Option PreparedStep) : HybridM Bool :=
  .atomically fun s =>
    let r := (s.converters c).completeLocked workID context
      (step.map fun step => (step, s.workFence j)) s.learningRevision
    (r.1, { s.withConverter c fun _ => r.2 with
      workFence := if r.1 = true then s.workFence else Function.update s.workFence j none })

end

def beginActiveWork (c : Nat) : HybridM Unit :=
  changeLocked c fun h => { h with activeWorkCount := h.activeWorkCount + 1 }

def endActiveWork (c : Nat) : HybridM Unit :=
  changeLocked c fun h => { h with activeWorkCount := h.activeWorkCount - 1 }

def endOutstandingWork (c : Nat) : HybridM Unit :=
  changeLocked c fun h => { h with outstandingWorkCountValue := h.outstandingWorkCountValue - 1 }

def performAdmittedHazkeyStep (w : Work) : HybridM Unit := do
  let admitted ← withStateLock w.converter fun learningRevision h =>
    h.admitLocked w.workID learningRevision
  match admitted with
  | none => pure ()
  | some context => do
    let step ← makeHazkeyStep w.converter context w.workID
    Task.when (step.any (·.teaches) = true) (acquireWorkFence w.job)
    child w.converter .hazkey .stopComposition
    let release ← completeWork w.converter w.job w.workID context step
    Task.when (release = true) (releaseWorkFence w.job)

/-- The body of the admitted work. -/
def prepareHazkeyStep (w : Work) : HybridM Unit := do
  beginActiveWork w.converter
  performAdmittedHazkeyStep w
  endActiveWork w.converter

/-- Counts the work that waits until no fence is held, if one is. -/
def beginWaiting : HybridM Bool :=
  .atomically fun s =>
    if s.gate.speculationFences = ∅ then (false, s) else (true, s.withGate (·.waiting 1))

def endWaiting : HybridM Unit :=
  .await (fun s => s.gate.speculationFences = ∅) (·.withGate (·.waiting (-1)))

/-- The work is in the gate, or leaves it. -/
def HybridSystem.attend (s : HybridSystem) (j : Nat) (present : Bool) : HybridSystem :=
  { s.withGate (·.attending (if present = true then 1 else -1)) with
    admitted := Function.update s.admitted j present }

def enterGate (j : Nat) : HybridM Bool :=
  .atomically fun s =>
    if s.gate.speculationFences = ∅ then (true, s.attend j true) else (false, s)

def leaveGate (j : Nat) : HybridM Unit := .modify (·.attend j false)

/-- One attempt of `withSpeculationLock`, which tries again when a fence was
acquired while it waited for the lock. -/
def speculate (w : Work) : HybridM Unit := do
  let blocked ← beginWaiting
  Task.when (blocked = true) endWaiting
  lockGate (.worker w.job)
  let admitted ← enterGate w.job
  if admitted = true then do
    prepareHazkeyStep w
    leaveGate w.job
    unlockGate
    endOutstandingWork w.converter
  else do
    unlockGate
    .jump w

/-- The thread of the closure that was submitted as number `j`. -/
def worker (j : Nat) : HybridM Unit :=
  .atomic (fun s => j < s.submitted.length) id fun s =>
    match s.submitted[j]? with
    | none => .done ()
    | some w => .jump w

/-! The foreground. -/

variable [CanonicalText]

/-- The methods of the converter, called by a foreground thread. -/
def operate (n c : Nat) : (request : ConverterCall) → HybridM request.Answer
  | .supportsSegmentEditing => child c .mozc .supportsSegmentEditing
  | .display composition => child c .mozc (.display composition)
  | .inputCursorPosition composition offset =>
    child c .mozc (.inputCursorPosition composition offset)
  | .candidates composition options => candidates c composition options
  | .segmentCandidates composition options => segmentCandidates n c composition options
  | .realtimeCandidates composition options => realtimeCandidates c composition options
  | .predictions composition options => predictions c composition options
  | .setCompletedData candidate => setCompletedData n c candidate
  | .updateLearningData candidate => updateLearningData n c candidate
  | .commitLearning => commitLearning n c
  | .stageLearning candidate reading => stageLearning n c candidate reading
  | .commitStagedLearning token => commitStagedLearning n c token
  | .discardStagedLearning token => discardStagedLearning n c token
  | .forget candidate => forget n c candidate
  | .stopComposition => stopComposition n c
  | .purgeSensitiveState => purgeSensitiveState n c
  | .prepareSpeculativeConversion context => prepareSpeculation n c context
  | .invalidateSpeculativeConversion reason => invalidateSpeculativeConversion n c reason
  | .lockCandidateOrder revision => lockOrder n c revision
  | .retireCandidateWindow => retireCandidateWindow n c

def recordReturn (c : Nat) (request : ConverterCall) : HybridM Unit :=
  .modify fun s => { s with returned := s.returned ++ [(c, request)] }

/-- A call of a method, recorded when it returns. -/
def serve (n c : Nat) (request : ConverterCall) : HybridM request.Answer := do
  let a ← operate n c request
  recordReturn c request
  pure a

end Hazkey
