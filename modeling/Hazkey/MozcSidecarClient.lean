import Hazkey.LengthFrames
import Hazkey.Monitors
import Hazkey.MozcAdapter

/-! The supervisor of the optional converter helper. A system call stands with its repetitions
after EINTR, and the clock is read by the environment. -/

namespace Hazkey

open ServiceProgram LengthFrames

inductive MozcSidecarError
  | invalidRequest
  | launchFailed
  | writeFailed
  | timeout
  | disconnected
  | oversizedFrame
  | malformedResponse
  | responseMismatch
  | datasetMismatch
  | helperRejected
  deriving DecidableEq

namespace MozcSidecar

inductive Operation
  | unspecified
  | convert
  | ping
  | unrecognized (value : Int)
  deriving DecidableEq

structure Request where
  protocolVersion : UInt32
  requestID : UInt64
  operation : Operation
  reading : Text
  targetKeySize : UInt32
  maxCandidates : UInt32
  deriving DecidableEq

structure Candidate where
  value : Text
  description : Text
  consumedKeySize : UInt32
  deriving DecidableEq

structure Response where
  protocolVersion : UInt32
  requestID : UInt64
  ok : Bool
  errorMessage : Text
  candidates : List Candidate
  segmentKeySize : UInt32
  datasetSha256 : Text
  deriving DecidableEq

/-- The generated protocol code. -/
structure Codec where
  serializedData : Request → Option Data
  serializedBytes : Data → Option Response

/-- A process that was started, and the parent's ends of its two pipes. -/
structure Child where
  processIdentifier : Nat
  input : Nat
  output : Nat
  deriving DecidableEq

structure Launch where
  executable : Text
  arguments : List Text
  environment : List (Text × Text)
  deriving DecidableEq

inductive Kill
  | delivered
  | noSuchProcess
  | refused
  deriving DecidableEq

inductive Readiness
  | readable
  | timeout
  | disconnected
  deriving DecidableEq

inductive Call
  | isRunning (processIdentifier : Nat)
  | mkdtemp (template : Text)
  | run (launch : Launch)
  | closeFile (descriptor : Nat)
  | kill (processIdentifier : Nat)
  | waitForExit (processIdentifier : Nat)
  | fileExists (path : Text)
  | removeItem (path : Text)
  | uptimeNanoseconds
  | write (descriptor : Nat) (data : Data)
  | waitForReadable (descriptor : Nat) (deadline : UInt64)
  | read (descriptor count : Nat)

/-- What write(2) and read(2) promise of a count. -/
abbrev Answer : Call → Type
  | .isRunning _ => Bool
  | .mkdtemp _ => Option Text
  | .run _ => Option Child
  | .closeFile _ => Unit
  | .kill _ => Kill
  | .waitForExit _ => Bool
  | .fileExists _ => Bool
  | .removeItem _ => Unit
  | .uptimeNanoseconds => UInt64
  | .write _ data => Option { n : Nat // 0 < n ∧ n ≤ data.length }
  | .waitForReadable _ _ => Readiness
  | .read _ count => Option { data : Data // data ≠ [] ∧ data.length ≤ count }

def calls : Interface := ⟨Call, Answer⟩

/-- What is thrown within: an error of the client's own, or one of the protocol code. -/
inductive Failure
  | own (error : MozcSidecarError)
  | encoding
  deriving DecidableEq

structure Configuration where
  helperPath : Text
  dataPath : Text
  expectedDatasetSHA256 : Text
  timeoutMilliseconds : UInt32
  codec : Codec

def protocolVersion : UInt32 := 1
def maximumFrameSize : Nat := 4 * 1024 * 1024
def maximumReadingScalars : Nat := 255
def maximumReadingBytes : Nat := 1023

end MozcSidecar

open MozcSidecar

structure MozcSidecarClient where
  process : Option Nat := none
  inputHandle : Option Nat := none
  outputHandle : Option Nat := none
  temporaryDirectoryPath : Option Text := none
  nextRequestID : UInt64 := 1
  processLaunchCount : UInt64 := 0
  temporaryDirectoryCleanupFailures : UInt64 := 0
  deriving DecidableEq

namespace MozcSidecarClient

abbrev Step (α : Type) := Prog calls MozcSidecarClient α
abbrev Throwing (α : Type) := ExceptT Failure (Prog calls MozcSidecarClient) α

def ask (call : Call) : Step (Answer call) := Prog.ask (I := calls) call

def maximumRequestID : UInt64 := 18446744073709551615

def followingRequestID (id : UInt64) : UInt64 := if id = maximumRequestID then 1 else id + 1

def allocateRequestID : Step UInt64 := do
  let client ← Prog.read
  Prog.modify fun client => { client with nextRequestID := followingRequestID client.nextRequestID }
  return client.nextRequestID

def writeAll (descriptor : Nat) (data : Data) : Throwing Unit :=
  if data = [] then pure ()
  else do
    match ← (ask (.write descriptor data) : Step _) with
    | some count => writeAll descriptor (data.drop count.1)
    | none => throw (.own .writeFailed)
termination_by data.length
decreasing_by
  have := count.2
  rw [List.length_drop]
  omega

def writeFrame (payload : Data) : Throwing Unit := do
  let client ← (Prog.read : Step _)
  match client.inputHandle with
  | none => throw (.own .oversizedFrame)
  | some input =>
    if maximumFrameSize < payload.length then throw (.own .oversizedFrame)
    else writeAll input (frame payload)

def waitForReadable (descriptor : Nat) (deadline : UInt64) : Throwing Unit := do
  match ← (ask (.waitForReadable descriptor deadline) : Step _) with
  | .readable => pure ()
  | .timeout => throw (.own .timeout)
  | .disconnected => throw (.own .disconnected)

def readExactly (count descriptor : Nat) (deadline : UInt64) : Throwing Data :=
  if count = 0 then pure []
  else do
    waitForReadable descriptor deadline
    match ← (ask (.read descriptor count) : Step _) with
    | some part => return part.1 ++ (← readExactly (count - part.1.length) descriptor deadline)
    | none => throw (.own .disconnected)
termination_by count
decreasing_by
  have := List.length_pos_of_ne_nil part.2.1
  omega

section

variable (config : Configuration)

def readFrame : Throwing Data := do
  let client ← (Prog.read : Step _)
  match client.outputHandle with
  | none => throw (.own .disconnected)
  | some output =>
    let now ← (ask .uptimeNanoseconds : Step UInt64)
    let deadline := now + config.timeoutMilliseconds.toUInt64 * 1000000
    let header ← readExactly 4 output deadline
    let length := (announced header).getD 0
    if 0 < length ∧ length ≤ maximumFrameSize then readExactly length output deadline
    else throw (.own .oversizedFrame)

def transact (request : Request) (requestID : UInt64) : Throwing Response := do
  match config.codec.serializedData request with
  | none => throw .encoding
  | some payload =>
    writeFrame payload
    let responsePayload ← readFrame config
    match config.codec.serializedBytes responsePayload with
    | none => throw (.own .malformedResponse)
    | some response =>
      if response.protocolVersion ≠ protocolVersion ∨ response.requestID ≠ requestID then
        throw (.own .responseMismatch)
      else if response.datasetSha256 ≠ config.expectedDatasetSHA256 then
        throw (.own .datasetMismatch)
      else return response

def pingRequest (requestID : UInt64) : Request where
  protocolVersion := protocolVersion
  requestID := requestID
  operation := .ping
  reading := []
  targetKeySize := 0
  maxCandidates := 0

def performHandshake : Throwing Unit := do
  let requestID ← (allocateRequestID : Step _)
  let response ← transact config (pingRequest requestID) requestID
  if !response.ok then throw (.own .helperRejected)
  else if response.candidates ≠ [] ∨ response.segmentKeySize ≠ 0 then
    throw (.own .malformedResponse)
  else pure ()

/-- The attempts that are left. -/
def removePrivateTemporaryDirectory (path : Text) : Nat → Step Bool
  | 0 => return false
  | attempts + 1 => do
    if !(← ask (.fileExists path)) then return true
    ask (.removeItem path)
    if !(← ask (.fileExists path)) then return true
    removePrivateTemporaryDirectory path attempts

def recordPrivateTemporaryDirectoryCleanupFailure : Step Unit :=
  Prog.modify fun client =>
    if client.temporaryDirectoryCleanupFailures < maximumRequestID then
      { client with
        temporaryDirectoryCleanupFailures := client.temporaryDirectoryCleanupFailures + 1 }
    else client

def discardDirectory (path : Text) : Step Unit := do
  if !(← removePrivateTemporaryDirectory path 8) then
    recordPrivateTemporaryDirectoryCleanupFailure

/-- Whether it is known that the process writes no more. -/
def stopChild : Option Nat → Step Bool
  | none => return true
  | some child => do
    if ← ask (.isRunning child) then
      match ← ask (.kill child) with
      | .delivered => ask (.waitForExit child)
      | .noSuchProcess => return true
      | .refused => return false
    else return true

def closeHandle : Option Nat → Step Unit
  | some descriptor => ask (.closeFile descriptor)
  | none => return ()

def terminateProcess : Step Unit := do
  let client ← Prog.read
  closeHandle client.inputHandle
  closeHandle client.outputHandle
  Prog.modify fun client =>
    { client with
      inputHandle := none, outputHandle := none, process := none, temporaryDirectoryPath := none }
  let childStoppedWriting ← stopChild client.process
  match client.temporaryDirectoryPath with
  | some path =>
    if childStoppedWriting then discardDirectory path
    else recordPrivateTemporaryDirectoryCleanupFailure
  | none => return ()

def template : Text := "/tmp/fcitx5-grimodex-mozc-XXXXXX".toList

def launch (directory : Text) : Launch where
  executable := config.helperPath
  arguments :=
    ["--data_file=".toList ++ config.dataPath,
      "--dataset_sha256=".toList ++ config.expectedDatasetSHA256]
  environment :=
    [("HOME".toList, "/nonexistent".toList), ("LANG".toList, "C.UTF-8".toList),
      ("LC_ALL".toList, "C.UTF-8".toList), ("PATH".toList, "/usr/bin:/bin".toList),
      ("TMPDIR".toList, directory)]

def startProcess : Throwing Unit := do
  match ← (ask (.mkdtemp template) : Step _) with
  | none => throw (.own .launchFailed)
  | some directory =>
    (Prog.modify fun client =>
      { client with temporaryDirectoryPath := some directory } : Step Unit)
    match ← (ask (.run (launch config directory)) : Step _) with
    | none =>
      (Prog.modify fun client => { client with temporaryDirectoryPath := none } : Step Unit)
      (discardDirectory directory : Step Unit)
      throw (.own .launchFailed)
    | some child =>
      (Prog.modify fun client =>
        { client with
          process := some child.processIdentifier
          inputHandle := some child.input
          outputHandle := some child.output
          processLaunchCount := client.processLaunchCount + 1 } : Step Unit)
      performHandshake config

/-- Whether there is a process that runs, with both its handles. -/
def hasProcess : Step Bool := do
  let client ← Prog.read
  match client.process with
  | some child =>
    return (← ask (.isRunning child)) && client.inputHandle.isSome &&
      client.outputHandle.isSome
  | none => return false

def ensureProcess : Throwing Unit := do
  if ← (hasProcess : Step Bool) then return ()
  (terminateProcess : Step Unit)
  startProcess config

/-- The guard of a request. -/
def Valid (reading : Text) (targetKeySize : Option Int) (maxCandidates : Int) : Prop :=
  reading ≠ [] ∧ utf8Count reading ≤ maximumReadingBytes ∧
    reading.length ≤ maximumReadingScalars ∧ 0 < maxCandidates ∧ maxCandidates ≤ 100 ∧
    (targetKeySize.map fun size => decide (0 < size)).getD true ∧ targetKeySize.getD 0 ≤ reading.length ∧
    targetKeySize.getD 0 ≤ maximumReadingScalars

instance (reading : Text) (targetKeySize : Option Int) (maxCandidates : Int) :
    Decidable (Valid reading targetKeySize maxCandidates) :=
  inferInstanceAs (Decidable (_ ∧ _))

def convertRequest (requestID : UInt64) (reading : Text) (targetKeySize : Option Int)
    (maxCandidates : Int) : Request where
  protocolVersion := protocolVersion
  requestID := requestID
  operation := .convert
  reading := reading
  targetKeySize := (targetKeySize.getD 0).toNat.toUInt32
  maxCandidates := maxCandidates.toNat.toUInt32

def coreCandidate (candidate : Candidate) : MozcCoreCandidate where
  value := candidate.value
  description := if candidate.description = [] then none else some candidate.description
  consumedKeySize := candidate.consumedKeySize.toNat

/-- What is read of a response to a request that was accepted. -/
def conversionOf (reading : Text) (targetKeySize : Option Int) (maxCandidates : Int)
    (response : Response) : Except MozcSidecarError MozcCoreConversion :=
  if !response.ok then .error .helperRejected
  else
    let segmentKeySize : Int := response.segmentKeySize.toNat
    if response.candidates ≠ [] ∧ (response.candidates.length : Int) ≤ maxCandidates ∧
        0 < segmentKeySize ∧ segmentKeySize ≤ reading.length ∧
        (targetKeySize = none ∨ targetKeySize = some segmentKeySize) then
      if response.candidates.all fun candidate =>
          candidate.value ≠ [] && ((candidate.consumedKeySize.toNat : Int) == segmentKeySize) then
        .ok ⟨response.candidates.map coreCandidate, segmentKeySize⟩
      else .error .malformedResponse
    else .error .malformedResponse

def convertOnce (reading : Text) (targetKeySize : Option Int) (maxCandidates : Int) :
    Throwing MozcCoreConversion := do
  ensureProcess config
  let requestID ← (allocateRequestID : Step _)
  let response ← transact config
    (convertRequest requestID reading targetKeySize maxCandidates) requestID
  match conversionOf reading targetKeySize maxCandidates response with
  | .ok conversion => return conversion
  | .error error => throw (.own error)

def convert (reading : Text) (targetKeySize : Option Int) (maxCandidates : Int) :
    Step (Except MozcSidecarError MozcCoreConversion) := do
  if Valid reading targetKeySize maxCandidates then
    match ← (convertOnce config reading targetKeySize maxCandidates).run with
    | .ok conversion => return .ok conversion
    | .error failure =>
      terminateProcess
      match failure with
      | .own error => return .error error
      | .encoding => return .error .malformedResponse
  else return .error .invalidRequest

def purgeSensitiveState : Step Unit := terminateProcess

end

/-- What the converter asks of its client. -/
inductive Operation
  | convert (reading : Text) (targetKeySize : Option Int) (maxCandidates : Int)
  | purgeSensitiveState

def perform (config : Configuration) :
    Operation → Step (Option (Except MozcSidecarError MozcCoreConversion))
  | .convert reading targetKeySize maxCandidates =>
    some <$> convert config reading targetKeySize maxCandidates
  | .purgeSensitiveState => (fun _ => none) <$> purgeSensitiveState

end MozcSidecarClient

end Hazkey
