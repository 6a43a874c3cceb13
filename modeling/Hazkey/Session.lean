import Hazkey.Port

/-! The composition session, its recovery checkpoint and its snapshot. -/

namespace Hazkey

structure CandidateSnapshot where
  id : Text
  text : Text
  annotation : Option Text
  consumingCount : Nat
  sourceID : Option Text
  provenance : CandidateProvenance
  isLearnable : Bool
  deriving DecidableEq

/-- The decimal numeral of an interpolated integer. -/
def decimal (n : Nat) : Text := Nat.toDigits 10 n

def candidateID (generation : UInt64) (index : Nat) : Text :=
  decimal generation.toNat ++ '-' :: decimal index

structure CandidateWindowSnapshot where
  generation : UInt64
  items : List CandidateSnapshot
  selectedIndex : Option Nat
  pageSize : Int
  deriving DecidableEq

def CandidateWindowSnapshot.empty : CandidateWindowSnapshot := ⟨0, [], none, 0⟩

inductive CandidateSetOrigin
  | conversion
  | prediction
  deriving DecidableEq, Repr

structure CandidateSet where
  generation : UInt64
  items : List CandidateSnapshot
  selectedIndex : Option Nat
  pageSize : Int
  origin : CandidateSetOrigin
  liveCandidate : Option CandidateSnapshot
  deriving DecidableEq

namespace CandidateSet

def snapshot (c : CandidateSet) : CandidateWindowSnapshot :=
  ⟨c.generation, c.items, c.selectedIndex, c.pageSize⟩

def selectedCandidate (c : CandidateSet) : Option CandidateSnapshot :=
  c.selectedIndex.bind fun i => c.items[i]?

end CandidateSet

/-- Candidate state stays with its segment while the focus moves. -/
structure CompositionSegment where
  inputCount : Nat
  candidates : CandidateSet
  deriving DecidableEq

def CompositionSegment.selectedCandidate (s : CompositionSegment) : Option CandidateSnapshot :=
  s.candidates.selectedCandidate

structure ReconversionReplacement where
  before : Int
  after : Int
  deriving DecidableEq

structure MaterializedLivePrefix where
  text : Text
  consumedElementCount : Nat
  sourceElements : List CompositionElement
  sourceReading : Text
  candidate : Option CandidateSnapshot
  deriving DecidableEq

structure LivePresentationState where
  materializedPrefix : Option MaterializedLivePrefix
  pendingRevision : Option UInt64
  deriving DecidableEq

def LivePresentationState.empty : LivePresentationState := ⟨none, none⟩

structure PendingLearningTransaction where
  token : ConverterLearningToken
  reading : Text
  surface : Text
  origin : LearningOrigin
  createdRevision : UInt64
  deriving DecidableEq

structure RecoveryCheckpoint where
  revision : UInt64
  phase : ImePhase
  composition : CompositionBuffer
  nextCandidateGeneration : UInt64
  nextEffectID : UInt64
  leftContext : Text
  rightContext : Text
  policy : PinnedCompositionPolicy
  reconversionReplacement : Option ReconversionReplacement
  unicodeInputBuffer : Option Text
  phaseBeforeUnicodeInput : Option ImePhase
  deriving DecidableEq

/-- The checkpoint with the marker that every decoded policy which carries its limit has. -/
def RecoveryCheckpoint.decoded (c : RecoveryCheckpoint) : RecoveryCheckpoint :=
  { c with policy := { c.policy with suggestionListLimitWasPresentInEncodedPolicy := true } }

/-- Checkpoints as bytes. The encoding is lossless but for the marker above,
which it does not carry. -/
class RecoveryCodec where
  encode : RecoveryCheckpoint → Data
  decode : Data → Option RecoveryCheckpoint
  decode_encode : ∀ c, decode (encode c) = some c.decoded

/-- Secure input checkpoints are never persisted. -/
def RecoveryCheckpoint.persistedData [RecoveryCodec] (c : RecoveryCheckpoint)
    (isSecureInput : Bool) : Option Data :=
  if isSecureInput then none else some (RecoveryCodec.encode c)

structure SessionContext where
  leftContext : Text
  rightContext : Text
  projectRevision : UInt64
  deriving DecidableEq

structure CompositionSession where
  phase : ImePhase
  composingText : CompositionBuffer
  activeBoundary : Option Nat
  candidates : Option CandidateSet
  segments : List CompositionSegment
  activeSegmentIndex : Option Nat
  revision : UInt64
  nextCandidateGeneration : UInt64
  nextEffectID : UInt64
  context : SessionContext
  policy : PinnedCompositionPolicy
  recoveryCheckpoint : Option RecoveryCheckpoint
  reconversionReplacement : Option ReconversionReplacement
  unicodeInputBuffer : Text
  phaseBeforeUnicodeInput : Option ImePhase
  livePresentation : LivePresentationState
  pendingLearningTransactions : List PendingLearningTransaction
  deriving DecidableEq

namespace CompositionSession

/-- A fresh session. -/
def initial (policy : PinnedCompositionPolicy) : CompositionSession where
  phase := .idle
  composingText := .empty
  activeBoundary := none
  candidates := none
  segments := []
  activeSegmentIndex := none
  revision := 0
  nextCandidateGeneration := 0
  nextEffectID := 1
  context := ⟨[], [], policy.projectRevision⟩
  policy := policy
  recoveryCheckpoint := none
  reconversionReplacement := none
  unicodeInputBuffer := []
  phaseBeforeUnicodeInput := none
  livePresentation := .empty
  pendingLearningTransactions := []

/-- The checkpoint of the session as it is. -/
def checkpoint (s : CompositionSession) : RecoveryCheckpoint where
  revision := s.revision
  phase := s.phase
  composition := s.composingText
  nextCandidateGeneration := s.nextCandidateGeneration
  nextEffectID := s.nextEffectID
  leftContext := s.context.leftContext
  rightContext := s.context.rightContext
  policy := s.policy
  reconversionReplacement := s.reconversionReplacement
  unicodeInputBuffer := some s.unicodeInputBuffer
  phaseBeforeUnicodeInput := s.phaseBeforeUnicodeInput

/-- Secure text must not survive even in an in-memory checkpoint. -/
def advanceRevision (s : CompositionSession) : CompositionSession :=
  let s := { s with revision := s.revision + 1 }
  { s with recoveryCheckpoint := if s.policy.secureInput then none else some s.checkpoint }

end CompositionSession

inductive PreeditStyle
  | plain
  | underline
  | active
  deriving DecidableEq, Repr

structure PreeditSpan where
  text : Text
  style : PreeditStyle
  deriving DecidableEq

inductive ClientEffect
  | commitText (effectID : UInt64) (text : Text)
  | deleteSurroundingText (effectID : UInt64) (before after : Int)
  | switchInputMode (effectID : UInt64) (mode : String)
  | notify (effectID : UInt64) (message : String)
  | scheduleLiveConversion (effectID : UInt64) (delayMilliseconds : UInt32)
      (scheduledRevision : UInt64)
  deriving DecidableEq

def ClientEffect.effectID : ClientEffect → UInt64
  | .commitText i _ => i
  | .deleteSurroundingText i _ _ => i
  | .switchInputMode i _ => i
  | .notify i _ => i
  | .scheduleLiveConversion i _ _ => i

structure SessionSnapshot where
  revision : UInt64
  phase : ImePhase
  preedit : List PreeditSpan
  caretUtf8ByteOffset : Option Nat
  candidateWindow : CandidateWindowSnapshot
  aux : Option Text
  pendingLearning : Bool
  recovery : Option RecoveryCheckpoint
  effects : List ClientEffect
  deriving DecidableEq

inductive ImeReductionStatus
  | success
  | staleRevision
  | staleCandidate
  | invalidAction
  | converterUnavailable
  | secureInputViolation
  deriving DecidableEq, Repr

structure ImeReductionResult where
  status : ImeReductionStatus
  message : Option String
  snapshot : SessionSnapshot
  deriving DecidableEq

inductive ImeLifecycleEvent
  | deactivate
  | focusChanged
  | capabilityChanged (clientPreedit : Bool)
  | secureInputChanged (secure : Bool)
  | serverRestarted
  deriving DecidableEq, Repr

inductive ImeAction
  | insertText (text : Text)
  | deleteBackward
  | deleteForward
  | moveCursor (offset : Int)
  | moveCursorToStart
  | moveCursorToEnd
  | startConversion
  | navigateCandidate (delta : Int)
  | navigateCandidatePage (delta : Int)
  | resizeSegment (delta : Int)
  | moveActiveSegment (delta : Int)
  | applyLiveConversion (scheduledRevision : UInt64)
  | resolvePendingLearning (commit : Bool)
  | commitSelected
  | commitAll
  | cancel
  | selectCandidate (id : Text) (generation : UInt64)
  | transformActiveSegment (transform : ImeTextTransform)
  | forgetCandidate (id : Text) (generation : UInt64)
  | reconvert (text leftContext rightContext : Text) (deleteBefore deleteAfter : Int)
  | beginUnicodeInput
  | appendUnicodeDigit (digit : Text)
  | commitUnicodeInput
  | updateContext (leftContext rightContext : Text)
  | restoreCheckpoint (data : Data)
  | lifecycle (event : ImeLifecycleEvent)
  deriving DecidableEq

end Hazkey
