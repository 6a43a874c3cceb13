import Hazkey.Composition
import Hazkey.ServiceProgram

/-! The converter port: the pinned policy of a composition, what the reducer
sends to a converter and what comes back. -/

namespace Hazkey

inductive CandidateProvenance
  | standard
  | personalDictionary
  | projectDictionary
  | temporaryDictionary
  | zenzai
  | builtInGuard
  | unknown
  deriving DecidableEq, Repr

/-- A decoded candidate may carry any count, so none is assumed here. -/
structure ConverterCandidate where
  text : Text
  annotation : Option Text := none
  consumingCount : Int
  sourceID : Option Text := none
  provenance : CandidateProvenance := .unknown
  isLearnable : Bool := true
  deriving DecidableEq

structure ConverterLearningToken where
  rawValue : Text
  deriving DecidableEq

inductive LearningOrigin
  | liveConversion
  | directCommit
  | explicitConversion
  deriving DecidableEq, Repr

structure ConversionOutput where
  candidates : List ConverterCandidate
  pageSize : Int
  deriving DecidableEq

structure RealtimeConversionOutput where
  liveCandidate : Option ConverterCandidate
  candidates : List ConverterCandidate
  pageSize : Int
  deriving DecidableEq

/-- Identifies speculative converter work; not the published revision. -/
structure CompositionRevision where
  rawValue : UInt64
  deriving DecidableEq

inductive SpeculationInvalidationReason
  | edit
  | cursorMove
  | segmentResize
  | commit
  | cancel
  | dictionaryChange
  | restore
  | lifecycle
  | secureTransition
  deriving DecidableEq, Repr

inductive ImeAutoConvertMode
  | disabled
  | always
  | forMultipleChars
  deriving DecidableEq, Repr

inductive ImeSuggestionListMode
  | disabled
  | normal
  | predictive
  deriving DecidableEq, Repr

inductive ImeAuxTextMode
  | disabled
  | always
  | whenCursorNotAtEnd
  deriving DecidableEq, Repr

structure DirectCommitTargetSet where
  rawValue : UInt32
  deriving DecidableEq

namespace DirectCommitTargetSet

def comma : DirectCommitTargetSet := ⟨1⟩
def period : DirectCommitTargetSet := ⟨2⟩
def question : DirectCommitTargetSet := ⟨4⟩
def exclamation : DirectCommitTargetSet := ⟨8⟩
def initial : DirectCommitTargetSet := ⟨0⟩

def isEmpty (t : DirectCommitTargetSet) : Bool := t.rawValue == 0

def containsTarget (t u : DirectCommitTargetSet) : Bool := t.rawValue &&& u.rawValue == u.rawValue

/-- `contains(renderedSuffix:)` at a suffix of one scalar, as its caller builds it. -/
def contains (t : DirectCommitTargetSet) (scalar : Char) : Bool :=
  if scalar.toNat = 0x3001 then t.containsTarget comma
  else if scalar.toNat = 0x3002 then t.containsTarget period
  else if scalar.toNat = 0xFF1F ∨ scalar.toNat = 0x003F then t.containsTarget question
  else if scalar.toNat = 0xFF01 ∨ scalar.toNat = 0x0021 then t.containsTarget exclamation
  else false

end DirectCommitTargetSet

def clampSuggestionListLimit (value : Int) : Int := min (max value 1) 10

structure PinnedCompositionPolicy where
  allowsLearning : Bool
  secureInput : Bool
  zenzaiEnabled : Bool
  projectRevision : UInt64
  autoConvertMode : ImeAutoConvertMode := .disabled
  liveConversionDelayMilliseconds : UInt32 := 228
  suggestionListMode : ImeSuggestionListMode := .predictive
  suggestionListLimit : Int := 9
  suggestionListLimitWasPresentInEncodedPolicy : Bool := true
  auxTextMode : ImeAuxTextMode := .whenCursorNotAtEnd
  directCommitTargets : DirectCommitTargetSet := .initial
  inputTableName : Option Text := none
  keymap : Keymap := []
  suggestionListLimit_supported : clampSuggestionListLimit suggestionListLimit =
    suggestionListLimit := by decide
  deriving DecidableEq

namespace PinnedCompositionPolicy

/-- The source's default policy. -/
def standard : PinnedCompositionPolicy where
  allowsLearning := true
  secureInput := false
  zenzaiEnabled := true
  projectRevision := 0

theorem clampSuggestionListLimit_idem (value : Int) :
    clampSuggestionListLimit (clampSuggestionListLimit value) = clampSuggestionListLimit value := by
  unfold clampSuggestionListLimit
  omega

def rebindLegacySuggestionListLimit (p : PinnedCompositionPolicy) (currentValue : Int) :
    PinnedCompositionPolicy :=
  if p.suggestionListLimitWasPresentInEncodedPolicy then p
  else
    { p with
      suggestionListLimit := clampSuggestionListLimit currentValue
      suggestionListLimitWasPresentInEncodedPolicy := true
      suggestionListLimit_supported := clampSuggestionListLimit_idem currentValue }

@[simp] theorem secureInput_rebind (p : PinnedCompositionPolicy) (l : Int) :
    (p.rebindLegacySuggestionListLimit l).secureInput = p.secureInput := by
  unfold rebindLegacySuggestionListLimit
  split <;> rfl

@[simp] theorem projectRevision_rebind (p : PinnedCompositionPolicy) (l : Int) :
    (p.rebindLegacySuggestionListLimit l).projectRevision = p.projectRevision := by
  unfold rebindLegacySuggestionListLimit
  split <;> rfl

@[simp] theorem keymap_rebind (p : PinnedCompositionPolicy) (l : Int) :
    (p.rebindLegacySuggestionListLimit l).keymap = p.keymap := by
  unfold rebindLegacySuggestionListLimit
  split <;> rfl

end PinnedCompositionPolicy

structure ConversionOptions where
  allowLearning : Bool
  zenzaiEnabled : Bool
  secureInput : Bool
  leftContext : Text
  rightContext : Text
  suggestionListMode : ImeSuggestionListMode
  suggestionListLimit : Int
  deriving DecidableEq

/-- A reducer leaves the learning revision at zero; a converter that keeps one
puts its own in place. -/
structure SpeculativeConversionContext where
  revision : CompositionRevision
  input : CompositionInput
  options : ConversionOptions
  projectRevision : UInt64
  learningRevision : UInt64 := 0
  deriving DecidableEq

structure CompositionDisplay where
  text : Text
  caretUtf8ByteOffset : Nat
  deriving DecidableEq

/-- The methods of the converter protocol. -/
inductive ConverterCall
  | supportsSegmentEditing
  | display (composition : CompositionInput)
  | inputCursorPosition (composition : CompositionInput) (offset : Int)
  | candidates (composition : CompositionInput) (options : ConversionOptions)
  | segmentCandidates (composition : CompositionInput) (options : ConversionOptions)
  | realtimeCandidates (composition : CompositionInput) (options : ConversionOptions)
  | predictions (composition : CompositionInput) (options : ConversionOptions)
  | setCompletedData (candidate : ConverterCandidate)
  | updateLearningData (candidate : ConverterCandidate)
  | commitLearning
  | stageLearning (candidate : ConverterCandidate) (reading : Text)
  | commitStagedLearning (token : ConverterLearningToken)
  | discardStagedLearning (token : ConverterLearningToken)
  | forget (candidate : ConverterCandidate)
  | stopComposition
  | purgeSensitiveState
  | prepareSpeculativeConversion (context : SpeculativeConversionContext)
  | invalidateSpeculativeConversion (reason : SpeculationInvalidationReason)
  | lockCandidateOrder (revision : CompositionRevision)
  | retireCandidateWindow
  deriving DecidableEq

/-- A method that throws answers with the description of its error. -/
abbrev ConverterCall.Answer : ConverterCall → Type
  | .supportsSegmentEditing => Bool
  | .display _ => CompositionDisplay
  | .inputCursorPosition _ _ => Int
  | .candidates _ _ => Except String ConversionOutput
  | .segmentCandidates _ _ => Except String ConversionOutput
  | .predictions _ _ => Except String ConversionOutput
  | .realtimeCandidates _ _ => Except String RealtimeConversionOutput
  | .stageLearning _ _ => Option ConverterLearningToken
  | _ => Unit

abbrev converterPort : ServiceProgram.Interface := ⟨ConverterCall, ConverterCall.Answer⟩

/-! The port's default methods, and the converter of the source that has no others. -/

def CompositionInput.boundedCursor (c : CompositionInput) : Nat :=
  (min (max c.cursor 0) c.elements.length).toNat

def defaultDisplay (c : CompositionInput) : CompositionDisplay where
  text := (c.elements.map (·.text)).flatten
  caretUtf8ByteOffset := ((c.elements.take c.boundedCursor).map fun e => utf8Count e.text).sum

def defaultInputCursorPosition (c : CompositionInput) (offset : Int) : Int :=
  min (max (c.boundedCursor + offset) 0) c.elements.length

def noopCandidates (c : CompositionInput) : ConversionOutput :=
  if c.elements = [] then ⟨[], 0⟩
  else
    let targetCount := min (max (c.targetCount.getD c.elements.length) 1) c.elements.length
    ⟨[{ text := ((c.elements.take targetCount).map (·.text)).flatten
        consumingCount := targetCount }], 1⟩

/-- `NoopKanaKanjiConverter`; it keeps no state. -/
def noopConverter : (c : ConverterCall) → Unit → c.Answer × Unit
  | .supportsSegmentEditing, w => (true, w)
  | .display c, w => (defaultDisplay c, w)
  | .inputCursorPosition c offset, w => (defaultInputCursorPosition c offset, w)
  | .candidates c _, w => (.ok (noopCandidates c), w)
  | .segmentCandidates c _, w => (.ok (noopCandidates c), w)
  | .realtimeCandidates c _, w =>
    let output := noopCandidates c
    (.ok ⟨output.candidates.head?, output.candidates, output.pageSize⟩, w)
  | .predictions _ _, w => (.ok ⟨[], 0⟩, w)
  | .stageLearning _ _, w => (none, w)
  | .setCompletedData _, w => ((), w)
  | .updateLearningData _, w => ((), w)
  | .commitLearning, w => ((), w)
  | .commitStagedLearning _, w => ((), w)
  | .discardStagedLearning _, w => ((), w)
  | .forget _, w => ((), w)
  | .stopComposition, w => ((), w)
  | .purgeSensitiveState, w => ((), w)
  | .prepareSpeculativeConversion _, w => ((), w)
  | .invalidateSpeculativeConversion _, w => ((), w)
  | .lockCandidateOrder _, w => ((), w)
  | .retireCandidateWindow, w => ((), w)

end Hazkey
