import Hazkey.CompositionSurface
import Hazkey.FirstOccurrences
import Hazkey.ProjectDictionary
import Hazkey.ProtectedSurfaces

/-! The converter that takes its candidates from the Mozc core, and puts those of the
dictionaries before them. -/

namespace Hazkey

open FirstOccurrences CompositionSurface

section

variable [RubyText]

structure MozcDictionaryCandidateOverlay where
  projectIndex : GrimodexProjectDictionaryIndex := {}
  userIndex : UserDictionaryCandidateIndex := {}

namespace MozcDictionaryCandidateOverlay

def isEmpty (overlay : MozcDictionaryCandidateOverlay) : Bool :=
  overlay.projectIndex.entries = [] && overlay.userIndex.entries = []

def hasEntries (overlay : MozcDictionaryCandidateOverlay) (reading : Text) : Bool :=
  overlay.projectIndex.entriesForRuby (canonicalRuby reading) ≠ [] ||
    overlay.userIndex.entriesForRuby (canonicalRuby reading) ≠ []

/-- By priority, and then in the order of the dictionary. -/
def projectEntries (overlay : MozcDictionaryCandidateOverlay) (reading : Text) :
    List IndexedEntry :=
  (overlay.projectIndex.entriesForRuby (canonicalRuby reading)).insertionSort fun left right =>
    left.entry.priority > right.entry.priority ∨
      left.entry.priority = right.entry.priority ∧ left.order ≤ right.order

def provenance : UserDictionaryLayer → CandidateProvenance
  | .system => .standard
  | .personal => .personalDictionary
  | .project => .projectDictionary
  | .temporary => .temporaryDictionary

def projectCandidate (consumingCount : Int) (indexed : IndexedEntry) : ConverterCandidate :=
  .make indexed.entry.word none consumingCount .projectDictionary

def userCandidate (consumingCount : Int) (entry : UserDictionaryEntry) : ConverterCandidate :=
  .make (RubyText.compatibility entry.surface) none consumingCount (provenance entry.layer)

/-- Before those of one text are dropped. -/
def offered (overlay : MozcDictionaryCandidateOverlay) (reading : Text) (consumingCount : Int) :
    List ConverterCandidate :=
  (overlay.projectEntries reading).map (projectCandidate consumingCount) ++
    (overlay.userIndex.entriesForRuby (canonicalRuby reading)).map (userCandidate consumingCount)

end MozcDictionaryCandidateOverlay

/-- Of canonically equivalent texts the first is kept. -/
def distinctTexts (candidates : List ConverterCandidate) : List ConverterCandidate :=
  firsts (fun candidate => CanonicalText.precomposed candidate.text) [] candidates

def MozcDictionaryCandidateOverlay.candidates (overlay : MozcDictionaryCandidateOverlay)
    (reading : Text) (consumingCount : Int) : List ConverterCandidate :=
  distinctTexts (overlay.offered reading consumingCount)

end

structure MozcCoreCandidate where
  value : Text
  description : Option Text
  consumedKeySize : Int

structure MozcCoreConversion where
  candidates : List MozcCoreCandidate
  segmentKeySize : Int

inductive MozcConverterAdapterError (E : Type)
  | unstableInputBoundary
  | invalidCoreResponse
  | core (error : E)

/-- The core answers for a reading, the size of the segment if it is given, and the number of
candidates. -/
structure MozcKanaKanjiConverterAdapter (E : Type) where
  core : Text → Option Int → Int → Except E MozcCoreConversion
  mappedInputStyle : InputStyle := .roman2kana
  overlay : MozcDictionaryCandidateOverlay := {}

namespace MozcKanaKanjiConverterAdapter

variable {E : Type} [RubyText] [SwiftText] [ComposingRuntime]

open ComposingRuntime

def mappedCandidate (segmentKeySize consumingCount : Int) (item : MozcCoreCandidate) :
    Except (MozcConverterAdapterError E) ConverterCandidate :=
  if item.consumedKeySize = segmentKeySize ∧ item.value ≠ [] then
    .ok (.make item.value item.description consumingCount .standard)
  else .error .invalidCoreResponse

/-- What the dictionaries have for the segment, the guards, and what the core found. -/
def mergedCandidates (overlay : MozcDictionaryCandidateOverlay) (segmentReading : Text)
    (consumingCount : Int) (mapped : List ConverterCandidate) : List ConverterCandidate :=
  distinctTexts (overlay.candidates segmentReading consumingCount ++
    GrimodexBuiltInGuardDictionary.candidates segmentReading consumingCount ++
    mapped.filter fun x => ProtectedSurfacePolicy.allows x segmentReading)

def emptyOutput : ConversionOutput := ⟨[], 0⟩

variable (adapter : MozcKanaKanjiConverterAdapter E)

def composing (composition : CompositionInput) : ComposingText :=
  composingText adapter.mappedInputStyle composition

def conversionOutput (composition : CompositionInput) (reading : Text)
    (targetKeySize : Option Int) (options : ConversionOptions) :
    Except (MozcConverterAdapterError E) ConversionOutput := do
  let limit := clampSuggestionListLimit options.suggestionListLimit
  match adapter.core reading targetKeySize limit with
  | .error error => .error (.core error)
  | .ok result =>
    match if 0 < result.segmentKeySize then
        CompositionSurface.inputCount (adapter.composing composition) result.segmentKeySize
      else none with
    | none => .error .invalidCoreResponse
    | some segmentInputCount =>
      if (targetKeySize.any fun size => size ≠ result.segmentKeySize) = true then
        .error .invalidCoreResponse
      else
        let segmentReading := reading.take result.segmentKeySize.toNat
        let mapped ← result.candidates.mapM
          (mappedCandidate result.segmentKeySize segmentInputCount)
        let candidates := (mergedCandidates adapter.overlay segmentReading segmentInputCount
          mapped).take limit.toNat
        pure ⟨candidates, min limit candidates.length⟩

/-- The number of elements that is asked for. -/
def requestedInputCount (composition : CompositionInput) : Int :=
  min (max (composition.targetCount.getD composition.elements.length : Int) 1)
    composition.elements.length

def candidates (composition : CompositionInput) (options : ConversionOptions) :
    Except (MozcConverterAdapterError E) ConversionOutput :=
  if options.secureInput = true ∨ composition.elements = [] ∨
      convertTarget (adapter.composing composition) = [] then .ok emptyOutput
  else
    match keySize (adapter.composing composition) composition.elements.length
        (requestedInputCount composition) with
    | none => .error .unstableInputBoundary
    | some targetKeySize =>
      if 0 < targetKeySize then
        adapter.conversionOutput composition (convertTarget (adapter.composing composition))
          (some targetKeySize) options
      else .error .unstableInputBoundary

/-- The key sizes of the boundaries before which a dictionary has an entry. -/
def entrySizes (composition : CompositionInput) (reading : Text) : List Int :=
  ((stableKeySizeBoundaries (adapter.composing composition)).filter fun b =>
    0 < b.keySize && adapter.overlay.hasEntries (reading.take b.keySize.toNat)).map (·.keySize)

def preferredOverlayTargetKeySize (composition : CompositionInput) (reading : Text) :
    Option Int :=
  if composition.elements = [] ∨ adapter.overlay.isEmpty = true then none
  else (adapter.entrySizes composition reading).max?

def segmentCandidates (composition : CompositionInput) (options : ConversionOptions) :
    Except (MozcConverterAdapterError E) ConversionOutput :=
  if options.secureInput = true ∨ composition.elements = [] ∨
      convertTarget (adapter.composing composition) = [] then .ok emptyOutput
  else
    adapter.conversionOutput composition (convertTarget (adapter.composing composition))
      (adapter.preferredOverlayTargetKeySize composition
        (convertTarget (adapter.composing composition))) options

end MozcKanaKanjiConverterAdapter

end Hazkey
