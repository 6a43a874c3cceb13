import Hazkey.Timestamps

/-! The snapshot of the active project: how it is read, and the generations in which it is
published. -/

namespace Hazkey

namespace GrimodexProtocolLimits

def stateBytes : Nat := 65536
def projectBytes : Nat := 16777216
def profileScalars : Nat := 400
def zenzaiConditionScalars : Nat := 200
def converterConditionScalars : Nat := 25

end GrimodexProtocolLimits

structure GrimodexProjectConditions where
  topic : Option Text
  style : Option Text
  preference : Option Text
  deriving DecidableEq

def GrimodexProjectConditions.empty : GrimodexProjectConditions where
  topic := none
  style := none
  preference := none

structure GrimodexIntegrationPayload where
  projectID : Text
  projectName : Text
  dictionaryEntries : List GrimodexMappedDictionaryEntry
  conditions : GrimodexProjectConditions
  deriving DecidableEq

def GrimodexIntegrationPayload.dictionaryIndex (payload : GrimodexIntegrationPayload) :
    GrimodexProjectDictionaryIndex where
  entries := payload.dictionaryEntries

/-- What two payloads share if they are equal. -/
def GrimodexIntegrationPayload.spelled [CanonicalText] (payload : GrimodexIntegrationPayload) :
    GrimodexIntegrationPayload where
  projectID := CanonicalText.precomposed payload.projectID
  projectName := CanonicalText.precomposed payload.projectName
  dictionaryEntries := payload.dictionaryEntries.map (·.spelled)
  conditions :=
    { topic := payload.conditions.topic.map CanonicalText.precomposed
      style := payload.conditions.style.map CanonicalText.precomposed
      preference := payload.conditions.preference.map CanonicalText.precomposed }

inductive GrimodexLoadDiagnostic
  | loaded
  | inactive
  | missingState
  | missingSnapshot
  | invalidState
  | invalidSnapshot
  | stateChangedDuringRead
  deriving DecidableEq

def GrimodexLoadDiagnostic.isRetryable : GrimodexLoadDiagnostic → Bool
  | .missingSnapshot | .stateChangedDuringRead => true
  | .loaded | .inactive | .missingState | .invalidState | .invalidSnapshot => false

/-- A payload is what was loaded. -/
structure GrimodexLoadResult where
  payload : Option GrimodexIntegrationPayload
  diagnostic : GrimodexLoadDiagnostic
  loaded : payload ≠ none ↔ diagnostic = .loaded

structure GrimodexPublishedSnapshot where
  generation : Nat
  payload : Option GrimodexIntegrationPayload
  diagnostic : GrimodexLoadDiagnostic

/-! The files, and what is accepted of them. -/

structure GrimodexWireState where
  formatVersion : Int
  activeProjectID : Option Text
  updatedAt : Text

structure GrimodexWireZenzaiContext where
  topic : Text
  style : Option Text
  preference : Option Text

structure GrimodexWireProject where
  formatVersion : Int
  projectID : Text
  projectName : Text
  generatedAt : Text
  entries : List GrimodexWireEntry
  profile : Option Text
  zenzaiContext : Option GrimodexWireZenzaiContext

/-- The decoding of the files. -/
class SnapshotDecoder where
  decodeState : Data → Option GrimodexWireState
  decodeProject : Data → Option GrimodexWireProject

/-- What the file system answers at one time. -/
inductive FileContents
  | missing
  | unreadable
  | contents (data : Data)

structure GrimodexFileReading where
  read : String → Nat → FileContents

namespace GrimodexProtocolValidator

variable [RubyText]

def validState (state : GrimodexWireState) : Bool :=
  state.formatVersion = 1 && validTimestamp state.updatedAt = some true &&
    state.activeProjectID.all validProjectID

def validContext (context : GrimodexWireZenzaiContext) : Bool :=
  validText context.topic 1 GrimodexProtocolLimits.zenzaiConditionScalars &&
    (context.style.toList ++ context.preference.toList).all fun value =>
      validText value 0 GrimodexProtocolLimits.zenzaiConditionScalars

def validProject (project : GrimodexWireProject) (expectedProjectID : Text) : Bool :=
  project.formatVersion = 1 && sameKey project.projectID expectedProjectID &&
    validProjectID project.projectID &&
    validText project.projectName 1 GrimodexProtocolLimits.projectNameScalars &&
    validTimestamp project.generatedAt = some true &&
    project.entries.length ≤ GrimodexProtocolLimits.projectEntries &&
    project.profile.all (validText · 0 GrimodexProtocolLimits.profileScalars) &&
    project.zenzaiContext.all validContext && project.entries.all validEntry

end GrimodexProtocolValidator

namespace GrimodexSnapshotLoader

variable [SnapshotDecoder]

def failed (diagnostic : GrimodexLoadDiagnostic) (h : diagnostic ≠ .loaded) :
    GrimodexLoadResult where
  payload := none
  diagnostic := diagnostic
  loaded := iff_of_false (not_not.mpr rfl) h

def readState (reader : GrimodexFileReading) : FileContents :=
  reader.read "state.json" GrimodexProtocolLimits.stateBytes

def acceptedState (data : Data) : Option GrimodexWireState :=
  (SnapshotDecoder.decodeState data).filter GrimodexProtocolValidator.validState

def converterCondition (value : Text) : Text :=
  value.take GrimodexProtocolLimits.converterConditionScalars

def conditions (project : GrimodexWireProject) : GrimodexProjectConditions :=
  match project.zenzaiContext, project.profile with
  | some context, _ =>
    { topic := some (converterCondition context.topic)
      style := context.style.map converterCondition
      preference := context.preference.map converterCondition }
  | none, some profile =>
    if profile = [] then .empty
    else { GrimodexProjectConditions.empty with topic := some (converterCondition profile) }
  | none, none => .empty

variable [RubyText]

def acceptedProject (projectID : Text) (data : Data) : Option GrimodexWireProject :=
  (SnapshotDecoder.decodeProject data).filter
    (GrimodexProtocolValidator.validProject · projectID)

/-- The state is as it was before the project was read. -/
def unchanged (projectID : Text) : FileContents → Bool
  | .missing | .unreadable => false
  | .contents data => (acceptedState data).any fun state =>
    state.activeProjectID.any (sameKey · projectID)

def payload (process : GrimodexDictionaryMapper.Process) (project : GrimodexWireProject) :
    GrimodexIntegrationPayload where
  projectID := project.projectID
  projectName := project.projectName
  dictionaryEntries := GrimodexDictionaryMapper.map process project.entries
  conditions := conditions project

/-- The project and the state again, once the state has named the project. -/
def loadProject (process : GrimodexDictionaryMapper.Process) (second third : GrimodexFileReading)
    (projectID : Text) : GrimodexLoadResult :=
  match second.read ("projects/" ++ String.ofList projectID ++ ".json")
      GrimodexProtocolLimits.projectBytes with
  | .missing => failed .missingSnapshot (by decide)
  | .unreadable => failed .invalidSnapshot (by decide)
  | .contents data =>
    match acceptedProject projectID data with
    | none => failed .invalidSnapshot (by decide)
    | some project =>
      if unchanged projectID (readState third) then
        { payload := some (payload process project)
          diagnostic := .loaded
          loaded := iff_of_true (Option.some_ne_none _) rfl }
      else failed .stateChangedDuringRead (by decide)

/-- The three reads of a load, each of the files as they are then. -/
def load (process : GrimodexDictionaryMapper.Process) (first second third : GrimodexFileReading) :
    GrimodexLoadResult :=
  match readState first with
  | .missing => failed .missingState (by decide)
  | .unreadable => failed .invalidState (by decide)
  | .contents data =>
    match acceptedState data with
    | none => failed .invalidState (by decide)
    | some state =>
      match state.activeProjectID with
      | none => failed .inactive (by decide)
      | some projectID => loadProject process second third projectID

end GrimodexSnapshotLoader

structure GrimodexSnapshotManager where
  consecutiveRetryableFailures : Nat
  published : GrimodexPublishedSnapshot

namespace GrimodexSnapshotManager

def initial : GrimodexSnapshotManager where
  consecutiveRetryableFailures := 0
  published := { generation := 0, payload := none, diagnostic := .inactive }

variable [CanonicalText]

def samePayload (payload other : Option GrimodexIntegrationPayload) : Bool :=
  payload.map (·.spelled) = other.map (·.spelled)

/-- The generation is a 64-bit word, and wraps. -/
def publish (published : GrimodexPublishedSnapshot) (result : GrimodexLoadResult) :
    GrimodexPublishedSnapshot where
  generation :=
    if samePayload published.payload result.payload then published.generation
    else (published.generation + 1) % 18446744073709551616
  payload := result.payload
  diagnostic := result.diagnostic

def reload (manager : GrimodexSnapshotManager) (result : GrimodexLoadResult) :
    GrimodexSnapshotManager :=
  if result.diagnostic.isRetryable then
    if manager.consecutiveRetryableFailures + 1 = 1 then
      { consecutiveRetryableFailures := manager.consecutiveRetryableFailures + 1
        published := { manager.published with diagnostic := result.diagnostic } }
    else
      { consecutiveRetryableFailures := manager.consecutiveRetryableFailures + 1
        published := publish manager.published result }
  else
    { consecutiveRetryableFailures := 0
      published := publish manager.published result }

def reloads (manager : GrimodexSnapshotManager) (results : List GrimodexLoadResult) :
    GrimodexSnapshotManager :=
  results.foldl reload manager

end GrimodexSnapshotManager

end Hazkey
