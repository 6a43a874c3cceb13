import Hazkey.KeyedCoding
import Hazkey.Session
import Hazkey.CompositionSurface

/-! The hand-written Codable conformances of the semantic actions. Encoder and
decoder are compared with one table: the kind of each constructor and the
fields its payload carries. -/

namespace Hazkey

open KeyedCoding CompositionSurface

/-- A Swift Int. -/
def int64 : Coding Int := integer minInt maxInt

/-! ## Text transforms and lifecycle events -/

def ImeTextTransform.raws : RawRepresentable ImeTextTransform where
  allCases := [.hiragana, .katakanaFullwidth, .katakanaHalfwidth, .alphabetFullwidth,
    .alphabetHalfwidth]
  rawValue
    | .hiragana => "hiragana".toList
    | .katakanaFullwidth => "katakanaFullwidth".toList
    | .katakanaHalfwidth => "katakanaHalfwidth".toList
    | .alphabetFullwidth => "alphabetFullwidth".toList
    | .alphabetHalfwidth => "alphabetHalfwidth".toList
  complete a := by cases a <;> simp
  distinct := by
    simp only [List.map_cons, List.map_nil, List.nodup_cons, List.mem_cons, List.not_mem_nil,
      List.nodup_nil, String.toList_inj, String.reduceEq, or_false, not_false_eq_true, and_self]

inductive ImeLifecycleEvent.CodingKeys
  | type
  | clientPreedit
  | secureInput
  deriving DecidableEq

inductive ImeLifecycleEvent.Kind
  | deactivate
  | focusChanged
  | capabilityChanged
  | secureInputChanged
  | serverRestarted
  deriving DecidableEq

def ImeLifecycleEvent.CodingKeys.raws : RawRepresentable ImeLifecycleEvent.CodingKeys where
  allCases := [.type, .clientPreedit, .secureInput]
  rawValue
    | .type => "type".toList
    | .clientPreedit => "clientPreedit".toList
    | .secureInput => "secureInput".toList
  complete a := by cases a <;> simp
  distinct := by
    simp only [List.map_cons, List.map_nil, List.nodup_cons, List.mem_cons, List.not_mem_nil,
      List.nodup_nil, String.toList_inj, String.reduceEq, or_false, not_false_eq_true, and_self]

def ImeLifecycleEvent.Kind.raws : RawRepresentable ImeLifecycleEvent.Kind where
  allCases := [.deactivate, .focusChanged, .capabilityChanged, .secureInputChanged,
    .serverRestarted]
  rawValue
    | .deactivate => "deactivate".toList
    | .focusChanged => "focusChanged".toList
    | .capabilityChanged => "capabilityChanged".toList
    | .secureInputChanged => "secureInputChanged".toList
    | .serverRestarted => "serverRestarted".toList
  complete a := by cases a <;> simp
  distinct := by
    simp only [List.map_cons, List.map_nil, List.nodup_cons, List.mem_cons, List.not_mem_nil,
      List.nodup_nil, String.toList_inj, String.reduceEq, or_false, not_false_eq_true, and_self]

namespace ImeLifecycleEvent

def CodingKeys.stringValue (key : CodingKeys) : Text := CodingKeys.raws.rawValue key

def field {α : Type} (container : Container) (C : Coding α) (forKey : CodingKeys) :
    Except DecodingError α :=
  container.decode C forKey.stringValue

/-- The switch over the kind read from the container. -/
def decodeAs (container : Container) : Kind → Except DecodingError ImeLifecycleEvent
  | .deactivate => return .deactivate
  | .focusChanged => return .focusChanged
  | .capabilityChanged =>
    return .capabilityChanged (← field container boolean .clientPreedit)
  | .secureInputChanged =>
    return .secureInputChanged (← field container boolean .secureInput)
  | .serverRestarted => return .serverRestarted

def decode (payload : Coded) : Except DecodingError ImeLifecycleEvent := do
  let container ← payload.container
  decodeAs container (← field container (raw Kind.raws) .type)

def put {α : Type} (C : Coding α) (value : α) (forKey : CodingKeys) (container : Container) :
    Container :=
  container.encode (C.encode value) forKey.stringValue

def tagged (kind : Kind) : Container := Container.empty |> put (raw Kind.raws) kind .type

def encode (event : ImeLifecycleEvent) : Coded :=
  .object <| match event with
    | .deactivate => tagged .deactivate
    | .focusChanged => tagged .focusChanged
    | .capabilityChanged clientPreedit =>
      tagged .capabilityChanged |> put boolean clientPreedit .clientPreedit
    | .secureInputChanged secureInput =>
      tagged .secureInputChanged |> put boolean secureInput .secureInput
    | .serverRestarted => tagged .serverRestarted

def coding : Coding ImeLifecycleEvent := ⟨encode, decode⟩

end ImeLifecycleEvent

/-- The payload names the kind of the event and holds its flag. -/
def ImeLifecycleEvent.Matches (payload : Coded) (event : ImeLifecycleEvent) : Prop :=
  ∃ fields, payload = .object fields ∧
    match event with
    | .deactivate => fields "type".toList = some (.string "deactivate".toList)
    | .focusChanged => fields "type".toList = some (.string "focusChanged".toList)
    | .capabilityChanged clientPreedit =>
      fields "type".toList = some (.string "capabilityChanged".toList) ∧
        fields "clientPreedit".toList = some (.bool clientPreedit)
    | .secureInputChanged secure =>
      fields "type".toList = some (.string "secureInputChanged".toList) ∧
        fields "secureInput".toList = some (.bool secure)
    | .serverRestarted => fields "type".toList = some (.string "serverRestarted".toList)

/-! ## Actions -/

inductive ImeAction.CodingKeys
  | type
  | text
  | offset
  | id
  | generation
  | transform
  | lifecycle
  | leftContext
  | rightContext
  | deleteBefore
  | deleteAfter
  | data
  | scheduledRevision
  | commit
  deriving DecidableEq

inductive ImeAction.Kind
  | insertText
  | deleteBackward
  | deleteForward
  | moveCursor
  | moveCursorToStart
  | moveCursorToEnd
  | startConversion
  | navigateCandidate
  | navigateCandidatePage
  | resizeSegment
  | moveActiveSegment
  | applyLiveConversion
  | resolvePendingLearning
  | commitSelected
  | commitAll
  | cancel
  | selectCandidate
  | transformActiveSegment
  | forgetCandidate
  | reconvert
  | beginUnicodeInput
  | appendUnicodeDigit
  | commitUnicodeInput
  | updateContext
  | restoreCheckpoint
  | lifecycle
  deriving DecidableEq

def ImeAction.CodingKeys.raws : RawRepresentable ImeAction.CodingKeys where
  allCases := [.type, .text, .offset, .id, .generation, .transform, .lifecycle, .leftContext,
    .rightContext, .deleteBefore, .deleteAfter, .data, .scheduledRevision, .commit]
  rawValue
    | .type => "type".toList
    | .text => "text".toList
    | .offset => "offset".toList
    | .id => "id".toList
    | .generation => "generation".toList
    | .transform => "transform".toList
    | .lifecycle => "lifecycle".toList
    | .leftContext => "leftContext".toList
    | .rightContext => "rightContext".toList
    | .deleteBefore => "deleteBefore".toList
    | .deleteAfter => "deleteAfter".toList
    | .data => "data".toList
    | .scheduledRevision => "scheduledRevision".toList
    | .commit => "commit".toList
  complete a := by cases a <;> simp
  distinct := by
    simp only [List.map_cons, List.map_nil, List.nodup_cons, List.mem_cons, List.not_mem_nil,
      List.nodup_nil, String.toList_inj, String.reduceEq, or_false, not_false_eq_true, and_self]

def ImeAction.Kind.raws : RawRepresentable ImeAction.Kind where
  allCases := [.insertText, .deleteBackward, .deleteForward, .moveCursor, .moveCursorToStart,
    .moveCursorToEnd, .startConversion, .navigateCandidate, .navigateCandidatePage,
    .resizeSegment, .moveActiveSegment, .applyLiveConversion, .resolvePendingLearning,
    .commitSelected, .commitAll, .cancel, .selectCandidate, .transformActiveSegment,
    .forgetCandidate, .reconvert, .beginUnicodeInput, .appendUnicodeDigit, .commitUnicodeInput,
    .updateContext, .restoreCheckpoint, .lifecycle]
  rawValue
    | .insertText => "insertText".toList
    | .deleteBackward => "deleteBackward".toList
    | .deleteForward => "deleteForward".toList
    | .moveCursor => "moveCursor".toList
    | .moveCursorToStart => "moveCursorToStart".toList
    | .moveCursorToEnd => "moveCursorToEnd".toList
    | .startConversion => "startConversion".toList
    | .navigateCandidate => "navigateCandidate".toList
    | .navigateCandidatePage => "navigateCandidatePage".toList
    | .resizeSegment => "resizeSegment".toList
    | .moveActiveSegment => "moveActiveSegment".toList
    | .applyLiveConversion => "applyLiveConversion".toList
    | .resolvePendingLearning => "resolvePendingLearning".toList
    | .commitSelected => "commitSelected".toList
    | .commitAll => "commitAll".toList
    | .cancel => "cancel".toList
    | .selectCandidate => "selectCandidate".toList
    | .transformActiveSegment => "transformActiveSegment".toList
    | .forgetCandidate => "forgetCandidate".toList
    | .reconvert => "reconvert".toList
    | .beginUnicodeInput => "beginUnicodeInput".toList
    | .appendUnicodeDigit => "appendUnicodeDigit".toList
    | .commitUnicodeInput => "commitUnicodeInput".toList
    | .updateContext => "updateContext".toList
    | .restoreCheckpoint => "restoreCheckpoint".toList
    | .lifecycle => "lifecycle".toList
  complete a := by cases a <;> simp
  distinct := by
    simp only [List.map_cons, List.map_nil, List.nodup_cons, List.mem_cons, List.not_mem_nil,
      List.nodup_nil, String.toList_inj, String.reduceEq, or_false, not_false_eq_true, and_self]

namespace ImeAction

def CodingKeys.stringValue (key : CodingKeys) : Text := CodingKeys.raws.rawValue key

def field {α : Type} (container : Container) (C : Coding α) (forKey : CodingKeys) :
    Except DecodingError α :=
  container.decode C forKey.stringValue

def fieldIfPresent {α : Type} (container : Container) (C : Coding α) (forKey : CodingKeys) :
    Except DecodingError (Option α) :=
  container.decodeIfPresent C forKey.stringValue

def decodeAs (container : Container) : Kind → Except DecodingError ImeAction
  | .insertText => return .insertText (← field container string .text)
  | .deleteBackward => return .deleteBackward
  | .deleteForward => return .deleteForward
  | .moveCursor => return .moveCursor (← field container int64 .offset)
  | .moveCursorToStart => return .moveCursorToStart
  | .moveCursorToEnd => return .moveCursorToEnd
  | .startConversion => return .startConversion
  | .navigateCandidate => return .navigateCandidate (← field container int64 .offset)
  | .navigateCandidatePage => return .navigateCandidatePage (← field container int64 .offset)
  | .resizeSegment => return .resizeSegment (← field container int64 .offset)
  | .moveActiveSegment => return .moveActiveSegment (← field container int64 .offset)
  | .applyLiveConversion => return .applyLiveConversion (← field container unsigned64 .scheduledRevision)
  | .resolvePendingLearning => return .resolvePendingLearning (← field container boolean .commit)
  | .commitSelected => return .commitSelected
  | .commitAll => return .commitAll
  | .cancel => return .cancel
  | .selectCandidate =>
    return .selectCandidate (← field container string .id) (← field container unsigned64 .generation)
  | .transformActiveSegment =>
    return .transformActiveSegment (← field container (raw ImeTextTransform.raws) .transform)
  | .forgetCandidate =>
    return .forgetCandidate (← field container string .id) (← field container unsigned64 .generation)
  | .reconvert =>
    return .reconvert (← field container string .text) (← field container string .leftContext)
      (← field container string .rightContext)
      ((← fieldIfPresent container int64 .deleteBefore).getD 0)
      ((← fieldIfPresent container int64 .deleteAfter).getD 0)
  | .beginUnicodeInput => return .beginUnicodeInput
  | .appendUnicodeDigit => return .appendUnicodeDigit (← field container string .text)
  | .commitUnicodeInput => return .commitUnicodeInput
  | .updateContext =>
    return .updateContext (← field container string .leftContext)
      (← field container string .rightContext)
  | .restoreCheckpoint => return .restoreCheckpoint (← field container base64 .data)
  | .lifecycle => return .lifecycle (← field container ImeLifecycleEvent.coding .lifecycle)

def decode (payload : Coded) : Except DecodingError ImeAction := do
  let container ← payload.container
  decodeAs container (← field container (raw Kind.raws) .type)

def put {α : Type} (C : Coding α) (value : α) (forKey : CodingKeys) (container : Container) :
    Container :=
  container.encode (C.encode value) forKey.stringValue

def tagged (kind : Kind) : Container := Container.empty |> put (raw Kind.raws) kind .type

def encode (action : ImeAction) : Coded :=
  .object <| match action with
    | .insertText text => tagged .insertText |> put string text .text
    | .deleteBackward => tagged .deleteBackward
    | .deleteForward => tagged .deleteForward
    | .moveCursor offset => tagged .moveCursor |> put int64 offset .offset
    | .moveCursorToStart => tagged .moveCursorToStart
    | .moveCursorToEnd => tagged .moveCursorToEnd
    | .startConversion => tagged .startConversion
    | .navigateCandidate delta => tagged .navigateCandidate |> put int64 delta .offset
    | .navigateCandidatePage delta => tagged .navigateCandidatePage |> put int64 delta .offset
    | .resizeSegment delta => tagged .resizeSegment |> put int64 delta .offset
    | .moveActiveSegment delta => tagged .moveActiveSegment |> put int64 delta .offset
    | .applyLiveConversion scheduledRevision =>
      tagged .applyLiveConversion |> put unsigned64 scheduledRevision .scheduledRevision
    | .resolvePendingLearning commit =>
      tagged .resolvePendingLearning |> put boolean commit .commit
    | .commitSelected => tagged .commitSelected
    | .commitAll => tagged .commitAll
    | .cancel => tagged .cancel
    | .selectCandidate id generation =>
      tagged .selectCandidate |> put string id .id |> put unsigned64 generation .generation
    | .transformActiveSegment transform =>
      tagged .transformActiveSegment |> put (raw ImeTextTransform.raws) transform .transform
    | .forgetCandidate id generation =>
      tagged .forgetCandidate |> put string id .id |> put unsigned64 generation .generation
    | .reconvert text leftContext rightContext deleteBefore deleteAfter =>
      tagged .reconvert
        |> put string text .text
        |> put string leftContext .leftContext
        |> put string rightContext .rightContext
        |> put int64 deleteBefore .deleteBefore
        |> put int64 deleteAfter .deleteAfter
    | .beginUnicodeInput => tagged .beginUnicodeInput
    | .appendUnicodeDigit digit => tagged .appendUnicodeDigit |> put string digit .text
    | .commitUnicodeInput => tagged .commitUnicodeInput
    | .updateContext leftContext rightContext =>
      tagged .updateContext
        |> put string leftContext .leftContext
        |> put string rightContext .rightContext
    | .restoreCheckpoint data => tagged .restoreCheckpoint |> put base64 data .data
    | .lifecycle event => tagged .lifecycle |> put ImeLifecycleEvent.coding event .lifecycle

/-! ## The table of fields -/

/-- A field of a payload and the value it has to hold. Deletion counts may be
left out when they are zero. -/
inductive Part
  | text (value : Text)
  | int (value : Int)
  | deletion (count : Int)
  | uint (value : UInt64)
  | bool (value : Bool)
  | transform (value : ImeTextTransform)
  | data (value : Data)
  | event (value : ImeLifecycleEvent)

def kind : ImeAction → Kind
  | .insertText _ => .insertText
  | .deleteBackward => .deleteBackward
  | .deleteForward => .deleteForward
  | .moveCursor _ => .moveCursor
  | .moveCursorToStart => .moveCursorToStart
  | .moveCursorToEnd => .moveCursorToEnd
  | .startConversion => .startConversion
  | .navigateCandidate _ => .navigateCandidate
  | .navigateCandidatePage _ => .navigateCandidatePage
  | .resizeSegment _ => .resizeSegment
  | .moveActiveSegment _ => .moveActiveSegment
  | .applyLiveConversion _ => .applyLiveConversion
  | .resolvePendingLearning _ => .resolvePendingLearning
  | .commitSelected => .commitSelected
  | .commitAll => .commitAll
  | .cancel => .cancel
  | .selectCandidate _ _ => .selectCandidate
  | .transformActiveSegment _ => .transformActiveSegment
  | .forgetCandidate _ _ => .forgetCandidate
  | .reconvert _ _ _ _ _ => .reconvert
  | .beginUnicodeInput => .beginUnicodeInput
  | .appendUnicodeDigit _ => .appendUnicodeDigit
  | .commitUnicodeInput => .commitUnicodeInput
  | .updateContext _ _ => .updateContext
  | .restoreCheckpoint _ => .restoreCheckpoint
  | .lifecycle _ => .lifecycle

def parts : ImeAction → List (CodingKeys × Part)
  | .insertText text => [(.text, .text text)]
  | .moveCursor offset | .navigateCandidate offset | .navigateCandidatePage offset
  | .resizeSegment offset | .moveActiveSegment offset => [(.offset, .int offset)]
  | .applyLiveConversion revision => [(.scheduledRevision, .uint revision)]
  | .resolvePendingLearning commit => [(.commit, .bool commit)]
  | .selectCandidate id generation | .forgetCandidate id generation =>
    [(.id, .text id), (.generation, .uint generation)]
  | .transformActiveSegment transform => [(.transform, .transform transform)]
  | .reconvert text left right before after =>
    [(.text, .text text), (.leftContext, .text left), (.rightContext, .text right),
      (.deleteBefore, .deletion before), (.deleteAfter, .deletion after)]
  | .appendUnicodeDigit digit => [(.text, .text digit)]
  | .updateContext left right => [(.leftContext, .text left), (.rightContext, .text right)]
  | .restoreCheckpoint data => [(.data, .data data)]
  | .lifecycle event => [(.lifecycle, .event event)]
  | .deleteBackward | .deleteForward | .moveCursorToStart | .moveCursorToEnd | .startConversion
  | .commitSelected | .commitAll | .cancel | .beginUnicodeInput | .commitUnicodeInput => []

def Part.HeldBy (fields : Container) (key : CodingKeys) : Part → Prop
  | .text t => fields key.stringValue = some (.string t)
  | .int n => fields key.stringValue = some (.number n) ∧ minInt ≤ n ∧ n ≤ maxInt
  | .deletion n =>
    (n = 0 ∧ (fields key.stringValue = none ∨ fields key.stringValue = some .null)) ∨
      (fields key.stringValue = some (.number n) ∧ minInt ≤ n ∧ n ≤ maxInt)
  | .uint n => fields key.stringValue = some (.number (n.toNat : Int))
  | .bool b => fields key.stringValue = some (.bool b)
  | .transform t => fields key.stringValue = some (.string (ImeTextTransform.raws.rawValue t))
  | .data d => ∃ text, fields key.stringValue = some (.string text) ∧ base64Decoded text = some d
  | .event e => ∃ payload, fields key.stringValue = some payload ∧ e.Matches payload

/-- The payload names the kind of the action and holds each of its fields. -/
def Matches (payload : Coded) (action : ImeAction) : Prop :=
  ∃ fields, payload = .object fields ∧
    fields CodingKeys.type.stringValue = some (.string (Kind.raws.rawValue action.kind)) ∧
    ∀ f ∈ action.parts, f.2.HeldBy fields f.1

/-- Its integers are Swift integers. -/
def Bounded : ImeAction → Prop
  | .moveCursor n | .navigateCandidate n | .navigateCandidatePage n | .resizeSegment n
  | .moveActiveSegment n => minInt ≤ n ∧ n ≤ maxInt
  | .reconvert _ _ _ before after =>
    (minInt ≤ before ∧ before ≤ maxInt) ∧ minInt ≤ after ∧ after ≤ maxInt
  | _ => True

end ImeAction

end Hazkey
