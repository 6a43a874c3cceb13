import Hazkey.HybridConverter

/-! The dictionary of the user: entries of two layers, the index of their readings, and the
file they are kept in. -/

namespace Hazkey

/-- `precomposedStringWithCompatibilityMapping` and the katakana of the runtime. -/
class RubyText extends CanonicalText where
  compatibility : Text → Text
  toKatakana : Text → Text

section

variable [RubyText]

/-- A reading as the dictionaries have it. -/
def canonicalRuby (reading : Text) : Text := RubyText.toKatakana (RubyText.compatibility reading)

/-- Keys of a dictionary are compared up to canonical equivalence. -/
def sameKey (ruby other : Text) : Bool :=
  CanonicalText.precomposed ruby = CanonicalText.precomposed other

theorem sameKey_iff {t u : Text} :
    sameKey t u = true ↔ CanonicalText.precomposed t = CanonicalText.precomposed u :=
  decide_eq_true_iff

theorem sameKey_comm (t u : Text) : sameKey t u = sameKey u t := by
  unfold sameKey
  exact decide_eq_decide.mpr eq_comm

theorem sameKey_symm {t u : Text} (h : sameKey t u = true) : sameKey u t = true :=
  sameKey_iff.mpr (sameKey_iff.mp h).symm

theorem sameKey_trans {t u v : Text} (h : sameKey t u = true) (h' : sameKey u v = true) :
    sameKey t v = true := sameKey_iff.mpr ((sameKey_iff.mp h).trans (sameKey_iff.mp h'))

inductive UserDictionaryLayer
  | system
  | personal
  | project
  | temporary
  deriving DecidableEq

structure UserDictionaryEntry where
  id : Text
  reading : Text
  surface : Text
  partOfSpeech : Text
  layer : UserDictionaryLayer
  deriving DecidableEq

inductive UserDictionaryError
  | emptyField
  | invalidField
  | duplicate
  | missingEntry
  | invalidImport
  | persistenceFailed
  deriving DecidableEq

/-- The entries with their rubies, in the order of the store. The other layers are supplied
elsewhere, and do not enter. -/
structure UserDictionaryCandidateIndex where
  entries : List (Text × UserDictionaryEntry) := []
  layers : ∀ x ∈ entries, x.2.layer = .personal ∨ x.2.layer = .temporary := by simp

def UserDictionaryCandidateIndex.ofEntries (entries : List UserDictionaryEntry) :
    UserDictionaryCandidateIndex where
  entries := (entries.filter fun entry =>
    (entry.layer = .personal ∨ entry.layer = .temporary) ∧
      canonicalRuby entry.reading ≠ []).map fun entry => (canonicalRuby entry.reading, entry)
  layers x hx := by
    obtain ⟨entry, hentry, rfl⟩ := List.mem_map.mp hx
    have hlayer := (List.mem_filter.mp hentry).2
    simp only [decide_eq_true_eq] at hlayer
    exact hlayer.1

def UserDictionaryCandidateIndex.entriesForRuby (index : UserDictionaryCandidateIndex)
    (ruby : Text) : List UserDictionaryEntry :=
  (index.entries.filter fun x => sameKey x.1 (canonicalRuby ruby)).map (·.2)

end

/-- The entries as the bytes of the file. -/
class UserDictionaryCodec where
  encode : List UserDictionaryEntry → Data
  decode : Data → Option (List UserDictionaryEntry)
  decode_encode : ∀ entries, decode (encode entries) = some entries

/-- The store, and the file behind it if it has one. -/
structure UserDictionaryStore where
  storedEntries : List UserDictionaryEntry
  storedCandidateIndexSnapshot : UserDictionaryCandidateIndex
  persistent : Bool
  file : Option Data

/-- The methods of the store change it, and may throw. -/
abbrev UserDictionaryM := ExceptT UserDictionaryError (StateM UserDictionaryStore)

namespace UserDictionaryStore

variable [RubyText]

def controlScalar (scalar : Char) : Bool :=
  scalar.toNat < 0x20 || (0x7F ≤ scalar.toNat && scalar.toNat ≤ 0x9F)

def validate (entry : UserDictionaryEntry) : Except UserDictionaryError Unit :=
  if entry.reading ≠ [] ∧ entry.surface ≠ [] ∧ entry.partOfSpeech ≠ [] then
    if (entry.layer = .personal ∨ entry.layer = .temporary) ∧ entry.id ≠ [] ∧
        entry.id.length ≤ 128 ∧ entry.reading.length ≤ 256 ∧ entry.surface.length ≤ 256 ∧
        entry.partOfSpeech.length ≤ 64 ∧
        ([entry.id, entry.reading, entry.surface, entry.partOfSpeech].any fun value =>
          value.any controlScalar) = false then .ok ()
    else .error .invalidField
  else .error .emptyField

/-- Two entries of one identifier, or of one reading, surface and layer. -/
def clashes (existing entry : UserDictionaryEntry) : Bool :=
  sameKey existing.id entry.id ||
    (sameKey existing.reading entry.reading && sameKey existing.surface entry.surface &&
      existing.layer = entry.layer)

def isDuplicate (entry : UserDictionaryEntry) (entries : List UserDictionaryEntry)
    (excludedIndex : Option Nat) : Bool :=
  entries.zipIdx.any fun (existing, index) =>
    some index ≠ excludedIndex && clashes existing entry

def firstIndex (id : Text) (entries : List UserDictionaryEntry) : Option Nat :=
  entries.findIdx? fun entry => sameKey entry.id id

/-- The loop over what was loaded, which skips what is not admitted. -/
def validatedFirstWins (result : List UserDictionaryEntry) :
    List UserDictionaryEntry → List UserDictionaryEntry
  | [] => result
  | entry :: entries =>
    if validate entry = .ok () ∧ isDuplicate entry result none = false then
      validatedFirstWins (result ++ [entry]) entries
    else validatedFirstWins result entries

section

variable [UserDictionaryCodec]

/-- What is loaded when the store is opened on its file. -/
def loadedEntries (entries : List UserDictionaryEntry) (persistent : Bool) (file : Option Data) :
    List UserDictionaryEntry :=
  if persistent then (file.bind UserDictionaryCodec.decode).getD entries else entries

/-- `init(entries:persistenceURL:)`. -/
def opened (entries : List UserDictionaryEntry) (persistent : Bool) (file : Option Data) :
    UserDictionaryStore :=
  let initialEntries := validatedFirstWins [] (loadedEntries entries persistent file)
  { storedEntries := initialEntries
    storedCandidateIndexSnapshot := .ofEntries initialEntries
    persistent := persistent
    file := file }

/-- The write is atomic: the new file is in place, or the old one still is. -/
def persist (entries : List UserDictionaryEntry) (written : Bool) : UserDictionaryM Unit := do
  let store ← get
  if store.persistent = true then
    if written = true then set { store with file := some (UserDictionaryCodec.encode entries) }
    else throw .persistenceFailed
  else pure ()

def replaceStoredEntries (entries : List UserDictionaryEntry) (written : Bool) :
    UserDictionaryM Unit := do
  let candidateIndex := UserDictionaryCandidateIndex.ofEntries entries
  persist entries written
  modify fun store =>
    { store with storedEntries := entries, storedCandidateIndexSnapshot := candidateIndex }

def add (entry : UserDictionaryEntry) (written : Bool) : UserDictionaryM UserDictionaryEntry := do
  validate entry
  let store ← get
  if isDuplicate entry store.storedEntries none = true then throw .duplicate
  else do
    replaceStoredEntries (store.storedEntries ++ [entry]) written
    pure entry

def update (entry : UserDictionaryEntry) (written : Bool) : UserDictionaryM Unit := do
  validate entry
  let store ← get
  match firstIndex entry.id store.storedEntries with
  | none => throw .missingEntry
  | some index =>
    if isDuplicate entry store.storedEntries (some index) = true then throw .duplicate
    else replaceStoredEntries (store.storedEntries.set index entry) written

def remove (id : Text) (written : Bool) : UserDictionaryM Unit := do
  let store ← get
  match firstIndex id store.storedEntries with
  | none => throw .missingEntry
  | some index => replaceStoredEntries (store.storedEntries.eraseIdx index) written

def exportJSON : UserDictionaryM Data := do
  let store ← get
  pure (UserDictionaryCodec.encode store.storedEntries)

/-- The loop over what is imported. -/
def importedInto (merge : Bool) (nextEntries : List UserDictionaryEntry) :
    List UserDictionaryEntry → Except UserDictionaryError (List UserDictionaryEntry)
  | [] => pure nextEntries
  | entry :: imported => do
    validate entry
    if isDuplicate entry nextEntries none = true then
      if merge = true then importedInto merge nextEntries imported else throw .duplicate
    else importedInto merge (nextEntries ++ [entry]) imported

def importJSON (data : Data) (merge written : Bool) : UserDictionaryM Unit := do
  match UserDictionaryCodec.decode data with
  | none => throw .invalidImport
  | some imported =>
    let store ← get
    let nextEntries ← importedInto merge (if merge then store.storedEntries else []) imported
    replaceStoredEntries nextEntries written

/-! Runs of calls. -/

/-- What a call returns or throws, and the store it leaves. -/
def runOn {α : Type} (m : UserDictionaryM α) (store : UserDictionaryStore) :
    Except UserDictionaryError α × UserDictionaryStore := (ExceptT.run m).run store

inductive UserDictionaryCall
  | add (entry : UserDictionaryEntry)
  | update (entry : UserDictionaryEntry)
  | remove (id : Text)
  | importJSON (data : Data) (merge : Bool)

/-- A call whose write succeeds or fails. -/
def UserDictionaryCall.program (written : Bool) : UserDictionaryCall → UserDictionaryM Unit
  | .add entry => do
    let _ ← UserDictionaryStore.add entry written
    pure ()
  | .update entry => UserDictionaryStore.update entry written
  | .remove id => UserDictionaryStore.remove id written
  | .importJSON data merge => UserDictionaryStore.importJSON data merge written

/-- The store after some calls, each with the fate of its write. -/
def after (store : UserDictionaryStore) (calls : List (UserDictionaryCall × Bool)) :
    UserDictionaryStore :=
  calls.foldl (fun store call => (runOn (call.1.program call.2) store).2) store

end

end UserDictionaryStore

end Hazkey
