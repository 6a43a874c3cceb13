import Hazkey.Admission
import Hazkey.UserDictionary

/-! What the calls of the user's dictionary keep, and that what is exported is imported. -/

namespace Hazkey.UserDictionaryStore

open Admission

variable [RubyText]

/-! Entries that clash. -/

theorem clashes_refl (entry : UserDictionaryEntry) : clashes entry entry = true := by
  simp [clashes, sameKey]

theorem clashes_comm (a b : UserDictionaryEntry) : clashes a b = clashes b a := by
  unfold clashes sameKey
  simp only [eq_comm]

theorem isDuplicate_none (entry : UserDictionaryEntry) (entries : List UserDictionaryEntry) :
    isDuplicate entry entries none = entries.any fun y => clashes y entry := by
  have hfrom (n : Nat) : ((entries.zipIdx n).any fun x =>
      some x.2 ≠ none && clashes x.1 entry) = entries.any fun y => clashes y entry := by
    induction entries generalizing n with
    | nil => rfl
    | cons y entries ih =>
      rw [List.zipIdx_cons, List.any_cons, List.any_cons, ih]
      simp
  exact hfrom 0

/-- The entry at the excluded index does not count. -/
theorem isDuplicate_some {entry x : UserDictionaryEntry} {l l' : List UserDictionaryEntry} :
    isDuplicate entry (l ++ x :: l') (some l.length) =
      ((l ++ l').any fun y => clashes y entry) := by
  have hbehind (n k : Nat) (hk : k < n) (l : List UserDictionaryEntry) :
      ((l.zipIdx n).any fun x => some x.2 ≠ some k && clashes x.1 entry) =
        l.any fun y => clashes y entry := by
    induction l generalizing n with
    | nil => rfl
    | cons y l ih =>
      have hne : n ≠ k := by omega
      rw [List.zipIdx_cons, List.any_cons, List.any_cons, ih (n + 1) (by omega)]
      simp [hne]
  have hfrom (n : Nat) : (((l ++ x :: l').zipIdx n).any fun x =>
      some x.2 ≠ some (n + l.length) && clashes x.1 entry) =
        ((l ++ l').any fun y => clashes y entry) := by
    induction l generalizing n with
    | nil =>
      have h := hbehind (n + 1) n (by omega) l'
      simpa [List.zipIdx_cons] using h
    | cons y l ih =>
      have h := ih (n + 1)
      have hlen : n + 1 + l.length = n + (y :: l).length := by simp; omega
      rw [hlen] at h
      rw [List.cons_append, List.zipIdx_cons, List.any_cons, h]
      simp
  have h := hfrom 0
  rw [Nat.zero_add] at h
  exact h

/-! What the loops do. -/

/-- The entries of a store: valid, and no two of them clash. -/
structure Valid (entries : List UserDictionaryEntry) : Prop where
  valid : ∀ entry ∈ entries, validate entry = .ok ()
  apart : Apart clashes entries

theorem validatedFirstWins_eq (result entries : List UserDictionaryEntry) :
    validatedFirstWins result entries =
      accept clashes result (entries.filter fun entry => validate entry = .ok ()) := by
  induction entries generalizing result with
  | nil => rfl
  | cons entry entries ih =>
    unfold validatedFirstWins
    rw [isDuplicate_none, ih, ih]
    by_cases hv : validate entry = .ok ()
    · rw [List.filter_cons_of_pos (by simpa using hv), accept]
      by_cases hd : (result.any fun y => clashes y entry) = true
      · simp [hv, hd]
      · simp [hv, hd]
    · rw [List.filter_cons_of_neg (by simpa using hv)]
      simp [hv]

theorem validatedFirstWins_valid (entries : List UserDictionaryEntry) :
    Valid (validatedFirstWins [] entries) := by
  rw [validatedFirstWins_eq]
  refine ⟨fun entry hentry => ?_, accept_apart apart_nil⟩
  rcases mem_accept hentry with hnil | hl
  · cases hnil
  · simpa using (List.mem_filter.mp hl).2

theorem validatedFirstWins_of_valid {entries : List UserDictionaryEntry} (h : Valid entries) :
    validatedFirstWins [] entries = entries := by
  have hall : entries.filter (fun entry => validate entry = .ok ()) = entries :=
    List.filter_eq_self.mpr fun entry he => by simpa using h.valid entry he
  rw [validatedFirstWins_eq, hall]
  exact accept_of_apart (by simpa using h.apart)

/-- An import keeps what is apart, if all of it is valid; without a merge all of it is apart. -/
theorem importedInto_ok {merge : Bool} {kept imported r : List UserDictionaryEntry}
    (h : importedInto merge kept imported = .ok r) :
    (∀ entry ∈ imported, validate entry = .ok ()) ∧ r = accept clashes kept imported := by
  induction imported generalizing kept with
  | nil =>
    obtain rfl := Except.ok.inj h
    exact ⟨by simp, rfl⟩
  | cons entry imported ih =>
    unfold importedInto at h
    cases hv : validate entry with
    | error e =>
      rw [hv] at h
      cases h
    | ok u =>
      rw [hv, isDuplicate_none] at h
      change (if (kept.any fun y => clashes y entry) = true then
        if merge = true then importedInto merge kept imported else .error .duplicate
        else importedInto merge (kept ++ [entry]) imported) = .ok r at h
      have hhead (hrest : (∀ x ∈ imported, validate x = .ok ()) ∧
          r = accept clashes kept (entry :: imported)) :
          (∀ x ∈ entry :: imported, validate x = .ok ()) ∧
            r = accept clashes kept (entry :: imported) :=
        ⟨List.forall_mem_cons.mpr ⟨hv, hrest.1⟩, hrest.2⟩
      apply hhead
      rw [accept]
      by_cases hd : (kept.any fun y => clashes y entry) = true
      · rw [if_pos hd] at h ⊢
        cases merge with
        | true => exact ih h
        | false => cases h
      · rw [if_neg hd] at h ⊢
        exact ih h

theorem importedInto_merge {kept imported : List UserDictionaryEntry}
    (h : ∀ entry ∈ imported, validate entry = .ok ()) :
    importedInto true kept imported = .ok (accept clashes kept imported) := by
  induction imported generalizing kept with
  | nil => rfl
  | cons entry imported ih =>
    obtain ⟨hv, hrest⟩ := List.forall_mem_cons.mp h
    unfold importedInto
    rw [hv, isDuplicate_none, accept]
    change (if (kept.any fun y => clashes y entry) = true then importedInto true kept imported
      else importedInto true (kept ++ [entry]) imported) = _
    rw [ih hrest, ih hrest]
    split <;> rfl

theorem importedInto_apart {merge : Bool} {kept imported : List UserDictionaryEntry}
    (h : ∀ entry ∈ imported, validate entry = .ok ()) (hd : Apart clashes (kept ++ imported)) :
    importedInto merge kept imported = .ok (kept ++ imported) := by
  induction imported generalizing kept with
  | nil => exact congrArg Except.ok (List.append_nil kept).symm
  | cons entry imported ih =>
    obtain ⟨hv, hrest⟩ := List.forall_mem_cons.mp h
    unfold importedInto
    rw [hv, isDuplicate_none, apart_append_cons hd]
    have hstep : kept ++ entry :: imported = (kept ++ [entry]) ++ imported := by simp
    rw [hstep] at hd ⊢
    exact ih hrest hd

/-! What a call leaves. -/

section

variable [UserDictionaryCodec] {store : UserDictionaryStore} {written : Bool}

/-- The store with other entries, its index and its file. -/
def replaced (store : UserDictionaryStore) (entries : List UserDictionaryEntry) :
    UserDictionaryStore :=
  { store with
    storedEntries := entries
    storedCandidateIndexSnapshot := .ofEntries entries
    file := if store.persistent then some (UserDictionaryCodec.encode entries) else store.file }

/-- Either all of the store is replaced, or the call throws and none of it is. -/
def settled (store : UserDictionaryStore) (written : Bool) :
    Except UserDictionaryError (List UserDictionaryEntry) →
      Except UserDictionaryError Unit × UserDictionaryStore
  | .error e => (.error e, store)
  | .ok entries =>
    if store.persistent = true ∧ written = false then (.error .persistenceFailed, store)
    else (.ok (), store.replaced entries)

section

variable {α β : Type}

omit [RubyText] [UserDictionaryCodec] in
theorem runOn_bind (m : UserDictionaryM α) (f : α → UserDictionaryM β) :
    runOn (m >>= f) store =
      match runOn m store with
      | (.ok a, next) => runOn (f a) next
      | (.error e, next) => (.error e, next) := by
  unfold runOn
  rw [ExceptT.run_bind, StateT.run_bind]
  show (match (ExceptT.run m).run store with | (x, next) => _) = _
  cases h : (ExceptT.run m).run store with
  | mk x next => cases x <;> rfl

omit [RubyText] [UserDictionaryCodec] in
theorem runOn_lift (x : Except UserDictionaryError α) :
    runOn (liftM x : UserDictionaryM α) store = (x, store) := by
  cases x <;> rfl

end

theorem runOn_replaceStoredEntries (entries : List UserDictionaryEntry) :
    runOn (replaceStoredEntries entries written) store =
      settled store written (.ok entries) := by
  obtain ⟨stored, index, persistent, file⟩ := store
  cases persistent <;> cases written <;> rfl

/-- The entries a call asks for. -/
def asked (entries : List UserDictionaryEntry) :
    UserDictionaryCall → Except UserDictionaryError (List UserDictionaryEntry)
  | .add entry => do
    validate entry
    if isDuplicate entry entries none = true then .error .duplicate else .ok (entries ++ [entry])
  | .update entry => do
    validate entry
    match firstIndex entry.id entries with
    | none => .error .missingEntry
    | some index =>
      if isDuplicate entry entries (some index) = true then .error .duplicate
      else .ok (entries.set index entry)
  | .remove id =>
    match firstIndex id entries with
    | none => .error .missingEntry
    | some index => .ok (entries.eraseIdx index)
  | .importJSON data merge =>
    match UserDictionaryCodec.decode data with
    | none => .error .invalidImport
    | some imported => importedInto merge (if merge then entries else []) imported

/-- What follows the replacement of the entries returns without more ado. -/
theorem runOn_replaceStoredEntries_then {α : Type} (entries : List UserDictionaryEntry) (a : α) :
    runOn (do let _ ← (do replaceStoredEntries entries written; pure a); pure ()) store =
      settled store written (.ok entries) := by
  rw [runOn_bind, runOn_bind, runOn_replaceStoredEntries]
  unfold settled
  dsimp only
  by_cases hw : store.persistent = true ∧ written = false
  · rw [if_pos hw]
  · rw [if_neg hw]
    rfl

theorem runOn_program (call : UserDictionaryCall) :
    runOn (call.program written) store = settled store written (asked store.storedEntries call) := by
  cases call with
  | add entry =>
    dsimp only [UserDictionaryCall.program, add, asked]
    cases hv : validate entry with
    | error e => rfl
    | ok u =>
      by_cases hd : isDuplicate entry store.storedEntries none = true
      · show runOn (do
          let _ ← (if isDuplicate entry store.storedEntries none = true then throw .duplicate
            else _ : UserDictionaryM UserDictionaryEntry)
          pure ()) store = settled store written (if _ then _ else _)
        rw [if_pos hd, if_pos hd]
        rfl
      · show runOn (do
          let _ ← (if isDuplicate entry store.storedEntries none = true then throw .duplicate
            else _ : UserDictionaryM UserDictionaryEntry)
          pure ()) store = settled store written (if _ then _ else _)
        rw [if_neg hd, if_neg hd]
        exact runOn_replaceStoredEntries_then _ _
  | update entry =>
    dsimp only [UserDictionaryCall.program, update, asked]
    cases hv : validate entry with
    | error e => rfl
    | ok u =>
      show runOn (match firstIndex entry.id store.storedEntries with
        | none => throw .missingEntry
        | some index =>
          if isDuplicate entry store.storedEntries (some index) = true then throw .duplicate
          else replaceStoredEntries (store.storedEntries.set index entry) written) store =
        settled store written (match firstIndex entry.id store.storedEntries with
        | none => _
        | some index => _)
      cases hindex : firstIndex entry.id store.storedEntries with
      | none => rfl
      | some index =>
        dsimp only
        split
        · rfl
        · exact runOn_replaceStoredEntries _
  | remove id =>
    show runOn (match firstIndex id store.storedEntries with
      | none => throw .missingEntry
      | some index => replaceStoredEntries (store.storedEntries.eraseIdx index) written) store =
        settled store written (match firstIndex id store.storedEntries with
        | none => _
        | some index => _)
    cases hindex : firstIndex id store.storedEntries with
    | none => rfl
    | some index => exact runOn_replaceStoredEntries _
  | importJSON data merge =>
    dsimp only [UserDictionaryCall.program, importJSON, asked]
    cases hdecode : UserDictionaryCodec.decode data with
    | none => rfl
    | some imported =>
      show runOn (liftM (importedInto merge (if merge = true then store.storedEntries else [])
        imported) >>= fun nextEntries => replaceStoredEntries nextEntries written) store =
          settled store written (importedInto merge (if merge = true then store.storedEntries
            else []) imported)
      rw [runOn_bind, runOn_lift]
      cases himport : importedInto merge (if merge = true then store.storedEntries else [])
        imported with
      | error e => rfl
      | ok entries => exact runOn_replaceStoredEntries entries

/-! What every call keeps. -/

omit [UserDictionaryCodec] in
theorem firstIndex_split {id : Text} {entries : List UserDictionaryEntry} {index : Nat}
    (h : firstIndex id entries = some index) :
    ∃ l x l', entries = l ++ x :: l' ∧ l.length = index := by
  obtain ⟨hlt, -, -⟩ := List.findIdx?_eq_some_iff_getElem.mp h
  refine ⟨entries.take index, entries[index], entries.drop (index + 1), ?_, ?_⟩
  · rw [List.getElem_cons_drop, List.take_append_drop]
  · rw [List.length_take]
    omega

theorem asked_valid {entries next : List UserDictionaryEntry} (h : Valid entries)
    (call : UserDictionaryCall) (hnext : asked entries call = .ok next) : Valid next := by
  cases call with
  | add entry =>
    dsimp only [asked] at hnext
    cases hv : validate entry with
    | error e =>
      rw [hv] at hnext
      cases hnext
    | ok u =>
      rw [hv] at hnext
      change (if isDuplicate entry entries none = true then _ else _) = _ at hnext
      split at hnext
      · cases hnext
      · rename_i hd
        obtain rfl := Except.ok.inj hnext
        rw [isDuplicate_none] at hd
        refine ⟨fun x hx => ?_, h.apart.concat (by simpa using hd)⟩
        rcases List.mem_append.mp hx with hx | hx
        · exact h.valid x hx
        · rwa [List.mem_singleton.mp hx]
  | update entry =>
    dsimp only [asked] at hnext
    cases hv : validate entry with
    | error e =>
      rw [hv] at hnext
      cases hnext
    | ok u =>
      rw [hv] at hnext
      change (match firstIndex entry.id entries with
        | none => _
        | some index => _) = _ at hnext
      cases hindex : firstIndex entry.id entries with
      | none =>
        rw [hindex] at hnext
        cases hnext
      | some index =>
        rw [hindex] at hnext
        dsimp only at hnext
        obtain ⟨l, x, l', rfl, rfl⟩ := firstIndex_split hindex
        split at hnext
        · cases hnext
        · rename_i hd
          obtain rfl := Except.ok.inj hnext
          rw [isDuplicate_some] at hd
          have hset : (l ++ x :: l').set l.length entry = l ++ entry :: l' := by simp
          rw [hset]
          refine ⟨fun y hy => ?_, h.apart.replace clashes_comm (by simpa using hd)⟩
          rcases List.mem_append.mp hy with hy | hy
          · exact h.valid y (List.mem_append_left _ hy)
          · rcases List.mem_cons.mp hy with rfl | hy
            · exact hv
            · exact h.valid y (by simp [hy])
  | remove id =>
    change (match firstIndex id entries with
      | none => _
      | some index => _) = _ at hnext
    cases hindex : firstIndex id entries with
    | none =>
      rw [hindex] at hnext
      cases hnext
    | some index =>
      rw [hindex] at hnext
      obtain rfl := Except.ok.inj hnext
      exact ⟨fun x hx => h.valid x ((List.eraseIdx_sublist entries index).subset hx),
        h.apart.sublist (List.eraseIdx_sublist entries index)⟩
  | importJSON data merge =>
    dsimp only [asked] at hnext
    cases hdecode : UserDictionaryCodec.decode data with
    | none =>
      rw [hdecode] at hnext
      cases hnext
    | some imported =>
      rw [hdecode] at hnext
      obtain ⟨hall, rfl⟩ := importedInto_ok hnext
      have hkept : Valid (if merge = true then entries else []) := by
        split
        · exact h
        · exact ⟨by simp, apart_nil⟩
      refine ⟨fun x hx => ?_, accept_apart hkept.apart⟩
      rcases mem_accept hx with hx | hx
      · exact hkept.valid x hx
      · exact hall x hx

/-- What is kept of a store: its entries are valid, the index is that of the entries,
and whoever opens the file finds them, with others to fall back on only if the file tells
nothing. -/
structure Sound (fallback : List UserDictionaryEntry) (store : UserDictionaryStore) : Prop where
  valid : Valid store.storedEntries
  index : store.storedCandidateIndexSnapshot = .ofEntries store.storedEntries
  reopened : ∀ entries, (store.file.bind UserDictionaryCodec.decode = none → entries = fallback) →
    store.persistent = true →
      (opened entries true store.file).storedEntries = store.storedEntries

theorem sound_opened (entries : List UserDictionaryEntry) (persistent : Bool)
    (file : Option Data) : Sound entries (opened entries persistent file) where
  valid := validatedFirstWins_valid _
  index := rfl
  reopened others hothers hp := by
    obtain rfl : persistent = true := hp
    show validatedFirstWins [] ((file.bind UserDictionaryCodec.decode).getD others) =
      validatedFirstWins [] ((file.bind UserDictionaryCodec.decode).getD entries)
    cases hfile : file.bind UserDictionaryCodec.decode with
    | none => rw [hothers hfile]
    | some decoded => rfl

theorem sound_replaced {fallback entries : List UserDictionaryEntry} (h : Valid entries) :
    Sound fallback (store.replaced entries) where
  valid := h
  index := rfl
  reopened others _ hp := by
    have hp : store.persistent = true := hp
    show validatedFirstWins [] (((if store.persistent = true then
      some (UserDictionaryCodec.encode entries) else store.file).bind
        UserDictionaryCodec.decode).getD others) = entries
    rw [if_pos hp, Option.bind_some, UserDictionaryCodec.decode_encode, Option.getD_some]
    exact validatedFirstWins_of_valid h

/-- A call keeps what is kept, and if it throws it keeps the store. -/
theorem runOn_sound {fallback : List UserDictionaryEntry} (h : Sound fallback store)
    (call : UserDictionaryCall) (written : Bool) :
    Sound fallback (runOn (call.program written) store).2 ∧
      ∀ e, (runOn (call.program written) store).1 = .error e →
        (runOn (call.program written) store).2 = store := by
  rw [runOn_program]
  cases hnext : asked store.storedEntries call with
  | error e => exact ⟨h, fun _ _ => rfl⟩
  | ok entries =>
    unfold settled
    dsimp only
    split
    · exact ⟨h, fun _ _ => rfl⟩
    · refine ⟨sound_replaced (asked_valid h.valid call hnext), fun e he => ?_⟩
      cases he

theorem sound_after {fallback : List UserDictionaryEntry}
    (calls : List (UserDictionaryCall × Bool)) (h : Sound fallback store) :
    Sound fallback (store.after calls) := by
  induction calls generalizing store with
  | nil => exact h
  | cons call calls ih => exact ih (runOn_sound h call.1 call.2).1

omit [UserDictionaryCodec] in
theorem Valid.ids_nodup {entries : List UserDictionaryEntry} (h : Valid entries) :
    (entries.map fun entry => CanonicalText.precomposed entry.id).Nodup := by
  apply List.pairwise_map.mpr
  refine h.apart.imp fun {a b} hab he => ?_
  have hsame : sameKey a.id b.id = true := by simpa [sameKey] using he
  simp [clashes, hsame] at hab

omit [UserDictionaryCodec] in
theorem Valid.surfaces_nodup {entries : List UserDictionaryEntry} (h : Valid entries) :
    (entries.map fun entry => (CanonicalText.precomposed entry.reading,
      CanonicalText.precomposed entry.surface, entry.layer)).Nodup := by
  apply List.pairwise_map.mpr
  refine h.apart.imp fun {a b} hab he => ?_
  obtain ⟨hreading, hsurface, hlayer⟩ := by simpa using he
  have hclash : clashes a b = true := by simp [clashes, sameKey, hreading, hsurface, hlayer]
  rw [hclash] at hab
  cases hab

/-- Integrity of the store: after any calls, whatever became of their writes. -/
theorem after_integrity (entries : List UserDictionaryEntry) (persistent : Bool)
    (file : Option Data) (calls : List (UserDictionaryCall × Bool)) :
    let store := (opened entries persistent file).after calls
    (∀ entry ∈ store.storedEntries, validate entry = .ok ()) ∧
      (store.storedEntries.map fun entry => CanonicalText.precomposed entry.id).Nodup ∧
      (store.storedEntries.map fun entry => (CanonicalText.precomposed entry.reading,
        CanonicalText.precomposed entry.surface, entry.layer)).Nodup ∧
      store.storedCandidateIndexSnapshot = .ofEntries store.storedEntries ∧
      (∀ others, (store.file.bind UserDictionaryCodec.decode = none → others = entries) →
        store.persistent = true →
          (opened others true store.file).storedEntries = store.storedEntries) ∧
      ∀ call written e, (runOn (UserDictionaryCall.program written call) store).1 = .error e →
        (runOn (UserDictionaryCall.program written call) store).2 = store := by
  intro store
  have hsound : Sound entries store := sound_after calls (sound_opened entries persistent file)
  exact ⟨hsound.valid.valid, hsound.valid.ids_nodup, hsound.valid.surfaces_nodup, hsound.index,
    hsound.reopened, fun call written => (runOn_sound hsound call written).2⟩

/-! Export and import. -/

theorem runOn_importJSON (data : Data) (merge : Bool) :
    runOn (importJSON data merge written) store =
      settled store written (asked store.storedEntries (.importJSON data merge)) :=
  runOn_program (.importJSON data merge)

/-- What is exported replaces the entries of any store, and adds nothing to its own. -/
theorem importJSON_exported {entries : List UserDictionaryEntry} (h : Valid entries)
    (other : UserDictionaryStore) :
    runOn (importJSON (UserDictionaryCodec.encode entries) false true) other =
      (.ok (), other.replaced entries) := by
  have hnext : asked other.storedEntries
      (.importJSON (UserDictionaryCodec.encode entries) false) = .ok entries := by
    dsimp only [asked]
    rw [UserDictionaryCodec.decode_encode]
    exact importedInto_apart h.valid ((List.nil_append entries).symm ▸ h.apart)
  rw [runOn_importJSON, hnext]
  simp [settled]

theorem importJSON_own (h : Valid store.storedEntries) :
    runOn (importJSON (UserDictionaryCodec.encode store.storedEntries) true true) store =
      (.ok (), store.replaced store.storedEntries) := by
  have hnext : asked store.storedEntries
      (.importJSON (UserDictionaryCodec.encode store.storedEntries) true) =
        .ok store.storedEntries := by
    dsimp only [asked]
    rw [UserDictionaryCodec.decode_encode]
    refine (importedInto_merge h.valid).trans (congrArg Except.ok (accept_of_clashing ?_))
    exact fun entry hentry => List.any_eq_true.mpr ⟨entry, hentry, clashes_refl entry⟩
  rw [runOn_importJSON, hnext]
  simp [settled]

/-- What was merged once is not merged again. -/
theorem importJSON_again {data : Data} {next : UserDictionaryStore}
    (h : runOn (importJSON data true written) store = (.ok (), next)) :
    runOn (importJSON data true true) next = (.ok (), next.replaced next.storedEntries) := by
  rw [runOn_importJSON] at h ⊢
  cases hdecode : UserDictionaryCodec.decode data with
  | none =>
    dsimp only [asked] at h
    rw [hdecode] at h
    cases h
  | some imported =>
    dsimp only [asked] at h ⊢
    rw [hdecode] at h ⊢
    cases himport : importedInto true store.storedEntries imported with
    | error e =>
      change settled store written (importedInto true store.storedEntries imported) = _ at h
      rw [himport] at h
      cases h
    | ok entries =>
      change settled store written (importedInto true store.storedEntries imported) = _ at h
      rw [himport] at h
      obtain ⟨hall, rfl⟩ := importedInto_ok himport
      have hnext : next.storedEntries = accept clashes store.storedEntries imported := by
        unfold settled at h
        dsimp only at h
        split at h
        · cases h
        · obtain rfl := (Prod.mk.inj h).2
          rfl
      show settled next true (importedInto true next.storedEntries imported) = _
      rw [importedInto_merge hall, hnext, accept_accept clashes_refl]
      simp [settled]

/-- Export and import are inverse, and a merge is idempotent. -/
theorem exportJSON_importJSON (entries : List UserDictionaryEntry) (persistent : Bool)
    (file : Option Data) (calls : List (UserDictionaryCall × Bool)) :
    let store := (opened entries persistent file).after calls
    ∃ exported, runOn exportJSON store = (.ok exported, store) ∧
      (∀ other, ∃ next, runOn (importJSON exported false true) other = (.ok (), next) ∧
        next.storedEntries = store.storedEntries) ∧
      (∃ next, runOn (importJSON exported true true) store = (.ok (), next) ∧
        next.storedEntries = store.storedEntries) ∧
      ∀ data written other next,
        runOn (importJSON data true written) other = (.ok (), next) →
          ∃ again, runOn (importJSON data true true) next = (.ok (), again) ∧
            again.storedEntries = next.storedEntries := by
  intro store
  have hsound : Sound entries store := sound_after calls (sound_opened entries persistent file)
  exact ⟨_, rfl, fun other => ⟨_, importJSON_exported hsound.valid other, rfl⟩,
    ⟨_, importJSON_own hsound.valid, rfl⟩,
    fun data written other next h => ⟨_, importJSON_again h, rfl⟩⟩

end

end Hazkey.UserDictionaryStore
