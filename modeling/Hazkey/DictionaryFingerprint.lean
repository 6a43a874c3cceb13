import Hazkey.LexicographicOrder
import Hazkey.ProbeDigestRules

/-! The fingerprint of a directory: its files in the order of their paths, each
framed with its digest, whatever the order of enumeration and however each file
is read. -/

namespace Hazkey

namespace ABProbeDictionaryFingerprint

open ABProbeSHA256 WeakOrders

/-- A regular file that was found, with what the reads of it return one after the
other. A count is an Int. -/
structure Entry where
  pathBytes : Data
  reads : List Data
  count_lt : pathBytes.length < 2 ^ 63

/-- The loop over the reads of a file, up to the first that is empty. -/
def readAll : ABProbeSHA256 → List Data → Option ABProbeSHA256
  | fileHasher, [] => some fileHasher
  | fileHasher, data :: reads =>
    if data = [] then some fileHasher
    else (ABProbeSHA256.update fileHasher data).bind fun fileHasher => readAll fileHasher reads

def lexicographicallyPrecedes (left right : Data) : Bool := lexLess UInt8.toNat left right

/-- What the directory hasher is given for an entry. -/
def entryUpdates (entry : Entry) : Option (List Data) :=
  (readAll {} entry.reads).bind fun fileHasher => (finalize fileHasher).map fun digest =>
    [[0x01], encodedUInt64 (UInt64.ofNat entry.pathBytes.length), entry.pathBytes, digest]

def allUpdates : List Entry → Option (List Data)
  | [] => some []
  | entry :: entries => (entryUpdates entry).bind fun updates =>
    (allUpdates entries).map fun more => updates ++ more

/-- All that the directory hasher is given, in order. -/
def directoryUpdates (domain : Text) (entries : List Entry) : Option (List Data) :=
  (allUpdates (sortedBy (fun lhs rhs => lexicographicallyPrecedes lhs.pathBytes rhs.pathBytes)
    entries)).map fun updates => utf8 (domain ++ ['\x00']) :: updates

def hexDigits (bytes : Data) : Text :=
  bytes.flatMap fun byte => [Nat.digitChar (byte.toNat / 16), Nat.digitChar (byte.toNat % 16)]

def sha256 (domain : Text) (entries : List Entry) : Option Text :=
  (directoryUpdates domain entries).bind fun updates => (feed {} updates).bind fun directoryHasher =>
    (finalize directoryHasher).map fun digest => "sha256:".toList ++ hexDigits digest

/-! ## Files -/

/-- What a file holds as far as it was read. -/
def Entry.content (entry : Entry) : Data := (entry.reads.takeWhile (· ≠ [])).flatten

/-- The digest of a content that is read in one piece. -/
def fileDigest (content : Data) : Option Data := (feed {} [content]).bind finalize

/-- The entries are those of a map from paths to contents, in some order. -/
structure Enumerates (entries : List Entry) (files : Data → Option Data) : Prop where
  nodup : (entries.map Entry.pathBytes).Nodup
  mem_iff : ∀ path content, files path = some content ↔
    ∃ entry ∈ entries, entry.pathBytes = path ∧ entry.content = content

theorem readAll_eq (fileHasher : ABProbeSHA256) (reads : List Data) :
    readAll fileHasher reads = feed fileHasher (reads.takeWhile (· ≠ [])) := by
  induction reads generalizing fileHasher with
  | nil => rfl
  | cons data reads ih =>
    by_cases hdata : data = []
    · rw [readAll, if_pos hdata, List.takeWhile_cons_of_neg (by simp [hdata])]
      rfl
    · rw [readAll, if_neg hdata, List.takeWhile_cons_of_pos (by simp [hdata]), feed,
        List.foldlM_cons]
      simp only [ih, feed, Option.bind_eq_bind]

/-- A file has one digest, however it is read. -/
theorem feed_eq_fileDigest (chunks : List Data) :
    (feed {} chunks).bind finalize = fileDigest chunks.flatten := by
  obtain ⟨hasher, hfeed, hfed⟩ := fed_initial.feed chunks
  obtain ⟨hasher', hfeed', hfed'⟩ := fed_initial.feed [chunks.flatten]
  rw [List.flatten_singleton] at hfed'
  rw [fileDigest, hfeed, hfeed', Option.bind_some, Option.bind_some, hfed.finalize, hfed'.finalize]

def digestOf (content : Data) : Data := (fileDigest content).getD []

theorem fileDigest_eq (content : Data) :
    fileDigest content = some (digestOf content) ∧ (digestOf content).length = 32 := by
  obtain ⟨hasher, hfeed, hfed⟩ := fed_initial.feed [content]
  have hdigest : fileDigest content = some (BlockFold.foldBlocks 64 Sha256.compress Sha256.initial
      (paddedMessage ([] ++ [content].flatten))).bytes := by
    rw [fileDigest, hfeed, Option.bind_some, hfed.finalize]
  rw [digestOf, hdigest]
  refine ⟨rfl, ?_⟩
  simp [Sha256.Registers.bytes, Sha256.bigEndian]

/-! ## Frames -/

/-- The bytes of an entry. -/
def frame (x : Data × Data) : Data :=
  0x01 :: (encodedUInt64 (UInt64.ofNat x.1.length) ++ (x.1 ++ x.2))

/-- The path of an entry and the digest of its file. -/
def framed (entry : Entry) : Data × Data := (entry.pathBytes, digestOf entry.content)

theorem entryUpdates_eq (entry : Entry) :
    entryUpdates entry = some [[0x01], encodedUInt64 (UInt64.ofNat entry.pathBytes.length),
      entry.pathBytes, digestOf entry.content] := by
  have hread := feed_eq_fileDigest (entry.reads.takeWhile (· ≠ []))
  rw [← Entry.content, (fileDigest_eq entry.content).1, Option.bind_eq_some_iff] at hread
  obtain ⟨hasher, hfeed, hfinal⟩ := hread
  rw [entryUpdates, readAll_eq, hfeed, Option.bind_some, hfinal]
  rfl

theorem allUpdates_eq (entries : List Entry) : ∃ updates, allUpdates entries = some updates ∧
    updates.flatten = (entries.map framed).flatMap frame := by
  induction entries with
  | nil => exact ⟨[], rfl, rfl⟩
  | cons entry entries ih =>
    obtain ⟨updates, hupdates, hflatten⟩ := ih
    refine ⟨_, by rw [allUpdates, entryUpdates_eq, hupdates]; rfl, ?_⟩
    simp [hflatten, frame, framed]

theorem encodedUInt64_inj {m n : Nat} (hm : m < 2 ^ 63) (hn : n < 2 ^ 63)
    (h : encodedUInt64 (UInt64.ofNat m) = encodedUInt64 (UInt64.ofNat n)) : m = n := by
  rw [encodedUInt64_eq, encodedUInt64_eq, UInt64.toNat_ofNat', UInt64.toNat_ofNat',
    Nat.mod_eq_of_lt (by omega), Nat.mod_eq_of_lt (by omega)] at h
  exact Sha256.bigEndian_inj (by omega) (by omega) h

/-- Frames are told apart by their lengths. -/
theorem frame_append_inj {x y : Data × Data} {rest rest' : Data} (hx : x.1.length < 2 ^ 63)
    (hy : y.1.length < 2 ^ 63) (hlength : x.2.length = y.2.length)
    (h : frame x ++ rest = frame y ++ rest') : x = y ∧ rest = rest' := by
  simp only [frame, List.cons_append, List.append_assoc, List.cons.injEq, true_and] at h
  have hcount : ∀ value, (encodedUInt64 value).length = 8 := by
    intro value
    simp [encodedUInt64]
  obtain ⟨hpath, h⟩ := List.append_inj h (by rw [hcount, hcount])
  obtain ⟨hfirst, h⟩ := List.append_inj h (encodedUInt64_inj hx hy hpath)
  obtain ⟨hsecond, hrest⟩ := List.append_inj h hlength
  exact ⟨Prod.ext hfirst hsecond, hrest⟩

theorem flatMap_frame_inj {xs ys : List (Data × Data)}
    (hxs : ∀ x ∈ xs, x.1.length < 2 ^ 63 ∧ x.2.length = 32)
    (hys : ∀ y ∈ ys, y.1.length < 2 ^ 63 ∧ y.2.length = 32)
    (h : xs.flatMap frame = ys.flatMap frame) : xs = ys := by
  induction xs generalizing ys with
  | nil =>
    cases ys with
    | nil => rfl
    | cons y ys => simp [frame] at h
  | cons x xs ih =>
    cases ys with
    | nil => simp [frame] at h
    | cons y ys =>
      obtain ⟨hx, htail⟩ := List.forall_mem_cons.mp hxs
      obtain ⟨hy, htail'⟩ := List.forall_mem_cons.mp hys
      rw [List.flatMap_cons, List.flatMap_cons] at h
      obtain ⟨rfl, hrest⟩ := frame_append_inj hx.1 hy.1 (hx.2.trans hy.2.symm) h
      rw [ih htail htail' hrest]

/-! ## Directories -/

/-- The byte string that the directory hasher is fed. -/
def directoryBytes (domain : Text) (entries : List Entry) : Option Data :=
  (directoryUpdates domain entries).map List.flatten

def inOrder (entries : List Entry) : List Entry :=
  sortedBy (fun lhs rhs => lexicographicallyPrecedes lhs.pathBytes rhs.pathBytes) entries

theorem mem_inOrder {entries : List Entry} {entry : Entry} :
    entry ∈ inOrder entries ↔ entry ∈ entries := (sortedBy_perm _ entries).mem_iff

theorem directoryBytes_eq (domain : Text) (entries : List Entry) :
    directoryBytes domain entries =
      some (utf8 (domain ++ ['\x00']) ++ ((inOrder entries).map framed).flatMap frame) := by
  obtain ⟨updates, hupdates, hflatten⟩ := allUpdates_eq (inOrder entries)
  rw [inOrder] at hupdates
  rw [directoryBytes, directoryUpdates, hupdates, Option.map_some, Option.map_some,
    List.flatten_cons, hflatten]

variable {entries entries' : List Entry} {files files' : Data → Option Data}

theorem Enumerates.mem_framed (h : Enumerates entries files) {path digest : Data} :
    (path, digest) ∈ (inOrder entries).map framed ↔ (files path).map digestOf = some digest := by
  rw [List.mem_map, Option.map_eq_some_iff]
  constructor
  · rintro ⟨entry, hentry, heq⟩
    obtain ⟨rfl, rfl⟩ := Prod.mk.inj heq
    exact ⟨entry.content, (h.mem_iff _ _).mpr ⟨entry, mem_inOrder.mp hentry, rfl, rfl⟩, rfl⟩
  · rintro ⟨content, hfile, rfl⟩
    obtain ⟨entry, hentry, rfl, rfl⟩ := (h.mem_iff _ _).mp hfile
    exact ⟨entry, mem_inOrder.mpr hentry, rfl⟩

/-- A map has one list of frames, in whatever order it is enumerated. -/
theorem Enumerates.framed_eq (h : Enumerates entries files) (h' : Enumerates entries' files) :
    (inOrder entries).map framed = (inOrder entries').map framed := by
  have hweak := weak_lexLess_on UInt8.toNat Entry.pathBytes
    fun entry => files entry.pathBytes = some entry.content
  have hlisted : ∀ {es : List Entry}, Enumerates es files →
      ∀ entry ∈ inOrder es, files entry.pathBytes = some entry.content := by
    intro es hes entry hentry
    exact (hes.mem_iff _ _).mpr ⟨entry, mem_inOrder.mp hentry, rfl, rfl⟩
  have hordered : ∀ es : List Entry, Ordered
      (fun lhs rhs => lexLess UInt8.toNat lhs.pathBytes rhs.pathBytes) (inOrder es) := fun es =>
    sortedBy_ordered (weak_lexLess_on UInt8.toNat Entry.pathBytes _).strictWeak
  have hnodup : ∀ {es : List Entry}, Enumerates es files → ((inOrder es).map framed).Nodup := by
    intro es hes
    have hpaths : ((inOrder es).map Entry.pathBytes).Nodup :=
      ((sortedBy_perm _ es).map Entry.pathBytes).nodup_iff.mpr hes.nodup
    have hfst : ((inOrder es).map framed).map Prod.fst = (inOrder es).map Entry.pathBytes := by
      rw [List.map_map]
      rfl
    exact List.Nodup.of_map Prod.fst (hfst ▸ hpaths)
  apply map_eq_of_ordered hweak (hlisted h) (hlisted h') _ _ (hordered entries) (hordered entries')
  · rw [List.perm_ext_iff_of_nodup (hnodup h) (hnodup h')]
    rintro ⟨path, digest⟩
    rw [h.mem_framed, h'.mem_framed]
  · intro x y hx hy hxy hyx
    have hpath := eq_of_lexLess (fun _ _ => UInt8.toNat_inj.mp) hxy hyx
    rw [hpath, hy, Option.some.injEq] at hx
    rw [framed, framed, hpath, hx]
  · intro x y hx hy hxy
    have hpath : x.pathBytes = y.pathBytes := congrArg Prod.fst hxy
    have hirrefl := hweak.irrefl hx
    rwa [hpath] at hirrefl ⊢

/-- The chunks of a message do not matter to its digest, which is the standard's,
and the bytes for a directory are those of its map from paths to digests. -/
theorem fingerprint_identifies :
    (∀ chunks : List Data, chunks.flatten.length < 2 ^ 61 →
      (feed {} chunks).bind finalize = some (Sha256.digest chunks.flatten)) ∧
    ∀ (domain : Text) (entries entries' : List Entry) (files files' : Data → Option Data),
      Enumerates entries files → Enumerates entries' files' →
      ∃ bytes bytes', directoryBytes domain entries = some bytes ∧
        directoryBytes domain entries' = some bytes' ∧
        (files = files' → bytes = bytes') ∧
        (bytes = bytes' → ∀ path, (files path).map fileDigest = (files' path).map fileDigest) := by
  refine ⟨fun chunks h => finalize_feed h, fun domain entries entries' files files' h h' => ?_⟩
  refine ⟨_, _, directoryBytes_eq domain entries, directoryBytes_eq domain entries', ?_, ?_⟩
  · rintro rfl
    rw [h.framed_eq h']
  · intro hbytes path
    have hlengths : ∀ es : List Entry, ∀ x ∈ (inOrder es).map framed,
        x.1.length < 2 ^ 63 ∧ x.2.length = 32 := by
      intro es x hx
      obtain ⟨entry, -, rfl⟩ := List.mem_map.mp hx
      exact ⟨entry.count_lt, (fileDigest_eq entry.content).2⟩
    have hframes := flatMap_frame_inj (hlengths entries) (hlengths entries')
      (List.append_cancel_left hbytes)
    have hsame : (files path).map digestOf = (files' path).map digestOf := by
      apply Option.ext
      intro digest
      rw [← h.mem_framed, ← h'.mem_framed, hframes]
    have hdigest : fileDigest = some ∘ digestOf := funext fun content => (fileDigest_eq content).1
    rw [hdigest, ← Option.map_map, ← Option.map_map, hsame]

def sampleFiles (path : Data) : Option Data :=
  if path = [0x61] then some [2, 3] else if path = [0x62] then some [1] else none

def enumerated : List Entry :=
  [⟨[0x62], [[1]], by decide⟩, ⟨[0x61], [[2], [3], []], by decide⟩]

def enumeratedBackwards : List Entry :=
  [⟨[0x61], [[2, 3]], by decide⟩, ⟨[0x62], [[1]], by decide⟩]

theorem Enumerates.of_pairs (hnodup : (entries.map Entry.pathBytes).Nodup)
    (h : ∀ path content, files path = some content ↔
      (path, content) ∈ entries.map fun entry => (entry.pathBytes, entry.content)) :
    Enumerates entries files where
  nodup := hnodup
  mem_iff path content := by simp [h, List.mem_map]

theorem sampleFiles_eq_some (path content : Data) : sampleFiles path = some content ↔
    path = [0x61] ∧ content = [2, 3] ∨ path = [0x62] ∧ content = [1] := by
  rw [sampleFiles]
  split_ifs with ha hb
  · simp [ha, eq_comm]
  · simp [hb, eq_comm]
  · simp [ha, hb]

theorem enumerated_sample : Enumerates enumerated sampleFiles := by
  have hpairs : (enumerated.map fun entry => (entry.pathBytes, entry.content)) =
      [([0x62], [1]), ([0x61], [2, 3])] := by decide
  refine .of_pairs (by decide) fun path content => ?_
  rw [hpairs, sampleFiles_eq_some, or_comm]
  simp

theorem enumeratedBackwards_sample : Enumerates enumeratedBackwards sampleFiles := by
  have hpairs : (enumeratedBackwards.map fun entry => (entry.pathBytes, entry.content)) =
      [([0x61], [2, 3]), ([0x62], [1])] := by decide
  refine .of_pairs (by decide) fun path content => ?_
  rw [hpairs, sampleFiles_eq_some]
  simp

theorem fingerprint_sample :
    (feed {} [[0x61], [0x62, 0x63]]).bind finalize = some (Sha256.digest [0x61, 0x62, 0x63]) ∧
      directoryBytes ['d'] enumerated = directoryBytes ['d'] enumeratedBackwards := by
  refine ⟨fingerprint_identifies.1 [[0x61], [0x62, 0x63]] (by decide), ?_⟩
  obtain ⟨bytes, bytes', hbytes, hbytes', hsame, -⟩ := fingerprint_identifies.2 ['d'] enumerated
    enumeratedBackwards sampleFiles sampleFiles enumerated_sample enumeratedBackwards_sample
  rw [hbytes, hbytes', hsame rfl]

end ABProbeDictionaryFingerprint

end Hazkey
