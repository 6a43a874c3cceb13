import Hazkey.NetworkAudit

/-! What an audit that returns has seen: every executable and every ELF file. The links
are what the kernel makes of them unless one leaves the root and comes back by its name. -/

namespace Hazkey.NetworkAudit

open ConversionQuality FileTree KeyedCoding

variable {tools : Tools} {packageRoot : List Text} {t : Tree} {path : Path}

/-! ## Files -/

theorem auditArtifact_eq_ok {artifact : ArtifactKind × List Call}
    (h : auditArtifact tools packageRoot t path = .ok artifact) {data : Data} {executable : Bool}
    (hfile : t.lookup path = some (.file data executable))
    (hcovered : executable = true ∨ elfMagic <+: data) :
    Call.elf path ∈ artifact.2 ∨ Call.script path ∈ artifact.2 := by
  rw [auditArtifact, hfile] at h
  by_cases helf : data.take 4 = elfMagic
  · simp only [helf, if_true, bind_eq_ok, pure_eq_ok] at h
    obtain ⟨-, -, rfl⟩ := h
    exact .inl (List.mem_singleton_self _)
  · have hexecutable : executable = true :=
      hcovered.resolve_right fun hprefix => helf (List.prefix_iff_eq_take.mp hprefix).symm
    by_cases hscript : scriptMagic <+: data
    · simp only [helf, hscript, hexecutable, if_true, if_false, bind_eq_ok, pure_eq_ok] at h
      obtain ⟨-, -, rfl⟩ := h
      exact .inr (List.mem_singleton_self _)
    · simp [helf, hscript, hexecutable] at h

/-- The paths of a run are all seen, each file by one audit and each link by its target. -/
structure Seen (tools : Tools) (packageRoot : List Text) (t : Tree) (calls : List Call)
    (path : Path) : Prop where
  file : ∀ data executable, t.lookup path = some (.file data executable) →
    executable = true ∨ elfMagic <+: data → Call.elf path ∈ calls ∨ Call.script path ∈ calls
  link : ∀ target, t.lookup path = some (.link target) →
    ∃ resolved, resolvePackagedSymlink packageRoot t path target = .ok resolved

theorem Seen.mono {calls later : List Call} (h : Seen tools packageRoot t calls path)
    (hsub : calls ⊆ later) : Seen tools packageRoot t later path :=
  ⟨fun data executable hfile hcovered =>
    (h.file data executable hfile hcovered).imp (@hsub _) (@hsub _), h.link⟩

theorem auditPaths_seen {counts : Counts} {paths : List Path} {audited : Counts × List Call}
    (h : auditPaths tools packageRoot t counts paths = .ok audited) :
    ∀ path ∈ paths, Seen tools packageRoot t audited.2 path := by
  induction paths generalizing counts audited with
  | nil => simp
  | cons path rest ih =>
    rw [auditPaths] at h
    rw [List.forall_mem_cons]
    cases hkind : t.lookup path with
    | none =>
      rw [hkind] at h
      exact ⟨⟨by simp [hkind], by simp [hkind]⟩, ih h⟩
    | some kind =>
      rw [hkind] at h
      cases kind with
      | dir => exact ⟨⟨by simp [hkind], by simp [hkind]⟩, ih h⟩
      | file data executable =>
        simp only [bind_eq_ok, pure_eq_ok] at h
        obtain ⟨artifact, hartifact, later, hlater, rfl⟩ := h
        refine ⟨⟨fun data executable hfile hcovered => ?_, by simp [hkind]⟩, fun p hp =>
          (ih hlater p hp).mono (List.subset_append_right _ _)⟩
        exact (auditArtifact_eq_ok hartifact hfile hcovered).imp (List.mem_append_left _)
          (List.mem_append_left _)
      | link target =>
        simp only [bind_eq_ok, pure_eq_ok] at h
        obtain ⟨resolved, hresolved, artifact, -, later, hlater, rfl⟩ := h
        refine ⟨⟨by simp [hkind], fun target' htarget => ?_⟩, fun p hp =>
          (ih hlater p hp).mono (List.subset_append_right _ _)⟩
        rw [hkind] at htarget
        cases htarget
        exact ⟨resolved, hresolved⟩

theorem auditTree_seen {requireElf : Bool} {audited : Counts × List Call}
    (h : auditTree tools packageRoot t requireElf = .ok audited) {kind : Kind} (hpath : path ≠ [])
    (hkind : t.lookup path = some kind) : Seen tools packageRoot t audited.2 path := by
  simp only [auditTree, bind_eq_ok, require_eq_ok, exists_unit, pure_eq_ok] at h
  obtain ⟨found, hfound, -, rfl⟩ := h
  refine auditPaths_seen hfound path ?_
  rw [rglob, (WeakOrders.sortedBy_perm _ _).mem_iff]
  exact List.mem_map_of_mem (t.mem_of_lookup hpath hkind)

/-! ## Links -/

/-- Dots and empty components change nothing. -/
theorem foldl_enter_parts (names : List Text) (p : Path) :
    (names.filter fun name => decide (name ≠ [] ∧ name ≠ ".".toList)).foldl enter p =
      names.foldl enter p := by
  induction names generalizing p with
  | nil => rfl
  | cons name rest ih =>
    by_cases hname : name ≠ [] ∧ name ≠ ".".toList
    · rw [List.filter_cons_of_pos (by simpa using hname), List.foldl_cons, List.foldl_cons, ih]
    · rw [List.filter_cons_of_neg (by simpa using hname), ih, List.foldl_cons, enter,
        if_pos (by tauto)]

/-- Names are entered one below the other. -/
theorem foldl_enter_names {names : List Text}
    (h : ∀ name ∈ names, name ≠ [] ∧ name ≠ ".".toList ∧ name ≠ "..".toList) (p : Path) :
    names.foldl enter p = p ++ names := by
  induction names generalizing p with
  | nil => simp
  | cons name rest ih =>
    rw [List.forall_mem_cons] at h
    have henter : enter p name = p ++ [name] := by
      rw [enter, if_neg (by tauto), if_neg h.1.2.2]
    rw [List.foldl_cons, henter, ih h.2, List.append_assoc, List.singleton_append]

theorem isPrefixOf?_append (root names : Path) : root.isPrefixOf? (root ++ names) = some names := by
  induction root with
  | nil => rfl
  | cons name root ih => simp [List.isPrefixOf?, ih]

/-- The text of a link that does not climb, read from the root of the host. -/
theorem abspath_link {target : Text} {directory : Path}
    (hnames : ∀ name ∈ directory, name ≠ [] ∧ name ≠ ".".toList ∧ name ≠ "..".toList)
    (hclimbs : climbs directory (components target) = false) :
    abspath (packageRoot ++ directory ++ parts target) =
      abspath packageRoot ++ (components target).foldl enter directory := by
  rw [abspath, List.foldl_append, List.foldl_append, foldl_enter_names hnames, parts,
    foldl_enter_parts, foldl_enter_append _ hclimbs]
  rfl

/-- A link that the audit accepts and that does not climb leads to a file. -/
theorem file_of_resolved {target : Text} {resolved result : Path}
    (h : resolvePackagedSymlink packageRoot t path target = .ok resolved)
    (hpath : ∀ name ∈ path, name ≠ [] ∧ name ≠ ".".toList ∧ name ≠ "..".toList)
    (hclimbs : climbs (start path.dropLast target) (components target) = false)
    (hwalk : walk t (start path.dropLast target) (components target) = some result) :
    IsFile t result := by
  have hnames : ∀ name ∈ start path.dropLast target,
      name ≠ [] ∧ name ≠ ".".toList ∧ name ≠ "..".toList := by
    rw [start]
    split_ifs
    · simp
    · exact fun name hname => hpath name (List.mem_of_mem_dropLast hname)
  rw [resolvePackagedSymlink, abspath_link hnames hclimbs, foldl_enter_of_walk hwalk,
    isPrefixOf?_append] at h
  split_ifs at h
  simp only at h
  split_ifs at h
  cases hkind : t.lookup result with
  | none => simp [hkind] at h
  | some kind =>
    cases kind with
    | file data executable => exact ⟨data, executable, hkind⟩
    | dir => simp [hkind] at h
    | link target => simp [hkind] at h

/-! ## The tree -/

/-- A link leaves the root, and without following a link it ends at a directory. -/
def LeavesToDirectory (t : Tree) (link : Path) (target : Text) : Prop :=
  climbs (start link.dropLast target) (components target) = true ∧
    ∃ result, walk t (start link.dropLast target) (components target) = some result ∧
      t.lookup result = some .dir

theorem not_dir_of_isFile {result : Path} (h : IsFile t result) : t.lookup result ≠ some .dir := by
  obtain ⟨data, executable, hfile⟩ := h
  rw [hfile]
  simp

theorem isFile_of_isReal {result : Path} (h : IsReal t result) (hdir : t.lookup result ≠ some .dir) :
    IsFile t result := by
  obtain ⟨kind, hkind, hlink⟩ := h
  cases kind with
  | dir => exact absurd hkind hdir
  | file data executable => exact ⟨data, executable, hkind⟩
  | link target => exact absurd hlink (by simp [Kind.isLink])

theorem ne_root_of_link {link : Path} {target : Text} (h : t.lookup link = some (.link target)) :
    link ≠ [] := by
  rintro rfl
  simp [Tree.lookup] at h

/-- No link of an audited tree ends at a directory by itself, unless it leaves the root. -/
theorem not_dir_of_walk {requireElf : Bool} {audited : Counts × List Call}
    (h : auditTree tools packageRoot t requireElf = .ok audited)
    (hleaves : ∀ link target, t.lookup link = some (.link target) → ¬LeavesToDirectory t link target)
    (link : Path) (target : Text) (hlink : t.lookup link = some (.link target)) (result : Path)
    (hwalk : walk t (start link.dropLast target) (components target) = some result) :
    t.lookup result ≠ some .dir := by
  intro hdir
  have hroot := ne_root_of_link hlink
  obtain ⟨resolved, hresolved⟩ := (auditTree_seen h hroot hlink).link target hlink
  have hnames : ∀ name ∈ link, name ≠ [] ∧ name ≠ ".".toList ∧ name ≠ "..".toList := by
    intro name hname
    obtain ⟨hempty, hdot, hdots, -⟩ := t.names _ (t.mem_of_lookup hroot hlink) name hname
    exact ⟨hempty, hdot, hdots⟩
  by_cases hclimbs : climbs (start link.dropLast target) (components target) = true
  · exact hleaves link target hlink ⟨hclimbs, result, hwalk, hdir⟩
  · rw [Bool.not_eq_true] at hclimbs
    exact not_dir_of_isFile (file_of_resolved hresolved hnames hclimbs hwalk) hdir

def silentTools : Tools := ⟨fun _ _ => .ok [], id, fun _ => none⟩

def sampleRoot : List Text := ["x".toList, "pkg".toList]

def linkedTree : Tree where
  entries := [(["bin".toList], .dir), (["bin".toList, "tool".toList], .file elfMagic true),
    (["tool".toList], .link "bin/tool".toList)]
  nodup := by decide
  below_root := by decide
  names := by decide
  parent := by decide

def leavingTree : Tree where
  entries := [(["a".toList], .link "../pkg/b".toList), (["b".toList], .file [] false),
    (["pkg".toList], .dir), (["pkg".toList, "b".toList], .dir)]
  nodup := by decide
  below_root := by decide
  names := by decide
  parent := by decide

end Hazkey.NetworkAudit
