import Hazkey.Tallies
import Hazkey.Text

/-! A finite tree of directories, regular files and symbolic links, and the paths that
a kernel resolves in it when the tree is the whole file system. -/

namespace FileTree

open Hazkey

/-- The names from the root down. -/
abbrev Path := List Text

inductive Kind
  | dir
  | file (data : Data) (executable : Bool)
  | link (target : Text)
  deriving DecidableEq

def Kind.isLink : Kind → Bool
  | .link _ => true
  | _ => false

structure Tree where
  entries : List (Path × Kind)
  nodup : (entries.map (·.1)).Nodup
  below_root : ∀ e ∈ entries, e.1 ≠ []
  names : ∀ e ∈ entries, ∀ name ∈ e.1,
    name ≠ [] ∧ name ≠ ".".toList ∧ name ≠ "..".toList ∧ '/' ∉ name
  parent : ∀ e ∈ entries, e.1.dropLast = [] ∨ (e.1.dropLast, Kind.dir) ∈ entries

def Tree.lookup (t : Tree) (p : Path) : Option Kind :=
  if p = [] then some .dir else t.entries.lookup p

theorem Tree.lookup_of_mem (t : Tree) {p : Path} {kind : Kind} (h : (p, kind) ∈ t.entries) :
    t.lookup p = some kind := by
  rw [Tree.lookup, if_neg (t.below_root _ h)]
  exact Tallies.lookup_eq_some_of_mem t.nodup h

theorem Tree.mem_of_lookup (t : Tree) {p : Path} {kind : Kind} (hp : p ≠ [])
    (h : t.lookup p = some kind) : (p, kind) ∈ t.entries := by
  rw [Tree.lookup, if_neg hp] at h
  exact Tallies.mem_of_lookup h

/-- Everything lies in a directory. -/
theorem Tree.lookup_dropLast (t : Tree) {p : Path} {kind : Kind} (h : t.lookup p = some kind) :
    t.lookup p.dropLast = some .dir := by
  by_cases hp : p = []
  · rw [hp]
    rfl
  · rcases t.parent _ (t.mem_of_lookup hp h) with hroot | hparent
    · rw [hroot]
      rfl
    · exact t.lookup_of_mem hparent

/-! ## Paths as text -/

/-- What stands between the slashes. A slash that is doubled or last leaves an empty
component, which asks for a directory as a single dot does. -/
def components (target : Text) : List Text := target.splitOn '/'

def isAbsolute (target : Text) : Bool := target.head? = some '/'

/-- Where the target of a link in a directory starts. -/
def start (directory : Path) (target : Text) : Path :=
  if isAbsolute target then [] else directory

/-- The path after one component. There is nothing above the root. -/
def enter (p : Path) (name : Text) : Path :=
  if name = [] ∨ name = ".".toList then p
  else if name = "..".toList then p.dropLast
  else p ++ [name]

/-- The kernel resolves one component after the other and a link where it meets it. -/
inductive Resolves (t : Tree) : Path → List Text → Path → Prop
  | done (p : Path) : Resolves t p [] p
  | step {p : Path} {name : Text} {rest : List Text} {kind : Kind} {result : Path}
      (hdir : t.lookup p = some .dir) (hkind : t.lookup (enter p name) = some kind)
      (hlink : kind.isLink = false) (hrest : Resolves t (enter p name) rest result) :
      Resolves t p (name :: rest) result
  | follow {p : Path} {name target : Text} {rest : List Text} {found result : Path}
      (hdir : t.lookup p = some .dir) (hlink : t.lookup (enter p name) = some (.link target))
      (htarget : Resolves t (start p target) (components target) found)
      (hrest : Resolves t found rest result) : Resolves t p (name :: rest) result

def ResolvesLink (t : Tree) (link : Path) (target : Text) (result : Path) : Prop :=
  Resolves t (start link.dropLast target) (components target) result

def IsFile (t : Tree) (p : Path) : Prop :=
  ∃ data executable, t.lookup p = some (.file data executable)

def IsReal (t : Tree) (p : Path) : Prop := ∃ kind, t.lookup p = some kind ∧ kind.isLink = false

/-! ## Steps that follow no link -/

def walk (t : Tree) : Path → List Text → Option Path
  | p, [] => some p
  | p, name :: rest =>
    if t.lookup p = some .dir then
      match t.lookup (enter p name) with
      | none => none
      | some kind => if kind.isLink then none else walk t (enter p name) rest
    else none

/-- Whether a parent of the root is asked for. -/
def climbs : Path → List Text → Bool
  | _, [] => false
  | p, name :: rest => (decide (name = "..".toList) && decide (p = [])) || climbs (enter p name) rest

theorem walk_cons {t : Tree} {p result : Path} {name : Text} {rest : List Text} :
    walk t p (name :: rest) = some result ↔ t.lookup p = some .dir ∧
      ∃ kind, t.lookup (enter p name) = some kind ∧ kind.isLink = false ∧
        walk t (enter p name) rest = some result := by
  rw [walk]
  by_cases hdir : t.lookup p = some .dir
  · rw [if_pos hdir]
    cases hkind : t.lookup (enter p name) with
    | none => simp
    | some kind => cases hlink : kind.isLink <;> simp [hdir, hlink]
  · simp [hdir]

theorem Resolves.of_walk {t : Tree} {p result : Path} {names : List Text}
    (h : walk t p names = some result) : Resolves t p names result := by
  induction names generalizing p with
  | nil =>
    obtain rfl := Option.some.inj h
    exact .done p
  | cons name rest ih =>
    obtain ⟨hdir, kind, hkind, hlink, hrest⟩ := walk_cons.mp h
    exact .step hdir hkind hlink (ih hrest)

/-- Without links the names alone say where a path ends. -/
theorem foldl_enter_of_walk {t : Tree} {p result : Path} {names : List Text}
    (h : walk t p names = some result) : names.foldl enter p = result := by
  induction names generalizing p with
  | nil => exact Option.some.inj h
  | cons name rest ih =>
    obtain ⟨-, kind, -, -, hrest⟩ := walk_cons.mp h
    exact ih hrest

/-- Below another root a path that does not climb is the same path. -/
theorem foldl_enter_append {names : List Text} (root : Path) {p : Path}
    (h : climbs p names = false) : names.foldl enter (root ++ p) = root ++ names.foldl enter p := by
  induction names generalizing p with
  | nil => rfl
  | cons name rest ih =>
    simp only [climbs, Bool.or_eq_false_iff, Bool.and_eq_false_iff, decide_eq_false_iff_not] at h
    have henter : enter (root ++ p) name = root ++ enter p name := by
      rw [enter, enter]
      split_ifs with hstay hup
      · rfl
      · have hp : p ≠ [] := h.1.resolve_left (not_not_intro hup)
        rw [List.dropLast_append_of_ne_nil hp]
      · rw [List.append_assoc]
    rw [List.foldl_cons, List.foldl_cons, henter, ih h.2]

theorem lookup_start {t : Tree} {directory : Path} {target : Text}
    (h : t.lookup directory = some .dir) : t.lookup (start directory target) = some .dir := by
  rw [start]
  split_ifs
  · rfl
  · exact h

/-- A resolved path is no link. -/
theorem Resolves.isReal {t : Tree} {p result : Path} {names : List Text}
    (h : Resolves t p names result) (hp : IsReal t p) : IsReal t result := by
  induction h with
  | done p => exact hp
  | step hdir hkind hlink _ ih => exact ih ⟨_, hkind, hlink⟩
  | follow hdir _ _ _ ihtarget ihrest => exact ihrest (ihtarget ⟨_, lookup_start hdir, rfl⟩)

theorem dropLast_enter {t : Tree} {p : Path} {name target : Text} (hdir : t.lookup p = some .dir)
    (hlink : t.lookup (enter p name) = some (.link target)) : (enter p name).dropLast = p := by
  rw [enter] at hlink ⊢
  split_ifs at hlink ⊢ with hstay hup
  · rw [hdir] at hlink
    cases hlink
  · rw [t.lookup_dropLast hdir] at hlink
    cases hlink
  · exact List.dropLast_concat

theorem Resolves.eq_of_not_dir {t : Tree} {p result : Path} {names : List Text}
    (h : Resolves t p names result) (hp : t.lookup p ≠ some .dir) : result = p := by
  cases h with
  | done => rfl
  | step hdir _ _ _ => exact absurd hdir hp
  | follow hdir _ _ _ => exact absurd hdir hp

/-- Where no link leads to a directory by itself, no link does through others. -/
theorem Resolves.walk_or_not_dir {t : Tree} {p result : Path} {names : List Text}
    (h : Resolves t p names result)
    (hlinks : ∀ link target, t.lookup link = some (.link target) → ∀ r,
      walk t (FileTree.start link.dropLast target) (components target) = some r →
        t.lookup r ≠ some .dir) :
    walk t p names = some result ∨ t.lookup result ≠ some .dir := by
  induction h with
  | done p => exact .inl rfl
  | step hdir hkind hlink _ ih => exact ih.imp_left fun h => walk_cons.mpr ⟨hdir, _, hkind, hlink, h⟩
  | @follow p name target rest found result hdir hlink htarget hrest ihtarget _ =>
    right
    have hfound : t.lookup found ≠ some .dir := by
      rcases ihtarget with hwalk | hfound
      · rw [← dropLast_enter hdir hlink] at hwalk
        exact hlinks _ _ hlink found hwalk
      · exact hfound
    rwa [hrest.eq_of_not_dir hfound]

end FileTree
