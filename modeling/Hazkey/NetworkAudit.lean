import Hazkey.FileTree
import Hazkey.NearDuplicates
import Hazkey.QualityReports
import Mathlib.Data.List.Infix

/-! The audit of a packaged tree for network capabilities: every link is resolved by
its text, every file is told apart by its first bytes. -/

namespace Hazkey.NetworkAudit

open ConversionQuality FileTree

/-- What is asked of `readelf`, of case folding and of the pattern of network commands. -/
structure Tools where
  readelf : Data → Text → Except String Text
  casefold : Text → Text
  networkCommand : Data → Option (Nat × Text)

def forbiddenElfMetadataMarkers : List Text :=
  ["qt6network", "qnetworkaccessmanager", "qnetworkrequest", "qnetworkreply",
    "foundationnetworking", "urlsession", "nsurlconnection", "asynchttpclient", "niohttpclient",
    "niohttp1", "curl_easy_", "curl_multi_", "curl_share_", "curl_url_", "libcurl.so"].map
    String.toList

def forbiddenElfRodataMarkers : List Text :=
  ["libcurl.so", "curl_easy_", "curl_multi_", "curl_share_", "curl_url_"].map String.toList

def elfMagic : Data := [0x7F, 0x45, 0x4C, 0x46]

def scriptMagic : Data := [0x23, 0x21]

/-- `bytes.lower`. -/
def lower (data : Data) : Data :=
  data.map fun byte => if 0x41 ≤ byte ∧ byte ≤ 0x5A then byte + 0x20 else byte

def encodeAscii (text : Text) : Data := text.map fun c => UInt8.ofNat c.toNat

def refuse (message : String) (present : List Text) : Except String Unit :=
  require (present = []) (message ++ String.ofList
    (List.intercalate ", ".toList (WeakOrders.sortedBy FrozenCorpus.textLess present)))

def auditElf (tools : Tools) (path : String) (data : Data) : Except String Unit := do
  let dynamic ← tools.readelf data "-dW".toList
  let symbols ← tools.readelf data "-sW".toList
  refuse s!"{path} exposes forbidden network capability metadata: "
    (forbiddenElfMetadataMarkers.filter (· <:+: tools.casefold (dynamic ++ '\n' :: symbols)))
  refuse s!"{path} embeds forbidden network capability identifier(s): "
    (forbiddenElfRodataMarkers.filter (encodeAscii · <:+: lower data))

def auditScript (tools : Tools) (path : String) (data : Data) : Except String Unit :=
  match tools.networkCommand data with
  | none => .ok ()
  | some (line, command) =>
    .error s!"{path}:{line} invokes forbidden network command: {String.ofList command}"

inductive ArtifactKind
  | elf
  | script
  | data
  deriving DecidableEq

/-- A file that was passed to one of the two audits. -/
inductive Call
  | elf (path : Path)
  | script (path : Path)
  deriving DecidableEq

def render (root path : Path) : String :=
  String.ofList ('/' :: List.intercalate ['/'] (root ++ path))

def auditArtifact (tools : Tools) (root : Path) (t : Tree) (path : Path) :
    Except String (ArtifactKind × List Call) :=
  match t.lookup path with
  | some (.link _) =>
    .error s!"symbolic link requires a package-root audit: {render root path}"
  | some (.file data executable) =>
    if data.take 4 = elfMagic then do
      auditElf tools (render root path) data
      return (.elf, [.elf path])
    else if scriptMagic <+: data then
      if executable then do
        auditScript tools (render root path) data
        return (.script, [.script path])
      else .ok (.data, [])
    else if executable then
      .error s!"executable product artifact has unsupported format: {render root path}"
    else .ok (.data, [])
  | _ => .error s!"product artifact is not a regular file: {render root path}"

/-! ## Links -/

/-- `pathlib` drops empty components and single dots. -/
def parts (target : Text) : List Text :=
  (components target).filter fun name => decide (name ≠ [] ∧ name ≠ ".".toList)

/-- `os.path.abspath` of a path that is absolute. -/
def abspath (names : List Text) : Path := names.foldl enter []

/-- A path of exactly two slashes in front is below another root than `/`. -/
def doubleSlash (target : Text) : Bool :=
  decide ("//".toList <+: target) && !decide ("///".toList <+: target)

/-- Whether a component below the cursor is a link. -/
def chained (t : Tree) : Path → List Text → Bool
  | _, [] => false
  | cursor, part :: rest =>
    (t.lookup (cursor ++ [part])).any Kind.isLink || chained t (cursor ++ [part]) rest

def renderLink (root path : Path) (target : Text) : String :=
  s!"{render root path} -> {String.ofList target}"

def resolvePackagedSymlink (packageRoot : List Text) (t : Tree) (path : Path) (target : Text) :
    Except String Path :=
  if doubleSlash target then
    .error s!"ValueError: '{String.ofList target}' is not in the subpath of '/'"
  else
    match (abspath packageRoot).isPrefixOf?
        (abspath (packageRoot ++ start path.dropLast target ++ parts target)) with
    | none =>
      .error s!"packaged symbolic link escapes product root: {renderLink packageRoot path target}"
    | some relative =>
      if chained t [] relative then
        .error s!"packaged symbolic link has a chained target: {renderLink packageRoot path target}"
      else
        match t.lookup relative with
        | some (.file _ _) => .ok relative
        | _ => .error (s!"packaged symbolic link target is missing or not a file: " ++
            renderLink packageRoot path target)

/-! ## The tree -/

structure Counts where
  elf : Nat
  script : Nat
  data : Nat
  symlink : Nat
  deriving DecidableEq

def Counts.zero : Counts := ⟨0, 0, 0, 0⟩

def Counts.addSymlink (counts : Counts) : Counts := { counts with symlink := counts.symlink + 1 }

def Counts.add (counts : Counts) : ArtifactKind → Counts
  | .elf => { counts with elf := counts.elf + 1 }
  | .script => { counts with script := counts.script + 1 }
  | .data => { counts with data := counts.data + 1 }

/-- `rglob` lists what lies below the root and follows no link. -/
def rglob (t : Tree) : List Path := WeakOrders.sortedBy FrozenCorpus.idsLess (t.entries.map (·.1))

def auditPaths (tools : Tools) (packageRoot : List Text) (t : Tree) :
    Counts → List Path → Except String (Counts × List Call)
  | counts, [] => .ok (counts, [])
  | counts, path :: rest =>
    match t.lookup path with
    | some (.link target) => do
      let resolved ← resolvePackagedSymlink packageRoot t path target
      let artifact ← auditArtifact tools packageRoot t resolved
      let audited ← auditPaths tools packageRoot t counts.addSymlink rest
      return (audited.1, artifact.2 ++ audited.2)
    | some (.file _ _) => do
      let artifact ← auditArtifact tools packageRoot t path
      let audited ← auditPaths tools packageRoot t (counts.add artifact.1) rest
      return (audited.1, artifact.2 ++ audited.2)
    | _ => auditPaths tools packageRoot t counts rest

def auditTree (tools : Tools) (packageRoot : List Text) (t : Tree) (requireElf : Bool) :
    Except String (Counts × List Call) := do
  let audited ← auditPaths tools packageRoot t .zero (rglob t)
  require (requireElf = false ∨ audited.1.elf ≠ 0)
    s!"product tree contains no auditable ELF artifacts: {render packageRoot []}"
  return audited

end Hazkey.NetworkAudit
