import NiayanAssurance.Reconstruct
import Mathlib.Data.Char
import Mathlib.Data.List.Lex
import Mathlib.Data.List.Sort

/-!
`export`: a directory that nobody changes is copied into chunks, and a manifest is made of it.

As nothing changes, the source compares nothing with what it was before: those checks are left
out. What is modelled of a call of the system is what it finds.
-/

namespace NiayanAssurance.Recovery

open NiayanAssurance.Lib NiayanAssurance.Types NiayanAssurance.RecoveryIo

/-! ### Directories -/

structure SourceFile where
  mode : ℕ
  uid : ℕ
  gid : ℕ
  xattrs : List (Text × Bytes)
  data : Bytes

/-- What has a name. What is in a directory is in the order of its names. -/
inductive Node
  | file (f : SourceFile)
  | directory (mode uid gid : ℕ) (xattrs : List (Text × Bytes)) (children : List (Text × Node))
  /-- A directory on which something else is mounted. -/
  | mount
  /-- Neither a file nor a directory. -/
  | special

structure Tree where
  path : List Text
  mode : ℕ
  uid : ℕ
  gid : ℕ
  xattrs : List (Text × Bytes)
  children : List (Text × Node)

/-- What is left of `l` in the order of the texts. -/
def sorted (l : List Text) : List Text := l.insertionSort (· ≤ ·)

structure Inventory where
  count : ℕ := 0
  files : List Text := []
  directories : List Text := []

mutual

/-- One turn of the loop of `walk` in a directory at `depth`, whose names are put after `before`. -/
def walkEntry (before : Text) (depth : ℕ) : Text × Node → Inventory → Except Error Inventory
  | (name, node), s => do
    require (s.count + 1 ≤ 2 * MAX_OBJECTS) "inventory count"
    let path ← relative (before ++ name)
    walkNode path depth node { s with count := s.count + 1 }

def walkNode (path : Text) (depth : ℕ) : Node → Inventory → Except Error Inventory
  | .file _, s => .ok { s with files := s.files ++ [path] }
  | .directory _ _ _ _ children, s => do
    require (depth + 1 ≤ 32) "inventory depth"
    walk (path ++ ['/']) (depth + 1) children { s with directories := s.directories ++ [path] }
  | .mount, _ => .error (.invalid "inventory race/mount")
  | .special, s => .ok { s with files := s.files ++ [path] }

def walk (before : Text) (depth : ℕ) : List (Text × Node) → Inventory → Except Error Inventory
  | [], s => .ok s
  | x :: l, s => do
    let s ← walkEntry before depth x s
    walk before depth l s

end

/-- `closed_inventory`: the files and the directories. -/
def closedInventory (t : Tree) : Except Error (List Text × List Text) := do
  let s ← walk [] 0 t.children {}
  return (sorted s.files, sorted s.directories)

def openNode : List (Text × Node) → List Text → Except Error Node
  | _, [] => .error (.os "FileNotFoundError")
  | l, name :: names =>
    match l.lookup name with
    | none => .error (.os "FileNotFoundError")
    | some node =>
      if names = [] then .ok node
      else
        match node with
        | .directory _ _ _ _ children => openNode children names
        | .mount => .error (.invalid "mount crossing")
        | _ => .error (.os "NotADirectoryError")

def openFile (t : Tree) (path : Text) (limit : ℕ) : Except Error SourceFile := do
  let path ← relative path
  let node ← openNode t.children (path.splitOn '/')
  match node with
  | .file f =>
    require (f.data.length ≤ limit) "not bounded regular file"
    return f
  | _ => .error (.invalid "not bounded regular file")

def Tree.file (t : Tree) (path : Text) : Option SourceFile :=
  match openNode t.children (path.splitOn '/') with
  | .ok (.file f) => some f
  | _ => none

/-! ### Attributes -/

def xattrValue (x : Text × Bytes) : Value :=
  .dict [("name".toList, .text x.1), ("value".toList, .text (hex x.2))]

def readXattrs (l : List (Text × Bytes)) : Except Error Value := do
  require (l.length ≤ 256) "xattr count"
  require ((l.map fun x => x.2.length).sum ≤ 131072) "xattr bytes"
  let _ ← validateXattrs (.list (l.map xattrValue))
  return .list (l.map xattrValue)

def attributesValue (mode uid gid : ℕ) (xattrs : Value) : Value := .dict
  [("gid".toList, .int gid), ("mode".toList, .int mode), ("uid".toList, .int uid),
    ("xattrs".toList, xattrs)]

/-- `directory_attributes`, of the directory itself. -/
def rootAttributes (t : Tree) : Except Error Value := do
  let attrs ← readXattrs t.xattrs
  return attributesValue t.mode t.uid t.gid attrs

def directoryAttributes (t : Tree) (path : Text) : Except Error Value := do
  let path ← relative path
  let node ← openNode t.children (path.splitOn '/')
  match node with
  | .directory mode uid gid xattrs _ => do
    let attrs ← readXattrs xattrs
    return attributesValue mode uid gid attrs
  | .mount => .error (.invalid "directory mount changed")
  | _ => .error (.os "NotADirectoryError")

/-! ### Chunks -/

/-- What has been written, by its path. -/
abbrev Files := List (Text × Bytes)

/-- How the host answers when a file is read that nobody changes. -/
def fileHost (b : Bytes) : ReadHost := { size := b.length, content := b }

def Files.store (l : Files) (b : Bytes) : Except Error Files := do
  let p ← relative (objectPath (sha b))
  match l.lookup p with
  | none => return l ++ [(p, b)]
  | some x =>
    let x ← read p CHUNK (fileHost x)
    require (x = b) "existing object mismatch"
    return l

def piece (data : Bytes) (number : ℕ) : Bytes := (data.drop (number * CHUNK)).take CHUNK

def exportChunk (data : Bytes) (s : List Text × Files) (number : ℕ) :
    Except Error (List Text × Files) := do
  let files ← s.2.store (piece data number)
  return (s.1 ++ [sha (piece data number)], files)

/-- An entry of `objects` in what is to be exported. -/
structure Wanted where
  path : Text
  kind : Text
  mode : ℕ
  deriving DecidableEq

def wanted (v : Value) : Except Error Wanted := do
  let d ← fields v ["path", "kind", "mode"]
  let p ← path (d.get "path")
  let mode ← integer (d.get "mode") 0 0o777
  let kind ← text (d.get "kind") "export class"
  require (kind ∈ KINDS) "export class"
  return ⟨p, kind, mode⟩

/-- An entry of `objects` in the manifest. -/
def itemValue (w : Wanted) (f : SourceFile) (attrs : Value) (chunks : List Text) : Value := .dict
  [("chunks".toList, .list (chunks.map .text)), ("gid".toList, .int f.gid),
    ("kind".toList, .text w.kind), ("mode".toList, .int w.mode), ("path".toList, .text w.path),
    ("sha256".toList, .text (sha f.data)), ("size".toList, .int f.data.length),
    ("uid".toList, .int f.uid), ("xattrs".toList, attrs)]

structure Exported where
  items : List Value := []
  total : ℕ := 0
  files : Files := []

def exportObject (t : Tree) (s : Exported) (w : Wanted) : Except Error Exported := do
  let f ← openFile t w.path (MAX_TOTAL - s.total)
  require (f.mode = w.mode) "source mode differs from intended inventory"
  let attrs ← readXattrs f.xattrs
  let (chunks, files) ← (List.range ((f.data.length + CHUNK - 1) / CHUNK)).foldlM
    (exportChunk f.data) ([], s.files)
  return ⟨s.items ++ [itemValue w f attrs chunks], s.total + f.data.length, files⟩

/-! ### The whole of it -/

/-- The manifest, of which `spec` says what is not found in the directory. -/
def manifestValue (spec : Dict) (root : Value) (directories : List (Text × Value))
    (objects : List Value) : Value := .dict
  [("catalog_path".toList, spec.get "catalog_path"),
    ("checkpoint_path".toList, spec.get "checkpoint_path"), ("cohort".toList, spec.get "cohort"),
    ("directories".toList, .list (directories.map fun x =>
      .dict [("attributes".toList, x.2), ("path".toList, .text x.1)])),
    ("format".toList, someText "nia-recovery-manifest-v1"),
    ("generation".toList, spec.get "generation"), ("node".toList, spec.get "node"),
    ("objects".toList, .list objects), ("pending".toList, spec.get "pending"),
    ("root_attributes".toList, root), ("trust_epoch".toList, spec.get "trust_epoch")]

/-- `export`, into the directory `out`, in which there is `listing`: the manifest, and the files
that are written. `dumps` is `canonical`. -/
def exportCohort (dumps : Value → Bytes) (t : Tree) (spec : Value) (out : List Text)
    (listing : List Text) : Except Error (Value × Files) := do
  require (¬ Overlap out t.path) "export output/source overlap"
  require (listing = []) "export output must be empty"
  let d ← fields spec ["node", "cohort", "generation", "trust_epoch", "catalog_path",
    "checkpoint_path", "pending", "objects"]
  let _ ← ident (d.get "node")
  let _ ← digest (d.get "cohort")
  let _ ← integer (d.get "generation") 1
  let _ ← integer (d.get "trust_epoch") 1
  let l ← items (d.get "objects") "export count"
  require (1 ≤ l.length ∧ l.length ≤ MAX_OBJECTS) "export count"
  let l ← l.mapM wanted
  require (l.map Wanted.path).Nodup "duplicate export"
  let (files, directories) ← closedInventory t
  require (files = sorted (l.map Wanted.path)) "export input not closed before copying"
  let root ← rootAttributes t
  let attributes ← directories.mapM (directoryAttributes t)
  let l := l.insertionSort fun v w => v.path ≤ w.path
  let s ← l.foldlM (exportObject t) {}
  let m := manifestValue d root (directories.zip attributes) s.items
  let _ ← validateManifest m
  require (files = l.map Wanted.path) "export inventory not complete/stable"
  require ((dumps m).length ≤ LIMIT) "manifest size"
  let p ← relative "manifest.json".toList
  return (m, s.files ++ [(p, dumps m)])

end NiayanAssurance.Recovery
