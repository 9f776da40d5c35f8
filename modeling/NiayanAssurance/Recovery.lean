import NiayanAssurance.RecoveryIo

/-!
The recovery of a cohort: its manifest, the trust policy that is pinned, and the anchor that
witnesses have signed.
-/

namespace NiayanAssurance.Recovery

open NiayanAssurance.Lib NiayanAssurance.Types NiayanAssurance.RecoveryIo

def CHUNK : ℕ := 65536
def MAX_CHUNKS : ℕ := 65536
def MAX_OBJECTS : ℕ := 16384
def MAX_TOTAL : ℕ := CHUNK * MAX_CHUNKS

/-- `NIA-RECOVERY-ANCHOR-v1` and a zero byte. -/
def DOMAIN : Bytes :=
  [0x4E, 0x49, 0x41, 0x2D, 0x52, 0x45, 0x43, 0x4F, 0x56, 0x45, 0x52, 0x59, 0x2D, 0x41, 0x4E, 0x43,
    0x48, 0x4F, 0x52, 0x2D, 0x76, 0x31, 0x00]

def KINDS : List Text :=
  ["managed-file".toList, "catalog".toList, "checkpoint".toList, "journal".toList, "audit".toList]

/-! ### Manifests -/

structure Xattr where
  name : Text
  value : Text
  deriving DecidableEq

structure Attributes where
  mode : ℕ
  uid : ℕ
  gid : ℕ
  xattrs : List Xattr
  deriving DecidableEq

structure DirectoryEntry where
  path : Text
  attributes : Attributes
  deriving DecidableEq

/-- An entry of `objects`. -/
structure Item where
  path : Text
  kind : Text
  mode : ℕ
  uid : ℕ
  gid : ℕ
  xattrs : List Xattr
  size : ℕ
  sha256 : Text
  chunks : List Text
  deriving DecidableEq

structure Manifest where
  node : Text
  cohort : Text
  generation : ℕ
  trustEpoch : ℕ
  catalogPath : Text
  checkpointPath : Text
  pending : List Text
  rootAttributes : Attributes
  directories : List DirectoryEntry
  objects : List Item
  deriving DecidableEq

/-- `l == sorted(set(l))` -/
def Canonical (l : List Text) : Prop := l.Pairwise (· < ·)

instance (l : List Text) : Decidable (Canonical l) := by unfold Canonical; infer_instance

/-- The items of a list. -/
def items (v : Value) (why : String) : Except Error (List Value) :=
  match v with
  | .list l => .ok l
  | _ => .error (.invalid why)

def text (v : Value) (why : String) : Except Error Text :=
  match v with
  | .text s => .ok s
  | _ => .error (.invalid why)

lemma text_ok {v : Value} {why : String} {x : Text} : text v why = .ok x ↔ v = .text x := by
  cases v <;> simp [text]

/-- One turn of the loop of `validate_xattrs`: an attribute after those that were seen, and the
bytes of their values. -/
def xattrStep (s : List Xattr × ℕ) (a : Value) : Except Error (List Xattr × ℕ) := do
  let d ← fields a ["name", "value"]
  let name ← text (d.get "name") "xattr name"
  require (fullmatch (fun c => isAlnum c || "_.-".toList.contains c) 1 255 name) "xattr name"
  let value ← text (d.get "value") "xattr value"
  require (value.length % 2 = 0 ∧ value.all isHex = true) "xattr value"
  let total := s.2 + value.length / 2
  require (total ≤ 131072) "xattr bytes"
  return (s.1 ++ [⟨name, value⟩], total)

def validateXattrs (v : Value) : Except Error (List Xattr) := do
  let attrs ← items v "xattr count"
  require (attrs.length ≤ 256) "xattr count"
  let s ← attrs.foldlM xattrStep ([], 0)
  require (Canonical (s.1.map Xattr.name)) "duplicate/unsorted xattrs"
  return s.1

def validateDirectoryAttributes (v : Value) : Except Error Attributes := do
  let d ← fields v ["mode", "uid", "gid", "xattrs"]
  let mode ← integer (d.get "mode") 0 0o7777
  let uid ← integer (d.get "uid") 0 (2 ^ 32 - 1)
  let gid ← integer (d.get "gid") 0 (2 ^ 32 - 1)
  let xattrs ← validateXattrs (d.get "xattrs")
  return ⟨mode, uid, gid, xattrs⟩

def validateDirectory (v : Value) : Except Error DirectoryEntry := do
  let d ← fields v ["path", "attributes"]
  let p ← path (d.get "path")
  let attributes ← validateDirectoryAttributes (d.get "attributes")
  return ⟨p, attributes⟩

/-- An entry of `objects`, after those with the paths `seen`. -/
def validateItem (seen : List Text) (v : Value) : Except Error Item := do
  let d ← fields v
    ["path", "kind", "mode", "uid", "gid", "xattrs", "size", "sha256", "chunks"]
  let p ← path (d.get "path")
  require (p ∉ seen) "duplicate path/state class"
  let kind ← text (d.get "kind") "duplicate path/state class"
  require (kind ∈ KINDS) "duplicate path/state class"
  let mode ← integer (d.get "mode") 0 0o777
  let uid ← integer (d.get "uid") 0 (2 ^ 32 - 1)
  let gid ← integer (d.get "gid") 0 (2 ^ 32 - 1)
  let xattrs ← validateXattrs (d.get "xattrs")
  let size ← integer (d.get "size") 0 MAX_TOTAL
  let sha256 ← digest (d.get "sha256")
  let chunks ← items (d.get "chunks") "chunk coverage"
  require (chunks.length = (size + CHUNK - 1) / CHUNK) "chunk coverage"
  let chunks ← chunks.mapM digest
  return ⟨p, kind, mode, uid, gid, xattrs, size, sha256, chunks⟩

/-- The items so far, their bytes and their chunks. -/
structure Items where
  list : List Item := []
  total : ℕ := 0
  chunks : ℕ := 0

/-- One turn of the loop over `objects`. -/
def itemStep (s : Items) (v : Value) : Except Error Items := do
  let i ← validateItem (s.list.map Item.path) v
  let total := s.total + i.size
  let chunks := s.chunks + i.chunks.length
  require (total ≤ MAX_TOTAL ∧ chunks ≤ MAX_CHUNKS) "cohort size"
  return ⟨s.list ++ [i], total, chunks⟩

/-- `'/'.join(p.split('/')[:n])` for every `n` from 1 to below the number of parts. -/
def ancestors (p : Text) : List Text :=
  let parts := p.splitOn '/'
  (List.range' 1 (parts.length - 1)).map fun n => ['/'].intercalate (parts.take n)

/-- `path` names an item of the kind `kind`. -/
def Mandatory (l : List Item) (path : Text) (kind : String) : Prop :=
  ∃ i ∈ l, i.path = path ∧ i.kind = kind.toList

instance (l : List Item) (path : Text) (kind : String) : Decidable (Mandatory l path kind) := by
  unfold Mandatory
  infer_instance

/-- `validate_manifest`, and the bytes of all objects. -/
def validateManifest (v : Value) : Except Error (Manifest × ℕ) := do
  let m ← fields v ["format", "node", "cohort", "generation", "trust_epoch", "catalog_path",
    "checkpoint_path", "pending", "root_attributes", "directories", "objects"]
  let format ← text (m.get "format") "manifest version"
  require (format = "nia-recovery-manifest-v1".toList) "manifest version"
  let node ← ident (m.get "node")
  let cohort ← digest (m.get "cohort")
  let generation ← integer (m.get "generation") 1
  let trustEpoch ← integer (m.get "trust_epoch") 1
  let catalogPath ← path (m.get "catalog_path")
  let checkpointPath ← path (m.get "checkpoint_path")
  let pending ← items (m.get "pending") "pending set"
  require (pending.length ≤ 4096) "pending set"
  let names ← pending.mapM fun x => text x "pending set"
  require (Canonical names) "pending set"
  let pending ← pending.mapM ident
  let objects ← items (m.get "objects") "object count"
  require (1 ≤ objects.length ∧ objects.length ≤ MAX_OBJECTS) "object count"
  let rootAttributes ← validateDirectoryAttributes (m.get "root_attributes")
  let directories ← items (m.get "directories") "directory count"
  require (directories.length ≤ MAX_OBJECTS) "directory count"
  let directories ← directories.mapM validateDirectory
  let dirs := directories.map DirectoryEntry.path
  require (Canonical dirs) "duplicate/unsorted directories"
  let s ← objects.foldlM itemStep {}
  let paths := s.list.map Item.path
  require (Canonical paths) "noncanonical object order"
  require (∀ p ∈ dirs, p ∉ paths) "file/directory collision"
  require (∀ p ∈ paths ++ dirs, ∀ a ∈ ancestors p, a ∈ dirs) "missing ancestor directory"
  require (∀ p ∈ paths, ∀ a ∈ ancestors p, a ∉ paths) "file ancestor collision"
  require (Mandatory s.list catalogPath "catalog") "mandatory state absent"
  require (Mandatory s.list checkpointPath "checkpoint") "mandatory state absent"
  require (∃ i ∈ s.list, i.kind = "journal".toList) "journal closure absent"
  return (⟨node, cohort, generation, trustEpoch, catalogPath, checkpointPath, pending,
    rootAttributes, directories, s.list⟩, s.total)

/-! ### Trust -/

inductive Role | recovery | witness
  deriving DecidableEq

structure Key where
  id : Text
  domain : Text
  role : Role
  publicKey : Text
  revoked : Bool
  deriving DecidableEq

structure Trust where
  node : Text
  trustEpoch : ℕ
  minGeneration : ℕ
  threshold : ℕ
  maxAnchorLifetime : ℕ
  keys : List Key
  deriving DecidableEq

def role (v : Value) : Except Error Role :=
  match v with
  | .text s =>
    if s = "recovery".toList then .ok .recovery
    else if s = "witness".toList then .ok .witness
    else .error (.invalid "key role")
  | _ => .error (.invalid "key role")

def flag (v : Value) (why : String) : Except Error Bool :=
  match v with
  | .bool b => .ok b
  | _ => .error (.invalid why)

/-- One turn of the loop of `validate_trust`. -/
def keyStep (keys : List Key) (v : Value) : Except Error (List Key) := do
  let k ← fields v ["id", "domain", "role", "public_key", "revoked"]
  let id ← ident (k.get "id")
  let domain ← ident (k.get "domain")
  let publicKey ← digest (k.get "public_key")
  let role ← role (k.get "role")
  let revoked ← flag (k.get "revoked") "key role"
  require (∀ k ∈ keys, k.id ≠ id ∧ k.publicKey ≠ publicKey) "duplicate signing identity"
  return keys ++ [⟨id, domain, role, publicKey, revoked⟩]

def validateTrust (v : Value) : Except Error Trust := do
  let t ← fields v ["format", "node", "trust_epoch", "min_generation", "threshold",
    "max_anchor_lifetime", "keys"]
  let format ← text (t.get "format") "trust version"
  require (format = "nia-recovery-trust-v1".toList) "trust version"
  let node ← ident (t.get "node")
  let trustEpoch ← integer (t.get "trust_epoch") 1
  let minGeneration ← integer (t.get "min_generation") 1
  let threshold ← integer (t.get "threshold") 2 32
  let maxAnchorLifetime ← integer (t.get "max_anchor_lifetime") 1 86400
  let keys ← items (t.get "keys") "key count"
  require (threshold ≤ keys.length ∧ keys.length ≤ 32) "key count"
  let keys ← keys.foldlM keyStep []
  return ⟨node, trustEpoch, minGeneration, threshold, maxAnchorLifetime, keys⟩

/-! ### Anchors -/

structure Anchor where
  node : Text
  generation : ℕ
  trustEpoch : ℕ
  manifestSha256 : Text
  pendingSha256 : Text
  issued : ℕ
  expires : ℕ
  nonce : Text
  deriving DecidableEq

/-- What the loop over the signatures has seen. -/
structure Signers where
  seen : List Text := []
  domains : List Text := []
  roles : List Role := []

/-- The registered key of that name. -/
def Trust.key (t : Trust) (id : Text) : Option Key := t.keys.find? fun k => k.id = id

/-- One turn of the loop over the signatures, of the anchor whose bytes are `raw`. -/
def signatureStep (L : Library) (t : Trust) (raw : Bytes) (s : Signers) (v : Value) :
    Except Error Signers := do
  let d ← fields v ["key", "signature"]
  let id ← ident (d.get "key")
  match t.key id with
  | none => .error (.invalid "unknown/duplicate witness")
  | some k =>
    require (id ∉ s.seen) "unknown/duplicate witness"
    require (k.revoked = false ∧ k.domain ∉ s.domains) "revoked/dependent/invalid witness"
    let signature ← text (d.get "signature") "revoked/dependent/invalid witness"
    require (fullmatch isHex 128 128 signature) "revoked/dependent/invalid witness"
    require (L.verify (fromhex k.publicKey) (fromhex signature) (DOMAIN ++ raw) = true)
      "bad signature"
    return ⟨s.seen ++ [k.id], s.domains ++ [k.domain], s.roles ++ [k.role]⟩

/-- The signatures of an anchor. -/
def signatures (L : Library) (t : Trust) (raw : Bytes) (l : List Value) : Except Error Unit := do
  require (t.threshold ≤ l.length ∧ l.length ≤ 32) "signature count"
  let s ← l.foldlM (signatureStep L t raw) {}
  require (.recovery ∈ s.roles ∧ .witness ∈ s.roles) "recovery and witness roles required"

def validateAnchor (v : Value) : Except Error Anchor := do
  let a ← fields v ["format", "node", "generation", "trust_epoch", "manifest_sha256",
    "pending_sha256", "issued", "expires", "nonce"]
  let format ← text (a.get "format") "anchor version"
  require (format = "nia-recovery-anchor-v1".toList) "anchor version"
  let node ← ident (a.get "node")
  let nonce ← ident (a.get "nonce")
  let generation ← integer (a.get "generation")
  let trustEpoch ← integer (a.get "trust_epoch")
  let issued ← integer (a.get "issued")
  let expires ← integer (a.get "expires")
  let manifestSha256 ← digest (a.get "manifest_sha256")
  let pendingSha256 ← digest (a.get "pending_sha256")
  return ⟨node, generation, trustEpoch, manifestSha256, pendingSha256, issued, expires, nonce⟩

/-- `authenticate`. -/
def authenticate (L : Library) (mraw eraw : Bytes) (trust : Value) (expected : Text) (now : ℤ) :
    Except Error (Manifest × Anchor) := do
  let t ← validateTrust trust
  let _ ← digest (.text expected)
  let now ← integer (.int now)
  let mv ← decode L mraw
  let (m, _) ← validateManifest mv
  require (L.dumps mv = mraw) "noncanonical manifest"
  let ev ← decode L eraw
  let e ← fields ev ["anchor", "signatures"]
  let a ← validateAnchor (e.get "anchor")
  let raw := L.dumps (e.get "anchor")
  require (sha raw = expected) "not independently pinned committed anchor"
  require (a.node = t.node ∧ a.node = m.node ∧ a.generation = m.generation
    ∧ t.minGeneration ≤ a.generation ∧ a.trustEpoch = t.trustEpoch ∧ a.trustEpoch = m.trustEpoch)
    "node/generation/trust floor"
  require (a.issued ≤ now ∧ now < a.expires ∧ a.expires - a.issued ≤ t.maxAnchorLifetime)
    "anchor freshness"
  require (a.manifestSha256 = sha mraw
    ∧ a.pendingSha256 = sha (L.dumps (.list (m.pending.map .text)))) "manifest/pending changed"
  let l ← items (e.get "signatures") "signature count"
  signatures L t raw l
  return (m, a)

/-! ### A cohort -/

mutual

/-- `json.dumps` of values in which nothing must be escaped, and whose keys are sorted. -/
def render : Value → Text
  | .null => "null".toList
  | .bool b => if b then "true".toList else "false".toList
  | .int n => (if n < 0 then ['-'] else []) ++ Nat.toDigits 10 n.natAbs
  | .float s => s
  | .text s => '"' :: s ++ ['"']
  | .list l => '[' :: renderList l ++ [']']
  | .dict d => .ofNat 123 :: renderDict d ++ [.ofNat 125]

def renderList : List Value → Text
  | [] => []
  | [x] => render x
  | x :: l => render x ++ ',' :: renderList l

def renderDict : List (Text × Value) → Text
  | [] => []
  | [x] => renderEntry x
  | x :: d => renderEntry x ++ ',' :: renderDict d

def renderEntry : Text × Value → Text
  | (k, v) => '"' :: k ++ '"' :: ':' :: render v

end

/-- An entry is put before those with a greater key. -/
def insertKey (x : Text × Value) : List (Text × Value) → List (Text × Value)
  | [] => [x]
  | y :: d => if x.1 < y.1 then x :: y :: d else y :: insertKey x d

mutual

/-- The same value, with sorted keys. -/
def sortKeys : Value → Value
  | .list l => .list (sortList l)
  | .dict d => .dict (sortDict d)
  | v => v

def sortList : List Value → List Value
  | [] => []
  | x :: l => sortKeys x :: sortList l

def sortDict : List (Text × Value) → List (Text × Value)
  | [] => []
  | x :: d => insertKey (sortEntry x) (sortDict d)

def sortEntry : Text × Value → Text × Value
  | (k, v) => (k, sortKeys v)

end

example : sortKeys (.dict [("b".toList, .int 1), ("a".toList, .null)])
    = .dict [("a".toList, .null), ("b".toList, .int 1)] := rfl

def ascii (s : Text) : Bytes := s.map fun c => BitVec.ofNat 8 c.toNat

def someText (s : String) : Value := .text s.toList

/-- A file of the cohort, with one chunk or none. -/
def someItem (path kind : String) (data : Bytes) : Value := .dict
  [("chunks".toList, .list (if data = [] then [] else [.text (sha data)])),
    ("gid".toList, .int 1000), ("kind".toList, someText kind), ("mode".toList, .int 0o600),
    ("path".toList, someText path), ("sha256".toList, .text (sha data)),
    ("size".toList, .int data.length), ("uid".toList, .int 1000), ("xattrs".toList, .list [])]

def someCatalog : Bytes := ascii "catalog".toList
def someJournal : Bytes := ascii "journal".toList

def someManifest : Value := .dict
  [("catalog_path".toList, someText "catalog.bin"),
    ("checkpoint_path".toList, someText "checkpoint.bin"),
    ("cohort".toList, .text (List.replicate 64 'c')), ("directories".toList, .list []),
    ("format".toList, someText "nia-recovery-manifest-v1"), ("generation".toList, .int 9),
    ("node".toList, someText "node1"),
    ("objects".toList, .list [someItem "catalog.bin" "catalog" someCatalog,
      someItem "checkpoint.bin" "checkpoint" [], someItem "journal.bin" "journal" someJournal]),
    ("pending".toList, .list [someText "req1"]),
    ("root_attributes".toList, .dict [("gid".toList, .int 1000), ("mode".toList, .int 0o700),
      ("uid".toList, .int 1000), ("xattrs".toList, .list [])]),
    ("trust_epoch".toList, .int 4)]

def someAnchor : Value := .dict
  [("expires".toList, .int 500), ("format".toList, someText "nia-recovery-anchor-v1"),
    ("generation".toList, .int 9), ("issued".toList, .int 100),
    ("manifest_sha256".toList, .text (sha (ascii (render someManifest)))),
    ("node".toList, someText "node1"), ("nonce".toList, someText "recovery1"),
    ("pending_sha256".toList, .text (sha (ascii (render (.list [someText "req1"]))))),
    ("trust_epoch".toList, .int 4)]

def someKey (id domain role : String) (publicKey : ℕ) : Value := .dict
  [("domain".toList, someText domain), ("id".toList, someText id),
    ("public_key".toList, .text (hex (be 32 publicKey))), ("revoked".toList, .bool false),
    ("role".toList, someText role)]

def recoveryKey : ℕ := 0x8a88e3dd7409f195fd52db2d3cba5d72ca6709bf1d94121bf3748801b40f6f5c
def witnessKey : ℕ := 0x8139770ea87d175f56a35466c34c7ecccb8d8a91b4ee37a25df60f5b8fc9b394

def someTrust : Value := .dict
  [("format".toList, someText "nia-recovery-trust-v1"),
    ("keys".toList, .list [someKey "k0" "d0" "recovery" recoveryKey,
      someKey "k1" "d1" "witness" witnessKey]),
    ("max_anchor_lifetime".toList, .int 1000), ("min_generation".toList, .int 9),
    ("node".toList, someText "node1"), ("threshold".toList, .int 2),
    ("trust_epoch".toList, .int 4)]

/-- The signatures of the two keys over the anchor. -/
def recoverySignature : ℕ :=
  0x0af9955d294d515c933ecc1a2861fcb101b170694dacc52e2258af5ccdd0728e3cc3fdec169b6cff39f9ce4957d9479c7f3718ded6e817194b2f2303a7baf40c
def witnessSignature : ℕ :=
  0x81c59dd80114e4ae337ad74841d3791aa0f7426e292237fc954e572c8abca54e74ddb145bbc1795165740f7d50794be432482522d42e6f5216d4f816f6de5b0c

def someSignatures : List Value :=
  [.dict [("key".toList, someText "k0"),
      ("signature".toList, .text (hex (be 64 recoverySignature)))],
    .dict [("key".toList, someText "k1"),
      ("signature".toList, .text (hex (be 64 witnessSignature)))]]

def someEnvelope : Value :=
  .dict [("anchor".toList, someAnchor), ("signatures".toList, .list someSignatures)]

/-- The libraries, as they answer to what is read of this cohort. -/
def someLibrary : Library where
  loads b :=
    if b = ascii (render someManifest) then .ok someManifest
    else if b = ascii (render someEnvelope) then .ok someEnvelope
    else .error (.invalid "JSON")
  dumps v := ascii (render (sortKeys v))
  verify key signature message :=
    decide (message = DOMAIN ++ ascii (render someAnchor))
      && [(recoveryKey, recoverySignature), (witnessKey, witnessSignature)].any fun x =>
        decide (key = be 32 x.1 ∧ signature = be 64 x.2)

/-- What the manifest says. -/
def someCohort : Manifest where
  node := "node1".toList
  cohort := List.replicate 64 'c'
  generation := 9
  trustEpoch := 4
  catalogPath := "catalog.bin".toList
  checkpointPath := "checkpoint.bin".toList
  pending := ["req1".toList]
  rootAttributes := ⟨0o700, 1000, 1000, []⟩
  directories := []
  objects :=
    [⟨"catalog.bin".toList, "catalog".toList, 0o600, 1000, 1000, [], 7, sha someCatalog,
        [sha someCatalog]⟩,
      ⟨"checkpoint.bin".toList, "checkpoint".toList, 0o600, 1000, 1000, [], 0, sha [], []⟩,
      ⟨"journal.bin".toList, "journal".toList, 0o600, 1000, 1000, [], 7, sha someJournal,
        [sha someJournal]⟩]

def someCommitted : Anchor where
  node := "node1".toList
  generation := 9
  trustEpoch := 4
  manifestSha256 := sha (ascii (render someManifest))
  pendingSha256 := sha (ascii (render (.list [someText "req1"])))
  issued := 100
  expires := 500
  nonce := "recovery1".toList

lemma someCohort_authentic : authenticate someLibrary (ascii (render someManifest))
    (ascii (render someEnvelope)) someTrust (sha (ascii (render someAnchor))) 200
      = .ok (someCohort, someCommitted) := by
  decide +kernel

end NiayanAssurance.Recovery
