import NiayanAssurance.Recovery
import NiayanAssurance.Lib.Program

/-!
`reconstruct`: every object of a manifest is put together from whatever good copies of its chunks
the replicas hold; into a candidate, or only to see whether it can be done.
-/

namespace NiayanAssurance.Recovery

open NiayanAssurance.Lib NiayanAssurance.Types NiayanAssurance.RecoveryIo

/-! ### Calls -/

/-- What is asked of the host. But for the reads of a replica, all of it is about the directory of
the candidate. -/
inductive Call
  | read (replica : ℕ) (path : Text)
  /-- `os.listdir`: whether there is anything. -/
  | listdir
  /-- `os.fstatvfs`: the bytes that are free. -/
  | fstatvfs
  /-- `os.open` of a new file, and of the directories above it, which are made where they are
  missing; whether they lie on the mount of the candidate. -/
  | create (path : Text)
  /-- `write_all` to a file that this program has made. -/
  | write (path : Text) (data : Bytes)
  | fsync (path : Text)
  | fsyncParent (path : Text)
  | readBack (path : Text)
  /-- `fault`, by which a test may interrupt the program. -/
  | fault (point : String)

abbrev Answer : Call → Type
  | .read _ _ => ReadHost
  | .listdir => Except String Bool
  | .fstatvfs => Except String ℕ
  | .create _ => Except String Bool
  | .write _ _ => Except String Unit
  | .fsync _ => Except String Unit
  | .fsyncParent _ => Except String Unit
  | .readBack _ => ReadHost
  | .fault _ => Except Error Unit

/-- A program that may raise. -/
abbrev Tool := ExceptT Error (Program Call Answer)

def ask (c : Call) : Tool (Answer c) := ExceptT.lift (Program.ask c)

def raised {α : Type} (x : Except Error α) : Tool α := ExceptT.mk (pure x)

/-- What `x` does, and how it ended: `try`. -/
def attempt {α : Type} (x : Tool α) : Tool (Except Error α) := ExceptT.lift x.run

def fault (point : String) : Tool Unit := do raised (← ask (.fault point))

/-- `Directory.create`. -/
def create (path : Text) : Tool Unit := do
  let _ ← raised (relative path)
  let mount ← raised (answer (← ask (.create path)))
  raised (require (mount = true) "mount crossing")

/-- `Directory.write_new`. -/
def writeNew (path : Text) (b : Bytes) : Tool Unit := do
  create path
  raised (answer (← ask (.write path b)))
  raised (answer (← ask (.fsync path)))
  raised (answer (← ask (.fsyncParent path)))

/-! ### Reports -/

structure BadReplica where
  replica : ℕ
  chunk : Text
  error : String
  deriving DecidableEq

/-- What is wrong with the replicas, and how many bytes of it are kept as evidence. -/
structure Findings where
  count : ℕ := 0
  list : List BadReplica := []
  evidence : ℕ := 0
  deriving DecidableEq

def Findings.note (s : Findings) (replica : ℕ) (chunk : Text) (error : String) : Findings :=
  { s with
    count := s.count + 1
    list := if s.list.length < 256 then s.list ++ [⟨replica, chunk, error⟩] else s.list }

structure Report where
  anchor : Text
  node : Text
  generation : ℕ
  complete : Bool := true
  pending : List Text
  /-- Of every object whether it is verified. -/
  objects : List (Text × Bool) := []
  bad : Findings := {}
  deriving DecidableEq

/-- `type(exc).__name__` -/
def errorName : Error → String
  | .invalid _ => "Invalid"
  | .incomplete _ => "Incomplete"
  | .os name => name
  | .value => "ValueError"

def entries (l : List (String × Value)) : Value := .dict (l.map fun x => (x.1.toList, x.2))

def Report.value (r : Report) : Value := entries
  [("format", someText "nia-recovery-report-v1"), ("anchor", .text r.anchor),
    ("node", .text r.node), ("generation", .int r.generation), ("complete", .bool r.complete),
    ("execution_permit", .bool false), ("native_state_verified", .bool false),
    ("attributes_applied", .bool false), ("pending", .list (r.pending.map .text)),
    ("objects", .list (r.objects.map fun x =>
      entries [("path", .text x.1), ("verified", .bool x.2)])),
    ("bad_replica_count", .int r.bad.count),
    ("bad_replicas", .list (r.bad.list.map fun x => entries
      [("replica", .int x.replica), ("chunk", .text x.chunk), ("error", someText x.error)]))]

def intent (anchor : Text) : Value :=
  entries [("anchor", .text anchor), ("execution_permit", .bool false)]

def ready (anchor reportSha256 : Text) : Value := entries
  [("anchor", .text anchor), ("report_sha256", .text reportSha256),
    ("state", someText "reconciliation-required"), ("execution_permit", .bool false)]

/-! ### Chunks and objects -/

def objectPath (chunk : Text) : Text := "objects/".toList ++ chunk
def evidencePath (b : Bytes) : Text := "evidence/".toList ++ sha b
def payloadPath (path : Text) : Text := "payload/".toList ++ path

/-- `expected_size` of chunk `number`. -/
def Item.chunkSize (i : Item) (number : ℕ) : ℕ := min CHUNK (i.size - number * CHUNK)

/-- A bad copy is kept as evidence, once. -/
def preserve (b : Bytes) (s : Findings) : Tool Findings := do
  if 2 * LIMIT < s.evidence + b.length then throw (.incomplete "evidence capacity exhausted")
  match ← attempt (writeNew (evidencePath b) b) with
  | .ok () => return { s with evidence := s.evidence + b.length }
  | .error e =>
    if e = .os "FileExistsError" then
      let x ← raised (read (evidencePath b) CHUNK (← ask (.readBack (evidencePath b))))
      if x ≠ b then throw (.incomplete "evidence collision")
      return s
    else throw e

/-- One turn of the loop over the replicas: the copy that was selected, and what is wrong. All
errors of a read are an `OSError` or an `Invalid`. -/
def copyStep (out : Bool) (chunk : Text) (size : ℕ) (s : Option Bytes × Findings) (replica : ℕ) :
    Tool (Option Bytes × Findings) := do
  match read (objectPath chunk) CHUNK (← ask (.read replica (objectPath chunk))) with
  | .error e => return (s.1, s.2.note replica chunk (errorName e))
  | .ok b =>
    if b.length ≠ size ∨ sha b ≠ chunk then
      let bad ← if out then preserve b s.2 else pure s.2
      return (s.1, bad.note replica chunk "digest-or-length")
    else return (if s.1 = none then some b else s.1, s.2)

/-- The loop over the chunks of `i` from `number` on, of which `content` has been put together;
whether it came to its end. -/
def chunkLoop (out : Bool) (replicas : ℕ) (i : Item) :
    (number : ℕ) → List Text → Bytes → Findings → Tool (Bool × Bytes × Findings)
  | _, [], content, bad => return (true, content, bad)
  | number, chunk :: chunks, content, bad => do
    let (selected, bad) ←
      (List.range replicas).foldlM (copyStep out chunk (i.chunkSize number)) (none, bad)
    match selected with
    | none => return (false, content, bad)
    | some b =>
      if out then
        raised (answer (← ask (.write (payloadPath i.path) b)))
        fault "after-chunk"
      chunkLoop out replicas i (number + 1) chunks (content ++ b) bad

/-- One turn of the loop over the objects. -/
def objectStep (out : Bool) (replicas : ℕ) (r : Report) (i : Item) : Tool Report := do
  if out then create (payloadPath i.path)
  let (whole, content, bad) ← chunkLoop out replicas i 0 i.chunks [] r.bad
  let good := whole && decide (content.length = i.size ∧ sha content = i.sha256)
  if out then
    raised (answer (← ask (.fsync (payloadPath i.path))))
    raised (answer (← ask (.fsyncParent (payloadPath i.path))))
    fault "after-object"
  return { r with objects := r.objects ++ [(i.path, good)], complete := r.complete && good, bad }

/-! ### The whole of it -/

/-- One of two directories is the other one or above it. -/
def Overlap (p q : List Text) : Prop := p <+: q ∨ q <+: p

instance (p q : List Text) : Decidable (Overlap p q) := by unfold Overlap; infer_instance

/-- What is done about the candidate before anything is read. -/
def prepare (L : Library) (mraw eraw : Bytes) (expected : Text) (total : ℕ)
    (replicas : List (List Text)) (out : List Text) : Tool Unit := do
  raised (require (∀ r ∈ replicas, ¬ Overlap out r) "candidate/source overlap")
  let full ← raised (answer (← ask .listdir))
  raised (require (full = false)
    "candidate must be empty; incomplete candidates require separate review")
  let free ← raised (answer (← ask .fstatvfs))
  raised (require (total + 4 * LIMIT ≤ free) "candidate/evidence capacity")
  writeNew "intent.json".toList (L.dumps (intent expected))
  fault "after-intent"
  writeNew "manifest.json".toList mraw
  writeNew "anchor.json".toList eraw

/-- What is done about it when every object has been gone through. -/
def conclude (L : Library) (r : Report) : Tool Unit := do
  writeNew "report.json".toList (L.dumps r.value)
  fault "after-report"
  if r.complete then
    writeNew "candidate-ready.json".toList (L.dumps (ready r.anchor (sha (L.dumps r.value))))
    fault "after-ready"

/-- The bytes of all objects. -/
def Manifest.total (m : Manifest) : ℕ := (m.objects.map Item.size).sum

/-- `reconstruct`, from the replicas in the directories `replicas`, into the directory `out` if
there is one. -/
def reconstruct (L : Library) (mraw eraw : Bytes) (trust : Value) (expected : Text) (now : ℤ)
    (replicas : List (List Text)) (out : Option (List Text)) : Tool Report := do
  let (m, _) ← raised (authenticate L mraw eraw trust expected now)
  raised (require (1 ≤ replicas.length ∧ replicas.length ≤ 16) "replica count")
  match out with
  | none => pure ()
  | some path => prepare L mraw eraw expected m.total replicas path
  let r ← m.objects.foldlM (objectStep out.isSome replicas.length)
    { anchor := expected, node := m.node, generation := m.generation, pending := m.pending }
  if out.isSome then conclude L r
  return r

end NiayanAssurance.Recovery
