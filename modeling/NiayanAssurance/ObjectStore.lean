import NiayanAssurance.FileSystem

/-!
The content-addressed store: `MC_Store`, whose objects are named by their digest and whose pins
are named by their identity, each published from a staged file by one rename that replaces
nothing.
-/

namespace NiayanAssurance.ObjectStore

open NiayanAssurance.Lib NiayanAssurance.Types NiayanAssurance.FileSystem

/-- The paths of the store below its directory. -/
inductive Path
  | incoming (name : Identity)
  | object (d : Digest)
  | pin (id : Identity)
  /-- The directory of the objects whose digests begin with `b`. -/
  | shard (b : Byte)
  deriving DecidableEq

/-- `Max_Object_Size`. -/
def maxObjectSize : ℕ := 8589934592

/-- What the calls read of a store and of the process they run in. -/
structure Store where
  opened : Bool
  user : User

/-- `Writer`. -/
structure Writer where
  f : FileSystem.File := {}
  name : Identity := zeroIdentity
  expected : Digest := zeroDigest
  size : ℕ := 0
  written : ℕ := 0
  hash : Sha256.Context := Sha256.init
  active : Bool := false

abbrev Prog (α : Type) := FileSystem.Prog Path α

variable (S : Store)

def needDirectory (p : Path) : Prog Outcome := do
  let (v, status) ← stat p
  if status ≠ .ok then return status
  else if v.kind = .absent then makeDirectory p
  else if v.kind ≠ .directory ∨ v.mode ≠ 0o700 ∨ v.uid ≠ S.user.uid then return .denied
  else return .ok

def beginObject (f : FileSystem.File) : Prog ((FileSystem.File × Identity) × Outcome) :=
  if !S.opened then pure ((f, zeroIdentity), .invalidInput)
  else do
    let name : Identity ← ask .random
    let (f, status) ← createNew S.user (.incoming name) f
    return ((f, name), status)

def publish (name : Identity) (f : FileSystem.File) (d : Digest) :
    Prog (FileSystem.File × Outcome) := do
  let (v, status) ← info f
  if status ≠ .ok then return (f, status)
  else
    let status ← setMetadata f { v with mode := 0o400, uid := S.user.uid, gid := S.user.gid }
    if status ≠ .ok then return (f, status)
    else
      let status ← needDirectory S (.shard (d.bytes.headD 0))
      if status ≠ .ok then return (f, status)
      else
        let f := close f
        let status ← renameNew (.incoming name) (.object d)
        if status = .conflict then
          let (existing, status) ← openRead (.object d) {}
          let ((found, _), status) ← whenOk status (zeroDigest, 0) (hash existing maxObjectSize)
          let status := if status = .ok ∧ found ≠ d then .corrupt else status
          if status = .ok then
            let clean ← remove (.incoming name)
            return (f, if clean ≠ .ok then clean else status)
          else return (f, status)
        else return (f, status)

def put (data : Bytes) : Prog (Digest × Outcome) :=
  if 16777216 < data.length then pure (zeroDigest, .exhausted)
  else do
    let ((f, name), status) ← beginObject S {}
    if status ≠ .ok then return (zeroDigest, status)
    else
      let (f, status) ← writeAll f data
      if status = .ok then
        let d := Sha256.hash data
        let (_, status) ← publish S name f d
        return (if status ≠ .ok then zeroDigest else d, status)
      else return (zeroDigest, status)

/-- `MC_FS.Info` of the file that is imported. -/
def inputInfo : Prog (Info × Outcome) := do
  let r : Except Outcome Info ← ask .inputInfo
  match r with
  | .ok v => return (v, .ok)
  | .error o => return ({}, o)

/-- `MC_FS.Read_At` of the file that is imported. -/
def inputRead (offset wanted : ℕ) : Prog (Bytes × Outcome) := do
  let r : Except Outcome Bytes ← ask (.inputRead offset wanted)
  match r with
  | .ok b => return (b, .ok)
  | .error o => return ([], o)

/-- The loop of `Import_File`, with at most `fuel` rounds. -/
def importLoop (limit : ℕ) :
    (fuel : ℕ) → FileSystem.File → Sha256.Context → (atByte : ℕ) →
      Prog ((FileSystem.File × Sha256.Context × ℕ) × Outcome)
  | 0, f, c, atByte => pure ((f, c, atByte), .exhausted)
  | fuel + 1, f, c, atByte => do
    let (b, status) ← inputRead atByte 65536
    if status ≠ .ok ∨ b = [] then return ((f, c, atByte), status)
    else if limit - atByte < b.length then return ((f, c, atByte), .exhausted)
    else
      let (f, status) ← writeAll f b
      if status ≠ .ok then return ((f, c, atByte), status)
      else importLoop limit fuel f (Sha256.update c b) (atByte + b.length)

/-- Every round of the loop but the last raises `At_Byte`, which the limit bounds. -/
def importFile (limit : ℕ) : Prog (Digest × Outcome) :=
  if maxObjectSize < limit then pure (zeroDigest, .exhausted)
  else do
    let (before, status) ← inputInfo
    if status ≠ .ok then return (zeroDigest, status)
    else if before.kind ≠ .regular ∨ limit < before.size then return (zeroDigest, .exhausted)
    else
      let ((f, name), status) ← beginObject S {}
      if status ≠ .ok then return (zeroDigest, status)
      else
        let ((f, c, atByte), status) ← importLoop limit (limit + 1) f Sha256.init 0
        let (after, status) ← whenOk status {} inputInfo
        let status := if status = .ok ∧ (before ≠ after ∨ atByte ≠ before.size) then .conflict
          else status
        if status = .ok then
          let d := Sha256.finish c
          let (_, status) ← publish S name f d
          return (if status ≠ .ok then zeroDigest else d, status)
        else return (zeroDigest, status)

def openObject (d : Digest) (f : FileSystem.File) : Prog (FileSystem.File × Outcome) :=
  if !S.opened ∨ d = zeroDigest then pure (f, .invalidInput)
  else do
    let (f, status) ← openRead (.object d) f
    if status ≠ .ok then return (f, status)
    else
      let (v, status) ← info f
      let status := if status = .ok ∧ (v.mode ≠ 0o400 ∨ v.uid ≠ S.user.uid) then .denied else status
      let ((found, _), status) ← whenOk status (zeroDigest, 0) (hash f maxObjectSize)
      let (after, status) ← whenOk status {} (info f)
      let status := if status = .ok ∧ (found ≠ d ∨ v ≠ after) then .corrupt else status
      return (if status ≠ .ok then close f else f, status)

def checkPin (id : Identity) (manifest : Digest) : Prog Outcome := do
  let (f, status) ← openRead (.pin id) {}
  let (b, status) ← whenOk status [] (readAt f 0 33)
  return if status = .ok ∧ b ≠ manifest.bytes then .conflict else status

def pin (id : Identity) (manifest : Digest) : Prog Outcome :=
  if id = zeroIdentity then pure .invalidInput
  else do
    let (_, status) ← openObject S manifest {}
    if status ≠ .ok then return status
    else
      let ((f, name), status) ← beginObject S {}
      if status ≠ .ok then return status
      else
        let (f, status) ← writeAll f manifest.bytes
        let (_, status) ← whenOk status () do
          let status ← sync f
          return ((), status)
        if status ≠ .ok then return status
        else
          let status ← renameNew (.incoming name) (.pin id)
          if status = .conflict then
            let status ← checkPin id manifest
            if status = .ok then
              let cleanup ← remove (.incoming name)
              return if cleanup ≠ .ok then cleanup else status
            else return status
          else return status

def beginWrite (expected : Digest) (size : ℕ) (w : Writer) : Prog (Writer × Outcome) :=
  if w.active ∨ expected = zeroDigest ∨ maxObjectSize < size then pure (w, .invalidInput)
  else do
    let ((f, name), status) ← beginObject S w.f
    if status ≠ .ok then return ({ w with f := f, name := name }, status)
    else return ({ f, name, expected, size, written := 0, hash := Sha256.init, active := true },
      status)

def writeChunk (w : Writer) (data : Bytes) : Prog (Writer × Outcome) :=
  if !w.active ∨ w.size - w.written < data.length then pure (w, .invalidInput)
  else do
    let (f, status) ← writeAll w.f data
    if status = .ok then
      return ({ w with f, hash := Sha256.update w.hash data, written := w.written + data.length },
        status)
    else return ({ w with f := f }, status)

def abortWrite (w : Writer) : Writer := { w with f := close w.f, active := false }

def finishWrite (w : Writer) : Prog (Writer × Outcome) :=
  if !w.active ∨ w.written ≠ w.size ∨ Sha256.finish w.hash ≠ w.expected then
    pure (abortWrite w, .corrupt)
  else do
    let (f, status) ← publish S w.name w.f w.expected
    return ({ w with f := close f, active := false }, status)

/-! ### Workers -/

/-- A call that one worker makes. -/
inductive Operation
  | put (data : Bytes)
  | importFile (limit : ℕ)
  | pin (id : Identity) (manifest : Digest)
  | beginWrite (expected : Digest) (size : ℕ)
  | writeChunk (data : Bytes)
  | finishWrite
  | abortWrite

/-- The call is on the worker's own writer, and makes the file of the writer if it makes one. -/
def Operation.onWriter : Operation → Bool
  | .put _ | .importFile _ | .pin _ _ => false
  | .beginWrite _ _ | .writeChunk _ | .finishWrite | .abortWrite => true

def body : Operation → Writer → Prog ((Digest × Outcome) × Writer)
  | .put data, w => do return (← put S data, w)
  | .importFile limit, w => do return (← importFile S limit, w)
  | .pin id manifest, w => do return ((zeroDigest, ← pin S id manifest), w)
  | .beginWrite expected size, w => do
    let (w, status) ← beginWrite S expected size w
    return ((zeroDigest, status), w)
  | .writeChunk data, w => do
    let (w, status) ← writeChunk w data
    return ((zeroDigest, status), w)
  | .finishWrite, w => do
    let (w, status) ← finishWrite S w
    return ((zeroDigest, status), w)
  | .abortWrite, w => pure ((zeroDigest, .ok), abortWrite w)

/-- Any number of workers on one store. A worker may end at any point, and all of them at once;
where `works` holds, no call of the system fails. A file belongs to the worker that made it, and
to its writer if it was made for that. -/
def machine (τ : Type) (works : Prop) :
    Machine τ Operation Writer (Digest × Outcome) (Call Path) Answer (Files Path (τ × Bool)) where
  body := body S
  fresh := {}
  act t k := act S.user (t, k.onWriter) works
  others _ _ := False
  halt _ s s' := s' = s
  crash := Crash

end NiayanAssurance.ObjectStore
