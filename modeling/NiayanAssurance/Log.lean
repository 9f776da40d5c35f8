import NiayanAssurance.LogFormat
import NiayanAssurance.Lib.File

/-!
The ledger file: an append-only sequence of records behind an exclusive lock.

Every operation takes, as its last argument, what the host answered to the calls it made.
-/

namespace NiayanAssurance.Log

open NiayanAssurance.Lib NiayanAssurance.Types NiayanAssurance.LogFormat

def maxRecords : ℕ := 1048576

/-- A journal that is open. `filePoisoned` is the flag of the file below it. -/
structure Journal where
  rootId : Identity
  count : ℕ
  lastDigest : Digest
  tailBytes : ℕ
  poisoned : Bool
  filePoisoned : Bool
  count_le : count ≤ maxRecords
  tail_lt : tailBytes < 256

lemma no_tail : 0 < 256 := by decide

/-! ### Opening -/

/-- What the host answers while a journal is opened: to `Open_Locked`, to `Info`, and which
frame, if any, it fails to read in full. `created` tells whether a refused `Open_Locked` has
left a new file behind. -/
structure OpenHost where
  locked : Outcome := .ok
  created : Bool := false
  info : Outcome := .ok
  unreadable : Option ℕ := none

/-- Frame `i` of a file, counted from 0. -/
def frame (b : Bytes) (i : ℕ) : Bytes := range b (i * 256 + 1) ((i + 1) * 256)

/-- One turn of the loop: frame `i` must follow a record with the digest `previous`. -/
def scanStep (rootId : Identity) (b : Bytes) (unreadable : Option ℕ) (previous : Digest)
    (i : ℕ) : Option Digest :=
  if unreadable = some i then none
  else
    match decode (frame b i) with
    | none => none
    | some e =>
      if (e.sequence : ℕ) ≠ i + 1 ∨ e.rootId ≠ rootId ∨ e.previous ≠ previous then none
      else some (Sha256.hash (frame b i))

def scan (rootId : Identity) (b : Bytes) (unreadable : Option ℕ) (count : ℕ) : Option Digest :=
  (List.range count).foldlM (scanStep rootId b unreadable) zeroDigest

/-- `Open`, from the point where the file is locked. -/
def examine (rootId : Identity) (b : Bytes) (host : OpenHost) : Except Outcome Journal :=
  if host.info ≠ .ok then .error host.info
  else if h : maxRecords < b.length / 256 then .error .exhausted
  else
    match scan rootId b host.unreadable (b.length / 256) with
    | none => .error .corrupt
    | some previous =>
      .ok { rootId := rootId, count := b.length / 256, lastDigest := previous
            tailBytes := b.length % 256, poisoned := false, filePoisoned := false
            count_le := Nat.not_lt.mp h, tail_lt := Nat.mod_lt _ (by decide) }

/-- What `Open` answers when it has opened `j`. -/
def Journal.status (j : Journal) : Outcome := if j.tailBytes = 0 then .ok else .indeterminate

/-- A log on its medium, and the journal of the one process that may have it open. -/
structure World where
  file : Option File
  journal : Option Journal

def openLog (w : World) (rootId : Identity) (createIfMissing : Bool) (host : OpenHost) :
    World × Outcome :=
  if w.journal.isSome ∨ rootId = zeroIdentity then (w, .invalidInput)
  else if w.file = none ∧ createIfMissing = false then (w, .corrupt)
  else if host.locked ≠ .ok then
    (if host.created then { w with file := some (w.file.getD File.empty) } else w, host.locked)
  else
    let f := w.file.getD File.empty
    match examine rootId f.cached host with
    | .error o => ({ w with file := some f }, o)
    | .ok j => (⟨some f, some j⟩, j.status)

/-! ### Reading -/

def Journal.read (j : Journal) (f : File) (index : ℕ) (readAt : Outcome) :
    Except Outcome Entry :=
  if index = 0 ∨ j.count < index then .error .invalidInput
  else if j.filePoisoned then .error .invalidInput
  else if readAt ≠ .ok then .error readAt
  else if (frame f.cached (index - 1)).length ≠ 256 then .error .corrupt
  else
    match decode (frame f.cached (index - 1)) with
    | none => .error .corrupt
    | some e =>
      if (e.sequence : ℕ) ≠ index ∨ e.rootId ≠ j.rootId then .error .corrupt else .ok e

/-! ### Appending -/

/-- What becomes of the bytes that an append writes: some of them are written, all of them
are but the sync fails, or all are on the medium. -/
inductive Written
  | short (n : ℕ)
  | unsynced
  | done

structure WriteHost where
  seek : Bool := true
  written : Written := .done

/-- The file, the flag of the file, and the answer. -/
def appendDurable (f : File) (filePoisoned : Bool) (expectedLength : ℕ) (data : Bytes)
    (host : WriteHost) : File × Bool × Outcome :=
  if filePoisoned = true then (f, filePoisoned, .invalidInput)
  else if host.seek = false then (f, false, .ioError)
  else if f.cached.length ≠ expectedLength then (f, false, .conflict)
  else
    match host.written with
    | .short n => (f.write (data.take n), true, .indeterminate)
    | .unsynced => (f.write data, true, .indeterminate)
    | .done => ((f.write data).sync, false, .ok)

/-- The record that an append of `e` writes. -/
def Journal.next (j : Journal) (e : Entry) : Entry :=
  { e with sequence := Counter.ofNat (j.count + 1), previous := j.lastDigest }

def Journal.append (j : Journal) (f : File) (e : Entry) (host : WriteHost) :
    Journal × File × Outcome :=
  if j.poisoned = true ∨ j.tailBytes ≠ 0 then (j, f, .invalidInput)
  else if h : j.count = maxRecords then (j, f, .exhausted)
  else if (e.kind : ℕ) = 0 ∨ e.operationId = zeroIdentity ∨ e.rootId ≠ j.rootId then
    (j, f, .invalidInput)
  else
    let b := encode (j.next e)
    let a := appendDurable f j.filePoisoned (j.count * 256) b host
    if a.2.2 = .ok then
      ({ j with count := j.count + 1, lastDigest := Sha256.hash b
                count_le := Nat.lt_of_le_of_ne j.count_le h }, a.1, .ok)
    else ({ j with poisoned := true, filePoisoned := a.2.1 }, a.1, .indeterminate)

/-! ### The torn tail -/

/-- What the host answers while a tail is repaired: to the read, to `ftruncate` and to the
sync. -/
structure RepairHost where
  readAt : Outcome := .ok
  truncated : Bool := true
  synced : Bool := true

/-- The bytes after the last complete record, for a buffer that holds any such tail. -/
def Journal.exportTail (j : Journal) (f : File) (readAt : Outcome) : Except Outcome Bytes :=
  if j.filePoisoned then .error .invalidInput
  else if readAt ≠ .ok then .error readAt
  else if ((f.cached.drop (j.count * 256)).take 256).length ≠ j.tailBytes then .error .conflict
  else .ok ((f.cached.drop (j.count * 256)).take 256)

def Journal.repairTail (j : Journal) (f : File) (preservedTail : Digest) (host : RepairHost) :
    Journal × File × Outcome :=
  if j.poisoned = true ∨ j.tailBytes = 0 then (j, f, .invalidInput)
  else
    match j.exportTail f host.readAt with
    | .error o => (j, f, o)
    | .ok tail =>
      if Sha256.hash tail ≠ preservedTail then (j, f, .denied)
      else if host.truncated = false then (j, f, .ioError)
      else
        let f := f.truncate (j.count * 256)
        if host.synced then ({ j with tailBytes := 0, tail_lt := no_tail }, f.sync, .ok)
        else ({ j with poisoned := true }, f, .indeterminate)

end NiayanAssurance.Log
