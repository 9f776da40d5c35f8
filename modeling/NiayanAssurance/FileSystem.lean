import NiayanAssurance.Types
import NiayanAssurance.Sha256
import NiayanAssurance.Lib.Program
import Mathlib.Logic.Function.Basic

/-!
Files under one directory, the calls of the system on them, and the operations of `MC_FS`, each
a program of such calls.

A file is an inode; a path leads to one. Of directories nothing is kept but the paths below
them, so that the calls on directories may answer anything.
-/

namespace NiayanAssurance.FileSystem

open NiayanAssurance.Lib NiayanAssurance.Types

/-- `Entry_Kind`. -/
inductive Kind
  | absent | regular | directory | symbolicLink | other
  deriving DecidableEq

/-- `Entry_Info`. What is only ever compared as a whole is one number, `stamp`. -/
structure Info where
  kind : Kind := .absent
  mode : ℕ := 0
  uid : ℕ := 0
  gid : ℕ := 0
  links : ℕ := 0
  size : ℕ := 0
  stamp : ℕ := 0
  deriving DecidableEq

/-- The user the process runs for. -/
structure User where
  uid : ℕ
  gid : ℕ

/-- A file, and the worker `τ` that made it. -/
structure Inode (τ : Type) where
  data : Bytes
  mode : ℕ
  uid : ℕ
  gid : ℕ
  links : ℕ
  stamp : ℕ
  /-- Nothing was written since the bytes were last made durable. -/
  synced : Bool
  owner : τ

def Inode.info {τ : Type} (n : Inode τ) : Info where
  kind := .regular
  mode := n.mode
  uid := n.uid
  gid := n.gid
  links := n.links
  size := n.data.length
  stamp := n.stamp

/-- The files that exist are the first `next`. -/
structure Files (ν τ : Type) where
  link : ν → Option ℕ
  inode : ℕ → Inode τ
  next : ℕ

variable {ν τ : Type}

namespace Files

/-- The bytes a path leads to. -/
def bytesAt (s : Files ν τ) (p : ν) : Option Bytes := (s.link p).map fun i => (s.inode i).data

variable [DecidableEq ν]

def change (s : Files ν τ) (i : ℕ) (n : Inode τ) : Files ν τ :=
  { s with inode := Function.update s.inode i n }

def create (s : Files ν τ) (p : ν) (n : Inode τ) : Files ν τ where
  link := Function.update s.link p (some s.next)
  inode := Function.update s.inode s.next n
  next := s.next + 1

/-- The path `p` leads nowhere, and `q` to where it led. -/
def move (s : Files ν τ) (p q : ν) : Files ν τ :=
  { s with link := Function.update (Function.update s.link q (s.link p)) p none }

def unlink (s : Files ν τ) (p : ν) (i : ℕ) : Files ν τ :=
  { s.change i { s.inode i with links := 0 } with link := Function.update s.link p none }

end Files

/-! ### Calls of the system -/

/-- How a call that makes or removes an entry ends. -/
inductive Changed
  | done
  /-- The entry to make exists, or the one to remove does not. -/
  | refused
  | failed
  deriving DecidableEq

inductive Made
  | made (i : ℕ)
  | exists
  | failed

/-- What is asked of the system. An interrupted call is made again: only the answer of the last
one is seen. -/
inductive Call (ν : Type)
  | random
  /-- The directory of a path is opened and checked: `Parent`. -/
  | parent (p : ν)
  | openNew (p : ν)
  | openRead (p : ν)
  | statFd (i : ℕ)
  | stat (p : ν)
  | write (i : ℕ) (data : Bytes)
  | pread (i offset wanted : ℕ)
  | fsync (i : ℕ)
  | fsyncParent (p : ν)
  | fchown (i uid gid : ℕ)
  | fchmod (i mode : ℕ)
  | futimens (i : ℕ)
  | renameNew (p q : ν)
  | unlink (p : ν)
  | mkdir (p : ν)
  /-- The file that is imported is not one of these files. -/
  | inputInfo
  | inputRead (offset wanted : ℕ)

abbrev Answer : Call ν → Type
  | .random => Identity
  | .parent _ => Outcome
  | .openNew _ => Made
  | .openRead _ => Option ℕ
  | .statFd _ | .stat _ | .inputInfo => Except Outcome Info
  | .write _ _ => Option ℕ
  | .pread _ _ _ => Option Bytes
  | .inputRead _ _ => Except Outcome Bytes
  | .fsync _ | .fsyncParent _ | .fchown _ _ _ | .fchmod _ _ | .futimens _ => Bool
  | .renameNew _ _ | .unlink _ | .mkdir _ => Changed

abbrev Prog (ν α : Type) := Program (Call ν) Answer α

abbrev ask (c : Call ν) : Prog ν (Answer c) := Program.ask c

/-- Calls that change no file and no path to one. -/
def Quiet : Call ν → Prop
  | .random | .parent _ | .openRead _ | .statFd _ | .stat _ | .pread _ _ _ | .fsyncParent _
  | .mkdir _ | .inputInfo | .inputRead _ _ => True
  | _ => False

section Host

variable [DecidableEq ν] (u : User) (t : τ)

/-- The call of worker `t` does what it is asked for. -/
def Answers (s : Files ν τ) : (c : Call ν) → Answer c → Files ν τ → Prop
  | .random, _, s' => s' = s
  | .parent _, r, s' => r = .ok ∧ s' = s
  | .openNew p, r, s' => match s.link p with
      | some _ => r = .exists ∧ s' = s
      | none => r = .made s.next ∧ ∃ stamp,
          s' = s.create p ⟨[], 0o600, u.uid, u.gid, 1, stamp, false, t⟩
  | .openRead p, r, s' => r = s.link p ∧ s' = s
  | .statFd i, r, s' => r = .ok (s.inode i).info ∧ s' = s
  | .stat _, _, s' => s' = s
  | .write i data, r, s' => ∃ n stamp, r = some n ∧ 0 < n ∧ n ≤ data.length ∧
      s' = s.change i { s.inode i with
        data := (s.inode i).data ++ data.take n, stamp := stamp, synced := false }
  | .pread i offset wanted, r, s' => ∃ n ≤ wanted,
      r = some (((s.inode i).data.drop offset).take n) ∧
      (n = 0 → wanted = 0 ∨ (s.inode i).data.length ≤ offset) ∧ s' = s
  | .fsync i, r, s' => r = true ∧ s' = s.change i { s.inode i with synced := true }
  | .fsyncParent _, r, s' => r = true ∧ s' = s
  | .fchown i uid gid, r, s' => r = true ∧ ∃ stamp,
      s' = s.change i { s.inode i with uid := uid, gid := gid, stamp := stamp }
  | .fchmod i mode, r, s' => r = true ∧ ∃ stamp,
      s' = s.change i { s.inode i with mode := mode, stamp := stamp }
  | .futimens i, r, s' => r = true ∧ ∃ stamp,
      s' = s.change i { s.inode i with stamp := stamp }
  | .renameNew p q, r, s' => (s.link p).isSome ∧ match s.link q with
      | some _ => r = .refused ∧ s' = s
      | none => r = .done ∧ s' = s.move p q
  | .unlink p, r, s' => match s.link p with
      | some i => r = .done ∧ s' = s.unlink p i
      | none => r = .refused ∧ s' = s
  | .mkdir _, _, s' => s' = s
  | .inputInfo, _, s' => s' = s
  | .inputRead _ _, _, s' => s' = s

/-- The call fails. `Parent` has no failure that it reports as a conflict. A write that fails may
have written some of the bytes; a rename or a removal whose failure is reported may have been made
all the same. -/
def Fails (s : Files ν τ) : (c : Call ν) → Answer c → Files ν τ → Prop
  | .random, _, _ => False
  | .parent _, r, s' => r ≠ .ok ∧ r ≠ .conflict ∧ s' = s
  | .openNew _, r, s' => r = .failed ∧ s' = s
  | .openRead _, r, s' => r = none ∧ s' = s
  | .statFd _, r, s' => (∃ o, o ≠ .ok ∧ r = .error o) ∧ s' = s
  | .stat _, _, s' => s' = s
  | .write i data, r, s' => (∀ n, r = some n → n = 0 ∨ data.length < n) ∧ ∃ m stamp,
      s' = s.change i { s.inode i with
        data := (s.inode i).data ++ data.take m, stamp := stamp, synced := false }
  | .pread _ _ _, r, s' => r = none ∧ s' = s
  | .fsync _, r, s' => r = false ∧ s' = s
  | .fsyncParent _, r, s' => r = false ∧ s' = s
  | .fchown _ _ _, r, s' => r = false ∧ s' = s
  | .fchmod _ _, r, s' => r = false ∧ s' = s
  | .futimens _, r, s' => r = false ∧ s' = s
  | .renameNew p q, r, s' => r = .failed ∧
      (s' = s ∨ ((s.link p).isSome ∧ s.link q = none ∧ s' = s.move p q))
  | .unlink p, r, s' => r = .failed ∧ (s' = s ∨ ∃ i, s.link p = some i ∧ s' = s.unlink p i)
  | .mkdir _, _, s' => s' = s
  | .inputInfo, _, s' => s' = s
  | .inputRead _ _, _, s' => s' = s

/-- What a call of worker `t` may do; where `works` holds, no call fails. -/
def act (works : Prop) (c : Call ν) (s : Files ν τ) (r : Answer c) (s' : Files ν τ) : Prop :=
  Answers u t s c r s' ∨ ¬ works ∧ Fails s c r s'

/-- The system stops. The bytes of a file that were not made durable may be anything after; the
paths are what they were, those of a directory that has not been synced as well. -/
def Crash (s s' : Files ν τ) : Prop :=
  s'.link = s.link ∧ s'.next = s.next ∧
    ∀ i, ∃ data, s'.inode i = { s.inode i with data := data } ∧
      ((s.inode i).synced = true → data = (s.inode i).data)

/-- A host that does what it is asked for where it can, writes a chunk whole, and offers one
name. -/
def serve (name : Identity) : (c : Call ν) → Files ν τ → Answer c × Files ν τ
  | .random, s => (name, s)
  | .parent _, s => (.ok, s)
  | .openNew p, s => match s.link p with
      | some _ => (.exists, s)
      | none => (.made s.next, s.create p ⟨[], 0o600, u.uid, u.gid, 1, 0, false, t⟩)
  | .openRead p, s => (s.link p, s)
  | .statFd i, s => (.ok (s.inode i).info, s)
  | .stat _, s => (.ok { kind := .directory, mode := 0o700, uid := u.uid }, s)
  | .write i data, s => if data = [] then (none, s.change i { s.inode i with synced := false })
      else (some data.length, s.change i { s.inode i with
        data := (s.inode i).data ++ data, synced := false })
  | .pread i offset wanted, s => (some (((s.inode i).data.drop offset).take wanted), s)
  | .fsync i, s => (true, s.change i { s.inode i with synced := true })
  | .fsyncParent _, s => (true, s)
  | .fchown i uid gid, s => (true, s.change i { s.inode i with uid := uid, gid := gid })
  | .fchmod i mode, s => (true, s.change i { s.inode i with mode := mode })
  | .futimens _, s => (true, s)
  | .renameNew p q, s => match s.link p, s.link q with
      | some _, none => (.done, s.move p q)
      | some _, some _ => (.refused, s)
      | none, _ => (.failed, s)
  | .unlink p, s => match s.link p with
      | some i => (.done, s.unlink p i)
      | none => (.refused, s)
  | .mkdir _, s => (.done, s)
  | .inputInfo, s => (.error .ioError, s)
  | .inputRead _ _, s => (.error .ioError, s)

lemma serve_act (name : Identity) (c : Call ν) (s : Files ν τ) :
    act u t False c s (serve u t name c s).1 (serve u t name c s).2 := by
  cases c with
  | openNew p =>
    refine .inl ?_
    simp only [serve, Answers]
    cases s.link p with
    | none => exact ⟨rfl, 0, rfl⟩
    | some i => exact ⟨rfl, rfl⟩
  | write i data =>
    simp only [serve]
    split_ifs with h
    · exact .inr ⟨not_false, nofun, 0, (s.inode i).stamp, by simp [h]⟩
    · refine .inl ⟨data.length, (s.inode i).stamp, rfl, List.length_pos_iff.mpr h, le_rfl, ?_⟩
      rw [List.take_length]
  | pread i offset wanted =>
    exact .inl ⟨wanted, le_rfl, rfl, fun h => .inl h, rfl⟩
  | renameNew p q =>
    simp only [serve]
    cases hp : s.link p with
    | none => exact .inr ⟨not_false, rfl, .inl rfl⟩
    | some i =>
      refine .inl ?_
      cases hq : s.link q with
      | none => simp [Answers, hp, hq]
      | some j => simp [Answers, hp, hq]
  | unlink p =>
    refine .inl ?_
    simp only [serve, Answers]
    cases s.link p with
    | none => exact ⟨rfl, rfl⟩
    | some i => exact ⟨rfl, rfl⟩
  | fchown i uid gid => exact .inl ⟨rfl, (s.inode i).stamp, rfl⟩
  | fchmod i mode => exact .inl ⟨rfl, (s.inode i).stamp, rfl⟩
  | futimens i => exact .inl ⟨rfl, (s.inode i).stamp, by simp [serve, Files.change]⟩
  | _ => exact .inl (by simp [serve, Answers])

variable {u t}

lemma act_quiet {works : Prop} {c : Call ν} {s s' : Files ν τ} {r : Answer c} (hc : Quiet c)
    (h : act u t works c s r s') : s' = s := by
  cases c <;> first
    | exact hc.elim
    | (rcases h with h | ⟨_, h⟩ <;> simp only [Answers, Fails] at h <;> grind)

end Host

/-! ### The operations of `MC_FS` -/

/-- `MC_FS.File`. -/
structure File where
  handle : Option ℕ := none
  writable : Bool := false
  poisoned : Bool := false

/-- Goes on with `p` while the status is `ok`. -/
def whenOk {α : Type} (status : Outcome) (x : α) (p : Prog ν (α × Outcome)) :
    Prog ν (α × Outcome) :=
  if status = .ok then p else pure (x, status)

def close (_ : File) : File := {}

def statFd (i : ℕ) : Prog ν (Info × Outcome) := do
  let r : Except Outcome Info ← ask (.statFd i)
  match r with
  | .ok v => return (v, .ok)
  | .error o => return ({}, o)

def info (f : File) : Prog ν (Info × Outcome) :=
  match f.handle with
  | some i => if f.poisoned then pure ({}, .invalidInput) else statFd i
  | none => pure ({}, .invalidInput)

def stat (p : ν) : Prog ν (Info × Outcome) := do
  let r : Except Outcome Info ← ask (.stat p)
  match r with
  | .ok v => return (v, .ok)
  | .error o => return ({}, o)

def openRead (p : ν) (f : File) : Prog ν (File × Outcome) :=
  if f.handle.isSome then pure (f, .conflict)
  else do
    let r : Option ℕ ← ask (.openRead p)
    match r with
    | none => return (f, .ioError)
    | some i =>
      let (v, status) ← statFd i
      let status := if status = .ok ∧ (v.kind ≠ .regular ∧ v.kind ≠ .directory ∨
        v.kind = .regular ∧ v.links ≠ 1) then .unsupported else status
      if status = .ok then return ({ handle := some i }, status) else return (f, status)

/-- `Open_New_Or_Lock` for a new file. -/
def createNew (u : User) (p : ν) (f : File) : Prog ν (File × Outcome) :=
  if f.handle.isSome then pure (f, .conflict)
  else do
    let status : Outcome ← ask (.parent p)
    if status ≠ .ok then return (f, status)
    else
      let r : Made ← ask (.openNew p)
      match r with
      | .exists => return (f, .conflict)
      | .failed => return (f, .ioError)
      | .made i =>
        let (v, status) ← statFd i
        let status := if status = .ok ∧ (v.kind ≠ .regular ∨ v.uid ≠ u.uid ∨ v.links ≠ 1 ∨
          v.mode ≠ 0o600) then .denied else status
        let (_, status) ← whenOk status () do
          let done : Bool ← ask (.fsyncParent p)
          return ((), if done then .ok else .indeterminate)
        if status ≠ .ok then return (f, status)
        else return ({ handle := some i, writable := true }, status)

/-- The loop of `Read_At`, with at most `fuel` rounds. -/
def readLoop (i : ℕ) : (fuel offset wanted : ℕ) → Prog ν (Bytes × Outcome)
  | 0, _, _ => pure ([], .ok)
  | fuel + 1, offset, wanted =>
    if wanted = 0 then pure ([], .ok)
    else do
      let r : Option Bytes ← ask (.pread i offset wanted)
      match r with
      | none => return ([], .ioError)
      | some b =>
        if b = [] then return ([], .ok)
        else if wanted < b.length then return ([], .ioError)
        else
          let (rest, status) ← readLoop i fuel (offset + b.length) (wanted - b.length)
          return (b ++ rest, status)

/-- Every round but the last reads a byte at least. -/
def readAt (f : File) (offset wanted : ℕ) : Prog ν (Bytes × Outcome) :=
  match f.handle with
  | some i => if f.poisoned then pure ([], .invalidInput) else readLoop i wanted offset wanted
  | none => pure ([], .invalidInput)

/-- The loop of `Write_All`, with at most `fuel` rounds. -/
def writeLoop (f : File) (i : ℕ) : (fuel : ℕ) → Bytes → Prog ν (File × Outcome)
  | 0, _ => pure (f, .ok)
  | fuel + 1, data =>
    if data = [] then pure (f, .ok)
    else do
      let r : Option ℕ ← ask (.write i data)
      match r with
      | none => return ({ f with poisoned := true }, .indeterminate)
      | some n =>
        if n = 0 ∨ data.length < n then return ({ f with poisoned := true }, .indeterminate)
        else writeLoop f i fuel (data.drop n)

def writeAll (f : File) (data : Bytes) : Prog ν (File × Outcome) :=
  match f.handle with
  | some i => if !f.writable || f.poisoned then pure (f, .invalidInput)
      else writeLoop f i data.length data
  | none => pure (f, .invalidInput)

def sync (f : File) : Prog ν Outcome :=
  match f.handle with
  | some i => if f.poisoned then pure .invalidInput
      else do
        let done : Bool ← ask (.fsync i)
        return if done then .ok else .indeterminate
  | none => pure .invalidInput

/-- The loop of `Hash`, with at most `fuel` rounds. -/
def hashLoop (f : File) (limit : ℕ) :
    (fuel : ℕ) → Sha256.Context → ℕ → Prog ν ((Sha256.Context × ℕ) × Outcome)
  | 0, c, offset => pure ((c, offset), .exhausted)
  | fuel + 1, c, offset => do
    let (b, status) ← readAt f offset 65536
    if status ≠ .ok then return ((c, offset), status)
    else if b = [] then return ((c, offset), .ok)
    else if limit - offset < b.length then return ((c, offset), .exhausted)
    else hashLoop f limit fuel (Sha256.update c b) (offset + b.length)

/-- Every round but the last raises the offset, which the limit bounds. -/
def hash (f : File) (limit : ℕ) : Prog ν ((Digest × ℕ) × Outcome) := do
  let (initial, status) ← info f
  if status ≠ .ok then return ((zeroDigest, 0), status)
  else if initial.kind ≠ .regular ∨ limit < initial.size then
    return ((zeroDigest, 0), .exhausted)
  else
    let ((c, offset), status) ← hashLoop f limit (limit + 1) Sha256.init 0
    if status ≠ .ok then return ((zeroDigest, 0), status)
    else
      let (final, status) ← info f
      if status ≠ .ok then return ((zeroDigest, 0), status)
      else if initial ≠ final ∨ offset ≠ initial.size then return ((zeroDigest, 0), .conflict)
      else return ((Sha256.finish c, offset), .ok)

def makeDirectory (p : ν) : Prog ν Outcome := do
  let status : Outcome ← ask (.parent p)
  if status ≠ .ok then return status
  else
    let r : Changed ← ask (.mkdir p)
    match r with
    | .refused => return .conflict
    | .failed => return .ioError
    | .done =>
      let done : Bool ← ask (.fsyncParent p)
      return if done then .ok else .indeterminate

/-- `Rename` with `No_Replace`. -/
def renameNew (p q : ν) : Prog ν Outcome := do
  let status : Outcome ← ask (.parent p)
  if status ≠ .ok then return status
  else
    let status : Outcome ← ask (.parent q)
    if status ≠ .ok then return status
    else
      let r : Changed ← ask (.renameNew p q)
      match r with
      | .refused => return .conflict
      | .failed => return .ioError
      | .done =>
        let first : Bool ← ask (.fsyncParent p)
        if !first then return .indeterminate
        else
          let second : Bool ← ask (.fsyncParent q)
          return if second then .ok else .indeterminate

/-- `Remove` of a file. -/
def remove (p : ν) : Prog ν Outcome := do
  let status : Outcome ← ask (.parent p)
  if status ≠ .ok then return status
  else
    let r : Changed ← ask (.unlink p)
    match r with
    | .refused => return .stale
    | .failed => return .ioError
    | .done =>
      let done : Bool ← ask (.fsyncParent p)
      return if done then .ok else .indeterminate

def setMetadata (f : File) (v : Info) : Prog ν Outcome :=
  match f.handle with
  | some i =>
    if f.poisoned ∨ v.kind ≠ .regular ∧ v.kind ≠ .directory ∨ 0o777 < v.mode then pure .denied
    else do
      let owned : Bool ← ask (.fchown i v.uid v.gid)
      if !owned then return .ioError
      else
        let moded : Bool ← ask (.fchmod i v.mode)
        if !moded then return .ioError
        else
          let timed : Bool ← if v.kind = .regular then ask (.futimens i) else pure true
          if !timed then return .ioError
          else sync f
  | none => pure .denied

/-! ### Operations that only look -/

section Quiet

open Program

lemma whenOk_quiet {α : Type} {status : Outcome} {x : α} {p : Prog ν (α × Outcome)}
    (h : p.Uses Quiet) : (whenOk status x p).Uses Quiet := by
  unfold whenOk
  split_ifs
  · exact h
  · trivial

lemma statFd_quiet (i : ℕ) : (statFd i : Prog ν _).Uses Quiet :=
  .bind (uses_ask trivial) fun r => by cases r <;> trivial

lemma info_quiet (f : File) : (info f : Prog ν _).Uses Quiet := by
  unfold info
  split
  · split
    · trivial
    · exact statFd_quiet _
  · trivial

lemma stat_quiet (p : ν) : (stat p).Uses Quiet :=
  .bind (uses_ask trivial) fun r => by cases r <;> trivial

lemma readLoop_quiet (i n offset wanted : ℕ) :
    (readLoop i n offset wanted : Prog ν _).Uses Quiet := by
  induction n generalizing offset wanted with
  | zero => trivial
  | succ n ih =>
    unfold readLoop
    split
    · trivial
    · refine .bind (uses_ask trivial) fun r => ?_
      cases r with
      | none => trivial
      | some b =>
        dsimp only
        split_ifs
        · trivial
        · trivial
        · exact .bind (ih _ _) fun _ => trivial

lemma readAt_quiet (f : File) (offset wanted : ℕ) :
    (readAt f offset wanted : Prog ν _).Uses Quiet := by
  unfold readAt
  split
  · split
    · trivial
    · exact readLoop_quiet _ _ _ _
  · trivial

lemma hashLoop_quiet (f : File) (limit n : ℕ) (c : Sha256.Context) (offset : ℕ) :
    (hashLoop f limit n c offset : Prog ν _).Uses Quiet := by
  induction n generalizing c offset with
  | zero => trivial
  | succ n ih =>
    refine .bind (readAt_quiet _ _ _) fun r => ?_
    dsimp only
    split_ifs
    · trivial
    · trivial
    · trivial
    · exact ih _ _

lemma hash_quiet (f : File) (limit : ℕ) : (hash f limit : Prog ν _).Uses Quiet := by
  refine .bind (info_quiet _) fun r => ?_
  dsimp only
  split_ifs
  · trivial
  · trivial
  · refine .bind (hashLoop_quiet _ _ _ _ _) fun r => ?_
    split_ifs
    · trivial
    · refine .bind (info_quiet _) fun r => ?_
      split_ifs <;> trivial

lemma makeDirectory_quiet (p : ν) : (makeDirectory p).Uses Quiet := by
  refine .bind (uses_ask trivial) fun r => ?_
  split_ifs
  · trivial
  · refine .bind (uses_ask trivial) fun r => ?_
    cases r with
    | done => exact .bind (uses_ask trivial) fun _ => trivial
    | refused | failed => trivial

end Quiet

end NiayanAssurance.FileSystem
