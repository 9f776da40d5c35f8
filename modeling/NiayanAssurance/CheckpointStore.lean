import NiayanAssurance.CheckpointCodec
import NiayanAssurance.Gate
import NiayanAssurance.Lib.Program

/-!
The store of checkpoints: a new one is written beside the current one, anchored outside, and made
current only then. A call may be left at any point, and another one takes up what it has left.

A file is replaced at once and in full, and what is visible is still there after a crash, whether
the directory has been synced or not. Who has the lock has it alone, until it is closed or its
process ends. The anchor compares and swaps; where its answer is lost, it may do so at any later
time, or never.
-/

namespace NiayanAssurance.CheckpointStore

open NiayanAssurance.Lib NiayanAssurance.Types NiayanAssurance.Checkpoint
  NiayanAssurance.CheckpointCodec

inductive Path
  /-- `checkpoint-current.bin` -/
  | current
  /-- `checkpoint-pending.bin` -/
  | pending
  /-- `snapshot-….bin` -/
  | snapshot (payload : Digest)
  /-- `checkpoint-….bin` -/
  | manifest (d : Digest)
  deriving DecidableEq

/-- The directory with its lock, and the anchor of the stream. -/
structure World (τ : Type) where
  files : Path → Option Bytes := fun _ => none
  /-- `checkpoint.lock` is there. -/
  lockFile : Bool := false
  holder : Option τ := none
  /-- The manifest that is anchored; none is `Zero_Digest`. -/
  anchor : Digest := zeroDigest
  /-- The swaps of which the answer is not known, and which may still be made. -/
  live : List (Digest × Digest) := []

namespace World

variable {τ : Type}

def put (s : World τ) (p : Path) (data : Bytes) : World τ :=
  { s with files := Function.update s.files p (some data) }

def release [DecidableEq τ] (s : World τ) (t : τ) : World τ :=
  if s.holder = some t then { s with holder := none } else s

end World

/-! ### The calls -/

inductive Phase
  | stage | anchor | reconcile

inductive Call
  | openRoot
  | openLocked (createIfMissing : Bool)
  | close
  | stat (p : Path)
  | read (p : Path) (capacity : ℕ)
  | write (p : Path) (data : Bytes) (mustBeNew : Bool)
  | authorize (phase : Phase) (before after : Descriptor)
  | validateState (d : Descriptor) (payload : Bytes)
  | checkAnchor (d : Descriptor) (manifest : Digest)
  | advanceAnchor (before : Digest) (d : Descriptor) (manifest : Digest)

abbrev Reply : Call → Type
  | .openRoot | .openLocked _ | .write .. | .authorize .. | .validateState .. | .checkAnchor ..
  | .advanceAnchor .. => Outcome
  | .close => Unit
  | .stat _ => Bool × Outcome
  | .read .. => Bytes × Outcome

abbrev Prog := Program Call Reply

abbrev ask (c : Call) : Prog (Reply c) := Program.ask c

section Act

variable {τ : Type} [DecidableEq τ]

/-- What the host may do when `t` asks it for `c`. The hooks may answer as they like, but that
`Check_Anchor` and `Advance_Anchor` do not say that what is not so is; a hook that raises an
exception ends the call as one does that answers `Indeterminate`. -/
def act (t : τ) : (c : Call) → World τ → Reply c → World τ → Prop
  | .openRoot, s, _, s' => s' = s
  | .openLocked createIfMissing, s, o, s' =>
    o = .ok ∧ s.holder = none ∧ (s.lockFile = true ∨ createIfMissing = true) ∧
        s' = { s with holder := some t, lockFile := true } ∨
      o ≠ .ok ∧ (s' = s ∨ createIfMissing = true ∧ s' = { s with lockFile := true })
  | .close, s, _, s' => s' = s.release t
  | .stat p, s, r, s' => s' = s ∧ (r.2 = .ok → r.1 = (s.files p).isSome)
  | .read p capacity, s, r, s' =>
    s' = s ∧ (r.2 = .ok → s.files p = some r.1 ∧ r.1.length ≤ capacity)
  | .write p data mustBeNew, s, o, s' =>
    s' = s ∧ o ≠ .ok ∨ s' = s.put p data ∧ (mustBeNew = true → s.files p = none)
  | .authorize .., s, _, s' => s' = s
  | .validateState .., s, _, s' => s' = s
  | .checkAnchor _ manifest, s, o, s' => s' = s ∧ (o = .ok → s.anchor = manifest)
  | .advanceAnchor before _ manifest, s, o, s' =>
    o = .ok ∧ s.anchor = before ∧ s' = { s with anchor := manifest } ∨
      o ≠ .ok ∧ (s' = s ∨ s' = { s with live := (before, manifest) :: s.live })

end Act

/-- A swap of which the answer was lost is made. -/
inductive Lands {τ : Type} (s : World τ) : World τ → Prop
  | mk {l₁ l₂ : List (Digest × Digest)} {before manifest : Digest}
      (h : s.live = l₁ ++ (before, manifest) :: l₂) :
      Lands s { s with
        live := l₁ ++ l₂
        anchor := if s.anchor = before then manifest else s.anchor }

/-! ### The operations -/

def digest (d : Descriptor) : Digest := Sha256.hash (encode d)

/-- What a call returns. -/
structure Returned where
  status : Outcome
  descriptor : Descriptor := {}
  /-- `Payload (1 .. Used)` -/
  payload : Bytes := []

def readDescriptor (p : Path) : Prog (Descriptor × Outcome) := do
  let (b, status) ← ask (.read p 320)
  if status ≠ .ok then return ({}, status)
  if b.length ≠ 320 then return ({}, .corrupt)
  match decode b with
  | .error o => return ({}, o)
  | .ok d => return (d, if d.contract ≠ Gate.fingerprint then .unsupported else .ok)

/-- `Read_Payload`, into a buffer of `capacity` bytes. -/
def readPayload (d : Descriptor) (capacity : ℕ) : Prog (Bytes × Outcome) := do
  if capacity < d.payloadSize then return ([], .exhausted)
  let (b, status) ← ask (.read (.snapshot d.payload) capacity)
  if status ≠ .ok then return ([], status)
  if b = [] ∨ b.length ≠ d.payloadSize ∨ Sha256.hash b ≠ d.payload then return (b, .corrupt)
  let status ← ask (.validateState d b)
  return (b, status)

def keep (p : Path) (b : Bytes) : Prog Outcome := do
  let status ← ask (.write p b true)
  if status = .conflict then
    let (saved, status) ← ask (.read p b.length)
    return if status = .ok ∧ saved ≠ b then .conflict else status
  else return status

def load (rootId streamId : Identity) (capacity : ℕ) : Prog Returned := do
  let status ← ask .openRoot
  if status ≠ .ok then return { status := status }
  let (d, status) ← readDescriptor .current
  if status ≠ .ok then return { status := status, descriptor := d }
  if d.rootId ≠ rootId ∨ d.streamId ≠ streamId then return { status := .denied, descriptor := d }
  let status ← ask (.checkAnchor d (digest d))
  if status ≠ .ok then return { status := status, descriptor := d }
  let (payload, status) ← readPayload d capacity
  return { status := status, descriptor := d, payload := payload }

/-- The end of `Publish`: all has been checked, and nothing done. -/
def commit (expected : Digest) (before d : Descriptor) (payload : Bytes) : Prog Outcome := do
  let status ← ask (.validateState d payload)
  if status ≠ .ok then return status
  let status ← ask (.authorize .stage before d)
  if status ≠ .ok then return status
  let status ← keep (.snapshot d.payload) payload
  if status ≠ .ok then return status
  let status ← keep (.manifest (digest d)) (encode d)
  if status ≠ .ok then return status
  let status ← ask (.write .pending (encode d) false)
  if status ≠ .ok then return status
  let status ← ask (.authorize .anchor before d)
  if status ≠ .ok then return status
  let status ← ask (.advanceAnchor expected d (digest d))
  if status ≠ .ok then return status
  let status ← ask (.checkAnchor d (digest d))
  if status ≠ .ok then return .indeterminate
  let status ← ask (.write .current (encode d) false)
  return if status ≠ .ok then .indeterminate else .ok

/-- The part of `Publish` that follows the check of the current descriptor, which has the digest
`bh`: nothing may be pending but what is current. -/
def stage (expected bh : Digest) (before d : Descriptor) (payload : Bytes) : Prog Outcome := do
  let (present, status) ← ask (.stat .pending)
  if status ≠ .ok then return status
  if present then
    let (pending, status) ← readDescriptor .pending
    if status ≠ .ok then return status
    if digest pending ≠ bh then return .conflict
    commit expected before d payload
  else commit expected before d payload

/-- The part of `Publish` before `Done`. -/
def publishLocked (expected : Digest) (d : Descriptor) (payload : Bytes) : Prog Outcome := do
  let status ← ask (.openLocked (expected = zeroDigest ∧ (d.generation : ℕ) = 1))
  if status ≠ .ok then return status
  let (present, status) ← ask (.stat .current)
  if status ≠ .ok then return status
  if present then
    let (before, status) ← readDescriptor .current
    if status ≠ .ok then return status
    let status ← ask (.checkAnchor before (digest before))
    if status ≠ .ok then return status
    if expected ≠ digest before ∨ ¬ Follows before d (digest before) then return .conflict
    stage expected (digest before) before d payload
  else if expected ≠ zeroDigest ∨ d.previous ≠ zeroDigest ∨ (d.generation : ℕ) ≠ 1 then
    return .denied
  else stage expected zeroDigest {} d payload

def publish (expected : Digest) (d : Descriptor) (payload : Bytes) : Prog Returned := do
  if ¬ Valid d ∨ d.contract ≠ Gate.fingerprint ∨ (d.payloadSize : ℕ) ≠ payload.length ∨
      Sha256.hash payload ≠ d.payload then return { status := .invalidInput }
  let status ← ask .openRoot
  if status ≠ .ok then return { status := status }
  let status ← publishLocked expected d payload
  let _ ← ask .close
  return { status := status }

/-- The end of `Reconcile`: what is pending is to become current. -/
def complete (before pending : Descriptor) : Prog Outcome := do
  let status ← ask (.authorize .reconcile before pending)
  if status ≠ .ok then return status
  ask (.write .current (encode pending) false)

/-- The part of `Reconcile` before `Done`. -/
def reconcileLocked (rootId streamId : Identity) : Prog Outcome := do
  let status ← ask (.openLocked false)
  if status ≠ .ok then return status
  let (pending, status) ← readDescriptor .pending
  if status ≠ .ok then return status
  if pending.rootId ≠ rootId ∨ pending.streamId ≠ streamId then return .denied
  let status ← ask (.checkAnchor pending (digest pending))
  if status ≠ .ok then return status
  let (_, status) ← readPayload pending maxMessage
  if status ≠ .ok then return status
  let (present, status) ← ask (.stat .current)
  if status ≠ .ok then return status
  if present then
    let (before, status) ← readDescriptor .current
    if status ≠ .ok then return status
    if digest before = digest pending then return .ok
    if ¬ Follows before pending (digest before) then return .conflict
    complete before pending
  else if (pending.generation : ℕ) ≠ 1 ∨ pending.previous ≠ zeroDigest then return .conflict
  else complete {} pending

def reconcile (rootId streamId : Identity) : Prog Returned := do
  let status ← ask .openRoot
  if status ≠ .ok then return { status := status }
  let status ← reconcileLocked rootId streamId
  let _ ← ask .close
  return { status := status }

/-! ### All of them together -/

inductive Operation
  | load (rootId streamId : Identity) (capacity : ℕ)
  | publish (expected : Digest) (d : Descriptor) (payload : Bytes)
  | reconcile (rootId streamId : Identity)

def Operation.body : Operation → Prog Returned
  | .load rootId streamId capacity => CheckpointStore.load rootId streamId capacity
  | .publish expected d payload => CheckpointStore.publish expected d payload
  | .reconcile rootId streamId => CheckpointStore.reconcile rootId streamId

/-- Processes `τ` that call the operations in any order, and may end at any point. -/
def machine (τ : Type) [DecidableEq τ] :
    Machine τ Operation Unit Returned Call Reply (World τ) where
  body k _ := do
    let r ← k.body
    return (r, ())
  fresh := ()
  act t _ := act t
  others := Lands
  halt t s s' := s' = s.release t
  crash s s' := s' = { s with holder := none }

end NiayanAssurance.CheckpointStore
