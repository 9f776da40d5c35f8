import NiayanAssurance.Atomic
import NiayanAssurance.Log
import NiayanAssurance.RequestReplay
import NiayanAssurance.SitePolicy

/-!
The gate of a receiver: a signed request is admitted by a record in the ledger, before anything
is done about it, and closed by another record.

As with the ledger itself, every call takes what the host answered to the calls it made.
-/

namespace NiayanAssurance.Gate

open NiayanAssurance.Lib NiayanAssurance.Types NiayanAssurance.LogFormat NiayanAssurance.Log
open NiayanAssurance.Protocol NiayanAssurance.Requests NiayanAssurance.Ingress
open NiayanAssurance.Replay NiayanAssurance.SitePolicy

/-! ### Data -/

inductive Admission | newRequest | knownRetry | unknownRetry
  deriving DecidableEq, Repr

structure WitnessSet where
  present : Fact → Bool := fun _ => false
  statements : Fact → Block 224 := fun _ => Block.zero 224
  signatures : Fact → Signature := fun _ => Block.zero 64

structure Submission where
  header : Bytes
  body : Bytes
  signature : Signature
  witnesses : WitnessSet := {}

/-- `Envelope (1..416)`. -/
def Submission.envelope (x : Submission) : Bytes := x.header ++ x.body ++ x.signature.bytes

/-- The files beside the ledger, by the hexadecimal identities in their names. -/
inductive Name
  | request (id : Identity)
  | repair (id : Identity)
  deriving DecidableEq

/-- A session that is open: it holds the lock of the ledger. -/
structure Session where
  journal : Journal
  policy : Policy
  policyDigest : Digest
  header : Header
  content : Request
  witnesses : WitnessSet
  admitted : Bool
  pending : Bool
  lastResult : Outcome

/-- The directory of a ledger, and the one session variable that has the ledger open. -/
structure World where
  log : File
  directory : Directory Name
  holder : Option (ℕ × Session)

def fingerprint : Digest :=
  Block.ofBytes 32 [0x1b, 0x0f, 0x8d, 0xc1, 0xf6, 0x4c, 0x6e, 0x30, 0xbb, 0x1d, 0xd1, 0xbc,
    0xa2, 0x32, 0x1f, 0x81, 0x09, 0x06, 0x2b, 0xe7, 0x40, 0xa1, 0x84, 0x1a, 0xf4, 0x8d, 0x30,
    0x12, 0xfc, 0x15, 0x3c, 0x27]

/-! ### Opening -/

/-- What the host answers while the policy and the ledger are opened. -/
structure EnterHost where
  policyRoot : Outcome := .ok
  policy : PolicyFile := {}
  realtime : Outcome := .ok
  utc : Counter := 0
  bootRead : Outcome := .ok
  bootId : Identity := zeroIdentity
  boottime : Outcome := .ok
  now : Counter := 0
  ledgerRoot : Outcome := .ok
  log : OpenHost := {}
  readAt : ℕ → Outcome := fun _ => .ok

/-- The policy in force, with the scope of this boot, and its fingerprint. -/
def readPolicy (host : EnterHost) : Except Outcome (Policy × Digest) :=
  if host.policyRoot ≠ .ok then .error host.policyRoot
  else
    match load host.policy with
    | .error o => .error o
    | .ok (p, d) =>
      if p.contract ≠ fingerprint then .error .unsupported
      else if host.realtime ≠ .ok then .error host.realtime
      else if (p.validUntil : ℕ) ≤ host.utc then .error .stale
      else if host.bootRead ≠ .ok then .error host.bootRead
      else if host.boottime ≠ .ok then .error host.boottime
      else if host.ledgerRoot ≠ .ok then .error host.ledgerRoot
      else .ok ({ p with scope := { p.scope with bootId := host.bootId } }, d)

/-- `MC_Log.Open` of the ledger. The lock excludes all sessions but one; an open that gets as
far as the lock syncs the directory. -/
def openLedger (w : World) (rootId : Identity) (host : OpenHost) :
    World × Option Journal × Outcome :=
  if w.holder.isSome then (w, none, if host.locked = .ok then .conflict else host.locked)
  else
    let r := openLog ⟨some w.log, none⟩ rootId false host
    (if host.locked = .ok then { w with directory := w.directory.sync } else w, r.1.journal, r.2)

def readStep (j : Journal) (f : File) (readAt : ℕ → Outcome) (r : RequestReplay.State) (i : ℕ) :
    Except Outcome RequestReplay.State :=
  match j.read f (i + 1) (readAt (i + 1)) with
  | .error o => .error o
  | .ok e =>
    match RequestReplay.consume r e with
    | none => .error .corrupt
    | some r => .ok r

def readPrevious (j : Journal) (f : File) (readAt : ℕ → Outcome) :
    Except Outcome RequestReplay.State :=
  if j.count = 0 then .error .corrupt
  else (List.range j.count).foldlM (readStep j f readAt) {}

def canAppend (j : Journal) (records : ℕ) (afterTailRepair : Bool) : Bool :=
  decide (j.poisoned = false ∧ (j.tailBytes = 0 ∨ afterTailRepair = true)
    ∧ records ≤ maxRecords - j.count)

/-- `Needed`: the records that must fit. New work leaves room for its completion, for one
recovery request and for a repair of the tail. -/
def needed (a : RequestedAction) : ℕ := if Recovery a then 4 else 8

def admission (p : Policy) (h : Header) (rawHeader : Bytes) : Entry where
  kind := RequestReplay.begun
  result := .ok
  rootId := p.rootId
  operationId := h.requestId
  epoch := h.membershipEpoch
  token := h.fenceToken
  index := h.sequenceNumber
  object := Sha256.hash rawHeader
  generation := p.serial

/-- The stored request that `window` names, as a pending outcome makes the gate read it. -/
def priorRequest (d : Directory Name) (window : Window) (readAt : Outcome) :
    Except Outcome Request :=
  match Atomic.read d (.request window.requestId) 416 readAt with
  | .error _ => .error .corrupt
  | .ok prior =>
    if prior.length ≠ 416 ∨ Sha256.hash (range prior 1 160) ≠ window.requestDigest then
      .error .corrupt
    else
      match Requests.decode (range prior 161 352) with
      | .error _ => .error .conflict
      | .ok r => .ok r

/-! ### Begin -/

structure BeginHost extends EnterHost where
  sodium : Bool := true
  lastRead : Outcome := .ok
  priorRead : Outcome := .ok
  place : Atomic.PlaceHost := {}
  placeRead : Outcome := .ok
  append : WriteHost := {}

structure Judged where
  decision : Decision
  pending : Bool
  header : Header
  content : Request
  lastResult : Outcome

/-- `Begin_Request`, from `Read_Previous` to the check of the capacity. -/
def judge (good : VerifyDetached) (d : Directory Name) (f : File) (j : Journal) (p : Policy)
    (x : Submission) (host : BeginHost) : Except Outcome Judged :=
  match readPrevious j f host.readAt with
  | .error o => .error o
  | .ok before =>
    if (p.serial : ℕ) < before.serial then .error .stale
    else
      match checkRequest good host.sodium x.header x.body x.signature p.requestKey p.scope
        p.contract host.now before.window with
      | .error o => .error o
      | .ok c =>
        if c.request.expectedRevision ≠ p.serial then .error .stale
        else
          match Protocol.decode x.header with
          | .error o => .error o
          | .ok h =>
            match j.read f j.count host.lastRead with
            | .error o => .error o
            | .ok e =>
              let v : Judged := ⟨c.classification, before.pending, h, c.request,
                if before.pending then .indeterminate else e.result⟩
              if c.classification = .exactRetry then .ok v
              else if c.classification ≠ .fresh then .error .denied
              else
                let capacity : Except Outcome Judged :=
                  if canAppend j (needed c.request.action) false then .ok v
                  else .error .exhausted
                if before.pending then
                  match priorRequest d before.window host.priorRead with
                  | .error o => .error o
                  | .ok r =>
                    if ¬ Recovery c.request.action ∨ c.request.transactionId ≠ r.transactionId
                        ∨ c.request.planDigest ≠ r.planDigest then .error .conflict
                    else capacity
                else capacity

/-- What a call answers: for `Begin_Request` with its mode, and with `Receipt_Result` when the
status is `OK`. -/
structure Answer where
  status : Outcome
  mode : Option Admission := none
  receipt : Option Outcome := none
  deriving DecidableEq

/-- The answer of a `Begin_Request` that is refused. -/
def refused (o : Outcome) : Answer := ⟨o, some .unknownRetry, none⟩

def beginRequest (good : VerifyDetached) (w : World) (id : ℕ) (x : Submission)
    (host : BeginHost) : World × Answer :=
  let own := w.holder.filter fun s => s.1 = id
  if own.any (fun s => s.2.admitted) ∨ x.header.length ≠ 160 ∨ x.body.length ≠ bodySize then
    (w, refused .invalidInput)
  -- the handles of an own session that is still open are in use
  else if own.isSome then (w, refused .conflict)
  else
    match readPolicy host.toEnterHost with
    | .error o => (w, refused o)
    | .ok (p, d) =>
      match openLedger w p.rootId host.log with
      | (w, none, o) => (w, refused o)
      | (w, some j, o) =>
        if o ≠ .ok then (w, refused o)
        else
          match judge good w.directory w.log j p x host with
          | .error o => (w, refused o)
          | .ok v =>
            let s : Session :=
              { journal := j, policy := p, policyDigest := d, header := v.header
                content := v.content, witnesses := {}, admitted := false, pending := false
                lastResult := v.lastResult }
            if v.decision = .exactRetry then
              ({ w with holder := some (id, s) },
                ⟨.ok, some (if v.pending then .unknownRetry else .knownRetry), some v.lastResult⟩)
            else
              let r := Atomic.preserve w.directory (.request v.header.requestId) x.envelope
                host.place host.placeRead
              if r.2 ≠ .ok then ({ w with directory := r.1 }, refused r.2)
              else
                let a := j.append w.log (admission p v.header x.header) host.append
                if a.2.2 ≠ .ok then ({ w with directory := r.1, log := a.2.1 }, refused a.2.2)
                else
                  (⟨a.2.1, r.1, some (id, { s with
                      journal := a.1, witnesses := x.witnesses, admitted := true
                      pending := true })⟩,
                    ⟨.ok, some .newRequest, some v.lastResult⟩)

/-! ### Finish and close -/

/-- The record that closes the request of `s` with `result`. -/
def terminal (s : Session) (result : Outcome) : Entry where
  kind :=
    if result = .ok then RequestReplay.knownOk
    else if result = .indeterminate then RequestReplay.unknownOutcome
    else RequestReplay.knownFailure
  rootId := s.policy.rootId
  operationId := s.header.requestId
  epoch := s.header.membershipEpoch
  token := s.header.fenceToken
  index := s.header.sequenceNumber
  object := Sha256.hash (Protocol.encode s.header)
  generation := s.policy.serial
  result := result

def finish (w : World) (id : ℕ) (result : Outcome) (host : WriteHost) : World × Answer :=
  match w.holder with
  | none => (w, ⟨.invalidInput, none, none⟩)
  | some (k, s) =>
    if k ≠ id ∨ s.admitted = false ∨ s.pending = false then (w, ⟨.invalidInput, none, none⟩)
    else
      let a := s.journal.append w.log (terminal s result) host
      ({ w with
          log := a.2.1
          holder := some (k, { s with
            journal := a.1, admitted := false
            lastResult := if a.2.2 = .ok then result else s.lastResult }) },
        ⟨a.2.2, none, none⟩)

def close (w : World) (id : ℕ) : World :=
  if w.holder.any fun s => s.1 = id then { w with holder := none } else w

/-! ### Repair -/

def requireFact (good : VerifyDetached) (sodium : Bool) (w : WitnessSet) (p : Policy) (h : Header)
    (content : Request) (f : Fact) (now : Counter) (receipt : Digest) : Outcome :=
  if w.present f = false then .denied
  else
    -- "MC-WITNESS-v2"
    let o := authentic good sodium [0x4D, 0x43, 0x2D, 0x57, 0x49, 0x54, 0x4E, 0x45, 0x53, 0x53,
      0x2D, 0x76, 0x32] (w.statements f).bytes (w.signatures f) (p.observers f)
    if o ≠ .ok then o
    else
      match Witness.decode (w.statements f).bytes with
      | .error o => o
      | .ok actual =>
        let expected : Statement :=
          { kind := f, clusterId := h.clusterId, nodeId := h.nodeId, rootId := p.rootId
            transactionId := content.transactionId, bootId := h.bootId
            plan := content.planDigest, contract := p.contract, epoch := h.membershipEpoch
            token := h.fenceToken }
        if ¬ Witness.Matches actual expected now p.maximumWitnessAge then .stale
        else if receipt ≠ zeroDigest ∧ Sha256.hash (w.statements f).bytes ≠ receipt then .denied
        else .ok

structure LedgerHost extends EnterHost where
  sodium : Bool := true
  priorRead : Outcome := .ok
  exportRead : Outcome := .ok
  storeOpen : Outcome := .ok
  storePut : Outcome := .ok
  placeRepair : Atomic.PlaceHost := {}
  placeRepairRead : Outcome := .ok
  place : Atomic.PlaceHost := {}
  placeRead : Outcome := .ok
  policyAgain : PolicyFile := {}
  boottimeAgain : Outcome := .ok
  nowAgain : Counter := 0
  /-- What `MC_Control_IO.Check` answers for `Repair_Records`. -/
  control : Outcome := .ok
  repairTail : RepairHost := {}
  appendBegun : WriteHost := {}
  appendUnknown : WriteHost := {}

def judgeRepair (good : VerifyDetached) (d : Directory Name) (f : File) (j : Journal) (p : Policy)
    (x : Submission) (host : LedgerHost) : Except Outcome Header :=
  match readPrevious j f host.readAt with
  | .error o => .error o
  | .ok before =>
    if (p.serial : ℕ) < before.serial then .error .stale
    else
      match checkRequest good host.sodium x.header x.body x.signature p.requestKey p.scope
        p.contract host.now before.window with
      | .error o => .error o
      | .ok c =>
        if c.classification ≠ .fresh ∨ c.request.action ≠ .repair
            ∨ c.request.expectedRevision ≠ p.serial then .error .denied
        else
          match Protocol.decode x.header with
          | .error o => .error o
          | .ok h =>
            let fact := fun k =>
              requireFact good host.sodium x.witnesses p h c.request k host.now zeroDigest
            if fact .clusterReservation ≠ .ok then .error (fact .clusterReservation)
            else if fact .isolationConfirmed ≠ .ok then .error (fact .isolationConfirmed)
            else
              let capacity : Except Outcome Header :=
                if canAppend j 2 true then .ok h else .error .exhausted
              if before.pending then
                match priorRequest d before.window host.priorRead with
                | .error o => .error o
                | .ok r =>
                  if r.transactionId ≠ c.request.transactionId
                      ∨ r.planDigest ≠ c.request.planDigest then .error .conflict
                  else capacity
              else capacity

/-- The torn tail, the recovery record and the envelope are stored; `some` digest is that of
the tail. -/
def preserveTail (d : Directory Name) (f : File) (j : Journal) (x : Submission) (h : Header)
    (host : LedgerHost) : Directory Name × Except Outcome Digest :=
  match j.exportTail f host.exportRead with
  | .error o => (d, .error o)
  | .ok tail =>
    if host.storeOpen ≠ .ok then (d, .error host.storeOpen)
    else if host.storePut ≠ .ok then (d, .error host.storePut)
    else
      let tailDigest := Sha256.hash tail
      let a := Atomic.preserve d (.repair h.requestId)
        (x.envelope ++ tailDigest.bytes ++ j.lastDigest.bytes) host.placeRepair host.placeRepairRead
      if a.2 ≠ .ok then (a.1, .error a.2)
      else
        let b := Atomic.preserve a.1 (.request h.requestId) x.envelope host.place host.placeRead
        if b.2 ≠ .ok then (b.1, .error b.2) else (b.1, .ok tailDigest)

/-- The policy, the time and the control latch are looked at again right before the ledger is
cut. -/
def recheck (policyDigest : Digest) (h : Header) (host : LedgerHost) : Except Outcome Policy :=
  match load host.policyAgain with
  | .error _ => .error .stale
  | .ok (p, d) =>
    if d ≠ policyDigest then .error .stale
    else if host.boottimeAgain ≠ .ok then .error host.boottimeAgain
    else if (h.deadline : ℕ) ≤ host.nowAgain then .error .stale
    else if host.control ≠ .ok then .error host.control
    else .ok p

def recordRepair (j : Journal) (f : File) (p : Policy) (x : Submission) (h : Header)
    (tailDigest : Digest) (host : LedgerHost) : File × Outcome :=
  let t := j.repairTail f tailDigest host.repairTail
  if t.2.2 ≠ .ok then (t.2.1, t.2.2)
  else
    let e := admission p h x.header
    let a := t.1.append t.2.1 e host.appendBegun
    if a.2.2 ≠ .ok then (a.2.1, a.2.2)
    else
      let b := a.1.append a.2.1
        { e with kind := RequestReplay.unknownOutcome, result := .indeterminate } host.appendUnknown
      (b.2.1, b.2.2)

def repairLedger (good : VerifyDetached) (w : World) (x : Submission) (host : LedgerHost) :
    World × Outcome :=
  if x.header.length ≠ 160 ∨ x.body.length ≠ bodySize then (w, .invalidInput)
  else
    match readPolicy host.toEnterHost with
    | .error o => (w, o)
    | .ok (p, d) =>
      match openLedger w p.rootId host.log with
      | (w, none, o) => (w, o)
      | (w, some j, o) =>
        if o ≠ .indeterminate ∨ j.tailBytes = 0 then (w, if o = .ok then .conflict else o)
        else
          match judgeRepair good w.directory w.log j p x host with
          | .error o => (w, o)
          | .ok h =>
            match preserveTail w.directory w.log j x h host with
            | (dir, .error o) => ({ w with directory := dir }, o)
            | (dir, .ok tailDigest) =>
              match recheck d h host with
              | .error o => ({ w with directory := dir }, o)
              | .ok p =>
                let r := recordRepair j w.log p x h tailDigest host
                ({ w with directory := dir, log := r.1 }, r.2)

/-! ### Provision -/

/-- What the host answers while a ledger is made; `created` tells whether a refused
`Create_New` has left a new file behind. -/
structure ProvisionHost where
  validName : Bool := true
  policyRoot : Outcome := .ok
  policy : PolicyFile := {}
  parentRoot : Outcome := .ok
  makeDirectory : Outcome := .ok
  newRoot : Outcome := .ok
  create : Outcome := .ok
  created : Bool := false
  synced : Bool := true
  parentSynced : Outcome := .ok
  log : OpenHost := {}
  append : WriteHost := {}

def genesis (p : Policy) (d : Digest) : Entry where
  kind := RequestReplay.genesis
  rootId := p.rootId
  operationId := p.rootId
  object := d
  generation := p.serial

def World.empty : World := ⟨File.empty, Directory.empty, none⟩

/-- `Provision`: the ledger, if there is one, and the answer. -/
def provision (host : ProvisionHost) : Option World × Outcome :=
  if host.validName = false then (none, .invalidInput)
  else if host.policyRoot ≠ .ok then (none, host.policyRoot)
  else
    match load host.policy with
    | .error o => (none, o)
    | .ok (p, d) =>
      if p.contract ≠ fingerprint then (none, .unsupported)
      else if host.parentRoot ≠ .ok then (none, host.parentRoot)
      else if host.makeDirectory ≠ .ok then (none, host.makeDirectory)
      else if host.newRoot ≠ .ok then (none, host.newRoot)
      else if host.create ≠ .ok then
        (if host.created then some World.empty else none, host.create)
      else if host.synced = false then (some World.empty, .indeterminate)
      else if host.parentSynced ≠ .ok then (some World.empty, host.parentSynced)
      else
        match openLog ⟨some File.empty, none⟩ p.rootId false host.log with
        | (⟨_, none⟩, o) => (some World.empty, o)
        | (⟨_, some j⟩, o) =>
          if o ≠ .ok then (some World.empty, o)
          else
            let a := j.append File.empty (genesis p d) host.append
            (some { World.empty with log := a.2.1 }, a.2.2)

/-! ### Calls and crashes -/

inductive Operation
  | begin (id : ℕ) (x : Submission) (host : BeginHost)
  | finish (id : ℕ) (result : Outcome) (host : WriteHost)
  | close (id : ℕ)
  | repair (x : Submission) (host : LedgerHost)

/-- What ends a call before its answer is seen: the process with session `id` is gone, or the
whole machine, with what was on its way to the medium. -/
inductive Crash
  | process (id : ℕ)
  | machine (fromStable : Bool) (n : ℕ) (keep : Name → Bool)

/-- A call, and the crash in it, if any. How far the call came before the crash shows in the
host's answers: a step that was not reached is one that failed. -/
structure Call where
  operation : Operation
  crash : Option Crash := none

def perform (good : VerifyDetached) (w : World) : Operation → World × Answer
  | .begin id x host => beginRequest good w id x host
  | .finish id result host => finish w id result host
  | .close id => (close w id, ⟨.ok, none, none⟩)
  | .repair x host =>
    let r := repairLedger good w x host
    (r.1, ⟨r.2, none, none⟩)

def World.crash (w : World) : Crash → World
  | .process id => close w id
  | .machine fromStable n keep =>
    ⟨w.log.crash fromStable n, w.directory.crash keep, none⟩

def call (good : VerifyDetached) (w : World) (c : Call) : World × Option Answer :=
  let r := perform good w c.operation
  match c.crash with
  | none => (r.1, some r.2)
  | some k => (r.1.crash k, none)

end NiayanAssurance.Gate
