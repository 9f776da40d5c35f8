import NiayanAssurance.GateSpec

/-!
What a receiver's ledger tells an observer about one request.

The observer takes the lock of the ledger, so that it sees nothing while a session has it open,
and answers only for a ledger without a torn tail.
-/

namespace NiayanAssurance.ReceiverLedger

open NiayanAssurance.Lib NiayanAssurance.Types NiayanAssurance.LogFormat
open NiayanAssurance.Log hiding World
open NiayanAssurance.Protocol NiayanAssurance.LogFile
open NiayanAssurance.RequestReplay
open NiayanAssurance.Gate hiding genesis
open NiayanAssurance.GateSpec

inductive ReceiptState | notRecorded | inProgress | terminalOk | terminalFailure
  deriving DecidableEq, Repr

structure Receipt where
  state : ReceiptState := .notRecorded
  requestId : Identity := zeroIdentity
  envelopeDigest : Digest := zeroDigest
  recordDigest : Digest := zeroDigest
  sequence : Counter := 0
  result : Outcome := .indeterminate
  rawRecord : Bytes := List.replicate 256 0
  deriving DecidableEq

structure ObserveHost where
  ledgerRoot : Outcome := .ok
  log : OpenHost := {}
  readAt : ℕ → Outcome := fun _ => .ok
  envelopeRead : Outcome := .ok

/-- What an observer asks: the root of the ledger, the request, and the digest of its envelope. -/
structure Query where
  rootId : Identity
  requestId : Identity
  expectedEnvelope : Digest

/-- Where the loop stands: `targetHeader` is there once the request was seen. -/
structure Progress where
  replay : RequestReplay.State := {}
  targetHeader : Option Digest := none
  value : Receipt := {}

/-- The digest of the header in the envelope of the request. -/
def envelopeHeader (d : Directory Name) (q : Query) (readAt : Outcome) : Option Digest :=
  match Atomic.read d (.request q.requestId) 416 readAt with
  | .error _ => none
  | .ok b =>
    if b.length ≠ 416 ∨ Sha256.hash b ≠ q.expectedEnvelope then none
    else
      match Protocol.decode (range b 1 160) with
      | .error _ => none
      | .ok h =>
        if h.requestId ≠ q.requestId ∨ h.resourceId ≠ q.rootId then none
        else some (Sha256.hash (range b 1 160))

/-- The state of a request whose last record is of this kind. -/
def stateOf (kind : Fin 65536) : Option ReceiptState :=
  if kind = begun ∨ kind = unknownOutcome then some .inProgress
  else if kind = knownOk then some .terminalOk
  else if kind = knownFailure then some .terminalFailure
  else none

def receiptFor (q : Query) (e : Entry) (state : ReceiptState) : Receipt where
  state := state
  requestId := q.requestId
  envelopeDigest := q.expectedEnvelope
  recordDigest := Sha256.hash (LogFormat.encode e)
  sequence := e.sequence
  result := e.result
  rawRecord := LogFormat.encode e

def OfRequest (requestId : Identity) (e : Entry) : Prop :=
  e.kind ≠ genesis ∧ e.operationId = requestId

instance (requestId : Identity) (e : Entry) : Decidable (OfRequest requestId e) := by
  unfold OfRequest; infer_instance

/-- One turn of the loop of `Observe`; where it ends the loop, the receipt so far. -/
def observeStep (d : Directory Name) (f : File) (j : Journal) (q : Query) (host : ObserveHost)
    (s : Progress) (i : ℕ) : Except (Receipt × Outcome) Progress :=
  match j.read f (i + 1) (host.readAt (i + 1)) with
  | .error o => .error (s.value, o)
  | .ok e =>
    match consume s.replay e with
    | none => .error (s.value, .corrupt)
    | some replay =>
      if ¬ OfRequest q.requestId e then .ok { s with replay := replay }
      else if s.targetHeader = none ∧ e.kind ≠ begun then .error (s.value, .corrupt)
      else
        match s.targetHeader <|> envelopeHeader d q host.envelopeRead with
        | none => .error (s.value, .corrupt)
        | some target =>
          if e.object ≠ target then .error (s.value, .corrupt)
          else
            match stateOf e.kind with
            | none => .error (receiptFor q e s.value.state, .corrupt)
            | some state => .ok ⟨replay, some target, receiptFor q e state⟩

/-- `Observe`: what it leaves of the ledger, which is all of it, and what it answers. -/
def observe (w : World) (q : Query) (host : ObserveHost) : World × Receipt × Outcome :=
  if q.rootId = zeroIdentity ∨ q.requestId = zeroIdentity ∨ q.expectedEnvelope = zeroDigest then
    (w, {}, .invalidInput)
  else if host.ledgerRoot ≠ .ok then (w, {}, host.ledgerRoot)
  else
    match openLedger w q.rootId host.log with
    | (w, none, o) => (w, {}, o)
    | (w, some j, o) =>
      if o ≠ .ok then (w, {}, o)
      else if j.count = 0 then (w, {}, .corrupt)
      else
        match (List.range j.count).foldlM (observeStep w.directory w.log j q host) {} with
        | .error (value, o) => (w, value, o)
        | .ok s => (w, s.value, .ok)

end NiayanAssurance.ReceiverLedger
