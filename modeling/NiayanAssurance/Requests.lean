import NiayanAssurance.Sha256
import NiayanAssurance.Protocol

/-!
The 192-byte body of a request.
-/

namespace NiayanAssurance.Requests

open NiayanAssurance.Lib NiayanAssurance.Types NiayanAssurance.Protocol

def bodySize : ℕ := 192

inductive RequestedAction
  | plan | prepare | apply | inspect | recover | commit | restore | reconcile | repair
  deriving DecidableEq, Repr

/-- `Requested_Action'Pos`. -/
def RequestedAction.pos : RequestedAction → ℕ
  | .plan => 0 | .prepare => 1 | .apply => 2 | .inspect => 3 | .recover => 4 | .commit => 5
  | .restore => 6 | .reconcile => 7 | .repair => 8

/-- The action whose `Requested_Action'Pos + 1` is the byte. -/
def RequestedAction.ofByte : ℕ → Option RequestedAction
  | 1 => some .plan | 2 => some .prepare | 3 => some .apply | 4 => some .inspect
  | 5 => some .recover | 6 => some .commit | 7 => some .restore | 8 => some .reconcile
  | 9 => some .repair
  | _ => none

structure Request where
  action : RequestedAction := .inspect
  transactionId : Identity := zeroIdentity
  planDigest : Digest := zeroDigest
  contractDigest : Digest := zeroDigest
  expectedRevision : Counter := 0
  baseGeneration : Counter := 0
  stageSetDigest : Digest := zeroDigest
  evidenceDigest : Digest := zeroDigest
  deriving DecidableEq

def magic : Bytes := [0x4D, 0x43, 0x4F, 0x32]

def encode (r : Request) : Bytes :=
  pad bodySize (magic ++ be 2 2 ++ be 1 (r.action.pos + 1) ++ [0] ++ r.transactionId.bytes
    ++ r.planDigest.bytes ++ r.contractDigest.bytes ++ be 8 r.expectedRevision
    ++ be 8 r.baseGeneration ++ r.stageSetDigest.bytes ++ r.evidenceDigest.bytes)

/-- The request that a body spells, its action being `action`. -/
def fields (b : Bytes) (action : RequestedAction) : Request where
  action := action
  transactionId := Block.ofBytes 16 (range b 9 24)
  planDigest := Block.ofBytes 32 (range b 25 56)
  contractDigest := Block.ofBytes 32 (range b 57 88)
  expectedRevision := Counter.ofNat (u64 b 89)
  baseGeneration := Counter.ofNat (u64 b 97)
  stageSetDigest := Block.ofBytes 32 (range b 105 136)
  evidenceDigest := Block.ofBytes 32 (range b 137 168)

/-- `Decode`: what it leaves in the request, and its status. -/
def decodeOut (b : Bytes) : Request × Outcome :=
  if b.length ≠ bodySize then ({}, .invalidInput)
  else
    match RequestedAction.ofByte (unbe (range b 7 7)) with
    | none => ({}, .invalidInput)
    | some action =>
      if range b 1 4 ≠ magic ∨ u16 b 5 ≠ 2 ∨ range b 8 8 ≠ [0]
          ∨ isZero (range b 169 192) = false ∨ Counter.last < u64 b 89
          ∨ Counter.last < u64 b 97 then ({}, .invalidInput)
      else
        let r := fields b action
        if isZero r.transactionId.bytes ∨ isZero r.planDigest.bytes
            ∨ isZero r.contractDigest.bytes then (r, .invalidInput)
        else if (r.action = .prepare ∨ r.action = .apply) ∧ isZero r.stageSetDigest.bytes then
          (r, .invalidInput)
        else if (r.action = .commit ∨ r.action = .restore) ∧ isZero r.evidenceDigest.bytes then
          (r, .invalidInput)
        else (r, .ok)

def decode (b : Bytes) : Except Outcome Request := returned (decodeOut b)

/-- The kind of message that carries a request. -/
def expected : RequestedAction → MessageKind
  | .plan => .planRequest | .prepare => .prepareRequest | .apply => .applyRequest
  | .inspect => .inspectRequest | .recover => .recoverRequest | .commit => .commitRequest
  | .restore => .restoreRequest | .reconcile => .reconcileRequest | .repair => .repairRequest

def HeaderBinds (h : Header) (r : Request) : Prop :=
  h.kind = expected r.action ∧ (h.bodyLength : ℕ) = bodySize
    ∧ h.bodyDigest = Sha256.hash (encode r)

instance (h : Header) (r : Request) : Decidable (HeaderBinds h r) := by
  unfold HeaderBinds; infer_instance

/-- `Recover | Restore | Reconcile | Repair`. -/
def Recovery (a : RequestedAction) : Prop :=
  a = .recover ∨ a = .restore ∨ a = .reconcile ∨ a = .repair

instance (a : RequestedAction) : Decidable (Recovery a) := by unfold Recovery; infer_instance

end NiayanAssurance.Requests
