import NiayanAssurance.Sha256
import Mathlib.Data.Fintype.Fin

/-!
Change control: a latch that few signers may tighten and that only a full authority may
relax.

Signers are numbered from 0. A refused proposal leaves the state as it was.
-/

namespace NiayanAssurance.Control

open NiayanAssurance.Lib NiayanAssurance.Types

abbrev maxSigners : ℕ := 8

inductive Role | operations | security
  deriving DecidableEq, Repr

structure Signer where
  publicKey : Digest := zeroDigest
  principal : Identity := zeroIdentity
  domain : Fin 65536 := 0
  duty : Role := .operations
  deriving DecidableEq

instance : Inhabited Signer := ⟨{}⟩

/-- `Verified_Set`: which of the signers have signed. -/
abbrev VerifiedSet := Finset (Fin maxSigners)

structure Authority where
  scope : Identity := zeroIdentity
  contract : Digest := zeroDigest
  serial : Counter := 0
  tightenThreshold : ℕ := 1
  resumeThreshold : ℕ := 2
  keys : List Signer := []
  count_le : keys.length ≤ maxSigners := by decide
  tighten_range : 1 ≤ tightenThreshold ∧ tightenThreshold ≤ maxSigners := by decide
  resume_range : 2 ≤ resumeThreshold ∧ resumeThreshold ≤ maxSigners := by decide

/-! The thresholds that an authority has unless it says otherwise. -/

lemma tighten_one : 1 ≤ 1 ∧ 1 ≤ maxSigners := by decide
lemma resume_two : 2 ≤ 2 ∧ 2 ≤ maxSigners := by decide
lemma two_keys (k l : Signer) : [k, l].length ≤ maxSigners := by simp [maxSigners]

def Authority.count (a : Authority) : ℕ := a.keys.length
def Authority.key (a : Authority) (i : ℕ) : Signer := a.keys.getD i default

inductive Mode | running | changesHeld | quarantined
  deriving DecidableEq, Repr

/-- `Mode'Pos`. -/
def Mode.pos : Mode → ℕ | .running => 0 | .changesHeld => 1 | .quarantined => 2

structure State where
  scope : Identity := zeroIdentity
  contract : Digest := zeroDigest
  authorityDigest : Digest := zeroDigest
  revision : Counter := 0
  trustEpoch : Counter := 0
  current : Mode := .quarantined
  incident : Identity := zeroIdentity
  lastRequest : Identity := zeroIdentity
  previous : Digest := zeroDigest
  reason : Digest := zeroDigest
  deriving DecidableEq

structure Proposal where
  scope : Identity := zeroIdentity
  bootId : Identity := zeroIdentity
  requestId : Identity := zeroIdentity
  contract : Digest := zeroDigest
  authorityDigest : Digest := zeroDigest
  expectedState : Digest := zeroDigest
  reason : Digest := zeroDigest
  recoveryReceipt : Digest := zeroDigest
  expectedRevision : Counter := 0
  newTrustEpoch : Counter := 0
  notBefore : Counter := 0
  expires : Counter := 0
  desired : Mode := .quarantined
  deriving DecidableEq

/-! ### Frames -/

def SM : Bytes := [77, 67, 67, 84, 76, 48, 48, 49]
def AM : Bytes := [77, 67, 82, 79, 76, 69, 48, 49]

def Role.pos : Role → ℕ | .operations => 0 | .security => 1

def State.encode (s : State) : Bytes :=
  Sha256.withDigest 224 (pad 80 (SM ++ s.scope.bytes ++ s.contract.bytes ++ be 8 s.revision
    ++ be 8 s.trustEpoch ++ be 1 s.current.pos)
    ++ s.incident.bytes ++ s.lastRequest.bytes ++ s.previous.bytes ++ s.reason.bytes
    ++ s.authorityDigest.bytes)

/-- The 96 bytes of one signer. -/
def Signer.encode (k : Signer) : Bytes :=
  pad 96 (k.publicKey.bytes ++ k.principal.bytes ++ be 2 k.domain ++ be 1 k.duty.pos)

def Authority.encode (a : Authority) : Bytes :=
  Sha256.withDigest 992 (pad 96 (AM ++ a.scope.bytes ++ a.contract.bytes ++ be 8 a.serial
    ++ be 1 a.count ++ be 1 a.tightenThreshold ++ be 1 a.resumeThreshold)
    ++ a.keys.flatMap Signer.encode)

/-! ### Validity -/

def Signer.Named (k : Signer) : Prop :=
  k.publicKey ≠ zeroDigest ∧ k.principal ≠ zeroIdentity ∧ (k.domain : ℕ) ≠ 0

def Signer.Distinct (k l : Signer) : Prop :=
  k.publicKey ≠ l.publicKey ∧ k.principal ≠ l.principal

def Authority.Valid (a : Authority) : Prop :=
  a.scope ≠ zeroIdentity ∧ a.contract ≠ zeroDigest ∧ (a.serial : ℕ) ≠ 0 ∧ 2 ≤ a.count
    ∧ a.tightenThreshold ≤ a.count ∧ a.resumeThreshold ≤ a.count
    ∧ (∀ i < a.count, (a.key i).Named ∧ ∀ j < i, (a.key i).Distinct (a.key j))
    ∧ (∃ i < a.count, (a.key i).duty = .operations)
    ∧ ∃ i < a.count, (a.key i).duty = .security

def State.Valid (s : State) : Prop :=
  s.scope ≠ zeroIdentity ∧ s.contract ≠ zeroDigest ∧ s.authorityDigest ≠ zeroDigest
    ∧ 0 < (s.revision : ℕ) ∧ 0 < (s.trustEpoch : ℕ) ∧ s.lastRequest ≠ zeroIdentity
    ∧ s.reason ≠ zeroDigest ∧ (s.current = .running ↔ s.incident = zeroIdentity)
    ∧ (((s.revision : ℕ) = 1 ∧ s.previous = zeroDigest)
      ∨ (1 < (s.revision : ℕ) ∧ s.previous ≠ zeroDigest))

section Decidable

instance (k : Signer) : Decidable k.Named := by unfold Signer.Named; infer_instance

instance (k l : Signer) : Decidable (k.Distinct l) := by
  unfold Signer.Distinct; infer_instance

instance (a : Authority) : Decidable a.Valid := by unfold Authority.Valid; infer_instance

instance (s : State) : Decidable s.Valid := by unfold State.Valid; infer_instance

end Decidable

/-! ### The decision -/

/-- What the loop over the signers adds up. -/
structure Tally where
  count : ℕ := 0
  ops : Bool := false
  sec : Bool := false
  diverse : Bool := false
  firstDomain : ℕ := 0
  deriving DecidableEq

def Tally.add (t : Tally) (k : Signer) : Tally where
  count := t.count + 1
  ops := t.ops || k.duty = .operations
  sec := t.sec || k.duty = .security
  diverse := if t.firstDomain = 0 then t.diverse else t.diverse || t.firstDomain ≠ k.domain
  firstDomain := if t.firstDomain = 0 then k.domain else t.firstDomain

/-- The loop over the signers; a signature beyond the authority's keys ends it. -/
def Authority.tally (a : Authority) (verified : VerifiedSet) : Option Tally :=
  (List.finRange maxSigners).foldlM (fun t i =>
    if i ∈ verified then
      if (i : ℕ) < a.count then some (t.add (a.key i)) else none
    else some t) {}

/-- The checks on a proposal alone. -/
def Proposal.Proper (p : Proposal) (a : Authority) (authorityHash : Digest) (boot : Identity)
    (now : Counter) : Prop :=
  a.Valid ∧ authorityHash ≠ zeroDigest ∧ p.scope = a.scope ∧ p.contract = a.contract
    ∧ p.authorityDigest = authorityHash ∧ boot ≠ zeroIdentity ∧ p.bootId = boot
    ∧ p.requestId ≠ zeroIdentity ∧ p.reason ≠ zeroDigest ∧ (p.notBefore : ℕ) ≤ now
    ∧ (now : ℕ) < p.expires ∧ (p.notBefore : ℕ) < p.expires
    ∧ (p.expires : ℕ) - p.notBefore ≤ 300000 ∧ (p.expectedRevision : ℕ) ≠ Counter.last
    ∧ (p.newTrustEpoch : ℕ) ≠ 0

/-- The checks on the first proposal of a scope. -/
def Proposal.Opens (p : Proposal) (beforeHash : Digest) : Prop :=
  (p.expectedRevision : ℕ) = 0 ∧ p.expectedState = zeroDigest ∧ beforeHash = zeroDigest
    ∧ p.desired = .quarantined

/-- The checks on a proposal against the state before it. -/
def Proposal.Continues (p : Proposal) (a : Authority) (authorityHash : Digest)
    (before : State) (beforeHash : Digest) : Prop :=
  before.Valid ∧ before.scope = a.scope ∧ before.contract = a.contract
    ∧ before.authorityDigest = authorityHash ∧ beforeHash ≠ zeroDigest
    ∧ p.expectedState = beforeHash ∧ p.expectedRevision = before.revision
    ∧ (before.trustEpoch : ℕ) ≤ p.newTrustEpoch ∧ p.requestId ≠ before.lastRequest

section Decidable

instance (p : Proposal) (a : Authority) (h : Digest) (boot : Identity) (now : Counter) :
    Decidable (p.Proper a h boot now) := by unfold Proposal.Proper; infer_instance

instance (p : Proposal) (h : Digest) : Decidable (p.Opens h) := by
  unfold Proposal.Opens; infer_instance

instance (p : Proposal) (a : Authority) (h : Digest) (before : State) (beforeHash : Digest) :
    Decidable (p.Continues a h before beforeHash) := by
  unfold Proposal.Continues; infer_instance

end Decidable

/-- The state a proposal leads to. -/
def Proposal.after (p : Proposal) (a : Authority) (authorityHash beforeHash : Digest) :
    State where
  scope := a.scope
  contract := a.contract
  authorityDigest := authorityHash
  revision := p.expectedRevision.next
  trustEpoch := p.newTrustEpoch
  current := p.desired
  lastRequest := p.requestId
  incident := if p.desired = .running then zeroIdentity else p.requestId
  previous := beforeHash
  reason := p.reason

def Authority.decide (a : Authority) (authorityHash : Digest) (before : State)
    (beforeHash : Digest) (isGenesis : Bool) (p : Proposal) (verified : VerifiedSet)
    (boot : Identity) (now : Counter) : Except Outcome State :=
  if ¬ p.Proper a authorityHash boot now then .error .denied
  else if isGenesis = true ∧ ¬ p.Opens beforeHash then .error .denied
  else if isGenesis = false ∧ ¬ p.Continues a authorityHash before beforeHash then
    .error .denied
  else
    let relaxing := isGenesis = false ∧ p.desired.pos < before.current.pos
    match a.tally verified with
    | none => .error .denied
    | some t =>
      if t.count < a.tightenThreshold then .error .denied
      else if relaxing ∧ (t.count < a.resumeThreshold ∨ t.ops = false ∨ t.sec = false
          ∨ t.diverse = false ∨ (p.newTrustEpoch : ℕ) ≤ before.trustEpoch
          ∨ p.recoveryReceipt = zeroDigest) then .error .denied
      else .ok (p.after a authorityHash beforeHash)

def authorityHash (a : Authority) : Digest := Sha256.hash a.encode

def stateHash (s : State) : Digest := Sha256.hash s.encode

end NiayanAssurance.Control
