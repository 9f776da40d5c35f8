import NiayanAssurance.Ingress
import NiayanAssurance.Lib.Frame

/-!
The policy of a site, the 512 bytes it is stored in, and the signed statements of its
observers.
-/

namespace NiayanAssurance.SitePolicy

open NiayanAssurance.Lib NiayanAssurance.Types NiayanAssurance.Protocol
open NiayanAssurance.Ingress

/-! ### Witnesses -/

inductive Fact
  | clusterReservation | resourceQuiesced | semanticHealth | dataBackwardCompatible
  | isolationConfirmed
  deriving DecidableEq, Repr

/-- `Fact'Pos`. -/
def Fact.pos : Fact → ℕ
  | .clusterReservation => 0 | .resourceQuiesced => 1 | .semanticHealth => 2
  | .dataBackwardCompatible => 3 | .isolationConfirmed => 4

/-- `Fact'Val`. -/
def Fact.val : ℕ → Option Fact
  | 0 => some .clusterReservation | 1 => some .resourceQuiesced | 2 => some .semanticHealth
  | 3 => some .dataBackwardCompatible | 4 => some .isolationConfirmed
  | _ => none

def Fact.all : List Fact :=
  [.clusterReservation, .resourceQuiesced, .semanticHealth, .dataBackwardCompatible,
    .isolationConfirmed]

structure Statement where
  kind : Fact := .clusterReservation
  clusterId : Identity := zeroIdentity
  nodeId : Identity := zeroIdentity
  rootId : Identity := zeroIdentity
  transactionId : Identity := zeroIdentity
  bootId : Identity := zeroIdentity
  plan : Digest := zeroDigest
  contract : Digest := zeroDigest
  epoch : Counter := 0
  token : Counter := 0
  issued : Counter := 0
  expires : Counter := 0
  deriving DecidableEq

namespace Witness

def magic : Bytes := [0x4D, 0x43, 0x57, 0x49, 0x54, 0x30, 0x30, 0x32]

def encode (s : Statement) : Bytes :=
  pad 224 (pad 16 (magic ++ be 1 s.kind.pos) ++ s.clusterId.bytes ++ s.nodeId.bytes
    ++ s.rootId.bytes ++ s.transactionId.bytes ++ s.bootId.bytes ++ s.plan.bytes
    ++ s.contract.bytes ++ be 8 s.epoch ++ be 8 s.token ++ be 8 s.issued ++ be 8 s.expires)

/-- The statement that a frame spells, its kind being `kind`. -/
def fields (b : Bytes) (kind : Fact) : Statement where
  kind := kind
  clusterId := Block.ofBytes 16 (range b 17 32)
  nodeId := Block.ofBytes 16 (range b 33 48)
  rootId := Block.ofBytes 16 (range b 49 64)
  transactionId := Block.ofBytes 16 (range b 65 80)
  bootId := Block.ofBytes 16 (range b 81 96)
  plan := Block.ofBytes 32 (range b 97 128)
  contract := Block.ofBytes 32 (range b 129 160)
  epoch := Counter.ofNat (u64 b 161)
  token := Counter.ofNat (u64 b 169)
  issued := Counter.ofNat (u64 b 177)
  expires := Counter.ofNat (u64 b 185)

def decode (b : Bytes) : Except Outcome Statement :=
  if b.length ≠ 224 ∨ range b 1 8 ≠ magic then .error .invalidInput
  else
    match Fact.val (unbe (range b 9 9)) with
    | none => .error .invalidInput
    | some kind =>
      if (range b 10 16).any (· ≠ 0) ∨ (range b 193 224).any (· ≠ 0)
          ∨ [161, 169, 177, 185].any fun offset => Counter.last < u64 b offset then
        .error .invalidInput
      else .ok (fields b kind)

def Matches (s expected : Statement) (now maximumAge : Counter) : Prop :=
  s.kind = expected.kind ∧ s.clusterId = expected.clusterId ∧ s.nodeId = expected.nodeId
    ∧ s.rootId = expected.rootId ∧ s.transactionId = expected.transactionId
    ∧ s.bootId = expected.bootId ∧ s.plan = expected.plan ∧ s.contract = expected.contract
    ∧ s.epoch = expected.epoch ∧ s.token = expected.token ∧ (s.issued : ℕ) ≤ now
    ∧ (now : ℕ) < s.expires ∧ (s.expires : ℕ) - s.issued ≤ maximumAge

instance (s expected : Statement) (now maximumAge : Counter) :
    Decidable (Matches s expected now maximumAge) := by unfold Matches; infer_instance

end Witness

/-- `MC_Authentic.Verify`. -/
def authentic (good : VerifyDetached) (sodium : Bool) (domain data : Bytes) (sig : Signature)
    (key : PublicKey) : Outcome :=
  if domain.length = 0 ∨ 64 < domain.length ∨ 16777216 < data.length then .invalidInput
  else if sodium = false then .ioError
  else if good sig (be 2 domain.length ++ domain ++ data) key then .ok
  else .denied

/-! ### The policy -/

structure Policy where
  scope : Scope := {}
  rootId : Identity := zeroIdentity
  requestKey : PublicKey := Block.zero 32
  observers : Fact → PublicKey := fun _ => Block.zero 32
  contract : Digest := zeroDigest
  serial : Counter := 0
  validUntil : Counter := 0
  maximumWitnessAge : Counter := 5000

def size : ℕ := 512

def magic : Bytes := [0x4D, 0x43, 0x50, 0x4F, 0x4C, 0x30, 0x30, 0x32]

/-- `B (1..480)`. -/
def body (p : Policy) : Bytes :=
  pad 480 (pad 192 (magic ++ p.rootId.bytes ++ p.scope.clusterId.bytes ++ p.scope.nodeId.bytes
    ++ p.scope.resourceId.bytes ++ be 8 p.scope.membershipEpoch ++ be 8 p.scope.fenceToken
    ++ be 4 (bitSet MessageKind.pos p.scope.allowed MessageKind.all) ++ List.replicate 4 0
    ++ p.requestKey.bytes ++ p.contract.bytes) ++ be 8 p.scope.maximumLocalLease
    ++ be 8 p.validUntil ++ be 8 p.serial ++ be 8 p.maximumWitnessAge
    ++ Fact.all.flatMap fun k => (p.observers k).bytes)

def encode (p : Policy) : Bytes := body p ++ (Sha256.hash (body p)).bytes

/-- The policy that a frame spells. -/
def fields (b : Bytes) : Policy where
  rootId := Block.ofBytes 16 (range b 9 24)
  scope :=
    { clusterId := Block.ofBytes 16 (range b 25 40)
      nodeId := Block.ofBytes 16 (range b 41 56)
      resourceId := Block.ofBytes 16 (range b 57 72)
      membershipEpoch := Counter.ofNat (u64 b 73)
      fenceToken := Counter.ofNat (u64 b 81)
      allowed := fun k => (u32 b 89).testBit k.pos
      maximumLocalLease := Counter.ofNat (u64 b 193) }
  requestKey := Block.ofBytes 32 (range b 97 128)
  contract := Block.ofBytes 32 (range b 129 160)
  validUntil := Counter.ofNat (u64 b 201)
  serial := Counter.ofNat (u64 b 209)
  maximumWitnessAge := Counter.ofNat (u64 b 217)
  observers k := Block.ofBytes 32 (range b (225 + 32 * k.pos) (256 + 32 * k.pos))

/-- What `Decode` asks of the fields. -/
def Policy.Sound (p : Policy) : Prop :=
  p.rootId ≠ zeroIdentity ∧ p.scope.resourceId = p.rootId ∧ p.scope.clusterId ≠ zeroIdentity
    ∧ p.scope.nodeId ≠ zeroIdentity ∧ (p.scope.membershipEpoch : ℕ) ≠ 0
    ∧ (p.scope.fenceToken : ℕ) ≠ 0 ∧ 1 ≤ (p.scope.maximumLocalLease : ℕ)
    ∧ (p.scope.maximumLocalLease : ℕ) ≤ 3600000 ∧ 1 ≤ (p.maximumWitnessAge : ℕ)
    ∧ (p.maximumWitnessAge : ℕ) ≤ 60000 ∧ isZero p.requestKey.bytes = false
    ∧ p.contract ≠ zeroDigest ∧ (p.serial : ℕ) ≠ 0 ∧ (p.validUntil : ℕ) ≠ 0
    ∧ ∀ k ∈ Fact.all, isZero (p.observers k).bytes = false ∧ p.observers k ≠ p.requestKey

instance (p : Policy) : Decidable p.Sound := by unfold Policy.Sound; infer_instance

def decode (b : Bytes) : Except Outcome Policy :=
  if b.length ≠ size ∨ range b 1 8 ≠ magic
      ∨ range b 481 512 ≠ (Sha256.hash (range b 1 480)).bytes
      ∨ (range b 93 96).any (· ≠ 0) ∨ (range b 161 192).any (· ≠ 0)
      ∨ (range b 385 480).any (· ≠ 0)
      ∨ ([73, 81, 193, 201, 209, 217].any fun offset => Counter.last < u64 b offset)
      ∨ 2 ^ 20 ≤ u32 b 89 then .error .invalidInput
  else if (fields b).Sound then .ok (fields b)
  else .error .invalidInput

/-- `policy.bin` as the host answers for it: what the calls say that inspect and read it, and
its bytes. -/
structure PolicyFile where
  status : Outcome := .ok
  data : Bytes := []

/-- `Load`: the policy and its fingerprint. -/
def load (file : PolicyFile) : Except Outcome (Policy × Digest) :=
  if file.status ≠ .ok then .error file.status
  else if file.data.length ≠ size then .error .corrupt
  else
    match decode file.data with
    | .error o => .error o
    | .ok p => .ok (p, Sha256.hash file.data)

/-! ### Lemmas -/

section Load

variable {file file' : PolicyFile} {p p' : Policy} {d d' : Digest} {o : Outcome}

lemma load_ok (h : load file = .ok (p, d)) :
    decode file.data = .ok p ∧ d = Sha256.hash file.data := by
  unfold load at h
  split at h
  · cases h
  split at h
  · cases h
  split at h
  · cases h
  · rename_i hd
    cases h
    exact ⟨hd, rfl⟩

lemma load_error (h : load file = .error o) : o ≠ .ok := by
  unfold load at h
  split at h
  · cases h
    assumption
  split at h
  · cases h; simp
  split at h
  · rename_i hd
    cases h
    unfold decode at hd
    split at hd
    · cases hd; simp
    split at hd <;> cases hd
    simp
  · cases h

lemma decode_sound {b : Bytes} (h : decode b = .ok p) : p.Sound := by
  unfold decode at h
  split at h
  · cases h
  split at h
  · rename_i hs
    obtain rfl := Except.ok.inj h
    exact hs
  · cases h

end Load

end NiayanAssurance.SitePolicy
