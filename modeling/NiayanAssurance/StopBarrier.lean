import NiayanAssurance.Sha256
import NiayanAssurance.TimeGuard

/-!
The stop barrier: every participant of an authenticated inventory must report that it has
drained, or be reported as isolated, before a change may be sealed.

Participants are numbered from 0. An operation that refuses answers with an outcome and
leaves the state as it was.
-/

namespace NiayanAssurance.StopBarrier

open NiayanAssurance.Lib NiayanAssurance.Types NiayanAssurance.TimeGuard

def capacity : ℕ := 32

structure Participant where
  nodeId : Identity := zeroIdentity
  resourceId : Identity := zeroIdentity
  bootId : Identity := zeroIdentity
  stopKey : Digest := zeroDigest
  fenceKey : Digest := zeroDigest
  requiredIsolationPaths : Word := 0#32
  deriving DecidableEq

instance : Inhabited Participant := ⟨{}⟩

structure Policy where
  clusterId : Identity := zeroIdentity
  barrierId : Identity := zeroIdentity
  receiverBoot : Identity := zeroIdentity
  contract : Digest := zeroDigest
  changePlan : Digest := zeroDigest
  inventory : Digest := zeroDigest
  guardValue : Digest := zeroDigest
  epoch : Counter := 0
  guardRevision : Counter := 0
  maximumAge : Counter := 5000
  members : List Participant := []
  count_le : members.length ≤ capacity := by decide

inductive AckKind | drained | fenced | unsafeAck
  deriving DecidableEq, Repr

inductive Channel | nodeAgent | fenceObserver
  deriving DecidableEq, Repr

structure Evidence where
  policyHash : Digest := zeroDigest
  durableReceipt : Digest := zeroDigest
  auditHead : Digest := zeroDigest
  nodeId : Identity := zeroIdentity
  resourceId : Identity := zeroIdentity
  subjectBoot : Identity := zeroIdentity
  stamp : Stamp := {}
  epoch : Counter := 0
  appliedGuardRevision : Counter := 0
  lastDispatched : Counter := 0
  lastCompleted : Counter := 0
  inFlight : Counter := 0
  unknownEffects : Counter := 0
  isolationPaths : Word := 0#32
  kind : AckKind := .unsafeAck
  source : Channel := .nodeAgent
  durableStopLatch : Bool := false
  queueClosed : Bool := false
  retirementDurable : Bool := false
  deriving DecidableEq

inductive Phase | collecting | sealed | blocked
  deriving DecidableEq, Repr

inductive ParticipantPhase | awaiting | acknowledged | isolated | uncertain
  deriving DecidableEq, Repr

structure Receipt where
  current : ParticipantPhase := .awaiting
  nodeSequence : Counter := 0
  fenceSequence : Counter := 0
  observed : Counter := 0
  expires : Counter := 0
  proof : Digest := zeroDigest
  auditHead : Digest := zeroDigest
  completed : Counter := 0
  isolationPaths : Word := 0#32
  deriving DecidableEq

instance : Inhabited Receipt := ⟨{}⟩

structure State where
  policyHash : Digest := zeroDigest
  clusterId : Identity := zeroIdentity
  barrierId : Identity := zeroIdentity
  receiverBoot : Identity := zeroIdentity
  revision : Counter := 0
  lastNow : Counter := 0
  current : Phase := .collecting
  members : List Receipt := []
  count_le : members.length ≤ capacity := by decide

def Policy.count (p : Policy) : ℕ := p.members.length
def Policy.member (p : Policy) (i : ℕ) : Participant := p.members.getD i default
def State.count (s : State) : ℕ := s.members.length
def State.member (s : State) (i : ℕ) : Receipt := s.members.getD i default

/-- The last sequence taken from a channel. -/
def Receipt.sequence (r : Receipt) : Channel → Counter
  | .nodeAgent => r.nodeSequence
  | .fenceObserver => r.fenceSequence

def Receipt.withSequence (r : Receipt) (c : Channel) (n : Counter) : Receipt :=
  match c with
  | .nodeAgent => { r with nodeSequence := n }
  | .fenceObserver => { r with fenceSequence := n }

/-! ### Frames -/

def PM : Bytes := [77, 67, 66, 65, 82, 80, 48, 49]
def EM : Bytes := [77, 67, 66, 65, 82, 69, 48, 49]

/-- The 128 bytes of one participant. -/
def Participant.encode (m : Participant) : Bytes :=
  pad 128 (m.nodeId.bytes ++ m.resourceId.bytes ++ m.bootId.bytes ++ m.stopKey.bytes
    ++ m.fenceKey.bytes ++ be 4 m.requiredIsolationPaths.toNat)

/-- `B (1..256)`: the fields before the participants. -/
def Policy.header (p : Policy) : Bytes :=
  pad 256 (PM ++ p.clusterId.bytes ++ p.barrierId.bytes ++ p.receiverBoot.bytes
    ++ p.contract.bytes ++ p.changePlan.bytes ++ p.inventory.bytes ++ p.guardValue.bytes
    ++ be 8 p.epoch ++ be 8 p.guardRevision ++ be 8 p.maximumAge ++ be 1 p.count)

def Policy.encode (p : Policy) : Bytes :=
  Sha256.withDigest 4576 (p.header ++ p.members.flatMap Participant.encode)

def Bool.pos (b : Bool) : ℕ := if b then 1 else 0

def AckKind.pos : AckKind → ℕ | .drained => 0 | .fenced => 1 | .unsafeAck => 2
def Channel.pos : Channel → ℕ | .nodeAgent => 0 | .fenceObserver => 1

def Evidence.encode (e : Evidence) : Bytes :=
  Sha256.withDigest 288 (EM ++ e.policyHash.bytes ++ e.durableReceipt.bytes ++ e.auditHead.bytes
    ++ e.nodeId.bytes ++ e.resourceId.bytes ++ e.subjectBoot.bytes ++ e.stamp.bootId.bytes
    ++ be 8 e.stamp.sequence ++ be 8 e.stamp.observedAt ++ be 8 e.stamp.expiresAt
    ++ be 8 e.epoch ++ be 8 e.appliedGuardRevision ++ be 8 e.lastDispatched
    ++ be 8 e.lastCompleted ++ be 8 e.inFlight ++ be 8 e.unknownEffects
    ++ be 4 e.isolationPaths.toNat ++ be 1 e.kind.pos ++ be 1 e.source.pos
    ++ be 1 (Bool.pos e.durableStopLatch) ++ be 1 (Bool.pos e.queueClosed)
    ++ be 1 (Bool.pos e.retirementDurable))

def fingerprint (p : Policy) : Digest := Sha256.hash p.encode

/-! ### Validity -/

def Participant.Named (m : Participant) : Prop :=
  m.nodeId ≠ zeroIdentity ∧ m.resourceId ≠ zeroIdentity ∧ m.bootId ≠ zeroIdentity
    ∧ m.stopKey ≠ zeroDigest ∧ m.fenceKey ≠ zeroDigest ∧ m.stopKey ≠ m.fenceKey
    ∧ m.requiredIsolationPaths ≠ 0#32

/-- Two entries of one node are two resources of one boot with one stop key. -/
def Participant.Compatible (m n : Participant) : Prop :=
  m.nodeId = n.nodeId →
    m.resourceId ≠ n.resourceId ∧ m.bootId = n.bootId ∧ m.stopKey = n.stopKey

def Policy.Valid (p : Policy) : Prop :=
  p.clusterId ≠ zeroIdentity ∧ p.barrierId ≠ zeroIdentity ∧ p.receiverBoot ≠ zeroIdentity
    ∧ p.contract ≠ zeroDigest ∧ p.changePlan ≠ zeroDigest ∧ p.inventory ≠ zeroDigest
    ∧ p.guardValue ≠ zeroDigest ∧ (p.epoch : ℕ) ≠ 0 ∧ (p.guardRevision : ℕ) ≠ 0
    ∧ (p.maximumAge : ℕ) ≠ 0 ∧ p.count ≠ 0
    ∧ ∀ i < p.count, (p.member i).Named
      ∧ (∀ j < i, (p.member i).Compatible (p.member j))
      ∧ ∀ j < p.count, (p.member i).stopKey ≠ (p.member j).fenceKey

def ValidReceipt (r : Receipt) (current : Phase) (lastNow : Counter) : Prop :=
  (r.current = .awaiting → r = {})
    ∧ (r.current = .acknowledged → 0 < (r.nodeSequence : ℕ))
    ∧ (r.current = .isolated → 0 < (r.fenceSequence : ℕ))
    ∧ (r.current = .uncertain → current = .blocked)
    ∧ (r.current ≠ .awaiting →
        r.proof ≠ zeroDigest ∧ r.auditHead ≠ zeroDigest ∧ (r.observed : ℕ) < r.expires
          ∧ (r.observed : ℕ) ≤ lastNow
          ∧ (0 < (r.nodeSequence : ℕ) ∨ 0 < (r.fenceSequence : ℕ)))
    ∧ (current = .sealed → r.current = .acknowledged ∨ r.current = .isolated)

def State.Valid (s : State) : Prop :=
  s.policyHash ≠ zeroDigest ∧ s.clusterId ≠ zeroIdentity ∧ s.barrierId ≠ zeroIdentity
    ∧ s.receiverBoot ≠ zeroIdentity ∧ 0 < s.count
    ∧ ∀ i < s.count, ValidReceipt (s.member i) s.current s.lastNow

/-- The state is one of this policy. -/
def Matches (p : Policy) (s : State) : Prop :=
  s.policyHash = fingerprint p ∧ s.clusterId = p.clusterId ∧ s.barrierId = p.barrierId
    ∧ s.receiverBoot = p.receiverBoot ∧ s.count = p.count

/-- The paths a participant requires are among `paths`. -/
def Participant.Covered (m : Participant) (paths : Word) : Prop :=
  paths &&& m.requiredIsolationPaths = m.requiredIsolationPaths

def Ready (p : Policy) (s : State) (now : Counter) : Prop :=
  p.Valid ∧ s.Valid ∧ s.current ≠ .blocked ∧ Matches p s ∧ (s.lastNow : ℕ) ≤ now
    ∧ ∀ i < s.count,
      ((s.member i).current = .acknowledged ∨ (s.member i).current = .isolated)
        ∧ ((s.member i).observed : ℕ) ≤ now ∧ (now : ℕ) < (s.member i).expires
        ∧ ((s.member i).expires : ℕ) - (s.member i).observed ≤ p.maximumAge
        ∧ (now : ℕ) - (s.member i).observed ≤ p.maximumAge
        ∧ ((s.member i).current = .isolated →
          (p.member i).Covered (s.member i).isolationPaths)

def Usable (p : Policy) (s : State) (now : Counter) : Prop :=
  s.current = .sealed ∧ Ready p s now

section Decidable

instance (m : Participant) : Decidable m.Named := by
  unfold Participant.Named; infer_instance

instance (m n : Participant) : Decidable (m.Compatible n) := by
  unfold Participant.Compatible; infer_instance

instance (p : Policy) : Decidable p.Valid := by unfold Policy.Valid; infer_instance

instance (r : Receipt) (c : Phase) (t : Counter) : Decidable (ValidReceipt r c t) := by
  unfold ValidReceipt; infer_instance

instance (s : State) : Decidable s.Valid := by unfold State.Valid; infer_instance

instance (p : Policy) (s : State) : Decidable (Matches p s) := by
  unfold Matches; infer_instance

instance (m : Participant) (paths : Word) : Decidable (m.Covered paths) := by
  unfold Participant.Covered; infer_instance

instance (p : Policy) (s : State) (now : Counter) : Decidable (Ready p s now) := by
  unfold Ready; infer_instance

instance (p : Policy) (s : State) (now : Counter) : Decidable (Usable p s now) := by
  unfold Usable; infer_instance

end Decidable

/-! ### The operations -/

/-- The answer and the state, which is the default one when the policy is refused. -/
def init (p : Policy) : Outcome × State :=
  if ¬ p.Valid then (.invalidInput, {})
  else if fingerprint p = zeroDigest then (.corrupt, { policyHash := fingerprint p })
  else (.ok, { policyHash := fingerprint p, clusterId := p.clusterId, barrierId := p.barrierId
               receiverBoot := p.receiverBoot, members := List.replicate p.count {}
               count_le := by simpa [Policy.count] using p.count_le })

/-- The checks on the evidence as a whole, before its participant is looked up. -/
def Bound (p : Policy) (s : State) (e : Evidence) (now : Counter) : Prop :=
  e.policyHash = s.policyHash ∧ e.epoch = p.epoch ∧ e.appliedGuardRevision = p.guardRevision
    ∧ e.durableReceipt ≠ zeroDigest ∧ e.auditHead ≠ zeroDigest
    ∧ Fresh e.stamp p.receiverBoot now p.maximumAge

instance (p : Policy) (s : State) (e : Evidence) (now : Counter) :
    Decidable (Bound p s e now) := by
  unfold Bound; infer_instance

/-- The participant an evidence names: the last one with its node and resource. -/
def find (p : Policy) (e : Evidence) : Option ℕ :=
  (List.range p.count).foldl (fun k i =>
    if e.nodeId = (p.member i).nodeId ∧ e.resourceId = (p.member i).resourceId then some i
    else k) none

/-- What a drained report must not say. -/
def Evidence.Regresses (e : Evidence) : Prop :=
  e.durableStopLatch = false ∨ e.queueClosed = false ∨ (e.inFlight : ℕ) ≠ 0
    ∨ (e.unknownEffects : ℕ) ≠ 0 ∨ e.lastDispatched ≠ e.lastCompleted

instance (e : Evidence) : Decidable e.Regresses := by
  unfold Evidence.Regresses; infer_instance

/-- The phase a participant enters on an evidence. -/
def verdict (m : Participant) (r : Receipt) (e : Evidence) : Except Outcome ParticipantPhase :=
  match e.kind with
  | .drained =>
    if e.source ≠ .nodeAgent then .error .denied
    else if e.Regresses then .ok .uncertain
    else if r.current = .isolated then .error .denied
    else if (e.lastCompleted : ℕ) < r.completed then .error .stale
    else .ok .acknowledged
  | .fenced =>
    if e.source ≠ .fenceObserver then .error .denied
    else if e.retirementDurable = false ∨ ¬ m.Covered e.isolationPaths then .ok .uncertain
    else .ok .isolated
  | .unsafeAck => .ok .uncertain

/-- The receipt of a participant that enters `phase` on `e`. -/
def Receipt.take (r : Receipt) (phase : ParticipantPhase) (e : Evidence) : Receipt :=
  { r.withSequence e.source e.stamp.sequence with
    current := phase, observed := e.stamp.observedAt, expires := e.stamp.expiresAt
    proof := Sha256.hash e.encode, auditHead := e.auditHead, isolationPaths := e.isolationPaths
    completed := if e.kind = .drained then e.lastCompleted else r.completed }

/-- The state after participant `k` entered `phase` on `e`. -/
def State.take (s : State) (k : ℕ) (phase : ParticipantPhase) (e : Evidence) (now : Counter) :
    State :=
  { s with
    current := if phase = .uncertain then .blocked else s.current
    revision := s.revision.next, lastNow := now
    members := s.members.set k ((s.member k).take phase e)
    count_le := by simpa using s.count_le }

def observe (p : Policy) (s : State) (e : Evidence) (signatureVerified : Bool)
    (now : Counter) : Except Outcome State :=
  if ¬ p.Valid ∨ ¬ s.Valid ∨ signatureVerified = false ∨ s.current = .blocked
      ∨ (s.revision : ℕ) = Counter.last ∨ ¬ Matches p s ∨ (now : ℕ) < s.lastNow
      ∨ ¬ Bound p s e now then .error .denied
  else
    match find p e with
    | none => .error .denied
    | some k =>
      if e.nodeId ≠ (p.member k).nodeId ∨ e.subjectBoot ≠ (p.member k).bootId
          ∨ (e.stamp.observedAt : ℕ) < (s.member k).observed then .error .denied
      else if (e.stamp.sequence : ℕ) ≤ (s.member k).sequence e.source then .error .stale
      else
        match verdict (p.member k) (s.member k) e with
        | .error o => .error o
        | .ok phase =>
          if Sha256.hash e.encode = zeroDigest then .error .corrupt
          else .ok (s.take k phase e now)

def Policy.seal (p : Policy) (s : State) (now : Counter) : Except Outcome State :=
  if s.current ≠ .collecting ∨ (s.revision : ℕ) = Counter.last ∨ ¬ Ready p s now then
    .error .denied
  else .ok { s with current := .sealed, lastNow := now, revision := s.revision.next }

end NiayanAssurance.StopBarrier
