import NiayanAssurance.Types

/-!
Faults as observers report them: which reports are valid, which of two severities is worse, and
which faults require that the resource is isolated.
-/

namespace NiayanAssurance.Faults

open NiayanAssurance.Lib NiayanAssurance.Types

inductive Domain
  | unknownDomain | software | memory | cpu | storage | network | pcie | power | thermal
  | firmware | security | timeService | clusterControl
  deriving DecidableEq

/-- `Domain'Pos`. -/
def Domain.pos : Domain → ℕ
  | .unknownDomain => 0 | .software => 1 | .memory => 2 | .cpu => 3 | .storage => 4
  | .network => 5 | .pcie => 6 | .power => 7 | .thermal => 8 | .firmware => 9 | .security => 10
  | .timeService => 11 | .clusterControl => 12

inductive Severity
  | informational | corrected | degraded | uncorrectable | critical
  deriving DecidableEq

/-- `Severity'Pos`. -/
def Severity.pos : Severity → ℕ
  | .informational => 0 | .corrected => 1 | .degraded => 2 | .uncorrectable => 3 | .critical => 4

inductive Persistence
  | transient | intermittent | persistent
  deriving DecidableEq

/-- `Persistence'Pos`. -/
def Persistence.pos : Persistence → ℕ
  | .transient => 0 | .intermittent => 1 | .persistent => 2

inductive EvidenceQuality
  | untrusted | authenticatedObserver | corroborated | attestedSource
  deriving DecidableEq

/-- `Evidence_Quality'Pos`. -/
def EvidenceQuality.pos : EvidenceQuality → ℕ
  | .untrusted => 0 | .authenticatedObserver => 1 | .corroborated => 2 | .attestedSource => 3

structure Fault where
  clusterId : Identity := zeroIdentity
  nodeId : Identity := zeroIdentity
  resourceId : Identity := zeroIdentity
  bootId : Identity := zeroIdentity
  policy : Digest := zeroDigest
  syndrome : Digest := zeroDigest
  sequenceNumber : Counter := 0
  observedAt : Counter := 0
  expiresAt : Counter := 0
  kind : Domain := .unknownDomain
  level : Severity := .informational
  nature : Persistence := .transient
  quality : EvidenceQuality := .untrusted
  occurrences : Counter := 0
  corrected : Bool := false
  dataAtRisk : Bool := false
  executionAtRisk : Bool := false
  deriving DecidableEq

def Valid (f : Fault) : Prop :=
  f.clusterId ≠ zeroIdentity ∧ f.nodeId ≠ zeroIdentity ∧ f.resourceId ≠ zeroIdentity
    ∧ f.bootId ≠ zeroIdentity ∧ f.policy ≠ zeroDigest ∧ f.syndrome ≠ zeroDigest
    ∧ 0 < (f.sequenceNumber : ℕ) ∧ 0 < (f.observedAt : ℕ)
    ∧ (f.observedAt : ℕ) < f.expiresAt ∧ 0 < (f.occurrences : ℕ) ∧ f.kind ≠ .unknownDomain
    ∧ (f.quality = .untrusted → f.level.pos ≤ Severity.informational.pos)
    ∧ (f.corrected = true → f.level.pos ≤ Severity.degraded.pos)
    ∧ (Severity.uncorrectable.pos ≤ f.level.pos → f.corrected = false)

instance (f : Fault) : Decidable (Valid f) := by
  unfold Valid
  infer_instance

def worse (left right : Severity) : Severity := if right.pos ≤ left.pos then left else right

lemma le_worse_left (left right : Severity) : left.pos ≤ (worse left right).pos := by
  unfold worse
  split_ifs <;> omega

def IsolationRequired (f : Fault) : Prop :=
  Valid f ∧ (Severity.uncorrectable.pos ≤ f.level.pos ∨ f.dataAtRisk = true
    ∨ f.executionAtRisk = true ∧ f.nature ≠ .transient)

instance (f : Fault) : Decidable (IsolationRequired f) := by
  unfold IsolationRequired
  infer_instance

end NiayanAssurance.Faults
