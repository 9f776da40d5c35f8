import NiayanAssurance.Faults
import NiayanAssurance.Lib.Run
import NiayanAssurance.Lib.Guard

/-!
An incident from the first fault to its close, and the events that move it.
-/

namespace NiayanAssurance.Incidents

open NiayanAssurance.Lib NiayanAssurance.Types NiayanAssurance.Faults

inductive Phase
  | opened | correlating | containmentRequired | contained | diagnosing | repairing | verifying
  | closed | escalated
  deriving DecidableEq

/-- `Phase'Pos`. -/
def Phase.pos : Phase → ℕ
  | .opened => 0 | .correlating => 1 | .containmentRequired => 2 | .contained => 3
  | .diagnosing => 4 | .repairing => 5 | .verifying => 6 | .closed => 7 | .escalated => 8

inductive Event
  | observeFault | confirmContainment | beginDiagnosis | beginRepair | recordRepair
  | observeHealthy | escalate | closeIncident
  deriving DecidableEq

structure State where
  incidentId : Identity := zeroIdentity
  clusterId : Identity := zeroIdentity
  resourceId : Identity := zeroIdentity
  policy : Digest := zeroDigest
  cause : Digest := zeroDigest
  containmentReceipt : Digest := zeroDigest
  repairReceipt : Digest := zeroDigest
  revision : Counter := 0
  firstObserved : Counter := 0
  lastObserved : Counter := 0
  faultCount : Counter := 0
  /-- At most 255. -/
  healthySamples : ℕ := 0
  worst : Severity := .informational
  current : Phase := .opened
  dataAtRisk : Bool := false
  executionAtRisk : Bool := false
  deriving DecidableEq

structure Evidence where
  expectedRevision : Counter := 0
  now : Counter := 0
  fault : Fault := {}
  correlation : Digest := zeroDigest
  containment : Digest := zeroDigest
  repair : Digest := zeroDigest
  stableForMs : Counter := 0
  requiredStableMs : Counter := 0
  authenticated : Bool := false
  ownershipSafe : Bool := false
  dataConsistent : Bool := false
  dependenciesHealthy : Bool := false
  noOpenSevereFaults : Bool := false
  deriving DecidableEq

def Valid (s : State) : Prop :=
  s.incidentId ≠ zeroIdentity ∧ s.clusterId ≠ zeroIdentity ∧ s.resourceId ≠ zeroIdentity
    ∧ s.policy ≠ zeroDigest ∧ 0 < (s.revision : ℕ) ∧ 0 < (s.firstObserved : ℕ)
    ∧ (s.firstObserved : ℕ) ≤ s.lastObserved
    ∧ (Phase.contained.pos ≤ s.current.pos → s.containmentReceipt ≠ zeroDigest)
    ∧ (Phase.verifying.pos ≤ s.current.pos → s.current ≠ .escalated →
      s.repairReceipt ≠ zeroDigest)

instance (s : State) : Decidable (Valid s) := by
  unfold Valid
  infer_instance

/-- The end of `Step`: the working copy `n` becomes the state. -/
def commit (x : Evidence) (n : State) : State × Outcome :=
  ({ n with
      revision := Counter.next n.revision
      lastObserved := if (n.lastObserved : ℕ) < x.now then x.now else n.lastObserved }, .ok)

/-- What a fault that is taken up changes. -/
def withFault (s : State) (x : Evidence) : State :=
  { s with
    lastObserved := x.fault.observedAt
    faultCount := Counter.next s.faultCount
    worst := worse s.worst x.fault.level
    dataAtRisk := s.dataAtRisk || x.fault.dataAtRisk
    executionAtRisk := s.executionAtRisk || x.fault.executionAtRisk
    cause := if x.correlation ≠ zeroDigest then x.correlation else s.cause
    current := if IsolationRequired x.fault then .containmentRequired
      else if s.current = .opened then .correlating else s.current
    healthySamples := 0 }

def step (s : State) (e : Event) (x : Evidence) : State × Outcome :=
  if ¬ Valid s ∨ x.expectedRevision ≠ s.revision ∨ (s.revision : ℕ) = Counter.last
      ∨ (x.now : ℕ) < s.lastObserved ∨ x.authenticated = false then (s, .denied)
  else
    match e with
    | .observeFault =>
      if ¬ Faults.Valid x.fault ∨ x.fault.clusterId ≠ s.clusterId
          ∨ x.fault.resourceId ≠ s.resourceId ∨ (x.fault.observedAt : ℕ) < s.lastObserved then
        (s, .invalidInput)
      else if (s.faultCount : ℕ) = Counter.last then (s, .exhausted)
      else commit x (withFault s x)
    | .confirmContainment =>
      if s.current ≠ .containmentRequired ∧ s.current ≠ .correlating
          ∨ x.containment = zeroDigest ∨ x.ownershipSafe = false then (s, .denied)
      else commit x { s with containmentReceipt := x.containment, current := .contained }
    | .beginDiagnosis =>
      if s.current ≠ .contained ∧ s.current ≠ .correlating then (s, .denied)
      else commit x { s with current := .diagnosing }
    | .beginRepair =>
      if s.current ≠ .diagnosing ∧ s.current ≠ .contained ∨ x.repair = zeroDigest then (s, .denied)
      else commit x { s with repairReceipt := x.repair, current := .repairing }
    | .recordRepair =>
      if s.current ≠ .repairing ∨ x.repair = zeroDigest then (s, .denied)
      else commit x { s with
        repairReceipt := x.repair, current := .verifying, healthySamples := 0 }
    | .observeHealthy =>
      if s.current ≠ .verifying ∨ x.dataConsistent = false ∨ x.dependenciesHealthy = false
          ∨ x.ownershipSafe = false ∨ x.noOpenSevereFaults = false then (s, .denied)
      -- Both branches on `Stable_For_Ms` count the sample.
      else if (x.stableForMs : ℕ) < x.requiredStableMs then
        commit x { s with healthySamples := min 255 (s.healthySamples + 1) }
      else commit x { s with healthySamples := min 255 (s.healthySamples + 1) }
    | .escalate => commit x { s with current := .escalated }
    | .closeIncident =>
      if s.current ≠ .verifying ∨ s.healthySamples < 3
          ∨ (x.stableForMs : ℕ) < x.requiredStableMs ∨ x.dataConsistent = false
          ∨ x.dependenciesHealthy = false ∨ x.ownershipSafe = false
          ∨ x.noOpenSevereFaults = false ∨ s.containmentReceipt = zeroDigest
          ∨ s.repairReceipt = zeroDigest then (s, .denied)
      else commit x { s with current := .closed }

/-! ### What an accepted step does -/

/-- What every accepted step has checked. -/
structure Guarded (s : State) (x : Evidence) : Prop where
  valid : Valid s
  revision : (s.revision : ℕ) ≠ Counter.last
  now : (s.lastObserved : ℕ) ≤ x.now

/-- The step that event `e` makes from `s` to the working copy `n`. -/
inductive Moves (s : State) (x : Evidence) : Event → State → Prop
  | fault (h : Faults.Valid x.fault) (ht : (s.lastObserved : ℕ) ≤ x.fault.observedAt) :
      Moves s x .observeFault (withFault s x)
  | containment (h : s.current = .containmentRequired ∨ s.current = .correlating)
      (hx : x.containment ≠ zeroDigest) :
      Moves s x .confirmContainment
        { s with containmentReceipt := x.containment, current := .contained }
  | diagnosis (h : s.current = .contained ∨ s.current = .correlating) :
      Moves s x .beginDiagnosis { s with current := .diagnosing }
  | repair (h : s.current = .diagnosing ∨ s.current = .contained) (hx : x.repair ≠ zeroDigest) :
      Moves s x .beginRepair { s with repairReceipt := x.repair, current := .repairing }
  | repaired (h : s.current = .repairing) (hx : x.repair ≠ zeroDigest) :
      Moves s x .recordRepair
        { s with repairReceipt := x.repair, current := .verifying, healthySamples := 0 }
  | healthy (h : s.current = .verifying) :
      Moves s x .observeHealthy { s with healthySamples := min 255 (s.healthySamples + 1) }
  | escalate : Moves s x .escalate { s with current := .escalated }
  | close (h : s.current = .verifying) (hs : 3 ≤ s.healthySamples)
      (hc : s.containmentReceipt ≠ zeroDigest) (hr : s.repairReceipt ≠ zeroDigest) :
      Moves s x .closeIncident { s with current := .closed }

/-- **What an accepted step does**, guards included. -/
theorem step_ok {s s' : State} {e : Event} {x : Evidence} (h : step s e x = (s', .ok)) :
    Guarded s x ∧ ∃ n, Moves s x e n ∧ s' = (commit x n).1 := by
  unfold step at h
  obtain ⟨hg, h⟩ := passes h (by decide)
  push Not at hg
  refine ⟨⟨hg.1, hg.2.2.1, hg.2.2.2.1⟩, ?_⟩
  have done : ∀ {n}, Moves s x e n → commit x n = (s', .ok) →
      ∃ n, Moves s x e n ∧ s' = (commit x n).1 := fun hm hc => ⟨_, hm, by rw [hc]⟩
  cases e with
  | observeFault =>
    obtain ⟨h1, h⟩ := passes h (by decide)
    obtain ⟨-, h⟩ := passes h (by decide)
    push Not at h1
    exact done (.fault h1.1 h1.2.2.2) h
  | confirmContainment =>
    obtain ⟨h1, h⟩ := passes h (by decide)
    push Not at h1
    refine done (.containment ?_ h1.2.1) h
    by_cases hc : s.current = .containmentRequired
    · exact .inl hc
    · exact .inr (h1.1 hc)
  | beginDiagnosis =>
    obtain ⟨h1, h⟩ := passes h (by decide)
    refine done (.diagnosis ?_) h
    by_contra hc
    exact h1 (not_or.mp hc)
  | beginRepair =>
    obtain ⟨h1, h⟩ := passes h (by decide)
    rw [not_or] at h1
    refine done (.repair ?_ h1.2) h
    by_contra hc
    exact h1.1 (not_or.mp hc)
  | recordRepair =>
    obtain ⟨h1, h⟩ := passes h (by decide)
    push Not at h1
    exact done (.repaired h1.1 h1.2) h
  | observeHealthy =>
    obtain ⟨h1, h⟩ := passes h (by decide)
    rw [ite_self] at h
    exact done (.healthy (not_not.mp (not_or.mp h1).1)) h
  | escalate => exact done .escalate h
  | closeIncident =>
    obtain ⟨h1, h⟩ := passes h (by decide)
    push Not at h1
    exact done (.close h1.1 h1.2.1 h1.2.2.2.2.2.2.2.1 h1.2.2.2.2.2.2.2.2) h

/-- A step that is not accepted changes nothing. -/
theorem step_stays (s : State) (e : Event) (x : Evidence) : Stays .ok s (step s e x) := by
  refine .ite ?_
  cases e with
  | observeFault => exact .ite (.ite stays_done)
  | observeHealthy => exact .ite (by rw [ite_self]; exact stays_done)
  | escalate => exact stays_done
  | confirmContainment | beginDiagnosis | beginRepair | recordRepair | closeIncident =>
    exact .ite stays_done

end NiayanAssurance.Incidents
