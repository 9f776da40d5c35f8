import NiayanAssurance.Types

/-!
Freshness of an observation by the receiver's own clock.
-/

namespace NiayanAssurance.TimeGuard

open NiayanAssurance.Types

structure Stamp where
  bootId : Identity := zeroIdentity
  sequence : Counter := 0
  observedAt : Counter := 0
  expiresAt : Counter := 0
  deriving DecidableEq, Inhabited

def Fresh (s : Stamp) (boot : Identity) (now maximumAge : Counter) : Prop :=
  boot ≠ zeroIdentity ∧ s.bootId = boot ∧ 0 < (s.sequence : ℕ)
    ∧ 0 < (maximumAge : ℕ) ∧ (s.observedAt : ℕ) ≤ now
    ∧ (now : ℕ) < s.expiresAt ∧ (s.observedAt : ℕ) < s.expiresAt
    ∧ (s.expiresAt : ℕ) - s.observedAt ≤ maximumAge
    ∧ (now : ℕ) - s.observedAt ≤ maximumAge

instance (s : Stamp) (boot : Identity) (now maximumAge : Counter) :
    Decidable (Fresh s boot now maximumAge) := by
  unfold Fresh; infer_instance

end NiayanAssurance.TimeGuard
