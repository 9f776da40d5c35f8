import NiayanAssurance.Types

/-!
The replay window of a receiver: the request it admitted last, and how another one compares.

Requests are numbered from 1 under each fence token, and tokens only grow.
-/

namespace NiayanAssurance.Replay

open NiayanAssurance.Lib NiayanAssurance.Types

/-- What is kept of a request, and what is compared. -/
structure Window where
  epoch : Counter := 0
  token : Counter := 0
  sequenceNumber : Counter := 0
  requestId : Identity := zeroIdentity
  requestDigest : Digest := zeroDigest
  deriving DecidableEq

inductive Decision | fresh | exactRetry | rejectStale | rejectConflict | rejectInvalid
  deriving DecidableEq, Repr

/-- `Check`, the values of the request being the fields of `r`. -/
def check (state r : Window) : Decision :=
  if (r.epoch : ℕ) = 0 ∨ (r.token : ℕ) = 0 ∨ (r.sequenceNumber : ℕ) = 0
      ∨ isZero r.requestId.bytes = true ∨ isZero r.requestDigest.bytes = true then
    .rejectInvalid
  else if (r.epoch : ℕ) < state.epoch ∨ (r.token : ℕ) < state.token then .rejectStale
  else if (r.epoch : ℕ) = state.epoch ∧ (r.token : ℕ) = state.token then
    if (r.sequenceNumber : ℕ) < state.sequenceNumber then .rejectStale
    else if (r.sequenceNumber : ℕ) = state.sequenceNumber then
      if r.requestId = state.requestId ∧ r.requestDigest = state.requestDigest then .exactRetry
      else .rejectConflict
    else if r.requestId = state.requestId then .rejectConflict
    else if (state.sequenceNumber : ℕ) = Counter.last
        ∨ (r.sequenceNumber : ℕ) ≠ state.sequenceNumber + 1 then .rejectStale
    else .fresh
  else if (r.token : ℕ) ≤ state.token ∨ (r.sequenceNumber : ℕ) ≠ 1 then .rejectStale
  else .fresh

def recordRequest (state r : Window) : Window × Decision :=
  (if check state r = .fresh then r else state, check state r)

/-! ### What the decision says -/

/-- A request with all its values set. -/
structure Window.Filled (r : Window) : Prop where
  epoch : 0 < (r.epoch : ℕ)
  token : 0 < (r.token : ℕ)
  sequenceNumber : 0 < (r.sequenceNumber : ℕ)
  requestId : r.requestId ≠ zeroIdentity
  requestDigest : r.requestDigest ≠ zeroDigest

/-- The order in which requests are admitted. -/
def Window.Before (a b : Window) : Prop :=
  (a.epoch : ℕ) ≤ b.epoch ∧ ((a.token : ℕ) < b.token
    ∨ (a.token : ℕ) = b.token ∧ (a.epoch : ℕ) = b.epoch
      ∧ (a.sequenceNumber : ℕ) < b.sequenceNumber)

lemma Window.Before.trans {a b c : Window} (h : a.Before b) (h' : b.Before c) : a.Before c := by
  unfold Window.Before at *
  omega

lemma Window.Before.irrefl (a : Window) : ¬ a.Before a := by
  unfold Window.Before
  omega

lemma check_filled {state r : Window} (h : check state r ≠ .rejectInvalid) : r.Filled := by
  unfold check at h
  split at h
  · exact absurd rfl h
  · rename_i hc
    push Not at hc
    obtain ⟨h1, h2, h3, h4, h5⟩ := hc
    rw [ne_eq, isZero_block] at h4 h5
    exact ⟨by omega, by omega, by omega, h4, h5⟩

/-- A fresh request has the next number under the epoch and token of the window, or the first
one under a newer token. -/
lemma check_next {state r : Window} (h : check state r = .fresh) :
    (state.epoch : ℕ) ≤ r.epoch ∧ (state.token : ℕ) ≤ r.token
      ∧ (r.epoch = state.epoch ∧ r.token = state.token →
          (r.sequenceNumber : ℕ) = state.sequenceNumber + 1)
      ∧ (¬ (r.epoch = state.epoch ∧ r.token = state.token) →
          (state.token : ℕ) < r.token ∧ (r.sequenceNumber : ℕ) = 1) := by
  unfold check at h
  simp only [Fin.ext_iff]
  split at h
  · cases h
  split at h
  · cases h
  split at h
  · split at h
    · cases h
    split at h
    · split at h <;> cases h
    split at h
    · cases h
    split at h
    · cases h
    · omega
  · split at h
    · cases h
    · omega

/-- A fresh request comes after the window. -/
lemma check_fresh {state r : Window} (h : check state r = .fresh) : state.Before r := by
  have h1 := check_next h
  simp only [Fin.ext_iff] at h1
  unfold Window.Before
  omega

/-- The request that is the window is a retry. -/
lemma check_self {r : Window} (h : r.Filled) : check r r = .exactRetry := by
  obtain ⟨h1, h2, h3, h4, h5⟩ := h
  have h6 : ¬ isZero r.requestId.bytes = true := by rwa [isZero_block]
  have h7 : ¬ isZero r.requestDigest.bytes = true := by rwa [isZero_block]
  unfold check
  rw [if_neg (by simp only [not_or]; exact ⟨by omega, by omega, by omega, h6, h7⟩),
    if_neg (by omega), if_pos ⟨rfl, rfl⟩, if_neg (by omega), if_pos rfl, if_pos ⟨rfl, rfl⟩]

/-- Nothing else is. -/
lemma check_exactRetry {state r : Window} (h : check state r = .exactRetry) : r = state := by
  unfold check at h
  split at h
  · cases h
  split at h
  · cases h
  split at h
  · rename_i h1
    split at h
    · cases h
    split at h
    · rename_i h2
      split at h
      · rename_i h3
        obtain ⟨e, t, s, i, d⟩ := r
        obtain ⟨e', t', s', i', d'⟩ := state
        obtain ⟨h4, h5⟩ := h3
        cases Fin.ext h1.1
        cases Fin.ext h1.2
        cases Fin.ext h2
        cases h4
        cases h5
        rfl
      · cases h
    split at h
    · cases h
    split at h <;> cases h
  · split at h <;> cases h

/-- An older request is refused. -/
lemma check_before {state r : Window} (hb : r.Before state) :
    check state r ≠ .fresh ∧ check state r ≠ .exactRetry := by
  refine ⟨fun h => ?_, fun h => ?_⟩
  · exact Window.Before.irrefl _ (hb.trans (check_fresh h))
  · rw [check_exactRetry h] at hb
    exact Window.Before.irrefl _ hb

end NiayanAssurance.Replay
