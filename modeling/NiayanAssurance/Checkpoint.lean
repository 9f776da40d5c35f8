import NiayanAssurance.Replay
import Mathlib.Data.List.Chain

/-!
Checkpoint descriptors: which are valid, which one may come after another, and what a chain of
them means for the replay window that each of them carries.
-/

namespace NiayanAssurance.Checkpoint

open NiayanAssurance.Lib NiayanAssurance.Types NiayanAssurance.Replay

structure Descriptor where
  rootId : Identity := zeroIdentity
  streamId : Identity := zeroIdentity
  contract : Digest := zeroDigest
  previous : Digest := zeroDigest
  payload : Digest := zeroDigest
  logHead : Digest := zeroDigest
  auditReceipt : Digest := zeroDigest
  generation : Counter := 0
  coveredRecords : Counter := 0
  trustEpoch : Counter := 0
  replayEpoch : Counter := 0
  replayToken : Counter := 0
  replaySequence : Counter := 0
  payloadSize : Counter := 0
  quiescent : Bool := false
  deriving DecidableEq

def Valid (d : Descriptor) : Prop :=
  d.rootId ≠ zeroIdentity ∧ d.streamId ≠ zeroIdentity ∧ d.contract ≠ zeroDigest
    ∧ d.payload ≠ zeroDigest ∧ 0 < (d.generation : ℕ) ∧ 0 < (d.trustEpoch : ℕ)
    ∧ (1 ≤ (d.payloadSize : ℕ) ∧ (d.payloadSize : ℕ) ≤ maxMessage) ∧ d.quiescent = true
    ∧ d.auditReceipt ≠ zeroDigest ∧ ((d.coveredRecords : ℕ) = 0 ∨ d.logHead ≠ zeroDigest)
    ∧ ((d.generation : ℕ) = 1 ∧ d.previous = zeroDigest
      ∨ 1 < (d.generation : ℕ) ∧ d.previous ≠ zeroDigest)

instance (d : Descriptor) : Decidable (Valid d) := by
  unfold Valid
  infer_instance

/-- The clause of `Follows` about the replay windows. -/
def ReplayFollows (before after : Descriptor) : Prop :=
  (before.replayEpoch : ℕ) ≤ after.replayEpoch ∧ (before.replayToken : ℕ) ≤ after.replayToken
    ∧ ((before.replayEpoch : ℕ) < after.replayEpoch ∨ (before.replayToken : ℕ) < after.replayToken
      ∨ (before.replaySequence : ℕ) ≤ after.replaySequence)

instance (before after : Descriptor) : Decidable (ReplayFollows before after) := by
  unfold ReplayFollows
  infer_instance

def Follows (before after : Descriptor) (beforeHash : Digest) : Prop :=
  Valid before ∧ Valid after ∧ beforeHash ≠ zeroDigest ∧ (before.generation : ℕ) < Counter.last
    ∧ (after.generation : ℕ) = before.generation + 1 ∧ after.previous = beforeHash
    ∧ after.rootId = before.rootId ∧ after.streamId = before.streamId
    ∧ after.contract = before.contract ∧ (before.coveredRecords : ℕ) ≤ after.coveredRecords
    ∧ (after.coveredRecords ≠ before.coveredRecords ∨ after.logHead = before.logHead)
    ∧ (before.trustEpoch : ℕ) ≤ after.trustEpoch ∧ ReplayFollows before after

instance (before after : Descriptor) (h : Digest) : Decidable (Follows before after h) := by
  unfold Follows
  infer_instance

lemma Follows.replay {before after : Descriptor} {h : Digest} (hf : Follows before after h) :
    ReplayFollows before after := by
  obtain ⟨-, -, -, -, -, -, -, -, -, -, -, -, h1⟩ := hf
  exact h1

lemma ReplayFollows.refl (d : Descriptor) : ReplayFollows d d := by
  unfold ReplayFollows
  omega

lemma ReplayFollows.trans {a b c : Descriptor} (h : ReplayFollows a b) (h' : ReplayFollows b c) :
    ReplayFollows a c := by
  unfold ReplayFollows at *
  omega

/-- The window `w` carries what the descriptor says of it, with any request in it. -/
def Carries (w : Window) (d : Descriptor) : Prop :=
  w.epoch = d.replayEpoch ∧ w.token = d.replayToken ∧ w.sequenceNumber = d.replaySequence

/-- The descriptor's window covers the request. -/
def Covers (d : Descriptor) (r : Window) : Prop :=
  (r.epoch : ℕ) < d.replayEpoch ∨ (r.token : ℕ) < d.replayToken
    ∨ r.epoch = d.replayEpoch ∧ r.token = d.replayToken
      ∧ (r.sequenceNumber : ℕ) ≤ d.replaySequence

/-- What a descriptor covers, every later one covers. -/
lemma Covers.follows {d d' : Descriptor} {r : Window} (h : Covers d r) (hf : ReplayFollows d d') :
    Covers d' r := by
  unfold Covers ReplayFollows at *
  simp only [Fin.ext_iff] at *
  omega

/-- What a descriptor covers is not fresh in its window. -/
lemma Covers.not_fresh {d : Descriptor} {w r : Window} (h : Covers d r) (hw : Carries w d) :
    check w r ≠ .fresh := by
  intro hc
  have h1 := check_fresh hc
  obtain ⟨h2, h3, h4⟩ := hw
  unfold Window.Before at h1
  unfold Covers at h
  rw [h2, h3, h4] at h1
  simp only [Fin.ext_iff] at h
  omega

lemma chain_replay {d : Descriptor} {l : List Descriptor}
    (h : List.IsChain (fun a b => ∃ hash, Follows a b hash) (d :: l)) :
    ∀ d' ∈ d :: l, ReplayFollows d d' := by
  induction l generalizing d with
  | nil =>
    intro d' hd'
    rw [List.mem_singleton] at hd'
    exact hd' ▸ .refl d
  | cons a l ih =>
    obtain ⟨⟨hash, h1⟩, h2⟩ := List.isChain_cons_cons.mp h
    intro d' hd'
    rcases List.mem_cons.mp hd' with rfl | hd'
    · exact .refl _
    · exact h1.replay.trans (ih h2 d' hd')

/-- The window after a request has been recorded is the same, or later. -/
lemma recordRequest_replay {w r : Window} {d d' d'' : Descriptor} (hw : Carries w d)
    (hw' : Carries (recordRequest w r).1 d') (h : ReplayFollows d'' d) : ReplayFollows d'' d' := by
  refine h.trans ?_
  obtain ⟨h1, h2, h3⟩ := hw
  obtain ⟨h4, h5, h6⟩ := hw'
  unfold recordRequest at h4 h5 h6
  unfold ReplayFollows
  rw [← h1, ← h2, ← h3, ← h4, ← h5, ← h6]
  split_ifs with hc
  · have := check_fresh hc
    unfold Window.Before at this
    dsimp only
    omega
  · dsimp only
    omega

/-- **Checkpoints never reopen replay**: what the first descriptor of a chain covers is fresh in
the window of none of them; and recording requests leads only to windows that may follow. -/
theorem never_reopens :
    (∀ (d : Descriptor) (l : List Descriptor),
      List.IsChain (fun a b => ∃ hash, Follows a b hash) (d :: l) →
      ∀ r, Covers d r → ∀ d' ∈ d :: l, ∀ w, Carries w d' → check w r ≠ .fresh) ∧
    ∀ (d : Descriptor) (w : Window) (rs : List Window) (d' : Descriptor), Carries w d →
      Carries (rs.foldl (fun w r => (recordRequest w r).1) w) d' → ReplayFollows d d' := by
  refine ⟨fun d l h r hr d' hd' w hw => (hr.follows (chain_replay h d' hd')).not_fresh hw, ?_⟩
  intro d w rs d' hw hd'
  induction rs using List.reverseRecOn generalizing d' with
  | nil =>
    obtain ⟨h1, h2, h3⟩ := hw
    obtain ⟨h4, h5, h6⟩ := hd'
    unfold ReplayFollows
    rw [← h1, ← h2, ← h3, ← h4, ← h5, ← h6]
    simp only [List.foldl_nil]
    omega
  | append_singleton rs r ih =>
    rw [List.foldl_append, List.foldl_cons, List.foldl_nil] at hd'
    generalize hv : rs.foldl (fun w r => (recordRequest w r).1) w = v at hd' ih
    have hc : Carries v { d with
        replayEpoch := v.epoch, replayToken := v.token, replaySequence := v.sequenceNumber } :=
      ⟨rfl, rfl, rfl⟩
    exact recordRequest_replay hc hd' (ih _ hc)

end NiayanAssurance.Checkpoint
