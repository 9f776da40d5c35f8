import NiayanAssurance.Types
import NiayanAssurance.Lib.History
import Mathlib.Tactic.Linarith

/-!
The commissioning of a node: a chain of phases, each of which records what it has established,
and the quarantine that ends it.
-/

namespace NiayanAssurance.Commissioning

open NiayanAssurance.Lib NiayanAssurance.Types

inductive Phase
  | uncommissioned | hardwareIdentified | firmwareValidated | trustEnrolled | storageProvisioned
  | recoveryProvisioned | baselineInstalled | baselineVerified | clusterAdmitted | commissioned
  | quarantined
  deriving DecidableEq

/-- `Phase'Pos`. -/
def Phase.pos : Phase → ℕ
  | .uncommissioned => 0 | .hardwareIdentified => 1 | .firmwareValidated => 2
  | .trustEnrolled => 3 | .storageProvisioned => 4 | .recoveryProvisioned => 5
  | .baselineInstalled => 6 | .baselineVerified => 7 | .clusterAdmitted => 8
  | .commissioned => 9 | .quarantined => 10

inductive Command
  | recordHardware | recordFirmware | enrollTrust | provisionStorage | provisionRecovery
  | installBaseline | verifyBaseline | admitCluster | finish | quarantine
  deriving DecidableEq

structure State where
  nodeId : Identity := zeroIdentity
  bootId : Identity := zeroIdentity
  hardware : Digest := zeroDigest
  firmware : Digest := zeroDigest
  trustRoot : Digest := zeroDigest
  storageLayout : Digest := zeroDigest
  recoveryImage : Digest := zeroDigest
  baseline : Digest := zeroDigest
  policy : Digest := zeroDigest
  revision : Counter := 0
  trustEpoch : Counter := 0
  current : Phase := .uncommissioned
  deriving DecidableEq

structure Evidence where
  expectedRevision : Counter := 0
  newTrustEpoch : Counter := 0
  nodeId : Identity := zeroIdentity
  bootId : Identity := zeroIdentity
  hardware : Digest := zeroDigest
  firmware : Digest := zeroDigest
  trustRoot : Digest := zeroDigest
  storageLayout : Digest := zeroDigest
  recoveryImage : Digest := zeroDigest
  baseline : Digest := zeroDigest
  policy : Digest := zeroDigest
  secureBoot : Bool := false
  tpmOwned : Bool := false
  firmwareAuthenticated : Bool := false
  diskEncryption : Bool := false
  recoverySealed : Bool := false
  baselineSigned : Bool := false
  baselineAttested : Bool := false
  restoreTested : Bool := false
  auditReachable : Bool := false
  clusterAdmissionAuthorized : Bool := false
  fencingReady : Bool := false
  deriving DecidableEq

def commit (n : State) : State × Outcome := ({ n with revision := Counter.next n.revision }, .ok)

def step (s : State) (c : Command) (e : Evidence) : State × Outcome :=
  if e.expectedRevision ≠ s.revision ∨ (s.revision : ℕ) = Counter.last then (s, .conflict)
  else if c = .quarantine then commit { s with current := .quarantined }
  else
    match s.current with
    | .uncommissioned =>
      if c = .recordHardware ∧ e.nodeId ≠ zeroIdentity ∧ e.bootId ≠ zeroIdentity
          ∧ e.hardware ≠ zeroDigest ∧ e.policy ≠ zeroDigest then
        commit { s with
          nodeId := e.nodeId, bootId := e.bootId, hardware := e.hardware, policy := e.policy
          current := .hardwareIdentified }
      else (s, .conflict)
    | .hardwareIdentified =>
      if c = .recordFirmware ∧ e.nodeId = s.nodeId ∧ e.firmware ≠ zeroDigest
          ∧ e.firmwareAuthenticated = true ∧ e.secureBoot = true then
        commit { s with firmware := e.firmware, current := .firmwareValidated }
      else (s, .conflict)
    | .firmwareValidated =>
      if c = .enrollTrust ∧ e.nodeId = s.nodeId ∧ e.trustRoot ≠ zeroDigest ∧ e.tpmOwned = true
          ∧ (s.trustEpoch : ℕ) < e.newTrustEpoch then
        commit { s with
          trustRoot := e.trustRoot, trustEpoch := e.newTrustEpoch, current := .trustEnrolled }
      else (s, .conflict)
    | .trustEnrolled =>
      if c = .provisionStorage ∧ e.storageLayout ≠ zeroDigest ∧ e.diskEncryption = true then
        commit { s with storageLayout := e.storageLayout, current := .storageProvisioned }
      else (s, .conflict)
    | .storageProvisioned =>
      if c = .provisionRecovery ∧ e.recoveryImage ≠ zeroDigest ∧ e.recoverySealed = true
          ∧ e.restoreTested = true then
        commit { s with recoveryImage := e.recoveryImage, current := .recoveryProvisioned }
      else (s, .conflict)
    | .recoveryProvisioned =>
      if c = .installBaseline ∧ e.baseline ≠ zeroDigest ∧ e.baselineSigned = true then
        commit { s with baseline := e.baseline, current := .baselineInstalled }
      else (s, .conflict)
    | .baselineInstalled =>
      if c = .verifyBaseline ∧ e.baseline = s.baseline ∧ e.baselineAttested = true
          ∧ e.auditReachable = true then commit { s with current := .baselineVerified }
      else (s, .conflict)
    | .baselineVerified =>
      -- The first `if` does not return: the second one sees what it has left.
      let r := if c = .admitCluster ∧ e.clusterAdmissionAuthorized = true ∧ e.fencingReady = true
        then commit { s with current := .clusterAdmitted } else (s, .conflict)
      if c = .finish ∧ e.clusterAdmissionAuthorized = false then
        commit { r.1 with current := .commissioned }
      else r
    | .clusterAdmitted =>
      if c = .finish ∧ e.clusterAdmissionAuthorized = true ∧ e.fencingReady = true then
        commit { s with current := .commissioned }
      else (s, .conflict)
    | .commissioned | .quarantined => (s, .conflict)

/-! ### What a phase has established -/

/-- What the phases record, one after the other. -/
inductive Fact
  | hardware | firmware | trust | storage | recovery | baseline
  deriving DecidableEq

/-- The phase that records the fact. -/
def Fact.phase : Fact → Phase
  | .hardware => .hardwareIdentified | .firmware => .firmwareValidated | .trust => .trustEnrolled
  | .storage => .storageProvisioned | .recovery => .recoveryProvisioned
  | .baseline => .baselineInstalled

/-- The fact is recorded. -/
def Given (s : State) : Fact → Prop
  | .hardware => s.nodeId ≠ zeroIdentity ∧ s.bootId ≠ zeroIdentity ∧ s.hardware ≠ zeroDigest
      ∧ s.policy ≠ zeroDigest
  | .firmware => s.firmware ≠ zeroDigest
  | .trust => s.trustRoot ≠ zeroDigest ∧ 0 < (s.trustEpoch : ℕ)
  | .storage => s.storageLayout ≠ zeroDigest
  | .recovery => s.recoveryImage ≠ zeroDigest
  | .baseline => s.baseline ≠ zeroDigest

/-- Nothing of the fact is recorded. -/
def Blank (s : State) : Fact → Prop
  | .hardware => s.nodeId = zeroIdentity ∧ s.bootId = zeroIdentity ∧ s.hardware = zeroDigest
      ∧ s.policy = zeroDigest
  | .firmware => s.firmware = zeroDigest
  | .trust => s.trustRoot = zeroDigest ∧ s.trustEpoch = 0
  | .storage => s.storageLayout = zeroDigest
  | .recovery => s.recoveryImage = zeroDigest
  | .baseline => s.baseline = zeroDigest

/-- The two states have the same record of the fact. -/
def Alike (s s' : State) : Fact → Prop
  | .hardware => s'.nodeId = s.nodeId ∧ s'.bootId = s.bootId ∧ s'.hardware = s.hardware
      ∧ s'.policy = s.policy
  | .firmware => s'.firmware = s.firmware
  | .trust => s'.trustRoot = s.trustRoot ∧ s'.trustEpoch = s.trustEpoch
  | .storage => s'.storageLayout = s.storageLayout
  | .recovery => s'.recoveryImage = s.recoveryImage
  | .baseline => s'.baseline = s.baseline

lemma given_not_blank {s : State} {f : Fact} (h : Given s f) : ¬ Blank s f := by
  cases f with
  | hardware | trust => exact fun hb => h.1 hb.1
  | _ => exact h

lemma Alike.refl (s : State) (f : Fact) : Alike s s f := by
  cases f with
  | hardware => exact ⟨rfl, rfl, rfl, rfl⟩
  | trust => exact ⟨rfl, rfl⟩
  | _ => rfl

lemma Alike.trans {s t u : State} {f : Fact} (h : Alike s t f) (h' : Alike t u f) :
    Alike s u f := by
  cases f with
  | hardware =>
    exact ⟨h'.1.trans h.1, h'.2.1.trans h.2.1, h'.2.2.1.trans h.2.2.1, h'.2.2.2.trans h.2.2.2⟩
  | trust => exact ⟨h'.1.trans h.1, h'.2.trans h.2⟩
  | _ => exact Eq.trans h' h

lemma Alike.given {s t : State} {f : Fact} (h : Alike s t f) : Given t f ↔ Given s f := by
  cases f with
  | hardware =>
    obtain ⟨h1, h2, h3, h4⟩ := h
    simp only [Given, h1, h2, h3, h4]
  | trust =>
    obtain ⟨h1, h2⟩ := h
    simp only [Given, h1, h2]
  | firmware | storage | recovery | baseline =>
    unfold Alike at h
    simp only [Given, h]

lemma Alike.blank {s t : State} {f : Fact} (h : Alike s t f) : Blank t f ↔ Blank s f := by
  cases f with
  | hardware =>
    obtain ⟨h1, h2, h3, h4⟩ := h
    simp only [Blank, h1, h2, h3, h4]
  | trust =>
    obtain ⟨h1, h2⟩ := h
    simp only [Blank, h1, h2]
  | firmware | storage | recovery | baseline =>
    unfold Alike at h
    simp only [Blank, h]

/-- Facts that are recorded stay as they are. -/
def Keeps (s s' : State) : Prop := ∀ f, Given s f → Alike s s' f

lemma Keeps.refl (s : State) : Keeps s s := fun f _ => .refl s f

lemma Keeps.trans {s t u : State} (h : Keeps s t) (h' : Keeps t u) : Keeps s u :=
  fun f hf => (h f hf).trans (h' f ((h f hf).given.mpr hf))

/-! ### What an accepted step does -/

/-- The step that the command makes from `s` to the working copy `n`. -/
inductive Moves (s : State) (c : Command) (e : Evidence) : State → Prop
  | quarantine (hc : c = .quarantine) : Moves s c e { s with current := .quarantined }
  | hardware (hs : s.current = .uncommissioned) (hc : c = .recordHardware)
      (h : e.nodeId ≠ zeroIdentity ∧ e.bootId ≠ zeroIdentity ∧ e.hardware ≠ zeroDigest
        ∧ e.policy ≠ zeroDigest) :
      Moves s c e { s with
        nodeId := e.nodeId, bootId := e.bootId, hardware := e.hardware, policy := e.policy
        current := .hardwareIdentified }
  | firmware (hs : s.current = .hardwareIdentified) (hc : c = .recordFirmware)
      (h : e.nodeId = s.nodeId ∧ e.firmware ≠ zeroDigest ∧ e.firmwareAuthenticated = true
        ∧ e.secureBoot = true) :
      Moves s c e { s with firmware := e.firmware, current := .firmwareValidated }
  | trust (hs : s.current = .firmwareValidated) (hc : c = .enrollTrust)
      (h : e.nodeId = s.nodeId ∧ e.trustRoot ≠ zeroDigest ∧ e.tpmOwned = true
        ∧ (s.trustEpoch : ℕ) < e.newTrustEpoch) :
      Moves s c e { s with
        trustRoot := e.trustRoot, trustEpoch := e.newTrustEpoch, current := .trustEnrolled }
  | storage (hs : s.current = .trustEnrolled) (hc : c = .provisionStorage)
      (h : e.storageLayout ≠ zeroDigest ∧ e.diskEncryption = true) :
      Moves s c e { s with storageLayout := e.storageLayout, current := .storageProvisioned }
  | recovery (hs : s.current = .storageProvisioned) (hc : c = .provisionRecovery)
      (h : e.recoveryImage ≠ zeroDigest ∧ e.recoverySealed = true ∧ e.restoreTested = true) :
      Moves s c e { s with recoveryImage := e.recoveryImage, current := .recoveryProvisioned }
  | baseline (hs : s.current = .recoveryProvisioned) (hc : c = .installBaseline)
      (h : e.baseline ≠ zeroDigest ∧ e.baselineSigned = true) :
      Moves s c e { s with baseline := e.baseline, current := .baselineInstalled }
  | verified (hs : s.current = .baselineInstalled) (hc : c = .verifyBaseline)
      (h : e.baseline = s.baseline ∧ e.baselineAttested = true ∧ e.auditReachable = true) :
      Moves s c e { s with current := .baselineVerified }
  | admitted (hs : s.current = .baselineVerified) (hc : c = .admitCluster)
      (h : e.clusterAdmissionAuthorized = true ∧ e.fencingReady = true) :
      Moves s c e { s with current := .clusterAdmitted }
  | alone (hs : s.current = .baselineVerified) (hc : c = .finish)
      (h : e.clusterAdmissionAuthorized = false) :
      Moves s c e { s with current := .commissioned }
  | joined (hs : s.current = .clusterAdmitted) (hc : c = .finish)
      (h : e.clusterAdmissionAuthorized = true ∧ e.fencingReady = true) :
      Moves s c e { s with current := .commissioned }

/-- **What an accepted step does**, guards included. -/
theorem step_ok {s s' : State} {c : Command} {e : Evidence} (h : step s c e = (s', .ok)) :
    (s.revision : ℕ) ≠ Counter.last ∧ ∃ n, Moves s c e n ∧ s' = (commit n).1 := by
  unfold step at h
  obtain ⟨hg, h⟩ := passes h (by decide)
  push Not at hg
  refine ⟨hg.2, ?_⟩
  have fin : ∀ {n}, Moves s c e n → commit n = (s', .ok) →
      ∃ n, Moves s c e n ∧ s' = (commit n).1 := fun hm hd => ⟨_, hm, by rw [hd]⟩
  split at h
  · exact fin (.quarantine ‹_›) h
  cases hs : s.current with
  | uncommissioned =>
    simp only [hs] at h
    obtain ⟨⟨hc, h1⟩, h⟩ := passes' h (by decide)
    exact fin (.hardware hs hc h1) h
  | hardwareIdentified =>
    simp only [hs] at h
    obtain ⟨⟨hc, h1⟩, h⟩ := passes' h (by decide)
    exact fin (.firmware hs hc h1) h
  | firmwareValidated =>
    simp only [hs] at h
    obtain ⟨⟨hc, h1⟩, h⟩ := passes' h (by decide)
    exact fin (.trust hs hc h1) h
  | trustEnrolled =>
    simp only [hs] at h
    obtain ⟨⟨hc, h1⟩, h⟩ := passes' h (by decide)
    exact fin (.storage hs hc h1) h
  | storageProvisioned =>
    simp only [hs] at h
    obtain ⟨⟨hc, h1⟩, h⟩ := passes' h (by decide)
    exact fin (.recovery hs hc h1) h
  | recoveryProvisioned =>
    simp only [hs] at h
    obtain ⟨⟨hc, h1⟩, h⟩ := passes' h (by decide)
    exact fin (.baseline hs hc h1) h
  | baselineInstalled =>
    simp only [hs] at h
    obtain ⟨⟨hc, h1⟩, h⟩ := passes' h (by decide)
    exact fin (.verified hs hc h1) h
  | baselineVerified =>
    simp only [hs] at h
    -- The command is one of the two, so only one of the branches is taken.
    split at h
    · rename_i h2
      rw [if_neg (by simp [h2.1])] at h
      exact fin (.alone hs h2.1 h2.2) h
    · obtain ⟨⟨hc, h1⟩, h⟩ := passes' h (by decide)
      exact fin (.admitted hs hc h1) h
  | clusterAdmitted =>
    simp only [hs] at h
    obtain ⟨⟨hc, h1⟩, h⟩ := passes' h (by decide)
    exact fin (.joined hs hc h1) h
  | commissioned | quarantined =>
    simp only [hs] at h
    exact absurd (Prod.mk.inj h).2 (by decide)

/-- A step that is not accepted changes nothing. -/
theorem step_stays (s : State) (c : Command) (e : Evidence) : Stays .ok s (step s c e) := by
  refine .ite ?_
  split
  · exact stays_done
  cases s.current with
  | commissioned | quarantined => exact stays_refused
  | baselineVerified =>
    dsimp only
    split
    · exact stays_done
    · exact .ite' stays_done
  | _ => exact .ite' stays_done

/-- The quarantine is accepted in every state. -/
lemma step_quarantine {s : State} {e : Evidence} (hr : e.expectedRevision = s.revision)
    (hl : (s.revision : ℕ) < Counter.last) :
    step s .quarantine e = commit { s with current := .quarantined } := by
  unfold step
  rw [if_neg (by simp [hr]; omega), if_pos rfl]

/-! ### The facts of a phase -/

lemma alike_commit (n : State) (f : Fact) : Alike n (commit n).1 f := by
  cases f with
  | hardware => exact ⟨rfl, rfl, rfl, rfl⟩
  | trust => exact ⟨rfl, rfl⟩
  | _ => rfl

/-- A step records nothing but the fact of the phase that it leads into. -/
lemma moves_alike {s n : State} {c : Command} {e : Evidence} (h : Moves s c e n) {f : Fact}
    (hf : n.current ≠ f.phase) : Alike s n f := by
  cases h <;> cases f <;>
    first
      | exact absurd rfl hf
      | exact rfl
      | exact ⟨rfl, rfl⟩
      | exact ⟨rfl, rfl, rfl, rfl⟩

lemma moves_given {s n : State} {c : Command} {e : Evidence} (h : Moves s c e n) {f : Fact}
    (hf : n.current = f.phase) : Given n f := by
  cases h with
  | hardware _ _ h1 => cases f <;> first | exact h1 | cases hf
  | firmware _ _ h1 => cases f <;> first | exact h1.2.1 | cases hf
  | trust _ _ h1 =>
    cases f with
    | trust => exact ⟨h1.2.1, by have := h1.2.2.2; dsimp only; omega⟩
    | _ => cases hf
  | storage _ _ h1 => cases f <;> first | exact h1.1 | cases hf
  | recovery _ _ h1 => cases f <;> first | exact h1.1 | cases hf
  | baseline _ _ h1 => cases f <;> first | exact h1.1 | cases hf
  | quarantine | verified | admitted | alone | joined => cases f <;> cases hf

/-- A step leads one phase further, or past the admission, or into the quarantine. -/
lemma moves_pos {s n : State} {c : Command} {e : Evidence} (h : Moves s c e n)
    (hn : n.current ≠ .quarantined) : s.current ≠ .quarantined ∧
      (n.current.pos = s.current.pos + 1 ∨ s.current = .baselineVerified ∧ n.current.pos = 9) := by
  cases h with
  | quarantine => exact absurd rfl hn
  | alone hs => exact ⟨by simp [hs], .inr ⟨hs, rfl⟩⟩
  | hardware hs | firmware hs | trust hs | storage hs | recovery hs | baseline hs | verified hs
  | admitted hs | joined hs => exact ⟨by simp [hs], .inl (by simp [hs, Phase.pos])⟩

lemma phase_pos_le (f : Fact) : f.phase.pos ≤ 6 := by cases f <;> decide

lemma eq_phase {p : Phase} {f : Fact} (h : p.pos = f.phase.pos) : p = f.phase := by
  cases p <;> cases f <;> first | rfl | cases h

/-- In its phase a node has recorded the facts up to there, and none beyond. -/
def Sound (s : State) : Prop :=
  s.current ≠ .quarantined → ∀ f : Fact,
    (f.phase.pos ≤ s.current.pos → Given s f) ∧ (s.current.pos < f.phase.pos → Blank s f)

/-- A command with its evidence, as it is put to `step`. -/
abbrev stepOf (s : State) (c : Command × Evidence) : State × Outcome := step s c.1 c.2

abbrev Step : Type := Entry State (Command × Evidence) Outcome

lemma step_sound {s s' : State} {h : Step} (hs : Sound s) (h1 : Accepted stepOf .ok s h s') :
    Sound s' := by
  obtain ⟨rfl, -, h2⟩ := h1
  obtain ⟨-, n, hm, rfl⟩ := step_ok h2
  intro hq f
  obtain ⟨hq', hpos⟩ := moves_pos hm hq
  have hle := phase_pos_le f
  rw [(alike_commit n f).given, (alike_commit n f).blank]
  change (f.phase.pos ≤ n.current.pos → _) ∧ (n.current.pos < f.phase.pos → _)
  have hb : h.before.current = .baselineVerified → h.before.current.pos = 7 := fun h3 => by
    rw [h3, Phase.pos]
  by_cases hf : n.current = f.phase
  · exact ⟨fun _ => moves_given hm hf, fun h3 => by rw [hf] at h3; omega⟩
  · have hne : n.current.pos ≠ f.phase.pos := fun h3 => hf (eq_phase h3)
    have ha := moves_alike hm hf
    rw [ha.given, ha.blank]
    refine ⟨fun h3 => (hs hq' f).1 ?_, fun h3 => (hs hq' f).2 ?_⟩
    · rcases hpos with h4 | ⟨h4, -⟩
      · omega
      · have := hb h4
        omega
    · rcases hpos with h4 | ⟨h4, h5⟩ <;> omega

lemma step_keeps {s s' : State} {h : Step} (hs : Sound s) (h1 : Accepted stepOf .ok s h s') :
    Keeps s s' := by
  obtain ⟨rfl, -, h2⟩ := h1
  obtain ⟨-, n, hm, rfl⟩ := step_ok h2
  intro f hg
  refine Alike.trans ?_ (alike_commit n f)
  by_cases hf : n.current = f.phase
  · have hq : n.current ≠ .quarantined := by
      rw [hf]
      cases f <;> decide
    obtain ⟨hq', hpos⟩ := moves_pos hm hq
    have hle := phase_pos_le f
    rw [hf] at hpos
    exact absurd ((hs hq' f).2 (by omega)) (given_not_blank hg)
  · exact moves_alike hm hf

lemma run_sound {l : List Step} {s₀ s : State} (h0 : Sound s₀)
    (hr : Run (Accepted stepOf .ok) s₀ l s) : Sound s ∧ Keeps s₀ s :=
  hr.invariant (I := fun s => Sound s ∧ Keeps s₀ s) ⟨h0, .refl s₀⟩ fun _ _ _ h h1 =>
    ⟨step_sound h.1 h1, h.2.trans (step_keeps h.1 h1)⟩

/-! ### The chain -/

/-- The evidence with which a step leads into the phase. -/
def Leads (h : Step) : Phase → Prop
  | .hardwareIdentified => h.call.1 = .recordHardware
  | .firmwareValidated => h.call.1 = .recordFirmware ∧ h.call.2.nodeId = h.before.nodeId
      ∧ h.call.2.firmwareAuthenticated = true ∧ h.call.2.secureBoot = true
  | .trustEnrolled => h.call.1 = .enrollTrust ∧ h.call.2.nodeId = h.before.nodeId
      ∧ h.call.2.tpmOwned = true
  | .storageProvisioned => h.call.1 = .provisionStorage ∧ h.call.2.diskEncryption = true
  | .recoveryProvisioned => h.call.1 = .provisionRecovery ∧ h.call.2.recoverySealed = true
      ∧ h.call.2.restoreTested = true
  | .baselineInstalled => h.call.1 = .installBaseline ∧ h.call.2.baselineSigned = true
  | .baselineVerified => h.call.1 = .verifyBaseline ∧ h.call.2.baseline = h.before.baseline
      ∧ h.call.2.baselineAttested = true ∧ h.call.2.auditReachable = true
  | .clusterAdmitted => h.call.1 = .admitCluster
      ∧ h.call.2.clusterAdmissionAuthorized = true ∧ h.call.2.fencingReady = true
  | .uncommissioned | .commissioned | .quarantined => False

/-- The phases before the last one, in their order. -/
def chain : List Phase :=
  [.hardwareIdentified, .firmwareValidated, .trustEnrolled, .storageProvisioned,
    .recoveryProvisioned, .baselineInstalled, .baselineVerified, .clusterAdmitted]

/-- The steps of `l` lead through the first `n` phases of the chain, one each. -/
def Through (l : List Step) (n : ℕ) : Prop := List.Forall₂ Leads l (chain.take n)

/-- The history of a commissioned node: the chain up to the verified baseline without an
admission, or the chain with an admission that is confirmed at the end. -/
def Completed (l : List Step) : Prop :=
  ∃ l' h, l = l' ++ [h] ∧ h.call.1 = .finish ∧
    (Through l' 7 ∧ h.call.2.clusterAdmissionAuthorized = false
      ∨ Through l' 8 ∧ h.call.2.clusterAdmissionAuthorized = true
        ∧ h.call.2.fencingReady = true)

/-- What the phase tells of the history. -/
def Past (l : List Step) (s : State) : Prop :=
  match s.current with
  | .quarantined => True
  | .commissioned => Completed l
  | p => Through l p.pos

lemma Through.snoc {l : List Step} {h : Step} {n : ℕ} {p : Phase} (ht : Through l n)
    (hc : chain.take (n + 1) = chain.take n ++ [p]) (hp : Leads h p) :
    Through (l ++ [h]) (n + 1) := by
  unfold Through
  rw [hc]
  exact List.rel_append ht (.cons hp .nil)

lemma past_step {l : List Step} {s s' : State} {h : Step} (hp : Past l s)
    (h1 : Accepted stepOf .ok s h s') : Past (l ++ [h]) s' := by
  obtain ⟨rfl, -, h2⟩ := h1
  obtain ⟨-, n, hm, rfl⟩ := step_ok h2
  unfold Past at hp
  cases hm with
  | quarantine => trivial
  | hardware hs hc => rw [hs] at hp; exact hp.snoc rfl hc
  | firmware hs hc h3 => rw [hs] at hp; exact hp.snoc rfl ⟨hc, h3.1, h3.2.2⟩
  | trust hs hc h3 => rw [hs] at hp; exact hp.snoc rfl ⟨hc, h3.1, h3.2.2.1⟩
  | storage hs hc h3 => rw [hs] at hp; exact hp.snoc rfl ⟨hc, h3.2⟩
  | recovery hs hc h3 => rw [hs] at hp; exact hp.snoc rfl ⟨hc, h3.2⟩
  | baseline hs hc h3 => rw [hs] at hp; exact hp.snoc rfl ⟨hc, h3.2⟩
  | verified hs hc h3 => rw [hs] at hp; exact hp.snoc rfl ⟨hc, h3⟩
  | admitted hs hc h3 => rw [hs] at hp; exact hp.snoc rfl ⟨hc, h3⟩
  | alone hs hc h3 => rw [hs] at hp; exact ⟨l, h, rfl, hc, .inl ⟨hp, h3⟩⟩
  | joined hs hc h3 => rw [hs] at hp; exact ⟨l, h, rfl, hc, .inr ⟨hp, h3⟩⟩

/-! ### Runs of calls, refused ones included -/

/-- The run with history `l` that has led to `s` has been in the phase `p`. -/
def Reached (l : List Step) (s : State) (p : Phase) : Prop :=
  s.current = p ∨ ∃ h ∈ l, h.before.current = p

lemma sound_start : Sound {} := by
  intro _ f
  cases f with
  | hardware => exact ⟨fun h => absurd h (by decide), fun _ => ⟨rfl, rfl, rfl, rfl⟩⟩
  | trust => exact ⟨fun h => absurd h (by decide), fun _ => ⟨rfl, rfl⟩⟩
  | _ => exact ⟨fun h => absurd h (by decide), fun _ => rfl⟩

lemma called_sound {l : List Step} {s₀ s : State} (h0 : Sound s₀)
    (hr : Run (Called stepOf) s₀ l s) : Sound s ∧ Keeps s₀ s :=
  run_sound h0 (run_accepted (fun s c => step_stays s c.1 c.2) hr)

/-- The facts of every phase that a run has been in are recorded. -/
lemma reached_given {l : List Step} {s : State} (hr : Run (Called stepOf) {} l s) {p : Phase}
    (hp : Reached l s p) (hq : p ≠ .quarantined) {f : Fact} (hf : f.phase.pos ≤ p.pos) :
    Given s f := by
  rcases hp with rfl | ⟨h, hh, rfl⟩
  · exact ((called_sound sound_start hr).1 hq f).1 hf
  · obtain ⟨l₁, l₂, t, u, -, h1, h2, h3⟩ := hr.mem_step hh
    obtain rfl : h.before = t := h2.1
    have ht := (called_sound sound_start h1).1
    have hk := (called_sound ht ((Run.single h2).append h3)).2
    have hg := (ht hq f).1 hf
    exact (hk f hg).given.mpr hg

/-- The baseline that was verified is the one that is recorded. -/
lemma verified_baseline {l : List Step} {s : State} (hr : Run (Accepted stepOf .ok) {} l s)
    {h : Step} (hh : h ∈ l) (hc : h.call.1 = .verifyBaseline) :
    h.call.2.baseline = s.baseline ∧ h.call.2.baselineAttested = true := by
  obtain ⟨l₁, l₂, t, u, -, h1, h2, h3⟩ := hr.mem_step hh
  obtain rfl : h.before = t := h2.1
  have ht := (run_sound sound_start h1).1
  have hk := (run_sound ht ((Run.single h2).append h3)).2
  obtain ⟨-, n, hm, -⟩ := step_ok h2.2.2
  rw [hc] at hm
  cases hm with
  | quarantine h4 | hardware _ h4 | firmware _ h4 | trust _ h4 | storage _ h4 | recovery _ h4
  | baseline _ h4 | admitted _ h4 | alone _ h4 | joined _ h4 => cases h4
  | verified hs _ h4 =>
    have hg : Given h.before .baseline := (ht (by simp [hs]) .baseline).1 (by simp [hs, Fact.phase])
    have ha : s.baseline = h.before.baseline := hk .baseline hg
    exact ⟨h4.1.trans ha.symm, h4.2.1⟩

lemma step_quarantined {s s' : State} {h : Step} (hs : s.current = .quarantined)
    (h1 : Accepted stepOf .ok s h s') : s'.current = .quarantined := by
  obtain ⟨rfl, -, h2⟩ := h1
  obtain ⟨-, n, hm, rfl⟩ := step_ok h2
  by_contra hq
  exact (moves_pos hm hq).1 hs

/-- The revision is the number of accepted steps. -/
lemma run_revision {l : List Step} {s₀ s : State} (hr : Run (Accepted stepOf .ok) s₀ l s) :
    (s.revision : ℕ) = s₀.revision + l.length := by
  induction hr with
  | nil => rfl
  | @snoc l s h s' _ h1 ih =>
    obtain ⟨rfl, -, h2⟩ := h1
    obtain ⟨hl, n, hm, rfl⟩ := step_ok h2
    have hn : n.revision = h.before.revision := by cases hm <;> rfl
    have h3 : ((commit n).1.revision : ℕ) = n.revision + 1 := by
      unfold commit
      exact Counter.val_next (by rwa [hn])
    rw [h3, hn, ih, List.length_append, List.length_singleton, add_assoc]

/-- **The commissioning chain**: over every run from the start the facts of all phases passed are
recorded and stay as they are, a commissioned node has gone through the whole chain with the
recorded baseline attested, the quarantine can be entered from everywhere and is never left, the
revision counts the accepted steps, and a refused step changes nothing. -/
theorem chain_kept {l : List Step} {s : State} (hr : Run (Called stepOf) {} l s) :
    (∀ p, Reached l s p → p ≠ .quarantined → ∀ f : Fact, f.phase.pos ≤ p.pos → Given s f) ∧
    (∀ l' s', Run (Called stepOf) s l' s' → Keeps s s') ∧
    (s.current = .commissioned → Completed (accepted .ok l) ∧
      ∀ h ∈ accepted .ok l, h.call.1 = .verifyBaseline →
        h.call.2.baseline = s.baseline ∧ h.call.2.baselineAttested = true) ∧
    (∀ e, e.expectedRevision = s.revision → (s.revision : ℕ) < Counter.last →
      (step s .quarantine e).2 = .ok ∧ (step s .quarantine e).1.current = .quarantined) ∧
    (∀ l' s', Run (Called stepOf) s l' s' → s.current = .quarantined →
      s'.current = .quarantined) ∧
    (s.revision : ℕ) = (accepted .ok l).length ∧
    ∀ c e, (step s c e).2 ≠ .ok → (step s c e).1 = s := by
  have hstay : ∀ s c, Stays .ok s (stepOf s c) := fun s c => step_stays s c.1 c.2
  have ha := run_accepted hstay hr
  refine ⟨fun p hp hq f hf => reached_given hr hp hq hf, fun l' s' hr' => ?_, fun hc => ⟨?_, ?_⟩,
    fun e h1 h2 => ?_, fun l' s' hr' hq => ?_, ?_, step_stays s⟩
  · exact (called_sound (called_sound sound_start hr).1 hr').2
  · have hp : Past (accepted .ok l) s :=
      ha.history (I := Past) List.Forall₂.nil fun _ _ _ _ _ => past_step
    unfold Past at hp
    rwa [hc] at hp
  · exact fun h hh => verified_baseline ha hh
  · rw [step_quarantine h1 h2]
    exact ⟨rfl, rfl⟩
  · exact (run_accepted hstay hr').invariant hq fun _ _ _ => step_quarantined
  · have h1 := run_revision ha
    rwa [show ((({} : State).revision : Counter) : ℕ) = 0 from rfl, zero_add] at h1

/-- The evidence for the step at revision `r`. -/
def evidenceAt (r : Counter) : Evidence where
  expectedRevision := r
  newTrustEpoch := 1
  nodeId := Block.fill 16 1
  bootId := Block.fill 16 2
  hardware := Block.fill 32 3
  firmware := Block.fill 32 4
  trustRoot := Block.fill 32 5
  storageLayout := Block.fill 32 6
  recoveryImage := Block.fill 32 7
  baseline := Block.fill 32 8
  policy := Block.fill 32 9
  secureBoot := true
  tpmOwned := true
  firmwareAuthenticated := true
  diskEncryption := true
  recoverySealed := true
  baselineSigned := true
  baselineAttested := true
  restoreTested := true
  auditReachable := true
  clusterAdmissionAuthorized := true
  fencingReady := true

/-- From the hardware to the end, with a call that is refused. -/
def someCalls : List (Command × Evidence) :=
  [(.recordHardware, evidenceAt 0), (.recordFirmware, evidenceAt 1), (.enrollTrust, evidenceAt 2),
    (.finish, evidenceAt 3), (.provisionStorage, evidenceAt 3), (.provisionRecovery, evidenceAt 4),
    (.installBaseline, evidenceAt 5), (.verifyBaseline, evidenceAt 6),
    (.admitCluster, evidenceAt 7), (.finish, evidenceAt 8)]

theorem chain_kept_someCalls :
    (after stepOf {} someCalls).current = .commissioned ∧
    Completed (accepted .ok (history stepOf {} someCalls)) := by
  have h : (after stepOf {} someCalls).current = .commissioned := by decide +kernel
  exact ⟨h, ((chain_kept (run_history stepOf {} someCalls)).2.2.1 h).1⟩

end NiayanAssurance.Commissioning
