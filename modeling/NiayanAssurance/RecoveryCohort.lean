import NiayanAssurance.Types
import NiayanAssurance.Lib.History
import Mathlib.Tactic.Linarith

/-!
The recovery of a node under a quorum of witnesses: from the preparation of a candidate to its
operation.
-/

namespace NiayanAssurance.RecoveryCohort

open NiayanAssurance.Lib NiayanAssurance.Types

inductive Phase
  | uninspected | quarantined | reconstructing | candidateChecked | reconciliationOnly
  | operational
  deriving DecidableEq

structure Anchor where
  node : Identity := zeroIdentity
  recoveryId : Identity := zeroIdentity
  manifest : Digest := zeroDigest
  catalog : Digest := zeroDigest
  journalHead : Digest := zeroDigest
  pendingSet : Digest := zeroDigest
  cohort : Digest := zeroDigest
  generation : Counter := 0
  trustEpoch : Counter := 0
  lastSequence : Counter := 0
  expires : Counter := 0
  deriving DecidableEq

structure Witness where
  principal : Identity := zeroIdentity
  domainId : Identity := zeroIdentity
  anchorHash : Digest := zeroDigest
  authenticated : Bool := false
  current : Bool := false
  recoveryRole : Bool := false
  deriving DecidableEq

/-- What the loop of `Quorum` has counted. -/
structure Tally where
  count : ℕ := 0
  recovery : Bool := false
  independent : Bool := false
  deriving DecidableEq

/-- The loop of `Quorum` over the witnesses after those in `before`. -/
def tally (expected : Digest) : (before : List Witness) → Tally → List Witness → Option Tally
  | _, t, [] => some t
  | before, t, x :: w =>
    if x.authenticated = false ∨ x.current = false ∨ x.anchorHash ≠ expected
        ∨ x.principal = zeroIdentity ∨ x.domainId = zeroIdentity then none
    else if before.any fun y => x.principal = y.principal ∨ x.domainId = y.domainId then none
    else tally expected (before ++ [x])
      ⟨t.count + 1, t.recovery || x.recoveryRole, t.independent || !x.recoveryRole⟩ w

/-- `Quorum`; `needed` is positive. -/
def quorum (w : List Witness) (expected : Digest) (needed : ℕ) : Bool :=
  if expected = zeroDigest ∨ 32 < w.length ∨ needed < 2 then false
  else
    match tally expected [] {} w with
    | none => false
    | some t => decide (needed ≤ t.count) && t.recovery && t.independent

structure Evidence where
  exactAnchor : Bool := false
  validQuorum : Bool := false
  externalFloorCurrent : Bool := false
  coreSuspect : Bool := false
  rescueIndependentAndVerified : Bool := false
  writerStopped : Bool := false
  evidencePreserved : Bool := false
  storageHealthy : Bool := false
  capacityReserved : Bool := false
  exactObjects : Bool := false
  fullInventory : Bool := false
  nativeStateValidated : Bool := false
  exactJournalHead : Bool := false
  replaySetPreserved : Bool := false
  trustNotRolledBack : Bool := false
  pendingExternalEffects : ℕ := 0
  currentTrust : Counter := 0
  minimumGeneration : Counter := 0
  now : Counter := 0
  deriving DecidableEq

structure State where
  subject : Anchor := {}
  status : Phase := .uninspected
  revision : Counter := 0
  /-- At most 16. -/
  attempts : ℕ := 0
  outstandingEffects : ℕ := 0
  deriving DecidableEq

def Usable (a : Anchor) (e : Evidence) : Prop :=
  a.node ≠ zeroIdentity ∧ a.recoveryId ≠ zeroIdentity ∧ a.manifest ≠ zeroDigest
    ∧ a.catalog ≠ zeroDigest ∧ a.journalHead ≠ zeroDigest ∧ a.pendingSet ≠ zeroDigest
    ∧ a.cohort ≠ zeroDigest ∧ (a.generation : ℕ) ≠ 0
    ∧ (e.minimumGeneration : ℕ) ≤ a.generation ∧ a.trustEpoch = e.currentTrust
    ∧ (e.now : ℕ) < a.expires ∧ e.exactAnchor = true ∧ e.validQuorum = true
    ∧ e.externalFloorCurrent = true ∧ e.trustNotRolledBack = true
    ∧ (e.coreSuspect = true → e.rescueIndependentAndVerified = true)

instance (a : Anchor) (e : Evidence) : Decidable (Usable a e) := by
  unfold Usable
  infer_instance

def prepare (s : State) (a : Anchor) (e : Evidence) : State × Outcome :=
  if s.status ≠ .uninspected ∧ s.status ≠ .quarantined ∨ ¬ Usable a e ∨ e.writerStopped = false
      ∨ e.evidencePreserved = false ∨ e.storageHealthy = false ∨ e.capacityReserved = false then
    (s, .denied)
  else if s.attempts = 16 ∨ (s.revision : ℕ) = Counter.last then (s, .exhausted)
  else ({ s with
    subject := a
    status := .reconstructing
    attempts := s.attempts + 1
    outstandingEffects := e.pendingExternalEffects
    revision := Counter.next s.revision }, .ok)

def checkCandidate (s : State) (e : Evidence) : State × Outcome :=
  if s.status ≠ .reconstructing ∨ ¬ Usable s.subject e ∨ e.writerStopped = false
      ∨ e.exactObjects = false ∨ e.fullInventory = false ∨ e.nativeStateValidated = false
      ∨ e.exactJournalHead = false ∨ e.replaySetPreserved = false
      ∨ e.pendingExternalEffects ≠ s.outstandingEffects then (s, .denied)
  else if (s.revision : ℕ) = Counter.last then (s, .exhausted)
  else ({ s with status := .candidateChecked, revision := Counter.next s.revision }, .ok)

def publish (s : State) (e : Evidence) : State × Outcome :=
  if s.status ≠ .candidateChecked ∨ ¬ Usable s.subject e ∨ e.writerStopped = false
      ∨ e.exactObjects = false ∨ e.fullInventory = false ∨ e.exactJournalHead = false
      ∨ e.replaySetPreserved = false ∨ e.nativeStateValidated = false
      ∨ e.evidencePreserved = false ∨ e.pendingExternalEffects ≠ s.outstandingEffects then
    (s, .denied)
  else if (s.revision : ℕ) = Counter.last then (s, .exhausted)
  else ({ s with status := .reconciliationOnly, revision := Counter.next s.revision }, .ok)

def acceptOperational (s : State) (e : Evidence)
    (reconciledEffects applicationAcceptance independentApproval : Bool) : State × Outcome :=
  if s.status ≠ .reconciliationOnly ∨ ¬ Usable s.subject e ∨ reconciledEffects = false
      ∨ applicationAcceptance = false ∨ independentApproval = false ∨ e.exactObjects = false
      ∨ e.nativeStateValidated = false ∨ e.fullInventory = false ∨ e.exactJournalHead = false
      ∨ e.replaySetPreserved = false then (s, .denied)
  else if (s.revision : ℕ) = Counter.last then (s, .exhausted)
  else ({ s with
    outstandingEffects := 0
    status := .operational
    revision := Counter.next s.revision }, .ok)

/-! ### The four procedures as one step -/

inductive Call
  | prepare (a : Anchor) (e : Evidence)
  | checkCandidate (e : Evidence)
  | publish (e : Evidence)
  | acceptOperational (e : Evidence)
      (reconciledEffects applicationAcceptance independentApproval : Bool)

def step (s : State) : Call → State × Outcome
  | .prepare a e => prepare s a e
  | .checkCandidate e => checkCandidate s e
  | .publish e => publish s e
  | .acceptOperational e reconciledEffects applicationAcceptance independentApproval =>
    acceptOperational s e reconciledEffects applicationAcceptance independentApproval

/-- A call that is not accepted changes nothing. -/
theorem step_stays (s : State) (c : Call) : Stays .ok s (step s c) := by
  cases c <;> exact .ite (.ite stays_done)

/-- The step that the call makes from `s`, the revision apart. -/
inductive Moves (s : State) : Call → State → Prop
  | prepare {a : Anchor} {e : Evidence} (hs : s.status = .uninspected ∨ s.status = .quarantined)
      (hu : Usable a e) (hw : e.writerStopped = true) (hp : e.evidencePreserved = true)
      (hh : e.storageHealthy = true) (hc : e.capacityReserved = true) (ha : s.attempts ≠ 16) :
      Moves s (.prepare a e) { s with
        subject := a
        status := .reconstructing
        attempts := s.attempts + 1
        outstandingEffects := e.pendingExternalEffects }
  | checked {e : Evidence} (hs : s.status = .reconstructing) (hu : Usable s.subject e)
      (hw : e.writerStopped = true) (he : e.pendingExternalEffects = s.outstandingEffects) :
      Moves s (.checkCandidate e) { s with status := .candidateChecked }
  | published {e : Evidence} (hs : s.status = .candidateChecked) (hu : Usable s.subject e)
      (hw : e.writerStopped = true) (he : e.pendingExternalEffects = s.outstandingEffects) :
      Moves s (.publish e) { s with status := .reconciliationOnly }
  | operational {e : Evidence} (hs : s.status = .reconciliationOnly) (hu : Usable s.subject e) :
      Moves s (.acceptOperational e true true true)
        { s with outstandingEffects := 0, status := .operational }

/-- **What an accepted call does**, guards included. -/
theorem step_ok {s s' : State} {c : Call} (h : step s c = (s', .ok)) :
    (s.revision : ℕ) ≠ Counter.last ∧
      ∃ n, Moves s c n ∧ s' = { n with revision := Counter.next s.revision } := by
  cases c with
  | prepare a e =>
    obtain ⟨h1, h⟩ := passes h (by decide)
    obtain ⟨h2, h⟩ := passes h (by decide)
    rw [not_or] at h1 h2
    have hs : s.status = .uninspected ∨ s.status = .quarantined := by
      by_contra hs
      exact h1.1 (not_or.mp hs)
    obtain ⟨hu, hw, hp, hh, hc⟩ : Usable a e ∧ e.writerStopped = true ∧
        e.evidencePreserved = true ∧ e.storageHealthy = true ∧ e.capacityReserved = true := by
      simpa using h1.2
    exact ⟨h2.2, _, .prepare hs hu hw hp hh hc h2.1, (Prod.mk.inj h).1.symm⟩
  | checkCandidate e =>
    obtain ⟨h1, h⟩ := passes h (by decide)
    obtain ⟨h2, h⟩ := passes h (by decide)
    push Not at h1
    obtain ⟨hs, hu, hw, -, -, -, -, -, he⟩ := h1
    exact ⟨h2, _, .checked hs hu (by simpa using hw) he, (Prod.mk.inj h).1.symm⟩
  | publish e =>
    obtain ⟨h1, h⟩ := passes h (by decide)
    obtain ⟨h2, h⟩ := passes h (by decide)
    push Not at h1
    obtain ⟨hs, hu, hw, -, -, -, -, -, -, he⟩ := h1
    exact ⟨h2, _, .published hs hu (by simpa using hw) he, (Prod.mk.inj h).1.symm⟩
  | acceptOperational e r a i =>
    obtain ⟨h1, h⟩ := passes h (by decide)
    obtain ⟨h2, hf⟩ := passes h (by decide)
    push Not at h1
    obtain ⟨hs, hu, hr, ha, hi, -⟩ := h1
    obtain rfl : r = true := by simpa using hr
    obtain rfl : a = true := by simpa using ha
    obtain rfl : i = true := by simpa using hi
    exact ⟨h2, _, .operational hs hu, (Prod.mk.inj hf).1.symm⟩

/-! ### Runs -/

abbrev Step : Type := Entry State Call Outcome

/-- The step has prepared the candidate for the subject of `s`, on the evidence `e`. -/
def PreparedBy (s : State) (h : Step) (e : Evidence) : Prop :=
  h.call = .prepare s.subject e ∧ Usable s.subject e ∧ e.writerStopped = true

/-- The step has checked it, with the effects that were pending then. -/
def CheckedBy (s : State) (h : Step) (e e' : Evidence) : Prop :=
  h.before.subject = s.subject ∧ h.call = .checkCandidate e' ∧ Usable s.subject e'
    ∧ e'.writerStopped = true ∧ e'.pendingExternalEffects = e.pendingExternalEffects

/-- The step has published it, with the same effects pending. -/
def PublishedBy (s : State) (h : Step) (e e' : Evidence) : Prop :=
  h.before.subject = s.subject ∧ h.call = .publish e' ∧ Usable s.subject e'
    ∧ e'.writerStopped = true ∧ e'.pendingExternalEffects = e.pendingExternalEffects

/-- The step has accepted it, with its effects reconciled, and accepted by the application and
by an independent approval. -/
def AcceptedBy (s : State) (h : Step) (e' : Evidence) : Prop :=
  h.before.subject = s.subject ∧ h.call = .acceptOperational e' true true true
    ∧ Usable s.subject e'

/-- What the status tells of the accepted calls. -/
def Past (l : List Step) (s : State) : Prop :=
  match s.status with
  | .uninspected => l = []
  | .quarantined => False
  | .reconstructing => ∃ p e, l = [p] ∧ PreparedBy s p e
      ∧ s.outstandingEffects = e.pendingExternalEffects
  | .candidateChecked => ∃ p c e e₁, l = [p, c] ∧ PreparedBy s p e ∧ CheckedBy s c e e₁
      ∧ s.outstandingEffects = e.pendingExternalEffects
  | .reconciliationOnly => ∃ p c u e e₁ e₂, l = [p, c, u] ∧ PreparedBy s p e ∧ CheckedBy s c e e₁
      ∧ PublishedBy s u e e₂
  | .operational => ∃ p c u a e e₁ e₂ e₃, l = [p, c, u, a] ∧ PreparedBy s p e
      ∧ CheckedBy s c e e₁ ∧ PublishedBy s u e e₂ ∧ AcceptedBy s a e₃

lemma past_step {l : List Step} {s s' : State} {h : Step} (hp : Past l s)
    (h1 : Accepted step .ok s h s') : Past (l ++ [h]) s' := by
  obtain ⟨rfl, -, h2⟩ := h1
  obtain ⟨-, n, hm, rfl⟩ := step_ok h2
  unfold Past at hp
  generalize hc : h.call = c at hm
  cases hm with
  | @prepare a e hs hu hw =>
    rcases hs with hs | hs <;> rw [hs] at hp
    · exact ⟨h, e, by rw [hp]; rfl, ⟨hc, hu, hw⟩, rfl⟩
    · exact hp.elim
  | @checked e₁ hs hu hw he =>
    rw [hs] at hp
    obtain ⟨p, e, rfl, h3, h4⟩ := hp
    exact ⟨p, h, e, e₁, rfl, h3, ⟨rfl, hc, hu, hw, he.trans h4⟩, h4⟩
  | @published e₂ hs hu hw he =>
    rw [hs] at hp
    obtain ⟨p, c, e, e₁, rfl, h3, h4, h5⟩ := hp
    exact ⟨p, c, h, e, e₁, e₂, rfl, h3, h4, rfl, hc, hu, hw, he.trans h5⟩
  | @operational e₃ hs hu =>
    rw [hs] at hp
    obtain ⟨p, c, u, e, e₁, e₂, rfl, h3, h4, h5⟩ := hp
    exact ⟨p, c, u, h, e, e₁, e₂, e₃, rfl, h3, h4, h5, rfl, hc, hu⟩

/-- The revision is the number of accepted calls. -/
lemma run_revision {l : List Step} {s₀ s : State} (hr : Run (Accepted step .ok) s₀ l s) :
    (s.revision : ℕ) = s₀.revision + l.length := by
  induction hr with
  | nil => rfl
  | @snoc l s h s' _ h1 ih =>
    obtain ⟨rfl, -, h2⟩ := h1
    obtain ⟨hl, n, -, rfl⟩ := step_ok h2
    dsimp only
    rw [Counter.val_next hl, ih, List.length_append, List.length_singleton, add_assoc]

lemma step_attempts {s s' : State} {h : Step} (hs : s.attempts ≤ 16)
    (h1 : Accepted step .ok s h s') : s'.attempts ≤ 16 := by
  obtain ⟨rfl, -, h2⟩ := h1
  obtain ⟨-, n, hm, rfl⟩ := step_ok h2
  generalize h.call = c at hm
  cases hm with
  | prepare _ _ _ _ _ _ ha =>
    dsimp only
    omega
  | checked | published | operational => exact hs

/-- The outstanding effects are set by the preparation and cleared by the acceptance. -/
lemma step_effects (s : State) (c : Call)
    (h : (step s c).1.outstandingEffects ≠ s.outstandingEffects) :
    (∃ a e, c = .prepare a e) ∨ ∃ e, c = .acceptOperational e true true true := by
  have hok : (step s c).2 = .ok := by
    by_contra hne
    exact h (by rw [step_stays s c hne])
  have hstep : step s c = ((step s c).1, .ok) := by rw [← hok]
  obtain ⟨-, n, hm, hs⟩ := step_ok hstep
  rw [hs] at h
  cases hm with
  | prepare => exact .inl ⟨_, _, rfl⟩
  | checked | published => exact absurd rfl h
  | operational => exact .inr ⟨_, rfl⟩

/-- **Recovery cohort runs**: over every run of calls from the start, an operational state has
been prepared, checked, published and accepted in this order about its subject, each time with
usable evidence; and the effects, the attempts and the revision change as they should, and not
at all in a refused call. -/
theorem operational_history {l : List Step} {s : State} (hr : Run (Called step) {} l s) :
    (s.status = .operational → ∃ p c u a e e₁ e₂ e₃, accepted .ok l = [p, c, u, a] ∧
      PreparedBy s p e ∧ CheckedBy s c e e₁ ∧ PublishedBy s u e e₂ ∧ AcceptedBy s a e₃) ∧
    (∀ c, (step s c).1.outstandingEffects ≠ s.outstandingEffects →
      (∃ a e, c = .prepare a e) ∨ ∃ e, c = .acceptOperational e true true true) ∧
    s.attempts ≤ 16 ∧ (s.revision : ℕ) = (accepted .ok l).length ∧
    ∀ c, (step s c).2 ≠ .ok → (step s c).1 = s := by
  have ha := run_accepted step_stays hr
  refine ⟨fun hs => ?_, step_effects s, ?_, ?_, step_stays s⟩
  · have hp : Past (accepted .ok l) s := ha.history (I := Past) rfl fun _ _ _ _ _ => past_step
    unfold Past at hp
    rwa [hs] at hp
  · exact ha.invariant (I := fun s => s.attempts ≤ 16) (by decide) fun _ _ _ => step_attempts
  · have h1 := run_revision ha
    rwa [show ((({} : State).revision : Counter) : ℕ) = 0 from rfl, zero_add] at h1

def someAnchor : Anchor where
  node := Block.fill 16 1
  recoveryId := Block.fill 16 2
  manifest := Block.fill 32 3
  catalog := Block.fill 32 4
  journalHead := Block.fill 32 5
  pendingSet := Block.fill 32 6
  cohort := Block.fill 32 7
  generation := 1
  expires := 100

def someEvidence : Evidence where
  exactAnchor := true
  validQuorum := true
  externalFloorCurrent := true
  writerStopped := true
  evidencePreserved := true
  storageHealthy := true
  capacityReserved := true
  exactObjects := true
  fullInventory := true
  nativeStateValidated := true
  exactJournalHead := true
  replaySetPreserved := true
  trustNotRolledBack := true
  pendingExternalEffects := 2
  minimumGeneration := 1
  now := 10

/-- The four calls, with one that comes too early. -/
def someCalls : List Call :=
  [.prepare someAnchor someEvidence, .publish someEvidence, .checkCandidate someEvidence,
    .publish someEvidence, .acceptOperational someEvidence true true true]

theorem operational_history_someCalls :
    (after step {} someCalls).status = .operational ∧
    ∃ p c u a e e₁ e₂ e₃, accepted .ok (history step {} someCalls) = [p, c, u, a] ∧
      PreparedBy (after step {} someCalls) p e ∧ CheckedBy (after step {} someCalls) c e e₁ ∧
      PublishedBy (after step {} someCalls) u e e₂ ∧ AcceptedBy (after step {} someCalls) a e₃ := by
  have h : (after step {} someCalls).status = .operational := by decide +kernel
  exact ⟨h, (operational_history (run_history step {} someCalls)).1 h⟩

end NiayanAssurance.RecoveryCohort
