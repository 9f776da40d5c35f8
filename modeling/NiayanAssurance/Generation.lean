import NiayanAssurance.Types
import NiayanAssurance.Lib.History
import Mathlib.Tactic.Linarith

/-!
A generation of the configuration from its proposal to its commit, and what lies behind a
generation that is committed.
-/

namespace NiayanAssurance.Generation

open NiayanAssurance.Lib NiayanAssurance.Types

inductive Phase
  | proposed | staged | canary | verified | accepted | committed | rejected | quarantined
  deriving DecidableEq

structure State where
  generationId : Digest := zeroDigest
  previousId : Digest := zeroDigest
  baseline : Digest := zeroDigest
  recovery : Digest := zeroDigest
  sequenceNumber : Counter := 0
  revision : Counter := 0
  enteredAt : Counter := 0
  current : Phase := .proposed
  /-- At most 255. -/
  healthySamples : ℕ := 0
  deriving DecidableEq

structure Evidence where
  expectedRevision : Counter := 0
  now : Counter := 0
  minimumSoakMs : Counter := 0
  baseline : Digest := zeroDigest
  recovery : Digest := zeroDigest
  stageVerified : Bool := false
  canaryHealthy : Bool := false
  clusterHealthy : Bool := false
  recoveryPinned : Bool := false
  incidentsClear : Bool := false
  acceptanceApproved : Bool := false
  commitApproved : Bool := false
  independentReviewer : Bool := false
  deriving DecidableEq

inductive Command
  | recordStaged | beginCanary | observeHealthy | acceptChange | commit | reject | quarantine
  deriving DecidableEq

def done (n : State) : State × Outcome := ({ n with revision := Counter.next n.revision }, .ok)

/-- The working copy enters the phase `p`. -/
def enter (s : State) (p : Phase) (e : Evidence) : State :=
  { s with current := p, enteredAt := e.now }

def step (s : State) (c : Command) (e : Evidence) : State × Outcome :=
  if s.generationId = zeroDigest ∨ s.baseline = zeroDigest ∨ s.recovery = zeroDigest
      ∨ (s.sequenceNumber : ℕ) = 0 ∨ e.expectedRevision ≠ s.revision
      ∨ (s.revision : ℕ) = Counter.last ∨ (e.now : ℕ) < s.enteredAt then (s, .conflict)
  else if c = .quarantine then done (enter s .quarantined e)
  else if c = .reject ∧ s.current ≠ .committed ∧ s.current ≠ .rejected then
    if e.recovery = s.recovery ∧ e.recoveryPinned = true then done (enter s .rejected e)
    else (s, .conflict)
  else
    match s.current with
    | .proposed =>
      if c = .recordStaged ∧ e.stageVerified = true ∧ e.baseline = s.baseline
          ∧ e.recovery = s.recovery ∧ e.recoveryPinned = true then done (enter s .staged e)
      else (s, .conflict)
    | .staged =>
      if c = .beginCanary ∧ e.incidentsClear = true then
        done { enter s .canary e with healthySamples := 0 }
      else (s, .conflict)
    | .canary =>
      if c = .observeHealthy ∧ e.canaryHealthy = true ∧ e.clusterHealthy = true
          ∧ e.incidentsClear = true ∧ s.healthySamples < 255 then
        if 3 ≤ s.healthySamples + 1 ∧ (e.minimumSoakMs : ℕ) ≤ e.now - s.enteredAt then
          done { enter s .verified e with healthySamples := s.healthySamples + 1 }
        else done { s with healthySamples := s.healthySamples + 1 }
      else (s, .conflict)
    | .verified =>
      if c = .acceptChange ∧ e.acceptanceApproved = true ∧ e.independentReviewer = true
          ∧ e.recoveryPinned = true then done (enter s .accepted e)
      else (s, .conflict)
    | .accepted =>
      if c = .commit ∧ e.commitApproved = true ∧ e.independentReviewer = true
          ∧ e.incidentsClear = true then done (enter s .committed e)
      else (s, .conflict)
    | .committed | .rejected | .quarantined => (s, .conflict)

/-! ### What an accepted step does -/

/-- A healthy observation of the canary. -/
def Healthy (c : Command) (e : Evidence) : Prop :=
  c = .observeHealthy ∧ e.canaryHealthy = true ∧ e.clusterHealthy = true ∧ e.incidentsClear = true

/-- The step that the command makes from `s` to the working copy `n`. -/
inductive Moves (s : State) (c : Command) (e : Evidence) : State → Prop
  | quarantine (hc : c = .quarantine) : Moves s c e (enter s .quarantined e)
  | reject (hc : c = .reject) (hs : s.current ≠ .committed) :
      Moves s c e (enter s .rejected e)
  | staged (hs : s.current = .proposed) (hc : c = .recordStaged) (hv : e.stageVerified = true)
      (hb : e.baseline = s.baseline) (hr : e.recovery = s.recovery)
      (hp : e.recoveryPinned = true) : Moves s c e (enter s .staged e)
  | canary (hs : s.current = .staged) (hc : c = .beginCanary) (hi : e.incidentsClear = true) :
      Moves s c e { enter s .canary e with healthySamples := 0 }
  | sample (hs : s.current = .canary) (hh : Healthy c e) :
      Moves s c e { s with healthySamples := s.healthySamples + 1 }
  | verified (hs : s.current = .canary) (hh : Healthy c e) (h3 : 3 ≤ s.healthySamples + 1)
      (hm : (s.enteredAt : ℕ) + e.minimumSoakMs ≤ e.now) :
      Moves s c e { enter s .verified e with healthySamples := s.healthySamples + 1 }
  | accepted (hs : s.current = .verified) (hc : c = .acceptChange)
      (ha : e.acceptanceApproved = true) (hi : e.independentReviewer = true) :
      Moves s c e (enter s .accepted e)
  | committed (hs : s.current = .accepted) (hc : c = .commit) (ha : e.commitApproved = true)
      (hr : e.independentReviewer = true) (hi : e.incidentsClear = true) :
      Moves s c e (enter s .committed e)

/-- **What an accepted step does**, guards included. -/
theorem step_ok {s s' : State} {c : Command} {e : Evidence} (h : step s c e = (s', .ok)) :
    (s.enteredAt : ℕ) ≤ e.now ∧ ∃ n, Moves s c e n ∧ s' = (done n).1 := by
  unfold step at h
  obtain ⟨hg, h⟩ := passes h (by decide)
  push Not at hg
  have hn : (s.enteredAt : ℕ) ≤ e.now := hg.2.2.2.2.2.2
  refine ⟨hn, ?_⟩
  have fin : ∀ {n}, Moves s c e n → done n = (s', .ok) → ∃ n, Moves s c e n ∧ s' = (done n).1 :=
    fun hm hd => ⟨_, hm, by rw [hd]⟩
  split at h
  · exact fin (.quarantine ‹_›) h
  split at h
  · rename_i hr
    obtain ⟨-, h⟩ := passes' h (by decide)
    exact fin (.reject hr.1 hr.2.1) h
  cases hs : s.current with
  | proposed =>
    simp only [hs] at h
    obtain ⟨⟨hc, h1, h2, h3, h4⟩, h⟩ := passes' h (by decide)
    exact fin (.staged hs hc h1 h2 h3 h4) h
  | staged =>
    simp only [hs] at h
    obtain ⟨⟨hc, h1⟩, h⟩ := passes' h (by decide)
    exact fin (.canary hs hc h1) h
  | canary =>
    simp only [hs] at h
    obtain ⟨⟨hc, h1, h2, h3, -⟩, h⟩ := passes' h (by decide)
    split at h
    · rename_i hv
      exact fin (.verified hs ⟨hc, h1, h2, h3⟩ hv.1 (by omega)) h
    · exact fin (.sample hs ⟨hc, h1, h2, h3⟩) (by simpa only [hs] using h)
  | verified =>
    simp only [hs] at h
    obtain ⟨⟨hc, h1, h2, -⟩, h⟩ := passes' h (by decide)
    exact fin (.accepted hs hc h1 h2) h
  | accepted =>
    simp only [hs] at h
    obtain ⟨⟨hc, h1, h2, h3⟩, h⟩ := passes' h (by decide)
    exact fin (.committed hs hc h1 h2 h3) h
  | committed | rejected | quarantined =>
    simp only [hs] at h
    exact absurd (Prod.mk.inj h).2 (by decide)

/-- A step that is not accepted changes nothing. -/
theorem step_stays (s : State) (c : Command) (e : Evidence) : Stays .ok s (step s c e) := by
  refine .ite ?_
  split
  · exact stays_done
  split
  · exact .ite' stays_done
  cases s.current with
  | committed | rejected | quarantined => exact stays_refused
  | canary =>
    refine .ite' ?_
    split
    · exact stays_done
    · exact stays_done
  | proposed | staged | verified | accepted => exact .ite' stays_done

/-! ### Runs -/

/-- A command with its evidence, as it is put to `step`. -/
abbrev stepOf (s : State) (c : Command × Evidence) : State × Outcome := step s c.1 c.2

abbrev Step : Type := Entry State (Command × Evidence) Outcome

/-- The time of a step. -/
def nowOf (h : Step) : ℕ := h.call.2.now

/-- The step stages the generation of `s`. -/
def StagedBy (s : State) (h : Step) : Prop :=
  h.call.1 = .recordStaged ∧ h.call.2.stageVerified = true ∧ h.call.2.baseline = s.baseline
    ∧ h.call.2.recovery = s.recovery ∧ h.call.2.recoveryPinned = true

/-- The step begins the canary, after `st`. -/
def CanaryBy (st h : Step) : Prop :=
  h.call.1 = .beginCanary ∧ h.call.2.incidentsClear = true ∧ nowOf st ≤ nowOf h

def HealthyStep (h : Step) : Prop := Healthy h.call.1 h.call.2

/-- The observation is the last of at least three of the canary that `ca` began, and it is made
its soak time after that. -/
def VerifiedBy (ca : Step) (obs : List Step) (h : Step) : Prop :=
  (∀ o ∈ obs, HealthyStep o) ∧ HealthyStep h ∧ 3 ≤ (obs ++ [h]).length
    ∧ nowOf ca + h.call.2.minimumSoakMs ≤ nowOf h

def AcceptedBy (last h : Step) : Prop :=
  h.call.1 = .acceptChange ∧ h.call.2.acceptanceApproved = true
    ∧ h.call.2.independentReviewer = true ∧ nowOf last ≤ nowOf h

def CommittedBy (ac h : Step) : Prop :=
  h.call.1 = .commit ∧ h.call.2.commitApproved = true ∧ h.call.2.independentReviewer = true
    ∧ h.call.2.incidentsClear = true ∧ nowOf ac ≤ nowOf h

/-- The history of a generation that is in its canary. -/
def Tried (s : State) (l : List Step) (ca : Step) (obs : List Step) : Prop :=
  ∃ st, l = st :: ca :: obs ∧ StagedBy s st ∧ CanaryBy st ca

/-- The history of a generation that is verified: all of it is accounted for. -/
def Proved (s : State) (l : List Step) (last : Step) : Prop :=
  ∃ ca obs l', l = l' ++ [last] ∧ Tried s l' ca obs ∧ VerifiedBy ca obs last

/-- What the phase tells of the history. -/
def Past (l : List Step) (s : State) : Prop :=
  match s.current with
  | .proposed => l = []
  | .staged => ∃ st, l = [st] ∧ StagedBy s st ∧ (s.enteredAt : ℕ) = nowOf st
  | .canary => ∃ ca obs, Tried s l ca obs ∧ (∀ o ∈ obs, HealthyStep o)
      ∧ s.healthySamples = obs.length ∧ (s.enteredAt : ℕ) = nowOf ca
  | .verified => ∃ last, Proved s l last ∧ (s.enteredAt : ℕ) = nowOf last
  | .accepted => ∃ l' last ac, l = l' ++ [ac] ∧ Proved s l' last ∧ AcceptedBy last ac
      ∧ (s.enteredAt : ℕ) = nowOf ac
  | .committed => ∃ l' last ac co, l = l' ++ [ac, co] ∧ Proved s l' last ∧ AcceptedBy last ac
      ∧ CommittedBy ac co
  | .rejected | .quarantined => True

lemma past_step {l : List Step} {s s' : State} {h : Step} (hp : Past l s)
    (h1 : Accepted stepOf .ok s h s') : Past (l ++ [h]) s' := by
  obtain ⟨rfl, -, h2⟩ := h1
  obtain ⟨hn, n, hm, rfl⟩ := step_ok h2
  unfold Past at hp
  cases hm with
  | quarantine | reject => trivial
  | staged hs hc hv hb hr hpin =>
    rw [hs] at hp
    exact ⟨h, by rw [hp]; rfl, ⟨hc, hv, hb, hr, hpin⟩, rfl⟩
  | canary hs hc hi =>
    rw [hs] at hp
    obtain ⟨st, rfl, h3, h4⟩ := hp
    exact ⟨h, [], ⟨st, rfl, h3, hc, hi, by rwa [← h4]⟩, by simp, rfl, rfl⟩
  | sample hs hh =>
    rw [hs] at hp
    obtain ⟨ca, obs, ⟨st, rfl, h3, h4⟩, h5, h6, h7⟩ := hp
    unfold Past done
    dsimp only
    rw [hs]
    refine ⟨ca, obs ++ [h], ⟨st, rfl, h3, h4⟩, ?_, by simp [h6], h7⟩
    simp only [List.mem_append, List.mem_singleton]
    rintro o (ho | rfl)
    · exact h5 o ho
    · exact hh
  | verified hs hh h3 hsoak =>
    rw [hs] at hp
    obtain ⟨ca, obs, ht, h5, h6, h7⟩ := hp
    refine ⟨h, ⟨ca, obs, l, rfl, ht, h5, hh, ?_, ?_⟩, rfl⟩
    · rw [List.length_append, ← h6]
      exact h3
    · rw [← h7]
      exact hsoak
  | accepted hs hc ha hi =>
    rw [hs] at hp
    obtain ⟨last, h3, h4⟩ := hp
    exact ⟨l, last, h, rfl, h3, ⟨hc, ha, hi, by rwa [← h4]⟩, rfl⟩
  | committed hs hc ha hr hi =>
    rw [hs] at hp
    obtain ⟨l', last, ac, rfl, h3, h4, h5⟩ := hp
    exact ⟨l', last, ac, h, by simp, h3, h4, hc, ha, hr, hi, by rwa [← h5]⟩

/-- The generation that a state is about. -/
def Same (s s' : State) : Prop :=
  s'.generationId = s.generationId ∧ s'.baseline = s.baseline ∧ s'.recovery = s.recovery
    ∧ s'.sequenceNumber = s.sequenceNumber

lemma step_same {s s' : State} {h : Step} (h1 : Accepted stepOf .ok s h s') : Same s s' := by
  obtain ⟨rfl, -, h2⟩ := h1
  obtain ⟨-, n, hm, rfl⟩ := step_ok h2
  cases hm <;> exact ⟨rfl, rfl, rfl, rfl⟩

lemma run_same {l : List Step} {s₀ s : State} (hr : Run (Accepted stepOf .ok) s₀ l s) :
    Same s₀ s := by
  refine hr.rel (fun _ => ⟨rfl, rfl, rfl, rfl⟩) ?_ fun _ _ _ => step_same
  rintro s t u ⟨h1, h2, h3, h4⟩ ⟨h5, h6, h7, h8⟩
  exact ⟨h5.trans h1, h6.trans h2, h7.trans h3, h8.trans h4⟩

/-- The generation is given up. -/
def Ended (s : State) : Prop := s.current = .quarantined ∨ s.current = .rejected

lemma step_ended {s s' : State} {h : Step} (hs : Ended s) (h1 : Accepted stepOf .ok s h s') :
    Ended s' := by
  obtain ⟨rfl, -, h2⟩ := h1
  obtain ⟨-, n, hm, rfl⟩ := step_ok h2
  unfold Ended at hs
  cases hm with
  | quarantine => exact .inl rfl
  | reject => exact .inr rfl
  | staged h3 | canary h3 | sample h3 | verified h3 | accepted h3 | committed h3 => simp [h3] at hs

/-- The generation has an identity, a baseline, a recovery image and a number. -/
def Named (s : State) : Prop :=
  s.generationId ≠ zeroDigest ∧ s.baseline ≠ zeroDigest ∧ s.recovery ≠ zeroDigest
    ∧ (s.sequenceNumber : ℕ) ≠ 0

instance (s : State) : Decidable (Named s) := by
  unfold Named
  infer_instance

lemma step_quarantine {s : State} {e : Evidence} (hs : Named s)
    (hr : e.expectedRevision = s.revision) (hl : (s.revision : ℕ) < Counter.last)
    (hn : (s.enteredAt : ℕ) ≤ e.now) :
    step s .quarantine e = done (enter s .quarantined e) := by
  obtain ⟨h1, h2, h3, h4⟩ := hs
  unfold step
  rw [if_neg (by simp [h1, h2, h3, h4, hr]; omega), if_pos rfl]

/-- **What lies behind a committed generation**: the history is a staging, a canary, at least
three observations of its health, the last of them after the soak time, an acceptance and a
commit, each with its evidence and in the order of time. The generation stays the same, it can
be quarantined from every state, and one that is given up is not committed any more. -/
theorem committed_history {l : List Step} {s₀ s : State} (h0 : s₀.current = .proposed)
    (hid : Named s₀) (hr : Run (Accepted stepOf .ok) s₀ l s) :
    (s.current = .committed → ∃ st ca obs last ac co, l = st :: ca :: obs ++ [last, ac, co] ∧
      StagedBy s st ∧ CanaryBy st ca ∧ VerifiedBy ca obs last ∧ AcceptedBy last ac ∧
      CommittedBy ac co) ∧
    Same s₀ s ∧
    (∀ e, e.expectedRevision = s.revision → (s.enteredAt : ℕ) ≤ e.now →
      (s.revision : ℕ) < Counter.last →
      (step s .quarantine e).2 = .ok ∧ (step s .quarantine e).1.current = .quarantined) ∧
    ∀ l' s', Run (Accepted stepOf .ok) s l' s' → Ended s → s'.current ≠ .committed := by
  have hsame : Same s₀ s := run_same hr
  refine ⟨fun hc => ?_, hsame, fun e h1 h2 h3 => ?_, fun l' s' hr' he => ?_⟩
  · have hp : Past l s :=
      hr.history (by unfold Past; rw [h0]) fun _ _ _ _ _ => past_step
    unfold Past at hp
    rw [hc] at hp
    obtain ⟨-, last, ac, co, rfl, ⟨ca, obs, -, rfl, ⟨st, rfl, h1, h2⟩, h3⟩, h4, h5⟩ := hp
    exact ⟨st, ca, obs, last, ac, co, by simp, h1, h2, h3, h4, h5⟩
  · have hs : Named s := by
      obtain ⟨h4, h5, h6, h7⟩ := hsame
      unfold Named
      rwa [h4, h5, h6, h7]
    rw [step_quarantine hs h1 h3 h2]
    exact ⟨rfl, rfl⟩
  · rcases hr'.invariant he fun _ _ _ => step_ended with h1 | h1 <;> simp [h1]

/-- A proposed generation. -/
def someGeneration : State where
  generationId := Block.fill 32 1
  baseline := Block.fill 32 2
  recovery := Block.fill 32 3
  sequenceNumber := 1

/-- The evidence for the step at revision `r`. -/
def evidenceAt (r : Counter) : Evidence where
  expectedRevision := r
  now := r + 100
  minimumSoakMs := 3
  baseline := Block.fill 32 2
  recovery := Block.fill 32 3
  stageVerified := true
  canaryHealthy := true
  clusterHealthy := true
  recoveryPinned := true
  incidentsClear := true
  acceptanceApproved := true
  commitApproved := true
  independentReviewer := true

/-- From the proposal to the commit. -/
def someCalls : List (Command × Evidence) :=
  [(.recordStaged, evidenceAt 0), (.beginCanary, evidenceAt 1), (.observeHealthy, evidenceAt 2),
    (.observeHealthy, evidenceAt 3), (.observeHealthy, evidenceAt 4), (.acceptChange, evidenceAt 5),
    (.commit, evidenceAt 6)]

theorem committed_history_someCalls :
    (after stepOf someGeneration someCalls).current = .committed ∧
    ∃ st ca obs last ac co,
      history stepOf someGeneration someCalls = st :: ca :: obs ++ [last, ac, co] ∧
      StagedBy (after stepOf someGeneration someCalls) st ∧ CanaryBy st ca ∧
      VerifiedBy ca obs last ∧ AcceptedBy last ac ∧ CommittedBy ac co := by
  have h : (after stepOf someGeneration someCalls).current = .committed := by decide +kernel
  exact ⟨h, (committed_history rfl (by decide +kernel)
    (run_history_accepted (by decide +kernel))).1 h⟩

/-! ### The way out of the canary -/

/-- Evidence that the canary of `s` is healthy and has had its soak time. -/
structure Soaked (s : State) (e : Evidence) : Prop where
  revision : e.expectedRevision = s.revision
  canary : e.canaryHealthy = true
  cluster : e.clusterHealthy = true
  incidents : e.incidentsClear = true
  soak : (s.enteredAt : ℕ) + e.minimumSoakMs ≤ e.now

/-- The observation is accepted, and it verifies the generation. -/
def Promoted (s : State) (e : Evidence) : Prop :=
  (step s .observeHealthy e).2 = .ok ∧ (step s .observeHealthy e).1.current = .verified

/-- The healthy observations that were accepted. -/
def samples (l : List Step) : List Step :=
  (accepted .ok l).filter fun h => h.call.1 = .observeHealthy

lemma promoted_iff {s : State} {e : Evidence} (hn : Named s) (hc : s.current = .canary)
    (h2 : 2 ≤ s.healthySamples) (hl : (s.revision : ℕ) < Counter.last) (he : Soaked s e) :
    Promoted s e ↔ s.healthySamples < 255 := by
  obtain ⟨h3, h4, h5, h6⟩ := hn
  obtain ⟨hr, hca, hcl, hi, hsoak⟩ := he
  have hnow : (s.enteredAt : ℕ) ≤ e.now := by omega
  have hs : (e.minimumSoakMs : ℕ) ≤ e.now - s.enteredAt := by omega
  unfold Promoted step
  rw [if_neg (by simp [h3, h4, h5, h6, hr]; omega), if_neg (by decide), if_neg (by simp)]
  simp only [hc, hca, hcl, hi, true_and]
  by_cases h7 : s.healthySamples < 255
  · rw [if_pos h7, if_pos ⟨by omega, hs⟩]
    exact iff_of_true ⟨rfl, rfl⟩ h7
  · rw [if_neg h7]
    exact iff_of_false (fun h => by cases h.1) h7

/-- A generation that has begun its canary has a name. -/
lemma named_of_past {l : List Step} {s₀ s : State} (h0 : s₀.current = .proposed)
    (hr : Run (Accepted stepOf .ok) s₀ l s) (hc : s.current ≠ .proposed) : Named s := by
  suffices hi : s.current = .proposed ∨ Named s from hi.resolve_left hc
  refine hr.invariant (I := fun s => s.current = .proposed ∨ Named s) (.inl h0) ?_
  rintro s h s' - ⟨rfl, -, h2⟩
  obtain ⟨-, n, hm, rfl⟩ := step_ok h2
  have hn : Named h.before := by
    unfold stepOf step at h2
    obtain ⟨hg, -⟩ := passes h2 (by decide)
    push Not at hg
    exact ⟨hg.1, hg.2.1, hg.2.2.1, hg.2.2.2.1⟩
  right
  cases hm <;> exact hn

/-- **When a healthy canary is promoted.** In every run, an observation that has everything it
needs is accepted, and verifies the generation, as long as fewer than 255 samples of the canary
have been accepted; after that it is refused. -/
theorem canary_promoted {l : List Step} {s₀ s : State} (h0 : s₀.current = .proposed)
    (hr : Run (Called stepOf) s₀ l s) (hc : s.current = .canary) (h2 : 2 ≤ s.healthySamples)
    (hl : (s.revision : ℕ) < Counter.last) {e : Evidence} (he : Soaked s e) :
    s.healthySamples = (samples l).length ∧ (Promoted s e ↔ (samples l).length < 255) := by
  have ha : Run (Accepted stepOf .ok) s₀ (accepted .ok l) s :=
    run_accepted (fun s a => step_stays s a.1 a.2) hr
  have hn : Named s := named_of_past h0 ha (by simp [hc])
  have hp : Past (accepted .ok l) s :=
    ha.history (by unfold Past; rw [h0]) fun _ _ _ _ _ => past_step
  unfold Past at hp
  rw [hc] at hp
  obtain ⟨ca, obs, ⟨st, hst, h3, h4⟩, hobs, hlen, -⟩ := hp
  have hs : samples l = obs := by
    unfold samples
    rw [hst, List.filter_cons_of_neg (by simp [h3.1]), List.filter_cons_of_neg (by simp [h4.1])]
    exact List.filter_eq_self.2 fun o ho => by simpa using (hobs o ho).1
  rw [hs, ← hlen]
  exact ⟨rfl, promoted_iff hn hc h2 hl he⟩

theorem canary_promoted_someCalls :
    Promoted (after stepOf someGeneration (someCalls.take 4)) (evidenceAt 4) := by
  have h := canary_promoted (show someGeneration.current = .proposed from rfl)
    (run_history stepOf someGeneration (someCalls.take 4)) (by decide +kernel) (by decide +kernel)
    (by decide +kernel) (e := evidenceAt 4) (by constructor <;> decide +kernel)
  exact h.2.2 (by decide +kernel)

/-- A healthy observation at revision `r`, long before the soak time is over. -/
def earlyAt (r : ℕ) : Command × Evidence :=
  (.observeHealthy, { evidenceAt (Counter.ofNat r) with minimumSoakMs := 1000 })

/-- A canary that is seen healthy 255 times before its soak time is over. -/
def longSoak : List (Command × Evidence) :=
  someCalls.take 2 ++ (List.range' 2 255).map earlyAt

/-- Evidence that the soak time of that canary is over. -/
def soakedEvidence : Evidence :=
  { evidenceAt 257 with now := 2000, minimumSoakMs := 1000 }

theorem canary_wedged :
    ¬ ∀ (l : List Step) (s₀ s : State), s₀.current = .proposed → Run (Called stepOf) s₀ l s →
      s.current = .canary → 2 ≤ s.healthySamples → (s.revision : ℕ) < Counter.last →
      ∀ e, Soaked s e → Promoted s e := by
  intro h
  have hw : after stepOf someGeneration longSoak = { someGeneration with
      revision := 257, enteredAt := 101, current := .canary, healthySamples := 255 } := by
    decide +kernel
  have hp := h _ someGeneration _ rfl (run_history stepOf someGeneration longSoak)
    (by rw [hw]) (by rw [hw]; decide) (by rw [hw]; decide) soakedEvidence
    (by rw [hw]; constructor <;> decide +kernel)
  rw [hw] at hp
  exact absurd hp.1 (by decide +kernel)

end NiayanAssurance.Generation
