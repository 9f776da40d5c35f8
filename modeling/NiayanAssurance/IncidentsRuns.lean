import NiayanAssurance.Incidents
import NiayanAssurance.Lib.History
import Mathlib.Tactic.Linarith

/-!
Incidents over whole runs: which steps keep the state valid, and what has happened before an
incident is closed.
-/

namespace NiayanAssurance.IncidentsRuns

open NiayanAssurance.Lib NiayanAssurance.Types NiayanAssurance.Incidents

/-- An event with its evidence, as it is put to `step`. -/
abbrev stepOf (s : State) (c : Event × Evidence) : State × Outcome := step s c.1 c.2

/-! ### Validity -/

/-- The step does not pass the check of the containment receipt by: it neither escalates nor goes
from the correlation to the diagnosis, or there is a receipt already. -/
def Receipted (s : State) (e : Event) : Prop :=
  e = .escalate ∨ e = .beginDiagnosis ∧ s.current = .correlating →
    s.containmentReceipt ≠ zeroDigest

/-- What no event changes. -/
def SameSubject (s n : State) : Prop :=
  n.incidentId = s.incidentId ∧ n.clusterId = s.clusterId ∧ n.resourceId = s.resourceId
    ∧ n.policy = s.policy ∧ n.revision = s.revision ∧ n.firstObserved = s.firstObserved

lemma moves_subject {s n : State} {x : Evidence} {e : Event} (h : Moves s x e n) :
    SameSubject s n ∧ (s.lastObserved : ℕ) ≤ n.lastObserved := by
  cases h with
  | fault _ ht => exact ⟨⟨rfl, rfl, rfl, rfl, rfl, rfl⟩, ht⟩
  | _ => exact ⟨⟨rfl, rfl, rfl, rfl, rfl, rfl⟩, le_rfl⟩

/-- Of `Valid` a step has to establish again only what ties the receipts to the phase. -/
lemma valid_commit {s n : State} {x : Evidence} {e : Event} (hs : Guarded s x)
    (hm : Moves s x e n) :
    Valid (commit x n).1 ↔
      (Phase.contained.pos ≤ n.current.pos → n.containmentReceipt ≠ zeroDigest)
        ∧ (Phase.verifying.pos ≤ n.current.pos → n.current ≠ .escalated →
          n.repairReceipt ≠ zeroDigest) := by
  obtain ⟨⟨h1, h2, h3, h4, h5, h6, h7, -, -⟩, hr, hn⟩ := hs
  obtain ⟨⟨e1, e2, e3, e4, e5, e6⟩, ht⟩ := moves_subject hm
  unfold Valid commit
  dsimp only
  rw [e1, e2, e3, e4, e5, e6]
  have h8 : (s.firstObserved : ℕ) ≤
      ((if (n.lastObserved : ℕ) < x.now then x.now else n.lastObserved : Counter) : ℕ) := by
    split_ifs <;> omega
  have h9 : 0 < (Counter.next s.revision : ℕ) := by
    rw [Counter.val_next hr]
    omega
  exact ⟨fun h => h.2.2.2.2.2.2.2, fun h => ⟨h1, h2, h3, h4, h9, h6, h8, h⟩⟩

/-- An accepted step leads to a valid state just when it is receipted. -/
lemma step_valid_iff {s s' : State} {e : Event} {x : Evidence} (h : step s e x = (s', .ok)) :
    Valid s' ↔ Receipted s e := by
  obtain ⟨hg, n, hm, rfl⟩ := step_ok h
  obtain ⟨-, -, -, -, -, -, -, hc, hr⟩ := id hg.valid
  rw [valid_commit hg hm]
  unfold Receipted
  cases hm with
  | fault hf ht =>
    refine iff_of_true ?_ (by simp)
    unfold withFault
    dsimp only
    split_ifs with h1 h2
    · exact ⟨fun h => absurd h (by simp [Phase.pos]), fun h => absurd h (by simp [Phase.pos])⟩
    · exact ⟨fun h => absurd h (by simp [Phase.pos]), fun h => absurd h (by simp [Phase.pos])⟩
    · exact ⟨hc, hr⟩
  | containment h1 hx =>
    exact iff_of_true ⟨fun _ => hx, fun h => absurd h (by simp [Phase.pos])⟩ (by simp)
  | diagnosis h1 =>
    have h2 : (Phase.verifying.pos ≤ Phase.diagnosing.pos → Phase.diagnosing ≠ .escalated →
        s.repairReceipt ≠ zeroDigest) := fun h => absurd h (by simp [Phase.pos])
    rcases h1 with h1 | h1
    · exact iff_of_true ⟨fun _ => hc (by rw [h1]), h2⟩ (by simp [h1])
    · exact ⟨fun h _ => h.1 (by simp [Phase.pos]), fun h => ⟨fun _ => h (.inr ⟨rfl, h1⟩), h2⟩⟩
  | repair h1 hx =>
    refine iff_of_true ⟨fun _ => hc ?_, fun h => absurd h (by simp [Phase.pos])⟩ (by simp)
    rcases h1 with h1 | h1
    · rw [h1]
      decide
    · rw [h1]
  | repaired h1 hx =>
    exact iff_of_true ⟨fun _ => hc (by rw [h1]; decide), fun _ _ => hx⟩ (by simp)
  | healthy h1 =>
    exact iff_of_true ⟨hc, hr⟩ (by simp)
  | escalate =>
    exact ⟨fun h _ => h.1 (by simp [Phase.pos]), fun h =>
      ⟨fun _ => h (.inl rfl), fun _ hne => absurd rfl hne⟩⟩
  | close h1 hs hcr hrr =>
    exact iff_of_true ⟨fun _ => hcr, fun _ _ => hrr⟩ (by simp)

/-- In a state that is not valid every event is refused. -/
lemma invalid_stuck {s : State} (h : ¬ Valid s) (e : Event) (x : Evidence) :
    step s e x = (s, .denied) := by
  unfold step
  rw [if_pos (.inl h)]

/-- **Which steps keep an incident valid**: an accepted step does so just when it neither
escalates, nor takes up the diagnosis before the containment, without a containment receipt. So
the state that a run leads to is valid just when this holds of every step of the run. -/
theorem valid_kept (s₀ : State) :
    (∀ e x s', Valid s₀ → step s₀ e x = (s', .ok) → (Valid s' ↔ Receipted s₀ e)) ∧
    ∀ l s, Valid s₀ → Run (Accepted stepOf .ok) s₀ l s →
      (Valid s ↔ ∀ h ∈ l, Receipted h.before h.call.1) := by
  refine ⟨fun e x s' _ h => step_valid_iff h, fun l s h0 hr => ?_⟩
  induction hr with
  | nil => exact iff_of_true h0 (by simp)
  | @snoc l s h s' _ h1 ih =>
    obtain ⟨rfl, -, h2⟩ := h1
    -- A step is accepted in a valid state only, so the steps before it were receipted.
    have hv : Valid h.before := (step_ok h2).1.valid
    rw [step_valid_iff h2]
    simp only [List.mem_append, List.mem_singleton]
    constructor
    · rintro h3 h' (h4 | rfl)
      · exact ih.mp hv h' h4
      · exact h3
    · exact fun h3 => h3 h (.inr rfl)

/-- An incident that has just been opened. -/
def someIncident : State where
  incidentId := Block.fill 16 7
  clusterId := Block.fill 16 1
  resourceId := Block.fill 16 3
  policy := Block.fill 32 5
  revision := 1
  firstObserved := 100
  lastObserved := 100

def someEvidence : Evidence := { expectedRevision := 1, now := 101, authenticated := true }

/-- An open incident without receipts is escalated, and nothing is accepted after. -/
theorem escalated_stuck :
    Valid someIncident ∧ someIncident.current = .opened ∧
      (step someIncident .escalate someEvidence).2 = .ok ∧
      ¬ Valid (step someIncident .escalate someEvidence).1 ∧
      ∀ e x, (step (step someIncident .escalate someEvidence).1 e x).2 = .denied := by
  have h : ¬ Valid (step someIncident .escalate someEvidence).1 := by decide +kernel
  exact ⟨by decide +kernel, rfl, by decide +kernel, h, fun e x => by rw [invalid_stuck h]⟩

/-! ### What has happened before an incident is closed -/

abbrev Step : Type := Entry State (Event × Evidence) Outcome

/-- The events of a history, without their evidence. -/
def events (l : List Step) : List Event := l.map fun h => h.call.1

@[simp] lemma events_append (l l' : List Step) : events (l ++ l') = events l ++ events l' :=
  List.map_append

@[simp] lemma events_singleton (h : Step) : events [h] = [h.call.1] := rfl

/-- The last fault that the history `l` has taken up is `f`, and `post` has happened since. -/
def Since (l : List Step) (f : Step) (post : List Step) : Prop :=
  (∃ pre, l = pre ++ f :: post) ∧ f.call.1 = .observeFault ∧ Event.observeFault ∉ events post

lemma since_fault {l : List Step} {h : Step} (he : h.call.1 = .observeFault) :
    Since (l ++ [h]) h [] := ⟨⟨l, rfl⟩, he, by simp [events]⟩

lemma Since.snoc {l post : List Step} {f h : Step} (hs : Since l f post)
    (he : h.call.1 ≠ .observeFault) : Since (l ++ [h]) f (post ++ [h]) := by
  obtain ⟨⟨pre, rfl⟩, h1, h2⟩ := hs
  exact ⟨⟨pre, by simp⟩, h1, by simpa [h2] using he.symm⟩

/-- The fault required that the resource is isolated. -/
def Isolating (f : Step) : Prop := Faults.IsolationRequired f.call.2.fault

/-- An observation of health in the phase that asks for it. -/
def Healthy (h : Step) : Prop := h.call.1 = .observeHealthy ∧ h.before.current = .verifying

instance (h : Step) : Decidable (Healthy h) := by
  unfold Healthy
  infer_instance

/-- After the last fault of `l` the events of `chain` have happened in this order, if that fault
required isolation. -/
def Answered (chain : List Event) (l : List Step) : Prop :=
  ∃ f post, Since l f post ∧ (Isolating f → chain.Sublist (events post))

/-- The history `l` since its last fault: first what answers the fault, then at least `n`
observations of health, and no repair among them. -/
def Recovered (n : ℕ) (l : List Step) : Prop :=
  ∃ f a b, Since l f (a ++ b) ∧
    (Isolating f →
      [Event.confirmContainment, .beginRepair, .recordRepair].Sublist (events a)) ∧
    Event.beginRepair ∉ events b ∧ Event.recordRepair ∉ events b ∧
    n ≤ b.countP fun h => Healthy h

/-- What the phase tells of the history. -/
def Past (l : List Step) (s : State) : Prop :=
  match s.current with
  | .opened | .closed | .escalated => True
  | .containmentRequired => Answered [] l
  | .correlating => ∃ f post, Since l f post ∧ ¬ Isolating f
  | .contained | .diagnosing => Answered [.confirmContainment] l
  | .repairing => Answered [.confirmContainment, .beginRepair] l
  | .verifying => Recovered s.healthySamples l

lemma Answered.mono {chain : List Event} {l : List Step} {h : Step} (ha : Answered chain l)
    (he : h.call.1 ≠ .observeFault) : Answered chain (l ++ [h]) := by
  obtain ⟨f, post, h1, h2⟩ := ha
  refine ⟨f, post ++ [h], h1.snoc he, fun hf => (h2 hf).trans ?_⟩
  rw [events_append]
  exact List.sublist_append_left _ _

lemma Answered.snoc {chain : List Event} {l : List Step} {h : Step} {e : Event}
    (ha : Answered chain l) (he : h.call.1 = e) (hne : e ≠ .observeFault) :
    Answered (chain ++ [e]) (l ++ [h]) := by
  obtain ⟨f, post, h1, h2⟩ := ha
  refine ⟨f, post ++ [h], h1.snoc (he ▸ hne), fun hf => ?_⟩
  rw [events_append, events_singleton, he]
  exact (h2 hf).append (List.Sublist.refl _)

/-- A fault that does not require isolation needs no answer. -/
lemma answered_of_not {chain : List Event} {l : List Step}
    (h : ∃ f post, Since l f post ∧ ¬ Isolating f) : Answered chain l := by
  obtain ⟨f, post, h1, h2⟩ := h
  exact ⟨f, post, h1, fun hf => absurd hf h2⟩

lemma recovered_fault {l : List Step} {h : Step} (he : h.call.1 = .observeFault)
    (hf : ¬ Isolating h) : Recovered 0 (l ++ [h]) :=
  ⟨h, [], [], since_fault he, fun h1 => absurd h1 hf, by simp [events], by simp [events], by simp⟩

lemma recovered_repaired {l : List Step} {h : Step} (he : h.call.1 = .recordRepair)
    (ha : Answered [.confirmContainment, .beginRepair] l) : Recovered 0 (l ++ [h]) := by
  obtain ⟨f, post, h1, h2⟩ := ha.snoc he (by decide)
  exact ⟨f, post, [], by simpa using h1, h2, by simp [events], by simp [events], by simp⟩

lemma Recovered.healthy {n : ℕ} {l : List Step} {h : Step} (hl : Recovered n l)
    (hh : Healthy h) : Recovered (n + 1) (l ++ [h]) := by
  obtain ⟨f, a, b, h1, h2, h3, h4, h5⟩ := hl
  refine ⟨f, a, b ++ [h], ?_, h2, ?_, ?_, ?_⟩
  · have h6 := h1.snoc (h := h) (by rw [hh.1]; decide)
    rwa [List.append_assoc] at h6
  · simpa [hh.1] using h3
  · simpa [hh.1] using h4
  · simpa [List.countP_append, hh] using h5

lemma Recovered.mono {m n : ℕ} {l : List Step} (hl : Recovered n l) (hm : m ≤ n) :
    Recovered m l := by
  obtain ⟨f, a, b, h1, h2, h3, h4, h5⟩ := hl
  exact ⟨f, a, b, h1, h2, h3, h4, hm.trans h5⟩

/-- What a fault leaves of the past. -/
lemma past_fault {l : List Step} {h : Step} (he : h.call.1 = .observeFault) :
    Past (l ++ [h]) (commit h.call.2 (withFault h.before h.call.2)).1 := by
  have hs : Since (l ++ [h]) h [] := since_fault he
  unfold Past commit withFault
  dsimp only
  by_cases hf : Faults.IsolationRequired h.call.2.fault
  · rw [if_pos hf]
    exact ⟨h, [], hs, fun _ => List.nil_sublist _⟩
  · rw [if_neg hf]
    have hc : ∃ f post, Since (l ++ [h]) f post ∧ ¬ Isolating f := ⟨h, [], hs, hf⟩
    split_ifs with ho
    · exact hc
    · cases h.before.current with
      | opened | closed | escalated => trivial
      | correlating => exact hc
      | containmentRequired | contained | diagnosing | repairing => exact answered_of_not hc
      | verifying => exact recovered_fault he hf

/-- Every accepted step keeps what the phase tells of the history. -/
lemma past_step {l : List Step} {s s' : State} {h : Step} (hp : Past l s)
    (h1 : Accepted stepOf .ok s h s') : Past (l ++ [h]) s' := by
  obtain ⟨rfl, -, h2⟩ := h1
  obtain ⟨-, n, hm, rfl⟩ := step_ok h2
  generalize he : h.call.1 = e at hm
  unfold Past at hp
  cases hm with
  | fault => exact past_fault he
  | containment hc =>
    have ha : Answered [] l := by
      rcases hc with hc | hc <;> rw [hc] at hp
      · exact hp
      · exact answered_of_not hp
    exact ha.snoc he (by decide)
  | diagnosis hc =>
    have ha : Answered [.confirmContainment] l := by
      rcases hc with hc | hc <;> rw [hc] at hp
      · exact hp
      · exact answered_of_not hp
    exact ha.mono (by rw [he]; decide)
  | repair hc =>
    have ha : Answered [.confirmContainment] l := by
      rcases hc with hc | hc <;> rw [hc] at hp <;> exact hp
    exact ha.snoc he (by decide)
  | repaired hc =>
    rw [hc] at hp
    exact recovered_repaired he hp
  | healthy hc =>
    rw [hc] at hp
    have hr := (Recovered.healthy hp ⟨he, hc⟩).mono (min_le_right 255 _)
    unfold Past commit
    dsimp only
    rw [hc]
    exact hr
  | escalate | close => trivial

/-- The risk that an incident stands for only grows. -/
def Worsens (s s' : State) : Prop :=
  s.worst.pos ≤ s'.worst.pos ∧ (s.dataAtRisk = true → s'.dataAtRisk = true)
    ∧ (s.executionAtRisk = true → s'.executionAtRisk = true)

lemma step_worsens {s s' : State} {h : Step} (h1 : Accepted stepOf .ok s h s') :
    Worsens s s' := by
  obtain ⟨rfl, -, h2⟩ := h1
  obtain ⟨-, n, hm, rfl⟩ := step_ok h2
  generalize h.call.1 = e at hm
  cases hm with
  | fault =>
    refine ⟨Faults.le_worse_left _ _, fun h3 => ?_, fun h3 => ?_⟩ <;>
      simp [commit, withFault, h3]
  | _ => exact ⟨le_rfl, id, id⟩

lemma run_worsens {l : List Step} {s₀ s : State} (hr : Run (Accepted stepOf .ok) s₀ l s) :
    Worsens s₀ s :=
  hr.rel (fun _ => ⟨le_rfl, id, id⟩)
    (fun _ _ _ h1 h2 => ⟨h1.1.trans h2.1, h2.2.1 ∘ h1.2.1, h2.2.2 ∘ h1.2.2⟩)
    fun _ _ _ => step_worsens

/-- **An incident is closed only after real recovery**: the step that closes it is taken in the
verification, with both receipts, and the history before that step has recovered with three
observations of health. And the risk never shrinks between two states of the run. -/
theorem closed_recovered {l : List Step} {s₀ s : State} (h0 : s₀.current = .opened)
    (hr : Run (Accepted stepOf .ok) s₀ l s) :
    (∀ l₁ h l₂, l = l₁ ++ h :: l₂ → h.call.1 = .closeIncident →
      h.before.current = .verifying ∧ h.before.containmentReceipt ≠ zeroDigest ∧
        h.before.repairReceipt ≠ zeroDigest ∧ Recovered 3 l₁) ∧
    ∀ h ∈ l, Worsens h.before s := by
  constructor
  · rintro l₁ h l₂ rfl he
    obtain ⟨t, h1, h2⟩ := hr.split
    obtain ⟨u, h3, -⟩ := h2.cons_inv
    have hp : Past l₁ t :=
      h1.history (by unfold Past; rw [h0]; trivial) fun _ _ _ _ _ => past_step
    obtain ⟨rfl, -, h4⟩ := h3
    obtain ⟨-, n, hm, -⟩ := step_ok h4
    rw [he] at hm
    cases hm with
    | close hc hs hcr hrr =>
      unfold Past at hp
      rw [hc] at hp
      exact ⟨hc, hcr, hrr, Recovered.mono hp hs⟩
  · intro h hh
    obtain ⟨l₁, l₂, t, u, -, -, h1, h2⟩ := hr.mem_step hh
    have h3 := run_worsens ((Run.single h1).append h2)
    rwa [← h1.1] at h3

/-- A fault that puts data at risk, reported for the incident above. -/
def someFault : Faults.Fault where
  clusterId := Block.fill 16 1
  nodeId := Block.fill 16 2
  resourceId := Block.fill 16 3
  bootId := Block.fill 16 4
  policy := Block.fill 32 5
  syndrome := Block.fill 32 6
  sequenceNumber := 1
  observedAt := 101
  expiresAt := 200
  kind := .storage
  level := .uncorrectable
  nature := .persistent
  quality := .corroborated
  occurrences := 1
  dataAtRisk := true

/-- The evidence for the step at revision `r`. -/
def evidenceAt (r : Counter) : Evidence where
  expectedRevision := r
  now := 102
  fault := someFault
  containment := Block.fill 32 8
  repair := Block.fill 32 9
  stableForMs := 1000
  requiredStableMs := 1000
  authenticated := true
  ownershipSafe := true
  dataConsistent := true
  dependenciesHealthy := true
  noOpenSevereFaults := true

/-- From the fault to the close. -/
def someCalls : List (Event × Evidence) :=
  [(.observeFault, evidenceAt 1), (.confirmContainment, evidenceAt 2), (.beginRepair, evidenceAt 3),
    (.recordRepair, evidenceAt 4), (.observeHealthy, evidenceAt 5), (.observeHealthy, evidenceAt 6),
    (.observeHealthy, evidenceAt 7), (.closeIncident, evidenceAt 8)]

theorem closed_recovered_someCalls :
    (∀ l₁ h l₂, history stepOf someIncident someCalls = l₁ ++ h :: l₂ →
      h.call.1 = .closeIncident →
      h.before.current = .verifying ∧ h.before.containmentReceipt ≠ zeroDigest ∧
        h.before.repairReceipt ≠ zeroDigest ∧ Recovered 3 l₁) ∧
    ∀ h ∈ history stepOf someIncident someCalls,
      Worsens h.before (after stepOf someIncident someCalls) :=
  closed_recovered rfl (run_history_accepted (by decide +kernel))

end NiayanAssurance.IncidentsRuns
