import NiayanAssurance.IncidentsRuns

/-!
What a closed incident stands for after further faults have been taken up. A fault that requires
isolation opens the incident again; one that does not is counted, and the incident stays closed.
-/

namespace NiayanAssurance.IncidentsClosed

open NiayanAssurance.Lib NiayanAssurance.Types NiayanAssurance.Incidents
open NiayanAssurance.IncidentsRuns

/-- Since its last fault the history has seen three observations of health, and the close. -/
def Cleared (l : List Step) : Prop :=
  ∃ f post, Since l f post ∧ 3 ≤ (events post).count .observeHealthy
    ∧ Event.closeIncident ∈ events post

/-- A fault that is taken up in a closed incident and does not open it again. -/
def Hides (h : Step) : Prop :=
  h.call.1 = .observeFault ∧ h.before.current = .closed ∧ ¬ Isolating h

/-! ### The last fault -/

/-- An element of a history is its last one, or one before. -/
lemma split_snoc {l pre post : List Step} {f h : Step} (hl : l ++ [h] = pre ++ f :: post) :
    (f = h ∧ post = []) ∨ ∃ q, post = q ++ [h] ∧ l = pre ++ f :: q := by
  rcases List.eq_nil_or_concat post with rfl | ⟨q, x, rfl⟩
  · obtain ⟨-, h1⟩ := List.append_inj' hl rfl
    exact .inl ⟨(List.singleton_inj.mp h1).symm, rfl⟩
  · rw [List.concat_eq_append, ← List.cons_append, ← List.append_assoc] at hl
    obtain ⟨h0, h1⟩ := List.append_inj' hl rfl
    obtain rfl := List.singleton_inj.mp h1
    exact .inr ⟨q, List.concat_eq_append, h0⟩

lemma since_snoc_fault {l post : List Step} {f h : Step} (he : h.call.1 = .observeFault) :
    Since (l ++ [h]) f post ↔ f = h ∧ post = [] := by
  constructor
  · rintro ⟨⟨pre, hl⟩, -, hp⟩
    rcases split_snoc hl with h1 | ⟨q, rfl, -⟩
    · exact h1
    · exact absurd (by simp [events, he]) hp
  · rintro ⟨rfl, rfl⟩
    exact since_fault he

lemma since_snoc {l post : List Step} {f h : Step} (he : h.call.1 ≠ .observeFault) :
    Since (l ++ [h]) f post ↔ ∃ q, post = q ++ [h] ∧ Since l f q := by
  constructor
  · rintro ⟨⟨pre, hl⟩, hf, hp⟩
    rcases split_snoc hl with ⟨rfl, -⟩ | ⟨q, rfl, h0⟩
    · exact absurd hf he
    · refine ⟨q, rfl, ⟨pre, h0⟩, hf, fun hm => hp ?_⟩
      rw [events_append]
      exact List.mem_append_left _ hm
  · rintro ⟨q, rfl, hs⟩
    exact hs.snoc he

/-- A history has one last fault. -/
lemma since_unique {l post post' : List Step} {f f' : Step} (h : Since l f post)
    (h' : Since l f' post') : f = f' ∧ post = post' := by
  induction l using List.reverseRecOn generalizing post post' with
  | nil =>
    obtain ⟨⟨pre, hl⟩, -⟩ := h
    simp at hl
  | append_singleton l x ih =>
    by_cases hx : x.call.1 = .observeFault
    · obtain ⟨rfl, rfl⟩ := (since_snoc_fault hx).mp h
      obtain ⟨rfl, rfl⟩ := (since_snoc_fault hx).mp h'
      exact ⟨rfl, rfl⟩
    · obtain ⟨q, rfl, h1⟩ := (since_snoc hx).mp h
      obtain ⟨q', rfl, h2⟩ := (since_snoc hx).mp h'
      obtain ⟨rfl, rfl⟩ := ih h1 h2
      exact ⟨rfl, rfl⟩

/-! ### What a run keeps -/

/-- The last fault of the history does not hide. -/
def Open (l : List Step) : Prop := ∀ f post, Since l f post → ¬ Hides f

/-- The last fault does not hide, unless the incident has stayed closed or has been escalated
since. -/
def Clear (l : List Step) (s : State) : Prop :=
  Open l ∨ s.current = .escalated ∨ s.current = .closed ∧ ∃ f, Since l f [] ∧ Hides f

lemma clear_step {l : List Step} {s s' : State} {h : Step} (hc : Clear l s)
    (h1 : Accepted stepOf .ok s h s') : Clear (l ++ [h]) s' := by
  obtain ⟨rfl, -, h2⟩ := h1
  obtain ⟨-, n, hm, rfl⟩ := step_ok h2
  by_cases he : h.call.1 = .observeFault
  · by_cases hh : Hides h
    · refine .inr (.inr ⟨?_, h, since_fault he, hh⟩)
      rw [he] at hm
      obtain ⟨-, hcl, hi⟩ := hh
      cases hm
      have hi' : ¬ Faults.IsolationRequired h.call.2.fault := hi
      unfold commit withFault
      dsimp only
      rw [if_neg hi', hcl]
      rfl
    · left
      intro f post hs
      obtain ⟨rfl, -⟩ := (since_snoc_fault he).mp hs
      exact hh
  · rcases hc with hc | hc
    · left
      intro f post hs
      obtain ⟨q, -, h3⟩ := (since_snoc he).mp hs
      exact hc f q h3
    · -- Of the other events a closed or escalated incident takes only the escalation.
      have hp : h.before.current = .escalated ∨ h.before.current = .closed :=
        hc.imp id And.left
      right
      left
      generalize hx : h.call.1 = e at hm he
      cases hm with
      | fault => exact absurd rfl he
      | escalate => rfl
      | containment h3 | diagnosis h3 | repair h3 =>
        rcases hp with hp | hp <;> rw [hp] at h3 <;> simp at h3
      | repaired h3 | healthy h3 | close h3 =>
        rcases hp with hp | hp <;> rw [hp] at h3 <;> cases h3

/-- What the history of a closed incident shows when its last fault does not hide. -/
def Shown (l : List Step) (s : State) : Prop := s.current = .closed → Open l → Cleared l

lemma cleared_close {l : List Step} {h : Step} (hr : Recovered 3 l)
    (he : h.call.1 = .closeIncident) : Cleared (l ++ [h]) := by
  obtain ⟨f, a, b, hs, -, -, -, hn⟩ := hr
  refine ⟨f, a ++ b ++ [h], hs.snoc (by rw [he]; decide), ?_, by simp [he]⟩
  have hb : b.countP (fun h => Healthy h) ≤ (events b).count .observeHealthy := by
    rw [events, List.count, List.countP_map]
    refine List.countP_mono_left fun x _ hx => ?_
    simpa using (of_decide_eq_true hx).1
  simp only [events_append, List.count_append]
  omega

lemma shown_step {l : List Step} {s s' : State} {h : Step} (hp : Past l s)
    (h1 : Accepted stepOf .ok s h s') : Shown (l ++ [h]) s' := by
  obtain ⟨rfl, -, h2⟩ := h1
  obtain ⟨-, n, hm, rfl⟩ := step_ok h2
  intro hc ho
  generalize he : h.call.1 = e at hm
  cases hm with
  | fault =>
    -- The incident was closed before, so this very fault hides.
    refine absurd ⟨he, ?_⟩ (ho h [] (since_fault he))
    unfold commit withFault at hc
    dsimp only at hc
    split_ifs at hc with hi hop
    exact ⟨hc, hi⟩
  | close hv hs =>
    unfold Past at hp
    rw [hv] at hp
    exact cleared_close (Recovered.mono hp hs) he
  | healthy hv =>
    exact absurd (hv.symm.trans hc) (by decide)
  | containment | diagnosis | repair | repaired | escalate => cases hc

/-- **A closed incident hides a fault just when its last one was taken up while it was closed
and required no isolation.** So in a run without such faults no incident that is closed hides
any. -/
theorem closed_hides_iff {l : List Step} {s₀ s : State} (h0 : s₀.current = .opened)
    (hr : Run (Accepted stepOf .ok) s₀ l s) :
    (s.current = .closed → (Cleared l ↔ ∀ f post, Since l f post → ¬ Hides f))
      ∧ ((∀ h ∈ l, ¬ Hides h) → s.current = .closed → Cleared l) := by
  have hI : Past l s ∧ Clear l s ∧ Shown l s := by
    refine hr.history (I := fun l s => Past l s ∧ Clear l s ∧ Shown l s) ?_
      fun l s h s' _ hi h1 => ⟨past_step hi.1 h1, clear_step hi.2.1 h1, shown_step hi.1 h1⟩
    refine ⟨by unfold Past; rw [h0]; trivial, .inl ?_, fun hc => ?_⟩
    · rintro f post ⟨⟨pre, hl⟩, -⟩
      simp at hl
    · rw [h0] at hc
      cases hc
  obtain ⟨-, hcl, hsh⟩ := hI
  refine ⟨fun hc => ⟨fun hl => ?_, hsh hc⟩, fun hn hc => hsh hc fun f post hs => ?_⟩
  · rcases hcl with ho | he | ⟨-, f, hf, -⟩
    · exact ho
    · rw [hc] at he
      cases he
    · obtain ⟨f', post, hs, -, hm⟩ := hl
      obtain ⟨-, rfl⟩ := since_unique hf hs
      cases hm
  · obtain ⟨pre, rfl⟩ := hs.1
    exact hn f (by simp)

/-! ### A fault that is hidden -/

/-- A fault of the network that requires no isolation, reported after the close. -/
def lateFault : Faults.Fault :=
  { someFault with
    observedAt := 103, kind := .network, level := .degraded, dataAtRisk := false }

def lateCalls : List (Event × Evidence) :=
  someCalls ++ [(.observeFault, { evidenceAt 9 with now := 103, fault := lateFault })]

/-- A fault is accepted after the close, nothing has been accepted since, and the incident is
closed. -/
theorem closed_hides_fault :
    ∃ l s, someIncident.current = .opened ∧ Run (Accepted stepOf .ok) someIncident l s
      ∧ s.current = .closed ∧ ¬ Cleared l := by
  refine ⟨history stepOf someIncident lateCalls, after stepOf someIncident lateCalls, rfl,
    run_history_accepted (by decide +kernel), by decide +kernel, ?_⟩
  rintro ⟨f, post, hs, -, hm⟩
  rw [lateCalls, history_snoc] at hs
  obtain ⟨-, rfl⟩ := (since_snoc_fault rfl).mp hs
  cases hm

/-- Up to the close nothing is hidden. -/
theorem closed_hides_iff_someCalls :
    (after stepOf someIncident someCalls).current = .closed
      ∧ Cleared (history stepOf someIncident someCalls) := by
  have hc : (after stepOf someIncident someCalls).current = .closed := by decide +kernel
  refine ⟨hc, (closed_hides_iff rfl (run_history_accepted (by decide +kernel))).2 ?_ hc⟩
  have hn : ∀ h ∈ history stepOf someIncident someCalls,
      ¬ (h.call.1 = .observeFault ∧ h.before.current = .closed) := by decide +kernel
  exact fun h hh hd => hn h hh ⟨hd.1, hd.2.1⟩

end NiayanAssurance.IncidentsClosed
