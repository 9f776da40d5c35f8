import Mathlib.Data.List.Induction

/-!
Finite runs of a labelled transition relation, and the rules by which a fact about one step
becomes a fact about every run.

A run carries the list of its labels, oldest first: a property of a run may speak of the
state reached, of the labels, or of both. Runs grow at the end, so that an induction on a
run meets the last step last.
-/

namespace NiayanAssurance.Lib

variable {σ α : Type*}

/-- `Run step s₀ l s`: the labels `l`, oldest first, lead from `s₀` to `s`. -/
inductive Run (step : σ → α → σ → Prop) (s₀ : σ) : List α → σ → Prop
  | nil : Run step s₀ [] s₀
  | snoc {l : List α} {s : σ} {a : α} {s' : σ} :
      Run step s₀ l s → step s a s' → Run step s₀ (l ++ [a]) s'

namespace Run

variable {step : σ → α → σ → Prop} {s₀ s s' : σ} {l l' : List α} {a : α}

lemma single (h : step s a s') : Run step s [a] s' := by
  simpa using Run.snoc Run.nil h

/-- **The invariant rule**: what holds at the start and is kept by a step holds at the
end. -/
theorem invariant {I : σ → Prop} (h : Run step s₀ l s) (h0 : I s₀)
    (hs : ∀ s a s', I s → step s a s' → I s') : I s := by
  induction h with
  | nil => exact h0
  | snoc _ h1 ih => exact hs _ _ _ ih h1

/-- **The history rule**: an invariant of the labels so far and of the state reached. The
step may use that the state before it was reached by a run. -/
theorem history {I : List α → σ → Prop} (h : Run step s₀ l s) (h0 : I [] s₀)
    (hs : ∀ l s a s', Run step s₀ l s → I l s → step s a s' → I (l ++ [a]) s') : I l s := by
  induction h with
  | nil => exact h0
  | snoc hr h1 ih => exact hs _ _ _ _ hr ih h1

/-- A preorder that every step climbs is climbed by every run. -/
theorem rel {R : σ → σ → Prop} (h : Run step s₀ l s) (hrefl : ∀ s, R s s)
    (htrans : ∀ s t u, R s t → R t u → R s u) (hs : ∀ s a s', step s a s' → R s s') :
    R s₀ s :=
  h.invariant (hrefl s₀) fun _ _ _ ih h1 => htrans _ _ _ ih (hs _ _ _ h1)

theorem append (h : Run step s₀ l s) (h' : Run step s l' s') : Run step s₀ (l ++ l') s' := by
  induction h' with
  | nil => simpa using h
  | snoc _ h1 ih => rw [← List.append_assoc]; exact ih.snoc h1

theorem snoc_inv (h : Run step s₀ (l ++ [a]) s') : ∃ s, Run step s₀ l s ∧ step s a s' := by
  generalize hm : l ++ [a] = m at h
  cases h with
  | nil => simp at hm
  | snoc hr h1 =>
    obtain ⟨rfl, h2⟩ := List.append_inj' hm rfl
    cases h2
    exact ⟨_, hr, h1⟩

/-- A run may be cut between any two of its labels. -/
theorem split (h : Run step s₀ (l ++ l') s') : ∃ s, Run step s₀ l s ∧ Run step s l' s' := by
  induction l' using List.reverseRecOn generalizing s' with
  | nil => exact ⟨s', by simpa using h, .nil⟩
  | append_singleton l' a ih =>
    rw [← List.append_assoc] at h
    obtain ⟨t, ht, h1⟩ := h.snoc_inv
    obtain ⟨s, hs, hr⟩ := ih ht
    exact ⟨s, hs, hr.snoc h1⟩

theorem nil_inv (h : Run step s₀ [] s) : s = s₀ := by
  generalize hm : ([] : List α) = m at h
  cases h with
  | nil => rfl
  | snoc _ _ => simp at hm

/-- A run with a first label takes that step first. -/
theorem cons_inv (h : Run step s₀ (a :: l) s') : ∃ s, step s₀ a s ∧ Run step s l s' := by
  rw [← List.singleton_append] at h
  obtain ⟨s, h1, h2⟩ := h.split
  obtain ⟨t, ht, hs⟩ := snoc_inv (l := []) h1
  cases ht.nil_inv
  exact ⟨s, hs, h2⟩

/-- Every label of a run is one of its steps. -/
theorem mem_step (h : Run step s₀ l s') (ha : a ∈ l) :
    ∃ l₁ l₂ s t, l = l₁ ++ a :: l₂ ∧ Run step s₀ l₁ s ∧ step s a t ∧ Run step t l₂ s' := by
  obtain ⟨l₁, l₂, rfl⟩ := List.append_of_mem ha
  obtain ⟨s, h1, h2⟩ := h.split
  obtain ⟨t, hst, h3⟩ := h2.cons_inv
  exact ⟨l₁, l₂, s, t, rfl, h1, hst, h3⟩

/-- A run of one relation is a run of any that allows its steps. -/
theorem mono {step' : σ → α → σ → Prop} (h : Run step s₀ l s)
    (hs : ∀ s a s', step s a s' → step' s a s') : Run step' s₀ l s := by
  induction h with
  | nil => exact .nil
  | snoc _ h1 ih => exact ih.snoc (hs _ _ _ h1)

end Run

/-! ### Machines that answer every call -/

section Machine

variable {β : Type*} {step : σ → α → σ × β} {s : σ} {calls more : List α}

/-- A list of calls put to a machine: the calls with their answers, and the state reached. -/
def exec (step : σ → α → σ × β) (s : σ) (calls : List α) : List (α × β) × σ :=
  calls.foldl (fun x a => (x.1 ++ [(a, (step x.2 a).2)], (step x.2 a).1)) ([], s)

/-- The transition relation of a machine, labelled by call and answer. -/
def Steps (step : σ → α → σ × β) (s : σ) (l : α × β) (s' : σ) : Prop := step s l.1 = (s', l.2)

@[simp] lemma exec_nil : exec step s [] = ([], s) := rfl

lemma exec_snoc (calls : List α) (a : α) :
    exec step s (calls ++ [a]) =
      ((exec step s calls).1 ++ [(a, (step (exec step s calls).2 a).2)],
        (step (exec step s calls).2 a).1) := by
  simp [exec, List.foldl_append]

lemma exec_append (calls more : List α) :
    (exec step s (calls ++ more)).2 = (exec step (exec step s calls).2 more).2 := by
  induction more using List.reverseRecOn with
  | nil => simp
  | append_singleton more a ih => rw [← List.append_assoc, exec_snoc, exec_snoc, ih]

/-- The calls put to a machine are a run of its transition relation. -/
theorem run_exec (step : σ → α → σ × β) (s : σ) (calls : List α) :
    Run (Steps step) s (exec step s calls).1 (exec step s calls).2 := by
  induction calls using List.reverseRecOn with
  | nil => exact .nil
  | append_singleton calls a ih => rw [exec_snoc]; exact ih.snoc rfl

/-- What no call undoes stays as it is. -/
theorem exec_keeps {I : σ → Prop} (hs : ∀ s a, I s → I (step s a).1) (h : I s)
    (calls : List α) : I (exec step s calls).2 := by
  induction calls using List.reverseRecOn with
  | nil => exact h
  | append_singleton calls a ih => rw [exec_snoc]; exact hs _ _ ih

end Machine

end NiayanAssurance.Lib
