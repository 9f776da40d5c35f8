import NiayanAssurance.Lib.Run
import NiayanAssurance.Lib.Guard

/-!
Runs of a machine that answers every call, with each call written down as it was put: the state
before it, the call and the answer.
-/

namespace NiayanAssurance.Lib

/-- A call in the history of a machine. -/
structure Entry (σ α ω : Type) where
  before : σ
  call : α
  answer : ω

variable {σ α ω : Type} {step : σ → α → σ × ω} {o : ω} {s s' : σ} {h : Entry σ α ω}
  {l : List (Entry σ α ω)}

/-- One call put to the machine. -/
def Called (step : σ → α → σ × ω) (s : σ) (h : Entry σ α ω) (s' : σ) : Prop :=
  h.before = s ∧ step s h.call = (s', h.answer)

/-- One call that is answered with `o`. -/
def Accepted (step : σ → α → σ × ω) (o : ω) (s : σ) (h : Entry σ α ω) (s' : σ) : Prop :=
  h.before = s ∧ h.answer = o ∧ step s h.call = (s', o)

/-- The calls of a history that were answered with `o`. -/
def accepted [DecidableEq ω] (o : ω) (l : List (Entry σ α ω)) : List (Entry σ α ω) :=
  l.filter fun h => h.answer = o

section Filter

variable [DecidableEq ω]

@[simp] lemma accepted_nil : accepted o ([] : List (Entry σ α ω)) = [] := rfl

lemma accepted_snoc_pos (ho : h.answer = o) : accepted o (l ++ [h]) = accepted o l ++ [h] := by
  simp [accepted, ho]

lemma accepted_snoc_neg (ho : h.answer ≠ o) : accepted o (l ++ [h]) = accepted o l := by
  simp [accepted, ho]

/-- Where a refused call changes nothing, the accepted calls of a run are a run. -/
theorem run_accepted (hs : ∀ s a, Stays o s (step s a)) (hr : Run (Called step) s l s') :
    Run (Accepted step o) s (accepted o l) s' := by
  induction hr with
  | nil => exact .nil
  | @snoc l s h s' _ h1 ih =>
    obtain ⟨rfl, h2⟩ := h1
    by_cases ho : h.answer = o
    · rw [accepted_snoc_pos ho]
      exact ih.snoc ⟨rfl, ho, by rw [h2, ho]⟩
    · have hst : (step h.before h.call).1 = h.before := hs _ _ (by rwa [h2])
      rw [h2] at hst
      obtain rfl : s' = h.before := hst
      rw [accepted_snoc_neg ho]
      exact ih

end Filter

/-! ### The history of given calls -/

/-- The history of a list of calls put to the machine. -/
def history (step : σ → α → σ × ω) (s : σ) : List α → List (Entry σ α ω)
  | [] => []
  | a :: calls => ⟨s, a, (step s a).2⟩ :: history step (step s a).1 calls

/-- The state that it leads to. -/
def after (step : σ → α → σ × ω) (s : σ) : List α → σ
  | [] => s
  | a :: calls => after step (step s a).1 calls

lemma history_snoc (step : σ → α → σ × ω) (s : σ) (calls : List α) (a : α) :
    history step s (calls ++ [a]) = history step s calls
      ++ [⟨after step s calls, a, (step (after step s calls) a).2⟩] := by
  induction calls generalizing s with
  | nil => rfl
  | cons b calls ih => rw [List.cons_append, history, ih]; rfl

theorem run_history (step : σ → α → σ × ω) (s : σ) (calls : List α) :
    Run (Called step) s (history step s calls) (after step s calls) := by
  induction calls generalizing s with
  | nil => exact .nil
  | cons a calls ih =>
    have h1 : Called step s ⟨s, a, (step s a).2⟩ (step s a).1 := ⟨rfl, rfl⟩
    exact (Run.single h1).append (ih _)

theorem run_history_accepted {calls : List α}
    (ho : ∀ h ∈ history step s calls, h.answer = o) :
    Run (Accepted step o) s (history step s calls) (after step s calls) := by
  induction calls generalizing s with
  | nil => exact .nil
  | cons a calls ih =>
    have h1 : (step s a).2 = o := ho _ List.mem_cons_self
    have h2 : Accepted step o s ⟨s, a, (step s a).2⟩ (step s a).1 := ⟨rfl, h1, by rw [← h1]⟩
    exact (Run.single h2).append
      (ih fun h hh => ho h (List.mem_cons_of_mem _ hh))

end NiayanAssurance.Lib
