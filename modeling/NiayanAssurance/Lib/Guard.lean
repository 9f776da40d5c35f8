import Mathlib.Tactic.SplitIfs

/-!
Steps written as a cascade of tests: each test that fails ends the step with the state as it was
and a status that says why.
-/

namespace NiayanAssurance.Lib

variable {σ ω : Type} {s s' : σ} {o o' o'' : ω} {r : σ × ω} {c : Prop} [Decidable c]

/-- A step that ends otherwise than the test would end it has passed the test. -/
lemma passes (h : (if c then (s, o) else r) = (s', o')) (ho : o ≠ o') : ¬ c ∧ r = (s', o') := by
  split_ifs at h with hc
  · exact absurd (Prod.mk.inj h).2 ho
  · exact ⟨hc, h⟩

/-- The same where the test is for what the step needs. -/
lemma passes' (h : (if c then r else (s, o)) = (s', o')) (ho : o ≠ o') : c ∧ r = (s', o') := by
  split_ifs at h with hc
  · exact ⟨hc, h⟩
  · exact absurd (Prod.mk.inj h).2 ho

/-- An answer that no test gives when it refuses. -/
lemma refuse_iff (h : c → o ≠ o'') : (if c then o else o') = o'' ↔ ¬ c ∧ o' = o'' := by
  split_ifs with hc
  · exact iff_of_false (h hc) fun h' => h'.1 hc
  · exact (and_iff_right hc).symm

/-! ### Steps that change nothing unless they end as they should -/

/-- The step from `s` with the result `r` changes the state only if it ends with `o`. -/
def Stays (o : ω) (s : σ) (r : σ × ω) : Prop := r.2 ≠ o → r.1 = s

lemma stays_refused : Stays o s (s, o') := fun _ => rfl

lemma stays_done : Stays o s (s', o) := fun h => absurd rfl h

lemma Stays.ite (h : Stays o s r) : Stays o s (if c then (s, o') else r) := by
  split_ifs
  · exact stays_refused
  · exact h

lemma Stays.ite' (h : Stays o s r) : Stays o s (if c then r else (s, o')) := by
  split_ifs
  · exact h
  · exact stays_refused

end NiayanAssurance.Lib
