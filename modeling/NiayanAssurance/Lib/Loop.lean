import Mathlib.Data.List.Induction

/-!
Loops that count up and may end early with an error, and the rules by which an invariant is
carried through them.
-/

namespace NiayanAssurance.Lib

variable {ε σ : Type*}

/-- `body` is run for `0, .., n - 1`, until it ends the loop with an error. -/
abbrev loop (n : ℕ) (body : σ → ℕ → Except ε σ) (s : σ) : Except ε σ :=
  (List.range n).foldlM body s

namespace loop

variable {f : σ → ℕ → Except ε σ} {a s : σ} {n : ℕ} {I : ℕ → σ → Prop}

lemma zero : loop 0 f a = .ok a := rfl

lemma succ (n : ℕ) (f : σ → ℕ → Except ε σ) (a : σ) :
    loop (n + 1) f a = (loop n f a).bind fun s => f s n := by
  unfold loop
  rw [List.range_succ, List.foldlM_append]
  rcases (List.range n).foldlM f a with o | s
  · rfl
  · show (List.foldlM f s [n] : Except ε σ) = f s n
    rw [List.foldlM_cons]
    rcases f s n with o | s <;> rfl

/-- **The invariant rule**: what the body keeps, as long as it goes on, holds at the end. -/
theorem invariant (h : loop n f a = .ok s) (h0 : I 0 a)
    (hs : ∀ i s s', i < n → I i s → f s i = .ok s' → I (i + 1) s') : I n s := by
  induction n generalizing s with
  | zero => cases h; exact h0
  | succ n ih =>
    rw [succ] at h
    rcases hn : loop n f a with o | s₁ <;> rw [hn] at h
    · cases h
    · exact hs n s₁ s (by omega) (ih hn fun i s s' hi => hs i s s' (by omega)) h

/-- **The progress rule**: where the invariant lets the body go on, the loop reaches its end. -/
theorem total (h0 : I 0 a)
    (hs : ∀ i s, i < n → I i s → ∃ s', f s i = .ok s' ∧ I (i + 1) s') :
    ∃ s, loop n f a = .ok s ∧ I n s := by
  induction n with
  | zero => exact ⟨a, rfl, h0⟩
  | succ n ih =>
    obtain ⟨s, h, hi⟩ := ih fun i s hi => hs i s (by omega)
    obtain ⟨s', h', hi'⟩ := hs n s (by omega) hi
    exact ⟨s', by rw [succ, h]; exact h', hi'⟩

/-- A loop that reaches its end has reached every count before. -/
theorem mono {m : ℕ} (h : loop n f a = .ok s) (hm : m ≤ n) : ∃ s', loop m f a = .ok s' := by
  induction n generalizing s with
  | zero =>
    obtain rfl := Nat.le_zero.mp hm
    exact ⟨s, h⟩
  | succ n ih =>
    rcases Nat.le_or_eq_of_le_succ hm with hm | rfl
    · rw [succ] at h
      rcases hn : loop n f a with o | s₁ <;> rw [hn] at h
      · cases h
      · exact ih hn hm
    · exact ⟨s, h⟩

/-- How a loop that ends with an error got there. -/
theorem error {o : ε} (h : loop n f a = .error o) :
    ∃ i s, i < n ∧ loop i f a = .ok s ∧ f s i = .error o := by
  induction n with
  | zero => cases h
  | succ n ih =>
    rw [succ] at h
    rcases hn : loop n f a with o' | s <;> rw [hn] at h
    · cases h
      obtain ⟨i, s, hi, h1⟩ := ih hn
      exact ⟨i, s, by omega, h1⟩
    · exact ⟨n, s, by omega, hn, h⟩

end loop

end NiayanAssurance.Lib
