import NiayanAssurance.RetryBudget
import Mathlib.Algebra.Order.Ring.Nat
import Mathlib.Tactic.Ring

/-!
The pause after a start, in closed form.

The pause is doubled with every start in a row, up to the maximum of the policy. The loop gives up
before a product can exceed the maximum, so that the power itself is never computed.
-/

namespace NiayanAssurance.Backoff

open NiayanAssurance.Types NiayanAssurance.RetryBudget

/-! ### The loop in the arithmetic of the sources -/

/-- The loop of `Backoff` on counters: none where a product is none. -/
def doubleCounter (maximum : Counter) : ℕ → Counter → Option Counter
  | 0, delayMs => some (min delayMs maximum)
  | n + 1, delayMs =>
    if delayMs.val > maximum.val / 2 then some maximum
    else do
      let delayMs ← Counter.checked ((delayMs : ℕ) * 2)
      doubleCounter maximum n delayMs

def backoffCounter (p : Policy) (consecutive : ℕ) : Option Counter :=
  doubleCounter p.maximumBackoffMs (min consecutive capacity - 1) p.initialBackoffMs

lemma doubleCounter_eq (maximum : Counter) (n : ℕ) (delayMs : Counter) :
    ∃ c, doubleCounter maximum n delayMs = some c ∧ (c : ℕ) = double maximum n delayMs := by
  induction n generalizing delayMs with
  | zero =>
    refine ⟨_, rfl, ?_⟩
    rw [double]
    exact Fin.coe_min delayMs maximum
  | succ n ih =>
    rw [doubleCounter, double]
    by_cases h : delayMs.val > maximum.val / 2
    · rw [if_pos h, if_pos h]
      exact ⟨maximum, rfl, rfl⟩
    · have hle : (delayMs : ℕ) * 2 ≤ Counter.last := by
        have := maximum.le_last
        omega
      obtain ⟨c, h1, h2⟩ := ih (Counter.ofNat ((delayMs : ℕ) * 2))
      rw [Counter.val_ofNat hle] at h2
      rw [if_neg h, if_neg h, Counter.checked_le hle]
      exact ⟨c, h1, h2⟩

/-! ### The closed form -/

/-- A pause that is past half of the maximum is past it when doubled, and then for good; so the
loop ends with the power or with the maximum, whichever is less. -/
lemma double_eq (maximum n : ℕ) {delayMs : ℕ} :
    double maximum n delayMs = min (delayMs * 2 ^ n) maximum := by
  induction n generalizing delayMs with
  | zero => rw [double, pow_zero, mul_one]
  | succ n ih =>
    have hpow : delayMs * 2 ^ (n + 1) = delayMs * 2 * 2 ^ n := by ring
    rw [double, hpow]
    split_ifs with h
    · have hle : delayMs * 2 ≤ delayMs * 2 * 2 ^ n := Nat.le_mul_of_pos_right _ (Nat.two_pow_pos _)
      exact (min_eq_right (by omega)).symm
    · exact ih

/-- The cut at `capacity` is not seen: from there on the power is beyond any counter. -/
lemma backoff_eq {p : Policy} (hp : p.Valid) (consecutive : ℕ) :
    backoff p consecutive =
      min ((p.initialBackoffMs : ℕ) * 2 ^ (max consecutive 1 - 1)) p.maximumBackoffMs := by
  have hcap : capacity = 64 := rfl
  rw [backoff, double_eq]
  rcases Nat.le_total consecutive capacity with h | h
  · rw [min_eq_left h]
    congr 3
    omega
  · obtain ⟨-, -, hpos, -, -⟩ := hp
    have hmax := p.maximumBackoffMs.isLt
    have hbeyond : ∀ k, 63 ≤ k →
        (p.maximumBackoffMs : ℕ) ≤ (p.initialBackoffMs : ℕ) * 2 ^ k := fun k hk =>
      calc (p.maximumBackoffMs : ℕ) ≤ 2 ^ 63 := hmax.le
        _ ≤ 2 ^ k := Nat.pow_le_pow_right (by norm_num) hk
        _ ≤ p.initialBackoffMs * 2 ^ k := Nat.le_mul_of_pos_left _ hpos
    rw [min_eq_right h, min_eq_right (hbeyond _ (by omega)),
      min_eq_right (hbeyond _ (by omega))]

/-- **The closed form**: the pause is the first one doubled with every further start in a row, up
to the maximum. It never gets shorter, is never below the first one, and no product is out of
range on the way to it. -/
theorem closed_form (p : Policy) (hp : p.Valid) (consecutive : ℕ) :
    (∃ c, backoffCounter p consecutive = some c ∧ (c : ℕ) = backoff p consecutive)
    ∧ backoff p consecutive =
        min ((p.initialBackoffMs : ℕ) * 2 ^ (max consecutive 1 - 1)) p.maximumBackoffMs
    ∧ (∀ more, consecutive ≤ more → backoff p consecutive ≤ backoff p more)
    ∧ (p.initialBackoffMs : ℕ) ≤ backoff p consecutive := by
  refine ⟨doubleCounter_eq _ _ _, backoff_eq hp consecutive, fun more hmore => ?_, ?_⟩
  · rw [backoff_eq hp, backoff_eq hp]
    gcongr
    norm_num
  · rw [backoff_eq hp]
    exact le_min (Nat.le_mul_of_pos_right _ (Nat.two_pow_pos _)) hp.2.2.2.1

theorem closed_form_default :
    ({} : Policy).Valid ∧ backoff {} 7 = min (5000 * 2 ^ 6) 300000 := by
  have h : ({} : Policy).Valid := by decide
  exact ⟨h, (closed_form {} h 7).2.1⟩

end NiayanAssurance.Backoff
