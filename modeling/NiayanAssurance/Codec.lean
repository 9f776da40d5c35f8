import NiayanAssurance.Types
import NiayanAssurance.Lib.Frame

/-!
The numbers in a frame, as they are read after they have been written.
-/

namespace NiayanAssurance.Codec

open NiayanAssurance.Lib NiayanAssurance.Types

/-- `B (I)` as a number. -/
def byteAt (b : Bytes) (i : ℕ) : ℕ := unbe (range b i i)

lemma unbe_be_of_lt {n v : ℕ} (h : v < 256 ^ n) : unbe (be n v) = v := by
  rw [unbe_be, Nat.mod_eq_of_lt h]

@[simp] lemma unbe_be_counter (c : Counter) : unbe (be 8 c) = c := by
  have := c.isLt
  exact unbe_be_of_lt (by omega)

@[simp] lemma counter_be (c : Counter) : Counter.ofNat (unbe (be 8 c)) = c := by
  rw [unbe_be_counter, Counter.ofNat_val]

@[simp] lemma unbe_be_word (w : Word) : unbe (be 4 w.toNat) = w.toNat := by
  have := w.isLt
  exact unbe_be_of_lt (by omega)

@[simp] lemma word_be (w : Word) : BitVec.ofNat 32 (unbe (be 4 w.toNat)) = w := by
  rw [unbe_be_word, BitVec.ofNat_toNat, BitVec.setWidth_eq]

/-- A number of 16 bits. -/
@[simp] lemma unbe_be_fin (n : Fin 65536) : unbe (be 2 n) = n := unbe_be_of_lt n.isLt

/-- A byte of an enumeration. -/
lemma unbe_be_byte {n : ℕ} (h : n < 256) : unbe (be 1 n) = n := unbe_be_of_lt (by omega)

lemma be_byteAt {b : Bytes} (i : ℕ) (h0 : 0 < i) (hi : i ≤ b.length) :
    be 1 (byteAt b i) = range b i i := be_range 1 i i hi (by omega)

/-- A byte of a flag, as it is read after it has been written. -/
@[simp] lemma unbe_be_flag (v : Bool) : unbe (be 1 v.toNat) = v.toNat :=
  unbe_be_byte ((Bool.toNat_le v).trans_lt (by decide))

/-- A byte of a flag is written back as it was. -/
lemma be_flag {b : Bytes} (i : ℕ) (h0 : 0 < i) (hi : i ≤ b.length) (h : byteAt b i ≤ 1) :
    be 1 (decide (byteAt b i = 1)).toNat = range b i i := by
  rw [← be_byteAt i h0 hi]
  rcases Nat.le_one_iff_eq_zero_or_eq_one.mp h with h | h <;> simp [h]

/-- One of the `n` numbers that follow one another from byte `lo` on is past `Counter'Last`. -/
def Past (b : Bytes) (lo n : ℕ) : Prop :=
  ∃ i ∈ List.range n, Counter.last < u64 b (lo + i * 8)

instance (b : Bytes) (lo n : ℕ) : Decidable (Past b lo n) := by unfold Past; infer_instance

lemma le_of_not_past {b : Bytes} {lo n : ℕ} (h : ¬ Past b lo n) (i : ℕ) (hi : i < n) :
    u64 b (lo + i * 8) ≤ Counter.last :=
  Nat.not_lt.mp fun hlt => h ⟨i, List.mem_range.mpr hi, hlt⟩

/-- Counters that have been written are no such numbers. -/
lemma not_past {b : Bytes} {lo : ℕ} {l : List Counter}
    (h : ∀ i (c : Counter), l[i]? = some c → range b (lo + i * 8) (lo + i * 8 + 7) = be 8 c) :
    ¬ Past b lo l.length := by
  rintro ⟨i, hi, hlt⟩
  rw [List.mem_range] at hi
  rw [u64, h i l[i] (List.getElem?_eq_getElem hi), unbe_be_counter] at hlt
  exact absurd hlt (Nat.not_lt.mpr (Counter.le_last _))

end NiayanAssurance.Codec
