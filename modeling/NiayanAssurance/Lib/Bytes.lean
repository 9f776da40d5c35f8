import Mathlib.Data.List.Induction
import Mathlib.Data.BitVec
import Mathlib.Tactic.Ring

/-!
Byte strings, blocks of a fixed length, and big-endian numbers.

Ranges are written as the sources write them: `range b lo hi` is the bytes `lo` to `hi` of
`b`, both included, the first byte being number 1.
-/

namespace NiayanAssurance.Lib

abbrev Byte := BitVec 8
abbrev Bytes := List Byte

instance (priority := 2000) lawfulBEq_byte : LawfulBEq Byte := instLawfulBEq

/-- The bytes `lo..hi` of `b`, counted from 1. -/
def range (b : Bytes) (lo hi : ℕ) : Bytes := (b.take hi).drop (lo - 1)

lemma length_range {b : Bytes} {lo hi : ℕ} (h : hi ≤ b.length) :
    (range b lo hi).length = hi - (lo - 1) := by
  simp [range, List.length_take, Nat.min_eq_left h]

lemma range_append_range {b : Bytes} {lo mid hi : ℕ} (h1 : lo - 1 ≤ mid) (h2 : mid ≤ hi) :
    range b lo mid ++ range b (mid + 1) hi = range b lo hi := by
  unfold range
  rw [Nat.add_sub_cancel]
  have h3 : (b.take hi).take mid = b.take mid := by
    rw [List.take_take, Nat.min_eq_left h2]
  calc (b.take mid).drop (lo - 1) ++ (b.take hi).drop mid
      = ((b.take hi).drop (lo - 1)).take (mid - (lo - 1)) ++
          ((b.take hi).drop (lo - 1)).drop (mid - (lo - 1)) := by
        rw [List.drop_drop, ← h3, List.drop_take, Nat.add_sub_cancel' h1]
    _ = (b.take hi).drop (lo - 1) := List.take_append_drop _ _

lemma range_all {b : Bytes} {n : ℕ} (h : b.length = n) : range b 1 n = b := by
  simp [range, ← h]

/-- A range of a concatenation that lies in its first part. -/
lemma range_left {a b : Bytes} {lo hi : ℕ} (h : hi ≤ a.length) :
    range (a ++ b) lo hi = range a lo hi := by
  rw [range, List.take_append_of_le_length h, range]

/-- A range of a concatenation that lies in its second part. -/
lemma range_right {a b : Bytes} {lo hi : ℕ} (h : a.length < lo) :
    range (a ++ b) lo hi = range b (lo - a.length) (hi - a.length) := by
  unfold range
  rcases Nat.lt_or_ge hi a.length with h2 | h2
  · have e1 : hi - a.length = 0 := by omega
    rw [List.take_append_of_le_length (by omega), e1, List.drop_eq_nil_of_le]
    · simp
    · simp; omega
  · rw [List.take_append, List.take_of_length_le h2, List.drop_append,
      List.drop_eq_nil_of_le (by omega), List.nil_append]
    congr 1
    omega

/-- A range that is the first part of a concatenation. -/
lemma range_head {a b : Bytes} {hi : ℕ} (h : a.length = hi) : range (a ++ b) 1 hi = a := by
  rw [range_left h.ge, range_all h]

/-- `b`, filled up with zeros to `n` bytes. -/
def pad (n : ℕ) (b : Bytes) : Bytes := b ++ List.replicate (n - b.length) 0

lemma length_pad {n : ℕ} {b : Bytes} (h : b.length ≤ n) : (pad n b).length = n := by
  simp [pad]; omega

/-! ### Blocks -/

/-- Byte strings of length `n`. -/
def Block (n : ℕ) := {b : Bytes // b.length = n}

instance (n : ℕ) : DecidableEq (Block n) := inferInstanceAs (DecidableEq {_b : Bytes // _})

instance (n : ℕ) : Inhabited (Block n) := ⟨⟨List.replicate n 0, by simp⟩⟩

namespace Block

variable {n : ℕ}

/-- The bytes of a block. -/
def bytes (b : Block n) : Bytes := b.val

@[simp] lemma length_bytes (b : Block n) : b.bytes.length = n := b.property

@[ext] lemma ext {a b : Block n} (h : a.bytes = b.bytes) : a = b := Subtype.ext h

/-- The block with every byte zero. -/
def zero (n : ℕ) : Block n := ⟨List.replicate n 0, by simp⟩

/-- The block with every byte `x`. -/
def fill (n : ℕ) (x : Byte) : Block n := ⟨List.replicate n x, by simp⟩

/-- The first `n` bytes of `b`, filled up with zeros when there are fewer. -/
def ofBytes (n : ℕ) (b : Bytes) : Block n := ⟨(b ++ List.replicate n 0).take n, by simp⟩

lemma bytes_ofBytes {b : Bytes} (h : b.length = n) : (ofBytes n b).bytes = b := by
  simp [ofBytes, bytes, ← h]

@[simp] lemma ofBytes_bytes (b : Block n) : ofBytes n b.bytes = b :=
  ext (bytes_ofBytes b.length_bytes)

@[simp] lemma bytes_zero (n : ℕ) : (zero n).bytes = List.replicate n 0 := rfl

end Block

/-! ### Big-endian numbers -/

/-- `v` in `n` bytes, most significant first. -/
def be : ℕ → ℕ → Bytes
  | 0, _ => []
  | n + 1, v => be n (v / 256) ++ [BitVec.ofNat 8 v]

/-- The number `b` spells, most significant byte first. -/
def unbe (b : Bytes) : ℕ := b.foldl (fun a x => a * 256 + x.toNat) 0

@[simp] lemma length_be (n v : ℕ) : (be n v).length = n := by
  induction n generalizing v with
  | zero => rfl
  | succ n ih => simp [be, ih]

@[simp] lemma unbe_nil : unbe [] = 0 := rfl

@[simp] lemma unbe_snoc (b : Bytes) (x : Byte) : unbe (b ++ [x]) = unbe b * 256 + x.toNat := by
  simp [unbe, List.foldl_append]

lemma unbe_lt (b : Bytes) : unbe b < 256 ^ b.length := by
  induction b using List.reverseRecOn with
  | nil => simp
  | append_singleton b x ih =>
    have hx := x.isLt
    simp only [unbe_snoc, List.length_append, List.length_singleton, pow_succ]
    omega

lemma unbe_be (n v : ℕ) : unbe (be n v) = v % 256 ^ n := by
  induction n generalizing v with
  | zero => simp [be, Nat.mod_one]
  | succ n ih =>
    have h := Nat.mod_mul (a := 256) (b := 256 ^ n) (x := v)
    simp only [be, unbe_snoc, ih, BitVec.toNat_ofNat]
    rw [pow_succ 256 n, Nat.mul_comm (256 ^ n) 256, h]
    omega

lemma be_unbe (b : Bytes) : be b.length (unbe b) = b := by
  induction b using List.reverseRecOn with
  | nil => rfl
  | append_singleton b x ih =>
    have hx := x.isLt
    have h1 : (unbe b * 256 + x.toNat) / 256 = unbe b := by omega
    have h2 : BitVec.ofNat 8 (unbe b * 256 + x.toNat) = x := by
      apply BitVec.eq_of_toNat_eq
      simp only [BitVec.toNat_ofNat]
      omega
    simp [be, h1, h2, ih]

end NiayanAssurance.Lib
