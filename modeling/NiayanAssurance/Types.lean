import NiayanAssurance.Lib.Bytes
import Mathlib.Data.Fin.Basic

/-!
The base types of the sources: identities, digests, counters and outcomes.
-/

namespace NiayanAssurance.Types

open NiayanAssurance.Lib

abbrev Word := BitVec 32
abbrev Digest := Block 32
abbrev Identity := Block 16

def zeroDigest : Digest := Block.zero 32
def zeroIdentity : Identity := Block.zero 16

def maxMessage : ℕ := 1048576

/-- `range 0 .. 2 ** 63 - 1`. Comparisons are made on the values. -/
abbrev Counter := Fin (2 ^ 63)

/-! The ranges that the numbers of the sources have are not empty. -/

instance (priority := 2000) neZero_counter : NeZero (2 ^ 63) := ⟨by decide⟩
instance (priority := 2000) neZero_u16 : NeZero 65536 := ⟨by decide⟩
instance (priority := 1500) neZero_message : NeZero (maxMessage + 1) := ⟨by decide⟩

namespace Counter

/-- `Counter'Last`. -/
def last : ℕ := 2 ^ 63 - 1

/-- The successor. The sources take it only below `Counter'Last`, where `val_next` says what
it is; at `Counter'Last` they would raise. -/
def next (c : Counter) : Counter := if h : c.val + 1 < 2 ^ 63 then ⟨c.val + 1, h⟩ else c

lemma val_next {c : Counter} (h : (c : ℕ) ≠ last) : (next c : ℕ) = c + 1 := by
  have hc := c.isLt
  unfold last at h
  rw [next, dif_pos (by omega)]

lemma le_last (c : Counter) : (c : ℕ) ≤ last := by unfold last; omega

/-- The counter with value `n`, for `n` in range; `0` otherwise. -/
def ofNat (n : ℕ) : Counter := if h : n < 2 ^ 63 then ⟨n, h⟩ else 0

lemma val_ofNat {n : ℕ} (h : n ≤ last) : (ofNat n : ℕ) = n := by
  unfold last at h
  rw [ofNat, dif_pos (by omega)]

@[simp] lemma ofNat_val (c : Counter) : ofNat (c : ℕ) = c := Fin.ext (val_ofNat c.le_last)

/-- What an expression with the value `n` gives: none where it raises. -/
def checked (n : ℕ) : Option Counter := if h : n < 2 ^ 63 then some ⟨n, h⟩ else none

@[simp] lemma checked_some {n : ℕ} {c : Counter} : checked n = some c ↔ (c : ℕ) = n := by
  unfold checked
  constructor
  · intro h
    split at h
    · cases h; rfl
    · cases h
  · rintro rfl
    rw [dif_pos c.isLt]

lemma checked_le {n : ℕ} (h : n ≤ last) : checked n = some (ofNat n) :=
  checked_some.2 (val_ofNat h)

end Counter

inductive Outcome
  | ok | invalidInput | unsupported | denied | conflict | stale
  | exhausted | ioError | corrupt | indeterminate | notQualified
  deriving DecidableEq, Repr, Inhabited

/-- `Outcome'Pos`. -/
def Outcome.pos : Outcome → ℕ
  | .ok => 0 | .invalidInput => 1 | .unsupported => 2 | .denied => 3 | .conflict => 4
  | .stale => 5 | .exhausted => 6 | .ioError => 7 | .corrupt => 8 | .indeterminate => 9
  | .notQualified => 10

/-- `Outcome'Val`. -/
def Outcome.val : ℕ → Option Outcome
  | 0 => some .ok | 1 => some .invalidInput | 2 => some .unsupported | 3 => some .denied
  | 4 => some .conflict | 5 => some .stale | 6 => some .exhausted | 7 => some .ioError
  | 8 => some .corrupt | 9 => some .indeterminate | 10 => some .notQualified
  | _ => none

@[simp] lemma Outcome.val_pos (o : Outcome) : val o.pos = some o := by cases o <;> rfl

lemma Outcome.pos_lt (o : Outcome) : o.pos < 256 := by cases o <;> decide

/-- What a caller goes on with of an out parameter and a status. -/
def returned {α : Type} (x : α × Outcome) : Except Outcome α :=
  if x.2 = .ok then .ok x.1 else .error x.2

lemma returned_ok {α : Type} {x : α × Outcome} {a : α} : returned x = .ok a ↔ x = (a, .ok) := by
  unfold returned
  split_ifs with h
  · rw [Except.ok.injEq, Prod.ext_iff, and_iff_left h]
  · exact ⟨nofun, fun he => absurd (congrArg Prod.snd he) h⟩

lemma returned_error {α : Type} {x : α × Outcome} {o : Outcome} (h : returned x = .error o) :
    x.2 = o ∧ o ≠ .ok := by
  unfold returned at h
  split_ifs at h with hx
  obtain rfl := Except.error.inj h
  exact ⟨rfl, hx⟩

/-- `MC_Codec.U16`. -/
def u16 (b : Bytes) (atByte : ℕ) : ℕ := unbe (range b atByte (atByte + 1))

/-- `MC_Codec.U32`. -/
def u32 (b : Bytes) (atByte : ℕ) : ℕ := unbe (range b atByte (atByte + 3))

/-- `MC_Codec.U64`. -/
def u64 (b : Bytes) (atByte : ℕ) : ℕ := unbe (range b atByte (atByte + 7))

/-- A block read from a frame is written back as it was. -/
lemma block_range {b : Bytes} (n lo hi : ℕ) (h : hi ≤ b.length) (hn : hi - (lo - 1) = n) :
    (Block.ofBytes n (range b lo hi)).bytes = range b lo hi :=
  Block.bytes_ofBytes (by rw [length_range h, hn])

/-- A number read from a frame is written back as it was. -/
lemma be_range {b : Bytes} (n lo hi : ℕ) (h : hi ≤ b.length) (hn : hi - (lo - 1) = n) :
    be n (unbe (range b lo hi)) = range b lo hi := by
  have hl : (range b lo hi).length = n := by rw [length_range h, hn]
  rw [← hl, be_unbe]

lemma be_u64 {b : Bytes} (atByte : ℕ) (h : atByte + 7 ≤ b.length) (h0 : 0 < atByte)
    (hc : u64 b atByte ≤ Counter.last) :
    be 8 (Counter.ofNat (u64 b atByte)) = range b atByte (atByte + 7) := by
  rw [Counter.val_ofNat hc, u64, be_range 8 _ _ h (by omega)]

/-- The bytes are combined with `or`, so the answer is whether all of them are zero. -/
def isZero (value : Bytes) : Bool := value.foldl (· ||| ·) 0#8 = 0#8

lemma foldl_or_eq_zero (value : Bytes) (a : Byte) :
    value.foldl (· ||| ·) a = 0#8 ↔ a = 0#8 ∧ ∀ x ∈ value, x = 0#8 := by
  induction value generalizing a with
  | nil => simp
  | cons x value ih =>
    rw [List.foldl_cons, ih]
    simp [BitVec.or_eq_zero_iff, and_assoc]

lemma isZero_iff (value : Bytes) : isZero value = true ↔ ∀ x ∈ value, x = 0#8 := by
  rw [isZero, decide_eq_true_iff, foldl_or_eq_zero]
  simp

lemma isZero_iff_replicate {b : Bytes} {n : ℕ} (h : b.length = n) :
    isZero b = true ↔ b = List.replicate n 0 := by
  rw [isZero_iff, List.eq_replicate_iff]
  exact ⟨fun hb => ⟨h, hb⟩, And.right⟩

lemma isZero_block {n : ℕ} (b : Block n) : isZero b.bytes = true ↔ b = Block.zero n := by
  rw [isZero_iff]
  constructor
  · intro h
    apply Block.ext
    rw [Block.bytes_zero, List.eq_replicate_iff]
    exact ⟨b.length_bytes, h⟩
  · rintro rfl x hx
    exact List.eq_of_mem_replicate hx

end NiayanAssurance.Types
