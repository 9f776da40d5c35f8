import NiayanAssurance.Lib.Bytes

/-!
SHA-256 of byte strings, as FIPS 180-4 defines it.

The sections referred to are those of the standard.
-/

namespace NiayanAssurance.Lib.Fips180

abbrev Word := BitVec 32

/-! ### Functions and constants (4.1.2, 4.2.2, 5.3.3) -/

def ch (x y z : Word) : Word := (x &&& y) ^^^ (~~~x &&& z)

def maj (x y z : Word) : Word := (x &&& y) ^^^ (x &&& z) ^^^ (y &&& z)

def bigSigma0 (x : Word) : Word := x.rotateRight 2 ^^^ x.rotateRight 13 ^^^ x.rotateRight 22

def bigSigma1 (x : Word) : Word := x.rotateRight 6 ^^^ x.rotateRight 11 ^^^ x.rotateRight 25

def sigma0 (x : Word) : Word := x.rotateRight 7 ^^^ x.rotateRight 18 ^^^ x >>> 3

def sigma1 (x : Word) : Word := x.rotateRight 17 ^^^ x.rotateRight 19 ^^^ x >>> 10

def constants : List Word :=
  [0x428A2F98, 0x71374491, 0xB5C0FBCF, 0xE9B5DBA5, 0x3956C25B, 0x59F111F1, 0x923F82A4,
   0xAB1C5ED5, 0xD807AA98, 0x12835B01, 0x243185BE, 0x550C7DC3, 0x72BE5D74, 0x80DEB1FE,
   0x9BDC06A7, 0xC19BF174, 0xE49B69C1, 0xEFBE4786, 0x0FC19DC6, 0x240CA1CC, 0x2DE92C6F,
   0x4A7484AA, 0x5CB0A9DC, 0x76F988DA, 0x983E5152, 0xA831C66D, 0xB00327C8, 0xBF597FC7,
   0xC6E00BF3, 0xD5A79147, 0x06CA6351, 0x14292967, 0x27B70A85, 0x2E1B2138, 0x4D2C6DFC,
   0x53380D13, 0x650A7354, 0x766A0ABB, 0x81C2C92E, 0x92722C85, 0xA2BFE8A1, 0xA81A664B,
   0xC24B8B70, 0xC76C51A3, 0xD192E819, 0xD6990624, 0xF40E3585, 0x106AA070, 0x19A4C116,
   0x1E376C08, 0x2748774C, 0x34B0BCB5, 0x391C0CB3, 0x4ED8AA4A, 0x5B9CCA4F, 0x682E6FF3,
   0x748F82EE, 0x78A5636F, 0x84C87814, 0x8CC70208, 0x90BEFFFA, 0xA4506CEB, 0xBEF9A3F7,
   0xC67178F2]

/-- The working variables, or the words of a hash value. -/
@[ext] structure Vars where
  a : Word
  b : Word
  c : Word
  d : Word
  e : Word
  f : Word
  g : Word
  h : Word

def initial : Vars :=
  ⟨0x6A09E667, 0xBB67AE85, 0x3C6EF372, 0xA54FF53A, 0x510E527F, 0x9B05688C, 0x1F83D9AB,
    0x5BE0CD19⟩

def primes : List ℕ :=
  [2, 3, 5, 7, 11, 13, 17, 19, 23, 29, 31, 37, 41, 43, 47, 53, 59, 61, 67, 71, 73, 79, 83, 89, 97,
   101, 103, 107, 109, 113, 127, 131, 137, 139, 149, 151, 157, 163, 167, 173, 179, 181, 191, 193,
   197, 199, 211, 223, 227, 229, 233, 239, 241, 251, 257, 263, 269, 271, 277, 281, 283, 293, 307,
   311]

/-- `x` is the first 32 bits of the fractional part of the `n`th root of `p`. -/
def IsFraction (n p : ℕ) (x : Word) : Prop :=
  ∃ i ≤ p, (i * 2 ^ 32 + x.toNat) ^ n ≤ p * 2 ^ (32 * n)
    ∧ p * 2 ^ (32 * n) < (i * 2 ^ 32 + x.toNat + 1) ^ n

instance (n p : ℕ) (x : Word) : Decidable (IsFraction n p x) := by
  unfold IsFraction
  infer_instance

/-- The constants are those that the standard describes. -/
theorem constants_fractions : (∀ x ∈ primes.zip constants, IsFraction 3 x.1 x.2) ∧
    ∀ x ∈ primes.zip [initial.a, initial.b, initial.c, initial.d, initial.e, initial.f, initial.g,
      initial.h], IsFraction 2 x.1 x.2 := by
  decide +kernel

/-! ### Padding and parsing (5.1.1, 5.2.1) -/

/-- The number of zero bits after the first bit that follows a message of `l` bits. -/
def zeroBits (l : ℕ) : ℕ := (960 - (l + 1) % 512) % 512

/-- The bit and seven of the zero bits are the byte `0x80`. -/
def padded (m : Bytes) : Bytes :=
  m ++ (0x80 :: List.replicate ((zeroBits (8 * m.length) - 7) / 8) 0 ++ be 8 (8 * m.length))

/-- The first `n` blocks. -/
def blocks : (n : ℕ) → Bytes → List Bytes
  | 0, _ => []
  | n + 1, b => b.take 64 :: blocks n (b.drop 64)

/-! ### Hash computation (6.2.2) -/

/-- `M_t` of a block. -/
def messageWord (block : Bytes) (t : ℕ) : Word :=
  BitVec.ofNat 32 (unbe ((block.drop (4 * t)).take 4))

/-- `W_t` -/
def schedule (m : ℕ → Word) (t : ℕ) : Word :=
  if t < 16 then m t
  else
    sigma1 (schedule m (t - 2)) + schedule m (t - 7) + sigma0 (schedule m (t - 15))
      + schedule m (t - 16)

def round (v : Vars) (k w : Word) : Vars :=
  let t1 := v.h + bigSigma1 v.e + ch v.e v.f v.g + k + w
  let t2 := bigSigma0 v.a + maj v.a v.b v.c
  ⟨t1 + t2, v.a, v.b, v.c, v.d + t1, v.e, v.f, v.g⟩

def compress (h : Vars) (block : Bytes) : Vars :=
  let v := (List.range 64).foldl
    (fun v t => round v (constants.getD t 0) (schedule (messageWord block) t)) h
  ⟨v.a + h.a, v.b + h.b, v.c + h.c, v.d + h.d, v.e + h.e, v.f + h.f, v.g + h.g, v.h + h.h⟩

def Vars.bytes (h : Vars) : Bytes :=
  [h.a, h.b, h.c, h.d, h.e, h.f, h.g, h.h].flatMap fun x => be 4 x.toNat

/-- The digest of a message of less than `2 ^ 61` bytes. -/
def digest (m : Bytes) : Bytes :=
  ((blocks ((padded m).length / 64) (padded m)).foldl compress initial).bytes

/-! ### Rows of blocks -/

lemma blocks_append {n : ℕ} {b : Bytes} (c : Bytes) (h : 64 * n ≤ b.length) :
    blocks n (b ++ c) = blocks n b := by
  induction n generalizing b with
  | zero => rfl
  | succ n ih =>
    have h1 : 64 ≤ b.length := by omega
    have h2 : 64 * n ≤ (b.drop 64).length := by
      rw [List.length_drop]
      omega
    rw [blocks, blocks, List.take_append_of_le_length h1, List.drop_append_of_le_length h1, ih h2]

lemma blocks_succ {n : ℕ} {b : Bytes} (h : 64 * n ≤ b.length) :
    blocks (n + 1) b = blocks n b ++ [(b.drop (64 * n)).take 64] := by
  induction n generalizing b with
  | zero => rfl
  | succ n ih =>
    have h1 : 64 * n ≤ (b.drop 64).length := by
      rw [List.length_drop]
      omega
    have h2 : 64 * (n + 1) = 64 + 64 * n := by omega
    rw [blocks, ih h1, blocks, List.drop_drop, List.cons_append, h2]

end NiayanAssurance.Lib.Fips180
