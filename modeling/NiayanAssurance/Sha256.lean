import NiayanAssurance.Types

/-!
The digest of the sources, as they compute it: a context that takes one byte at a time and
compresses each full block. A 32-bit word is a number below `2 ^ 32`, and every addition and
left shift is taken modulo `2 ^ 32`.
-/

namespace NiayanAssurance.Sha256

open NiayanAssurance.Lib NiayanAssurance.Types

def k : List ℕ :=
  [0x428A2F98, 0x71374491, 0xB5C0FBCF, 0xE9B5DBA5, 0x3956C25B, 0x59F111F1, 0x923F82A4,
   0xAB1C5ED5, 0xD807AA98, 0x12835B01, 0x243185BE, 0x550C7DC3, 0x72BE5D74, 0x80DEB1FE,
   0x9BDC06A7, 0xC19BF174, 0xE49B69C1, 0xEFBE4786, 0x0FC19DC6, 0x240CA1CC, 0x2DE92C6F,
   0x4A7484AA, 0x5CB0A9DC, 0x76F988DA, 0x983E5152, 0xA831C66D, 0xB00327C8, 0xBF597FC7,
   0xC6E00BF3, 0xD5A79147, 0x06CA6351, 0x14292967, 0x27B70A85, 0x2E1B2138, 0x4D2C6DFC,
   0x53380D13, 0x650A7354, 0x766A0ABB, 0x81C2C92E, 0x92722C85, 0xA2BFE8A1, 0xA81A664B,
   0xC24B8B70, 0xC76C51A3, 0xD192E819, 0xD6990624, 0xF40E3585, 0x106AA070, 0x19A4C116,
   0x1E376C08, 0x2748774C, 0x34B0BCB5, 0x391C0CB3, 0x4ED8AA4A, 0x5B9CCA4F, 0x682E6FF3,
   0x748F82EE, 0x78A5636F, 0x84C87814, 0x8CC70208, 0x90BEFFFA, 0xA4506CEB, 0xBEF9A3F7,
   0xC67178F2]

/-- The eight state words, in the order and under the names of `Compress`. -/
structure State where
  a : ℕ
  b : ℕ
  d : ℕ
  e : ℕ
  f : ℕ
  g : ℕ
  h : ℕ
  i : ℕ
  deriving DecidableEq

structure Context where
  state : State
  /-- The bytes of the block in progress, newest first. -/
  blockData : Bytes
  used : ℕ
  total : ℕ

def init : Context where
  state := ⟨0x6A09E667, 0xBB67AE85, 0x3C6EF372, 0xA54FF53A, 0x510E527F, 0x9B05688C,
    0x1F83D9AB, 0x5BE0CD19⟩
  blockData := []
  used := 0
  total := 0

/-- `Rotate_Right`. -/
def r (x n : ℕ) : ℕ := (x >>> n ||| x <<< (32 - n)) % 0x100000000

/-- The first `n` words of a block. -/
def words : ℕ → Bytes → List ℕ
  | 0, _ => []
  | n + 1, b => unbe (b.take 4) :: words n (b.drop 4)

/-- One more word of the message schedule, which is kept newest first: with `w` the words up
to `J - 1`, the names are those of `W (J - 2)`, `W (J - 7)`, `W (J - 15)` and `W (J - 16)`. -/
def extend : List ℕ → List ℕ
  | w@(_ :: w2 :: _ :: _ :: _ :: _ :: w7 :: _ :: _ :: _ :: _ :: _ :: _ :: _ :: w15 :: w16 :: _) =>
    let s0 := r w15 7 ^^^ r w15 18 ^^^ w15 >>> 3
    let s1 := r w2 17 ^^^ r w2 19 ^^^ w2 >>> 10
    (w16 + s0 + w7 + s1) % 0x100000000 :: w
  | w => w

def schedule (b : Bytes) : List ℕ := (extend^[48] (words 16 b).reverse).reverse

def round : State → ℕ × ℕ → State
  | ⟨a, b, d, e, f, g, h, i⟩, (k, w) =>
    let s1 := r f 6 ^^^ r f 11 ^^^ r f 25
    let t1 := i + s1 + (f &&& g ^^^ (0xFFFFFFFF - f) &&& h) + k + w
    let s0 := r a 2 ^^^ r a 13 ^^^ r a 22
    let t2 := s0 + (a &&& b ^^^ a &&& d ^^^ b &&& d)
    ⟨(t1 + t2) % 0x100000000, a, b, d, (e + t1) % 0x100000000, f, g, h⟩

def compress (c : State) (block : Bytes) : State :=
  let n := (k.zip (schedule block)).foldl round c
  ⟨(c.a + n.a) % 0x100000000, (c.b + n.b) % 0x100000000, (c.d + n.d) % 0x100000000,
    (c.e + n.e) % 0x100000000, (c.f + n.f) % 0x100000000, (c.g + n.g) % 0x100000000,
    (c.h + n.h) % 0x100000000, (c.i + n.i) % 0x100000000⟩

def updateByte (c : Context) (x : Byte) : Context :=
  if c.used = 63 then ⟨compress c.state (x :: c.blockData).reverse, [], 0, c.total + 1⟩
  else ⟨c.state, x :: c.blockData, c.used + 1, c.total + 1⟩

def update (c : Context) (data : Bytes) : Context := data.foldl updateByte c

/-- The padding of a context: `16#80#`, zeros, and the length in bits. -/
def padding (c : Context) : Bytes :=
  let padLength := if c.used < 56 then 64 - c.used else 128 - c.used
  0x80 :: List.replicate (padLength - 9) 0 ++ be 8 (c.total * 8)

def finish (c : Context) : Digest :=
  let s := (update c (padding c)).state
  Block.ofBytes 32 ([s.a, s.b, s.d, s.e, s.f, s.g, s.h, s.i].map (be 4)).flatten

/-- The digest of a byte string. -/
@[irreducible] def hash (data : Bytes) : Digest := finish (update init data)

/-- FIPS 180-4, the digest of `abc`. -/
example : (hash [0x61, 0x62, 0x63]).bytes =
    be 32 0xba7816bf8f01cfea414140de5dae2223b00361a396177a9cb410ff61f20015ad := by
  decide +kernel

/-- A frame of `n` bytes that carries its own digest at the end. -/
def withDigest (n : ℕ) (b : Bytes) : Bytes := pad n b ++ (hash (pad n b)).bytes

lemma length_withDigest {n : ℕ} {b : Bytes} (h : b.length ≤ n) :
    (withDigest n b).length = n + 32 := by
  simp [withDigest, length_pad h]

/-- No two of the strings have one digest: what collision freedom says of the strings that
occur. -/
def CollisionFree (s : List Bytes) : Prop := ∀ x ∈ s, ∀ y ∈ s, hash x = hash y → x = y

instance (s : List Bytes) : Decidable (CollisionFree s) :=
  inferInstanceAs (Decidable (∀ x ∈ s, ∀ y ∈ s, hash x = hash y → x = y))

end NiayanAssurance.Sha256
