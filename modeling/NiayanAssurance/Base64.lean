import NiayanAssurance.Hex
import NiayanAssurance.Lib.Attempt
import Mathlib.Data.List.GetD

/-!
Bytes in the canonical padded base64 alphabet.

The decoder writes byte after byte into a buffer; a write past its end would be an error of the
language, and the proofs show that there is none.
-/

namespace NiayanAssurance.Base64

open NiayanAssurance.Lib NiayanAssurance.Types
open Attempt

def alphabet : List Char :=
  "ABCDEFGHIJKLMNOPQRSTUVWXYZabcdefghijklmnopqrstuvwxyz0123456789+/".toList

/-- `Alphabet (I + 1)`. -/
def letter (i : ℕ) : Char := alphabet.getD i '='

/-- The place of a character in the alphabet, or 64. -/
def value (c : Char) : ℕ := alphabet.idxOf c

/-- One turn of `Encode`, with `n` bytes left, up to three of which are `a`, `b` and `c`. -/
def quad (n a b c : ℕ) : List Char :=
  [letter (a / 4), letter (a % 4 * 16 + b / 16),
    if 1 < n then letter (b % 16 * 4 + c / 64) else '=',
    if 2 < n then letter (c % 64) else '=']

/-- The loop of `Encode`. -/
def quads : Bytes → List Char
  | [] => []
  | [a] => quad 1 a.toNat 0 0
  | [a, b] => quad 2 a.toNat b.toNat 0
  | a :: b :: c :: data => quad (data.length + 3) a.toNat b.toNat c.toNat ++ quads data

/-- None is an error of the language, the precondition that is checked. -/
def encode (data : Bytes) : Option (List Char) :=
  if data.length ≤ 1048576 then some (quads data) else none

/-- `Data` and `Used`. -/
structure Buffer where
  data : Bytes
  used : ℕ

def Buffer.put (s : Buffer) (n : ℕ) : Buffer where
  data := s.data.set s.used (BitVec.ofNat 8 n)
  used := s.used + 1

def emit (n : ℕ) : Attempt Buffer Unit := do
  let s ← get
  if s.used < s.data.length ∧ n ≤ 255 then modify fun s => s.put n else raise

/-- One turn of the loop over the four characters of a quantum: the values so far, and how many of
them are pads. -/
def digit (st : List ℕ × ℕ) (c : Char) : Option (List ℕ × ℕ) :=
  if c = '=' then some (st.1 ++ [0], st.2 + 1)
  else if 0 < st.2 then none
  else if value c = 64 then none
  else some (st.1 ++ [value c], st.2)

/-- One turn of the loop of `Decode`. -/
def quantum (final : Bool) (text : List Char) : Attempt Buffer Unit :=
  match text.foldlM digit ([], 0) with
  | none => refuse
  | some (v, pads) => do
    let s ← get
    require (¬ (2 < pads ∨ 0 < pads ∧ final = false ∨ s.data.length < s.used + 3 - pads))
    require (¬ (pads = 2 ∧ v.getD 1 0 % 16 ≠ 0))
    require (¬ (pads = 1 ∧ v.getD 2 0 % 4 ≠ 0))
    emit (v.getD 0 0 * 4 + v.getD 1 0 / 16)
    if pads < 2 then emit (v.getD 1 0 % 16 * 16 + v.getD 2 0 / 4) else pure ()
    if pads = 0 then emit (v.getD 2 0 % 4 * 64 + v.getD 3 0) else pure ()

def quanta : List Char → Attempt Buffer Unit
  | [] => pure ()
  | a :: b :: c :: d :: text => do
    quantum text.isEmpty [a, b, c, d]
    quanta text
  | _ => raise

structure Decoded where
  data : Bytes
  used : ℕ
  status : Outcome
  deriving DecidableEq

/-- `Decode` into a buffer of `n` bytes; none is an error of the language. -/
def decode (text : List Char) (n : ℕ) : Option Decoded :=
  if text.length % 4 ≠ 0 ∨ 1398104 < text.length then
    some ⟨List.replicate n 0, 0, .invalidInput⟩
  else
    match (quanta text).run ⟨List.replicate n 0, 0⟩ with
    | .done _ s => some ⟨s.data, s.used, .ok⟩
    | .refused s => some ⟨s.data, s.used, .invalidInput⟩
    | .raised => none

/-! ### The alphabet -/

/-- There are 64 letters, no two of them are the same, and the pad is none of them. -/
lemma alphabet_letters : alphabet.length = 64 ∧ alphabet.Nodup ∧ '=' ∉ alphabet := by
  decide +kernel

lemma length_alphabet : alphabet.length = 64 := alphabet_letters.1

lemma letter_mem {i : ℕ} (h : i < 64) : letter i ∈ alphabet := by
  have hi : i < alphabet.length := h.trans_eq length_alphabet.symm
  rw [letter, List.getD_eq_getElem _ _ hi]
  exact List.getElem_mem hi

lemma value_letter {i : ℕ} (h : i < 64) : value (letter i) = i := by
  have hi : i < alphabet.length := h.trans_eq length_alphabet.symm
  rw [value, letter, List.getD_eq_getElem _ _ hi]
  exact alphabet_letters.2.1.idxOf_getElem i hi

lemma letter_ne_pad {i : ℕ} (h : i < 64) : letter i ≠ '=' := fun he =>
  alphabet_letters.2.2 (he ▸ letter_mem h)

lemma letter_value {c : Char} (h : value c ≠ 64) : value c < 64 ∧ letter (value c) = c := by
  have hlt : value c < 64 := by
    have := List.idxOf_le_length (a := c) (l := alphabet)
    rw [length_alphabet] at this
    unfold value at h ⊢
    omega
  have hlt' : alphabet.idxOf c < alphabet.length := hlt.trans_eq length_alphabet.symm
  refine ⟨hlt, ?_⟩
  unfold letter value
  rw [List.getD_eq_getElem _ _ hlt']
  exact List.getElem_idxOf hlt'

/-! ### The digits of a quantum -/

variable {v : List ℕ} {pads : ℕ} {c : Char} {s : Buffer} {text : List Char} {final : Bool}

lemma digit_letter {i : ℕ} (h : i < 64) : digit (v, 0) (letter i) = some (v ++ [i], 0) := by
  unfold digit
  rw [if_neg (letter_ne_pad h), if_neg (Nat.lt_irrefl 0), value_letter h, if_neg (by omega)]

@[simp] lemma digit_pad : digit (v, pads) '=' = some (v ++ [0], pads + 1) := rfl

/-- A digit that is read is a letter, with no pad before it, or a pad. -/
lemma digit_some {st : List ℕ × ℕ} (h : digit (v, pads) c = some st) :
    (∃ i < 64, c = letter i ∧ pads = 0 ∧ st = (v ++ [i], 0)) ∨
    c = '=' ∧ st = (v ++ [0], pads + 1) := by
  unfold digit at h
  dsimp only at h
  split_ifs at h with h1 h2 h3
  · exact .inr ⟨h1, (Option.some.inj h).symm⟩
  · obtain ⟨h4, h5⟩ := letter_value h3
    obtain rfl : pads = 0 := by omega
    exact .inl ⟨value c, h4, h5.symm, rfl, (Option.some.inj h).symm⟩

/-- What is read of four characters with no more than two pads. -/
lemma digits_some {a b c d : Char} (h : [a, b, c, d].foldlM digit ([], 0) = some (v, pads))
    (hp : pads ≤ 2) : ∃ p < 64, ∃ q < 64, a = letter p ∧ b = letter q ∧
      ((∃ r < 64, ∃ t < 64, c = letter r ∧ d = letter t ∧ v = [p, q, r, t] ∧ pads = 0) ∨
       (∃ r < 64, c = letter r ∧ d = '=' ∧ v = [p, q, r, 0] ∧ pads = 1) ∨
       c = '=' ∧ d = '=' ∧ v = [p, q, 0, 0] ∧ pads = 2) := by
  simp only [List.foldlM_cons, List.foldlM_nil, Option.bind_eq_bind, Option.pure_def,
    Option.bind_eq_some_iff] at h
  obtain ⟨⟨v₁, n₁⟩, h1, ⟨v₂, n₂⟩, h2, ⟨v₃, n₃⟩, h3, ⟨v₄, n₄⟩, h4, h5⟩ := h
  cases h5
  rcases digit_some h1 with ⟨p, hp1, rfl, -, e⟩ | ⟨rfl, e⟩ <;> cases e
  swap
  · -- A pad in the first place is followed by pads only.
    rcases digit_some h2 with ⟨q, -, -, h0, -⟩ | ⟨rfl, e⟩
    · cases h0
    cases e
    rcases digit_some h3 with ⟨r, -, -, h0, -⟩ | ⟨rfl, e⟩
    · cases h0
    cases e
    rcases digit_some h4 with ⟨r, -, -, h0, -⟩ | ⟨rfl, e⟩
    · cases h0
    cases e
    omega
  rcases digit_some h2 with ⟨q, hq, rfl, -, e⟩ | ⟨rfl, e⟩ <;> cases e
  swap
  · rcases digit_some h3 with ⟨r, -, -, h0, -⟩ | ⟨rfl, e⟩
    · cases h0
    cases e
    rcases digit_some h4 with ⟨r, -, -, h0, -⟩ | ⟨rfl, e⟩
    · cases h0
    cases e
    omega
  refine ⟨p, hp1, q, hq, rfl, rfl, ?_⟩
  rcases digit_some h3 with ⟨r, hr, rfl, -, e⟩ | ⟨rfl, e⟩ <;> cases e
  · rcases digit_some h4 with ⟨t, ht, rfl, -, e⟩ | ⟨rfl, e⟩ <;> cases e
    · exact .inl ⟨r, hr, t, ht, rfl, rfl, rfl, rfl⟩
    · exact .inr (.inl ⟨r, hr, rfl, rfl, rfl, rfl⟩)
  · rcases digit_some h4 with ⟨t, -, -, h0, -⟩ | ⟨rfl, e⟩
    · cases h0
    cases e
    exact .inr (.inr ⟨rfl, rfl, rfl, rfl⟩)

/-! ### Encoding -/

lemma quads_three (x y z : Byte) (data : Bytes) :
    quads (x :: y :: z :: data) = letter (x.toNat / 4)
      :: letter (x.toNat % 4 * 16 + y.toNat / 16) :: letter (y.toNat % 16 * 4 + z.toNat / 64)
      :: letter (z.toNat % 64) :: quads data := by
  rw [quads, quad, if_pos (by omega), if_pos (by omega)]
  rfl

lemma quads_two (x y : Byte) :
    quads [x, y] = [letter (x.toNat / 4), letter (x.toNat % 4 * 16 + y.toNat / 16),
      letter (y.toNat % 16 * 4), '='] := rfl

lemma quads_one (x : Byte) :
    quads [x] = [letter (x.toNat / 4), letter (x.toNat % 4 * 16), '=', '='] := rfl

/-- What encodes to a text of one quantum at least. -/
lemma quads_cons {bs : Bytes} {a b c d : Char} (h : quads bs = a :: b :: c :: d :: text) :
    ∃ bs₁ bs₂, bs = bs₁ ++ bs₂ ∧ quads bs₁ = [a, b, c, d] ∧ quads bs₂ = text
      ∧ 1 ≤ bs₁.length ∧ bs₁.length ≤ 3 ∧ (bs₁.length < 3 → bs₂ = []) := by
  match bs with
  | [] => cases h
  | [x] =>
    cases h
    exact ⟨[x], [], rfl, rfl, rfl, by simp, by simp, fun _ => rfl⟩
  | [x, y] =>
    cases h
    exact ⟨[x, y], [], rfl, rfl, rfl, by simp, by simp, fun _ => rfl⟩
  | x :: y :: z :: data =>
    rw [quads_three] at h
    cases h
    exact ⟨[x, y, z], data, rfl, quads_three x y z [], rfl, by simp, by simp,
      fun h => absurd h (by simp)⟩

lemma quads_append {bs₁ bs₂ : Bytes} (h : bs₁.length = 3) :
    quads (bs₁ ++ bs₂) = quads bs₁ ++ quads bs₂ := by
  match bs₁, h with
  | [x, y, z], _ =>
    show quads (x :: y :: z :: bs₂) = quads [x, y, z] ++ quads bs₂
    rw [quads_three, quads_three]
    rfl

/-! ### A quantum -/

/-- The buffer after `bs` has been written. -/
def Buffer.write (s : Buffer) (bs : Bytes) : Buffer :=
  bs.foldl (fun s x => s.put x.toNat) s

@[simp] lemma used_write (s : Buffer) (bs : Bytes) : (s.write bs).used = s.used + bs.length := by
  induction bs generalizing s with
  | nil => rfl
  | cons x bs ih =>
    show ((s.put x.toNat).write bs).used = _
    rw [ih, List.length_cons]
    show s.used + 1 + bs.length = _
    omega

@[simp] lemma length_write (s : Buffer) (bs : Bytes) :
    (s.write bs).data.length = s.data.length := by
  induction bs generalizing s with
  | nil => rfl
  | cons x bs ih =>
    show ((s.put x.toNat).write bs).data.length = _
    rw [ih]
    exact List.length_set

lemma take_write (s : Buffer) {bs : Bytes} (h : s.used + bs.length ≤ s.data.length) :
    (s.write bs).data.take (s.used + bs.length) = s.data.take s.used ++ bs := by
  induction bs generalizing s with
  | nil => simp [Buffer.write]
  | cons x bs ih =>
    rw [List.length_cons] at h
    have e := ih (s.put x.toNat) (by
      show s.used + 1 + bs.length ≤ (s.data.set _ _).length
      rw [List.length_set]
      omega)
    have e1 : s.used + (x :: bs).length = (s.put x.toNat).used + bs.length := by
      show _ = s.used + 1 + bs.length
      rw [List.length_cons]
      omega
    show ((s.put x.toNat).write bs).data.take _ = _
    rw [e1, e]
    show (s.data.set s.used (BitVec.ofNat 8 x.toNat)).take (s.used + 1) ++ bs = _
    rw [BitVec.ofNat_toNat, BitVec.setWidth_eq, List.take_set, List.take_succ_eq_append_getElem,
      List.set_append_right _ _ (by simp)]
    · simp [Nat.min_eq_left (show s.used ≤ s.data.length by omega)]
    · omega

lemma emit_done {n : ℕ} (h : s.used < s.data.length) (hn : n ≤ 255) :
    (emit n).run s = .done () (s.put n) := by
  refine done_bind get_done ?_
  rw [if_pos ⟨h, hn⟩]
  rfl

/-- The values `v` with so many pads stand for bytes only if the bits that no byte takes are
zero. -/
def Canonical (v : List ℕ) (pads : ℕ) : Prop :=
  ¬ (pads = 2 ∧ v.getD 1 0 % 16 ≠ 0) ∧ ¬ (pads = 1 ∧ v.getD 2 0 % 4 ≠ 0)

/-- The bytes they stand for. -/
def bytesOf (v : List ℕ) (pads : ℕ) : Bytes :=
  ([v.getD 0 0 * 4 + v.getD 1 0 / 16, v.getD 1 0 % 16 * 16 + v.getD 2 0 / 4,
    v.getD 2 0 % 4 * 64 + v.getD 3 0].take (3 - pads)).map (BitVec.ofNat 8)

lemma ofNat_eq {n : ℕ} {x : Byte} (h : n = x.toNat) : BitVec.ofNat 8 n = x := by
  rw [h, BitVec.ofNat_toNat, BitVec.setWidth_eq]

lemma put_ofNat {n : ℕ} (h : n ≤ 255) : s.put (BitVec.ofNat 8 n).toNat = s.put n := by
  rw [BitVec.toNat_ofNat, Nat.mod_eq_of_lt (by omega)]

/-- **A quantum that is accepted** is written byte by byte, within the buffer. -/
lemma quantum_writes (h : text.foldlM digit ([], 0) = some (v, pads)) (hp : pads ≤ 2)
    (hv : ∀ x ∈ v, x < 64) (hf : 0 < pads → final = true)
    (hs : s.used + (3 - pads) ≤ s.data.length) (hc : Canonical v pads) :
    (quantum final text).run s = .done () (s.write (bytesOf v pads)) := by
  have hd : ∀ i, v.getD i 0 < 64 := fun i => by
    rw [List.getD_eq_getElem?_getD]
    cases hi : v[i]? with
    | none => simp
    | some x => exact hv x (List.mem_of_getElem? hi)
  have h0 := hd 0
  have h1 := hd 1
  have h2 := hd 2
  have h3 := hd 3
  have hreq : ¬ (2 < pads ∨ 0 < pads ∧ final = false ∨ s.data.length < s.used + 3 - pads) := by
    rintro (h4 | ⟨h4, h5⟩ | h4)
    · omega
    · rw [hf h4] at h5
      cases h5
    · omega
  have e0 : v.getD 0 0 * 4 + v.getD 1 0 / 16 ≤ 255 := by omega
  have e1 : v.getD 1 0 % 16 * 16 + v.getD 2 0 / 4 ≤ 255 := by omega
  have e2 : v.getD 2 0 % 4 * 64 + v.getD 3 0 ≤ 255 := by omega
  have hlen : ∀ (s : Buffer) n, (s.put n).data.length = s.data.length := fun s n => List.length_set
  have hused : ∀ (s : Buffer) n, (s.put n).used = s.used + 1 := fun _ _ => rfl
  unfold quantum
  rw [h]
  refine done_bind get_done (done_bind (require_done hreq) (done_bind (require_done hc.1)
    (done_bind (require_done hc.2) (done_bind (emit_done (by omega) e0) ?_))))
  obtain rfl | rfl | rfl : pads = 0 ∨ pads = 1 ∨ pads = 2 := by omega
  · refine done_bind (emit_done (by rw [hused, hlen]; omega) e1) ?_
    refine (emit_done (by rw [hused, hused, hlen, hlen]; omega) e2).trans ?_
    rw [← put_ofNat e0, ← put_ofNat e1, ← put_ofNat e2]
    rfl
  · refine done_bind (emit_done (by rw [hused, hlen]; omega) e1) ?_
    rw [← put_ofNat e0, ← put_ofNat e1]
    rfl
  · rw [← put_ofNat e0]
    rfl

/-- The letters of a byte string of at most three bytes are read as values that stand for it. -/
lemma digits_quads {bs : Bytes} (h1 : 1 ≤ bs.length) (h3 : bs.length ≤ 3) :
    ∃ v, (quads bs).foldlM digit ([], 0) = some (v, 3 - bs.length) ∧ (∀ x ∈ v, x < 64)
      ∧ Canonical v (3 - bs.length) ∧ bytesOf v (3 - bs.length) = bs := by
  match bs, h1, h3 with
  | [x], _, _ =>
    have hx := x.isLt
    refine ⟨[x.toNat / 4, x.toNat % 4 * 16, 0, 0], ?_, by simp; omega, ⟨?_, nofun⟩, ?_⟩
    · rw [quads_one]
      simp only [List.foldlM_cons, digit_letter (show x.toNat / 4 < 64 by omega),
        digit_letter (show x.toNat % 4 * 16 < 64 by omega), digit_pad, Option.bind_eq_bind,
        Option.bind_some]
      rfl
    · simp
    · show [BitVec.ofNat 8 (x.toNat / 4 * 4 + x.toNat % 4 * 16 / 16)] = _
      rw [ofNat_eq (x := x) (by omega)]
  | [x, y], _, _ =>
    have hx := x.isLt
    have hy := y.isLt
    refine ⟨[x.toNat / 4, x.toNat % 4 * 16 + y.toNat / 16, y.toNat % 16 * 4, 0], ?_,
      by simp; omega, ⟨nofun, ?_⟩, ?_⟩
    · rw [quads_two]
      simp only [List.foldlM_cons, digit_letter (show x.toNat / 4 < 64 by omega),
        digit_letter (show x.toNat % 4 * 16 + y.toNat / 16 < 64 by omega),
        digit_letter (show y.toNat % 16 * 4 < 64 by omega), digit_pad, Option.bind_eq_bind,
        Option.bind_some]
      rfl
    · simp
    · show [BitVec.ofNat 8 (x.toNat / 4 * 4 + (x.toNat % 4 * 16 + y.toNat / 16) / 16),
        BitVec.ofNat 8 ((x.toNat % 4 * 16 + y.toNat / 16) % 16 * 16 + y.toNat % 16 * 4 / 4)] = _
      rw [ofNat_eq (x := x) (by omega), ofNat_eq (x := y) (by omega)]
  | [x, y, z], _, _ =>
    have hx := x.isLt
    have hy := y.isLt
    have hz := z.isLt
    refine ⟨[x.toNat / 4, x.toNat % 4 * 16 + y.toNat / 16, y.toNat % 16 * 4 + z.toNat / 64,
      z.toNat % 64], ?_, by simp; omega, ⟨nofun, nofun⟩, ?_⟩
    · rw [quads_three]
      simp only [List.foldlM_cons, digit_letter (show x.toNat / 4 < 64 by omega),
        digit_letter (show x.toNat % 4 * 16 + y.toNat / 16 < 64 by omega),
        digit_letter (show y.toNat % 16 * 4 + z.toNat / 64 < 64 by omega),
        digit_letter (show z.toNat % 64 < 64 by omega), Option.bind_eq_bind, Option.bind_some]
      rfl
    · show [BitVec.ofNat 8 (x.toNat / 4 * 4 + (x.toNat % 4 * 16 + y.toNat / 16) / 16),
        BitVec.ofNat 8 ((x.toNat % 4 * 16 + y.toNat / 16) % 16 * 16
          + (y.toNat % 16 * 4 + z.toNat / 64) / 4),
        BitVec.ofNat 8 ((y.toNat % 16 * 4 + z.toNat / 64) % 4 * 64 + z.toNat % 64)] = _
      rw [ofNat_eq (x := x) (by omega), ofNat_eq (x := y) (by omega),
        ofNat_eq (x := z) (by omega)]

/-- Four characters that are read, with canonical pads, are the letters of the bytes that they
stand for. -/
lemma quads_bytesOf {a b c d : Char} (h : [a, b, c, d].foldlM digit ([], 0) = some (v, pads))
    (hp : pads ≤ 2) (hc : Canonical v pads) :
    quads (bytesOf v pads) = [a, b, c, d] ∧ (bytesOf v pads).length = 3 - pads
      ∧ ∀ x ∈ v, x < 64 := by
  have hn : ∀ n ≤ 255, (BitVec.ofNat 8 n).toNat = n := fun n hn => by
    rw [BitVec.toNat_ofNat, Nat.mod_eq_of_lt (by omega)]
  obtain ⟨p, hp', q, hq, rfl, rfl, hd⟩ := digits_some h hp
  clear h
  rcases hd with ⟨r, hr, t, ht, rfl, rfl, rfl, rfl⟩ | ⟨r, hr, rfl, rfl, rfl, rfl⟩
    | ⟨rfl, rfl, rfl, rfl⟩
  · refine ⟨?_, rfl, by simp [hp', hq, hr, ht]⟩
    show quads [BitVec.ofNat 8 (p * 4 + q / 16), BitVec.ofNat 8 (q % 16 * 16 + r / 4),
      BitVec.ofNat 8 (r % 4 * 64 + t)] = _
    rw [quads_three, hn _ (by omega), hn _ (by omega), hn _ (by omega),
      show (p * 4 + q / 16) / 4 = p by omega,
      show (p * 4 + q / 16) % 4 * 16 + (q % 16 * 16 + r / 4) / 16 = q by omega,
      show (q % 16 * 16 + r / 4) % 16 * 4 + (r % 4 * 64 + t) / 64 = r by omega,
      show (r % 4 * 64 + t) % 64 = t by omega]
    rfl
  · refine ⟨?_, rfl, by simp [hp', hq, hr]⟩
    have h4 : r % 4 = 0 := by
      by_contra h4
      exact hc.2 ⟨rfl, h4⟩
    show quads [BitVec.ofNat 8 (p * 4 + q / 16), BitVec.ofNat 8 (q % 16 * 16 + r / 4)] = _
    rw [quads_two, hn _ (by omega), hn _ (by omega), show (p * 4 + q / 16) / 4 = p by omega,
      show (p * 4 + q / 16) % 4 * 16 + (q % 16 * 16 + r / 4) / 16 = q by omega,
      show (q % 16 * 16 + r / 4) % 16 * 4 = r by omega]
  · refine ⟨?_, rfl, by simp [hp', hq]⟩
    have h16 : q % 16 = 0 := by
      by_contra h16
      exact hc.1 ⟨rfl, h16⟩
    show quads [BitVec.ofNat 8 (p * 4 + q / 16)] = _
    rw [quads_one, hn _ (by omega), show (p * 4 + q / 16) / 4 = p by omega,
      show (p * 4 + q / 16) % 4 * 16 = q by omega]

/-- A quantum is refused, or it is one that is written. -/
lemma quantum_cases (final : Bool) (text : List Char) (s : Buffer) :
    (quantum final text).run s = .refused s ∨ ∃ v pads, text.foldlM digit ([], 0) = some (v, pads)
      ∧ pads ≤ 2 ∧ (0 < pads → final = true) ∧ s.used + (3 - pads) ≤ s.data.length
      ∧ Canonical v pads := by
  unfold quantum
  cases h : text.foldlM digit ([], 0) with
  | none => exact .inl rfl
  | some st =>
    obtain ⟨v, pads⟩ := st
    dsimp only
    by_cases h1 : ¬ (2 < pads ∨ 0 < pads ∧ final = false ∨ s.data.length < s.used + 3 - pads)
    swap
    · exact .inl (done_bind get_done (refused_bind (require_refused h1)))
    by_cases h2 : ¬ (pads = 2 ∧ v.getD 1 0 % 16 ≠ 0)
    swap
    · exact .inl (done_bind get_done (done_bind (require_done h1)
        (refused_bind (require_refused h2))))
    by_cases h3 : ¬ (pads = 1 ∧ v.getD 2 0 % 4 ≠ 0)
    swap
    · exact .inl (done_bind get_done (done_bind (require_done h1) (done_bind (require_done h2)
        (refused_bind (require_refused h3)))))
    push Not at h1
    refine .inr ⟨v, pads, rfl, h1.1, fun h0 => ?_, by omega, h2, h3⟩
    simpa using h1.2.1 h0

/-! ### The loop -/

/-- The text that some bytes quads to is read, if they fit. -/
lemma quanta_quads {bs : Bytes} (h : quads bs = text)
    (hs : s.used + bs.length ≤ s.data.length) : (quanta text).run s = .done () (s.write bs) := by
  induction text using quanta.induct generalizing bs s with
  | case1 =>
    match bs, h with
    | [], _ => rfl
    | [_], h | [_, _], h => cases h
    | _ :: _ :: _ :: _, h => rw [quads_three] at h; cases h
  | case2 a b c d text ih =>
    obtain ⟨bs₁, bs₂, rfl, h1, h2, hl1, hl3, hlast⟩ := quads_cons h
    obtain ⟨v, hv, h64, hc, hb⟩ := digits_quads hl1 hl3
    rw [List.length_append] at hs
    rw [h1] at hv
    have hq : (quantum text.isEmpty [a, b, c, d]).run s = .done () (s.write _) :=
      quantum_writes hv (by omega) h64 (fun h0 => by rw [← h2, hlast (by omega)]; rfl)
        (by omega) hc
    rw [hb] at hq
    refine (done_bind hq (ih h2 ?_)).trans ?_
    · rw [used_write, length_write]
      omega
    · simp [Buffer.write, List.foldl_append]
  | case3 text h0 h4 =>
    match bs, h with
    | [], h => exact absurd h.symm h0
    | [_], h | [_, _], h => exact absurd h.symm (h4 _ _ _ _ _)
    | _ :: _ :: _ :: _, h =>
      rw [quads_three] at h
      exact absurd h.symm (h4 _ _ _ _ _)

lemma quads_eq_nil {bs : Bytes} (h : quads bs = []) : bs = [] := by
  match bs with
  | [] => rfl
  | [_] | [_, _] => cases h
  | _ :: _ :: _ :: _ => rw [quads_three] at h; cases h

/-- The loop refuses the text, or some bytes that fit quads to it. -/
lemma quanta_cases (h4 : text.length % 4 = 0) (hs : s.used ≤ s.data.length) :
    (∃ s', (quanta text).run s = .refused s' ∧ s'.data.length = s.data.length
      ∧ s'.used ≤ s.data.length) ∨
    ∃ bs, quads bs = text ∧ s.used + bs.length ≤ s.data.length := by
  induction text using quanta.induct generalizing s with
  | case1 => exact .inr ⟨[], rfl, hs⟩
  | case2 a b c d text ih =>
    rcases quantum_cases text.isEmpty [a, b, c, d] s with h | ⟨v, pads, hv, hp, hf, hfits, hc⟩
    · exact .inl ⟨s, refused_bind h, rfl, hs⟩
    obtain ⟨he, hl, h64⟩ := quads_bytesOf hv hp hc
    have hq := quantum_writes hv hp h64 hf hfits hc
    have h4' : text.length % 4 = 0 := by
      simp only [List.length_cons] at h4
      omega
    rcases ih (s := s.write (bytesOf v pads)) h4' (by rw [used_write, length_write]; omega) with
      ⟨s', h1, h2, h3⟩ | ⟨bs, h1, h2⟩
    · rw [length_write] at h2 h3
      exact .inl ⟨s', done_bind hq h1, h2, h3⟩
    rw [used_write, length_write] at h2
    refine .inr ⟨bytesOf v pads ++ bs, ?_, by rw [List.length_append]; omega⟩
    by_cases h0 : pads = 0
    · rw [quads_append (by omega), he, h1]
      rfl
    · -- Only the last quantum is padded.
      have ht : text = [] := by simpa using hf (by omega)
      rw [ht] at h1 ⊢
      rw [quads_eq_nil h1, List.append_nil, he]
  | case3 text h0 h5 =>
    match text, h0, h5, h4 with
    | [], h0, _, _ => exact absurd rfl h0
    | [_], _, _, h4 | [_, _], _, _, h4 | [_, _, _], _, _, h4 => simp at h4
    | a :: b :: c :: d :: text, _, h5, _ => exact absurd rfl (h5 a b c d text)

lemma length_quads_mod (bs : Bytes) : (quads bs).length % 4 = 0 := by
  induction bs using quads.induct with
  | case1 | case2 | case3 => simp [quads, quad]
  | case4 x y z data ih =>
    rw [quads_three]
    simp only [List.length_cons]
    omega

/-- Bytes that quads to one text are the same. -/
lemma quads_inj {bs bs' : Bytes} (h : quads bs = quads bs') : bs = bs' := by
  -- Both are what is read of the text into a buffer that has room for either.
  let s : Buffer := ⟨List.replicate (max bs.length bs'.length) 0, 0⟩
  have hl : s.data.length = max bs.length bs'.length := List.length_replicate
  have r1 : s.used + bs.length ≤ s.data.length := by rw [hl]; simp [s]
  have r2 : s.used + bs'.length ≤ s.data.length := by rw [hl]; simp [s]
  have h1 := quanta_quads rfl r1
  have h2 := quanta_quads rfl r2
  rw [h, h2] at h1
  have hw : s.write bs' = s.write bs := by injection h1
  have hu : bs'.length = bs.length := by
    have := congrArg Buffer.used hw
    simpa [s] using this
  have e1 := take_write s r1
  have e2 := take_write s r2
  rw [hw, hu, e1] at e2
  exact List.append_cancel_left e2

/-! ### The codecs -/

/-- **What is decoded** is what encodes to the text. -/
theorem decode_spec (text : List Char) (n : ℕ) :
    ∃ r, decode text n = some r ∧ r.data.length = n ∧ r.used ≤ n ∧
      ∀ bs : Bytes, r.status = .ok ∧ r.data.take r.used = bs ↔
        text.length ≤ 1398104 ∧ quads bs = text ∧ bs.length ≤ n := by
  unfold decode
  by_cases hg : text.length % 4 ≠ 0 ∨ 1398104 < text.length
  · rw [if_pos hg]
    refine ⟨_, rfl, List.length_replicate, Nat.zero_le _, fun bs => ⟨nofun, ?_⟩⟩
    rintro ⟨h1, rfl, -⟩
    have := length_quads_mod bs
    omega
  rw [if_neg hg]
  push Not at hg
  have hn : (List.replicate n (0 : Byte)).length = n := List.length_replicate
  have hdone : ∀ bs, quads bs = text → bs.length ≤ n → (quanta text).run ⟨List.replicate n 0, 0⟩
      = .done () (Buffer.write ⟨List.replicate n 0, 0⟩ bs) := fun bs h hl =>
    quanta_quads h (by show 0 + bs.length ≤ _; rw [Nat.zero_add, hn]; exact hl)
  rcases quanta_cases (s := ⟨List.replicate n 0, 0⟩) hg.1 (Nat.zero_le _) with
    ⟨s', h, h1, h2⟩ | ⟨bs, h, h1⟩
  · rw [h]
    refine ⟨_, rfl, h1.trans hn, h2.trans hn.le, fun bs => ⟨nofun, ?_⟩⟩
    rintro ⟨-, h3, h4⟩
    rw [hdone bs h3 h4] at h
    cases h
  · have hl : bs.length ≤ n := by
      have h2 : 0 + bs.length ≤ (List.replicate n (0 : Byte)).length := h1
      rw [hn] at h2
      omega
    rw [hdone bs h hl]
    generalize hs : Buffer.write ⟨List.replicate n 0, 0⟩ bs = s'
    have hu : s'.used = bs.length := by
      rw [← hs, used_write]
      exact Nat.zero_add _
    have ht : s'.data.take s'.used = bs := by
      rw [← hs, used_write, take_write _ h1]
      rfl
    have hlen : s'.data.length = n := by rw [← hs, length_write, hn]
    refine ⟨_, rfl, hlen, hu.le.trans hl, fun bs' => ?_⟩
    dsimp only
    rw [ht, and_iff_right rfl, and_iff_right hg.2]
    constructor
    · rintro rfl
      exact ⟨h, hl⟩
    · rintro ⟨h3, -⟩
      exact quads_inj (h.trans h3.symm)

example : decode "TWE=".toList 4 = some ⟨[77, 97, 0, 0], 2, .ok⟩ := by decide +kernel

example : (decode "TWF=".toList 4).map (·.status) = some .invalidInput := by decide +kernel

lemma encode_some {bs : Bytes} :
    encode bs = some text ↔ bs.length ≤ 1048576 ∧ quads bs = text := by
  unfold encode
  by_cases h : bs.length ≤ 1048576
  · rw [if_pos h, Option.some.injEq]
    exact ⟨fun he => ⟨h, he⟩, fun he => he.2⟩
  · rw [if_neg h]
    exact ⟨nofun, fun he => absurd he.1 h⟩

lemma encode_none {bs : Bytes} : encode bs = none ↔ 1048576 < bs.length := by
  unfold encode
  by_cases h : bs.length ≤ 1048576
  · rw [if_pos h]
    exact ⟨nofun, fun hl => absurd h (by omega)⟩
  · rw [if_neg h]
    exact ⟨fun _ => by omega, fun _ => rfl⟩

/-- Three characters of four, rounded up. -/
lemma length_quads (bs : Bytes) : (quads bs).length = 4 * ((bs.length + 2) / 3) := by
  induction bs using quads.induct with
  | case1 | case2 | case3 => simp [quads, quad]
  | case4 x y z data ih =>
    rw [quads_three]
    simp only [List.length_cons, ih]
    omega

/-- **The text codecs are strict**: decoding answers `OK` exactly for the text that its result
encodes to, so that it is injective. The longest texts alone stand for one or two bytes more than
`Encode` takes. A refused hexadecimal text leaves zeros. -/
theorem strict_codecs (text : List Char) (n : ℕ) :
    (∃ r, decode text n = some r ∧ r.data.length = n ∧ r.used ≤ n ∧
      (∀ bs : Bytes, bs.length ≤ 1048576 ∧ r.status = .ok ∧ r.data.take r.used = bs ↔
        text.length ≤ 1398104 ∧ encode bs = some text ∧ bs.length ≤ n) ∧
      (∀ bs : Bytes, 1048576 < bs.length ∧ r.status = .ok ∧ r.data.take r.used = bs ↔
        encode bs = none ∧ text.length = 1398104 ∧ quads bs = text ∧ bs.length ≤ n) ∧
      ∀ text' r', decode text' n = some r' → r.status = .ok → r'.status = .ok →
        r.data.take r.used = r'.data.take r'.used → text = text') ∧
    (∀ data : Bytes, Hex.decode text n = (data, .ok) ↔
      data.length = n ∧ Hex.encode data = text) ∧
    ((Hex.decode text n).2 ≠ .ok → (Hex.decode text n).1 = List.replicate n 0) := by
  obtain ⟨r, h1, h2, h3, h4⟩ := decode_spec text n
  refine ⟨⟨r, h1, h2, h3, fun bs => ?_, fun bs => ?_, fun text' r' hr' ho ho' he => ?_⟩,
    Hex.decode_spec text n⟩
  · rw [h4, encode_some]
    tauto
  · rw [h4, encode_none]
    constructor
    · rintro ⟨hb, ht, he, hn⟩
      refine ⟨hb, ?_, he, hn⟩
      have hl := length_quads bs
      rw [he] at hl
      omega
    · rintro ⟨hb, ht, he, hn⟩
      exact ⟨hb, ht.le, he, hn⟩
  · obtain ⟨r'', h5, -, -, h6⟩ := decode_spec text' n
    obtain rfl : r'' = r' := Option.some.inj (h5.symm.trans hr')
    have e1 := (h4 _).1 ⟨ho, rfl⟩
    have e2 := (h6 _).1 ⟨ho', rfl⟩
    rw [← e1.2.1, ← e2.2.1, he]

lemma quads_zeros (k : ℕ) : quads (List.replicate (3 * k) 0) = List.replicate (4 * k) 'A' := by
  induction k with
  | zero => rfl
  | succ k ih =>
    rw [Nat.mul_succ, Nat.mul_succ]
    show quads (0 :: 0 :: 0 :: List.replicate (3 * k) 0) = 'A' :: 'A' :: 'A' :: 'A' :: _
    rw [quads_three, ih]
    rfl

/-- The longest text is decoded as 1048578 bytes, which `Encode` does not take. -/
theorem encode_refuses_decoded :
    ∃ r, decode (List.replicate (4 * 349526) 'A') (3 * 349526) = some r ∧ r.status = .ok ∧
      r.data.take r.used = List.replicate (3 * 349526) 0 ∧
      encode (List.replicate (3 * 349526) 0) = none := by
  obtain ⟨r, h1, -, -, h4⟩ := decode_spec (List.replicate (4 * 349526) 'A') (3 * 349526)
  have h := (h4 (List.replicate (3 * 349526) 0)).2
    ⟨by rw [List.length_replicate], quads_zeros _, by rw [List.length_replicate]⟩
  refine ⟨r, h1, h.1, h.2, encode_none.2 ?_⟩
  rw [List.length_replicate]
  omega

end NiayanAssurance.Base64
