import NiayanAssurance.Types

/-!
Bytes in lowercase hexadecimal digits.
-/

namespace NiayanAssurance.Hex

open NiayanAssurance.Lib NiayanAssurance.Types

def table : List Char := "0123456789abcdef".toList

/-- `Table (N + 1)`. -/
def digit (n : ℕ) : Char := table.getD n '0'

def encode : Bytes → List Char
  | [] => []
  | x :: data => digit (x.toNat / 16) :: digit (x.toNat % 16) :: encode data

/-- Uppercase is deliberately not canonical; `-1` is none. -/
def nibble (c : Char) : Option ℕ :=
  if '0' ≤ c ∧ c ≤ '9' then some (c.toNat - '0'.toNat)
  else if 'a' ≤ c ∧ c ≤ 'f' then some (c.toNat - 'a'.toNat + 10)
  else none

/-- The loop of `Decode`: the bytes that the text stands for. -/
def digits : List Char → Option Bytes
  | [] => some []
  | [_] => none
  | a :: b :: text => do
    let m ← nibble a
    let n ← nibble b
    let data ← digits text
    return BitVec.ofNat 8 (m * 16 + n) :: data

/-- `Decode` into a buffer of `n` bytes. No text is longer than `Integer'Last`, which is all that
the guard on `Data'Length` adds. -/
def decode (text : List Char) (n : ℕ) : Bytes × Outcome :=
  if text.length ≠ n * 2 then (List.replicate n 0, .invalidInput)
  else
    match digits text with
    | none => (List.replicate n 0, .invalidInput)
    | some data => (data, .ok)

lemma nibble_digit {n : ℕ} (h : n < 16) : nibble (digit n) = some n := by
  have key : ∀ n : Fin 16, nibble (digit n) = some (n : ℕ) := by decide +kernel
  exact key ⟨n, h⟩

/-- The digits are read back, and nothing else is read. -/
lemma nibble_some {c : Char} {n : ℕ} (h : nibble c = some n) : n < 16 ∧ digit n = c := by
  unfold nibble at h
  have key : ∀ m : Fin 16, digit m = Char.ofNat (if (m : ℕ) < 10 then 48 + m else 87 + m) := by
    decide +kernel
  split_ifs at h with h1 h2 <;> obtain rfl := Option.some.inj h
  · obtain ⟨h3, h4⟩ : 48 ≤ c.toNat ∧ c.toNat ≤ 57 := h1
    have hd : '0'.toNat = 48 := rfl
    refine ⟨by omega, ?_⟩
    have e := key ⟨c.toNat - '0'.toNat, by omega⟩
    rw [if_pos (by dsimp only; omega), show 48 + (c.toNat - '0'.toNat) = c.toNat by omega] at e
    exact e.trans (Char.ofNat_toNat c)
  · obtain ⟨h3, h4⟩ : 97 ≤ c.toNat ∧ c.toNat ≤ 102 := h2
    have hd : 'a'.toNat = 97 := rfl
    refine ⟨by omega, ?_⟩
    have e := key ⟨c.toNat - 'a'.toNat + 10, by omega⟩
    rw [if_neg (by dsimp only; omega),
      show 87 + (c.toNat - 'a'.toNat + 10) = c.toNat by omega] at e
    exact e.trans (Char.ofNat_toNat c)

@[simp] lemma length_encode (data : Bytes) : (encode data).length = data.length * 2 := by
  induction data with
  | nil => rfl
  | cons x data ih => rw [encode, List.length_cons, List.length_cons, ih, List.length_cons]; omega

lemma digits_iff {text : List Char} {data : Bytes} :
    digits text = some data ↔ encode data = text := by
  constructor
  · intro h
    induction text using digits.induct generalizing data with
    | case1 => cases h; rfl
    | case2 => cases h
    | case3 a b text ih =>
      simp only [digits, Option.bind_eq_bind, Option.bind_eq_some_iff, Option.pure_def,
        Option.some.injEq] at h
      obtain ⟨m, hm, n, hn, d, hd, rfl⟩ := h
      obtain ⟨hm1, hm2⟩ := nibble_some hm
      obtain ⟨hn1, hn2⟩ := nibble_some hn
      have hx : (BitVec.ofNat 8 (m * 16 + n)).toNat = m * 16 + n := by
        rw [BitVec.toNat_ofNat, Nat.mod_eq_of_lt (by omega)]
      rw [encode, hx, ih hd, show (m * 16 + n) / 16 = m by omega,
        show (m * 16 + n) % 16 = n by omega, hm2, hn2]
  · rintro rfl
    induction data with
    | nil => rfl
    | cons x data ih =>
      have hx := x.isLt
      simp only [encode, digits, ih, nibble_digit (show x.toNat / 16 < 16 by omega),
        nibble_digit (show x.toNat % 16 < 16 by omega), Option.bind_eq_bind, Option.bind_some,
        Option.pure_def]
      rw [show x.toNat / 16 * 16 + x.toNat % 16 = x.toNat by omega, BitVec.ofNat_toNat,
        BitVec.setWidth_eq]

/-- **What is decoded** is what encodes to the text; otherwise the buffer is left zero. -/
theorem decode_spec (text : List Char) (n : ℕ) :
    (∀ data : Bytes, decode text n = (data, .ok) ↔ data.length = n ∧ encode data = text) ∧
    ((decode text n).2 ≠ .ok → (decode text n).1 = List.replicate n 0) := by
  unfold decode
  by_cases hn : text.length ≠ n * 2
  · rw [if_pos hn]
    refine ⟨fun data => ⟨nofun, ?_⟩, fun _ => rfl⟩
    rintro ⟨rfl, rfl⟩
    exact absurd (length_encode data) hn
  · rw [if_neg hn]
    push Not at hn
    cases hd : digits text with
    | none =>
      refine ⟨fun data => ⟨nofun, fun h => ?_⟩, fun _ => rfl⟩
      rw [digits_iff.2 h.2] at hd
      cases hd
    | some d =>
      refine ⟨fun data => ?_, fun h => absurd rfl h⟩
      have he := digits_iff.1 hd
      rw [Prod.mk.injEq, and_iff_left rfl]
      constructor
      · rintro rfl
        refine ⟨?_, he⟩
        have := length_encode d
        rw [he, hn] at this
        omega
      · rintro ⟨-, he'⟩
        exact Option.some.inj (hd.symm.trans (digits_iff.2 he'))

end NiayanAssurance.Hex
