import NiayanAssurance.Types
import Mathlib.Data.List.Induction
import Mathlib.Data.Nat.Basic
import Mathlib.Tactic.NormNum
import Mathlib.Tactic.Ring

/-!
Counters as decimal text, read and written.

A number has one text, its numeral without leading zeros, so what is written is read back and what
is read would be written the same.
-/

namespace NiayanAssurance.Numbers

open NiayanAssurance.Lib NiayanAssurance.Types

def isDigit (b : Byte) : Bool := 48#8 ≤ b ∧ b ≤ 57#8

/-- The value of decimal digits. -/
def decimalValue (b : Bytes) : ℕ := b.foldl (fun n c => n * 10 + (c.toNat - 48)) 0

/-- Decimal digits without a leading zero. -/
def Decimal (b : Bytes) : Prop :=
  b ≠ [] ∧ (∀ c ∈ b, isDigit c = true) ∧ (1 < b.length → b.head? ≠ some 48#8)

/-! ### The numeral of a number -/

def digit (d : ℕ) : Byte := BitVec.ofNat 8 (48 + d)

/-- The decimal numeral of `n`, without leading zeros. -/
def numeral (n : ℕ) : Bytes := (Nat.toDigits 10 n).map fun c => BitVec.ofNat 8 c.toNat

lemma toNat_digit {d : ℕ} (h : d < 10) : (digit d).toNat = 48 + d := by
  rw [digit, BitVec.toNat_ofNat]
  omega

lemma digit_digitChar {d : ℕ} (h : d < 10) : BitVec.ofNat 8 d.digitChar.toNat = digit d := by
  have key : ∀ d : Fin 10, BitVec.ofNat 8 (d : ℕ).digitChar.toNat = digit d := by decide
  exact key ⟨d, h⟩

lemma isDigit_digit {d : ℕ} (h : d < 10) : isDigit (digit d) = true := by
  have hd := toNat_digit h
  simp only [isDigit, decide_eq_true_eq]
  bv_omega

/-- The last digit is the remainder by ten, and the others are the numeral of the quotient. -/
lemma numeral_eq (n : ℕ) :
    numeral n = if n < 10 then [digit n] else numeral (n / 10) ++ [digit (n % 10)] := by
  unfold numeral
  rw [Nat.toDigits_eq_if (by norm_num)]
  split_ifs with h
  · rw [List.map_singleton, digit_digitChar h]
  · rw [List.map_append, List.map_singleton, digit_digitChar (Nat.mod_lt _ (by norm_num))]

lemma numeral_ne_nil (n : ℕ) : numeral n ≠ [] := by
  rw [numeral, ne_eq, List.map_eq_nil_iff]
  exact Nat.toDigits_ne_nil

lemma decimalValue_append (b : Bytes) (c : Byte) :
    decimalValue (b ++ [c]) = decimalValue b * 10 + (c.toNat - 48) := by
  rw [decimalValue, List.foldl_append, List.foldl_cons, List.foldl_nil, decimalValue]

lemma head?_append_of_ne_nil {b : Bytes} (h : b ≠ []) (c : Byte) :
    (b ++ [c]).head? = b.head? := by
  obtain ⟨a, b, rfl⟩ := List.exists_cons_of_ne_nil h
  rfl

/-- No numeral but that of zero begins with a zero. -/
lemma numeral_head {n : ℕ} (h : 0 < n) : (numeral n).head? ≠ some 48#8 := by
  induction n using Nat.strong_induction_on with
  | _ n ih =>
    rw [numeral_eq]
    split_ifs with hn
    · have hd := toNat_digit hn
      intro h0
      have h1 : digit n = 48#8 := Option.some.inj h0
      rw [h1] at hd
      have : (48#8).toNat = 48 := rfl
      omega
    · rw [head?_append_of_ne_nil (numeral_ne_nil _)]
      exact ih (n / 10) (by omega) (by omega)

lemma numeral_digits (n : ℕ) : ∀ c ∈ numeral n, isDigit c = true := by
  induction n using Nat.strong_induction_on with
  | _ n ih =>
    rw [numeral_eq]
    split_ifs with hn
    · intro c hc
      rw [List.mem_singleton.1 hc]
      exact isDigit_digit hn
    · intro c hc
      rcases List.mem_append.1 hc with hc | hc
      · exact ih (n / 10) (by omega) c hc
      · rw [List.mem_singleton.1 hc]
        exact isDigit_digit (Nat.mod_lt _ (by norm_num))

lemma numeral_value (n : ℕ) : decimalValue (numeral n) = n := by
  induction n using Nat.strong_induction_on with
  | _ n ih =>
    rw [numeral_eq]
    split_ifs with hn
    · have hd := toNat_digit hn
      rw [← List.nil_append [digit n], decimalValue_append]
      simp only [decimalValue, List.foldl_nil]
      omega
    · have hd := toNat_digit (Nat.mod_lt n (show 0 < 10 by norm_num))
      rw [decimalValue_append, ih (n / 10) (by omega)]
      omega

lemma numeral_decimal (n : ℕ) : Decimal (numeral n) := by
  refine ⟨numeral_ne_nil n, numeral_digits n, fun hlen => numeral_head ?_⟩
  rw [numeral_eq] at hlen
  split_ifs at hlen with h
  · simp at hlen
  · omega

lemma digit_of_isDigit {c : Byte} (h : isDigit c = true) :
    c.toNat - 48 < 10 ∧ digit (c.toNat - 48) = c := by
  have key : ∀ c : Byte, isDigit c = true → c.toNat - 48 < 10 ∧ digit (c.toNat - 48) = c := by
    decide +kernel
  exact key c h

/-- Digits without a leading zero are the numeral of their value. The induction takes the digits
off from the end, as the division by ten does. -/
lemma eq_numeral {b : Bytes} (h : Decimal b) : b = numeral (decimalValue b) := by
  induction b using List.reverseRecOn with
  | nil => exact absurd rfl h.1
  | append_singleton b c ih =>
    obtain ⟨-, hd, h0⟩ := h
    obtain ⟨hc, hdc⟩ := digit_of_isDigit (hd c (by simp))
    rw [decimalValue_append]
    by_cases hb : b = []
    · subst hb
      rw [show decimalValue [] * 10 + (c.toNat - 48) = c.toNat - 48 from Nat.zero_add _,
        numeral_eq, if_pos hc, hdc, List.nil_append]
    · have hhead : b.head? ≠ some 48#8 := by
        rw [← head?_append_of_ne_nil hb c]
        refine h0 ?_
        have := List.length_pos_iff.2 hb
        rw [List.length_append, List.length_singleton]
        omega
      have ih := ih ⟨hb, fun c hc => hd c (List.mem_append_left _ hc), fun _ => hhead⟩
      have hpos : 0 < decimalValue b := by
        refine Nat.pos_of_ne_zero fun hz => hhead ?_
        rw [ih, hz]
        rfl
      rw [numeral_eq, if_neg (by omega)]
      have hq : (decimalValue b * 10 + (c.toNat - 48)) / 10 = decimalValue b := by omega
      have hr : (decimalValue b * 10 + (c.toNat - 48)) % 10 = c.toNat - 48 := by omega
      rw [hq, hr, hdc, ← ih]

/-- The numeral of `n` is the one text of decimal digits without a leading zero that is worth
`n`. -/
theorem numeral_iff {b : Bytes} {n : ℕ} : b = numeral n ↔ Decimal b ∧ decimalValue b = n := by
  constructor
  · rintro rfl
    exact ⟨numeral_decimal n, numeral_value n⟩
  · rintro ⟨h, rfl⟩
    exact eq_numeral h

/-! ### Reading -/

/-- The loop of `Parse` on counters: none where a value is out of its range. The base type of
the counters ends where they do. -/
def digitsCounter : Bytes → Counter → Option (Counter × Outcome)
  | [], n => some (n, .ok)
  | c :: rest, n =>
    if ¬ isDigit c then some (n, .invalidInput)
    else do
      let d ← Counter.checked (c.toNat - 48)
      if (Counter.last - (d : ℕ)) / 10 < (n : ℕ) then return (n, .invalidInput)
      let tens ← Counter.checked ((n : ℕ) * 10)
      let n ← Counter.checked ((tens : ℕ) + (d : ℕ))
      digitsCounter rest n

/-- `Parse`, with what it would raise. -/
def parse (s : Bytes) : Option (Counter × Outcome) :=
  if s.length = 0 ∨ 19 < s.length then some (0, .invalidInput)
  else if 1 < s.length ∧ s.head? = some 48#8 then some (0, .invalidInput)
  else digitsCounter s 0

/-! ### The same without a bound -/

/-- The loop of `Parse` on numbers that cannot leave their range. -/
def digits : Bytes → ℕ → ℕ × Outcome
  | [], n => (n, .ok)
  | c :: rest, n =>
    if ¬ isDigit c then (n, .invalidInput)
    else if (Counter.last - (c.toNat - 48)) / 10 < n then (n, .invalidInput)
    else digits rest (n * 10 + (c.toNat - 48))

/-- What `parse` returns, if it returns. -/
def numbersParse (s : Bytes) : Counter × Outcome :=
  if s.length = 0 ∨ 19 < s.length then (0, .invalidInput)
  else if 1 < s.length ∧ s.head? = some 48#8 then (0, .invalidInput)
  else ((digits s 0).1 |> Counter.ofNat, (digits s 0).2)

lemma digit_le {c : Byte} (h : isDigit c = true) : c.toNat - 48 ≤ 9 := by
  simp only [isDigit, decide_eq_true_eq] at h
  bv_omega

/-- The guard before every digit keeps every value in range. -/
lemma digitsCounter_eq (b : Bytes) (n : Counter) :
    digitsCounter b n = some ((digits b n).1 |> Counter.ofNat, (digits b n).2) := by
  induction b generalizing n with
  | nil => rw [digitsCounter, digits, Counter.ofNat_val]
  | cons c b ih =>
    rw [digitsCounter, digits]
    by_cases hc : isDigit c = true
    · have hd := digit_le hc
      have hlast : 9 ≤ Counter.last := by decide
      have hd' : c.toNat - 48 ≤ Counter.last := hd.trans hlast
      rw [if_neg (not_not.2 hc), if_neg (not_not.2 hc), Counter.checked_le hd',
        Option.bind_eq_bind, Option.bind_some, Counter.val_ofNat hd']
      by_cases ho : (Counter.last - (c.toNat - 48)) / 10 < (n : ℕ)
      · rw [if_pos ho, if_pos ho, Counter.ofNat_val]
        rfl
      · have htens : (n : ℕ) * 10 ≤ Counter.last := by omega
        have hnext : (n : ℕ) * 10 + (c.toNat - 48) ≤ Counter.last := by omega
        rw [if_neg ho, if_neg ho, Counter.checked_le htens]
        simp only [Option.bind_some, Counter.val_ofNat htens]
        rw [Counter.checked_le hnext, Option.bind_some, ih, Counter.val_ofNat hnext]
    · rw [if_pos hc, if_pos hc, Counter.ofNat_val]

/-- No text makes `Parse` raise. -/
lemma parse_eq (s : Bytes) : parse s = some (numbersParse s) := by
  unfold parse numbersParse
  by_cases h1 : s.length = 0 ∨ 19 < s.length
  · rw [if_pos h1, if_pos h1]
  rw [if_neg h1, if_neg h1]
  by_cases h2 : 1 < s.length ∧ s.head? = some 48#8
  · rw [if_pos h2, if_pos h2]
  · rw [if_neg h2, if_neg h2]
    exact digitsCounter_eq s 0

lemma le_foldl (b : Bytes) (n : ℕ) :
    n * 10 ^ b.length ≤ b.foldl (fun n c => n * 10 + (c.toNat - 48)) n := by
  induction b generalizing n with
  | nil => simp
  | cons c b ih =>
    calc n * 10 ^ (b.length + 1) = n * 10 * 10 ^ b.length := by ring
      _ ≤ (n * 10 + (c.toNat - 48)) * 10 ^ b.length := Nat.mul_le_mul_right _ (by omega)
      _ ≤ _ := ih _

/-- The loop over the digits ends well exactly on the numbers in range. -/
lemma digits_ok (b : Bytes) {n : ℕ} (hn : n ≤ Counter.last) :
    ((digits b n).2 = .ok ↔ (∀ c ∈ b, isDigit c = true) ∧
      b.foldl (fun n c => n * 10 + (c.toNat - 48)) n ≤ Counter.last) ∧
    ((digits b n).2 = .ok →
      (digits b n).1 = b.foldl (fun n c => n * 10 + (c.toNat - 48)) n) := by
  induction b generalizing n with
  | nil => simp [digits, hn]
  | cons c b ih =>
    rw [digits, List.foldl_cons]
    by_cases hc : isDigit c = true
    · have hd := digit_le hc
      rw [if_neg (not_not.2 hc)]
      by_cases ho : (Counter.last - (c.toNat - 48)) / 10 < n
      · -- too large now is too large at the end
        have hbig : Counter.last < n * 10 + (c.toNat - 48) := by
          unfold Counter.last at ho ⊢
          omega
        have hle := le_foldl b (n * 10 + (c.toNat - 48))
        have hpow : 1 ≤ 10 ^ b.length := Nat.one_le_pow _ _ (by norm_num)
        have hmul : n * 10 + (c.toNat - 48) ≤ (n * 10 + (c.toNat - 48)) * 10 ^ b.length :=
          Nat.le_mul_of_pos_right _ hpow
        rw [if_pos ho]
        exact ⟨⟨fun h => (by cases h), fun h => absurd h.2 (by omega)⟩, fun h => by cases h⟩
      · rw [if_neg ho]
        have hsmall : n * 10 + (c.toNat - 48) ≤ Counter.last := by
          unfold Counter.last at ho ⊢
          omega
        obtain ⟨h1, h2⟩ := ih hsmall
        exact ⟨by rw [h1]; simp [hc], h2⟩
    · rw [if_pos hc]
      exact ⟨⟨fun h => (by cases h), fun h => absurd (h.1 c (List.mem_cons_self ..)) hc⟩,
        fun h => by cases h⟩

/-- A number in range has at most 19 digits. -/
lemma decimal_length {b : Bytes} (h : Decimal b) (hle : decimalValue b ≤ Counter.last) :
    b.length ≤ 19 := by
  obtain ⟨hne, hd, h0⟩ := h
  by_contra hlen
  obtain ⟨c, b, rfl⟩ := List.exists_cons_of_ne_nil hne
  rw [List.length_cons] at hlen h0
  have hc : 1 ≤ c.toNat - 48 := by
    have h1 := hd c (List.mem_cons_self ..)
    have h2 : c ≠ 48#8 := fun h => h0 (by omega) (by rw [h]; rfl)
    simp only [isDigit, decide_eq_true_eq] at h1
    bv_omega
  have hfold := le_foldl b (0 * 10 + (c.toNat - 48))
  have hpow : 10 ^ 19 ≤ 10 ^ b.length := Nat.pow_le_pow_right (by norm_num) (by omega)
  have hmul : 1 * 10 ^ b.length ≤ (0 * 10 + (c.toNat - 48)) * 10 ^ b.length :=
    Nat.mul_le_mul_right _ (by omega)
  unfold decimalValue Counter.last at hle
  rw [List.foldl_cons] at hle
  omega

/-- **The numbers in range are parsed**, and nothing else. -/
theorem numbersParse_iff {b : Bytes} {c : Counter} : numbersParse b = (c, .ok) ↔
    Decimal b ∧ decimalValue b ≤ Counter.last ∧ (c : ℕ) = decimalValue b := by
  obtain ⟨hok, hvalue⟩ := digits_ok b (Nat.zero_le Counter.last)
  unfold numbersParse
  by_cases h1 : b.length = 0 ∨ 19 < b.length
  · rw [if_pos h1]
    refine ⟨fun h => (by cases h), fun ⟨hd, hle, _⟩ => ?_⟩
    rcases h1 with h1 | h1
    · exact absurd (List.length_eq_zero_iff.1 h1) hd.1
    · exact absurd (decimal_length hd hle) (by omega)
  rw [if_neg h1]
  by_cases h2 : 1 < b.length ∧ b.head? = some 48#8
  · rw [if_pos h2]
    exact ⟨fun h => (by cases h), fun ⟨hd, _⟩ => absurd h2.2 (hd.2.2 h2.1)⟩
  rw [if_neg h2, Prod.mk.injEq]
  have hne : b ≠ [] := fun h => h1 (.inl (by rw [h]; rfl))
  constructor
  · rintro ⟨rfl, h⟩
    obtain ⟨hd, hle⟩ := hok.1 h
    refine ⟨⟨hne, hd, fun hlen hz => h2 ⟨hlen, hz⟩⟩, hle, ?_⟩
    rw [hvalue h]
    exact Counter.val_ofNat hle
  · rintro ⟨⟨-, hd, -⟩, hle, hc⟩
    have h := hok.2 ⟨hd, hle⟩
    refine ⟨?_, h⟩
    rw [hvalue h]
    show Counter.ofNat (decimalValue b) = c
    rw [← hc, Counter.ofNat_val]

lemma numbersParse_ok (b : Bytes) : (numbersParse b).2 = .ok ↔ Decimal b ∧
    decimalValue b ≤ Counter.last ∧ ((numbersParse b).1 : ℕ) = decimalValue b := by
  rw [← numbersParse_iff]
  exact ⟨fun h => Prod.ext rfl h, fun h => congrArg Prod.snd h⟩

lemma parse_ok {s : Bytes} {c : Counter} : parse s = some (c, .ok) ↔ s = numeral c := by
  rw [parse_eq, Option.some.injEq, numbersParse_iff, numeral_iff]
  constructor
  · rintro ⟨hd, -, hc⟩
    exact ⟨hd, hc.symm⟩
  · rintro ⟨hd, hc⟩
    exact ⟨hd, hc ▸ c.le_last, hc.symm⟩

/-! ### Writing -/

/-- The loop of `Image` from place `I` down: the field, what remains, and the first place that is
used. -/
def fill : ℕ → Bytes → ℕ → Bytes × ℕ × ℕ
  | 0, s, remaining => (s, remaining, 1)
  | i + 1, s, remaining =>
    let s := s.set i (digit (remaining % 10))
    let remaining := remaining / 10
    if remaining = 0 then (s, remaining, i + 1) else fill i s remaining

/-- `Image`. There is no result where the assertion fails, or where the field does not have the
length of the result. -/
def image (n : Counter) : Option Bytes :=
  let (s, remaining, first) := fill 19 (List.replicate 19 48#8) n
  if remaining ≠ 0 then none
  else
    let last := 21 - first
    let result := s.drop (first - 1)
    if result.length ≠ last - 1 then none else some result

/-- As many places as the number has digits are enough, and those after them stay. -/
lemma fill_eq {i n : ℕ} (hn : n < 10 ^ (i + 1)) {s : Bytes} (hs : i < s.length) :
    ∃ s' first, fill (i + 1) s n = (s', 0, first) ∧ first ≤ i + 1 ∧ s'.length = s.length
      ∧ 1 ≤ first ∧ s'.drop (first - 1) = numeral n ++ s.drop (i + 1) := by
  induction i generalizing n s with
  | zero =>
    have hn' : n < 10 := by simpa using hn
    refine ⟨s.set 0 (digit n), 1, ?_, le_rfl, List.length_set, le_rfl, ?_⟩
    · rw [fill, Nat.mod_eq_of_lt hn', Nat.div_eq_of_lt hn', if_pos rfl]
    · obtain ⟨a, s, rfl⟩ := List.exists_cons_of_length_pos hs
      rw [numeral_eq, if_pos hn']
      rfl
  | succ i ih =>
    rw [fill]
    have hdrop : (s.set (i + 1) (digit (n % 10))).drop (i + 1)
        = digit (n % 10) :: s.drop (i + 2) := by
      rw [List.drop_set, if_neg (lt_irrefl _), Nat.sub_self, List.drop_eq_getElem_cons hs]
      rfl
    by_cases h0 : n / 10 = 0
    · have hn' : n < 10 := by omega
      refine ⟨_, _, by rw [if_pos h0, h0], le_rfl, List.length_set, by omega, ?_⟩
      rw [Nat.add_sub_cancel, hdrop, numeral_eq, if_pos hn', Nat.mod_eq_of_lt hn']
      rfl
    · have hq : n / 10 < 10 ^ (i + 1) := by
        rw [Nat.div_lt_iff_lt_mul (by norm_num), ← pow_succ]
        exact hn
      obtain ⟨s', first, h1, h2, h3, h4, h5⟩ :=
        ih (s := s.set (i + 1) (digit (n % 10))) hq (by rw [List.length_set]; omega)
      refine ⟨s', first, ?_, by omega, by rw [h3, List.length_set], h4, ?_⟩
      · rw [if_neg h0, h1]
      · rw [h5, hdrop, numeral_eq n, if_neg (by omega), List.append_assoc]
        rfl

lemma image_eq (n : Counter) : image n = some (numeral n) := by
  have hn : (n : ℕ) < 10 ^ 19 := n.isLt.trans (by decide)
  obtain ⟨s, first, h1, h2, h3, h4, h5⟩ :=
    fill_eq (i := 18) (s := List.replicate 19 48#8) hn (by simp)
  have hdrop : (List.replicate 19 48#8).drop 19 = ([] : Bytes) := rfl
  have hlen : (s.drop (first - 1)).length = 21 - first - 1 := by
    rw [List.length_drop, h3, List.length_replicate]
    omega
  unfold image
  simp only [h1]
  rw [if_neg (not_not.2 rfl), if_neg (not_not.2 hlen), h5, hdrop, List.append_nil]

/-! ### Reading what is written, and writing what is read -/

/-- **Decimal text is canonical**: of all texts the numerals of the counters are read, and as the
counters they stand for. Nothing is out of range on the way. What is written is the numeral, so it
is read back, and what is read is written the same. -/
theorem decimal_text :
    (∀ s : Bytes, parse s = some (numbersParse s))
    ∧ (∀ (s : Bytes) (n : ℕ), (∃ c : Counter, (c : ℕ) = n ∧ parse s = some (c, .ok)) ↔
        s = numeral n ∧ n ≤ 2 ^ 63 - 1)
    ∧ (∀ (s : Bytes) (n : ℕ), s = numeral n ↔ Decimal s ∧ decimalValue s = n)
    ∧ (∀ n : Counter, image n = some (numeral n))
    ∧ (∀ (n : Counter) (s : Bytes), image n = some s → parse s = some (n, .ok))
    ∧ ∀ (s : Bytes) (c : Counter), parse s = some (c, .ok) → image c = some s := by
  refine ⟨parse_eq, fun s n => ⟨?_, ?_⟩, fun s n => numeral_iff, image_eq, ?_, ?_⟩
  · rintro ⟨c, rfl, h⟩
    exact ⟨parse_ok.1 h, c.le_last⟩
  · rintro ⟨h, hn⟩
    refine ⟨⟨n, by omega⟩, rfl, parse_ok.2 h⟩
  · intro n s h
    rw [image_eq] at h
    exact parse_ok.2 (Option.some.inj h).symm
  · intro s c h
    rw [image_eq, parse_ok.1 h]

end NiayanAssurance.Numbers
