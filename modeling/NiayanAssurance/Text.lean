import NiayanAssurance.Types

/-!
Short texts of printable characters. A character is its position, and a string the list of the
positions of its characters.
-/

namespace NiayanAssurance.Text

open NiayanAssurance.Lib NiayanAssurance.Types

/-- `Integer'Last`. -/
def integerLast : ℕ := 2 ^ 31 - 1

abbrev maxLength : ℕ := 4096

def Printable (s : Bytes) : Prop := ∀ c ∈ s, 32 ≤ c.toNat ∧ c.toNat ≤ 126

instance (s : Bytes) : Decidable (Printable s) := by unfold Printable; infer_instance

/-- A text, by its image. Only `set` makes one. -/
@[ext] structure Value where
  image : Bytes
  length_le : image.length ≤ maxLength
  printable : Printable image
  deriving DecidableEq

def empty : Value := ⟨[], by simp, nofun⟩

/-- `Set`; none is `Invalid_Input`. -/
def set (s : Bytes) : Option Value :=
  if h : s.length ≤ maxLength ∧ Printable s then some ⟨s, h.1, h.2⟩ else none

lemma set_some {s : Bytes} {v : Value} : set s = some v ↔ v.image = s := by
  unfold set
  constructor
  · intro h
    split at h
    · cases h; rfl
    · cases h
  · rintro rfl
    rw [dif_pos ⟨v.length_le, v.printable⟩]

/-! ### Identifiers -/

def letterOrDigit (c : Byte) : Bool :=
  97 ≤ c.toNat ∧ c.toNat ≤ 122 ∨ 65 ≤ c.toNat ∧ c.toNat ≤ 90 ∨ 48 ≤ c.toNat ∧ c.toNat ≤ 57

/-- A letter, a digit, or one of `_`, `-`, `.` and `@`. -/
def identifierCharacter (c : Byte) : Bool :=
  letterOrDigit c ∨ c = 95 ∨ c = 45 ∨ c = 46 ∨ c = 64

def identifier (s : Bytes) : Bool :=
  match s with
  | [] => false
  | c :: _ => s.length ≤ 200 ∧ letterOrDigit c ∧ s.all identifierCharacter

lemma identifierCharacter_range {c : Byte} (h : identifierCharacter c = true) :
    32 ≤ c.toNat ∧ c.toNat ≤ 126 := by
  have key : ∀ c : Byte, identifierCharacter c = true → 32 ≤ c.toNat ∧ c.toNat ≤ 126 := by
    decide +kernel
  exact key c h

/-- Neither a comma, nor a line end, nor `=` is in an identifier. -/
lemma identifierCharacter_ne {c : Byte} (h : identifierCharacter c = true) :
    c ≠ 44 ∧ c ≠ 10 ∧ c ≠ 61 := by
  have key : ∀ c : Byte, identifierCharacter c = true → c ≠ 44 ∧ c ≠ 10 ∧ c ≠ 61 := by
    decide +kernel
  exact key c h

lemma identifier_all {s : Bytes} (h : identifier s = true) :
    s ≠ [] ∧ ∀ c ∈ s, identifierCharacter c = true := by
  cases s with
  | nil => cases h
  | cons c s =>
    simp only [identifier, decide_eq_true_eq, List.all_eq_true] at h
    exact ⟨nofun, h.2.2⟩

end NiayanAssurance.Text
