import NiayanAssurance.Properties
import NiayanAssurance.Numbers
import NiayanAssurance.Hex
import NiayanAssurance.Requests

/-!
The files that an operator hands in to the administrative tool: properties with exactly the keys
that are asked for, whose values are bytes in hexadecimal digits, counters, or words.
-/

namespace NiayanAssurance.SpecFile

open NiayanAssurance.Lib NiayanAssurance.Types NiayanAssurance.Properties
open NiayanAssurance.Protocol NiayanAssurance.Requests

/-- The positions of the characters. -/
def positions (s : List Char) : Bytes := s.map fun c => BitVec.ofNat 8 c.toNat

/-- A literal of the source. -/
def word (s : String) : Bytes := positions s.toList

/-- The characters at these positions. -/
def characters (b : Bytes) : List Char := b.map fun c => Char.ofNat c.toNat

/-- Words with commas between them. -/
def commas (ws : List Bytes) : Bytes := [44].intercalate ws

/-- What a call hands back with `OK`. -/
def handed {α : Type} (r : α × Outcome) : Except Outcome α :=
  if r.2 = .ok then .ok r.1 else .error r.2

/-- `Load_Spec`, of what has been read; the keys are given as words. -/
def loadSpec (data : Bytes) (keys : List Bytes) : Except Outcome Document := do
  let d ← handed (Properties.parse 1 data)
  if hasExactly 1 d (commas keys) then .ok d else .error .invalidInput

/-- The text of a property. -/
def value (d : Document) (key : Bytes) : Except Outcome Bytes := do
  let v ← handed (get d key)
  return v.image

/-- What `Field` makes of a value: `n` bytes. -/
def hexValue (n : ℕ) (v : Bytes) : Except Outcome (Block n) := do
  let b ← handed (Hex.decode (characters v) n)
  return Block.ofBytes n b

/-- What `Number` makes of a value; an exception is a failure too. -/
def numberValue (v : Bytes) : Except Outcome Counter :=
  match Numbers.parse v with
  | none => .error .ioError
  | some r => handed r

def field (n : ℕ) (d : Document) (key : Bytes) : Except Outcome (Block n) :=
  value d key >>= hexValue n

def number (d : Document) (key : Bytes) : Except Outcome Counter :=
  value d key >>= numberValue

/-- `Action_Name`. -/
def actionName : RequestedAction → Bytes
  | .plan => word "plan" | .prepare => word "prepare" | .apply => word "apply"
  | .inspect => word "inspect" | .recover => word "recover" | .commit => word "commit"
  | .restore => word "restore" | .reconcile => word "reconcile" | .repair => word "repair"

/-- `Header_Kind`. -/
def headerKind : RequestedAction → MessageKind
  | .plan => .planRequest | .prepare => .prepareRequest | .apply => .applyRequest
  | .inspect => .inspectRequest | .recover => .recoverRequest | .commit => .commitRequest
  | .restore => .restoreRequest | .reconcile => .reconcileRequest | .repair => .repairRequest

/-- `Requested_Action`, in its order. -/
def actions : List RequestedAction :=
  [.plan, .prepare, .apply, .inspect, .recover, .commit, .restore, .reconcile, .repair]

/-- The bytes in hexadecimal digits. -/
def hexText (b : Bytes) : Bytes := positions (Hex.encode b)

/-! ### What is read -/

/-- Keys that can be listed. -/
structure Listed (keys : List Bytes) : Prop where
  words : ∀ k ∈ keys, Text.identifier k = true ∧ k.length ≤ 63
  nodup : keys.Nodup
  count : keys ≠ [] ∧ keys.length ≤ 64

variable {d : Document} {key v data : Bytes} {keys : List Bytes} {n : ℕ}

@[simp] lemma handed_ok {α : Type} {r : α × Outcome} {a : α} :
    handed r = .ok a ↔ r = (a, .ok) := by
  unfold handed
  split_ifs with h
  · rw [Except.ok.injEq, Prod.ext_iff]
    exact (and_iff_left h).symm
  · exact iff_of_false (by simp) fun e => h (by rw [e])

/-- A file is read as its pairs. -/
lemma document_of {pairs : List (Bytes × Bytes)} (h : IsFile data pairs) :
    ∃ d : Document, d.pairs = pairs ∧ Properties.parse 1 data = (d, .ok) := by
  obtain ⟨d, -, hp⟩ := fold_lines (d := {}) h.records (by simpa [Document.keys] using h.nodup)
    (by simpa using h.count.2)
  obtain rfl : d.pairs = pairs := hp
  have h1 := h.data ▸ length_lines h.records
  have h2 := h.count.2
  have h3 : maximum = 64 := rfl
  exact ⟨d, rfl, (parse_ok (by unfold Text.integerLast; omega)).2 h⟩

lemma parse_one : Properties.parse 1 data = (d, .ok) ↔ IsFile data d.pairs := by
  refine ⟨fun h => ?_, fun h => ?_⟩
  · refine (parse_ok ?_).1 h
    by_contra hc
    unfold Properties.parse at h
    rw [if_pos (by unfold Text.integerLast maximum at *; omega)] at h
    cases h
  · obtain ⟨d', hp, h⟩ := document_of h
    rwa [pairs_inj hp] at h

lemma not_mem_identifier {k : Bytes} (h : Text.identifier k = true) : (44 : Byte) ∉ k := fun hm =>
  (Text.identifierCharacter_ne ((Text.identifier_all h).2 44 hm)).1 rfl

/-- **A specification** has exactly the keys that are asked for, in any order. -/
theorem loadSpec_ok (hk : Listed keys) :
    loadSpec data keys = .ok d ↔ IsFile data d.pairs ∧ keys.Perm d.keys := by
  have hlen := length_joined keys fun k h => (hk.words k h).2
  rw [joined, flatMap_sep hk.count.1, List.length_append] at hlen
  have hf : 1 + (commas keys).length - 1 < Text.integerLast - 1 := by
    have := hk.count.2
    unfold commas Text.integerLast
    omega
  have hx : IsFile data d.pairs → (hasExactly 1 d (commas keys) = true ↔ keys.Perm d.keys) := by
    intro h
    rw [hasExactly_iff h.records (by rw [keys_eq]; exact h.nodup) hf, commas,
      List.splitOn_intercalate 44 (fun k h => not_mem_identifier (hk.words k h).1) hk.count.1]
  simp only [loadSpec, bind_ok, handed_ok, parse_one]
  constructor
  · rintro ⟨d', h1, h2⟩
    split_ifs at h2 with h3
    cases h2
    exact ⟨h1, (hx h1).1 h3⟩
  · rintro ⟨h1, h2⟩
    exact ⟨d, h1, if_pos ((hx h1).2 h2)⟩

lemma value_ok (hd : d.keys.Nodup) : value d key = .ok v ↔ (key, v) ∈ d.pairs := by
  simp only [value, bind_ok, handed_ok, pure_ok]
  constructor
  · rintro ⟨w, h, rfl⟩
    by_cases hk : key ∈ d.keys
    · rw [keys_eq] at hk
      obtain ⟨⟨k, u⟩, hx, rfl⟩ := List.mem_map.1 hk
      rwa [show w.image = u by simpa [h] using (get_present hd hx).2]
    · exact absurd (by rw [h]) (get_absent hk)
  · intro h
    obtain ⟨h1, h2⟩ := get_present hd h
    exact ⟨_, Prod.ext rfl h1, h2⟩

lemma toNat_hexDigit {b : Bytes} : ∀ c ∈ Hex.encode b, c.toNat < 256 := by
  have key : ∀ n : Fin 16, (Hex.digit n).toNat < 256 := by decide +kernel
  induction b with
  | nil => simp [Hex.encode]
  | cons x b ih =>
    have hx := x.isLt
    rw [Hex.encode, List.forall_mem_cons, List.forall_mem_cons]
    exact ⟨key ⟨x.toNat / 16, by omega⟩, key ⟨x.toNat % 16, by omega⟩, ih⟩

lemma characters_positions {s : List Char} (h : ∀ c ∈ s, c.toNat < 256) :
    characters (positions s) = s := by
  rw [characters, positions, List.map_map]
  conv_rhs => rw [← List.map_id s]
  refine List.map_congr_left fun c hc => ?_
  rw [Function.comp_apply, BitVec.toNat_ofNat, Nat.mod_eq_of_lt (h c hc), Char.ofNat_toNat, id]

lemma positions_characters (v : Bytes) : positions (characters v) = v := by
  have key : ∀ n : Fin 256, (Char.ofNat n).toNat = n := by decide +kernel
  rw [characters, positions, List.map_map]
  conv_rhs => rw [← List.map_id v]
  refine List.map_congr_left fun c _ => ?_
  rw [Function.comp_apply, key ⟨c.toNat, c.isLt⟩, BitVec.ofNat_toNat, BitVec.setWidth_eq, id]

lemma hexValue_ok {b : Block n} : hexValue n v = .ok b ↔ v = hexText b.bytes := by
  have key : ∀ x : Bytes, Hex.encode x = characters v ↔ v = hexText x := fun x =>
    ⟨fun h => by rw [hexText, h, positions_characters],
      fun h => by rw [h, hexText, characters_positions toNat_hexDigit]⟩
  have hd := (Hex.decode_spec (characters v) n).1
  simp only [hexValue, bind_ok, handed_ok, pure_ok, hd, key]
  constructor
  · rintro ⟨x, ⟨hl, rfl⟩, rfl⟩
    rw [Block.bytes_ofBytes hl]
  · intro h
    exact ⟨b.bytes, ⟨b.length_bytes, h⟩, Block.ofBytes_bytes b⟩

lemma numberValue_ok {c : Counter} : numberValue v = .ok c ↔ v = Numbers.numeral c := by
  rw [← Numbers.parse_ok, numberValue, Numbers.parse_eq, Option.some.injEq]
  exact handed_ok

lemma field_ok (hd : d.keys.Nodup) {b : Block n} :
    field n d key = .ok b ↔ (key, hexText b.bytes) ∈ d.pairs := by
  simp only [field, bind_ok, value_ok hd, hexValue_ok, exists_eq_right]

lemma number_ok (hd : d.keys.Nodup) {c : Counter} :
    number d key = .ok c ↔ (key, Numbers.numeral c) ∈ d.pairs := by
  simp only [number, bind_ok, value_ok hd, numberValue_ok, exists_eq_right]

/-- Pairs with the keys of a document are its pairs if each of them is. -/
lemma pairs_perm {l : List (Bytes × Bytes)} (hk : (l.map Prod.fst).Perm d.keys)
    (hn : (l.map Prod.fst).Nodup) : d.pairs.Perm l ↔ ∀ x ∈ l, x ∈ d.pairs := by
  refine ⟨fun h x hx => h.mem_iff.2 hx, fun h => ?_⟩
  refine (((List.Nodup.of_map _ hn).subperm h).perm_of_length_le ?_).symm
  have := hk.length_eq
  rw [keys_eq, List.length_map, List.length_map] at this
  omega

lemma mem_actions (a : RequestedAction) : a ∈ actions := by cases a <;> decide

lemma actionName_injective : actionName.Injective := by
  have key : ∀ a ∈ actions, ∀ b ∈ actions, actionName a = actionName b → a = b := by
    decide +kernel
  exact fun a b => key a (mem_actions a) b (mem_actions b)

/-- The action that has a name. -/
lemma find_action {a : RequestedAction} {text : Bytes} :
    actions.find? (actionName · = text) = some a ↔ text = actionName a := by
  constructor
  · intro h
    simpa using Eq.symm (by simpa using List.find?_some h)
  · rintro rfl
    simp only [actionName_injective.eq_iff]
    cases a <;> rfl

/-! ### What can be specified -/

/-- A text that can be a value. -/
structure Writable (v : Bytes) : Prop where
  length : 1 ≤ v.length ∧ v.length ≤ 4095
  printable : Text.Printable v

/-- Values under the keys that are asked for make up a file. -/
lemma isFile_lines {pairs : List (Bytes × Bytes)} (hk : Listed keys)
    (hp : pairs.map Prod.fst = keys) (hv : ∀ x ∈ pairs, Writable x.2) :
    IsFile (lines pairs) pairs := by
  have hlen : keys.length = pairs.length := by rw [← hp, List.length_map]
  have hpos := List.length_pos_iff.2 hk.count.1
  refine ⟨fun x hx => ?_, ⟨by omega, by have := hk.count.2; unfold maximum; omega⟩, hp ▸ hk.nodup,
    rfl⟩
  obtain ⟨h1, h2⟩ := hk.words x.1 (hp ▸ List.mem_map_of_mem hx)
  obtain ⟨⟨h3, h4⟩, h5⟩ := hv x hx
  exact ⟨h1, h2, ⟨h3, by omega⟩, h5, by simp only [List.length_append, List.length_cons]; omega⟩

lemma printable_hex (b : Bytes) : Text.Printable (hexText b) := by
  have key : ∀ n : Fin 16, 32 ≤ (BitVec.ofNat 8 (Hex.digit n).toNat).toNat
      ∧ (BitVec.ofNat 8 (Hex.digit n).toNat).toNat ≤ 126 := by decide +kernel
  induction b with
  | nil => exact fun c h => by cases h
  | cons x b ih =>
    have hx := x.isLt
    intro c hc
    rw [hexText, Hex.encode, positions, List.map_cons, List.map_cons, List.mem_cons,
      List.mem_cons] at hc
    rcases hc with rfl | rfl | hc
    · exact key ⟨x.toNat / 16, by omega⟩
    · exact key ⟨x.toNat % 16, by omega⟩
    · exact ih c hc

lemma writable_hex (b : Block n) (hn : 1 ≤ n) (hn' : n ≤ 2047) : Writable (hexText b.bytes) := by
  have : (hexText b.bytes).length = n * 2 := by simp [hexText, positions]
  exact ⟨by omega, printable_hex _⟩

lemma writable_numeral (c : Counter) : Writable (Numbers.numeral c) := by
  have key : ∀ c : Byte, Numbers.isDigit c = true → 32 ≤ c.toNat ∧ c.toNat ≤ 126 := by
    decide +kernel
  have h1 : (Numbers.numeral c).length ≤ 19 := by
    rw [Numbers.numeral, List.length_map]
    exact (Nat.length_toDigits_le_iff (by omega) (by omega)).2 (c.isLt.trans (by decide))
  have h2 := List.length_pos_iff.2 (Numbers.numeral_ne_nil c)
  exact ⟨by omega, fun d hd => key d (Numbers.numeral_digits c d hd)⟩

lemma writable_name (a : RequestedAction) : Writable (actionName a) := by
  have key : ∀ a ∈ actions, (1 ≤ (actionName a).length ∧ (actionName a).length ≤ 4095)
      ∧ Text.Printable (actionName a) := by decide +kernel
  exact ⟨(key a (mem_actions a)).1, (key a (mem_actions a)).2⟩

/-! ### What is refused -/

/-- No error is `OK`. -/
def Honest {α : Type} (x : Except Outcome α) : Prop := ∀ o, x = .error o → o ≠ .ok

section Honest

variable {α β : Type}

lemma Honest.bind {x : Except Outcome α} {f : α → Except Outcome β} (hx : Honest x)
    (hf : ∀ a, Honest (f a)) : Honest (x >>= f) := by
  intro o h
  cases x with
  | error o' => cases h; exact hx o rfl
  | ok a => exact hf a o h

lemma honest_pure (a : α) : Honest (pure a) := fun _ h => by cases h

lemma honest_error {o : Outcome} (ho : o ≠ .ok) : Honest (.error o : Except Outcome α) :=
  fun _ h => by cases h; exact ho

lemma honest_handed (r : α × Outcome) : Honest (handed r) := by
  unfold handed
  split_ifs with h
  · exact honest_pure _
  · exact honest_error h

lemma honest_loadSpec (data : Bytes) (keys : List Bytes) : Honest (loadSpec data keys) := by
  refine (honest_handed _).bind fun d => ?_
  split_ifs
  · exact honest_pure d
  · exact honest_error (by simp)

lemma honest_value (d : Document) (key : Bytes) : Honest (value d key) :=
  (honest_handed _).bind fun _ => honest_pure _

lemma honest_field (n : ℕ) (d : Document) (key : Bytes) : Honest (field n d key) :=
  (honest_value d key).bind fun _ => (honest_handed _).bind fun _ => honest_pure _

lemma honest_number (d : Document) (key : Bytes) : Honest (number d key) :=
  (honest_value d key).bind fun v => by
    rw [numberValue, Numbers.parse_eq]
    exact honest_handed _

end Honest

end NiayanAssurance.SpecFile
