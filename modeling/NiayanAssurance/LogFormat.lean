import NiayanAssurance.Sha256

/-!
The 256-byte record of a ledger.
-/

namespace NiayanAssurance.LogFormat

open NiayanAssurance.Lib NiayanAssurance.Types

def recordSize : ℕ := 256

structure Entry where
  sequence : Counter := 0
  kind : Fin 65536 := 0
  rootId : Identity := zeroIdentity
  operationId : Identity := zeroIdentity
  epoch : Counter := 0
  token : Counter := 0
  index : Counter := 0
  generation : Counter := 0
  object : Digest := zeroDigest
  previous : Digest := zeroDigest
  result : Outcome := .ok
  deriving DecidableEq

def magic : Bytes := [0x4D, 0x43, 0x4C, 0x4F, 0x47, 0x30, 0x30, 0x32]

/-- `B (1..152)`: the fields of a record. -/
def body (e : Entry) : Bytes :=
  magic ++ be 8 e.sequence ++ be 2 e.kind ++ be 1 e.result.pos ++ List.replicate 5 0
    ++ e.rootId.bytes ++ e.operationId.bytes ++ be 8 e.epoch ++ be 8 e.token ++ be 8 e.index
    ++ be 8 e.generation ++ e.object.bytes ++ e.previous.bytes

def encode (e : Entry) : Bytes := Sha256.withDigest 224 (body e)

/-- The fields that a record must not leave at their defaults. -/
def Filled (e : Entry) : Prop :=
  (e.sequence : ℕ) ≠ 0 ∧ (e.kind : ℕ) ≠ 0 ∧ e.rootId ≠ zeroIdentity
    ∧ e.operationId ≠ zeroIdentity

instance (e : Entry) : Decidable (Filled e) := by unfold Filled; infer_instance

/-- The record that a frame spells, its result being `result`. -/
def fields (b : Bytes) (result : Outcome) : Entry where
  sequence := Counter.ofNat (u64 b 9)
  kind := Fin.ofNat 65536 (u16 b 17)
  result := result
  rootId := Block.ofBytes 16 (range b 25 40)
  operationId := Block.ofBytes 16 (range b 41 56)
  epoch := Counter.ofNat (u64 b 57)
  token := Counter.ofNat (u64 b 65)
  index := Counter.ofNat (u64 b 73)
  generation := Counter.ofNat (u64 b 81)
  object := Block.ofBytes 32 (range b 89 120)
  previous := Block.ofBytes 32 (range b 121 152)

/-- The offsets of the counters. -/
def checks : List ℕ := [9, 57, 65, 73, 81]

/-- `Decode` of a string whose first index is `first`: what it leaves in the record, and its
status. -/
def decodeOut (b : Bytes) (first : ℕ) : Entry × Outcome :=
  if b.length ≠ recordSize ∨ first ≠ 1 ∨ range b 1 8 ≠ magic
      ∨ range b 225 256 ≠ (Sha256.hash (range b 1 224)).bytes then ({}, .corrupt)
  else if isZero (range b 20 24) = false then ({}, .corrupt)
  else if isZero (range b 153 224) = false then ({}, .corrupt)
  else
    match Outcome.val (unbe (range b 19 19)) with
    | none => ({}, .corrupt)
    | some result =>
      if ∃ offset ∈ checks, Counter.last < u64 b offset then ({}, .corrupt)
      else if Filled (fields b result) then (fields b result, .ok)
      else (fields b result, .corrupt)

def decode (b : Bytes) : Option Entry := (returned (decodeOut b 1)).toOption

/-! ### The codec -/

@[simp] lemma length_magic : magic.length = 8 := by simp [magic]

@[simp] lemma length_body (e : Entry) : (body e).length = 152 := by simp [body]

@[simp] lemma length_encode (e : Entry) : (encode e).length = 256 :=
  Sha256.length_withDigest (by simp)

/-- A frame's parts make up the frame. -/
lemma parts (b : Bytes) :
    range b 1 8 ++ range b 9 16 ++ range b 17 18 ++ range b 19 19 ++ range b 20 24
      ++ range b 25 40 ++ range b 41 56 ++ range b 57 64 ++ range b 65 72 ++ range b 73 80
      ++ range b 81 88 ++ range b 89 120 ++ range b 121 152 ++ range b 153 224
      = range b 1 224 := by
  rw [range_append_range, range_append_range, range_append_range, range_append_range,
    range_append_range, range_append_range, range_append_range, range_append_range,
    range_append_range, range_append_range, range_append_range, range_append_range,
    range_append_range] <;> omega

/-- The numbers of a frame fit their fields, and its gaps are zero. -/
structure Framed (b : Bytes) (result : Outcome) : Prop where
  length : b.length = 256
  magic : range b 1 8 = magic
  result : Outcome.val (unbe (range b 19 19)) = some result
  gap : isZero (range b 20 24) = true
  gap' : isZero (range b 153 224) = true
  counters : ∀ offset ∈ checks, u64 b offset ≤ Counter.last
  digest : range b 225 256 = (Sha256.hash (range b 1 224)).bytes

lemma decode_iff {b : Bytes} {e : Entry} : decode b = some e ↔ decodeOut b 1 = (e, .ok) := by
  rw [← returned_ok, decode]
  cases returned (decodeOut b 1) <;> simp [Except.toOption]

lemma decode_some {b : Bytes} {e : Entry} :
    decode b = some e ↔ ∃ result, Framed b result ∧ e = fields b result ∧ Filled e := by
  rw [decode_iff]
  unfold decodeOut
  constructor
  · intro h
    split at h
    · cases h
    rename_i h1
    split at h
    · cases h
    rename_i h2
    split at h
    · cases h
    rename_i h3
    split at h
    · cases h
    rename_i result hr
    split at h
    · cases h
    rename_i h4
    split at h
    · rename_i h5
      cases h
      push Not at h1 h4
      exact ⟨result, ⟨h1.1, h1.2.2.1, hr, by simpa using h2, by simpa using h3, h4, h1.2.2.2⟩, rfl,
        h5⟩
    · cases h
  · rintro ⟨result, ⟨h1, h2, h3, h4, h5, h6, h7⟩, rfl, h8⟩
    have h6' : ¬ ∃ offset ∈ checks, Counter.last < u64 b offset := by
      push Not
      exact h6
    simp [h1, h2, h3, h4, h5, h6', h7, h8, recordSize]

lemma val_eq {n : ℕ} {o : Outcome} (h : Outcome.val n = some o) : o.pos = n := by
  unfold Outcome.val at h
  split at h <;> cases h <;> rfl

/-- A frame is the encoding of the record that it spells. -/
lemma encode_fields {b : Bytes} {result : Outcome} (h : Framed b result) :
    encode (fields b result) = b := by
  have hl : b.length = 256 := h.length
  have hc : ∀ offset ∈ checks, be 8 (Counter.ofNat (u64 b offset)) =
      range b offset (offset + 7) := fun offset ho => by
    have hmem := ho
    simp only [checks, List.mem_cons, List.not_mem_nil, or_false] at hmem
    exact be_u64 offset (by omega) (by omega) (h.counters offset ho)
  have hk : be 2 (Fin.ofNat 65536 (u16 b 17)) = range b 17 18 := by
    have hlt := unbe_lt (range b 17 18)
    rw [length_range (by omega)] at hlt
    have hv : ((Fin.ofNat 65536 (u16 b 17) : Fin 65536) : ℕ) = unbe (range b 17 18) :=
      Nat.mod_eq_of_lt hlt
    rw [hv, be_range 2 17 18 (by omega) rfl]
  have hr : be 1 result.pos = range b 19 19 := by
    rw [val_eq h.result, be_range 1 19 19 (by omega) rfl]
  have hg := (isZero_iff_replicate (length_range (b := b) (by omega))).mp h.gap
  have hg' := (isZero_iff_replicate (length_range (b := b) (by omega))).mp h.gap'
  have hbody : pad 224 (body (fields b result)) = range b 1 224 := by
    rw [← parts b, pad, length_body]
    simp only [body, fields]
    rw [hc 9 (by simp [checks]), hc 57 (by simp [checks]), hc 65 (by simp [checks]),
      hc 73 (by simp [checks]), hc 81 (by simp [checks]), hk, hr, ← h.magic,
      block_range 16 25 40 (by omega) rfl, block_range 16 41 56 (by omega) rfl,
      block_range 32 89 120 (by omega) rfl, block_range 32 121 152 (by omega) rfl, hg, hg']
  rw [encode, Sha256.withDigest, hbody, ← h.digest, range_append_range (by omega) (by omega),
    range_all h.length]

/-- The parts of an encoded record. -/
structure Encodes (b : Bytes) (e : Entry) : Prop where
  magic : range b 1 8 = magic
  sequence : range b 9 16 = be 8 e.sequence
  kind : range b 17 18 = be 2 e.kind
  result : range b 19 19 = be 1 e.result.pos
  gap : range b 20 24 = List.replicate 5 0
  rootId : range b 25 40 = e.rootId.bytes
  operationId : range b 41 56 = e.operationId.bytes
  epoch : range b 57 64 = be 8 e.epoch
  token : range b 65 72 = be 8 e.token
  index : range b 73 80 = be 8 e.index
  generation : range b 81 88 = be 8 e.generation
  object : range b 89 120 = e.object.bytes
  previous : range b 121 152 = e.previous.bytes
  gap' : range b 153 224 = List.replicate 72 0
  body : range b 1 224 = pad 224 (body e)
  digest : range b 225 256 = (Sha256.hash (pad 224 (LogFormat.body e))).bytes

lemma encodes (e : Entry) : Encodes (encode e) e := by
  have hb : ∀ d : Bytes, pad 224 (body e) ++ d = magic ++ (be 8 e.sequence ++ (be 2 e.kind
      ++ (be 1 e.result.pos ++ (List.replicate 5 0 ++ (e.rootId.bytes ++ (e.operationId.bytes
      ++ (be 8 e.epoch ++ (be 8 e.token ++ (be 8 e.index ++ (be 8 e.generation
      ++ (e.object.bytes ++ (e.previous.bytes ++ (List.replicate 72 0 ++ d))))))))))))) := by
    intro d
    rw [pad, length_body, body]
    simp only [List.append_assoc, Nat.reduceSub]
  have hp : (pad 224 (body e)).length = 224 := length_pad (by simp)
  have hd : range (encode e) 1 224 = pad 224 (body e) := by
    rw [encode, Sha256.withDigest, range_head hp]
  have hh : range (encode e) 225 256 = (Sha256.hash (pad 224 (body e))).bytes := by
    rw [encode, Sha256.withDigest, range_right (by omega), hp]
    exact range_all (Block.length_bytes _)
  refine ⟨?_, ?_, ?_, ?_, ?_, ?_, ?_, ?_, ?_, ?_, ?_, ?_, ?_, ?_, hd, hh⟩ <;>
    rw [encode, Sha256.withDigest, hb] <;>
    simp only [range_right, range_head, length_magic, length_be, Block.length_bytes,
      List.length_replicate, Nat.reduceLT, Nat.reduceSub]

lemma framed_encode (e : Entry) : Framed (encode e) e.result := by
  have h := encodes e
  refine ⟨length_encode e, h.magic, ?_, ?_, ?_, fun offset ho => ?_, by rw [h.body, h.digest]⟩
  · have hpos := e.result.pos_lt
    rw [h.result, unbe_be, Nat.mod_eq_of_lt (by simpa using hpos), Outcome.val_pos]
  · rw [h.gap, isZero_iff_replicate (List.length_replicate)]
  · rw [h.gap', isZero_iff_replicate (List.length_replicate)]
  · have hlt : ∀ c : Counter, unbe (be 8 c) ≤ Counter.last := fun c => by
      rw [unbe_be]
      exact (Nat.mod_le _ _).trans c.le_last
    simp only [checks, List.mem_cons, List.not_mem_nil, or_false] at ho
    rcases ho with rfl | rfl | rfl | rfl | rfl
    · exact (congrArg unbe h.sequence).trans_le (hlt _)
    · exact (congrArg unbe h.epoch).trans_le (hlt _)
    · exact (congrArg unbe h.token).trans_le (hlt _)
    · exact (congrArg unbe h.index).trans_le (hlt _)
    · exact (congrArg unbe h.generation).trans_le (hlt _)

lemma fields_encode (e : Entry) : fields (encode e) e.result = e := by
  have h := encodes e
  have hc : ∀ c : Counter, Counter.ofNat (unbe (be 8 c)) = c := fun c => by
    have := c.isLt
    rw [unbe_be, Nat.mod_eq_of_lt (by omega), Counter.ofNat_val]
  have hk : Fin.ofNat 65536 (unbe (be 2 e.kind)) = e.kind := by
    rw [unbe_be]
    exact Fin.ext (by simp [Fin.ofNat])
  obtain ⟨-, h1, h2, -, -, h3, h4, h5, h6, h7, h8, h9, h10, -, -, -⟩ := h
  simp only [fields, u64, u16, Nat.reduceAdd, h1, h2, h3, h4, h5, h6, h7, h8, h9, h10, hc, hk,
    Block.ofBytes_bytes]

/-- **The record codec.** A frame decodes to a record exactly when it is the record's own
encoding and the record is filled in. -/
theorem decode_eq_some_iff {b : Bytes} {e : Entry} :
    decode b = some e ↔ encode e = b ∧ Filled e := by
  rw [decode_some]
  constructor
  · rintro ⟨result, hf, rfl, h⟩
    exact ⟨encode_fields hf, h⟩
  · rintro ⟨rfl, h⟩
    exact ⟨e.result, framed_encode e, (fields_encode e).symm, h⟩

lemma encode_injective {e e' : Entry} (h : encode e = encode e') : e = e' := by
  have hr : some e.result = some e'.result := by
    rw [← (framed_encode e).result, h, (framed_encode e').result]
  have h1 := fields_encode e
  rw [h, Option.some.inj hr, fields_encode e'] at h1
  exact h1.symm

end NiayanAssurance.LogFormat
