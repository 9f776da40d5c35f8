import NiayanAssurance.Types

/-!
The 160-byte header of a message.
-/

namespace NiayanAssurance.Protocol

open NiayanAssurance.Lib NiayanAssurance.Types

abbrev major : Fin 65536 := 2
abbrev minor : Fin 65536 := 0
def headerSize : ℕ := 160

inductive MessageKind
  | planRequest | planResult | prepareRequest | preparedResult | applyRequest | appliedResult
  | inspectRequest | inspectResult | recoverRequest | recoverResult | contractHello
  | contractResult | commitRequest | commitResult | restoreRequest | restoreResult
  | reconcileRequest | reconcileResult | repairRequest | repairResult
  deriving DecidableEq, Repr

/-- `Message_Kind'Pos`. -/
def MessageKind.pos : MessageKind → ℕ
  | .planRequest => 0 | .planResult => 1 | .prepareRequest => 2 | .preparedResult => 3
  | .applyRequest => 4 | .appliedResult => 5 | .inspectRequest => 6 | .inspectResult => 7
  | .recoverRequest => 8 | .recoverResult => 9 | .contractHello => 10 | .contractResult => 11
  | .commitRequest => 12 | .commitResult => 13 | .restoreRequest => 14 | .restoreResult => 15
  | .reconcileRequest => 16 | .reconcileResult => 17 | .repairRequest => 18
  | .repairResult => 19

/-- The kinds in their order. -/
def MessageKind.all : List MessageKind :=
  [.planRequest, .planResult, .prepareRequest, .preparedResult, .applyRequest, .appliedResult,
    .inspectRequest, .inspectResult, .recoverRequest, .recoverResult, .contractHello,
    .contractResult, .commitRequest, .commitResult, .restoreRequest, .restoreResult,
    .reconcileRequest, .reconcileResult, .repairRequest, .repairResult]

/-- The kind whose `Message_Kind'Pos + 1` is the byte. -/
def MessageKind.ofByte : ℕ → Option MessageKind
  | 1 => some .planRequest | 2 => some .planResult | 3 => some .prepareRequest
  | 4 => some .preparedResult | 5 => some .applyRequest | 6 => some .appliedResult
  | 7 => some .inspectRequest | 8 => some .inspectResult | 9 => some .recoverRequest
  | 10 => some .recoverResult | 11 => some .contractHello | 12 => some .contractResult
  | 13 => some .commitRequest | 14 => some .commitResult | 15 => some .restoreRequest
  | 16 => some .restoreResult | 17 => some .reconcileRequest | 18 => some .reconcileResult
  | 19 => some .repairRequest | 20 => some .repairResult
  | _ => none

lemma MessageKind.ofByte_eq {n : ℕ} {k : MessageKind} (h : ofByte n = some k) :
    n = k.pos + 1 := by
  unfold ofByte at h
  split at h <;> cases h <;> rfl

structure Header where
  versionMajor : Fin 65536 := major
  versionMinor : Fin 65536 := minor
  kind : MessageKind := .inspectRequest
  bodyLength : Fin (maxMessage + 1) := 0
  requestId : Identity := zeroIdentity
  clusterId : Identity := zeroIdentity
  nodeId : Identity := zeroIdentity
  resourceId : Identity := zeroIdentity
  membershipEpoch : Counter := 0
  fenceToken : Counter := 0
  sequenceNumber : Counter := 0
  deadline : Counter := 0
  bootId : Identity := zeroIdentity
  bodyDigest : Digest := zeroDigest
  deriving DecidableEq

def magic : Bytes := [0x4D, 0x43, 0x50, 0x31]

def encode (h : Header) : Bytes :=
  magic ++ be 2 h.versionMajor ++ be 2 h.versionMinor ++ be 1 (h.kind.pos + 1) ++ [0]
    ++ be 2 headerSize ++ be 4 h.bodyLength ++ h.requestId.bytes ++ h.clusterId.bytes
    ++ h.nodeId.bytes ++ h.resourceId.bytes ++ be 8 h.membershipEpoch ++ be 8 h.fenceToken
    ++ be 8 h.sequenceNumber ++ be 8 h.deadline ++ h.bootId.bytes ++ h.bodyDigest.bytes

/-- The header that a frame spells, its kind being `kind`. -/
def fields (b : Bytes) (kind : MessageKind) : Header where
  kind := kind
  bodyLength := Fin.ofNat (maxMessage + 1) (u32 b 13)
  requestId := Block.ofBytes 16 (range b 17 32)
  clusterId := Block.ofBytes 16 (range b 33 48)
  nodeId := Block.ofBytes 16 (range b 49 64)
  resourceId := Block.ofBytes 16 (range b 65 80)
  membershipEpoch := Counter.ofNat (u64 b 81)
  fenceToken := Counter.ofNat (u64 b 89)
  sequenceNumber := Counter.ofNat (u64 b 97)
  deadline := Counter.ofNat (u64 b 105)
  bootId := Block.ofBytes 16 (range b 113 128)
  bodyDigest := Block.ofBytes 32 (range b 129 160)

/-- The offsets of the counters. -/
def checks : List ℕ := [81, 89, 97, 105]

def decode (b : Bytes) : Except Outcome Header :=
  if b.length ≠ headerSize then .error .invalidInput
  else if range b 1 4 ≠ magic ∨ range b 10 10 ≠ [0] ∨ u16 b 11 ≠ headerSize then
    .error .invalidInput
  else if u16 b 5 ≠ major ∨ u16 b 7 ≠ minor then .error .unsupported
  else
    match MessageKind.ofByte (unbe (range b 9 9)) with
    | none => .error .invalidInput
    | some kind =>
      if maxMessage < u32 b 13 ∨ ∃ offset ∈ checks, Counter.last < u64 b offset then
        .error .invalidInput
      else .ok (fields b kind)

def ValidIdentity (h : Header) : Prop :=
  isZero h.requestId.bytes = false ∧ isZero h.clusterId.bytes = false
    ∧ isZero h.nodeId.bytes = false ∧ isZero h.resourceId.bytes = false
    ∧ isZero h.bootId.bytes = false ∧ 0 < (h.sequenceNumber : ℕ)
    ∧ 0 < (h.membershipEpoch : ℕ) ∧ 0 < (h.fenceToken : ℕ)

instance (h : Header) : Decidable (ValidIdentity h) := by
  unfold ValidIdentity; infer_instance

/-! ### The codec -/

lemma decode_length {b : Bytes} {h : Header} (hd : decode b = .ok h) : b.length = 160 := by
  unfold decode at hd
  split at hd
  · cases hd
  · rename_i hl
    exact not_not.mp hl

/-- A header's parts make up the header. -/
lemma parts (b : Bytes) :
    range b 1 4 ++ range b 5 6 ++ range b 7 8 ++ range b 9 9 ++ range b 10 10
      ++ range b 11 12 ++ range b 13 16 ++ range b 17 32 ++ range b 33 48 ++ range b 49 64
      ++ range b 65 80 ++ range b 81 88 ++ range b 89 96 ++ range b 97 104 ++ range b 105 112
      ++ range b 113 128 ++ range b 129 160 = range b 1 160 := by
  rw [range_append_range, range_append_range, range_append_range, range_append_range,
    range_append_range, range_append_range, range_append_range, range_append_range,
    range_append_range, range_append_range, range_append_range, range_append_range,
    range_append_range, range_append_range, range_append_range, range_append_range] <;> omega

/-- **The header codec is canonical**: what is decoded is encoded as it was. -/
theorem encode_decode {b : Bytes} {h : Header} (hd : decode b = .ok h) : encode h = b := by
  have hl := decode_length hd
  unfold decode at hd
  rw [if_neg (by simp [hl, headerSize])] at hd
  split at hd
  · cases hd
  rename_i h1
  push Not at h1
  obtain ⟨hmagic, hgap, hsize⟩ := h1
  split at hd
  · cases hd
  rename_i h2
  push Not at h2
  split at hd
  · cases hd
  rename_i kind hk
  split at hd
  · cases hd
  rename_i h3
  push Not at h3
  obtain ⟨hbody, hcheck⟩ := h3
  cases hd
  have hc : ∀ offset ∈ checks, be 8 (Counter.ofNat (u64 b offset)) =
      range b offset (offset + 7) := fun offset ho => by
    have hmem := ho
    simp only [checks, List.mem_cons, List.not_mem_nil, or_false] at hmem
    exact be_u64 offset (by omega) (by omega) (hcheck offset ho)
  have hb : be 4 (Fin.ofNat (maxMessage + 1) (u32 b 13)) = range b 13 16 := by
    have hv : ((Fin.ofNat (maxMessage + 1) (u32 b 13) : Fin (maxMessage + 1)) : ℕ)
        = unbe (range b 13 16) := Nat.mod_eq_of_lt (Nat.lt_succ_of_le hbody)
    rw [hv, be_range 4 13 16 (by omega) rfl]
  have hkind : be 1 (kind.pos + 1) = range b 9 9 := by
    rw [← MessageKind.ofByte_eq hk, be_range 1 9 9 (by omega) rfl]
  have hmajor : be 2 (major : Fin 65536) = range b 5 6 := by
    rw [← h2.1, u16, be_range 2 5 6 (by omega) rfl]
  have hminor : be 2 (minor : Fin 65536) = range b 7 8 := by
    rw [← h2.2, u16, be_range 2 7 8 (by omega) rfl]
  have hsz : be 2 headerSize = range b 11 12 := by
    rw [← hsize, u16, be_range 2 11 12 (by omega) rfl]
  have hgap' : ([0] : Bytes) = range b 10 10 := hgap.symm
  have hall : range b 1 160 = b := range_all hl
  conv_rhs => rw [← hall, ← parts b]
  simp only [encode, fields]
  rw [hc 81 (by simp [checks]), hc 89 (by simp [checks]), hc 97 (by simp [checks]),
    hc 105 (by simp [checks]), hb, hkind, hmajor, hminor, hsz, hgap', ← hmagic,
    block_range 16 17 32 (by omega) rfl, block_range 16 33 48 (by omega) rfl,
    block_range 16 49 64 (by omega) rfl, block_range 16 65 80 (by omega) rfl,
    block_range 16 113 128 (by omega) rfl, block_range 32 129 160 (by omega) rfl]

end NiayanAssurance.Protocol
