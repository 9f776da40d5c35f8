import NiayanAssurance.Codec

/-!
Configuration receipts: which are valid, and the 512 bytes they are sent as.
-/

namespace NiayanAssurance.ConfigReceipt

open NiayanAssurance.Lib NiayanAssurance.Types NiayanAssurance.Codec

inductive Phase
  | beforeApply | beforeActivation | acceptRunning | beforeRestore
  deriving DecidableEq

/-- `Phase'Pos`. -/
def Phase.pos : Phase → ℕ
  | .beforeApply => 0 | .beforeActivation => 1 | .acceptRunning => 2 | .beforeRestore => 3

/-- `Phase'Val`, for the bytes that the wire check lets through. -/
def Phase.val : ℕ → Phase
  | 0 => .beforeApply
  | 1 => .beforeActivation
  | 2 => .acceptRunning
  | _ => .beforeRestore

structure Subject where
  root : Identity := zeroIdentity
  transaction : Identity := zeroIdentity
  boot : Identity := zeroIdentity
  plan : Digest := zeroDigest
  targetSet : Digest := zeroDigest
  effectiveConfig : Digest := zeroDigest
  sourceInventory : Digest := zeroDigest
  inputState : Digest := zeroDigest
  generatedSet : Digest := zeroDigest
  adapterSet : Digest := zeroDigest
  validatorSet : Digest := zeroDigest
  policy : Digest := zeroDigest
  contract : Digest := zeroDigest
  report : Digest := zeroDigest
  generation : Counter := 0
  epoch : Counter := 0
  sequence : Counter := 0
  scope : Phase := .beforeApply
  deriving DecidableEq

structure Receipt where
  binding : Subject := {}
  observedAt : Counter := 0
  notBefore : Counter := 0
  expires : Counter := 0
  completeInputs : Bool := false
  nativeValidated : Bool := false
  constraintsPassed : Bool := false
  derivedCurrent : Bool := false
  runningExact : Bool := false
  rollbackCompatible : Bool := false
  deriving DecidableEq

/-- The part of `Valid` about the subject. -/
def Subject.Valid (b : Subject) : Prop :=
  b.root ≠ zeroIdentity ∧ b.transaction ≠ zeroIdentity ∧ b.boot ≠ zeroIdentity
    ∧ b.plan ≠ zeroDigest ∧ b.targetSet ≠ zeroDigest ∧ b.effectiveConfig ≠ zeroDigest
    ∧ b.sourceInventory ≠ zeroDigest ∧ b.inputState ≠ zeroDigest ∧ b.generatedSet ≠ zeroDigest
    ∧ b.adapterSet ≠ zeroDigest ∧ b.validatorSet ≠ zeroDigest ∧ b.policy ≠ zeroDigest
    ∧ b.contract ≠ zeroDigest ∧ b.report ≠ zeroDigest ∧ 0 < (b.generation : ℕ)
    ∧ 0 < (b.epoch : ℕ) ∧ 0 < (b.sequence : ℕ)

instance (b : Subject) : Decidable b.Valid := by unfold Subject.Valid; infer_instance

def Valid (r : Receipt) : Prop :=
  r.binding.Valid ∧ (r.notBefore : ℕ) ≤ r.observedAt ∧ (r.observedAt : ℕ) < r.expires
    ∧ r.completeInputs = true ∧ r.nativeValidated = true ∧ r.constraintsPassed = true
    ∧ (¬ (r.binding.scope = .beforeActivation ∨ r.binding.scope = .acceptRunning)
      ∨ r.derivedCurrent = true)
    ∧ (r.binding.scope ≠ .acceptRunning ∨ r.runningExact = true)
    ∧ (r.binding.scope ≠ .beforeRestore ∨ r.rollbackCompatible = true)

instance (r : Receipt) : Decidable (Valid r) := by unfold Valid; infer_instance

/-! ### The wire -/

def wireSize : ℕ := 512

def magic : Bytes := [0x4D, 0x43, 0x43, 0x46, 0x47, 0x30, 0x30, 0x31]

def bits (r : Receipt) : ℕ :=
  (if r.completeInputs then 1 else 0) + (if r.nativeValidated then 2 else 0)
    + (if r.constraintsPassed then 4 else 0) + (if r.derivedCurrent then 8 else 0)
    + (if r.runningExact then 16 else 0) + (if r.rollbackCompatible then 32 else 0)

/-- The wire of a receipt, valid or not. -/
def wire (r : Receipt) : Bytes :=
  pad wireSize (magic ++ r.binding.root.bytes ++ r.binding.transaction.bytes
    ++ r.binding.boot.bytes ++ r.binding.plan.bytes ++ r.binding.targetSet.bytes
    ++ r.binding.effectiveConfig.bytes ++ r.binding.sourceInventory.bytes
    ++ r.binding.inputState.bytes ++ r.binding.generatedSet.bytes ++ r.binding.adapterSet.bytes
    ++ r.binding.validatorSet.bytes ++ r.binding.policy.bytes ++ r.binding.contract.bytes
    ++ r.binding.report.bytes ++ be 8 r.binding.generation ++ be 8 r.binding.epoch
    ++ be 8 r.binding.sequence ++ be 8 r.observedAt ++ be 8 r.notBefore ++ be 8 r.expires
    ++ be 1 (r.binding.scope.pos + 1) ++ be 1 (bits r))

def encode (r : Receipt) : Except Outcome Bytes :=
  if Valid r then .ok (wire r) else .error .invalidInput

/-- The subject that a wire spells. -/
def subjectFields (w : Bytes) : Subject where
  root := .ofBytes 16 (range w 9 24)
  transaction := .ofBytes 16 (range w 25 40)
  boot := .ofBytes 16 (range w 41 56)
  plan := .ofBytes 32 (range w 57 88)
  targetSet := .ofBytes 32 (range w 89 120)
  effectiveConfig := .ofBytes 32 (range w 121 152)
  sourceInventory := .ofBytes 32 (range w 153 184)
  inputState := .ofBytes 32 (range w 185 216)
  generatedSet := .ofBytes 32 (range w 217 248)
  adapterSet := .ofBytes 32 (range w 249 280)
  validatorSet := .ofBytes 32 (range w 281 312)
  policy := .ofBytes 32 (range w 313 344)
  contract := .ofBytes 32 (range w 345 376)
  report := .ofBytes 32 (range w 377 408)
  generation := .ofNat (u64 w 409)
  epoch := .ofNat (u64 w 417)
  sequence := .ofNat (u64 w 425)
  scope := Phase.val (byteAt w 457 - 1)

/-- The receipt that a wire spells. -/
def fields (w : Bytes) : Receipt where
  binding := subjectFields w
  observedAt := .ofNat (u64 w 433)
  notBefore := .ofNat (u64 w 441)
  expires := .ofNat (u64 w 449)
  completeInputs := byteAt w 458 &&& 1 ≠ 0
  nativeValidated := byteAt w 458 &&& 2 ≠ 0
  constraintsPassed := byteAt w 458 &&& 4 ≠ 0
  derivedCurrent := byteAt w 458 &&& 8 ≠ 0
  runningExact := byteAt w 458 &&& 16 ≠ 0
  rollbackCompatible := byteAt w 458 &&& 32 ≠ 0

def decode (w : Bytes) : Except Outcome Receipt :=
  if w.length ≠ wireSize then .error .invalidInput
  else if range w 1 8 ≠ magic ∨ ¬ (1 ≤ byteAt w 457 ∧ byteAt w 457 ≤ 4)
      ∨ 63 < byteAt w 458 then .error .invalidInput
  else if ∃ x ∈ range w 459 512, x ≠ 0 then .error .invalidInput
  else if Past w 409 6 then .error .invalidInput
  else if encode (fields w) ≠ .ok w then .error .invalidInput
  else .ok (fields w)

/-! ### Reading what has been written -/

lemma parts (r : Receipt) :
    [range (wire r) 1 8, range (wire r) 9 24, range (wire r) 25 40, range (wire r) 41 56,
      range (wire r) 57 88, range (wire r) 89 120, range (wire r) 121 152,
      range (wire r) 153 184, range (wire r) 185 216, range (wire r) 217 248,
      range (wire r) 249 280, range (wire r) 281 312, range (wire r) 313 344,
      range (wire r) 345 376, range (wire r) 377 408, range (wire r) 409 416,
      range (wire r) 417 424, range (wire r) 425 432, range (wire r) 433 440,
      range (wire r) 441 448, range (wire r) 449 456, range (wire r) 457 457,
      range (wire r) 458 458, range (wire r) 459 512]
    = [magic, r.binding.root.bytes, r.binding.transaction.bytes, r.binding.boot.bytes,
        r.binding.plan.bytes, r.binding.targetSet.bytes, r.binding.effectiveConfig.bytes,
        r.binding.sourceInventory.bytes, r.binding.inputState.bytes,
        r.binding.generatedSet.bytes, r.binding.adapterSet.bytes,
        r.binding.validatorSet.bytes, r.binding.policy.bytes, r.binding.contract.bytes,
        r.binding.report.bytes, be 8 r.binding.generation, be 8 r.binding.epoch,
        be 8 r.binding.sequence, be 8 r.observedAt, be 8 r.notBefore, be 8 r.expires,
        be 1 (r.binding.scope.pos + 1), be 1 (bits r), List.replicate 54 0] := by
  have h : wire r = [magic, r.binding.root.bytes, r.binding.transaction.bytes,
      r.binding.boot.bytes, r.binding.plan.bytes, r.binding.targetSet.bytes,
      r.binding.effectiveConfig.bytes, r.binding.sourceInventory.bytes,
      r.binding.inputState.bytes, r.binding.generatedSet.bytes, r.binding.adapterSet.bytes,
      r.binding.validatorSet.bytes, r.binding.policy.bytes, r.binding.contract.bytes,
      r.binding.report.bytes, be 8 r.binding.generation, be 8 r.binding.epoch,
      be 8 r.binding.sequence, be 8 r.observedAt, be 8 r.notBefore, be 8 r.expires,
      be 1 (r.binding.scope.pos + 1), be 1 (bits r), List.replicate 54 0].flatten := by
    simp [wire, wireSize, pad, magic]
  rw [h]
  exact cut_flatten (w := [8, 16, 16, 16, 32, 32, 32, 32, 32, 32, 32, 32, 32, 32, 32, 8, 8, 8, 8,
    8, 8, 1, 1, 54]) (by simp [magic])

lemma bits_le (r : Receipt) : bits r ≤ 63 := by
  unfold bits
  split_ifs <;> decide

/-- Each flag is read from its own bit. -/
lemma bits_and (r : Receipt) : (decide (bits r &&& 1 ≠ 0) = r.completeInputs
    ∧ decide (bits r &&& 2 ≠ 0) = r.nativeValidated
    ∧ decide (bits r &&& 4 ≠ 0) = r.constraintsPassed)
    ∧ decide (bits r &&& 8 ≠ 0) = r.derivedCurrent
    ∧ decide (bits r &&& 16 ≠ 0) = r.runningExact
    ∧ decide (bits r &&& 32 ≠ 0) = r.rollbackCompatible := by
  unfold bits
  generalize r.completeInputs = a, r.nativeValidated = b, r.constraintsPassed = c,
    r.derivedCurrent = d, r.runningExact = e, r.rollbackCompatible = f
  revert a b c d e f
  decide

/-- The two bytes of a wire that are no number of eight bytes. -/
lemma bytes_wire (r : Receipt) : byteAt (wire r) 457 = r.binding.scope.pos + 1
    ∧ byteAt (wire r) 458 = bits r := by
  have h := parts r
  simp only [List.cons.injEq] at h
  obtain ⟨-, -, -, -, -, -, -, -, -, -, -, -, -, -, -, -, -, -, -, -, -, h1, h2, -⟩ := h
  rw [byteAt, h1, byteAt, h2]
  exact ⟨unbe_be_byte (by cases r.binding.scope <;> decide),
    unbe_be_byte ((bits_le r).trans_lt (by decide))⟩

lemma fields_wire (r : Receipt) : fields (wire r) = r := by
  have h := parts r
  simp only [List.cons.injEq] at h
  obtain ⟨-, h1, h2, h3, h4, h5, h6, h7, h8, h9, h10, h11, h12, h13, h14, h15, h16, h17, h18, h19,
    h20, -⟩ := h
  obtain ⟨h21, h22⟩ := bytes_wire r
  obtain ⟨⟨h23, h24, h25⟩, h26, h27, h28⟩ := bits_and r
  have hs : Phase.val (r.binding.scope.pos + 1 - 1) = r.binding.scope := by
    cases r.binding.scope <;> rfl
  unfold fields subjectFields
  simp only [u64, Nat.reduceAdd, h1, h2, h3, h4, h5, h6, h7, h8, h9, h10, h11, h12, h13, h14, h15,
    h16, h17, h18, h19, h20, h21, h22, h23, h24, h25, h26, h27, h28, hs, Block.ofBytes_bytes,
    counter_be]

lemma not_past_wire (r : Receipt) : ¬ Past (wire r) 409 6 := by
  have h := parts r
  simp only [List.cons.injEq] at h
  obtain ⟨-, -, -, -, -, -, -, -, -, -, -, -, -, -, -, h1, h2, h3, h4, h5, h6, -⟩ := h
  refine not_past (l := [r.binding.generation, r.binding.epoch, r.binding.sequence, r.observedAt,
    r.notBefore, r.expires]) fun i c hc => ?_
  match i, hc with
  | 0, rfl => exact h1
  | 1, rfl => exact h2
  | 2, rfl => exact h3
  | 3, rfl => exact h4
  | 4, rfl => exact h5
  | 5, rfl => exact h6

lemma encode_eq_ok_iff (w : Bytes) (r : Receipt) : encode r = .ok w ↔ wire r = w ∧ Valid r := by
  unfold encode
  split_ifs with hv
  · rw [Except.ok.injEq, and_iff_left hv]
  · exact ⟨fun h => (by cases h), fun h => absurd h.2 hv⟩

/-- **The wire of a receipt** is canonical. -/
theorem canonical : Canonical wire decode Valid := by
  refine .of_decode (fun w r h => ?_) fun r hr => ?_
  · unfold decode at h
    split at h
    · cases h
    split at h
    · cases h
    split at h
    · cases h
    split at h
    · cases h
    split at h
    · cases h
    rename_i hv
    cases h
    exact (encode_eq_ok_iff _ _).mp (not_not.mp hv)
  · have h := parts r
    simp only [List.cons.injEq, and_true] at h
    obtain ⟨h0, -, -, -, -, -, -, -, -, -, -, -, -, -, -, -, -, -, -, -, -, -, -, h1⟩ := h
    obtain ⟨h2, h3⟩ := bytes_wire r
    have hl : (wire r).length = wireSize := length_pad (by simp [magic, wireSize])
    have hp : r.binding.scope.pos + 1 ≤ 4 := by cases r.binding.scope <;> decide
    have hz : ¬ ∃ x ∈ range (wire r) 459 512, x ≠ 0 := by
      rintro ⟨x, hx, hne⟩
      exact hne (List.eq_of_mem_replicate (h1 ▸ hx))
    have he : encode r = .ok (wire r) := (encode_eq_ok_iff _ _).mpr ⟨rfl, hr⟩
    unfold decode
    rw [if_neg (not_not.mpr hl), if_neg (by simp [h0, h2, h3, hp, bits_le]), if_neg hz,
      if_neg (not_past_wire r), fields_wire, if_neg (not_not.mpr he)]

theorem decode_eq_ok_iff (w : Bytes) (r : Receipt) : decode w = .ok r ↔ encode r = .ok w := by
  rw [canonical w r, encode_eq_ok_iff]

end NiayanAssurance.ConfigReceipt
