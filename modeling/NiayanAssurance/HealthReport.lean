import NiayanAssurance.Codec
import NiayanAssurance.Sha256
import NiayanAssurance.TimeGuard

/-!
Reports on the health of a resource, and the frame that they are sent in.

The first checks of the decoder do not look at the bytes between the fields and the digest;
that they are zero comes out of the last check only, when the frame is encoded again.
-/

namespace NiayanAssurance.HealthReport

open NiayanAssurance.Lib NiayanAssurance.Types NiayanAssurance.Codec

inductive Condition
  | unknownHealth | healthy | starting | failed | stopped | businessFailure | integrityIncident
  | capacityIncident
  deriving DecidableEq

/-- `Condition'Pos`. -/
def Condition.pos : Condition → ℕ
  | .unknownHealth => 0 | .healthy => 1 | .starting => 2 | .failed => 3 | .stopped => 4
  | .businessFailure => 5 | .integrityIncident => 6 | .capacityIncident => 7

/-- `Condition'Val`, for the bytes that the frame check lets through. -/
def Condition.val : ℕ → Condition
  | 0 => .unknownHealth | 1 => .healthy | 2 => .starting | 3 => .failed | 4 => .stopped
  | 5 => .businessFailure | 6 => .integrityIncident
  | _ => .capacityIncident

structure Report where
  clusterId : Identity := zeroIdentity
  nodeId : Identity := zeroIdentity
  resourceId : Identity := zeroIdentity
  invocationId : Identity := zeroIdentity
  configuration : Digest := zeroDigest
  recoveryPolicy : Digest := zeroDigest
  stamp : TimeGuard.Stamp := {}
  result : Condition := .unknownHealth
  configValid : Bool := false
  dependenciesReady : Bool := false
  dataCompatible : Bool := false
  ownershipExclusive : Bool := false
  businessHealthy : Bool := false
  maintenance : Bool := false
  emergencyStop : Bool := false
  deriving DecidableEq

def Valid (r : Report) : Prop :=
  r.clusterId ≠ zeroIdentity ∧ r.nodeId ≠ zeroIdentity ∧ r.resourceId ≠ zeroIdentity
    ∧ r.configuration ≠ zeroDigest ∧ r.recoveryPolicy ≠ zeroDigest
    ∧ r.stamp.bootId ≠ zeroIdentity ∧ 0 < (r.stamp.sequence : ℕ)
    ∧ (r.stamp.observedAt : ℕ) < r.stamp.expiresAt
    ∧ (r.businessHealthy = false ∨ (r.result = .healthy ∧ r.invocationId ≠ zeroIdentity))

instance (r : Report) : Decidable (Valid r) := by unfold Valid; infer_instance

/-- `MCHLTH01`. -/
def magic : Bytes := [0x4D, 0x43, 0x48, 0x4C, 0x54, 0x48, 0x30, 0x31]

/-- `B (1..184)`: the fields of a report. -/
def body (r : Report) : Bytes :=
  magic ++ r.clusterId.bytes ++ r.nodeId.bytes ++ r.resourceId.bytes ++ r.invocationId.bytes
    ++ r.configuration.bytes ++ r.recoveryPolicy.bytes ++ r.stamp.bootId.bytes
    ++ be 8 r.stamp.sequence ++ be 8 r.stamp.observedAt ++ be 8 r.stamp.expiresAt
    ++ be 1 r.result.pos ++ be 1 r.configValid.toNat ++ be 1 r.dependenciesReady.toNat
    ++ be 1 r.dataCompatible.toNat ++ be 1 r.ownershipExclusive.toNat
    ++ be 1 r.businessHealthy.toNat ++ be 1 r.maintenance.toNat ++ be 1 r.emergencyStop.toNat

def encode (r : Report) : Bytes := Sha256.withDigest 224 (body r)

/-- The report that a frame spells. -/
def fields (f : Bytes) : Report where
  clusterId := .ofBytes 16 (range f 9 24)
  nodeId := .ofBytes 16 (range f 25 40)
  resourceId := .ofBytes 16 (range f 41 56)
  invocationId := .ofBytes 16 (range f 57 72)
  configuration := .ofBytes 32 (range f 73 104)
  recoveryPolicy := .ofBytes 32 (range f 105 136)
  stamp :=
    { bootId := .ofBytes 16 (range f 137 152)
      sequence := .ofNat (u64 f 153)
      observedAt := .ofNat (u64 f 161)
      expiresAt := .ofNat (u64 f 169) }
  result := Condition.val (byteAt f 177)
  configValid := byteAt f 178 = 1
  dependenciesReady := byteAt f 179 = 1
  dataCompatible := byteAt f 180 = 1
  ownershipExclusive := byteAt f 181 = 1
  businessHealthy := byteAt f 182 = 1
  maintenance := byteAt f 183 = 1
  emergencyStop := byteAt f 184 = 1

/-- `Decode`: what it leaves in the report, and its status. -/
def decode (f : Bytes) : Report × Outcome :=
  if f.length ≠ 256 then ({}, .invalidInput)
  else if range f 1 8 ≠ magic then ({}, .invalidInput)
  else if range f 225 256 ≠ (Sha256.hash (range f 1 224)).bytes then ({}, .corrupt)
  else if Condition.capacityIncident.pos < byteAt f 177 then ({}, .invalidInput)
  else if 1 < byteAt f 178 ∨ 1 < byteAt f 179 ∨ 1 < byteAt f 180 ∨ 1 < byteAt f 181
      ∨ 1 < byteAt f 182 ∨ 1 < byteAt f 183 ∨ 1 < byteAt f 184 then ({}, .invalidInput)
  else if Past f 153 3 then ({}, .invalidInput)
  else if ¬ Valid (fields f) ∨ encode (fields f) ≠ f then (fields f, .invalidInput)
  else (fields f, .ok)

/-! ### The frame and its fields -/

/-- The frame of a report, with these bytes between the fields and the digest. -/
def frame (r : Report) (gap : Block 40) : Bytes := Sha256.withDigest 224 (body r ++ gap.bytes)

lemma condition_val_pos (k : Condition) : Condition.val k.pos = k := by cases k <;> rfl

lemma condition_val_le {n : ℕ} (h : n ≤ 7) : (Condition.val n).pos = n := by
  have hn : ∀ n < 8, (Condition.val n).pos = n := by decide
  exact hn n (Nat.lt_succ_of_le h)

lemma body_flatten (r : Report) : body r
    = [magic, r.clusterId.bytes, r.nodeId.bytes, r.resourceId.bytes, r.invocationId.bytes,
        r.configuration.bytes, r.recoveryPolicy.bytes, r.stamp.bootId.bytes,
        be 8 r.stamp.sequence, be 8 r.stamp.observedAt, be 8 r.stamp.expiresAt,
        be 1 r.result.pos, be 1 r.configValid.toNat, be 1 r.dependenciesReady.toNat,
        be 1 r.dataCompatible.toNat, be 1 r.ownershipExclusive.toNat,
        be 1 r.businessHealthy.toNat, be 1 r.maintenance.toNat,
        be 1 r.emergencyStop.toNat].flatten := by
  delta body
  simp

lemma length_body (r : Report) : (body r).length = 184 := by
  rw [body_flatten]
  simp [magic]

lemma pad_body (r : Report) (gap : Block 40) :
    pad 224 (body r ++ gap.bytes) = body r ++ gap.bytes := by
  simp [pad, length_body]

/-- The frame that a report is encoded as is one of its frames. -/
lemma encode_eq_frame (r : Report) : encode r = frame r (Block.zero 40) := by
  rw [encode, frame, Sha256.withDigest, Sha256.withDigest, pad_body, pad, length_body]
  rfl

lemma flatten (r : Report) (gap : Block 40) : frame r gap
    = [magic, r.clusterId.bytes, r.nodeId.bytes, r.resourceId.bytes, r.invocationId.bytes,
        r.configuration.bytes, r.recoveryPolicy.bytes, r.stamp.bootId.bytes,
        be 8 r.stamp.sequence, be 8 r.stamp.observedAt, be 8 r.stamp.expiresAt,
        be 1 r.result.pos, be 1 r.configValid.toNat, be 1 r.dependenciesReady.toNat,
        be 1 r.dataCompatible.toNat, be 1 r.ownershipExclusive.toNat,
        be 1 r.businessHealthy.toNat, be 1 r.maintenance.toNat, be 1 r.emergencyStop.toNat,
        gap.bytes, (Sha256.hash (body r ++ gap.bytes)).bytes].flatten := by
  generalize hd : (Sha256.hash (body r ++ gap.bytes)).bytes = h
  rw [frame, Sha256.withDigest, pad_body, hd, body_flatten]
  simp

lemma parts (r : Report) (gap : Block 40) :
    [range (frame r gap) 1 8, range (frame r gap) 9 24, range (frame r gap) 25 40,
      range (frame r gap) 41 56, range (frame r gap) 57 72, range (frame r gap) 73 104,
      range (frame r gap) 105 136, range (frame r gap) 137 152, range (frame r gap) 153 160,
      range (frame r gap) 161 168, range (frame r gap) 169 176, range (frame r gap) 177 177,
      range (frame r gap) 178 178, range (frame r gap) 179 179, range (frame r gap) 180 180,
      range (frame r gap) 181 181, range (frame r gap) 182 182, range (frame r gap) 183 183,
      range (frame r gap) 184 184, range (frame r gap) 185 224, range (frame r gap) 225 256]
    = [magic, r.clusterId.bytes, r.nodeId.bytes, r.resourceId.bytes, r.invocationId.bytes,
        r.configuration.bytes, r.recoveryPolicy.bytes, r.stamp.bootId.bytes,
        be 8 r.stamp.sequence, be 8 r.stamp.observedAt, be 8 r.stamp.expiresAt,
        be 1 r.result.pos, be 1 r.configValid.toNat, be 1 r.dependenciesReady.toNat,
        be 1 r.dataCompatible.toNat, be 1 r.ownershipExclusive.toNat,
        be 1 r.businessHealthy.toNat, be 1 r.maintenance.toNat, be 1 r.emergencyStop.toNat,
        gap.bytes, (Sha256.hash (body r ++ gap.bytes)).bytes] := by
  rw [flatten]
  exact cut_flatten (w := [8, 16, 16, 16, 16, 32, 32, 16, 8, 8, 8, 1, 1, 1, 1, 1, 1, 1, 1, 40, 32])
    (by simp [magic])

lemma length_frame (r : Report) (gap : Block 40) : (frame r gap).length = 256 :=
  Sha256.length_withDigest (by simp [length_body])

/-- The bytes of a frame that are no number of eight bytes. -/
lemma bytes_frame (r : Report) (gap : Block 40) : byteAt (frame r gap) 177 = r.result.pos
    ∧ (byteAt (frame r gap) 178 = r.configValid.toNat
      ∧ byteAt (frame r gap) 179 = r.dependenciesReady.toNat
      ∧ byteAt (frame r gap) 180 = r.dataCompatible.toNat
      ∧ byteAt (frame r gap) 181 = r.ownershipExclusive.toNat)
    ∧ byteAt (frame r gap) 182 = r.businessHealthy.toNat
    ∧ byteAt (frame r gap) 183 = r.maintenance.toNat
    ∧ byteAt (frame r gap) 184 = r.emergencyStop.toNat := by
  have h := parts r gap
  simp only [List.cons.injEq] at h
  obtain ⟨-, -, -, -, -, -, -, -, -, -, -, h1, h2, h3, h4, h5, h6, h7, h8, -⟩ := h
  simp only [byteAt, h1, h2, h3, h4, h5, h6, h7, h8, unbe_be_flag, and_true]
  exact unbe_be_byte (by cases r.result <;> decide)

lemma fields_frame (r : Report) (gap : Block 40) : fields (frame r gap) = r := by
  have h := parts r gap
  simp only [List.cons.injEq] at h
  obtain ⟨-, h1, h2, h3, h4, h5, h6, h7, h8, h9, h10, -⟩ := h
  obtain ⟨h11, ⟨h12, h13, h14, h15⟩, h16, h17, h18⟩ := bytes_frame r gap
  have hb : ∀ v : Bool, decide (v.toNat = 1) = v := by decide
  unfold fields
  simp only [u64, Nat.reduceAdd, h1, h2, h3, h4, h5, h6, h7, h8, h9, h10, h11, h12, h13, h14, h15,
    h16, h17, h18, hb, condition_val_pos, Block.ofBytes_bytes, counter_be]

lemma not_past_frame (r : Report) (gap : Block 40) : ¬ Past (frame r gap) 153 3 := by
  have h := parts r gap
  simp only [List.cons.injEq] at h
  obtain ⟨-, -, -, -, -, -, -, -, h1, h2, h3, -⟩ := h
  refine not_past (l := [r.stamp.sequence, r.stamp.observedAt, r.stamp.expiresAt])
    fun i c hc => ?_
  match i, hc with
  | 0, rfl => exact h1
  | 1, rfl => exact h2
  | 2, rfl => exact h3

/-- Only the frame without other bytes in its gap is encoded again. -/
lemma encode_eq_frame_iff (r : Report) (gap : Block 40) :
    encode r = frame r gap ↔ gap = Block.zero 40 := by
  rw [encode_eq_frame]
  constructor
  · intro h
    have h1 := parts r gap
    have h2 := parts r (Block.zero 40)
    rw [h] at h2
    simp only [List.cons.injEq] at h1 h2
    obtain ⟨-, -, -, -, -, -, -, -, -, -, -, -, -, -, -, -, -, -, -, h1, -⟩ := h1
    obtain ⟨-, -, -, -, -, -, -, -, -, -, -, -, -, -, -, -, -, -, -, h2, -⟩ := h2
    exact Block.ext (h1.symm.trans h2)
  · rintro rfl
    rfl

/-- What `Decode` answers to a frame of a report, valid or not. -/
lemma decode_frame (r : Report) (gap : Block 40) : decode (frame r gap)
    = (r, if Valid r ∧ gap = Block.zero 40 then .ok else .invalidInput) := by
  have h := parts r gap
  simp only [List.cons.injEq, and_true] at h
  obtain ⟨h0, -, -, -, -, -, -, -, -, -, -, -, -, -, -, -, -, -, -, -, h2⟩ := h
  obtain ⟨h11, ⟨h12, h13, h14, h15⟩, h16, h17, h18⟩ := bytes_frame r gap
  have hbody : range (frame r gap) 1 224 = body r ++ gap.bytes := by
    rw [frame, Sha256.withDigest, pad_body]
    exact range_head (by simp [length_body])
  have hc : ¬ Condition.capacityIncident.pos < r.result.pos := by cases r.result <;> decide
  have hb : ∀ v : Bool, ¬ 1 < v.toNat := by decide
  unfold decode
  rw [if_neg (by simp [length_frame]), if_neg (by simp [h0]), if_neg (by simp [h2, hbody]),
    if_neg (by rw [h11]; exact hc), if_neg (by simp only [h12, h13, h14, h15, h16, h17, h18, hb,
      or_self, not_false_iff]), if_neg (not_past_frame r gap), fields_frame]
  by_cases hv : Valid r <;> by_cases hg : gap = Block.zero 40 <;>
    simp [hv, hg, encode_eq_frame_iff]

/-- What the first checks of `Decode` ask of a frame. -/
structure Framed (b : Bytes) : Prop where
  length : b.length = 256
  magic : range b 1 8 = magic
  digest : range b 225 256 = (Sha256.hash (range b 1 224)).bytes
  result : byteAt b 177 ≤ 7
  flags : (byteAt b 178 ≤ 1 ∧ byteAt b 179 ≤ 1 ∧ byteAt b 180 ≤ 1 ∧ byteAt b 181 ≤ 1)
    ∧ byteAt b 182 ≤ 1 ∧ byteAt b 183 ≤ 1 ∧ byteAt b 184 ≤ 1
  counters : ¬ Past b 153 3

/-- A frame that passes the first checks is one of the report that it spells. -/
lemma frame_fields {b : Bytes} (h : Framed b) :
    frame (fields b) (.ofBytes 40 (range b 185 224)) = b := by
  have hl := h.length
  obtain ⟨⟨h1, h2, h3, h4⟩, h5, h6, h7⟩ := h.flags
  have hc := le_of_not_past h.counters
  have hbody : body (fields b) = range b 1 184 := by
    refine Eq.trans ?_ (flatten_cutFrom
      [8, 16, 16, 16, 16, 32, 32, 16, 8, 8, 8, 1, 1, 1, 1, 1, 1, 1, 1] b 1 Nat.one_pos)
    rw [body_flatten]
    simp only [fields]
    rw [← h.magic, condition_val_le h.result, block_range 16 9 24 (by omega) rfl,
      block_range 16 25 40 (by omega) rfl, block_range 16 41 56 (by omega) rfl,
      block_range 16 57 72 (by omega) rfl, block_range 32 73 104 (by omega) rfl,
      block_range 32 105 136 (by omega) rfl, block_range 16 137 152 (by omega) rfl,
      be_u64 153 (by omega) (by omega) (hc 0 (by decide)),
      be_u64 161 (by omega) (by omega) (hc 1 (by decide)),
      be_u64 169 (by omega) (by omega) (hc 2 (by decide)),
      be_byteAt 177 (by omega) (by omega), be_flag 178 (by omega) (by omega) h1,
      be_flag 179 (by omega) (by omega) h2, be_flag 180 (by omega) (by omega) h3,
      be_flag 181 (by omega) (by omega) h4, be_flag 182 (by omega) (by omega) h5,
      be_flag 183 (by omega) (by omega) h6, be_flag 184 (by omega) (by omega) h7]
    rfl
  rw [frame, Sha256.withDigest, pad_body, hbody, block_range 40 185 224 (by omega) rfl,
    range_append_range (by omega) (by omega), ← h.digest,
    range_append_range (by omega) (by omega), range_all hl]

/-- **What a health report leaves behind**: the report that it is a frame of, valid or not and
whatever is in its gap. -/
theorem fills : Fills decode .ok {} (fun b r => ∃ gap, frame r gap = b)
    (fun b r => Valid r ∧ encode r = b) where
  value := by
    rintro b r ⟨gap, rfl⟩
    exact congrArg Prod.fst (decode_frame r gap)
  status := by
    rintro b r ⟨gap, rfl⟩
    simp only [decode_frame, encode_eq_frame_iff]
    by_cases hv : Valid r <;> by_cases hg : gap = Block.zero 40 <;> simp [hv, hg]
  rest := by
    intro b hs
    unfold decode
    split
    · rfl
    rename_i h1
    split
    · rfl
    rename_i h2
    split
    · rfl
    rename_i h3
    split
    · rfl
    rename_i h4
    split
    · rfl
    rename_i h5
    split
    · rfl
    rename_i h6
    simp only [not_or, not_not, Nat.not_lt] at h1 h2 h3 h4 h5
    obtain ⟨f1, f2, f3, f4, f5, f6, f7⟩ := h5
    have hf : Framed b := ⟨h1, h2, h3, h4, ⟨⟨f1, f2, f3, f4⟩, f5, f6, f7⟩, h6⟩
    exact absurd ⟨_, frame_fields hf⟩ (hs (fields b))

end NiayanAssurance.HealthReport
