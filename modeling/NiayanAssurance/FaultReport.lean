import NiayanAssurance.Codec
import NiayanAssurance.Faults
import NiayanAssurance.Sha256

/-!
The frame that a fault is reported in.
-/

namespace NiayanAssurance.FaultReport

open NiayanAssurance.Lib NiayanAssurance.Types NiayanAssurance.Codec NiayanAssurance.Faults

def recordSize : ℕ := 320

def magic : Bytes := [0x4D, 0x43, 0x46, 0x41, 0x55, 0x4C, 0x54, 0x31]

/-- `B (1..288)`. -/
def body (f : Fault) : Bytes :=
  pad 288 (magic ++ f.clusterId.bytes ++ f.nodeId.bytes ++ f.resourceId.bytes ++ f.bootId.bytes
    ++ f.policy.bytes ++ f.syndrome.bytes ++ be 8 f.sequenceNumber ++ be 8 f.observedAt
    ++ be 8 f.expiresAt ++ be 8 f.occurrences ++ be 1 f.kind.pos ++ be 1 f.level.pos
    ++ be 1 f.nature.pos ++ be 1 f.quality.pos ++ be 1 f.corrected.toNat
    ++ be 1 f.dataAtRisk.toNat ++ be 1 f.executionAtRisk.toNat)

def encode (f : Fault) : Bytes := body f ++ (Sha256.hash (body f)).bytes

/-- `Domain'Val`, for the bytes that the frame check lets through. -/
def domainVal : ℕ → Domain
  | 0 => .unknownDomain | 1 => .software | 2 => .memory | 3 => .cpu | 4 => .storage
  | 5 => .network | 6 => .pcie | 7 => .power | 8 => .thermal | 9 => .firmware | 10 => .security
  | 11 => .timeService
  | _ => .clusterControl

/-- `Severity'Val`, for the bytes that the frame check lets through. -/
def severityVal : ℕ → Severity
  | 0 => .informational | 1 => .corrected | 2 => .degraded | 3 => .uncorrectable
  | _ => .critical

/-- `Persistence'Val`, for the bytes that the frame check lets through. -/
def persistenceVal : ℕ → Persistence
  | 0 => .transient | 1 => .intermittent
  | _ => .persistent

/-- `Evidence_Quality'Val`, for the bytes that the frame check lets through. -/
def evidenceQualityVal : ℕ → EvidenceQuality
  | 0 => .untrusted | 1 => .authenticatedObserver | 2 => .corroborated
  | _ => .attestedSource

/-- The fault that a frame spells. -/
def fields (x : Bytes) : Fault where
  clusterId := .ofBytes 16 (range x 9 24)
  nodeId := .ofBytes 16 (range x 25 40)
  resourceId := .ofBytes 16 (range x 41 56)
  bootId := .ofBytes 16 (range x 57 72)
  policy := .ofBytes 32 (range x 73 104)
  syndrome := .ofBytes 32 (range x 105 136)
  sequenceNumber := .ofNat (u64 x 137)
  observedAt := .ofNat (u64 x 145)
  expiresAt := .ofNat (u64 x 153)
  occurrences := .ofNat (u64 x 161)
  kind := domainVal (byteAt x 169)
  level := severityVal (byteAt x 170)
  nature := persistenceVal (byteAt x 171)
  quality := evidenceQualityVal (byteAt x 172)
  corrected := byteAt x 173 = 1
  dataAtRisk := byteAt x 174 = 1
  executionAtRisk := byteAt x 175 = 1

/-- `Decode` of a string whose first index is `first`: what it leaves in the fault, and its
status. -/
def decode (b : Bytes) (first : ℕ) : Fault × Outcome :=
  if b.length ≠ recordSize ∨ first ≠ 1 then ({}, .corrupt)
  else if range b 1 8 ≠ magic ∨ range b 289 320 ≠ (Sha256.hash (range b 1 288)).bytes then
    ({}, .corrupt)
  else if isZero (range b 176 288) = false then ({}, .corrupt)
  else if Domain.clusterControl.pos < byteAt b 169 ∨ Severity.critical.pos < byteAt b 170
      ∨ Persistence.persistent.pos < byteAt b 171
      ∨ EvidenceQuality.attestedSource.pos < byteAt b 172 then ({}, .corrupt)
  else if 1 < byteAt b 173 ∨ 1 < byteAt b 174 ∨ 1 < byteAt b 175 then ({}, .corrupt)
  else if Past b 137 4 then ({}, .corrupt)
  else if ¬ Valid (fields b) ∨ encode (fields b) ≠ b then (fields b, .corrupt)
  else (fields b, .ok)

/-! ### The frame and its fields -/

lemma domainVal_pos (k : Domain) : domainVal k.pos = k := by cases k <;> rfl

lemma severityVal_pos (k : Severity) : severityVal k.pos = k := by cases k <;> rfl

lemma persistenceVal_pos (k : Persistence) : persistenceVal k.pos = k := by cases k <;> rfl

lemma evidenceQualityVal_pos (k : EvidenceQuality) : evidenceQualityVal k.pos = k := by
  cases k <;> rfl

lemma body_flatten (f : Fault) : body f
    = [magic, f.clusterId.bytes, f.nodeId.bytes, f.resourceId.bytes, f.bootId.bytes,
        f.policy.bytes, f.syndrome.bytes, be 8 f.sequenceNumber, be 8 f.observedAt,
        be 8 f.expiresAt, be 8 f.occurrences, be 1 f.kind.pos, be 1 f.level.pos,
        be 1 f.nature.pos, be 1 f.quality.pos, be 1 f.corrected.toNat, be 1 f.dataAtRisk.toNat,
        be 1 f.executionAtRisk.toNat, List.replicate 113 0].flatten := by
  simp [body, pad, magic]

lemma flatten (f : Fault) : encode f
    = [magic, f.clusterId.bytes, f.nodeId.bytes, f.resourceId.bytes, f.bootId.bytes,
        f.policy.bytes, f.syndrome.bytes, be 8 f.sequenceNumber, be 8 f.observedAt,
        be 8 f.expiresAt, be 8 f.occurrences, be 1 f.kind.pos, be 1 f.level.pos,
        be 1 f.nature.pos, be 1 f.quality.pos, be 1 f.corrected.toNat, be 1 f.dataAtRisk.toNat,
        be 1 f.executionAtRisk.toNat, List.replicate 113 0,
        (Sha256.hash (body f)).bytes].flatten := by
  generalize hd : (Sha256.hash (body f)).bytes = h
  rw [encode, hd, body_flatten]
  simp

lemma parts (f : Fault) :
    [range (encode f) 1 8, range (encode f) 9 24, range (encode f) 25 40,
      range (encode f) 41 56, range (encode f) 57 72, range (encode f) 73 104,
      range (encode f) 105 136, range (encode f) 137 144, range (encode f) 145 152,
      range (encode f) 153 160, range (encode f) 161 168, range (encode f) 169 169,
      range (encode f) 170 170, range (encode f) 171 171, range (encode f) 172 172,
      range (encode f) 173 173, range (encode f) 174 174, range (encode f) 175 175,
      range (encode f) 176 288, range (encode f) 289 320]
    = [magic, f.clusterId.bytes, f.nodeId.bytes, f.resourceId.bytes, f.bootId.bytes,
        f.policy.bytes, f.syndrome.bytes, be 8 f.sequenceNumber, be 8 f.observedAt,
        be 8 f.expiresAt, be 8 f.occurrences, be 1 f.kind.pos, be 1 f.level.pos,
        be 1 f.nature.pos, be 1 f.quality.pos, be 1 f.corrected.toNat, be 1 f.dataAtRisk.toNat,
        be 1 f.executionAtRisk.toNat, List.replicate 113 0, (Sha256.hash (body f)).bytes] := by
  rw [flatten]
  exact cut_flatten (w := [8, 16, 16, 16, 16, 32, 32, 8, 8, 8, 8, 1, 1, 1, 1, 1, 1, 1, 113, 32])
    (by simp [magic])

lemma length_encode (f : Fault) : (encode f).length = 320 :=
  Sha256.length_withDigest (by simp [magic])

/-- The bytes of a frame that are no number of eight bytes. -/
lemma bytes_encode (f : Fault) : (byteAt (encode f) 169 = f.kind.pos
    ∧ byteAt (encode f) 170 = f.level.pos ∧ byteAt (encode f) 171 = f.nature.pos
    ∧ byteAt (encode f) 172 = f.quality.pos) ∧ byteAt (encode f) 173 = f.corrected.toNat
    ∧ byteAt (encode f) 174 = f.dataAtRisk.toNat
    ∧ byteAt (encode f) 175 = f.executionAtRisk.toNat := by
  have h := parts f
  simp only [List.cons.injEq] at h
  obtain ⟨-, -, -, -, -, -, -, -, -, -, -, h1, h2, h3, h4, h5, h6, h7, -⟩ := h
  simp only [byteAt, h1, h2, h3, h4, h5, h6, h7, unbe_be_flag, and_true]
  exact ⟨unbe_be_byte (by cases f.kind <;> decide), unbe_be_byte (by cases f.level <;> decide),
    unbe_be_byte (by cases f.nature <;> decide), unbe_be_byte (by cases f.quality <;> decide)⟩

lemma fields_encode (f : Fault) : fields (encode f) = f := by
  have h := parts f
  simp only [List.cons.injEq] at h
  obtain ⟨-, h1, h2, h3, h4, h5, h6, h7, h8, h9, h10, -⟩ := h
  obtain ⟨⟨h11, h12, h13, h14⟩, h15, h16, h17⟩ := bytes_encode f
  have hb : ∀ v : Bool, decide (v.toNat = 1) = v := by decide
  unfold fields
  simp only [u64, Nat.reduceAdd, h1, h2, h3, h4, h5, h6, h7, h8, h9, h10, h11, h12, h13, h14, h15,
    h16, h17, hb, domainVal_pos, severityVal_pos, persistenceVal_pos, evidenceQualityVal_pos,
    Block.ofBytes_bytes, counter_be]

lemma not_past_encode (f : Fault) : ¬ Past (encode f) 137 4 := by
  have h := parts f
  simp only [List.cons.injEq] at h
  obtain ⟨-, -, -, -, -, -, -, h1, h2, h3, h4, -⟩ := h
  refine not_past (l := [f.sequenceNumber, f.observedAt, f.expiresAt, f.occurrences])
    fun i c hc => ?_
  match i, hc with
  | 0, rfl => exact h1
  | 1, rfl => exact h2
  | 2, rfl => exact h3
  | 3, rfl => exact h4

/-- What `Decode` answers to the frame of a fault, valid or not. -/
lemma decode_encode (f : Fault) :
    decode (encode f) 1 = (f, if Valid f then .ok else .corrupt) := by
  have h := parts f
  simp only [List.cons.injEq, and_true] at h
  obtain ⟨h0, -, -, -, -, -, -, -, -, -, -, -, -, -, -, -, -, -, h1, h2⟩ := h
  obtain ⟨⟨h11, h12, h13, h14⟩, h15, h16, h17⟩ := bytes_encode f
  have hbody : range (encode f) 1 288 = body f :=
    range_head (length_pad (by simp [magic]))
  have hz : isZero (List.replicate 113 0) = true := (isZero_iff_replicate (by simp)).mpr rfl
  have hc : (f.kind.pos ≤ 12 ∧ f.level.pos ≤ 4) ∧ f.nature.pos ≤ 2 ∧ f.quality.pos ≤ 3 := by
    refine ⟨⟨?_, ?_⟩, ?_, ?_⟩
    · cases f.kind <;> decide
    · cases f.level <;> decide
    · cases f.nature <;> decide
    · cases f.quality <;> decide
  have hb : ∀ v : Bool, ¬ 1 < v.toNat := by decide
  unfold decode
  rw [if_neg (by simp [length_encode, recordSize]), if_neg (by simp [h0, h2, hbody]),
    if_neg (by rw [h1, hz]; decide), if_neg, if_neg (by simp only [h15, h16, h17, hb, or_self,
      not_false_iff]), if_neg (not_past_encode f), fields_encode]
  · by_cases hv : Valid f <;> simp [hv]
  · rw [h11, h12, h13, h14]
    exact fun h => by
      simp only [Domain.pos, Severity.pos, Persistence.pos, EvidenceQuality.pos] at h hc
      omega

/-- What the first checks of `Decode` ask of a frame. -/
structure Framed (b : Bytes) : Prop where
  length : b.length = 320
  magic : range b 1 8 = magic
  digest : range b 289 320 = (Sha256.hash (range b 1 288)).bytes
  gap : isZero (range b 176 288) = true
  kinds : byteAt b 169 ≤ 12 ∧ byteAt b 170 ≤ 4 ∧ byteAt b 171 ≤ 2 ∧ byteAt b 172 ≤ 3
  flags : byteAt b 173 ≤ 1 ∧ byteAt b 174 ≤ 1 ∧ byteAt b 175 ≤ 1
  counters : ¬ Past b 137 4

lemma domainVal_le {n : ℕ} (h : n ≤ 12) : (domainVal n).pos = n := by
  have hn : ∀ n < 13, (domainVal n).pos = n := by decide
  exact hn n (Nat.lt_succ_of_le h)

lemma severityVal_le {n : ℕ} (h : n ≤ 4) : (severityVal n).pos = n := by
  have hn : ∀ n < 5, (severityVal n).pos = n := by decide
  exact hn n (Nat.lt_succ_of_le h)

lemma persistenceVal_le {n : ℕ} (h : n ≤ 2) : (persistenceVal n).pos = n := by
  have hn : ∀ n < 3, (persistenceVal n).pos = n := by decide
  exact hn n (Nat.lt_succ_of_le h)

lemma evidenceQualityVal_le {n : ℕ} (h : n ≤ 3) : (evidenceQualityVal n).pos = n := by
  have hn : ∀ n < 4, (evidenceQualityVal n).pos = n := by decide
  exact hn n (Nat.lt_succ_of_le h)

/-- A frame that passes the first checks is the frame of the fault that it spells. -/
lemma encode_fields {b : Bytes} (h : Framed b) : encode (fields b) = b := by
  have hl := h.length
  have hz := (isZero_iff_replicate (length_range (b := b) (by omega))).mp h.gap
  obtain ⟨h1, h2, h3, h4⟩ := h.kinds
  obtain ⟨h5, h6, h7⟩ := h.flags
  have hc := le_of_not_past h.counters
  have hbody : body (fields b) = range b 1 288 := by
    refine Eq.trans ?_ (flatten_cutFrom
      [8, 16, 16, 16, 16, 32, 32, 8, 8, 8, 8, 1, 1, 1, 1, 1, 1, 1, 113] b 1 Nat.one_pos)
    rw [body_flatten]
    simp only [fields]
    rw [← h.magic, ← hz, domainVal_le h1, severityVal_le h2, persistenceVal_le h3,
      evidenceQualityVal_le h4, block_range 16 9 24 (by omega) rfl,
      block_range 16 25 40 (by omega) rfl, block_range 16 41 56 (by omega) rfl,
      block_range 16 57 72 (by omega) rfl, block_range 32 73 104 (by omega) rfl,
      block_range 32 105 136 (by omega) rfl,
      be_u64 137 (by omega) (by omega) (hc 0 (by decide)),
      be_u64 145 (by omega) (by omega) (hc 1 (by decide)),
      be_u64 153 (by omega) (by omega) (hc 2 (by decide)),
      be_u64 161 (by omega) (by omega) (hc 3 (by decide)),
      be_byteAt 169 (by omega) (by omega), be_byteAt 170 (by omega) (by omega),
      be_byteAt 171 (by omega) (by omega), be_byteAt 172 (by omega) (by omega),
      be_flag 173 (by omega) (by omega) h5, be_flag 174 (by omega) (by omega) h6,
      be_flag 175 (by omega) (by omega) h7]
    rfl
  rw [encode, hbody, ← h.digest, range_append_range (by omega) (by omega), range_all hl]

/-- **What a fault report leaves behind**: the fault whose frame it is, valid or not. -/
theorem fills : Fills (fun x : Bytes × ℕ => decode x.1 x.2) .ok {}
    (fun x f => x.2 = 1 ∧ encode f = x.1) (fun _ f => Valid f) where
  value := by
    rintro ⟨b, first⟩ f ⟨rfl, rfl⟩
    exact congrArg Prod.fst (decode_encode f)
  status := by
    rintro ⟨b, first⟩ f ⟨rfl, rfl⟩
    simp only [decode_encode]
    by_cases hv : Valid f <;> simp [hv]
  rest := by
    rintro ⟨b, first⟩ hs
    show (decode b first).1 = {}
    unfold decode
    split
    · rfl
    rename_i h1
    split
    · rfl
    rename_i h2
    split
    · rfl
    rename_i h3
    split
    · rfl
    rename_i h4
    split
    · rfl
    rename_i h5
    split
    · rfl
    rename_i h6
    simp only [not_or, not_not, Nat.not_lt, Bool.not_eq_false] at h1 h2 h3 h4 h5
    have hf : Framed b := ⟨h1.1, h2.1, h2.2, h3, h4, h5, h6⟩
    exact absurd ⟨h1.2, encode_fields hf⟩ (hs (fields b))

end NiayanAssurance.FaultReport
