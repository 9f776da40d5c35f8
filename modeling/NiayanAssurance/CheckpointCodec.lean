import NiayanAssurance.Checkpoint
import NiayanAssurance.Codec
import NiayanAssurance.Sha256

/-!
The frame of a checkpoint descriptor.
-/

namespace NiayanAssurance.CheckpointCodec

open NiayanAssurance.Lib NiayanAssurance.Types NiayanAssurance.Codec NiayanAssurance.Checkpoint

def magic : Bytes := [77, 67, 67, 72, 75, 48, 48, 49]

/-- `B (1..288)`. -/
def body (d : Descriptor) : Bytes :=
  pad 288 (magic ++ d.rootId.bytes ++ d.streamId.bytes ++ d.contract.bytes ++ d.previous.bytes
    ++ d.payload.bytes ++ d.logHead.bytes ++ d.auditReceipt.bytes ++ be 8 d.generation
    ++ be 8 d.coveredRecords ++ be 8 d.trustEpoch ++ be 8 d.replayEpoch ++ be 8 d.replayToken
    ++ be 8 d.replaySequence ++ be 8 d.payloadSize ++ be 1 d.quiescent.toNat)

def encode (d : Descriptor) : Bytes := body d ++ (Sha256.hash (body d)).bytes

/-- The descriptor that a frame spells. -/
def fields (b : Bytes) : Descriptor where
  rootId := .ofBytes 16 (range b 9 24)
  streamId := .ofBytes 16 (range b 25 40)
  contract := .ofBytes 32 (range b 41 72)
  previous := .ofBytes 32 (range b 73 104)
  payload := .ofBytes 32 (range b 105 136)
  logHead := .ofBytes 32 (range b 137 168)
  auditReceipt := .ofBytes 32 (range b 169 200)
  generation := .ofNat (u64 b 201)
  coveredRecords := .ofNat (u64 b 209)
  trustEpoch := .ofNat (u64 b 217)
  replayEpoch := .ofNat (u64 b 225)
  replayToken := .ofNat (u64 b 233)
  replaySequence := .ofNat (u64 b 241)
  payloadSize := .ofNat (u64 b 249)
  quiescent := byteAt b 257 = 1

def decode (b : Bytes) : Except Outcome Descriptor :=
  if b.length ≠ 320 then .error .corrupt
  else if range b 1 8 ≠ magic ∨ 1 < byteAt b 257 then .error .corrupt
  else if Past b 201 7 then .error .corrupt
  else if ¬ Valid (fields b) ∨ encode (fields b) ≠ b then .error .corrupt
  else .ok (fields b)

lemma parts (d : Descriptor) :
    [range (encode d) 1 8, range (encode d) 9 24, range (encode d) 25 40,
      range (encode d) 41 72, range (encode d) 73 104, range (encode d) 105 136,
      range (encode d) 137 168, range (encode d) 169 200, range (encode d) 201 208,
      range (encode d) 209 216, range (encode d) 217 224, range (encode d) 225 232,
      range (encode d) 233 240, range (encode d) 241 248, range (encode d) 249 256,
      range (encode d) 257 257, range (encode d) 258 288, range (encode d) 289 320]
    = [magic, d.rootId.bytes, d.streamId.bytes, d.contract.bytes, d.previous.bytes,
        d.payload.bytes, d.logHead.bytes, d.auditReceipt.bytes, be 8 d.generation,
        be 8 d.coveredRecords, be 8 d.trustEpoch, be 8 d.replayEpoch, be 8 d.replayToken,
        be 8 d.replaySequence, be 8 d.payloadSize, be 1 d.quiescent.toNat,
        List.replicate 31 0, (Sha256.hash (body d)).bytes] := by
  have h : encode d = [magic, d.rootId.bytes, d.streamId.bytes, d.contract.bytes,
      d.previous.bytes, d.payload.bytes, d.logHead.bytes, d.auditReceipt.bytes,
      be 8 d.generation, be 8 d.coveredRecords, be 8 d.trustEpoch, be 8 d.replayEpoch,
      be 8 d.replayToken, be 8 d.replaySequence, be 8 d.payloadSize, be 1 d.quiescent.toNat,
      List.replicate 31 0, (Sha256.hash (body d)).bytes].flatten := by
    generalize hd : (Sha256.hash (body d)).bytes = h
    rw [encode, hd]
    simp [body, pad, magic]
  rw [h]
  exact cut_flatten (w := [8, 16, 16, 32, 32, 32, 32, 32, 8, 8, 8, 8, 8, 8, 8, 1, 31, 32])
    (by simp [magic])

lemma fields_encode (d : Descriptor) : byteAt (encode d) 257 = d.quiescent.toNat
    ∧ fields (encode d) = d := by
  have h := parts d
  simp only [List.cons.injEq] at h
  obtain ⟨-, h1, h2, h3, h4, h5, h6, h7, h8, h9, h10, h11, h12, h13, h14, h15, -⟩ := h
  have hb : byteAt (encode d) 257 = d.quiescent.toNat := by
    rw [byteAt, h15]
    exact unbe_be_byte ((Bool.toNat_le _).trans_lt (by decide))
  have hq : decide (d.quiescent.toNat = 1) = d.quiescent := by cases d.quiescent <;> rfl
  refine ⟨hb, ?_⟩
  unfold fields
  simp only [u64, Nat.reduceAdd, h1, h2, h3, h4, h5, h6, h7, h8, h9, h10, h11, h12, h13, h14, hb,
    hq, Block.ofBytes_bytes, counter_be]

/-- No number of a descriptor's frame is past `Counter'Last`. -/
lemma not_past_encode (d : Descriptor) : ¬ Past (encode d) 201 7 := by
  have h := parts d
  simp only [List.cons.injEq] at h
  obtain ⟨-, -, -, -, -, -, -, -, h8, h9, h10, h11, h12, h13, h14, -⟩ := h
  refine not_past (l := [d.generation, d.coveredRecords, d.trustEpoch, d.replayEpoch,
    d.replayToken, d.replaySequence, d.payloadSize]) fun i c hc => ?_
  match i, hc with
  | 0, rfl => exact h8
  | 1, rfl => exact h9
  | 2, rfl => exact h10
  | 3, rfl => exact h11
  | 4, rfl => exact h12
  | 5, rfl => exact h13
  | 6, rfl => exact h14

/-- **The frame of a descriptor** is canonical. -/
theorem canonical : Canonical encode decode Valid := by
  refine .of_decode (fun b d h => ?_) fun d hd => ?_
  · unfold decode at h
    split at h
    · cases h
    split at h
    · cases h
    split at h
    · cases h
    split at h
    · cases h
    rename_i hv
    push Not at hv
    cases h
    exact ⟨hv.2, hv.1⟩
  · obtain ⟨hb, hf⟩ := fields_encode d
    have h := parts d
    simp only [List.cons.injEq] at h
    obtain ⟨h0, -⟩ := h
    have hl : (encode d).length = 320 := Sha256.length_withDigest (by simp [magic])
    have hq : d.quiescent.toNat ≤ 1 := Bool.toNat_le _
    unfold decode
    rw [if_neg (not_not.mpr hl), if_neg (by simp [h0, hb, hq]), if_neg (not_past_encode d), hf,
      if_neg (by simp [hd])]

end NiayanAssurance.CheckpointCodec
