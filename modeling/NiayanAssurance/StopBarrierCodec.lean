import NiayanAssurance.StopBarrierAuth
import NiayanAssurance.Codec

/-!
The frames of a stop barrier: what is written of a policy, a state or an evidence is read as it
was, and no other frame is read as that.
-/

namespace NiayanAssurance.StopBarrierCodec

open NiayanAssurance.Lib NiayanAssurance.Types NiayanAssurance.StopBarrier
open NiayanAssurance.Codec

/-! ### The frame of a state -/

def SM : Bytes := [77, 67, 66, 65, 82, 83, 48, 49]

/-- `Phase'Pos`. -/
def Phase.pos : Phase → ℕ | .collecting => 0 | .sealed => 1 | .blocked => 2

/-- `Phase'Val`, for the bytes that the frame check lets through. -/
def Phase.val : ℕ → Phase
  | 0 => .collecting
  | 1 => .sealed
  | _ => .blocked

/-- `Participant_Phase'Pos`. -/
def ParticipantPhase.pos : ParticipantPhase → ℕ
  | .awaiting => 0 | .acknowledged => 1 | .isolated => 2 | .uncertain => 3

/-- `Participant_Phase'Val`, for the bytes that the frame check lets through. -/
def ParticipantPhase.val : ℕ → ParticipantPhase
  | 0 => .awaiting
  | 1 => .acknowledged
  | 2 => .isolated
  | _ => .uncertain

/-- The 128 bytes of one receipt. -/
def Receipt.encode (r : Receipt) : Bytes :=
  pad 128 (be 1 (ParticipantPhase.pos r.current) ++ List.replicate 7 0 ++ be 8 r.nodeSequence
    ++ be 8 r.fenceSequence ++ be 8 r.observed ++ be 8 r.expires ++ r.proof.bytes
    ++ r.auditHead.bytes ++ be 8 r.completed ++ be 4 r.isolationPaths.toNat)

/-- `B (1..256)`: the fields before the receipts. -/
def State.header (s : State) : Bytes :=
  pad 256 (SM ++ s.policyHash.bytes ++ s.clusterId.bytes ++ s.barrierId.bytes
    ++ s.receiverBoot.bytes ++ be 8 s.revision ++ be 8 s.lastNow ++ be 1 (Phase.pos s.current)
    ++ be 1 s.count)

def State.encode (s : State) : Bytes :=
  Sha256.withDigest 4576 (State.header s ++ s.members.flatMap Receipt.encode)

/-! ### Decoding -/

def frameSize : ℕ := 4608

/-- The participant whose row begins at byte `o`. -/
def participantAt (b : Bytes) (o : ℕ) : Participant where
  nodeId := .ofBytes 16 (range b o (o + 15))
  resourceId := .ofBytes 16 (range b (o + 16) (o + 31))
  bootId := .ofBytes 16 (range b (o + 32) (o + 47))
  stopKey := .ofBytes 32 (range b (o + 48) (o + 79))
  fenceKey := .ofBytes 32 (range b (o + 80) (o + 111))
  requiredIsolationPaths := BitVec.ofNat 32 (u32 b (o + 112))

/-- The policy that a frame spells. -/
def policyFields (b : Bytes) (h : byteAt b 209 ≤ capacity) : Policy where
  clusterId := .ofBytes 16 (range b 9 24)
  barrierId := .ofBytes 16 (range b 25 40)
  receiverBoot := .ofBytes 16 (range b 41 56)
  contract := .ofBytes 32 (range b 57 88)
  changePlan := .ofBytes 32 (range b 89 120)
  inventory := .ofBytes 32 (range b 121 152)
  guardValue := .ofBytes 32 (range b 153 184)
  epoch := .ofNat (u64 b 185)
  guardRevision := .ofNat (u64 b 193)
  maximumAge := .ofNat (u64 b 201)
  members := (List.range (byteAt b 209)).map fun i => participantAt b (257 + i * 128)
  count_le := by simpa using h

def Policy.decode (b : Bytes) : Except Outcome Policy :=
  if b.length ≠ frameSize ∨ range b 1 8 ≠ PM then .error .corrupt
  else if h : byteAt b 209 ≤ capacity then
    if (List.range 3).any fun i => Counter.last < u64 b (185 + i * 8) then .error .corrupt
    else if ¬ (policyFields b h).Valid ∨ (policyFields b h).encode ≠ b then .error .corrupt
    else .ok (policyFields b h)
  else .error .corrupt

/-- The receipt whose row begins at byte `o`. -/
def receiptAt (b : Bytes) (o : ℕ) : Receipt where
  current := ParticipantPhase.val (byteAt b o)
  nodeSequence := .ofNat (u64 b (o + 8))
  fenceSequence := .ofNat (u64 b (o + 16))
  observed := .ofNat (u64 b (o + 24))
  expires := .ofNat (u64 b (o + 32))
  proof := .ofBytes 32 (range b (o + 40) (o + 71))
  auditHead := .ofBytes 32 (range b (o + 72) (o + 103))
  completed := .ofNat (u64 b (o + 104))
  isolationPaths := BitVec.ofNat 32 (u32 b (o + 112))

/-- What the loop over the receipts refuses in the row at byte `o`. -/
def BadRow (b : Bytes) (o : ℕ) : Prop :=
  3 < byteAt b o ∨ ((List.range 4).any fun j => Counter.last < u64 b (o + (j + 1) * 8))
    ∨ Counter.last < u64 b (o + 104)

instance (b : Bytes) (o : ℕ) : Decidable (BadRow b o) := by unfold BadRow; infer_instance

/-- The state that a frame spells. -/
def stateFields (b : Bytes) (h : byteAt b 106 ≤ capacity) : State where
  policyHash := .ofBytes 32 (range b 9 40)
  clusterId := .ofBytes 16 (range b 41 56)
  barrierId := .ofBytes 16 (range b 57 72)
  receiverBoot := .ofBytes 16 (range b 73 88)
  revision := .ofNat (u64 b 89)
  lastNow := .ofNat (u64 b 97)
  current := Phase.val (byteAt b 105)
  members := (List.range (byteAt b 106)).map fun i => receiptAt b (257 + i * 128)
  count_le := by simpa using h

def State.decode (b : Bytes) : Except Outcome State :=
  if b.length ≠ frameSize ∨ range b 1 8 ≠ SM ∨ 2 < byteAt b 105 then .error .corrupt
  else if h : byteAt b 106 ≤ capacity then
    if Counter.last < u64 b 89 ∨ Counter.last < u64 b 97 then .error .corrupt
    else if ∃ i < byteAt b 106, BadRow b (257 + i * 128) then .error .corrupt
    else if ¬ (stateFields b h).Valid ∨ State.encode (stateFields b h) ≠ b then .error .corrupt
    else .ok (stateFields b h)
  else .error .corrupt

/-! ### Rows -/

lemma length_participant (m : Participant) : m.encode.length = 128 :=
  length_pad (by simp)

lemma length_receipt (r : Receipt) : (Receipt.encode r).length = 128 :=
  length_pad (by simp)

/-- The parts of a participant's row. -/
lemma participant_parts (m : Participant) :
    [range m.encode 1 16, range m.encode 17 32, range m.encode 33 48, range m.encode 49 80,
      range m.encode 81 112, range m.encode 113 116, range m.encode 117 128]
    = [m.nodeId.bytes, m.resourceId.bytes, m.bootId.bytes, m.stopKey.bytes, m.fenceKey.bytes,
        be 4 m.requiredIsolationPaths.toNat, List.replicate 12 0] := by
  have h : m.encode = [m.nodeId.bytes, m.resourceId.bytes, m.bootId.bytes, m.stopKey.bytes,
      m.fenceKey.bytes, be 4 m.requiredIsolationPaths.toNat, List.replicate 12 0].flatten := by
    simp [Participant.encode, pad]
  rw [h]
  exact cut_flatten (w := [16, 16, 16, 32, 32, 4, 12]) (by simp)

/-- The parts of a receipt's row. -/
lemma receipt_parts (r : Receipt) :
    [range (Receipt.encode r) 1 1, range (Receipt.encode r) 2 8, range (Receipt.encode r) 9 16,
      range (Receipt.encode r) 17 24, range (Receipt.encode r) 25 32,
      range (Receipt.encode r) 33 40, range (Receipt.encode r) 41 72,
      range (Receipt.encode r) 73 104, range (Receipt.encode r) 105 112,
      range (Receipt.encode r) 113 116, range (Receipt.encode r) 117 128]
    = [be 1 (ParticipantPhase.pos r.current), List.replicate 7 0, be 8 r.nodeSequence,
        be 8 r.fenceSequence, be 8 r.observed, be 8 r.expires, r.proof.bytes, r.auditHead.bytes,
        be 8 r.completed, be 4 r.isolationPaths.toNat, List.replicate 12 0] := by
  have h : Receipt.encode r = [be 1 (ParticipantPhase.pos r.current), List.replicate 7 0,
      be 8 r.nodeSequence, be 8 r.fenceSequence, be 8 r.observed, be 8 r.expires, r.proof.bytes,
      r.auditHead.bytes, be 8 r.completed, be 4 r.isolationPaths.toNat,
      List.replicate 12 0].flatten := by
    simp [Receipt.encode, pad]
  rw [h]
  exact cut_flatten (w := [1, 7, 8, 8, 8, 8, 32, 32, 8, 4, 12]) (by simp)

variable {b : Bytes}

lemma participantAt_row {l : List Participant} (h : Rows l Participant.encode 257 128 b) {i : ℕ}
    {m : Participant} (hm : l[i]? = some m) : participantAt b (257 + i * 128) = m := by
  have hp := participant_parts m
  simp only [List.cons.injEq, and_true] at hp
  obtain ⟨h1, h2, h3, h4, h5, h6, -⟩ := hp
  have h0 := h.range_from hm 15 (by decide)
  simp only [participantAt, u32, Nat.add_assoc, Nat.reduceAdd] at h0 ⊢
  simp only [← Nat.add_assoc] at h0 ⊢
  rw [h0, h.range hm (by decide), h.range hm (by decide), h.range hm (by decide),
    h.range hm (by decide), h.range hm (by decide), h1, h2, h3, h4, h5, h6]
  simp

lemma byte_row {l : List Receipt} (h : Rows l Receipt.encode 257 128 b) {i : ℕ} {r : Receipt}
    (hr : l[i]? = some r) : byteAt b (257 + i * 128) = ParticipantPhase.pos r.current := by
  have hp := receipt_parts r
  simp only [List.cons.injEq, and_true] at hp
  have h0 := h.range_from hr 0 (by decide)
  rw [Nat.add_zero] at h0
  rw [byteAt, h0, hp.1]
  exact unbe_be_byte (by cases r.current <;> decide)

/-- What the counters of a receipt's row are. -/
lemma counters_row {l : List Receipt} (h : Rows l Receipt.encode 257 128 b) {i : ℕ} {r : Receipt}
    (hr : l[i]? = some r) : u64 b (257 + i * 128 + 8) = r.nodeSequence
      ∧ u64 b (257 + i * 128 + 16) = r.fenceSequence ∧ u64 b (257 + i * 128 + 24) = r.observed
      ∧ u64 b (257 + i * 128 + 32) = r.expires ∧ u64 b (257 + i * 128 + 104) = r.completed := by
  have hp := receipt_parts r
  simp only [List.cons.injEq, and_true] at hp
  obtain ⟨-, -, h1, h2, h3, h4, -, -, h5, -, -⟩ := hp
  simp only [u64, Nat.add_assoc, Nat.reduceAdd]
  simp only [← Nat.add_assoc]
  rw [h.range hr (by decide), h.range hr (by decide), h.range hr (by decide),
    h.range hr (by decide), h.range hr (by decide), h1, h2, h3, h4, h5]
  simp

lemma receiptAt_row {l : List Receipt} (h : Rows l Receipt.encode 257 128 b) {i : ℕ} {r : Receipt}
    (hr : l[i]? = some r) : receiptAt b (257 + i * 128) = r := by
  obtain ⟨h1, h2, h3, h4, h5⟩ := counters_row h hr
  have hp := receipt_parts r
  simp only [List.cons.injEq, and_true] at hp
  obtain ⟨-, -, -, -, -, -, h6, h7, -, h8, -⟩ := hp
  have h9 : ParticipantPhase.val (ParticipantPhase.pos r.current) = r.current := by
    cases r.current <;> rfl
  rw [receiptAt, byte_row h hr, h1, h2, h3, h4, h5, h9]
  simp only [u32, Nat.add_assoc, Nat.reduceAdd]
  simp only [← Nat.add_assoc]
  rw [h.range hr (by decide), h.range hr (by decide), h.range hr (by decide), h6, h7, h8]
  simp

/-! ### Policies -/

/-- The digest at the end of a frame of a policy. -/
def policyDigest (p : Policy) : Digest :=
  Sha256.hash (pad 4576 (p.header ++ p.members.flatMap Participant.encode))

lemma policy_parts (p : Policy) :
    [range p.encode 1 8, range p.encode 9 24, range p.encode 25 40, range p.encode 41 56,
      range p.encode 57 88, range p.encode 89 120, range p.encode 121 152,
      range p.encode 153 184, range p.encode 185 192, range p.encode 193 200,
      range p.encode 201 208, range p.encode 209 209, range p.encode 210 256,
      range p.encode 257 (257 + 128 * p.count - 1),
      range p.encode (257 + 128 * p.count) (257 + 128 * p.count + (4320 - 128 * p.count) - 1),
      range p.encode (257 + 128 * p.count + (4320 - 128 * p.count))
        (257 + 128 * p.count + (4320 - 128 * p.count) + 32 - 1)]
    = [PM, p.clusterId.bytes, p.barrierId.bytes, p.receiverBoot.bytes, p.contract.bytes,
        p.changePlan.bytes, p.inventory.bytes, p.guardValue.bytes, be 8 p.epoch,
        be 8 p.guardRevision, be 8 p.maximumAge, be 1 p.count, List.replicate 47 0,
        p.members.flatMap Participant.encode, List.replicate (4320 - 128 * p.count) 0,
        (policyDigest p).bytes] := by
  have hm : (p.members.flatMap Participant.encode).length = 128 * p.count :=
    length_flatMap fun m _ => length_participant m
  have hh : p.header.length = 256 := length_pad (by simp [PM])
  have h : p.encode = [PM, p.clusterId.bytes, p.barrierId.bytes, p.receiverBoot.bytes,
      p.contract.bytes, p.changePlan.bytes, p.inventory.bytes, p.guardValue.bytes, be 8 p.epoch,
      be 8 p.guardRevision, be 8 p.maximumAge, be 1 p.count, List.replicate 47 0,
      p.members.flatMap Participant.encode, List.replicate (4320 - 128 * p.count) 0,
      (policyDigest p).bytes].flatten := by
    have h1 : 4576 - (256 + 128 * p.count) = 4320 - 128 * p.count := by omega
    rw [Policy.encode, Sha256.withDigest, ← policyDigest, pad, List.length_append, hh, hm, h1]
    simp [Policy.header, pad, PM]
  rw [h]
  exact cut_flatten (w := [8, 16, 16, 16, 32, 32, 32, 32, 8, 8, 8, 1, 47, 128 * p.count,
    4320 - 128 * p.count, 32]) (by simp [hm, PM])

lemma policy_rows (p : Policy) : Rows p.members Participant.encode 257 128 p.encode := by
  refine ⟨fun m _ => length_participant m, p.header, List.replicate (4576
    - (p.header ++ p.members.flatMap Participant.encode).length) 0 ++ (policyDigest p).bytes,
    congrArg (· + 1) (length_pad (by simp [PM])), ?_⟩
  rw [Policy.encode, Sha256.withDigest, ← policyDigest, pad]
  simp only [List.append_assoc]

lemma length_policy (p : Policy) : p.encode.length = frameSize := by
  have hc := p.count_le
  refine Sha256.length_withDigest ?_
  rw [List.length_append, length_flatMap fun m _ => length_participant m,
    show p.header.length = 256 from length_pad (by simp [PM])]
  unfold capacity at hc
  omega

lemma byteAt_count (p : Policy) : byteAt p.encode 209 = p.count := by
  have hc := p.count_le
  have h := policy_parts p
  simp only [List.cons.injEq] at h
  obtain ⟨-, -, -, -, -, -, -, -, -, -, -, h, -⟩ := h
  rw [byteAt, h]
  refine unbe_be_byte ?_
  unfold Policy.count capacity at *
  omega

lemma policyFields_encode (p : Policy) (hc : byteAt p.encode 209 ≤ capacity) :
    policyFields p.encode hc = p := by
  have h := policy_parts p
  simp only [List.cons.injEq] at h
  obtain ⟨-, h1, h2, h3, h4, h5, h6, h7, h8, h9, h10, -, -, -, -, -, -⟩ := h
  have hm : (List.range (byteAt p.encode 209)).map
      (fun i => participantAt p.encode (257 + i * 128)) = p.members :=
    rows_read (fun i m hm => participantAt_row (policy_rows p) hm) (byteAt_count p)
  unfold policyFields
  simp only [u64, Nat.reduceAdd, h1, h2, h3, h4, h5, h6, h7, h8, h9, h10, hm,
    Block.ofBytes_bytes, counter_be]

/-- **The frame of a policy** is canonical. -/
theorem policy_canonical : Canonical Policy.encode Policy.decode Policy.Valid := by
  refine .of_decode (fun b p h => ?_) fun p hp => ?_
  · unfold Policy.decode at h
    split at h
    · cases h
    split at h
    · split at h
      · cases h
      split at h
      · cases h
      rename_i hv
      push Not at hv
      cases h
      exact ⟨hv.2, hv.1⟩
    · cases h
  · have hc : byteAt p.encode 209 ≤ capacity := (byteAt_count p).trans_le p.count_le
    have h := policy_parts p
    simp only [List.cons.injEq] at h
    obtain ⟨h0, -, -, -, -, -, -, -, h8, h9, h10, -, -, -, -, -, -⟩ := h
    have hn : ¬ ((List.range 3).any fun i =>
        decide (Counter.last < u64 p.encode (185 + i * 8))) = true := by
      simp only [List.any_eq_true, List.mem_range, decide_eq_true_eq, not_exists, not_and,
        Nat.not_lt]
      intro i hi
      obtain rfl | rfl | rfl : i = 0 ∨ i = 1 ∨ i = 2 := by omega
      all_goals
        simp only [u64, Nat.reduceMul, Nat.reduceAdd, h8, h9, h10, unbe_be_counter]
        exact Counter.le_last _
    unfold Policy.decode
    rw [if_neg (by simp [length_policy, h0]), dif_pos hc, if_neg hn, policyFields_encode,
      if_neg (by simp [hp])]

/-! ### States -/

/-- The digest at the end of a frame of a state. -/
def stateDigest (s : State) : Digest :=
  Sha256.hash (pad 4576 (State.header s ++ s.members.flatMap Receipt.encode))

lemma state_parts (s : State) :
    [range (State.encode s) 1 8, range (State.encode s) 9 40, range (State.encode s) 41 56,
      range (State.encode s) 57 72, range (State.encode s) 73 88, range (State.encode s) 89 96,
      range (State.encode s) 97 104, range (State.encode s) 105 105,
      range (State.encode s) 106 106, range (State.encode s) 107 256,
      range (State.encode s) 257 (257 + 128 * s.count - 1),
      range (State.encode s) (257 + 128 * s.count)
        (257 + 128 * s.count + (4320 - 128 * s.count) - 1),
      range (State.encode s) (257 + 128 * s.count + (4320 - 128 * s.count))
        (257 + 128 * s.count + (4320 - 128 * s.count) + 32 - 1)]
    = [SM, s.policyHash.bytes, s.clusterId.bytes, s.barrierId.bytes, s.receiverBoot.bytes,
        be 8 s.revision, be 8 s.lastNow, be 1 (Phase.pos s.current), be 1 s.count,
        List.replicate 150 0, s.members.flatMap Receipt.encode,
        List.replicate (4320 - 128 * s.count) 0, (stateDigest s).bytes] := by
  have hm : (s.members.flatMap Receipt.encode).length = 128 * s.count :=
    length_flatMap fun r _ => length_receipt r
  have hh : (State.header s).length = 256 := length_pad (by simp [SM])
  have h : State.encode s = [SM, s.policyHash.bytes, s.clusterId.bytes, s.barrierId.bytes,
      s.receiverBoot.bytes, be 8 s.revision, be 8 s.lastNow, be 1 (Phase.pos s.current),
      be 1 s.count, List.replicate 150 0, s.members.flatMap Receipt.encode,
      List.replicate (4320 - 128 * s.count) 0, (stateDigest s).bytes].flatten := by
    have h1 : 4576 - (256 + 128 * s.count) = 4320 - 128 * s.count := by omega
    have hl : 256 - (SM ++ s.policyHash.bytes ++ s.clusterId.bytes ++ s.barrierId.bytes
        ++ s.receiverBoot.bytes ++ be 8 s.revision ++ be 8 s.lastNow
        ++ be 1 (Phase.pos s.current) ++ be 1 s.count).length = 150 := by simp [SM]
    rw [State.encode, Sha256.withDigest, ← stateDigest, pad, List.length_append, hh, hm, h1,
      State.header, pad, hl]
    simp only [List.flatten_cons, List.flatten_nil, List.append_nil, List.append_assoc]
  rw [h]
  exact cut_flatten (w := [8, 32, 16, 16, 16, 8, 8, 1, 1, 150, 128 * s.count,
    4320 - 128 * s.count, 32]) (by simp [hm, SM])

lemma state_rows (s : State) : Rows s.members Receipt.encode 257 128 (State.encode s) := by
  refine ⟨fun r _ => length_receipt r, State.header s, List.replicate (4576
    - (State.header s ++ s.members.flatMap Receipt.encode).length) 0 ++ (stateDigest s).bytes,
    congrArg (· + 1) (length_pad (by simp [SM])), ?_⟩
  rw [State.encode, Sha256.withDigest, ← stateDigest, pad]
  simp only [List.append_assoc]

lemma length_state (s : State) : (State.encode s).length = frameSize := by
  have hc := s.count_le
  refine Sha256.length_withDigest ?_
  rw [List.length_append, length_flatMap fun r _ => length_receipt r,
    show (State.header s).length = 256 from length_pad (by simp [SM])]
  unfold capacity at hc
  omega

/-- The two bytes of a state's frame that are no number of eight bytes. -/
lemma state_bytes (s : State) : byteAt (State.encode s) 105 = Phase.pos s.current
    ∧ byteAt (State.encode s) 106 = s.count := by
  have hc := s.count_le
  have h := state_parts s
  simp only [List.cons.injEq] at h
  obtain ⟨-, -, -, -, -, -, -, h1, h2, -⟩ := h
  rw [byteAt, h1, byteAt, h2]
  refine ⟨unbe_be_byte (by cases s.current <;> decide), unbe_be_byte ?_⟩
  unfold State.count capacity at *
  omega

lemma stateFields_encode (s : State) (hc : byteAt (State.encode s) 106 ≤ capacity) :
    stateFields (State.encode s) hc = s := by
  have h := state_parts s
  simp only [List.cons.injEq] at h
  obtain ⟨-, h1, h2, h3, h4, h5, h6, -⟩ := h
  obtain ⟨h7, h8⟩ := state_bytes s
  have hp : Phase.val (Phase.pos s.current) = s.current := by cases s.current <;> rfl
  have hm : (List.range (byteAt (State.encode s) 106)).map
      (fun i => receiptAt (State.encode s) (257 + i * 128)) = s.members :=
    rows_read (fun i r hr => receiptAt_row (state_rows s) hr) h8
  unfold stateFields
  simp only [u64, Nat.reduceAdd, h1, h2, h3, h4, h5, h6, h7, hp, hm, Block.ofBytes_bytes,
    counter_be]

/-- No row of a state is refused. -/
lemma not_badRow {l : List Receipt} (h : Rows l Receipt.encode 257 128 b) {i : ℕ}
    (hi : i < l.length) : ¬ BadRow b (257 + i * 128) := by
  have hr : l[i]? = some l[i] := List.getElem?_eq_getElem hi
  obtain ⟨h1, h2, h3, h4, h5⟩ := counters_row h hr
  have hp : ParticipantPhase.pos (l[i]).current ≤ 3 := by cases (l[i]).current <;> decide
  unfold BadRow
  rw [byte_row h hr, h5]
  simp only [List.any_eq_true, List.mem_range, decide_eq_true_eq, not_or, not_exists, not_and,
    Nat.not_lt]
  refine ⟨hp, fun j hj => ?_, Counter.le_last _⟩
  obtain rfl | rfl | rfl | rfl : j = 0 ∨ j = 1 ∨ j = 2 ∨ j = 3 := by omega
  · exact h1.trans_le (Counter.le_last _)
  · exact h2.trans_le (Counter.le_last _)
  · exact h3.trans_le (Counter.le_last _)
  · exact h4.trans_le (Counter.le_last _)

/-- **The frame of a state** is canonical. -/
theorem state_canonical : Canonical State.encode State.decode State.Valid := by
  refine .of_decode (fun b s h => ?_) fun s hs => ?_
  · unfold State.decode at h
    split at h
    · cases h
    split at h
    · split at h
      · cases h
      split at h
      · cases h
      split at h
      · cases h
      rename_i hv
      push Not at hv
      cases h
      exact ⟨hv.2, hv.1⟩
    · cases h
  · obtain ⟨h7, h8⟩ := state_bytes s
    have hc : byteAt (State.encode s) 106 ≤ capacity := h8.trans_le s.count_le
    have hp : Phase.pos s.current ≤ 2 := by cases s.current <;> decide
    have h := state_parts s
    simp only [List.cons.injEq] at h
    obtain ⟨h0, -, -, -, -, h5, h6, -⟩ := h
    have h9 : ¬ (Counter.last < u64 (State.encode s) 89
        ∨ Counter.last < u64 (State.encode s) 97) := by
      simp only [u64, Nat.reduceAdd, h5, h6, unbe_be_counter, not_or, Nat.not_lt]
      exact ⟨Counter.le_last _, Counter.le_last _⟩
    have h10 : ¬ ∃ i < byteAt (State.encode s) 106, BadRow (State.encode s) (257 + i * 128) := by
      rintro ⟨i, hi, hb⟩
      exact not_badRow (state_rows s) (hi.trans_eq h8) hb
    unfold State.decode
    rw [if_neg (by simp [length_state, h0, h7, hp]), dif_pos hc, if_neg h9, if_neg h10,
      stateFields_encode, if_neg (by simp [hs])]

/-! ### Evidences -/

/-- The digest at the end of a frame of an evidence. -/
def evidenceDigest (e : Evidence) : Digest :=
  Sha256.hash (pad 288 (EM ++ e.policyHash.bytes ++ e.durableReceipt.bytes ++ e.auditHead.bytes
    ++ e.nodeId.bytes ++ e.resourceId.bytes ++ e.subjectBoot.bytes ++ e.stamp.bootId.bytes
    ++ be 8 e.stamp.sequence ++ be 8 e.stamp.observedAt ++ be 8 e.stamp.expiresAt
    ++ be 8 e.epoch ++ be 8 e.appliedGuardRevision ++ be 8 e.lastDispatched
    ++ be 8 e.lastCompleted ++ be 8 e.inFlight ++ be 8 e.unknownEffects
    ++ be 4 e.isolationPaths.toNat ++ be 1 e.kind.pos ++ be 1 e.source.pos
    ++ be 1 (Bool.pos e.durableStopLatch) ++ be 1 (Bool.pos e.queueClosed)
    ++ be 1 (Bool.pos e.retirementDurable)))

lemma evidence_parts (e : Evidence) :
    [range e.encode 1 8, range e.encode 9 40, range e.encode 41 72, range e.encode 73 104,
      range e.encode 105 120, range e.encode 121 136, range e.encode 137 152,
      range e.encode 153 168, range e.encode 169 176, range e.encode 177 184,
      range e.encode 185 192, range e.encode 193 200, range e.encode 201 208,
      range e.encode 209 216, range e.encode 217 224, range e.encode 225 232,
      range e.encode 233 240, range e.encode 241 244, range e.encode 245 245,
      range e.encode 246 246, range e.encode 247 247, range e.encode 248 248,
      range e.encode 249 249, range e.encode 250 288, range e.encode 289 320]
    = [EM, e.policyHash.bytes, e.durableReceipt.bytes, e.auditHead.bytes, e.nodeId.bytes,
        e.resourceId.bytes, e.subjectBoot.bytes, e.stamp.bootId.bytes, be 8 e.stamp.sequence,
        be 8 e.stamp.observedAt, be 8 e.stamp.expiresAt, be 8 e.epoch,
        be 8 e.appliedGuardRevision, be 8 e.lastDispatched, be 8 e.lastCompleted,
        be 8 e.inFlight, be 8 e.unknownEffects, be 4 e.isolationPaths.toNat, be 1 e.kind.pos,
        be 1 e.source.pos, be 1 (Bool.pos e.durableStopLatch), be 1 (Bool.pos e.queueClosed),
        be 1 (Bool.pos e.retirementDurable), List.replicate 39 0, (evidenceDigest e).bytes] := by
  have h : e.encode = [EM, e.policyHash.bytes, e.durableReceipt.bytes, e.auditHead.bytes,
      e.nodeId.bytes, e.resourceId.bytes, e.subjectBoot.bytes, e.stamp.bootId.bytes,
      be 8 e.stamp.sequence, be 8 e.stamp.observedAt, be 8 e.stamp.expiresAt, be 8 e.epoch,
      be 8 e.appliedGuardRevision, be 8 e.lastDispatched, be 8 e.lastCompleted, be 8 e.inFlight,
      be 8 e.unknownEffects, be 4 e.isolationPaths.toNat, be 1 e.kind.pos, be 1 e.source.pos,
      be 1 (Bool.pos e.durableStopLatch), be 1 (Bool.pos e.queueClosed),
      be 1 (Bool.pos e.retirementDurable), List.replicate 39 0,
      (evidenceDigest e).bytes].flatten := by
    rw [Evidence.encode, Sha256.withDigest, ← evidenceDigest]
    simp [pad, EM]
  rw [h]
  exact cut_flatten (w := [8, 32, 32, 32, 16, 16, 16, 16, 8, 8, 8, 8, 8, 8, 8, 8, 8, 4, 1, 1, 1,
    1, 1, 39, 32]) (by simp [EM])

/-- The bytes of an evidence's frame that are no numbers of more bytes. -/
lemma evidence_bytes (e : Evidence) : byteAt e.encode 245 = e.kind.pos
    ∧ byteAt e.encode 246 = e.source.pos ∧ byteAt e.encode 247 = Bool.pos e.durableStopLatch
    ∧ byteAt e.encode 248 = Bool.pos e.queueClosed
    ∧ byteAt e.encode 249 = Bool.pos e.retirementDurable := by
  have h := evidence_parts e
  simp only [List.cons.injEq] at h
  obtain ⟨-, -, -, -, -, -, -, -, -, -, -, -, -, -, -, -, -, -, h1, h2, h3, h4, h5, -⟩ := h
  have hb : ∀ x, Bool.pos x < 256 := fun x => by cases x <;> decide
  rw [byteAt, h1, byteAt, h2, byteAt, h3, byteAt, h4, byteAt, h5]
  exact ⟨unbe_be_byte (by cases e.kind <;> decide), unbe_be_byte (by cases e.source <;> decide),
    unbe_be_byte (hb _), unbe_be_byte (hb _), unbe_be_byte (hb _)⟩

lemma evidenceFields_encode (e : Evidence) : StopBarrierAuth.fields e.encode = e := by
  have h := evidence_parts e
  simp only [List.cons.injEq] at h
  obtain ⟨-, h1, h2, h3, h4, h5, h6, h7, h8, h9, h10, h11, h12, h13, h14, h15, h16, h17, -⟩ := h
  obtain ⟨h18, h19, h20, h21, h22⟩ := evidence_bytes e
  have hk : StopBarrierAuth.AckKind.val e.kind.pos = e.kind := by cases e.kind <;> rfl
  have hs : StopBarrierAuth.Channel.val e.source.pos = e.source := by cases e.source <;> rfl
  have hb : ∀ x, decide (Bool.pos x = 1) = x := fun x => by cases x <;> rfl
  unfold StopBarrierAuth.fields
  simp only [u64, u32, Nat.reduceAdd, h1, h2, h3, h4, h5, h6, h7, h8, h9, h10, h11, h12, h13,
    h14, h15, h16, h17, h18, h19, h20, h21, h22, hk, hs, hb, Block.ofBytes_bytes, counter_be,
    word_be]

/-- **The frame of an evidence** is canonical. -/
theorem evidence_canonical :
    Canonical Evidence.encode StopBarrierAuth.decode fun _ => True := by
  refine .of_decode (fun b e h => ?_) fun e _ => ?_
  · unfold StopBarrierAuth.decode at h
    split at h
    · cases h
    split at h
    · cases h
    split at h
    · cases h
    split at h
    · cases h
    rename_i hv
    cases h
    exact ⟨not_not.mp hv, trivial⟩
  · have h := evidence_parts e
    simp only [List.cons.injEq] at h
    obtain ⟨h0, -, -, -, -, -, -, -, h8, h9, h10, h11, h12, h13, h14, h15, h16, -⟩ := h
    obtain ⟨h18, h19, h20, h21, h22⟩ := evidence_bytes e
    have hl : e.encode.length = StopBarrierAuth.frameSize :=
      Sha256.length_withDigest (by simp [EM])
    have hb (x : Bool) : Bool.pos x ≤ 1 := by cases x <;> decide
    have hk : e.kind.pos ≤ 2 := by cases e.kind <;> decide
    have hs : e.source.pos ≤ 1 := by cases e.source <;> decide
    have hn : ¬ ((List.range 9).any fun i =>
        decide (Counter.last < u64 e.encode (169 + i * 8))) = true := by
      simp only [List.any_eq_true, List.mem_range, decide_eq_true_eq, not_exists, not_and,
        Nat.not_lt]
      intro i hi
      obtain rfl | rfl | rfl | rfl | rfl | rfl | rfl | rfl | rfl : i = 0 ∨ i = 1 ∨ i = 2 ∨ i = 3
          ∨ i = 4 ∨ i = 5 ∨ i = 6 ∨ i = 7 ∨ i = 8 := by omega
      all_goals
        simp only [u64, Nat.reduceMul, Nat.reduceAdd, h8, h9, h10, h11, h12, h13, h14, h15, h16,
          unbe_be_counter]
        exact Counter.le_last _
    have hf : ¬ (range e.encode 1 8 ≠ EM ∨ 2 < byteAt e.encode 245 ∨ 1 < byteAt e.encode 246
        ∨ 1 < byteAt e.encode 247 ∨ 1 < byteAt e.encode 248 ∨ 1 < byteAt e.encode 249) := by
      rw [h0, h18, h19, h20, h21, h22]
      simp [hb, hk, hs]
    unfold StopBarrierAuth.decode
    rw [if_neg (not_not.mpr hl), if_neg hf, if_neg hn, evidenceFields_encode,
      if_neg (not_not.mpr rfl)]

/-! ### Reserved bytes -/

/-- The bytes `lo..hi` are zero. -/
def ZeroAt (b : Bytes) (lo hi : ℕ) : Prop := ∀ x ∈ range b lo hi, x = 0

lemma zeroAt_of_eq {b : Bytes} {lo hi n : ℕ} (h : range b lo hi = List.replicate n 0) :
    ZeroAt b lo hi := fun _ hx => List.eq_of_mem_replicate (h ▸ hx)

/-- Between the fields of a policy and its rows, at the end of each row, and after the rows. -/
def Policy.Reserved (p : Policy) (b : Bytes) : Prop :=
  ZeroAt b 210 256 ∧ (∀ i < p.count, ZeroAt b (257 + i * 128 + 116) (257 + i * 128 + 127))
    ∧ ZeroAt b (257 + 128 * p.count) 4576

def State.Reserved (s : State) (b : Bytes) : Prop :=
  ZeroAt b 107 256 ∧ (∀ i < s.count, ZeroAt b (257 + i * 128 + 1) (257 + i * 128 + 7)
      ∧ ZeroAt b (257 + i * 128 + 116) (257 + i * 128 + 127))
    ∧ ZeroAt b (257 + 128 * s.count) 4576

lemma policy_reserved (p : Policy) : Policy.Reserved p p.encode := by
  have hc := p.count_le
  have h := policy_parts p
  simp only [List.cons.injEq] at h
  obtain ⟨-, -, -, -, -, -, -, -, -, -, -, -, h1, -, h2, -⟩ := h
  refine ⟨zeroAt_of_eq h1, fun i hi => ?_, zeroAt_of_eq (n := 4320 - 128 * p.count) ?_⟩
  · have hm := List.getElem?_eq_getElem hi
    have h3 := participant_parts p.members[i]
    simp only [List.cons.injEq, and_true] at h3
    obtain ⟨-, -, -, -, -, -, h3⟩ := h3
    exact zeroAt_of_eq (((policy_rows p).range hm (by decide)).trans h3)
  · have he : 257 + 128 * p.count + (4320 - 128 * p.count) - 1 = 4576 := by
      unfold Policy.count capacity at *
      omega
    rwa [he] at h2

lemma state_reserved (s : State) : State.Reserved s (State.encode s) := by
  have hc := s.count_le
  have h := state_parts s
  simp only [List.cons.injEq] at h
  obtain ⟨-, -, -, -, -, -, -, -, -, h1, -, h2, -⟩ := h
  refine ⟨zeroAt_of_eq h1, fun i hi => ?_, zeroAt_of_eq (n := 4320 - 128 * s.count) ?_⟩
  · have hr := List.getElem?_eq_getElem hi
    have h3 := receipt_parts s.members[i]
    simp only [List.cons.injEq, and_true] at h3
    obtain ⟨-, h3, -, -, -, -, -, -, -, -, h4⟩ := h3
    exact ⟨zeroAt_of_eq (((state_rows s).range hr (by decide)).trans h3),
      zeroAt_of_eq (((state_rows s).range hr (by decide)).trans h4)⟩
  · have he : 257 + 128 * s.count + (4320 - 128 * s.count) - 1 = 4576 := by
      unfold State.count capacity at *
      omega
    rwa [he] at h2

lemma evidence_reserved (e : Evidence) : ZeroAt e.encode 250 288 := by
  have h := evidence_parts e
  simp only [List.cons.injEq] at h
  obtain ⟨-, -, -, -, -, -, -, -, -, -, -, -, -, -, -, -, -, -, -, -, -, -, -, h1, -⟩ := h
  exact zeroAt_of_eq h1

/-! ### The result -/

/-- **The codecs of the stop barrier are canonical bijections**: what is encoded of an admissible
value is decoded as that value, every frame that is decoded is the encoding of its value, no two
frames are decoded as one value, and the reserved bytes of what is decoded are zero. -/
theorem codecs_canonical :
    (Canonical Policy.encode Policy.decode Policy.Valid
      ∧ Canonical State.encode State.decode State.Valid
      ∧ Canonical Evidence.encode StopBarrierAuth.decode fun _ => True)
    ∧ (∀ b b' p, Policy.decode b = .ok p → Policy.decode b' = .ok p → b = b')
    ∧ (∀ b b' s, State.decode b = .ok s → State.decode b' = .ok s → b = b')
    ∧ (∀ b b' e, StopBarrierAuth.decode b = .ok e → StopBarrierAuth.decode b' = .ok e → b = b')
    ∧ (∀ b p, Policy.decode b = .ok p → Policy.Reserved p b)
    ∧ (∀ b s, State.decode b = .ok s → State.Reserved s b)
    ∧ ∀ b e, StopBarrierAuth.decode b = .ok e → ZeroAt b 250 288 := by
  refine ⟨⟨policy_canonical, state_canonical, evidence_canonical⟩,
    fun b b' p => policy_canonical.injective, fun b b' s => state_canonical.injective,
    fun b b' e => evidence_canonical.injective, fun b p h => ?_, fun b s h => ?_,
    fun b e h => ?_⟩
  · exact ((policy_canonical b p).mp h).1 ▸ policy_reserved p
  · exact ((state_canonical b s).mp h).1 ▸ state_reserved s
  · exact ((evidence_canonical b e).mp h).1 ▸ evidence_reserved e

end NiayanAssurance.StopBarrierCodec
