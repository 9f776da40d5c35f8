import NiayanAssurance.Control
import NiayanAssurance.Codec

/-!
The frames of change control: states, proposals and authorities.
-/

namespace NiayanAssurance.ControlCodec

open NiayanAssurance.Lib NiayanAssurance.Types NiayanAssurance.Codec NiayanAssurance.Control

def PM : Bytes := [77, 67, 80, 82, 79, 80, 48, 49]

/-- `Mode'Val`, for the bytes that the frame check lets through. -/
def Mode.val : ℕ → Mode
  | 0 => .running
  | 1 => .changesHeld
  | _ => .quarantined

/-- `Role'Val`, for the bytes that the frame check lets through. -/
def Role.val : ℕ → Role
  | 0 => .operations
  | _ => .security

/-- `B (1..288)` of the frame of a proposal. -/
def Proposal.body (p : Proposal) : Bytes :=
  pad 288 (pad 80 (PM ++ p.scope.bytes ++ p.contract.bytes ++ be 8 p.expectedRevision
    ++ be 8 p.newTrustEpoch ++ be 1 p.desired.pos) ++ p.bootId.bytes ++ p.requestId.bytes
    ++ p.expectedState.bytes ++ p.reason.bytes ++ p.recoveryReceipt.bytes
    ++ p.authorityDigest.bytes ++ be 8 p.notBefore ++ be 8 p.expires)

def Proposal.encode (p : Proposal) : Bytes :=
  Proposal.body p ++ (Sha256.hash (Proposal.body p)).bytes

/-! ### Decoding -/

/-- The state that a frame spells. -/
def stateFields (b : Bytes) : State where
  scope := .ofBytes 16 (range b 9 24)
  contract := .ofBytes 32 (range b 25 56)
  revision := .ofNat (u64 b 57)
  trustEpoch := .ofNat (u64 b 65)
  current := Mode.val (byteAt b 73)
  incident := .ofBytes 16 (range b 81 96)
  lastRequest := .ofBytes 16 (range b 97 112)
  previous := .ofBytes 32 (range b 113 144)
  reason := .ofBytes 32 (range b 145 176)
  authorityDigest := .ofBytes 32 (range b 177 208)

def State.decode (b : Bytes) : Except Outcome State :=
  if b.length ≠ 256 then .error .corrupt
  else if range b 1 8 ≠ SM ∨ 2 < byteAt b 73 ∨ Counter.last < u64 b 57
      ∨ Counter.last < u64 b 65 then .error .corrupt
  else if (stateFields b).encode ≠ b ∨ ¬ (stateFields b).Valid then .error .corrupt
  else .ok (stateFields b)

/-- The proposal that a frame spells. -/
def proposalFields (b : Bytes) : Proposal where
  scope := .ofBytes 16 (range b 9 24)
  contract := .ofBytes 32 (range b 25 56)
  expectedRevision := .ofNat (u64 b 57)
  newTrustEpoch := .ofNat (u64 b 65)
  desired := Mode.val (byteAt b 73)
  bootId := .ofBytes 16 (range b 81 96)
  requestId := .ofBytes 16 (range b 97 112)
  expectedState := .ofBytes 32 (range b 113 144)
  reason := .ofBytes 32 (range b 145 176)
  recoveryReceipt := .ofBytes 32 (range b 177 208)
  authorityDigest := .ofBytes 32 (range b 209 240)
  notBefore := .ofNat (u64 b 241)
  expires := .ofNat (u64 b 249)

/-- `At_Pos`. -/
def positions : List ℕ := [57, 65, 241, 249]

def Proposal.decode (b : Bytes) : Except Outcome Proposal :=
  if b.length ≠ 320 then .error .corrupt
  else if range b 1 8 ≠ PM ∨ 2 < byteAt b 73 then .error .corrupt
  else if ∃ i ∈ positions, Counter.last < u64 b i then .error .corrupt
  else if Proposal.encode (proposalFields b) ≠ b then .error .corrupt
  else .ok (proposalFields b)

/-- The signer whose row begins at byte `o`. -/
def signerAt (b : Bytes) (o : ℕ) : Signer where
  publicKey := .ofBytes 32 (range b o (o + 31))
  principal := .ofBytes 16 (range b (o + 32) (o + 47))
  domain := Fin.ofNat 65536 (u16 b (o + 48))
  duty := Role.val (byteAt b (o + 50))

/-- The ranges of the three numbers of an authority. -/
def Numbers (b : Bytes) : Prop :=
  byteAt b 65 ≤ maxSigners ∧ (1 ≤ byteAt b 66 ∧ byteAt b 66 ≤ maxSigners)
    ∧ 2 ≤ byteAt b 67 ∧ byteAt b 67 ≤ maxSigners

instance (b : Bytes) : Decidable (Numbers b) := by unfold Numbers; infer_instance

/-- The authority that a frame spells. -/
def authorityFields (b : Bytes) (h : Numbers b) : Authority where
  scope := .ofBytes 16 (range b 9 24)
  contract := .ofBytes 32 (range b 25 56)
  serial := .ofNat (u64 b 57)
  tightenThreshold := byteAt b 66
  resumeThreshold := byteAt b 67
  keys := (List.range (byteAt b 65)).map fun i => signerAt b (97 + i * 96)
  count_le := by simpa using h.1
  tighten_range := h.2.1
  resume_range := h.2.2

def Authority.decode (b : Bytes) : Except Outcome Authority :=
  if b.length ≠ 1024 ∨ range b 1 8 ≠ AM then .error .corrupt
  else if h : Numbers b then
    if Counter.last < u64 b 57 then .error .corrupt
    else if ∃ i < byteAt b 65, 1 < byteAt b (97 + i * 96 + 50) then .error .corrupt
    else if (authorityFields b h).encode ≠ b ∨ ¬ (authorityFields b h).Valid then .error .corrupt
    else .ok (authorityFields b h)
  else .error .corrupt

/-! ### Parts -/

/-- The digest at the end of a frame of a state. -/
def stateDigest (s : State) : Digest :=
  Sha256.hash (pad 224 (pad 80 (SM ++ s.scope.bytes ++ s.contract.bytes ++ be 8 s.revision
    ++ be 8 s.trustEpoch ++ be 1 s.current.pos)
    ++ s.incident.bytes ++ s.lastRequest.bytes ++ s.previous.bytes ++ s.reason.bytes
    ++ s.authorityDigest.bytes))

lemma state_parts (s : State) :
    [range s.encode 1 8, range s.encode 9 24, range s.encode 25 56, range s.encode 57 64,
      range s.encode 65 72, range s.encode 73 73, range s.encode 74 80, range s.encode 81 96,
      range s.encode 97 112, range s.encode 113 144, range s.encode 145 176,
      range s.encode 177 208, range s.encode 209 224, range s.encode 225 256]
    = [SM, s.scope.bytes, s.contract.bytes, be 8 s.revision, be 8 s.trustEpoch,
        be 1 s.current.pos, List.replicate 7 0, s.incident.bytes, s.lastRequest.bytes,
        s.previous.bytes, s.reason.bytes, s.authorityDigest.bytes, List.replicate 16 0,
        (stateDigest s).bytes] := by
  have h : s.encode = [SM, s.scope.bytes, s.contract.bytes, be 8 s.revision, be 8 s.trustEpoch,
      be 1 s.current.pos, List.replicate 7 0, s.incident.bytes, s.lastRequest.bytes,
      s.previous.bytes, s.reason.bytes, s.authorityDigest.bytes, List.replicate 16 0,
      (stateDigest s).bytes].flatten := by
    rw [State.encode, Sha256.withDigest, ← stateDigest]
    simp [pad, SM]
  rw [h]
  exact cut_flatten (w := [8, 16, 32, 8, 8, 1, 7, 16, 16, 32, 32, 32, 16, 32]) (by simp [SM])

lemma proposal_parts (p : Proposal) :
    [range (Proposal.encode p) 1 8, range (Proposal.encode p) 9 24,
      range (Proposal.encode p) 25 56, range (Proposal.encode p) 57 64,
      range (Proposal.encode p) 65 72, range (Proposal.encode p) 73 73,
      range (Proposal.encode p) 74 80, range (Proposal.encode p) 81 96,
      range (Proposal.encode p) 97 112, range (Proposal.encode p) 113 144,
      range (Proposal.encode p) 145 176, range (Proposal.encode p) 177 208,
      range (Proposal.encode p) 209 240, range (Proposal.encode p) 241 248,
      range (Proposal.encode p) 249 256, range (Proposal.encode p) 257 288,
      range (Proposal.encode p) 289 320]
    = [PM, p.scope.bytes, p.contract.bytes, be 8 p.expectedRevision, be 8 p.newTrustEpoch,
        be 1 p.desired.pos, List.replicate 7 0, p.bootId.bytes, p.requestId.bytes,
        p.expectedState.bytes, p.reason.bytes, p.recoveryReceipt.bytes, p.authorityDigest.bytes,
        be 8 p.notBefore, be 8 p.expires, List.replicate 32 0,
        (Sha256.hash (Proposal.body p)).bytes] := by
  have h : Proposal.encode p = [PM, p.scope.bytes, p.contract.bytes, be 8 p.expectedRevision,
      be 8 p.newTrustEpoch, be 1 p.desired.pos, List.replicate 7 0, p.bootId.bytes,
      p.requestId.bytes, p.expectedState.bytes, p.reason.bytes, p.recoveryReceipt.bytes,
      p.authorityDigest.bytes, be 8 p.notBefore, be 8 p.expires, List.replicate 32 0,
      (Sha256.hash (Proposal.body p)).bytes].flatten := by
    generalize hd : (Sha256.hash (Proposal.body p)).bytes = d
    rw [Proposal.encode, hd]
    simp [Proposal.body, pad, PM]
  rw [h]
  exact cut_flatten (w := [8, 16, 32, 8, 8, 1, 7, 16, 16, 32, 32, 32, 32, 8, 8, 32, 32])
    (by simp [PM])

lemma length_signer (k : Signer) : k.encode.length = 96 := length_pad (by simp)

lemma signer_parts (k : Signer) :
    [range k.encode 1 32, range k.encode 33 48, range k.encode 49 50, range k.encode 51 51,
      range k.encode 52 96]
    = [k.publicKey.bytes, k.principal.bytes, be 2 k.domain, be 1 k.duty.pos,
        List.replicate 45 0] := by
  have h : k.encode = [k.publicKey.bytes, k.principal.bytes, be 2 k.domain, be 1 k.duty.pos,
      List.replicate 45 0].flatten := by
    simp [Signer.encode, pad]
  rw [h]
  exact cut_flatten (w := [32, 16, 2, 1, 45]) (by simp)

/-- The digest at the end of a frame of an authority. -/
def authorityDigest (a : Authority) : Digest :=
  Sha256.hash (pad 992 (pad 96 (AM ++ a.scope.bytes ++ a.contract.bytes ++ be 8 a.serial
    ++ be 1 a.count ++ be 1 a.tightenThreshold ++ be 1 a.resumeThreshold)
    ++ a.keys.flatMap Signer.encode))

lemma authority_parts (a : Authority) :
    [range a.encode 1 8, range a.encode 9 24, range a.encode 25 56, range a.encode 57 64,
      range a.encode 65 65, range a.encode 66 66, range a.encode 67 67, range a.encode 68 96,
      range a.encode 97 (97 + 96 * a.count - 1),
      range a.encode (97 + 96 * a.count) (97 + 96 * a.count + (896 - 96 * a.count) - 1),
      range a.encode (97 + 96 * a.count + (896 - 96 * a.count))
        (97 + 96 * a.count + (896 - 96 * a.count) + 32 - 1)]
    = [AM, a.scope.bytes, a.contract.bytes, be 8 a.serial, be 1 a.count,
        be 1 a.tightenThreshold, be 1 a.resumeThreshold, List.replicate 29 0,
        a.keys.flatMap Signer.encode, List.replicate (896 - 96 * a.count) 0,
        (authorityDigest a).bytes] := by
  have hm : (a.keys.flatMap Signer.encode).length = 96 * a.count :=
    length_flatMap fun k _ => length_signer k
  have h : a.encode = [AM, a.scope.bytes, a.contract.bytes, be 8 a.serial, be 1 a.count,
      be 1 a.tightenThreshold, be 1 a.resumeThreshold, List.replicate 29 0,
      a.keys.flatMap Signer.encode, List.replicate (896 - 96 * a.count) 0,
      (authorityDigest a).bytes].flatten := by
    have h1 : 992 - (96 + 96 * a.count) = 896 - 96 * a.count := by omega
    have hh : (pad 96 (AM ++ a.scope.bytes ++ a.contract.bytes ++ be 8 a.serial ++ be 1 a.count
        ++ be 1 a.tightenThreshold ++ be 1 a.resumeThreshold)).length = 96 :=
      length_pad (by simp [AM])
    rw [Authority.encode, Sha256.withDigest, ← authorityDigest, pad, List.length_append, hh, hm,
      h1]
    simp [pad, AM]
  rw [h]
  exact cut_flatten (w := [8, 16, 32, 8, 1, 1, 1, 29, 96 * a.count, 896 - 96 * a.count, 32])
    (by simp [hm, AM])

/-- `B (1..96)` of the frame of an authority. -/
def authorityHeader (a : Authority) : Bytes :=
  pad 96 (AM ++ a.scope.bytes ++ a.contract.bytes ++ be 8 a.serial ++ be 1 a.count
    ++ be 1 a.tightenThreshold ++ be 1 a.resumeThreshold)

lemma authority_rows (a : Authority) : Rows a.keys Signer.encode 97 96 a.encode := by
  refine ⟨fun k _ => length_signer k, authorityHeader a, List.replicate (992
    - (authorityHeader a ++ a.keys.flatMap Signer.encode).length) 0 ++ (authorityDigest a).bytes,
    congrArg (· + 1) (length_pad (by simp [AM])), ?_⟩
  rw [Authority.encode, Sha256.withDigest, ← authorityDigest, ← authorityHeader, pad]
  simp only [List.append_assoc]

lemma length_authority (a : Authority) : a.encode.length = 1024 := by
  have hc : a.keys.length ≤ 8 := a.count_le
  refine Sha256.length_withDigest ?_
  rw [List.length_append, length_flatMap fun k _ => length_signer k, length_pad (by simp [AM])]
  omega

/-! ### States and proposals -/

lemma mode_val (m : Mode) : Mode.val m.pos = m := by cases m <;> rfl

lemma mode_le (m : Mode) : m.pos ≤ 2 := by cases m <;> decide

lemma stateFields_encode (s : State) : byteAt s.encode 73 = s.current.pos
    ∧ stateFields s.encode = s := by
  have h := state_parts s
  simp only [List.cons.injEq] at h
  obtain ⟨-, h1, h2, h3, h4, h5, -, h6, h7, h8, h9, h10, -⟩ := h
  have hb : byteAt s.encode 73 = s.current.pos := by
    rw [byteAt, h5]
    exact unbe_be_byte ((mode_le _).trans_lt (by decide))
  refine ⟨hb, ?_⟩
  unfold stateFields
  simp only [u64, Nat.reduceAdd, h1, h2, h3, h4, hb, h6, h7, h8, h9, h10, mode_val,
    Block.ofBytes_bytes, counter_be]

/-- **The frame of a state** is canonical. -/
theorem state_canonical : Canonical State.encode State.decode State.Valid := by
  refine .of_decode (fun b s h => ?_) fun s hs => ?_
  · unfold State.decode at h
    split at h
    · cases h
    split at h
    · cases h
    split at h
    · cases h
    rename_i hv
    push Not at hv
    cases h
    exact hv
  · obtain ⟨hb, hf⟩ := stateFields_encode s
    have h := state_parts s
    simp only [List.cons.injEq] at h
    obtain ⟨h0, -, -, h3, h4, -⟩ := h
    have hl : s.encode.length = 256 := Sha256.length_withDigest (by simp [pad, SM])
    have hn : ¬ (range s.encode 1 8 ≠ SM ∨ 2 < byteAt s.encode 73
        ∨ Counter.last < u64 s.encode 57 ∨ Counter.last < u64 s.encode 65) := by
      simp only [u64, Nat.reduceAdd, h0, h3, h4, hb, unbe_be_counter, ne_eq, not_true_eq_false,
        false_or, not_or, Nat.not_lt]
      exact ⟨mode_le _, Counter.le_last _, Counter.le_last _⟩
    unfold State.decode
    rw [if_neg (not_not.mpr hl), if_neg hn, hf, if_neg (by simp [hs])]

lemma proposalFields_encode (p : Proposal) : byteAt (Proposal.encode p) 73 = p.desired.pos
    ∧ proposalFields (Proposal.encode p) = p := by
  have h := proposal_parts p
  simp only [List.cons.injEq] at h
  obtain ⟨-, h1, h2, h3, h4, h5, -, h6, h7, h8, h9, h10, h11, h12, h13, -⟩ := h
  have hb : byteAt (Proposal.encode p) 73 = p.desired.pos := by
    rw [byteAt, h5]
    exact unbe_be_byte ((mode_le _).trans_lt (by decide))
  refine ⟨hb, ?_⟩
  unfold proposalFields
  simp only [u64, Nat.reduceAdd, h1, h2, h3, h4, hb, h6, h7, h8, h9, h10, h11, h12, h13,
    mode_val, Block.ofBytes_bytes, counter_be]

/-- **The frame of a proposal** is canonical. -/
theorem proposal_canonical : Canonical Proposal.encode Proposal.decode fun _ => True := by
  refine .of_decode (fun b p h => ?_) fun p _ => ?_
  · unfold Proposal.decode at h
    split at h
    · cases h
    split at h
    · cases h
    split at h
    · cases h
    split at h
    · cases h
    rename_i hv
    cases h
    exact ⟨not_not.mp hv, trivial⟩
  · obtain ⟨hb, hf⟩ := proposalFields_encode p
    have h := proposal_parts p
    simp only [List.cons.injEq] at h
    obtain ⟨h0, -, -, h3, h4, -, -, -, -, -, -, -, -, h12, h13, -⟩ := h
    have hl : (Proposal.encode p).length = 320 := Sha256.length_withDigest (by simp [pad, PM])
    have hn : ¬ ∃ i ∈ positions, Counter.last < u64 (Proposal.encode p) i := by
      simp only [positions, List.mem_cons, List.not_mem_nil, or_false, exists_eq_or_imp,
        exists_eq_left, u64, Nat.reduceAdd, h3, h4, h12, h13, unbe_be_counter, not_or, Nat.not_lt]
      exact ⟨Counter.le_last _, Counter.le_last _, Counter.le_last _, Counter.le_last _⟩
    unfold Proposal.decode
    rw [if_neg (not_not.mpr hl), if_neg (by simp [h0, hb, mode_le]), if_neg hn, hf,
      if_neg (not_not.mpr rfl)]

/-! ### Authorities -/

lemma role_val (r : Role) : Role.val r.pos = r := by cases r <;> rfl

lemma duty_row {a : Authority} {i : ℕ} {k : Signer} (hk : a.keys[i]? = some k) :
    byteAt a.encode (97 + i * 96 + 50) = k.duty.pos := by
  have h := signer_parts k
  simp only [List.cons.injEq, and_true] at h
  rw [byteAt, (authority_rows a).range hk (by decide), h.2.2.2.1]
  exact unbe_be_byte (by cases k.duty <;> decide)

lemma signerAt_row {a : Authority} {i : ℕ} {k : Signer} (hk : a.keys[i]? = some k) :
    signerAt a.encode (97 + i * 96) = k := by
  have h := signer_parts k
  simp only [List.cons.injEq, and_true] at h
  obtain ⟨h1, h2, h3, -, -⟩ := h
  have hr := authority_rows a
  have h0 := hr.range_from hk 31 (by decide)
  have hd : Fin.ofNat 65536 (unbe (be 2 k.domain)) = k.domain := by
    rw [unbe_be_fin]
    exact Fin.ext (by simp [Fin.ofNat])
  rw [signerAt, duty_row hk, role_val]
  simp only [u16, Nat.add_assoc, Nat.reduceAdd] at h0 ⊢
  simp only [← Nat.add_assoc] at h0 ⊢
  rw [h0, hr.range hk (by decide), hr.range hk (by decide), h1, h2, h3, hd]
  simp only [Block.ofBytes_bytes]

/-- The three numbers of an authority. -/
lemma authority_numbers (a : Authority) : byteAt a.encode 65 = a.count
    ∧ byteAt a.encode 66 = a.tightenThreshold ∧ byteAt a.encode 67 = a.resumeThreshold := by
  have h1 : a.keys.length ≤ 8 := a.count_le
  have h2 : a.tightenThreshold ≤ 8 := a.tighten_range.2
  have h3 : a.resumeThreshold ≤ 8 := a.resume_range.2
  have h := authority_parts a
  simp only [List.cons.injEq] at h
  obtain ⟨-, -, -, -, h4, h5, h6, -⟩ := h
  rw [byteAt, h4, byteAt, h5, byteAt, h6]
  unfold Authority.count
  exact ⟨unbe_be_byte (by omega), unbe_be_byte (by omega), unbe_be_byte (by omega)⟩

lemma authorityFields_encode (a : Authority) (hn : Numbers a.encode) :
    authorityFields a.encode hn = a := by
  have h := authority_parts a
  simp only [List.cons.injEq] at h
  obtain ⟨-, h1, h2, h3, -⟩ := h
  obtain ⟨h4, h5, h6⟩ := authority_numbers a
  have hk : (List.range (byteAt a.encode 65)).map (fun i => signerAt a.encode (97 + i * 96))
      = a.keys := rows_read (fun i k hk => signerAt_row hk) h4
  unfold authorityFields
  simp only [u64, Nat.reduceAdd, h1, h2, h3, h5, h6, hk, Block.ofBytes_bytes, counter_be]

/-- **The frame of an authority** is canonical. -/
theorem authority_canonical : Canonical Authority.encode Authority.decode Authority.Valid := by
  refine .of_decode (fun b a h => ?_) fun a ha => ?_
  · unfold Authority.decode at h
    split at h
    · cases h
    split at h
    · split at h
      · cases h
      split at h
      · cases h
      split at h
      · cases h
      rename_i hv
      push Not at hv
      cases h
      exact hv
    · cases h
  · have h := authority_parts a
    simp only [List.cons.injEq] at h
    obtain ⟨h0, -, -, h3, -⟩ := h
    obtain ⟨h4, h5, h6⟩ := authority_numbers a
    have hn : Numbers a.encode := by
      rw [Numbers, h4, h5, h6]
      exact ⟨a.count_le, a.tighten_range, a.resume_range⟩
    have hs : ¬ Counter.last < u64 a.encode 57 := by
      simp only [u64, Nat.reduceAdd, h3, unbe_be_counter, Nat.not_lt]
      exact Counter.le_last _
    have hd : ¬ ∃ i < byteAt a.encode 65, 1 < byteAt a.encode (97 + i * 96 + 50) := by
      rintro ⟨i, hi, hlt⟩
      rw [h4] at hi
      rw [duty_row (List.getElem?_eq_getElem hi)] at hlt
      cases hr : (a.keys[i]).duty <;> simp [hr, Role.pos] at hlt
    unfold Authority.decode
    rw [if_neg (by simp [length_authority, h0]), dif_pos hn, if_neg hs, if_neg hd,
      authorityFields_encode, if_neg (by simp [ha])]

end NiayanAssurance.ControlCodec
