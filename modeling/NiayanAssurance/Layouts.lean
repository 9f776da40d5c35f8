import NiayanAssurance.LogFormat
import NiayanAssurance.Requests
import NiayanAssurance.SitePolicy
import NiayanAssurance.Codec

/-!
The frames whose decoders do not encode again what they have read. That no two of them are
decoded as one value rests on the bytes that each decoder reads, or wants to be zero.
-/

namespace NiayanAssurance.Layouts

open NiayanAssurance.Lib NiayanAssurance.Types NiayanAssurance.Codec
open NiayanAssurance.Protocol (MessageKind Header)
open NiayanAssurance.Requests (Request RequestedAction)
open NiayanAssurance.SitePolicy (Statement Policy Fact)

/-- Reserved bytes that are read as zero are written as zero. -/
lemma zeros {b : Bytes} {lo hi n : ℕ} (h : hi ≤ b.length) (hn : hi - (lo - 1) = n)
    (hz : ¬ (range b lo hi).any (· ≠ 0) = true) : List.replicate n 0 = range b lo hi := by
  refine (List.eq_replicate_iff.mpr ⟨by rw [length_range h, hn], fun x hx => ?_⟩).symm
  by_contra hne
  exact hz (List.any_eq_true.mpr ⟨x, hx, decide_eq_true hne⟩)

/-- Reserved bytes that are written as zero are read as zero. -/
lemma any_zeros {b : Bytes} {lo hi n : ℕ} (h : range b lo hi = List.replicate n 0) :
    (range b lo hi).any (· ≠ 0) = false := by
  rw [h, List.any_eq_false]
  intro x hx
  simpa using List.eq_of_mem_replicate hx

/-! ### Requests -/

/-- What `Decode` asks of the fields of a request. -/
def Request.Admissible (r : Request) : Prop :=
  r.transactionId ≠ zeroIdentity ∧ r.planDigest ≠ zeroDigest ∧ r.contractDigest ≠ zeroDigest
    ∧ (r.action = .prepare ∨ r.action = .apply → r.stageSetDigest ≠ zeroDigest)
    ∧ (r.action = .commit ∨ r.action = .restore → r.evidenceDigest ≠ zeroDigest)

lemma request_flatten (r : Request) : Requests.encode r
    = [Requests.magic, be 2 2, be 1 (r.action.pos + 1), [0], r.transactionId.bytes,
        r.planDigest.bytes, r.contractDigest.bytes, be 8 r.expectedRevision,
        be 8 r.baseGeneration, r.stageSetDigest.bytes, r.evidenceDigest.bytes,
        List.replicate 24 0].flatten := by
  simp [Requests.encode, Requests.bodySize, pad, Requests.magic]

lemma request_parts (r : Request) :
    [range (Requests.encode r) 1 4, range (Requests.encode r) 5 6,
      range (Requests.encode r) 7 7, range (Requests.encode r) 8 8,
      range (Requests.encode r) 9 24, range (Requests.encode r) 25 56,
      range (Requests.encode r) 57 88, range (Requests.encode r) 89 96,
      range (Requests.encode r) 97 104, range (Requests.encode r) 105 136,
      range (Requests.encode r) 137 168, range (Requests.encode r) 169 192]
    = [Requests.magic, be 2 2, be 1 (r.action.pos + 1), [0], r.transactionId.bytes,
        r.planDigest.bytes, r.contractDigest.bytes, be 8 r.expectedRevision,
        be 8 r.baseGeneration, r.stageSetDigest.bytes, r.evidenceDigest.bytes,
        List.replicate 24 0] := by
  rw [request_flatten]
  exact cut_flatten (w := [4, 2, 1, 1, 16, 32, 32, 8, 8, 32, 32, 24]) (by simp [Requests.magic])

lemma action_ofByte {n : ℕ} {a : RequestedAction} (h : RequestedAction.ofByte n = some a) :
    a.pos + 1 = n := by
  unfold RequestedAction.ofByte at h
  split at h <;> cases h <;> rfl

lemma ofByte_action (a : RequestedAction) : RequestedAction.ofByte (a.pos + 1) = some a := by
  cases a <;> rfl

/-- What the first checks of `Decode` ask of a body. -/
structure RequestFrame (b : Bytes) (a : RequestedAction) : Prop where
  length : b.length = 192
  action : RequestedAction.ofByte (unbe (range b 7 7)) = some a
  magic : range b 1 4 = Requests.magic
  version : u16 b 5 = 2
  gap : range b 8 8 = [0]
  gap' : isZero (range b 169 192) = true
  revision : u64 b 89 ≤ Counter.last
  generation : u64 b 97 ≤ Counter.last

lemma isZero_false_iff {n : ℕ} {b : Block n} : isZero b.bytes = false ↔ b ≠ Block.zero n := by
  rw [← Bool.not_eq_true, isZero_block]

/-- **What the decoder of requests takes.** -/
lemma request_decode_iff {b : Bytes} {r : Request} : Requests.decode b = .ok r
    ↔ ∃ a, RequestFrame b a ∧ r = Requests.fields b a ∧ Request.Admissible r := by
  rw [Requests.decode, returned_ok]
  unfold Requests.decodeOut
  constructor
  · intro h
    split at h
    · cases h
    rename_i h1
    split at h
    · cases h
    rename_i a ha
    split at h
    · cases h
    rename_i h2
    dsimp only at h
    split at h
    · cases h
    rename_i h3
    split at h
    · cases h
    rename_i h4
    split at h
    · cases h
    rename_i h5
    cases h
    push Not at h1 h2
    obtain ⟨g1, g2, g3, g4, g5, g6⟩ := h2
    simp only [not_or, not_and, Bool.not_eq_true, isZero_false_iff] at h3 h4 h5
    exact ⟨a, ⟨h1, ha, g1, g2, g3, by simpa using g4, g5, g6⟩, rfl, h3.1, h3.2.1, h3.2.2, h4, h5⟩
  · rintro ⟨a, ⟨g0, ha, g1, g2, g3, g4, g5, g6⟩, rfl, h1, h2, h3, h4, h5⟩
    rw [if_neg (by simp [g0, Requests.bodySize]), ha]
    dsimp only
    rw [if_neg (by simp [g1, g2, g3, g4, g5, g6]), if_neg, if_neg, if_neg]
    · simp only [not_and, Bool.not_eq_true, isZero_false_iff]
      exact h5
    · simp only [not_and, Bool.not_eq_true, isZero_false_iff]
      exact h4
    · simp only [not_or, Bool.not_eq_true, isZero_false_iff]
      exact ⟨h1, h2, h3⟩

/-- A body is the encoding of the request that it spells. -/
lemma request_encode_fields {b : Bytes} {a : RequestedAction} (h : RequestFrame b a) :
    Requests.encode (Requests.fields b a) = b := by
  have hl := h.length
  have hz : List.replicate 24 0 = range b 169 192 :=
    ((isZero_iff_replicate (length_range (by omega))).mp h.gap').symm
  have hv : be 2 2 = range b 5 6 := by
    nth_rewrite 2 [← h.version]
    rw [u16, be_range 2 5 6 (by omega) rfl]
  have ha : be 1 (a.pos + 1) = range b 7 7 := by
    rw [action_ofByte h.action, be_range 1 7 7 (by omega) rfl]
  refine Eq.trans ?_ (flatten_cut (w := [4, 2, 1, 1, 16, 32, 32, 8, 8, 32, 32, 24]) (by simp [hl]))
  rw [request_flatten]
  simp only [Requests.fields]
  rw [← h.magic, hv, ha, ← h.gap, be_u64 89 (by omega) (by omega) h.revision,
    be_u64 97 (by omega) (by omega) h.generation, hz, block_range 16 9 24 (by omega) rfl,
    block_range 32 25 56 (by omega) rfl, block_range 32 57 88 (by omega) rfl,
    block_range 32 105 136 (by omega) rfl, block_range 32 137 168 (by omega) rfl]
  rfl

lemma request_frame (r : Request) : RequestFrame (Requests.encode r) r.action
    ∧ Requests.fields (Requests.encode r) r.action = r := by
  have h := request_parts r
  simp only [List.cons.injEq, and_true] at h
  obtain ⟨h1, h2, h3, h4, h5, h6, h7, h8, h9, h10, h11, h12⟩ := h
  refine ⟨⟨length_pad (by simp [Requests.magic, Requests.bodySize]), ?_, h1, ?_, h4, ?_, ?_, ?_⟩,
    ?_⟩
  · rw [h3, unbe_be_byte (by cases r.action <;> decide), ofByte_action]
  · rw [u16, h2]
    rfl
  · rw [h12, isZero_iff_replicate List.length_replicate]
  · rw [u64, h8, unbe_be_counter]
    exact Counter.le_last _
  · rw [u64, h9, unbe_be_counter]
    exact Counter.le_last _
  · unfold Requests.fields
    simp only [u64, Nat.reduceAdd, h5, h6, h7, h8, h9, h10, h11, Block.ofBytes_bytes, counter_be]

/-- **The body of a request** is canonical. -/
theorem request_canonical :
    Canonical Requests.encode Requests.decode Request.Admissible := by
  refine .of_decode (fun b r h => ?_) fun r hr => ?_
  · obtain ⟨a, ha, rfl, hr⟩ := request_decode_iff.mp h
    exact ⟨request_encode_fields ha, hr⟩
  · obtain ⟨ha, he⟩ := request_frame r
    exact request_decode_iff.mpr ⟨r.action, ha, he.symm, hr⟩

/-! ### Headers -/

/-- The version that `Decode` takes. -/
def Header.Current (h : Header) : Prop :=
  h.versionMajor = Protocol.major ∧ h.versionMinor = Protocol.minor

lemma header_parts (h : Header) :
    [range (Protocol.encode h) 1 4, range (Protocol.encode h) 5 6,
      range (Protocol.encode h) 7 8, range (Protocol.encode h) 9 9,
      range (Protocol.encode h) 10 10, range (Protocol.encode h) 11 12,
      range (Protocol.encode h) 13 16, range (Protocol.encode h) 17 32,
      range (Protocol.encode h) 33 48, range (Protocol.encode h) 49 64,
      range (Protocol.encode h) 65 80, range (Protocol.encode h) 81 88,
      range (Protocol.encode h) 89 96, range (Protocol.encode h) 97 104,
      range (Protocol.encode h) 105 112, range (Protocol.encode h) 113 128,
      range (Protocol.encode h) 129 160]
    = [Protocol.magic, be 2 h.versionMajor, be 2 h.versionMinor, be 1 (h.kind.pos + 1), [0],
        be 2 Protocol.headerSize, be 4 h.bodyLength, h.requestId.bytes, h.clusterId.bytes,
        h.nodeId.bytes, h.resourceId.bytes, be 8 h.membershipEpoch, be 8 h.fenceToken,
        be 8 h.sequenceNumber, be 8 h.deadline, h.bootId.bytes, h.bodyDigest.bytes] := by
  have he : Protocol.encode h = [Protocol.magic, be 2 h.versionMajor, be 2 h.versionMinor,
      be 1 (h.kind.pos + 1), [0], be 2 Protocol.headerSize, be 4 h.bodyLength,
      h.requestId.bytes, h.clusterId.bytes, h.nodeId.bytes, h.resourceId.bytes,
      be 8 h.membershipEpoch, be 8 h.fenceToken, be 8 h.sequenceNumber, be 8 h.deadline,
      h.bootId.bytes, h.bodyDigest.bytes].flatten := by
    simp [Protocol.encode]
  rw [he]
  exact cut_flatten (w := [4, 2, 2, 1, 1, 2, 4, 16, 16, 16, 16, 8, 8, 8, 8, 16, 32])
    (by simp [Protocol.magic])

/-- What is encoded of a header of the version in force is decoded as it was. -/
lemma header_decode_encode {h : Header} (hv : Header.Current h) :
    Protocol.decode (Protocol.encode h) = .ok h := by
  have hp := header_parts h
  simp only [List.cons.injEq, and_true] at hp
  obtain ⟨h1, h2, h3, h4, h5, h6, h7, h8, h9, h10, h11, h12, h13, h14, h15, h16, h17⟩ := hp
  obtain ⟨hmaj, hmin⟩ := hv
  have hl : (Protocol.encode h).length = Protocol.headerSize := by
    simp [Protocol.encode, Protocol.magic, Protocol.headerSize]
  have hb : unbe (be 4 h.bodyLength) = h.bodyLength := by
    have hlt := h.bodyLength.isLt
    exact unbe_be_of_lt (hlt.trans_le (by decide))
  have hk : MessageKind.ofByte (unbe (be 1 (h.kind.pos + 1))) = some h.kind := by
    rw [unbe_be_byte (by cases h.kind <;> decide)]
    cases h.kind <;> rfl
  have hc : ¬ (maxMessage < u32 (Protocol.encode h) 13
      ∨ ∃ offset ∈ Protocol.checks, Counter.last < u64 (Protocol.encode h) offset) := by
    simp only [Protocol.checks, List.mem_cons, List.not_mem_nil, or_false, exists_eq_or_imp,
      exists_eq_left, u32, u64, Nat.reduceAdd, h7, h12, h13, h14, h15, hb, unbe_be_counter,
      not_or, Nat.not_lt]
    exact ⟨Nat.le_of_lt_succ h.bodyLength.isLt, Counter.le_last _, Counter.le_last _,
      Counter.le_last _, Counter.le_last _⟩
  have hf : Protocol.fields (Protocol.encode h) h.kind = h := by
    have hb' : Fin.ofNat (maxMessage + 1) (h.bodyLength : ℕ) = h.bodyLength :=
      Fin.ext (Nat.mod_eq_of_lt h.bodyLength.isLt)
    unfold Protocol.fields
    simp only [u32, u64, Nat.reduceAdd, h7, h8, h9, h10, h11, h12, h13, h14, h15, h16, h17, hb,
      hb', Block.ofBytes_bytes, counter_be, ← hmaj, ← hmin]
  unfold Protocol.decode
  rw [if_neg (not_not.mpr hl), if_neg, if_neg, h4, hk]
  · dsimp only
    rw [if_neg hc, hf]
  · rw [u16, h2, u16, h3, hmaj, hmin, unbe_be_fin, unbe_be_fin]
    simp
  · rw [u16, h1, h5, h6, unbe_be_of_lt (by decide)]
    simp

/-- **The header of a message** is canonical. -/
theorem header_canonical :
    Canonical Protocol.encode Protocol.decode Header.Current := by
  refine .of_decode (fun b h hd => ⟨Protocol.encode_decode hd, ?_⟩) fun h => header_decode_encode
  unfold Protocol.decode at hd
  split at hd
  · cases hd
  split at hd
  · cases hd
  split at hd
  · cases hd
  split at hd
  · cases hd
  split at hd
  · cases hd
  cases hd
  exact ⟨rfl, rfl⟩

/-! ### Statements -/

lemma statement_flatten (s : Statement) : SitePolicy.Witness.encode s
    = [SitePolicy.Witness.magic, be 1 s.kind.pos, List.replicate 7 0, s.clusterId.bytes,
        s.nodeId.bytes, s.rootId.bytes, s.transactionId.bytes, s.bootId.bytes, s.plan.bytes,
        s.contract.bytes, be 8 s.epoch, be 8 s.token, be 8 s.issued, be 8 s.expires,
        List.replicate 32 0].flatten := by
  simp [SitePolicy.Witness.encode, pad, SitePolicy.Witness.magic]

lemma statement_parts {s : Statement} {b : Bytes} (hb : SitePolicy.Witness.encode s = b) :
    [range b 1 8, range b 9 9, range b 10 16, range b 17 32, range b 33 48, range b 49 64,
      range b 65 80, range b 81 96, range b 97 128, range b 129 160, range b 161 168,
      range b 169 176, range b 177 184, range b 185 192, range b 193 224]
    = [SitePolicy.Witness.magic, be 1 s.kind.pos, List.replicate 7 0, s.clusterId.bytes,
        s.nodeId.bytes, s.rootId.bytes, s.transactionId.bytes, s.bootId.bytes, s.plan.bytes,
        s.contract.bytes, be 8 s.epoch, be 8 s.token, be 8 s.issued, be 8 s.expires,
        List.replicate 32 0] := by
  rw [← hb, statement_flatten]
  exact cut_flatten (w := [8, 1, 7, 16, 16, 16, 16, 16, 32, 32, 8, 8, 8, 8, 32])
    (by simp [SitePolicy.Witness.magic])

lemma fact_val {n : ℕ} {k : Fact} (h : Fact.val n = some k) : k.pos = n := by
  unfold Fact.val at h
  split at h <;> cases h <;> rfl

/-- The offsets of the counters of a statement. -/
abbrev offsets : List ℕ := [161, 169, 177, 185]

lemma any_past {b : Bytes} {l : List ℕ} :
    (l.any fun offset => Counter.last < u64 b offset) = false
      ↔ ∀ offset ∈ l, u64 b offset ≤ Counter.last := by
  simp only [List.any_eq_false, decide_eq_true_eq, Nat.not_lt]

/-- A frame is the encoding of the statement that it spells. -/
lemma statement_encode_decode {b : Bytes} {s : Statement}
    (h : SitePolicy.Witness.decode b = .ok s) : SitePolicy.Witness.encode s = b := by
  unfold SitePolicy.Witness.decode at h
  split at h
  · cases h
  rename_i h1
  split at h
  · cases h
  rename_i k hk
  split at h
  · cases h
  rename_i h2
  cases h
  simp only [not_or, not_not] at h1
  simp only [not_or, Bool.not_eq_true, any_past] at h2
  obtain ⟨hl, hm⟩ := h1
  obtain ⟨h3, h4, h5⟩ := h2
  have hz : List.replicate 7 0 = range b 10 16 := zeros (by omega) rfl (by rw [h3]; simp)
  have hz' : List.replicate 32 0 = range b 193 224 := zeros (by omega) rfl (by rw [h4]; simp)
  have hkb : be 1 k.pos = range b 9 9 := by
    rw [fact_val hk, be_range 1 9 9 (by omega) rfl]
  refine Eq.trans ?_ (flatten_cut (w := [8, 1, 7, 16, 16, 16, 16, 16, 32, 32, 8, 8, 8, 8, 32])
    (by simp [hl]))
  rw [statement_flatten]
  simp only [SitePolicy.Witness.fields]
  rw [← hm, hkb, hz, hz', be_u64 161 (by omega) (by omega) (h5 161 (by simp)),
    be_u64 169 (by omega) (by omega) (h5 169 (by simp)),
    be_u64 177 (by omega) (by omega) (h5 177 (by simp)),
    be_u64 185 (by omega) (by omega) (h5 185 (by simp)), block_range 16 17 32 (by omega) rfl,
    block_range 16 33 48 (by omega) rfl, block_range 16 49 64 (by omega) rfl,
    block_range 16 65 80 (by omega) rfl, block_range 16 81 96 (by omega) rfl,
    block_range 32 97 128 (by omega) rfl, block_range 32 129 160 (by omega) rfl]
  rfl

lemma statement_decode_encode (s : Statement) :
    SitePolicy.Witness.decode (SitePolicy.Witness.encode s) = .ok s := by
  have hp := statement_parts (s := s) rfl
  simp only [List.cons.injEq, and_true] at hp
  obtain ⟨h1, h2, h3, h4, h5, h6, h7, h8, h9, h10, h11, h12, h13, h14, h15⟩ := hp
  have hl : (SitePolicy.Witness.encode s).length = 224 :=
    length_pad (by simp [pad, SitePolicy.Witness.magic])
  have hk : Fact.val (unbe (be 1 s.kind.pos)) = some s.kind := by
    rw [unbe_be_byte (by cases s.kind <;> decide)]
    cases s.kind <;> rfl
  have hc : (offsets.any fun offset =>
      Counter.last < u64 (SitePolicy.Witness.encode s) offset) = false := by
    rw [any_past]
    intro offset ho
    simp only [offsets, List.mem_cons, List.not_mem_nil, or_false] at ho
    rcases ho with rfl | rfl | rfl | rfl <;>
      simp only [u64, Nat.reduceAdd, h11, h12, h13, h14, unbe_be_counter] <;>
      exact Counter.le_last _
  have hf : SitePolicy.Witness.fields (SitePolicy.Witness.encode s) s.kind = s := by
    unfold SitePolicy.Witness.fields
    simp only [u64, Nat.reduceAdd, h4, h5, h6, h7, h8, h9, h10, h11, h12, h13, h14,
      Block.ofBytes_bytes, counter_be]
  unfold SitePolicy.Witness.decode
  rw [if_neg (by simp [hl, h1]), h2, hk]
  dsimp only
  rw [any_zeros h3, any_zeros h15, hc, if_neg (by simp), hf]

/-- **The frame of a statement** is canonical. -/
theorem statement_canonical :
    Canonical SitePolicy.Witness.encode SitePolicy.Witness.decode fun _ => True :=
  .of_decode (fun _ _ h => ⟨statement_encode_decode h, trivial⟩)
    fun s _ => statement_decode_encode s

/-! ### Policies -/

/-- The policy as it is stored, without the boot. -/
def stored (p : Policy) : Policy := { p with scope := { p.scope with bootId := zeroIdentity } }

/-- The widths of the fields of a policy before its digest. -/
def widths : List ℕ :=
  [8, 16, 16, 16, 16, 8, 8, 4, 4, 32, 32, 32, 8, 8, 8, 8, 32, 32, 32, 32, 32, 96]

/-- The set of the kinds of messages that a policy allows. -/
def kinds (allowed : MessageKind → Bool) : ℕ := bitSet MessageKind.pos allowed MessageKind.all

/-- The fields of a policy before its digest. -/
def policyFields (p : Policy) : List Bytes :=
  [SitePolicy.magic, p.rootId.bytes, p.scope.clusterId.bytes, p.scope.nodeId.bytes,
    p.scope.resourceId.bytes, be 8 p.scope.membershipEpoch, be 8 p.scope.fenceToken,
    be 4 (kinds p.scope.allowed), List.replicate 4 0, p.requestKey.bytes, p.contract.bytes,
    List.replicate 32 0, be 8 p.scope.maximumLocalLease, be 8 p.validUntil, be 8 p.serial,
    be 8 p.maximumWitnessAge, (p.observers .clusterReservation).bytes,
    (p.observers .resourceQuiesced).bytes, (p.observers .semanticHealth).bytes,
    (p.observers .dataBackwardCompatible).bytes, (p.observers .isolationConfirmed).bytes,
    List.replicate 96 0]

lemma body_flatten (p : Policy) : SitePolicy.body p = (policyFields p).flatten := by
  simp [SitePolicy.body, policyFields, kinds, pad, SitePolicy.magic, Fact.all]

lemma length_policyFields (p : Policy) : (policyFields p).map List.length = widths := by
  simp [policyFields, widths, SitePolicy.magic]

lemma length_body (p : Policy) : (SitePolicy.body p).length = 480 := by
  rw [body_flatten, List.length_flatten, length_policyFields]
  rfl

lemma policy_parts {p : Policy} {b : Bytes} (hb : SitePolicy.encode p = b) :
    [range b 1 8, range b 9 24, range b 25 40, range b 41 56, range b 57 72, range b 73 80,
      range b 81 88, range b 89 92, range b 93 96, range b 97 128, range b 129 160,
      range b 161 192, range b 193 200, range b 201 208, range b 209 216, range b 217 224,
      range b 225 256, range b 257 288, range b 289 320, range b 321 352, range b 353 384,
      range b 385 480, range b 481 512]
    = policyFields p ++ [(Sha256.hash (SitePolicy.body p)).bytes] := by
  have h : b = (policyFields p ++ [(Sha256.hash (SitePolicy.body p)).bytes]).flatten := by
    rw [← hb, SitePolicy.encode, List.flatten_append, ← body_flatten]
    simp
  rw [h]
  refine cut_flatten (w := widths ++ [32]) ?_
  rw [List.map_append, length_policyFields]
  simp

lemma kind_pos_injective : MessageKind.pos.Injective := by
  intro k k' h
  cases k <;> cases k' <;> first | rfl | cases h

lemma mem_kinds (k : MessageKind) : k ∈ MessageKind.all := by cases k <;> decide

lemma kinds_lt (allowed : MessageKind → Bool) : kinds allowed < 2 ^ 20 :=
  bitSet_lt fun k _ => by cases k <;> decide

lemma kinds_testBit {n : ℕ} (h : n < 2 ^ 20) : kinds (fun k => n.testBit k.pos) = n :=
  bitSet_testBit h (by decide)

/-- A frame is the encoding of the policy that it spells. -/
lemma policy_encode_decode {b : Bytes} {p : Policy} (h : SitePolicy.decode b = .ok p) :
    SitePolicy.encode p = b := by
  unfold SitePolicy.decode at h
  split at h
  · cases h
  rename_i h1
  split at h
  swap
  · cases h
  cases h
  simp only [not_or, not_not, Bool.not_eq_true, any_past, Nat.not_le] at h1
  obtain ⟨hl, hm, hd, h2, h3, h4, h5, h6⟩ := h1
  have hl' : b.length = 512 := hl
  have hz : List.replicate 4 0 = range b 93 96 := zeros (by omega) rfl (by rw [h2]; simp)
  have hz' : List.replicate 32 0 = range b 161 192 := zeros (by omega) rfl (by rw [h3]; simp)
  have hz'' : List.replicate 96 0 = range b 385 480 := zeros (by omega) rfl (by rw [h4]; simp)
  have hk : be 4 (kinds fun k => (u32 b 89).testBit k.pos) = range b 89 92 := by
    rw [kinds_testBit h6, u32, be_range 4 89 92 (by omega) rfl]
  have hb : SitePolicy.body (SitePolicy.fields b) = range b 1 480 := by
    rw [body_flatten]
    refine Eq.trans (congrArg List.flatten ?_) (flatten_cutFrom widths b 1 Nat.one_pos)
    simp only [policyFields, SitePolicy.fields, Fact.pos]
    rw [← hm, hk, hz, hz', hz'', be_u64 73 (by omega) (by omega) (h5 73 (by simp)),
      be_u64 81 (by omega) (by omega) (h5 81 (by simp)),
      be_u64 193 (by omega) (by omega) (h5 193 (by simp)),
      be_u64 201 (by omega) (by omega) (h5 201 (by simp)),
      be_u64 209 (by omega) (by omega) (h5 209 (by simp)),
      be_u64 217 (by omega) (by omega) (h5 217 (by simp)), block_range 16 9 24 (by omega) rfl,
      block_range 16 25 40 (by omega) rfl, block_range 16 41 56 (by omega) rfl,
      block_range 16 57 72 (by omega) rfl, block_range 32 97 128 (by omega) rfl,
      block_range 32 129 160 (by omega) rfl, block_range 32 _ _ (by omega) rfl,
      block_range 32 _ _ (by omega) rfl, block_range 32 _ _ (by omega) rfl,
      block_range 32 _ _ (by omega) rfl, block_range 32 _ _ (by omega) rfl]
    rfl
  rw [SitePolicy.encode, hb, ← hd, range_append_range (by omega) (by omega), range_all hl']

/-- The frame of a policy spells it, sound or not. -/
lemma policy_fields_encode (p : Policy) :
    SitePolicy.fields (SitePolicy.encode p) = stored p := by
  have h := policy_parts (p := p) rfl
  simp only [policyFields, List.cons_append, List.nil_append, List.cons.injEq, and_true] at h
  obtain ⟨h1, h2, h3, h4, h5, h6, h7, h8, h9, h10, h11, h12, h13, h14, h15, h16, h17, h18, h19,
    h20, h21, h22, h23⟩ := h
  have hk : unbe (be 4 (kinds p.scope.allowed)) = kinds p.scope.allowed :=
    unbe_be_of_lt ((kinds_lt _).trans (by decide))
  have ha : (fun k => (kinds p.scope.allowed).testBit k.pos) = p.scope.allowed :=
    funext fun k => testBit_bitSet_pos kind_pos_injective (mem_kinds k)
  have ho : (fun k => Block.ofBytes 32 (range (SitePolicy.encode p) (225 + 32 * Fact.pos k)
      (256 + 32 * k.pos))) = p.observers := by
    funext k
    cases k <;> simp only [Fact.pos, Nat.reduceMul, Nat.reduceAdd, h17, h18, h19, h20, h21,
      Block.ofBytes_bytes]
  unfold SitePolicy.fields stored
  simp only [u64, u32, Nat.reduceAdd, h2, h3, h4, h5, h6, h7, h8, h10, h11, h13, h14, h15, h16,
    hk, ha, ho, Block.ofBytes_bytes, counter_be]

lemma policy_decode_encode {p : Policy} (hp : p.Sound) :
    SitePolicy.decode (SitePolicy.encode p) = .ok (stored p) := by
  have h := policy_parts (p := p) rfl
  simp only [policyFields, List.cons_append, List.nil_append, List.cons.injEq, and_true] at h
  obtain ⟨h1, h2, h3, h4, h5, h6, h7, h8, h9, h10, h11, h12, h13, h14, h15, h16, h17, h18, h19,
    h20, h21, h22, h23⟩ := h
  have hl : (SitePolicy.encode p).length = SitePolicy.size := by
    rw [SitePolicy.encode, List.length_append, length_body, Block.length_bytes]
    rfl
  have hb : range (SitePolicy.encode p) 1 480 = SitePolicy.body p := by
    rw [SitePolicy.encode, range_head (length_body p)]
  have hk : unbe (be 4 (kinds p.scope.allowed)) = kinds p.scope.allowed :=
    unbe_be_of_lt ((kinds_lt _).trans (by decide))
  have hc : ([73, 81, 193, 201, 209, 217].any fun offset =>
      Counter.last < u64 (SitePolicy.encode p) offset) = false := by
    rw [any_past]
    intro offset ho
    simp only [List.mem_cons, List.not_mem_nil, or_false] at ho
    rcases ho with rfl | rfl | rfl | rfl | rfl | rfl <;>
      simp only [u64, Nat.reduceAdd, h6, h7, h13, h14, h15, h16, unbe_be_counter] <;>
      exact Counter.le_last _
  have hs : (stored p).Sound := hp
  unfold SitePolicy.decode
  rw [any_zeros h9, any_zeros h12, any_zeros h22, hc, policy_fields_encode, if_neg, if_pos hs]
  rw [u32, h8, hk, h1, h23, hb]
  simpa [hl] using kinds_lt p.scope.allowed

/-! ### The result -/

/-- **Decoders that do not encode again are canonical**: what each of them takes is the encoding
of the value it reads, and what is encoded of a value that it admits is read as that value; of a
policy, without the boot. -/
theorem layouts_canonical :
    (∀ b e, LogFormat.decode b = some e ↔ LogFormat.encode e = b ∧ LogFormat.Filled e)
      ∧ Canonical SitePolicy.Witness.encode SitePolicy.Witness.decode (fun _ => True)
      ∧ Canonical Requests.encode Requests.decode Request.Admissible
      ∧ Canonical Protocol.encode Protocol.decode Header.Current
      ∧ (∀ b p, SitePolicy.decode b = .ok p → SitePolicy.encode p = b ∧ p.Sound)
      ∧ ∀ p : Policy, p.Sound → SitePolicy.decode (SitePolicy.encode p) = .ok (stored p) :=
  ⟨fun _ _ => LogFormat.decode_eq_some_iff, statement_canonical, request_canonical,
    header_canonical,
    fun _ _ h => ⟨policy_encode_decode h, SitePolicy.decode_sound h⟩,
    fun _ => policy_decode_encode⟩

end NiayanAssurance.Layouts
