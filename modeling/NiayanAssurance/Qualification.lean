import NiayanAssurance.StopBarrierAuth
import NiayanAssurance.Codec
import Mathlib.Data.Set.Card

/-!
Release qualification: the claims that a release rests on, the frames they are signed in, and
the parties that have to agree before a release is eligible.
-/

namespace NiayanAssurance.Qualification

open NiayanAssurance.Lib NiayanAssurance.Types NiayanAssurance.Codec NiayanAssurance.Ingress
open NiayanAssurance.SitePolicy (authentic)
open NiayanAssurance.StopBarrierAuth (contractProfile)

inductive EvidenceItem
  | compilerBuild | allUnitTests | integrationTests | protocolMatrix
  | proofFlow | proofSafety | proofFunctional | cryptoReview
  | rpmCorpus | filesystemCrashTests | powercutTests | clusterPartitionTests
  | fenceDeviceTests | secureBootTests | backupRestoreTests
  | supplyChainReview | independentReview | operationalApproval
  | controlThresholdTests | nonrollbackAnchorTests | backupChainTests
  | readmissionIsolationTests | disasterRehearsalTests
  | batchRetentionRaceTests | etcdValueLimitTests
  | hostAdmissionTests | serviceCatalogueTests | networkRecoveryTests
  | bootTrialTests | distributionCompositionTests | nativeRpmIntegrationTests
  deriving DecidableEq

namespace EvidenceItem

/-- The items in their order. -/
def all : List EvidenceItem :=
  [compilerBuild, allUnitTests, integrationTests, protocolMatrix, proofFlow, proofSafety,
    proofFunctional, cryptoReview, rpmCorpus, filesystemCrashTests, powercutTests,
    clusterPartitionTests, fenceDeviceTests, secureBootTests, backupRestoreTests,
    supplyChainReview, independentReview, operationalApproval, controlThresholdTests,
    nonrollbackAnchorTests, backupChainTests, readmissionIsolationTests, disasterRehearsalTests,
    batchRetentionRaceTests, etcdValueLimitTests, hostAdmissionTests, serviceCatalogueTests,
    networkRecoveryTests, bootTrialTests, distributionCompositionTests,
    nativeRpmIntegrationTests]

/-- `Evidence_Item'Pos`. -/
def pos (i : EvidenceItem) : ℕ := all.idxOf i

/-- `Evidence_Item'Val`, for the bytes that the frame check lets through. -/
def val (n : ℕ) : EvidenceItem := all[n]?.getD nativeRpmIntegrationTests

lemma mem_all (i : EvidenceItem) : i ∈ all := by cases i <;> decide

lemma val_pos (i : EvidenceItem) : val i.pos = i := by cases i <;> rfl

lemma pos_le (i : EvidenceItem) : i.pos ≤ pos nativeRpmIntegrationTests := by
  cases i <;> decide

end EvidenceItem

inductive EvidenceState
  | missing | failed | passed
  deriving DecidableEq

/-- `Evidence_State'Pos`. -/
def EvidenceState.pos : EvidenceState → ℕ | .missing => 0 | .failed => 1 | .passed => 2

/-- `Evidence_State'Val`, for the bytes that the frame check lets through. -/
def EvidenceState.val : ℕ → EvidenceState
  | 0 => .missing
  | 1 => .failed
  | _ => .passed

inductive Role
  | builder | securityReviewer | operationsApprover
  deriving DecidableEq

structure Authority where
  key : Digest := zeroDigest
  principal : Identity := zeroIdentity
  domain : Counter := 0
  duty : Role := .builder
  deriving DecidableEq

/-- `Keys (1 .. Count)` are the keys; the others are never read. -/
structure Policy where
  sourceSet : Digest := zeroDigest
  binarySet : Digest := zeroDigest
  contract : Digest := zeroDigest
  platform : Digest := zeroDigest
  policyId : Digest := zeroDigest
  trustEpoch : Counter := 0
  maxLifetime : Counter := 0
  keys : List Authority := []
  count_le : keys.length ≤ 16 := by decide

def Policy.count (p : Policy) : ℕ := p.keys.length

structure Claim where
  item : EvidenceItem := .compilerBuild
  result : EvidenceState := .missing
  issuer : Digest := zeroDigest
  sourceSet : Digest := zeroDigest
  binarySet : Digest := zeroDigest
  contract : Digest := zeroDigest
  platform : Digest := zeroDigest
  report : Digest := zeroDigest
  policyId : Digest := zeroDigest
  notBefore : Counter := 0
  expires : Counter := 0
  trustEpoch : Counter := 0
  deriving DecidableEq

abbrev Claims := EvidenceItem → Claim

abbrev SignatureResults := EvidenceItem → Bool

structure Assessment where
  eligible : Bool := false
  invalid : SignatureResults := fun _ => true
  independentRoles : Bool := false

def Valid (p : Policy) : Prop :=
  p.sourceSet ≠ zeroDigest ∧ p.binarySet ≠ zeroDigest ∧ p.contract ≠ zeroDigest
    ∧ p.platform ≠ zeroDigest ∧ p.policyId ≠ zeroDigest ∧ (p.trustEpoch : ℕ) ≠ 0
    ∧ (p.maxLifetime : ℕ) ≠ 0 ∧ 3 ≤ p.count
    ∧ (∀ k ∈ p.keys, k.key ≠ zeroDigest ∧ k.principal ≠ zeroIdentity ∧ (k.domain : ℕ) ≠ 0)
    ∧ p.keys.Pairwise fun j i => i.key ≠ j.key

instance (p : Policy) : Decidable (Valid p) := by unfold Valid; infer_instance

/-! ### The frame of a claim -/

def magic : Bytes := [77, 67, 81, 85, 65, 76, 48, 49]

/-- `B (1..288)`. -/
def body (c : Claim) : Bytes :=
  pad 288 (pad 16 (magic ++ be 1 c.item.pos ++ be 1 c.result.pos) ++ c.issuer.bytes
    ++ c.sourceSet.bytes ++ c.binarySet.bytes ++ c.contract.bytes ++ c.platform.bytes
    ++ c.report.bytes ++ c.policyId.bytes ++ be 8 c.notBefore ++ be 8 c.expires
    ++ be 8 c.trustEpoch)

def encode (c : Claim) : Bytes := body c ++ (Sha256.hash (body c)).bytes

/-- The claim that a frame spells. -/
def fields (f : Bytes) : Claim where
  item := .val (byteAt f 9)
  result := .val (byteAt f 10)
  issuer := .ofBytes 32 (range f 17 48)
  sourceSet := .ofBytes 32 (range f 49 80)
  binarySet := .ofBytes 32 (range f 81 112)
  contract := .ofBytes 32 (range f 113 144)
  platform := .ofBytes 32 (range f 145 176)
  report := .ofBytes 32 (range f 177 208)
  policyId := .ofBytes 32 (range f 209 240)
  notBefore := .ofNat (u64 f 241)
  expires := .ofNat (u64 f 249)
  trustEpoch := .ofNat (u64 f 257)

def decode (f : Bytes) : Except Outcome Claim :=
  if f.length ≠ 320 then .error .invalidInput
  else if range f 1 8 ≠ magic ∨ EvidenceItem.nativeRpmIntegrationTests.pos < byteAt f 9
      ∨ EvidenceState.passed.pos < byteAt f 10 then .error .invalidInput
  else if Past f 241 3 then .error .invalidInput
  else if encode (fields f) ≠ f then .error .corrupt
  else .ok (fields f)

lemma parts (c : Claim) :
    [range (encode c) 1 8, range (encode c) 9 9, range (encode c) 10 10, range (encode c) 11 16,
      range (encode c) 17 48, range (encode c) 49 80, range (encode c) 81 112,
      range (encode c) 113 144, range (encode c) 145 176, range (encode c) 177 208,
      range (encode c) 209 240, range (encode c) 241 248, range (encode c) 249 256,
      range (encode c) 257 264, range (encode c) 265 288, range (encode c) 289 320]
    = [magic, be 1 c.item.pos, be 1 c.result.pos, List.replicate 6 0, c.issuer.bytes,
        c.sourceSet.bytes, c.binarySet.bytes, c.contract.bytes, c.platform.bytes,
        c.report.bytes, c.policyId.bytes, be 8 c.notBefore, be 8 c.expires, be 8 c.trustEpoch,
        List.replicate 24 0, (Sha256.hash (body c)).bytes] := by
  have h : encode c = [magic, be 1 c.item.pos, be 1 c.result.pos, List.replicate 6 0,
      c.issuer.bytes, c.sourceSet.bytes, c.binarySet.bytes, c.contract.bytes, c.platform.bytes,
      c.report.bytes, c.policyId.bytes, be 8 c.notBefore, be 8 c.expires, be 8 c.trustEpoch,
      List.replicate 24 0, (Sha256.hash (body c)).bytes].flatten := by
    generalize hd : (Sha256.hash (body c)).bytes = d
    rw [encode, hd]
    simp [body, pad, magic]
  rw [h]
  exact cut_flatten (w := [8, 1, 1, 6, 32, 32, 32, 32, 32, 32, 32, 8, 8, 8, 24, 32])
    (by simp [magic])

lemma fields_encode (c : Claim) : byteAt (encode c) 9 = c.item.pos
    ∧ byteAt (encode c) 10 = c.result.pos ∧ fields (encode c) = c := by
  have h := parts c
  simp only [List.cons.injEq] at h
  obtain ⟨-, h1, h2, -, h3, h4, h5, h6, h7, h8, h9, h10, h11, h12, -⟩ := h
  have hi : byteAt (encode c) 9 = c.item.pos := by
    rw [byteAt, h1]
    exact unbe_be_byte ((EvidenceItem.pos_le _).trans_lt (by decide))
  have hr : byteAt (encode c) 10 = c.result.pos := by
    rw [byteAt, h2]
    exact unbe_be_byte (by cases c.result <;> decide)
  have hs : EvidenceState.val c.result.pos = c.result := by cases c.result <;> rfl
  refine ⟨hi, hr, ?_⟩
  unfold fields
  simp only [u64, Nat.reduceAdd, hi, hr, h3, h4, h5, h6, h7, h8, h9, h10, h11, h12, hs,
    EvidenceItem.val_pos, Block.ofBytes_bytes, counter_be]

lemma not_past_encode (c : Claim) : ¬ Past (encode c) 241 3 := by
  have h := parts c
  simp only [List.cons.injEq] at h
  obtain ⟨-, -, -, -, -, -, -, -, -, -, -, h1, h2, h3, -⟩ := h
  refine not_past (l := [c.notBefore, c.expires, c.trustEpoch]) fun i n hn => ?_
  match i, hn with
  | 0, rfl => exact h1
  | 1, rfl => exact h2
  | 2, rfl => exact h3

/-- **The frame of a claim** is canonical. -/
theorem canonical : Canonical encode decode fun _ => True := by
  refine .of_decode (fun f c h => ?_) fun c _ => ?_
  · unfold decode at h
    split at h
    · cases h
    split at h
    · cases h
    split at h
    · cases h
    split at h
    · cases h
    rename_i hv
    cases h
    exact ⟨not_not.mp hv, trivial⟩
  · obtain ⟨hi, hr, hf⟩ := fields_encode c
    have h := parts c
    simp only [List.cons.injEq] at h
    have hl : (encode c).length = 320 := Sha256.length_withDigest (by simp [pad, magic])
    have hs : c.result.pos ≤ EvidenceState.passed.pos := by cases c.result <;> decide
    unfold decode
    rw [if_neg (not_not.mpr hl), if_neg (by simp [h.1, hi, hr, hs, EvidenceItem.pos_le]),
      if_neg (not_past_encode c), hf, if_neg (not_not.mpr rfl)]

/-! ### Evaluation -/

/-- The last key of the policy that is the issuer. -/
def who (p : Policy) (issuer : Digest) : Option Authority :=
  p.keys.foldl (fun w k => if issuer = k.key then some k else w) none

/-- What is held against the claim for the item `i`, its key apart. -/
def Refused (p : Policy) (i : EvidenceItem) (c : Claim) (verified : Bool) (now : Counter) : Prop :=
  verified = false ∨ c.item ≠ i ∨ c.result ≠ .passed ∨ c.report = zeroDigest
    ∨ c.sourceSet ≠ p.sourceSet ∨ c.binarySet ≠ p.binarySet ∨ c.contract ≠ p.contract
    ∨ c.platform ≠ p.platform ∨ c.policyId ≠ p.policyId ∨ c.trustEpoch ≠ p.trustEpoch
    ∨ (now : ℕ) < c.notBefore ∨ (c.expires : ℕ) ≤ now ∨ (c.expires : ℕ) ≤ c.notBefore
    ∨ (p.maxLifetime : ℕ) < c.expires - c.notBefore

instance (p : Policy) (i : EvidenceItem) (c : Claim) (v : Bool) (now : Counter) :
    Decidable (Refused p i c v now) := by unfold Refused; infer_instance

/-- The variables of the loop over the items. -/
structure Tally where
  eligible : Bool := true
  invalid : SignatureResults := fun _ => true
  build : Option Authority := none
  review : Option Authority := none
  approve : Option Authority := none

/-- The claim for the item `i` holds, and `k` is its key. -/
def Tally.take (t : Tally) (i : EvidenceItem) (k : Authority) : Tally :=
  match i with
  | .compilerBuild =>
    { t with build := some k, invalid := Function.update t.invalid i (k.duty ≠ .builder) }
  | .independentReview =>
    { t with
      review := some k, invalid := Function.update t.invalid i (k.duty ≠ .securityReviewer) }
  | .operationalApproval =>
    { t with
      approve := some k, invalid := Function.update t.invalid i (k.duty ≠ .operationsApprover) }
  | _ => { t with invalid := Function.update t.invalid i false }

/-- One turn of the loop. -/
def judge (p : Policy) (c : Claims) (verified : SignatureResults) (now : Counter) (t : Tally)
    (i : EvidenceItem) : Tally :=
  let t' :=
    match who p (c i).issuer with
    | none => { t with invalid := Function.update t.invalid i true }
    | some k =>
      if Refused p i (c i) (verified i) now then
        { t with invalid := Function.update t.invalid i true }
      else t.take i k
  { t' with eligible := t'.eligible && !t'.invalid i }

def independent : Option Authority → Option Authority → Option Authority → Bool
  | some b, some r, some a =>
    b.principal ≠ r.principal ∧ b.principal ≠ a.principal ∧ r.principal ≠ a.principal
      ∧ b.domain ≠ r.domain ∧ b.domain ≠ a.domain ∧ r.domain ≠ a.domain
  | _, _, _ => false

def evaluate (p : Policy) (c : Claims) (verified : SignatureResults) (now : Counter) :
    Assessment :=
  if ¬ Valid p then {}
  else
    let t := EvidenceItem.all.foldl (judge p c verified now) {}
    { eligible := t.eligible && independent t.build t.review t.approve
      invalid := t.invalid
      independentRoles := independent t.build t.review t.approve }

/-! ### Verification -/

/-- `MISSION-CORE-QUALIFICATION-v1`. -/
def domain : Bytes :=
  [77, 73, 83, 83, 73, 79, 78, 45, 67, 79, 82, 69, 45, 81, 85, 65, 76, 73, 70, 73, 67, 65, 84, 73,
    79, 78, 45, 118, 49]

/-- The claim in a frame; the default one when it is refused. -/
def claimOf (raw : Bytes) : Claim :=
  match decode raw with
  | .ok c => c
  | .error _ => {}

/-- The signature of one frame is good. -/
def signed (good : VerifyDetached) (sodium : Bool) (p : Policy) (raw : Bytes) (sig : Signature) :
    Bool :=
  match decode raw with
  | .error _ => false
  | .ok c =>
    let key := ((who p c.issuer).map Authority.key).getD zeroDigest
    if key ≠ zeroDigest then authentic good sodium domain raw sig key = .ok else false

/-- `Verify`. -/
def verify (good : VerifyDetached) (sodium : Bool) (p : Policy) (raw : EvidenceItem → Bytes)
    (sig : EvidenceItem → Signature) (now : Counter) : Assessment × Outcome :=
  if ¬ Valid p ∨ p.contract ≠ contractProfile then ({}, .denied)
  else
    let a := evaluate p (fun i => claimOf (raw i))
      (fun i => signed good sodium p (raw i) (sig i)) now
    (a, if a.eligible then .ok else .denied)

/-! ### What the loop finds -/

/-- The item that a party of each role has to sign. -/
def itemOf : Role → EvidenceItem
  | .builder => .compilerBuild
  | .securityReviewer => .independentReview
  | .operationsApprover => .operationalApproval

def Tally.party (t : Tally) : Role → Option Authority
  | .builder => t.build
  | .securityReviewer => t.review
  | .operationsApprover => t.approve

/-- The key `k` may sign the claim for the item `i`. -/
def MaySign (i : EvidenceItem) (k : Authority) : Prop := ∀ r, itemOf r = i → k.duty = r

/-- The claim for the item `i` counts. -/
def Counts (p : Policy) (c : Claims) (verified : SignatureResults) (now : Counter)
    (i : EvidenceItem) : Prop :=
  ∃ k, who p (c i).issuer = some k ∧ ¬ Refused p i (c i) (verified i) now ∧ MaySign i k

section Loop

variable {p : Policy} {c : Claims} {verified : SignatureResults} {now : Counter} {t : Tally}
  {i : EvidenceItem} {k : Authority}

lemma take_eligible : (t.take i k).eligible = t.eligible := by
  cases i <;> rfl

lemma maySign_itemOf (r : Role) : MaySign (itemOf r) k ↔ k.duty = r := by
  refine ⟨fun h => h r rfl, fun h r' hr => ?_⟩
  rw [h]
  cases r <;> cases r' <;> cases hr <;> rfl

lemma take_invalid : (t.take i k).invalid i = false ↔ MaySign i k := by
  unfold Tally.take
  split
  · simpa [itemOf] using (maySign_itemOf (k := k) .builder).symm
  · simpa [itemOf] using (maySign_itemOf (k := k) .securityReviewer).symm
  · simpa [itemOf] using (maySign_itemOf (k := k) .operationsApprover).symm
  · rename_i h1 h2 h3
    refine iff_of_true (Function.update_self ..) fun r hr => ?_
    cases r
    · exact absurd hr.symm h1
    · exact absurd hr.symm h2
    · exact absurd hr.symm h3

lemma take_party (r : Role) :
    (t.take i k).party r = if itemOf r = i then some k else t.party r := by
  cases r <;> cases i <;> rfl

/-- One turn keeps the release eligible when the claim counts, and takes down its key. -/
lemma judge_eligible : (judge p c verified now t i).eligible = true
    ↔ t.eligible = true ∧ Counts p c verified now i := by
  unfold judge Counts
  rcases hw : who p (c i).issuer with _ | k
  · simp
  · dsimp only
    split_ifs with hr
    · simp [hr]
    · simp [take_eligible, take_invalid, hr]

lemma judge_party (h : Counts p c verified now i) (r : Role) :
    (judge p c verified now t i).party r
      = if itemOf r = i then who p (c i).issuer else t.party r := by
  obtain ⟨k, hw, hr, -⟩ := h
  unfold judge
  simp only [hw, if_neg hr]
  exact take_party r

/-- What the loop leaves after the items of `l`. -/
lemma foldl_eligible (l : List EvidenceItem) :
    (l.foldl (judge p c verified now) t).eligible = true
      ↔ t.eligible = true ∧ ∀ i ∈ l, Counts p c verified now i := by
  induction l generalizing t with
  | nil => simp
  | cons i l ih => rw [List.foldl_cons, ih, judge_eligible, List.forall_mem_cons, and_assoc]

lemma foldl_party (l : List EvidenceItem) (h : ∀ i ∈ l, Counts p c verified now i) (r : Role) :
    (l.foldl (judge p c verified now) t).party r
      = if itemOf r ∈ l then who p (c (itemOf r)).issuer else t.party r := by
  induction l generalizing t with
  | nil => rfl
  | cons i l ih =>
    obtain ⟨hi, hl⟩ := List.forall_mem_cons.mp h
    rw [List.foldl_cons, ih hl, judge_party hi]
    by_cases hm : itemOf r ∈ l
    · rw [if_pos hm, if_pos (List.mem_cons_of_mem _ hm)]
    · rw [if_neg hm]
      by_cases he : itemOf r = i
      · rw [if_pos he, if_pos (List.mem_cons.mpr (.inl he)), he]
      · rw [if_neg he, if_neg (fun h' => (List.mem_cons.mp h').elim he hm)]

/-- After the last key with it, `who` finds the one key of a valid policy that is the issuer. -/
lemma who_eq_some_iff (hp : Valid p) {issuer : Digest} :
    who p issuer = some k ↔ k ∈ p.keys ∧ issuer = k.key := by
  obtain ⟨-, -, -, -, -, -, -, -, -, h⟩ := hp
  unfold who
  generalize p.keys = l at h
  induction l using List.reverseRecOn with
  | nil => simp
  | append_singleton l a ih =>
    obtain ⟨hl, -, ha⟩ := List.pairwise_append.mp h
    have ha' : ∀ k ∈ l, a.key ≠ k.key := fun k hk => ha k hk a List.mem_cons_self
    rw [List.foldl_append, List.foldl_cons, List.foldl_nil]
    split_ifs with he
    · constructor
      · rintro h
        cases h
        exact ⟨by simp, he⟩
      · rintro ⟨hk, he'⟩
        rcases List.mem_append.mp hk with hk | hk
        · exact absurd (he.symm.trans he') (ha' k hk)
        · rw [List.mem_singleton.mp hk]
    · rw [ih hl, List.mem_append, List.mem_singleton]
      refine and_congr_left fun he' => (or_iff_left ?_).symm
      rintro rfl
      exact he he'

end Loop

/-! ### What a release needs -/

/-- The claim `c` proves the item `i` under the policy. -/
structure Proves (p : Policy) (now : Counter) (i : EvidenceItem) (c : Claim) : Prop where
  item : c.item = i
  issuer : ∃ k ∈ p.keys, c.issuer = k.key
  result : c.result = .passed
  report : c.report ≠ zeroDigest
  sourceSet : c.sourceSet = p.sourceSet
  binarySet : c.binarySet = p.binarySet
  contract : c.contract = p.contract
  platform : c.platform = p.platform
  policyId : c.policyId = p.policyId
  trustEpoch : c.trustEpoch = p.trustEpoch
  window : (c.notBefore : ℕ) ≤ now ∧ (now : ℕ) < c.expires
  lifetime : (c.expires : ℕ) - c.notBefore ≤ p.maxLifetime

/-- `k` is the key of the policy that has signed the claim of the role `r`. -/
def Signs (p : Policy) (c : Claims) (r : Role) (k : Authority) : Prop :=
  k ∈ p.keys ∧ (c (itemOf r)).issuer = k.key ∧ k.duty = r

/-- Three parties that share no principal and no domain. -/
def Apart (b r a : Authority) : Prop :=
  (b.principal ≠ r.principal ∧ b.principal ≠ a.principal ∧ r.principal ≠ a.principal)
    ∧ b.domain ≠ r.domain ∧ b.domain ≠ a.domain ∧ r.domain ≠ a.domain

/-- What a release needs. -/
def Released (p : Policy) (c : Claims) (verified : SignatureResults) (now : Counter) : Prop :=
  Valid p ∧ (∀ i, verified i = true ∧ Proves p now i (c i))
    ∧ ∃ b r a, Signs p c .builder b ∧ Signs p c .securityReviewer r
      ∧ Signs p c .operationsApprover a ∧ Apart b r a

section Release

variable {p : Policy} {c : Claims} {verified : SignatureResults} {now : Counter}

lemma not_refused_iff {i : EvidenceItem} : ¬ Refused p i (c i) (verified i) now
      ∧ (∃ k ∈ p.keys, (c i).issuer = k.key)
    ↔ verified i = true ∧ Proves p now i (c i) := by
  unfold Refused
  constructor
  · rintro ⟨h, hk⟩
    push Not at h
    obtain ⟨h1, h2, h3, h4, h5, h6, h7, h8, h9, h10, h11, h12, -, h14⟩ := h
    exact ⟨by simpa using h1, h2, hk, h3, h4, h5, h6, h7, h8, h9, h10, ⟨h11, h12⟩, h14⟩
  · rintro ⟨h1, h⟩
    obtain ⟨h2, h3⟩ := h.window
    refine ⟨?_, h.issuer⟩
    push Not
    exact ⟨by simp [h1], h.item, h.result, h.report, h.sourceSet, h.binarySet, h.contract,
      h.platform, h.policyId, h.trustEpoch, h2, h3, h2.trans_lt h3, h.lifetime⟩

lemma forall_counts_iff (hp : Valid p) : (∀ i, Counts p c verified now i)
    ↔ (∀ i, verified i = true ∧ Proves p now i (c i))
      ∧ ∀ r, ∃ k, who p (c (itemOf r)).issuer = some k ∧ k.duty = r := by
  constructor
  · intro h
    refine ⟨fun i => ?_, fun r => ?_⟩
    · obtain ⟨k, hw, hr, -⟩ := h i
      obtain ⟨hk, he⟩ := (who_eq_some_iff hp).mp hw
      exact not_refused_iff.mp ⟨hr, k, hk, he⟩
    · obtain ⟨k, hw, -, hm⟩ := h (itemOf r)
      exact ⟨k, hw, hm r rfl⟩
  · rintro ⟨h1, h2⟩ i
    obtain ⟨hr, k, hk, he⟩ := not_refused_iff.mpr (h1 i)
    have hw : who p (c i).issuer = some k := (who_eq_some_iff hp).mpr ⟨hk, he⟩
    refine ⟨k, hw, hr, fun r hi => ?_⟩
    obtain ⟨k', hw', hd⟩ := h2 r
    rw [hi, hw] at hw'
    cases hw'
    exact hd

/-- The keys that the loop has taken down when every claim counts. -/
lemma parties (h : ∀ i, Counts p c verified now i) :
    (EvidenceItem.all.foldl (judge p c verified now) {}).build
        = who p (c (itemOf .builder)).issuer
      ∧ (EvidenceItem.all.foldl (judge p c verified now) {}).review
        = who p (c (itemOf .securityReviewer)).issuer
      ∧ (EvidenceItem.all.foldl (judge p c verified now) {}).approve
        = who p (c (itemOf .operationsApprover)).issuer := by
  have hf (r : Role) : (EvidenceItem.all.foldl (judge p c verified now) {}).party r
      = who p (c (itemOf r)).issuer := by
    rw [foldl_party _ (fun i _ => h i) r, if_pos (EvidenceItem.mem_all _)]
  exact ⟨hf .builder, hf .securityReviewer, hf .operationsApprover⟩

/-- **What makes a release eligible.** -/
theorem eligible_iff :
    (evaluate p c verified now).eligible = true ↔ Released p c verified now := by
  unfold evaluate Released
  by_cases hp : Valid p
  · rw [if_neg (not_not.mpr hp)]
    dsimp only
    have he := @foldl_eligible p c verified now {} EvidenceItem.all
    have hc : (∀ i ∈ EvidenceItem.all, Counts p c verified now i)
        ↔ ∀ i, Counts p c verified now i := ⟨fun h i => h i i.mem_all, fun h i _ => h i⟩
    rw [Bool.and_eq_true, he, hc, eq_self_iff_true, true_and]
    constructor
    · rintro ⟨h, hi⟩
      obtain ⟨h1, h2⟩ := (forall_counts_iff hp).mp h
      obtain ⟨b, hb, hb'⟩ := h2 .builder
      obtain ⟨r, hr, hr'⟩ := h2 .securityReviewer
      obtain ⟨a, ha, ha'⟩ := h2 .operationsApprover
      obtain ⟨h3, h4, h5⟩ := parties h
      rw [h3, h4, h5, hb, hr, ha] at hi
      obtain ⟨hbm, hbk⟩ := (who_eq_some_iff hp).mp hb
      obtain ⟨hrm, hrk⟩ := (who_eq_some_iff hp).mp hr
      obtain ⟨ham, hak⟩ := (who_eq_some_iff hp).mp ha
      obtain ⟨i1, i2, i3, i4⟩ := of_decide_eq_true hi
      exact ⟨hp, h1, b, r, a, ⟨hbm, hbk, hb'⟩, ⟨hrm, hrk, hr'⟩, ⟨ham, hak, ha'⟩, ⟨i1, i2, i3⟩, i4⟩
    · rintro ⟨-, h1, b, r, a, ⟨hbm, hbk, hb'⟩, ⟨hrm, hrk, hr'⟩, ⟨ham, hak, ha'⟩, ⟨i1, i2, i3⟩, i4⟩
      have hb := (who_eq_some_iff hp).mpr ⟨hbm, hbk⟩
      have hr := (who_eq_some_iff hp).mpr ⟨hrm, hrk⟩
      have ha := (who_eq_some_iff hp).mpr ⟨ham, hak⟩
      have h : ∀ i, Counts p c verified now i := by
        refine (forall_counts_iff hp).mpr ⟨h1, fun r => ?_⟩
        cases r
        · exact ⟨b, hb, hb'⟩
        · exact ⟨r, hr, hr'⟩
        · exact ⟨a, ha, ha'⟩
      obtain ⟨h3, h4, h5⟩ := parties h
      refine ⟨h, ?_⟩
      rw [h3, h4, h5, hb, hr, ha]
      exact decide_eq_true ⟨i1, i2, i3, i4⟩
  · rw [if_pos hp]
    exact iff_of_false Bool.false_ne_true fun h => hp h.1

end Release

/-! ### Coalitions -/

/-- The authorities of the policy whose keys are among `keys`. -/
def Held (p : Policy) (keys : Set PublicKey) : Set Authority :=
  {k | k ∈ p.keys ∧ k.key ∈ keys}

/-- The holders of `keys` span fewer than three principals or fewer than three domains. -/
def Narrow (p : Policy) (keys : Set PublicKey) : Prop :=
  (Authority.principal '' Held p keys).ncard < 3 ∨ (Authority.domain '' Held p keys).ncard < 3

/-- Signatures cannot be forged: one that passes under a key was made by a party that has it. -/
def Unforged (good : VerifyDetached) (sodium : Bool) (keys : Set PublicKey) (raw : Bytes)
    (sig : Signature) : Prop :=
  ∀ key, authentic good sodium domain raw sig key = .ok → key ∈ keys

lemma finite_held (p : Policy) (keys : Set PublicKey) : (Held p keys).Finite :=
  (List.finite_toSet p.keys).subset fun _ hk => hk.1

/-- Three parties that share nothing are in no narrow coalition. -/
lemma not_narrow {p : Policy} {keys : Set PublicKey} {b r a : Authority} (h : Apart b r a)
    (hb : b ∈ Held p keys) (hr : r ∈ Held p keys) (ha : a ∈ Held p keys) : ¬ Narrow p keys := by
  obtain ⟨⟨h1, h2, h3⟩, h4, h5, h6⟩ := h
  have hf := finite_held p keys
  rintro (hn | hn)
  · exact absurd hn (Nat.not_lt.mpr ((Set.two_lt_ncard (hf.image _)).mpr
      ⟨_, ⟨b, hb, rfl⟩, _, ⟨r, hr, rfl⟩, _, ⟨a, ha, rfl⟩, h1, h2, h3⟩))
  · exact absurd hn (Nat.not_lt.mpr ((Set.two_lt_ncard (hf.image _)).mpr
      ⟨_, ⟨b, hb, rfl⟩, _, ⟨r, hr, rfl⟩, _, ⟨a, ha, rfl⟩, h4, h5, h6⟩))

section Coalition

variable {good : VerifyDetached} {sodium : Bool} {p : Policy} {raw : EvidenceItem → Bytes}
  {sig : EvidenceItem → Signature} {now : Counter} {keys : Set PublicKey}

/-- The party that a signed claim is from has its key. -/
lemma held_of_signs (hp : Valid p) {r : Role} {k : Authority}
    (hs : signed good sodium p (raw (itemOf r)) (sig (itemOf r)) = true)
    (hk : Signs p (fun i => claimOf (raw i)) r k)
    (hu : Unforged good sodium keys (raw (itemOf r)) (sig (itemOf r))) : k ∈ Held p keys := by
  obtain ⟨hm, hi, -⟩ := hk
  refine ⟨hm, ?_⟩
  unfold signed at hs
  unfold claimOf at hi
  split at hs
  · cases hs
  · rename_i c hd
    simp only [hd] at hi
    have hw : who p c.issuer = some k := (who_eq_some_iff hp).mpr ⟨hm, hi⟩
    rw [hw] at hs
    dsimp only [Option.map_some, Option.getD_some] at hs
    split at hs
    · exact hu _ (of_decide_eq_true hs)
    · cases hs

/-- **Eligibility needs three independent parties**: a release is eligible exactly when every
item has its verified claim and three parties that share no principal and no domain have signed
as builder, reviewer and approver, so that what the holders of a narrow set of keys have signed
is denied. -/
theorem three_parties :
    (∀ c verified, (evaluate p c verified now).eligible = true ↔ Released p c verified now)
      ∧ ∀ keys, (∀ i, Unforged good sodium keys (raw i) (sig i)) → Narrow p keys →
        (verify good sodium p raw sig now).1.eligible = false
          ∧ (verify good sodium p raw sig now).2 = .denied := by
  refine ⟨fun c verified => eligible_iff, fun keys hu hn => ?_⟩
  unfold verify
  split_ifs with h
  · exact ⟨rfl, rfl⟩
  · dsimp only
    have he : (evaluate p (fun i => claimOf (raw i))
        (fun i => signed good sodium p (raw i) (sig i)) now).eligible = false := by
      rw [Bool.eq_false_iff]
      intro he
      obtain ⟨hp, h1, b, r, a, hb, hr, ha, hd⟩ := eligible_iff.mp he
      exact not_narrow hd (held_of_signs hp (h1 _).1 hb (hu _))
        (held_of_signs hp (h1 _).1 hr (hu _)) (held_of_signs hp (h1 _).1 ha (hu _)) hn
    rw [he]
    exact ⟨rfl, rfl⟩

end Coalition

/-! ### Three parties, and two of them -/

/-- The keys of the builder, the reviewer and the approver. -/
def keyOf : Role → PublicKey
  | .builder => Block.ofBytes 32
    (be 32 0x66be7e332c7a453332bd9d0a7f7db055f5c5ef1a06ada66d98b39fb6810c473a)
  | .securityReviewer => Block.ofBytes 32
    (be 32 0x0b513ad9b4924015ca0902ed079044d3ac5dbec2306f06948c10da8eb6e39f2d)
  | .operationsApprover => Block.ofBytes 32
    (be 32 0x91a28a0b74381593a4d9469579208926afc8ad82c8839b7644359b9eba9a4b3a)

/-- A policy with one key for each role. -/
def trio : Policy where
  sourceSet := Block.fill 32 1
  binarySet := Block.fill 32 2
  contract := contractProfile
  platform := Block.fill 32 3
  policyId := Block.fill 32 4
  trustEpoch := 1
  maxLifetime := 100
  keys :=
    [{ key := keyOf .builder, principal := Block.fill 16 1, domain := 1, duty := .builder },
      { key := keyOf .securityReviewer, principal := Block.fill 16 2, domain := 2,
        duty := .securityReviewer },
      { key := keyOf .operationsApprover, principal := Block.fill 16 3, domain := 3,
        duty := .operationsApprover }]

/-- What the holder of a key says of an item. -/
def attest (key : Digest) (i : EvidenceItem) : Claim where
  item := i
  result := .passed
  issuer := key
  sourceSet := trio.sourceSet
  binarySet := trio.binarySet
  contract := trio.contract
  platform := trio.platform
  report := Block.fill 32 5
  policyId := trio.policyId
  notBefore := 10
  expires := 20
  trustEpoch := 1

/-- The reviewer and the approver sign their items, the builder all others. -/
def trioClaims (i : EvidenceItem) : Claim :=
  match i with
  | .independentReview => attest (keyOf .securityReviewer) i
  | .operationalApproval => attest (keyOf .operationsApprover) i
  | i => attest (keyOf .builder) i

example : (evaluate trio trioClaims (fun _ => true) 15).eligible = true := by decide +kernel

/-- The builder and the reviewer. -/
def pair : Set PublicKey := {keyOf .builder, keyOf .securityReviewer}

lemma narrow_pair : Narrow trio pair := by
  have h : Authority.principal '' Held trio pair ⊆ {Block.fill 16 1, Block.fill 16 2} := by
    rintro _ ⟨k, ⟨hk, hp⟩, rfl⟩
    simp only [trio, List.mem_cons, List.not_mem_nil, or_false] at hk
    rcases hk with rfl | rfl | rfl
    · exact .inl rfl
    · exact .inr rfl
    · rcases hp with hp | hp <;> exact absurd hp (by decide)
  exact .inl ((Set.ncard_le_ncard h (Set.toFinite _)).trans_lt
    ((Set.ncard_insert_le _ _).trans_lt (by rw [Set.ncard_singleton]; decide)))

/-- The items of the builder and of the reviewer that they have signed, each with its Ed25519
signature. -/
def pairSignatures : List (EvidenceItem × Signature) :=
  [(.compilerBuild, Block.ofBytes 64
      (be 32 0x25d941eee9c226c3660b79f845de2ee55924b4021103fe1d352827766e1b8629
        ++ be 32 0x9df823ab2c10bb02d147fc3f6da54223973ca50f2c6c092f82108c5fb2185a03)),
    (.independentReview, Block.ofBytes 64
      (be 32 0xf2fe1dacb82d677307a37688ff0b55a00f82e5d9501930a69d456f87579f7fc9
        ++ be 32 0x9c87d91cc7dbdafd7ed9f9e4327f73e255702ce26fb7c67c39a72fed49707409))]

/-- No other signature is good. -/
def pairSigned : VerifyDetached := fun sig m key =>
  pairSignatures.any fun x => decide (key = (trioClaims x.1).issuer ∧ sig = x.2
    ∧ m = be 2 domain.length ++ domain ++ encode (trioClaims x.1))

/-- The signature that is handed in for an item. -/
def pairSignature (i : EvidenceItem) : Signature :=
  ((pairSignatures.find? fun x => x.1 = i).map (·.2)).getD (Block.zero 64)

/-- What the builder and the reviewer have signed is denied. -/
theorem three_parties_pair :
    (verify pairSigned true trio (fun i => encode (trioClaims i)) pairSignature 15).2
      = .denied := by
  refine (three_parties.2 pair (fun i key h => ?_) narrow_pair).2
  unfold authentic at h
  split at h
  · cases h
  split at h
  · cases h
  split at h
  · rename_i hk
    simp only [pairSigned, pairSignatures, List.any_cons, List.any_nil, Bool.or_false,
      Bool.or_eq_true, decide_eq_true_eq] at hk
    rcases hk with ⟨hk, -⟩ | ⟨hk, -⟩
    · exact .inl hk
    · exact .inr hk
  · cases h

end NiayanAssurance.Qualification
