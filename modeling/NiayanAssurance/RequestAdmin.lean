import NiayanAssurance.SpecFile
import NiayanAssurance.Layouts

/-!
How requests are made: a specification is read and checked, the header is signed, and what is
handed over is the header, the body and the signature.

The key is not part of the model: a parameter tells what `MC_Keys.Sign` answers for a message.
-/

namespace NiayanAssurance.RequestAdmin

open NiayanAssurance.Lib NiayanAssurance.Types NiayanAssurance.Protocol
open NiayanAssurance.Requests NiayanAssurance.SitePolicy NiayanAssurance.SpecFile
open NiayanAssurance.Ingress NiayanAssurance.Replay NiayanAssurance.Layouts

/-- `MC_Keys.Sign` with the key of a directory. -/
abbrev Sign := Bytes → Signature × Outcome

/-! ### Requests -/

def requestKeys : List Bytes :=
  [word "action", word "request", word "cluster", word "node", word "resource", word "boot",
    word "epoch", word "fence", word "sequence", word "deadline-ms", word "transaction",
    word "plan", word "contract", word "policy-serial", word "base-generation", word "stage-set",
    word "evidence"]

def readAction (text : Bytes) : Except Outcome RequestedAction :=
  match actions.find? (actionName · = text) with
  | none => .error .invalidInput
  | some a => .ok a

/-- The header that is sent with the body `r`. -/
def headed (h : Header) (r : Request) : Header :=
  { h with
    kind := headerKind r.action, bodyLength := 192, bodyDigest := Sha256.hash (Requests.encode r) }

/-- What `make-request` reads of the properties. -/
def readFields (d : Properties.Document) : Except Outcome (Header × Request) := do
  let request ← field 16 d (word "request")
  let cluster ← field 16 d (word "cluster")
  let node ← field 16 d (word "node")
  let resource ← field 16 d (word "resource")
  let boot ← field 16 d (word "boot")
  let epoch ← number d (word "epoch")
  let fence ← number d (word "fence")
  let sequence ← number d (word "sequence")
  let deadline ← number d (word "deadline-ms")
  let transaction ← field 16 d (word "transaction")
  let plan ← field 32 d (word "plan")
  let contract ← field 32 d (word "contract")
  let serial ← number d (word "policy-serial")
  let base ← number d (word "base-generation")
  let stageSet ← field 32 d (word "stage-set")
  let evidence ← field 32 d (word "evidence")
  let text ← value d (word "action")
  let action ← readAction text
  let r : Request :=
    { action := action, transactionId := transaction, planDigest := plan
      contractDigest := contract, expectedRevision := serial, baseGeneration := base
      stageSetDigest := stageSet, evidenceDigest := evidence }
  return (headed
    { requestId := request, clusterId := cluster, nodeId := node, resourceId := resource
      membershipEpoch := epoch, fenceToken := fence, sequenceNumber := sequence
      deadline := deadline, bootId := boot } r, r)

/-- The envelope that `make-request` writes. -/
def makeRequest (sign : Sign) (data : Bytes) : Except Outcome Bytes := do
  let d ← loadSpec data requestKeys
  let x ← readFields d
  if ¬ ValidIdentity x.1 then .error .invalidInput
  else
    let _ ← Requests.decode (Requests.encode x.2)
    let sig ← handed (sign (domain ++ Protocol.encode x.1))
    return Protocol.encode x.1 ++ Requests.encode x.2 ++ sig.bytes

/-- The properties of a request. -/
def requestPairs (h : Header) (r : Request) : List (Bytes × Bytes) :=
  [(word "action", actionName r.action), (word "request", hexText h.requestId.bytes),
    (word "cluster", hexText h.clusterId.bytes), (word "node", hexText h.nodeId.bytes),
    (word "resource", hexText h.resourceId.bytes), (word "boot", hexText h.bootId.bytes),
    (word "epoch", Numbers.numeral h.membershipEpoch),
    (word "fence", Numbers.numeral h.fenceToken),
    (word "sequence", Numbers.numeral h.sequenceNumber),
    (word "deadline-ms", Numbers.numeral h.deadline),
    (word "transaction", hexText r.transactionId.bytes),
    (word "plan", hexText r.planDigest.bytes), (word "contract", hexText r.contractDigest.bytes),
    (word "policy-serial", Numbers.numeral r.expectedRevision),
    (word "base-generation", Numbers.numeral r.baseGeneration),
    (word "stage-set", hexText r.stageSetDigest.bytes),
    (word "evidence", hexText r.evidenceDigest.bytes)]

/-- `h` is the header of the version in force that is sent with the body `r`. -/
def Bound (h : Header) (r : Request) : Prop := Header.Current h ∧ HeaderBinds h r

/-- The file lists the properties of the request, in any order. -/
structure Specified (data : Bytes) (h : Header) (r : Request) : Prop where
  file : ∃ pairs, Properties.IsFile data pairs ∧ pairs.Perm (requestPairs h r)
  bound : Bound h r
  admissible : Request.Admissible r

section Read

variable {d : Properties.Document} {data e : Bytes} {sign : Sign} {h : Header} {r : Request}

/-- A body that is read again is that of an admissible request. -/
lemma decode_encode_ok {q : Request} : Requests.decode (Requests.encode r) = .ok q ↔
    Request.Admissible r ∧ q = r := by
  obtain ⟨hf, he⟩ := request_frame r
  constructor
  · intro h
    obtain ⟨a, ha, rfl, hq⟩ := request_decode_iff.1 h
    obtain rfl : a = r.action := Option.some.inj (ha.action.symm.trans hf.action)
    rw [he] at hq ⊢
    exact ⟨hq, rfl⟩
  · rintro ⟨hr, rfl⟩
    exact request_decode_iff.2 ⟨_, hf, he.symm, hr⟩

lemma listed_requestKeys : Listed requestKeys := ⟨by decide +kernel, by decide +kernel, by decide⟩

lemma keys_requestPairs : (requestPairs h r).map Prod.fst = requestKeys := rfl

lemma readAction_ok {text : Bytes} {a : RequestedAction} :
    readAction text = .ok a ↔ text = actionName a := by
  rw [← find_action]
  unfold readAction
  split
  · rename_i h
    simp [h]
  · rename_i b h
    rw [h, Except.ok.injEq, Option.some.injEq]

lemma headerKind_eq (a : RequestedAction) : headerKind a = expected a := by cases a <;> rfl

lemma headed_bound (hc : Header.Current h) : Bound (headed h r) r := by
  refine ⟨hc, headerKind_eq r.action, ?_, rfl⟩
  show ((192 : Fin (maxMessage + 1)) : ℕ) = 192
  rfl

/-- A header is bound to its body in one way. -/
lemma Bound.headed_eq (hb : Bound h r) : headed h r = h := by
  obtain ⟨-, h1, h2, h3⟩ := hb
  have h4 : (192 : Fin (maxMessage + 1)) = h.bodyLength := Fin.ext h2.symm
  rw [headed, headerKind_eq, ← h1, h4, ← h3]

lemma readFields_ok (hd : d.keys.Nodup) : readFields d = .ok (h, r) ↔
    Bound h r ∧ ∀ x ∈ requestPairs h r, x ∈ d.pairs := by
  simp only [readFields, bind_ok, pure_ok, field_ok hd, number_ok hd, value_ok hd, readAction_ok,
    Prod.mk.injEq]
  constructor
  · rintro ⟨request, h1, cluster, h2, node, h3, resource, h4, boot, h5, epoch, h6, fence, h7,
      sequence, h8, deadline, h9, transaction, h10, plan, h11, contract, h12, serial, h13, base,
      h14, stageSet, h15, evidence, h16, text, h17, action, rfl, rfl, rfl⟩
    refine ⟨headed_bound ⟨rfl, rfl⟩, ?_⟩
    simp only [requestPairs, List.forall_mem_cons]
    exact ⟨h17, h1, h2, h3, h4, h5, h6, h7, h8, h9, h10, h11, h12, h13, h14, h15, h16, by simp⟩
  · rintro ⟨hb, h⟩
    simp only [requestPairs, List.forall_mem_cons] at h
    obtain ⟨h17, h1, h2, h3, h4, h5, h6, h7, h8, h9, h10, h11, h12, h13, h14, h15, h16, -⟩ := h
    refine ⟨_, h1, _, h2, _, h3, _, h4, _, h5, _, h6, _, h7, _, h8, _, h9, _, h10, _, h11, _, h12,
      _, h13, _, h14, _, h15, _, h16, _, h17, _, rfl, ?_, rfl⟩
    obtain ⟨⟨h18, h19⟩, -⟩ := id hb
    refine Eq.trans ?_ hb.headed_eq
    unfold headed
    congr 1 <;> simp [h18, h19]

/-- **A request can be specified.** -/
theorem specified_lines (hb : Bound h r) (ha : Request.Admissible r) :
    Specified (Properties.lines (requestPairs h r)) h r := by
  refine ⟨⟨_, isFile_lines listed_requestKeys keys_requestPairs ?_, .refl _⟩, hb, ha⟩
  have h16 : ∀ b : Identity, Writable (hexText b.bytes) := fun b =>
    writable_hex b (by decide) (by decide)
  have h32 : ∀ b : Digest, Writable (hexText b.bytes) := fun b =>
    writable_hex b (by decide) (by decide)
  have hn := writable_numeral
  simp only [requestPairs, List.forall_mem_cons]
  exact ⟨writable_name _, h16 _, h16 _, h16 _, h16 _, h16 _, hn _, hn _, hn _, hn _, h16 _, h32 _,
    h32 _, hn _, hn _, h32 _, h32 _, by simp⟩

theorem makeRequest_ok : makeRequest sign data = .ok e ↔ ∃ h r sig, Specified data h r
    ∧ ValidIdentity h ∧ sign (domain ++ Protocol.encode h) = (sig, .ok)
    ∧ e = Protocol.encode h ++ Requests.encode r ++ sig.bytes := by
  unfold makeRequest
  simp only [bind_ok, loadSpec_ok listed_requestKeys]
  constructor
  · rintro ⟨d, ⟨h1, h2⟩, ⟨h, r⟩, h3, h4⟩
    obtain ⟨hb, hm⟩ := (readFields_ok (h2.nodup_iff.1 listed_requestKeys.nodup)).1 h3
    split_ifs at h4 with hv
    obtain ⟨q, h5, h6⟩ := bind_ok.1 h4
    obtain ⟨sig, h7, h8⟩ := bind_ok.1 h6
    refine ⟨h, r, sig, ⟨⟨d.pairs, h1, (pairs_perm (l := requestPairs h r) h2
      listed_requestKeys.nodup).2 hm⟩, hb, (decode_encode_ok.1 h5).1⟩, hv, handed_ok.1 h7,
      (pure_ok.1 h8).symm⟩
  · rintro ⟨h, r, sig, ⟨⟨pairs, h1, h2⟩, hb, ha⟩, hv, hs, he⟩
    obtain ⟨d, rfl, -⟩ := document_of h1
    have hk : requestKeys.Perm d.keys := by
      rw [Properties.keys_eq]
      exact (h2.map Prod.fst).symm
    refine ⟨d, ⟨h1, hk⟩, (h, r), (readFields_ok (hk.nodup_iff.1 listed_requestKeys.nodup)).2
      ⟨hb, fun x hx => h2.mem_iff.2 hx⟩, ?_⟩
    rw [if_neg (not_not.2 hv)]
    exact bind_ok.2 ⟨r, decode_encode_ok.2 ⟨ha, rfl⟩,
      bind_ok.2 ⟨sig, handed_ok.2 hs, pure_ok.2 he.symm⟩⟩

end Read

/-! ### From the operator to the node -/

/-- What a node makes of an envelope that is handed to it. -/
def received (good : VerifyDetached) (e : Bytes) (key : PublicKey) (scope : Scope)
    (contract : Digest) (now : Counter) (previous : Window) : Except Outcome Checked :=
  checkRequest good true (range e 1 160) (range e 161 352) (Block.ofBytes 64 (range e 353 416)) key
    scope contract now previous

section Received

variable {good : VerifyDetached} {rawHeader bodyData data e : Bytes} {sig : Signature}
  {key : PublicKey} {scope : Scope} {contract : Digest} {now : Counter} {previous : Window}
  {c : Checked} {sign : Sign} {h : Header} {r : Request}

/-- An authorized request is compared with the window. -/
lemma checkRequest_eq
    (ha : Authorized good rawHeader bodyData sig key scope contract now h r) :
    checkRequest good true rawHeader bodyData sig key scope contract now previous
      = if check previous (windowOf h rawHeader) = .fresh
          ∨ check previous (windowOf h rawHeader) = .exactRetry then
          .ok ⟨(recordRequest previous (windowOf h rawHeader)).1, r,
            check previous (windowOf h rawHeader)⟩
        else .error .denied := by
  obtain ⟨h1, h2, h3, h4, h5, h6, h7, h8, h9, h10, h11⟩ := ha
  by_cases hw : check previous (windowOf h rawHeader) = .fresh
      ∨ check previous (windowOf h rawHeader) = .exactRetry <;>
    simp [checkRequest, verify, h1, h2, h3, h4, h5, h6, h7, h8, h9, h10, h11, recordRequest, hw]

/-- What is checked, with the library at hand. -/
lemma checkRequest_iff :
    checkRequest good true rawHeader bodyData sig key scope contract now previous = .ok c ↔
      ∃ h r, Authorized good rawHeader bodyData sig key scope contract now h r
        ∧ (check previous (windowOf h rawHeader) = .fresh
          ∨ check previous (windowOf h rawHeader) = .exactRetry)
        ∧ c = ⟨(recordRequest previous (windowOf h rawHeader)).1, r,
          check previous (windowOf h rawHeader)⟩ := by
  constructor
  · intro hc
    obtain ⟨h, ha, h1, h2⟩ := checkRequest_ok hc
    rw [checkRequest_eq ha, if_pos (h1 ▸ h2)] at hc
    exact ⟨h, c.request, ha, h1 ▸ h2, (Except.ok.inj hc).symm⟩
  · rintro ⟨h, r, ha, hw, rfl⟩
    rw [checkRequest_eq ha, if_pos hw]

/-- The parts of an envelope. -/
lemma envelope_parts (h : Header) (r : Request) (sig : Signature) :
    [range (Protocol.encode h ++ Requests.encode r ++ sig.bytes) 1 160,
      range (Protocol.encode h ++ Requests.encode r ++ sig.bytes) 161 352,
      range (Protocol.encode h ++ Requests.encode r ++ sig.bytes) 353 416]
    = [Protocol.encode h, Requests.encode r, sig.bytes] := by
  have h1 : (Protocol.encode h).length = 160 := by simp [Protocol.encode, Protocol.magic]
  have h2 : (Requests.encode r).length = 192 := (request_frame r).1.length
  rw [show Protocol.encode h ++ Requests.encode r ++ sig.bytes
    = [Protocol.encode h, Requests.encode r, sig.bytes].flatten by simp]
  exact cut_flatten (w := [160, 192, 64]) (by simp [h1, h2])

lemma received_envelope :
    received good (Protocol.encode h ++ Requests.encode r ++ sig.bytes) key scope contract now
      previous = checkRequest good true (Protocol.encode h) (Requests.encode r) sig key scope
        contract now previous := by
  have hp := envelope_parts h r sig
  simp only [List.cons.injEq, and_true] at hp
  rw [received, hp.1, hp.2.1, hp.2.2, Block.ofBytes_bytes]

/-- An operator and a node: the request is admitted as it was specified. -/
structure Delivered (good : VerifyDetached) (sign : Sign) (data : Bytes) (key : PublicKey)
    (scope : Scope) (contract : Digest) (now : Counter) (previous : Window) (h : Header)
    (r : Request) : Prop where
  specified : Specified data h r
  signed : ∃ sig, sign (domain ++ Protocol.encode h) = (sig, .ok)
    ∧ good sig (domain ++ Protocol.encode h) key = true
  trusted : key ≠ Block.zero 32
  within : WithinScope h scope now
  contract : r.contractDigest = contract
  next : check previous (windowOf h (Protocol.encode h)) = .fresh
    ∨ check previous (windowOf h (Protocol.encode h)) = .exactRetry

/-- **From a file to an admission.** What `make-request` makes of a file is admitted by a node just
if the file lists the properties of a request that is in the scope of the node, of its contract,
signed with the key it trusts, and next in its window; and it is admitted as that request. -/
theorem delivered_iff :
    (∃ e, makeRequest sign data = .ok e ∧ received good e key scope contract now previous = .ok c)
      ↔ ∃ h r, Delivered good sign data key scope contract now previous h r
        ∧ c = ⟨(recordRequest previous (windowOf h (Protocol.encode h))).1, r,
          check previous (windowOf h (Protocol.encode h))⟩ := by
  constructor
  · rintro ⟨e, h1, h2⟩
    obtain ⟨h, r, sig, hs, hv, hg, he⟩ := makeRequest_ok.1 h1
    rw [he, received_envelope] at h2
    obtain ⟨h', r', ha, hw, rfl⟩ := checkRequest_iff.1 h2
    obtain rfl : h' = h := Except.ok.inj (ha.header.symm.trans (header_decode_encode hs.bound.1))
    obtain rfl : r' = r := (decode_encode_ok.1 ha.request).2
    exact ⟨_, _, ⟨hs, ⟨sig, hg, ha.signed⟩, isZero_false_iff.1 ha.trusted, ha.within,
      ha.sameContract, hw⟩, rfl⟩
  · rintro ⟨h, r, ⟨hs, ⟨sig, hg, hg'⟩, hk, hw, hc, hn⟩, rfl⟩
    refine ⟨_, makeRequest_ok.2 ⟨h, r, sig, hs, hw.1, hg, rfl⟩, ?_⟩
    rw [received_envelope]
    refine checkRequest_iff.2 ⟨h, r, ⟨header_decode_encode hs.bound.1, isZero_false_iff.2 hk, hw.1,
      ?_, hs.bound.2.2.2.symm, hg', hw, decode_encode_ok.2 ⟨hs.admissible, rfl⟩, ?_, hc,
      hs.bound.2⟩, hn, rfl⟩
    · rw [hs.bound.2.2.1]
      exact (request_frame r).1.length
    · rw [← hc]
      exact isZero_false_iff.2 hs.admissible.2.2.1

end Received

end NiayanAssurance.RequestAdmin
