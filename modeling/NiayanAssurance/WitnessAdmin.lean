import NiayanAssurance.RequestAdmin
import NiayanAssurance.GateCheck

/-!
The statements of the observers: a specification is read, its frame is signed, and what is handed
over is the frame with its signature.

A phase that goes on rests on what observers have stated about it.
-/

namespace NiayanAssurance.WitnessAdmin

open NiayanAssurance.Lib NiayanAssurance.Types NiayanAssurance.Requests
open NiayanAssurance.Ingress NiayanAssurance.SitePolicy NiayanAssurance.SpecFile
open NiayanAssurance.RequestAdmin (Sign)
open NiayanAssurance.Gate hiding Operation
open NiayanAssurance.GateCheck

def witnessKeys : List Bytes :=
  [word "kind", word "cluster", word "node", word "root", word "transaction", word "boot",
    word "plan", word "contract", word "epoch", word "fence", word "issued-ms", word "expires-ms"]

/-- The fact with this number. Whatever is wrong with the number is an `Invalid_Input`. -/
def readKind (text : Bytes) : Except Outcome Fact :=
  match numberValue text with
  | .error _ => .error .invalidInput
  | .ok n =>
    match Fact.val n with
    | none => .error .invalidInput
    | some f => .ok f

/-- What `sign-witness` reads of the properties. -/
def readFields (d : Properties.Document) : Except Outcome Statement := do
  let cluster ← field 16 d (word "cluster")
  let node ← field 16 d (word "node")
  let root ← field 16 d (word "root")
  let transaction ← field 16 d (word "transaction")
  let boot ← field 16 d (word "boot")
  let plan ← field 32 d (word "plan")
  let contract ← field 32 d (word "contract")
  let epoch ← number d (word "epoch")
  let fence ← number d (word "fence")
  let issued ← number d (word "issued-ms")
  let expires ← number d (word "expires-ms")
  let text ← value d (word "kind")
  let kind ← readKind text
  return {
    kind := kind, clusterId := cluster, nodeId := node, rootId := root
    transactionId := transaction, bootId := boot, plan := plan, contract := contract
    epoch := epoch, token := fence, issued := issued, expires := expires }

/-- "MC-WITNESS-v2". -/
def witnessDomain : Bytes :=
  [0x4D, 0x43, 0x2D, 0x57, 0x49, 0x54, 0x4E, 0x45, 0x53, 0x53, 0x2D, 0x76, 0x32]

/-- What an observer signs. -/
def signedBytes (t : Statement) : Bytes :=
  be 2 witnessDomain.length ++ witnessDomain ++ Witness.encode t

/-- The fact that `sign-witness` writes about, and its file. -/
def makeWitness (sign : Sign) (data : Bytes) : Except Outcome (Fact × Bytes) := do
  let d ← loadSpec data witnessKeys
  let t ← readFields d
  let _ ← Witness.decode (Witness.encode t)
  let sig ← handed (sign (signedBytes t))
  return (t.kind, Witness.encode t ++ sig.bytes)

/-- The properties of a statement. -/
def statementPairs (t : Statement) : List (Bytes × Bytes) :=
  [(word "kind", Numbers.numeral t.kind.pos), (word "cluster", hexText t.clusterId.bytes),
    (word "node", hexText t.nodeId.bytes), (word "root", hexText t.rootId.bytes),
    (word "transaction", hexText t.transactionId.bytes), (word "boot", hexText t.bootId.bytes),
    (word "plan", hexText t.plan.bytes), (word "contract", hexText t.contract.bytes),
    (word "epoch", Numbers.numeral t.epoch), (word "fence", Numbers.numeral t.token),
    (word "issued-ms", Numbers.numeral t.issued), (word "expires-ms", Numbers.numeral t.expires)]

/-- The file lists the properties of the statement, in any order. -/
def Stated (data : Bytes) (t : Statement) : Prop :=
  ∃ pairs, Properties.IsFile data pairs ∧ pairs.Perm (statementPairs t)

section Read

variable {d : Properties.Document} {data text b : Bytes} {t : Statement} {f : Fact} {sign : Sign}

lemma listed_witnessKeys : Listed witnessKeys := ⟨by decide +kernel, by decide +kernel, by decide⟩

lemma keys_statementPairs : (statementPairs t).map Prod.fst = witnessKeys := rfl

lemma fact_val_iff {n : ℕ} : Fact.val n = some f ↔ n = f.pos :=
  ⟨fun h => (Layouts.fact_val h).symm, by rintro rfl; cases f <;> rfl⟩

lemma counter_pos (f : Fact) : ((Counter.ofNat f.pos : Counter) : ℕ) = f.pos := by
  cases f <;> rfl

lemma readKind_ok : readKind text = .ok f ↔ text = Numbers.numeral f.pos := by
  unfold readKind
  constructor
  · intro h
    split at h
    · cases h
    rename_i n hn
    split at h
    · cases h
    rename_i f' hf
    cases h
    rw [numberValue_ok.1 hn, fact_val_iff.1 hf]
  · rintro rfl
    have hn : numberValue (Numbers.numeral f.pos) = .ok (Counter.ofNat f.pos) :=
      numberValue_ok.2 (by rw [counter_pos])
    rw [hn]
    dsimp only
    rw [fact_val_iff.2 (counter_pos f)]

lemma readFields_ok (hd : d.keys.Nodup) :
    readFields d = .ok t ↔ ∀ x ∈ statementPairs t, x ∈ d.pairs := by
  simp only [readFields, bind_ok, pure_ok, field_ok hd, number_ok hd, value_ok hd, readKind_ok]
  constructor
  · rintro ⟨cluster, h1, node, h2, root, h3, transaction, h4, boot, h5, plan, h6, contract, h7,
      epoch, h8, fence, h9, issued, h10, expires, h11, text, h12, kind, rfl, rfl⟩
    simp only [statementPairs, List.forall_mem_cons]
    exact ⟨h12, h1, h2, h3, h4, h5, h6, h7, h8, h9, h10, h11, by simp⟩
  · intro h
    simp only [statementPairs, List.forall_mem_cons] at h
    obtain ⟨h12, h1, h2, h3, h4, h5, h6, h7, h8, h9, h10, h11, -⟩ := h
    exact ⟨_, h1, _, h2, _, h3, _, h4, _, h5, _, h6, _, h7, _, h8, _, h9, _, h10, _, h11, _, h12,
      _, rfl, rfl⟩

/-- **What is signed** is the statement that the file lists. -/
theorem makeWitness_ok : makeWitness sign data = .ok (f, b) ↔ ∃ t sig, Stated data t
    ∧ sign (signedBytes t) = (sig, .ok) ∧ f = t.kind ∧ b = Witness.encode t ++ sig.bytes := by
  unfold makeWitness
  simp only [bind_ok, loadSpec_ok listed_witnessKeys, pure_ok, handed_ok, Prod.mk.injEq]
  constructor
  · rintro ⟨d, ⟨h1, h2⟩, t, h3, -, -, sig, h4, rfl, h5⟩
    have hm := (readFields_ok (h2.nodup_iff.1 listed_witnessKeys.nodup)).1 h3
    exact ⟨t, sig, ⟨d.pairs, h1, (pairs_perm (l := statementPairs t) h2
      listed_witnessKeys.nodup).2 hm⟩, h4, rfl, h5.symm⟩
  · rintro ⟨t, sig, ⟨pairs, h1, h2⟩, h3, rfl, h4⟩
    obtain ⟨d, rfl, -⟩ := document_of h1
    have hk : witnessKeys.Perm d.keys := by
      rw [Properties.keys_eq]
      exact (h2.map Prod.fst).symm
    exact ⟨d, ⟨h1, hk⟩, t, (readFields_ok (hk.nodup_iff.1 listed_witnessKeys.nodup)).2
      fun x hx => h2.mem_iff.2 hx, t, Layouts.statement_decode_encode t, sig, h3, rfl, h4.symm⟩

/-- **A statement can be specified.** -/
theorem stated_lines (t : Statement) : Stated (Properties.lines (statementPairs t)) t := by
  refine ⟨_, isFile_lines listed_witnessKeys keys_statementPairs ?_, .refl _⟩
  have h16 : ∀ b : Identity, Writable (hexText b.bytes) := fun b =>
    writable_hex b (by decide) (by decide)
  have h32 : ∀ b : Digest, Writable (hexText b.bytes) := fun b =>
    writable_hex b (by decide) (by decide)
  have hn := writable_numeral
  have hk : Writable (Numbers.numeral t.kind.pos) := counter_pos t.kind ▸ hn _
  simp only [statementPairs, List.forall_mem_cons]
  exact ⟨hk, h16 _, h16 _, h16 _, h16 _, h16 _, h32 _, h32 _, hn _, hn _, hn _, hn _, by simp⟩

end Read

/-! ### From the observer to the gate -/

/-- The witnesses, with one more that was handed in. -/
def handIn (w : WitnessSet) (x : Fact × Bytes) : WitnessSet where
  present := Function.update w.present x.1 true
  statements := Function.update w.statements x.1 (Block.ofBytes 224 (range x.2 1 224))
  signatures := Function.update w.signatures x.1 (Block.ofBytes 64 (range x.2 225 288))

/-- What a session asks of a statement of `f`. -/
def expected (s : Session) (f : Fact) : Statement where
  kind := f
  clusterId := s.header.clusterId
  nodeId := s.header.nodeId
  rootId := s.policy.rootId
  transactionId := s.content.transactionId
  bootId := s.header.bootId
  plan := s.content.planDigest
  contract := s.policy.contract
  epoch := s.header.membershipEpoch
  token := s.header.fenceToken

/-- The statement is about the session, and it is fresh. -/
def About (s : Session) (now : Counter) (f : Fact) (t : Statement) : Prop :=
  Witness.Matches t (expected s f) now s.policy.maximumWitnessAge

section Witnessed

variable {good : VerifyDetached} {sodium : Bool} {s : Session} {w : WitnessSet} {now : Counter}
  {f : Fact} {t : Statement} {sign : Sign} {data : Bytes} {receipt : Digest}

lemma authentic_ok {sig : Signature} {key : PublicKey} :
    authentic good sodium witnessDomain (Witness.encode t) sig key = .ok
      ↔ sodium = true ∧ good sig (signedBytes t) key = true := by
  have hl : (Witness.encode t).length = 224 := by
    simp [Witness.encode, pad, Witness.magic]
  unfold authentic
  rw [if_neg (by simp [witnessDomain, hl]), ← signedBytes]
  cases sodium <;> simp

lemma witnessed_iff : Witnessed good sodium s now f t ↔ s.witnesses.present f = true
    ∧ Witness.encode t = (s.witnesses.statements f).bytes ∧ sodium = true
    ∧ good (s.witnesses.signatures f) (signedBytes t) (s.policy.observers f) = true
    ∧ About s now f t := by
  constructor
  · rintro ⟨h1, h2, h3, h4, ⟨h5, h6, h7⟩, ⟨h8, h9, h10⟩, h11, ⟨h12, h13⟩, h14, h15, h16⟩
    rw [← h3] at h2
    obtain ⟨h17, h18⟩ := authentic_ok.1 h2
    exact ⟨h1, h3, h17, h18, h4, h5, h6, h7, h8, h11, h9, h10, h12, h13, h14, h15, h16⟩
  · rintro ⟨h1, h3, h17, h18, h4, h5, h6, h7, h8, h11, h9, h10, h12, h13, h14, h15, h16⟩
    refine ⟨h1, ?_, h3, h4, ⟨h5, h6, h7⟩, ⟨h8, h9, h10⟩, h11, ⟨h12, h13⟩, h14, h15, h16⟩
    rw [← h3]
    exact authentic_ok.2 ⟨h17, h18⟩

/-- The parts of what is handed in. -/
lemma witness_parts (t : Statement) (sig : Signature) :
    [range (Witness.encode t ++ sig.bytes) 1 224, range (Witness.encode t ++ sig.bytes) 225 288]
      = [Witness.encode t, sig.bytes] := by
  have hl : (Witness.encode t).length = 224 := by
    simp [Witness.encode, pad, Witness.magic]
  rw [show Witness.encode t ++ sig.bytes = [Witness.encode t, sig.bytes].flatten by simp]
  exact cut_flatten (w := [224, 64]) (by simp [hl])

/-- What is found of a statement that was handed in. -/
lemma witnessed_handIn {sig : Signature} {t' : Statement} :
    Witnessed good sodium { s with witnesses := handIn w (f, Witness.encode t ++ sig.bytes) } now f
      t' ↔ t' = t ∧ sodium = true ∧ good sig (signedBytes t) (s.policy.observers f) = true
        ∧ About s now f t := by
  have hp := witness_parts t sig
  simp only [List.cons.injEq, and_true] at hp
  have hl : (Witness.encode t).length = 224 := by
    simp [Witness.encode, pad, Witness.magic]
  rw [witnessed_iff]
  simp only [handIn, Function.update_self, hp.1, hp.2, Block.ofBytes_bytes, true_and,
    Block.bytes_ofBytes hl]
  constructor
  · rintro ⟨h1, h2, h3, h4⟩
    have h5 := Layouts.statement_decode_encode t'
    rw [h1, Layouts.statement_decode_encode t] at h5
    cases Except.ok.inj h5
    exact ⟨rfl, h2, h3, h4⟩
  · rintro ⟨rfl, h2, h3, h4⟩
    exact ⟨rfl, h2, h3, h4⟩

/-- **From a file to a witness.** What `sign-witness` makes of a file is taken for a fact just if
the file lists a statement of it that is about the session and fresh, and that is signed with the
key of the observer of the fact. -/
theorem attested_iff : (∃ b, makeWitness sign data = .ok (f, b) ∧ requireFact good sodium
      (handIn w (f, b)) s.policy s.header s.content f now receipt = .ok)
    ↔ sodium = true ∧ ∃ t, Stated data t ∧ About s now f t
      ∧ (∃ sig, sign (signedBytes t) = (sig, .ok)
        ∧ good sig (signedBytes t) (s.policy.observers f) = true)
      ∧ (receipt ≠ zeroDigest → Sha256.hash (Witness.encode t) = receipt) := by
  have hiff : ∀ b, requireFact good sodium (handIn w (f, b)) s.policy s.header s.content f now
      receipt = .ok ↔ ∃ t, Witnessed good sodium { s with witnesses := handIn w (f, b) } now f t
        ∧ (receipt ≠ zeroDigest → Sha256.hash (Witness.encode t) = receipt) := fun b =>
    requireFact_ok_iff (s := { s with witnesses := handIn w (f, b) }) f receipt
  simp only [hiff, makeWitness_ok]
  constructor
  · rintro ⟨b, ⟨t, sig, h3, h4, h5, h6⟩, t', h7, h8⟩
    rw [h6, witnessed_handIn] at h7
    obtain ⟨rfl, h9, h10, h11⟩ := h7
    exact ⟨h9, t', h3, h11, ⟨sig, h4, h10⟩, h8⟩
  · rintro ⟨h1, t, h2, h3, ⟨sig, h4, h5⟩, h6⟩
    exact ⟨_, ⟨t, sig, h2, h4, h3.1.symm, rfl⟩, t, witnessed_handIn.2 ⟨rfl, h1, h5, h3⟩, h6⟩

end Witnessed

/-! ### What a phase rests on -/

/-- The statements for which a signature is good are those that `sign-witness` has signed, of the
files that the observer with the key has handed to it. -/
def Faithful (good : VerifyDetached) (sign : PublicKey → Sign) (files : PublicKey → List Bytes) :
    Prop :=
  ∀ key sig t, good sig (signedBytes t) key = true →
    ∃ data ∈ files key, ∃ x, makeWitness (sign key) data = .ok x
      ∧ range x.2 1 224 = Witness.encode t

/-- The observer of `f` has stated it, about the session and in time. -/
def Vouched (files : PublicKey → List Bytes) (s : Session) (now : Counter) (f : Fact)
    (t : Statement) : Prop :=
  (∃ data ∈ files (s.policy.observers f), Stated data t) ∧ About s now f t

/-- What observers have stated before a phase goes on. -/
structure Rests (files : PublicKey → List Bytes) (s : Session) (x : Subject) (now : Counter) :
    Prop where
  reservation : ∃ t, Vouched files s now .clusterReservation t
  quiesced : x.phase ∉ unquiesced → ∃ t, Vouched files s now .resourceQuiesced t
  isolation : x.phase = "repair-healing-journal" → ∃ t, Vouched files s now .isolationConfirmed t
  health : x.phase ∈ healthy → ∃ t, Vouched files s now .semanticHealth t
    ∧ Sha256.hash (Witness.encode t) = s.content.evidenceDigest
  restore : s.content.action = .restore → (∃ t, Vouched files s now .resourceQuiesced t)
    ∧ ∃ t, Vouched files s now .dataBackwardCompatible t
      ∧ Sha256.hash (Witness.encode t) = s.content.evidenceDigest

/-- No phase goes on without them. -/
def PhasesRest (good : VerifyDetached) (files : PublicKey → List Bytes) : Prop :=
  ∀ s x host, check good s x host = .ok → Rests files s x host.now

section Phases

variable {good : VerifyDetached} {sign : PublicKey → Sign} {files : PublicKey → List Bytes}
  {sodium : Bool} {s : Session} {now : Counter} {f : Fact} {t : Statement}

lemma vouched_of (hf : Faithful good sign files) (h : Witnessed good sodium s now f t) :
    Vouched files s now f t := by
  obtain ⟨-, -, -, h1, h2⟩ := witnessed_iff.1 h
  obtain ⟨data, hm, ⟨k, b⟩, hx, hr⟩ := hf _ _ _ h1
  obtain ⟨t', sig, hs, -, -, hb⟩ := makeWitness_ok.1 hx
  have hp := witness_parts t' sig
  simp only [List.cons.injEq, and_true] at hp
  rw [hb, hp.1] at hr
  have h5 := Layouts.statement_decode_encode t'
  rw [hr, Layouts.statement_decode_encode t] at h5
  cases Except.ok.inj h5
  exact ⟨⟨data, hm, hs⟩, h2⟩

/-- **A phase goes on at the word of the observers only**: whatever the session, the caller and the
witnesses are, the facts that the phase asks for were handed to `sign-witness` by the observers of
these facts, about this session and in time. -/
theorem phases_rest (hf : Faithful good sign files) : PhasesRest good files := by
  intro s x host h
  obtain ⟨-, hp, -, h4⟩ := (check_ok_iff good s x host).1 h
  rw [factsStatus_ok_iff _ ((phaseStatus_ok_iff _ _).1 hp)] at h4
  simp only [requireFact_ok_iff] at h4
  obtain ⟨h5, h6, h7, h8, h9⟩ := h4
  have plain : ∀ {f receipt}, (∃ t, Witnessed good host.sodium s host.now f t
      ∧ (receipt ≠ zeroDigest → Sha256.hash (Witness.encode t) = receipt)) →
      ∃ t, Vouched files s host.now f t
        ∧ (receipt ≠ zeroDigest → Sha256.hash (Witness.encode t) = receipt) := fun ⟨t, h1, h2⟩ =>
    ⟨t, vouched_of hf h1, h2⟩
  refine ⟨(plain h5).imp fun _ h => h.1, fun h => (plain (h9 h)).imp fun _ h => h.1,
    fun h => (plain (h8 h)).imp fun _ h => h.1, fun h => ?_, fun h => ?_⟩
  · obtain ⟨he, -, hw⟩ := h7 h
    exact (plain hw).imp fun _ h => ⟨h.1, h.2 he⟩
  · obtain ⟨he, -, hq, hw⟩ := h6 h
    exact ⟨(plain hq).imp fun _ h => h.1, (plain hw).imp fun _ h => ⟨h.1, h.2 he⟩⟩

end Phases

/-! ### Observers of a site -/

/-- The files of an observer: one statement of its fact. -/
def observedFiles (key : PublicKey) : List Bytes :=
  (Fact.all.filter fun f => observerKey f = key).map fun f =>
    Properties.lines (statementPairs (statement f))

def observerSign (key : PublicKey) : Sign := fun m =>
  match Fact.all.find? fun f => observerKey f = key ∧ signedBytes (statement f) = m with
  | some f => (observerSignature f, .ok)
  | none => (Block.zero 64, .denied)

lemma faithful_observed : Faithful observed observerSign observedFiles := by
  intro key sig t hg
  obtain ⟨f, hf, hm⟩ := List.any_eq_true.1 hg
  obtain ⟨rfl, -, hm⟩ := of_decide_eq_true hm
  have hp := witness_parts (statement f) (observerSignature f)
  simp only [List.cons.injEq, and_true] at hp
  have hs : observerSign (observerKey f) (signedBytes (statement f))
      = (observerSignature f, .ok) := by
    cases f <;> decide +kernel
  exact ⟨_, List.mem_map.2 ⟨f, List.mem_filter.2 ⟨hf, decide_eq_true rfl⟩, rfl⟩,
    (f, Witness.encode (statement f) ++ _),
    makeWitness_ok.2 ⟨statement f, observerSignature f, stated_lines _, hs, rfl, rfl⟩,
    hp.1.trans (List.append_cancel_left hm).symm⟩

/-- A restore goes on, at the word of the observers. -/
theorem phases_rest_observed :
    check observed restoring restore restoreHost = .ok ∧ PhasesRest observed observedFiles :=
  ⟨by decide +kernel, phases_rest faithful_observed⟩

end NiayanAssurance.WitnessAdmin
