import NiayanAssurance.ControlSubmit
import NiayanAssurance.SpecFile

/-!
How a change of the latch is prepared: a proposal is made of a file and of the state it is to
follow, it is signed, and the signatures are gathered in a bundle.

The keys are not part of the model: a parameter tells what `MC_Keys.Sign` answers for a message.
-/

namespace NiayanAssurance.ControlAdmin

open NiayanAssurance.Lib NiayanAssurance.Types NiayanAssurance.Control
open NiayanAssurance.ControlCodec NiayanAssurance.ControlRuns NiayanAssurance.ControlIo
open NiayanAssurance.SpecFile
open NiayanAssurance.Ingress (VerifyDetached Signature PublicKey)
open NiayanAssurance.SitePolicy (authentic)

/-! ### Proposals -/

/-- What a file asks for. -/
structure Wish where
  scope : Identity
  desired : Mode
  trustEpoch : Counter
  requestId : Identity
  reason : Digest
  recoveryReceipt : Digest
  ttl : Counter

def modeName : Mode → Bytes
  | .running => word "running" | .changesHeld => word "hold" | .quarantined => word "quarantine"

def readMode (text : Bytes) : Except Outcome Mode :=
  if text = word "running" then .ok .running
  else if text = word "hold" then .ok .changesHeld
  else if text = word "quarantine" then .ok .quarantined
  else .error .invalidInput

def proposalKeys : List Bytes :=
  [word "scope", word "mode", word "trust-epoch", word "request-id", word "reason",
    word "recovery-receipt", word "ttl-ms"]

/-- What `make-proposal` reads of the properties. -/
def readWish (d : Properties.Document) : Except Outcome Wish := do
  let scope ← field 16 d (word "scope")
  let trustEpoch ← number d (word "trust-epoch")
  let requestId ← field 16 d (word "request-id")
  let reason ← field 32 d (word "reason")
  let recoveryReceipt ← field 32 d (word "recovery-receipt")
  let ttl ← number d (word "ttl-ms")
  let text ← value d (word "mode")
  let desired ← readMode text
  return { scope, desired, trustEpoch, requestId, reason, recoveryReceipt, ttl }

/-- `Load_Authority`: the authority, and its frame. -/
def loadAuthority (d : Directory Name) (root host : Outcome) : Except Outcome (Authority × Bytes) :=
  if root ≠ .ok then .error root
  else do
    let b ← Atomic.read d .authorities 1024 host
    if b.length ≠ 1024 then .error .corrupt
    else
      let a ← Authority.decode b
      if a.contract ≠ Gate.fingerprint then .error .unsupported else return (a, b)

/-- The proposal that is made of a wish on the state `before`. -/
def Wish.proposal (w : Wish) (contract authorityDigest : Digest) (before : Option State)
    (boot : Identity) (now : Counter) : Proposal where
  scope := w.scope
  bootId := boot
  requestId := w.requestId
  contract := contract
  authorityDigest := authorityDigest
  expectedState := expectedHash before
  reason := w.reason
  recoveryReceipt := w.recoveryReceipt
  expectedRevision := (before.getD {}).revision
  newTrustEpoch := w.trustEpoch
  notBefore := now
  expires := Counter.ofNat (now + w.ttl)
  desired := w.desired

/-- The proposal that `make-proposal` writes. The host answers as it does to a submission, of
which all this is a part. -/
def makeProposal (d : Directory Name) (data : Bytes) (h : SubmitHost) : Except Outcome Bytes := do
  let doc ← loadSpec data proposalKeys
  let w ← readWish doc
  let (a, af) ← loadAuthority d h.root h.authorities.read
  if w.scope ≠ a.scope then .error .denied
  else
    let before ← readBefore d a.scope h
    let boot ← h.boot
    let now ← h.now
    if (w.ttl : ℕ) = 0 ∨ 300000 < (w.ttl : ℕ) ∨ Counter.last - now < w.ttl then
      .error .invalidInput
    else return Proposal.encode (w.proposal a.contract (Sha256.hash af) before boot now)

/-! ### Signatures -/

/-- `MC_Keys.Sign` with the key of a directory: the key, and its signature. -/
abbrev Sign := Bytes → (PublicKey × Signature) × Outcome

/-- What is signed of a proposal. -/
def message (b : Bytes) : Bytes := be 2 domain.length ++ domain ++ b

def signProposal (sign : Sign) (b : Bytes) : Except Outcome (PublicKey × Signature) := do
  let p ← Proposal.decode b
  if p.contract ≠ Gate.fingerprint then .error .unsupported
  else handed (sign (message b))

/-- `sign-proposal`: the signature is a new file, named by the key. -/
def addSignature (files : Directory PublicKey) (sign : Sign) (b : Bytes) (h : Atomic.PlaceHost) :
    Directory PublicKey × Outcome :=
  match signProposal sign b with
  | .error o => (files, o)
  | .ok (key, sig) => Atomic.write files key sig.bytes true h

/-- The signatures that some have made, one after the other. -/
def signatures (b : Bytes) (signs : List Sign) : Directory PublicKey :=
  signs.foldl (fun files sign => (addSignature files sign b {}).1) .empty

/-- What the host answers while signatures are gathered; the files of the signatures are named
by the keys. -/
structure BundleHost where
  root : Outcome := .ok
  authorities : Outcome := .ok
  signatures : Outcome := .ok
  stat : PublicKey → Outcome := fun _ => .ok
  read : PublicKey → Outcome := fun _ => .ok
  sodium : Bool := true

/-- The signature of one signer, which is left at zero where there is no file of it. -/
def gather (good : VerifyDetached) (files : Directory PublicKey) (b : Bytes) (h : BundleHost)
    (k : Signer) : Except Outcome Signature :=
  if h.stat k.publicKey ≠ .ok then .error (h.stat k.publicKey)
  else if files.cached k.publicKey = none then .ok (Block.zero 64)
  else do
    let y ← Atomic.read files k.publicKey 64 (h.read k.publicKey)
    if y.length ≠ 64 then .error .corrupt
    else
      match authentic good h.sodium domain b (Block.ofBytes 64 y) k.publicKey with
      | .ok => .ok (Block.ofBytes 64 y)
      | o => .error o

/-- The signatures one after the other, and zeros after them. -/
def bundled (l : List Signature) : SignatureBundle := Block.ofBytes 512 (l.map Block.bytes).flatten

def bundle (good : VerifyDetached) (d : Directory Name) (files : Directory PublicKey) (b : Bytes)
    (h : BundleHost) : Except Outcome SignatureBundle := do
  let (a, af) ← loadAuthority d h.root h.authorities
  let p ← Proposal.decode b
  if p.scope ≠ a.scope ∨ p.authorityDigest ≠ Sha256.hash af then .error .denied
  else if h.signatures ≠ .ok then .error h.signatures
  else
    let l ← a.keys.mapM (gather good files b h)
    return bundled l

/-! ### What a proposal is made of -/

/-- The properties of a proposal. -/
def wishPairs (w : Wish) : List (Bytes × Bytes) :=
  [(word "scope", hexText w.scope.bytes), (word "mode", modeName w.desired),
    (word "trust-epoch", Numbers.numeral w.trustEpoch),
    (word "request-id", hexText w.requestId.bytes), (word "reason", hexText w.reason.bytes),
    (word "recovery-receipt", hexText w.recoveryReceipt.bytes),
    (word "ttl-ms", Numbers.numeral w.ttl)]

/-- The file lists the properties of the wish, in any order. -/
def Asked (data : Bytes) (w : Wish) : Prop :=
  ∃ pairs, Properties.IsFile data pairs ∧ pairs.Perm (wishPairs w)

/-- The authority is in the directory. -/
structure Installed (d : Directory Name) (a : Authority) : Prop where
  file : d.cached .authorities = some a.encode
  valid : a.Valid
  contract : a.contract = Gate.fingerprint

section Read

variable {d : Directory Name} {doc : Properties.Document} {data b : Bytes} {h : SubmitHost}
  {w : Wish} {a : Authority} {root host : Outcome}

lemma readMode_ok {text : Bytes} {m : Mode} : readMode text = .ok m ↔ text = modeName m := by
  have h1 : word "running" ≠ word "hold" ∧ word "running" ≠ word "quarantine"
      ∧ word "hold" ≠ word "quarantine" := by decide +kernel
  unfold readMode
  constructor
  · intro h
    split_ifs at h with h2 h3 h4 <;> cases h <;> assumption
  · rintro rfl
    cases m with
    | running => rfl
    | changesHeld => rw [modeName, if_neg h1.1.symm, if_pos rfl]
    | quarantined => rw [modeName, if_neg h1.2.1.symm, if_neg h1.2.2.symm, if_pos rfl]

lemma listed_proposalKeys : Listed proposalKeys := ⟨by decide +kernel, by decide +kernel, by decide⟩

lemma keys_wishPairs : (wishPairs w).map Prod.fst = proposalKeys := rfl

lemma readWish_ok (hd : doc.keys.Nodup) :
    readWish doc = .ok w ↔ ∀ x ∈ wishPairs w, x ∈ doc.pairs := by
  simp only [readWish, bind_ok, pure_ok, field_ok hd, number_ok hd, value_ok hd, readMode_ok,
    wishPairs, List.forall_mem_cons]
  constructor
  · rintro ⟨scope, h1, epoch, h2, request, h3, reason, h4, receipt, h5, ttl, h6, text, h7, mode,
      rfl, rfl⟩
    exact ⟨h1, h7, h2, h3, h4, h5, h6, by simp⟩
  · rintro ⟨h1, h7, h2, h3, h4, h5, h6, -⟩
    exact ⟨_, h1, _, h2, _, h3, _, h4, _, h5, _, h6, _, h7, _, rfl, rfl⟩

/-- What a file asks for is read of it. -/
lemma asked_ok : (loadSpec data proposalKeys >>= readWish) = .ok w ↔ Asked data w := by
  rw [bind_ok]
  simp only [loadSpec_ok listed_proposalKeys]
  constructor
  · rintro ⟨doc, ⟨h1, h2⟩, h3⟩
    have hn := h2.nodup_iff.1 listed_proposalKeys.nodup
    exact ⟨doc.pairs, h1, (pairs_perm (l := wishPairs w) h2
      listed_proposalKeys.nodup).2 ((readWish_ok hn).1 h3)⟩
  · rintro ⟨pairs, h1, h2⟩
    obtain ⟨doc, rfl, -⟩ := document_of h1
    have hk : proposalKeys.Perm doc.keys := by
      rw [Properties.keys_eq]
      exact (h2.map Prod.fst).symm
    exact ⟨doc, ⟨h1, hk⟩, (readWish_ok (hk.nodup_iff.1 listed_proposalKeys.nodup)).2
      fun x hx => h2.mem_iff.2 hx⟩

/-- **A wish can be stated.** -/
theorem asked_lines (w : Wish) : Asked (Properties.lines (wishPairs w)) w := by
  refine ⟨_, isFile_lines listed_proposalKeys keys_wishPairs ?_, .refl _⟩
  have hm : ∀ m, Writable (modeName m) := by
    intro m
    have key : ∀ m ∈ [Mode.running, .changesHeld, .quarantined],
        (1 ≤ (modeName m).length ∧ (modeName m).length ≤ 4095) ∧ Text.Printable (modeName m) := by
      decide +kernel
    obtain ⟨h1, h2⟩ := key m (by cases m <;> simp)
    exact ⟨h1, h2⟩
  simp only [wishPairs, List.forall_mem_cons]
  exact ⟨writable_hex _ (by decide) (by decide), hm _, writable_numeral _,
    writable_hex _ (by decide) (by decide), writable_hex _ (by decide) (by decide),
    writable_hex _ (by decide) (by decide), writable_numeral _, by simp⟩

lemma authority_inj {a' : Authority} (ha : a.Valid) (ha' : a'.Valid) (h : a.encode = a'.encode) :
    a = a' := by
  have h1 := authority_canonical.decode_encode ha
  rw [h, authority_canonical.decode_encode ha'] at h1
  exact (Except.ok.inj h1).symm

/-- There is one authority. -/
lemma Installed.unique {a' : Authority} (hi : Installed d a) (hv : a'.Valid)
    (h : d.cached .authorities = some a'.encode) : a' = a :=
  authority_inj hv hi.valid (Option.some.inj (h.symm.trans hi.file))

lemma loadAuthority_ok : loadAuthority d root host = .ok (a, b) ↔
    root = .ok ∧ host = .ok ∧ Installed d a ∧ b = a.encode := by
  unfold loadAuthority
  constructor
  · intro h
    split_ifs at h with h1
    obtain ⟨y, h2, h3⟩ := bind_ok.1 h
    split_ifs at h3 with h4
    obtain ⟨a', h5, h6⟩ := bind_ok.1 h3
    split_ifs at h6 with h7
    cases h6
    obtain ⟨rfl, hv⟩ := (authority_canonical _ _).1 h5
    refine ⟨not_not.1 h1, ?_, ⟨Atomic.read_ok h2, hv, not_not.1 h7⟩, rfl⟩
    by_contra hh
    rw [Atomic.read, Atomic.read_ok h2] at h2
    simp [hh] at h2
  · rintro ⟨rfl, rfl, ⟨h1, h2, h3⟩, rfl⟩
    rw [if_neg (not_not.2 rfl)]
    refine bind_ok.2 ⟨_, Atomic.read_some h1 (length_authority a).le, ?_⟩
    rw [if_neg (not_not.2 (length_authority a))]
    refine bind_ok.2 ⟨a, authority_canonical.decode_encode h2, ?_⟩
    rw [if_neg (not_not.2 h3)]
    rfl

/-- What a proposal is made of. -/
structure Made (d : Directory Name) (data : Bytes) (h : SubmitHost) (w : Wish) (a : Authority)
    (before : Option State) (boot : Identity) (now : Counter) : Prop where
  asked : Asked data w
  installed : Installed d a
  root : h.root = .ok
  read : h.authorities.read = .ok
  scope : w.scope = a.scope
  before : readBefore d a.scope h = .ok before
  booted : h.boot = .ok boot
  timed : h.now = .ok now
  lasts : 0 < (w.ttl : ℕ) ∧ (w.ttl : ℕ) ≤ 300000 ∧ (now : ℕ) + w.ttl ≤ Counter.last

/-- The proposal that is made. -/
abbrev proposed (w : Wish) (a : Authority) (before : Option State) (boot : Identity)
    (now : Counter) : Proposal :=
  w.proposal a.contract (authorityHash a) before boot now

theorem makeProposal_ok : makeProposal d data h = .ok b ↔
    ∃ w a before boot now, Made d data h w a before boot now
      ∧ b = Proposal.encode (proposed w a before boot now) := by
  have hm : makeProposal d data h = (loadSpec data proposalKeys >>= readWish) >>= fun w => do
      let (a, af) ← loadAuthority d h.root h.authorities.read
      if w.scope ≠ a.scope then .error .denied
      else
        let before ← readBefore d a.scope h
        let boot ← h.boot
        let now ← h.now
        if (w.ttl : ℕ) = 0 ∨ 300000 < (w.ttl : ℕ) ∨ Counter.last - now < w.ttl then
          .error .invalidInput
        else return Proposal.encode (w.proposal a.contract (Sha256.hash af) before boot now) := by
    unfold makeProposal
    rw [bind_assoc]
  rw [hm, bind_ok]
  simp only [asked_ok]
  constructor
  · rintro ⟨w, h1, h2⟩
    obtain ⟨⟨a, af⟩, h3, h4⟩ := bind_ok.1 h2
    obtain ⟨hr, hh, hi, rfl⟩ := loadAuthority_ok.1 h3
    dsimp only at h4
    split_ifs at h4 with h5
    obtain ⟨before, h6, h7⟩ := bind_ok.1 h4
    obtain ⟨boot, h8, h9⟩ := bind_ok.1 h7
    obtain ⟨now, h10, h11⟩ := bind_ok.1 h9
    split_ifs at h11 with h12
    have hle := now.le_last
    exact ⟨w, a, before, boot, now, ⟨h1, hi, hr, hh, not_not.1 h5, h6, h8, h10, by omega⟩,
      (pure_ok.1 h11).symm⟩
  · rintro ⟨w, a, before, boot, now, ⟨h1, hi, hr, hh, h5, h6, h8, h10, h12⟩, rfl⟩
    refine ⟨w, h1, bind_ok.2 ⟨_, loadAuthority_ok.2 ⟨hr, hh, hi, rfl⟩, ?_⟩⟩
    dsimp only
    rw [if_neg (not_not.2 h5)]
    refine bind_ok.2 ⟨_, h6, bind_ok.2 ⟨_, h8, bind_ok.2 ⟨_, h10, ?_⟩⟩⟩
    rw [if_neg (by omega)]
    rfl

end Read

/-! ### What is signed -/

/-- The signature under `key` of the first who signs with it. -/
def signature (signs : List Sign) (m : Bytes) (key : PublicKey) : Option Signature :=
  signs.findSome? fun sign =>
    if (sign m).1.1 = key ∧ (sign m).2 = .ok then some (sign m).1.2 else none

lemma signProposal_eq {p : Proposal} (hp : p.contract = Gate.fingerprint) (sign : Sign) :
    signProposal sign (Proposal.encode p) = handed (sign (message (Proposal.encode p))) := by
  unfold signProposal
  rw [proposal_canonical.decode_encode trivial]
  exact if_neg (not_not.2 hp)

/-- **The files of the signatures** are those of the first who sign with each key. -/
lemma signatures_cached {p : Proposal} (hp : p.contract = Gate.fingerprint) (signs : List Sign)
    (key : PublicKey) : (signatures (Proposal.encode p) signs).cached key
      = (signature signs (message (Proposal.encode p)) key).map Block.bytes := by
  generalize hm : message (Proposal.encode p) = m
  induction signs using List.reverseRecOn with
  | nil => rfl
  | append_singleton signs sign ih =>
    rw [signatures, List.foldl_append, List.foldl_cons, List.foldl_nil, ← signatures, addSignature,
      signProposal_eq hp, hm, signature, List.findSome?_append, ← signature]
    rcases hs : sign m with ⟨⟨k, sig⟩, o⟩
    by_cases ho : o = .ok
    · subst ho
      rw [handed, if_pos rfl]
      simp only [Atomic.write, ne_eq, not_true_eq_false, if_false, Bool.true_eq_false, true_and,
        List.findSome?_singleton, hs, and_true]
      rcases hold : (signatures (Proposal.encode p) signs).cached k with _ | y
      · by_cases hk : k = key
        · subst hk
          rw [hold] at ih
          have h1 : signature signs m k = none := by simpa using ih.symm
          simp [Directory.place, Directory.sync, h1]
        · simp [Directory.place, Directory.sync, Function.update_of_ne (Ne.symm hk), ih, hk]
      · by_cases hk : k = key
        · subst hk
          rw [hold] at ih
          obtain ⟨sig', h1, rfl⟩ := Option.map_eq_some_iff.1 ih.symm
          simp [hold, h1]
        · simp [ih, hk]
    · rw [handed, if_neg ho]
      simp [ih, hs, ho]

/-! ### What is gathered -/

/-- The signature of a signer that is in the bundle. -/
def slot (files : Directory PublicKey) (k : Signer) : Signature :=
  match files.cached k.publicKey with
  | none => Block.zero 64
  | some y => Block.ofBytes 64 y

/-- The files that are there hold signatures by the keys that they are named by. -/
def Signed (good : VerifyDetached) (files : Directory PublicKey) (b : Bytes) (a : Authority) :
    Prop :=
  ∀ k ∈ a.keys, ∀ y, files.cached k.publicKey = some y →
    y.length = 64 ∧ good (Block.ofBytes 64 y) (message b) k.publicKey = true

section Bundle

variable {good : VerifyDetached} {d : Directory Name} {files : Directory PublicKey} {b : Bytes}
  {a : Authority} {k : Signer} {sig : Signature} {p : Proposal} {g : SignatureBundle}

lemma length_proposal (p : Proposal) : (Proposal.encode p).length = 320 :=
  Sha256.length_withDigest (by simp [pad, PM])

lemma authentic_ok {sig : Signature} {key : PublicKey} (hb : b.length ≤ 16777216) :
    authentic good true domain b sig key = .ok ↔ good sig (message b) key = true := by
  unfold authentic
  rw [if_neg (by simp [domain, hb]), if_neg (by decide)]
  split_ifs with h
  · exact iff_of_true rfl h
  · exact iff_of_false nofun h

lemma gather_ok (hb : b.length ≤ 16777216) : gather good files b {} k = .ok sig ↔
    sig = slot files k ∧ ∀ y, files.cached k.publicKey = some y →
      y.length = 64 ∧ good (Block.ofBytes 64 y) (message b) k.publicKey = true := by
  unfold gather slot
  rw [if_neg (not_not.2 rfl)]
  cases hf : files.cached k.publicKey with
  | none =>
    rw [if_pos rfl, Except.ok.injEq]
    exact ⟨fun h => ⟨h.symm, nofun⟩, fun h => h.1.symm⟩
  | some y =>
    rw [if_neg (by simp), bind_ok]
    simp only [Option.some.injEq, forall_eq']
    constructor
    · rintro ⟨y', h1, h2⟩
      obtain rfl : y = y' := Option.some.inj (hf.symm.trans (Atomic.read_ok h1))
      split_ifs at h2 with h3
      split at h2
      · rename_i ho
        cases h2
        exact ⟨rfl, not_not.1 h3, (authentic_ok hb).1 ho⟩
      · cases h2
    · rintro ⟨rfl, h1, h2⟩
      refine ⟨y, Atomic.read_some hf h1.le, ?_⟩
      rw [if_neg (not_not.2 h1), (authentic_ok hb).2 h2]

lemma gather_all (hb : b.length ≤ 16777216) {l : List Signature} :
    a.keys.mapM (gather good files b {}) = .ok l ↔
      l = a.keys.map (slot files) ∧ Signed good files b a := by
  rw [mapM_ok]
  unfold Signed
  generalize a.keys = ks
  induction ks generalizing l with
  | nil => simp
  | cons k ks ih =>
    simp only [List.forall₂_cons_left_iff, gather_ok hb, List.map_cons, List.forall_mem_cons]
    simp only [gather_ok hb] at ih
    simp only [ih]
    constructor
    · rintro ⟨sig, u, ⟨rfl, h1⟩, ⟨rfl, h2⟩, rfl⟩
      exact ⟨rfl, h1, h2⟩
    · rintro ⟨rfl, h1, h2⟩
      exact ⟨_, _, ⟨rfl, h1⟩, ⟨rfl, h2⟩, rfl⟩

/-- **A bundle** holds the signatures that are there, if all of them are good. -/
theorem bundle_ok : bundle good d files (Proposal.encode p) {} = .ok g ↔
    ∃ a, Installed d a ∧ p.scope = a.scope ∧ p.authorityDigest = authorityHash a
      ∧ Signed good files (Proposal.encode p) a ∧ g = bundled (a.keys.map (slot files)) := by
  have hb : (Proposal.encode p).length ≤ 16777216 := by
    rw [length_proposal]
    decide
  unfold bundle
  rw [bind_ok]
  constructor
  · rintro ⟨⟨a, af⟩, h1, h2⟩
    obtain ⟨-, -, hi, rfl⟩ := loadAuthority_ok.1 h1
    rw [proposal_canonical.decode_encode trivial] at h2
    obtain ⟨p', hp, h3⟩ := bind_ok.1 h2
    obtain rfl : p = p' := Except.ok.inj hp
    dsimp only at h3
    split_ifs at h3 with h4 h4'
    simp only [not_or, not_not] at h4
    obtain ⟨l, h5, h6⟩ := bind_ok.1 h3
    obtain ⟨rfl, hs⟩ := (gather_all hb).1 h5
    exact ⟨a, hi, h4.1, h4.2, hs, (pure_ok.1 h6).symm⟩
  · rintro ⟨a, hi, h1, h2, hs, rfl⟩
    refine ⟨_, loadAuthority_ok.2 ⟨rfl, rfl, hi, rfl⟩, ?_⟩
    rw [proposal_canonical.decode_encode trivial]
    refine bind_ok.2 ⟨p, rfl, ?_⟩
    dsimp only
    rw [if_neg (by simp only [not_or, not_not]; exact ⟨h1, h2⟩), if_neg (by decide)]
    exact bind_ok.2 ⟨_, (gather_all hb).2 ⟨rfl, hs⟩, rfl⟩

lemma drop_flatten {n : ℕ} (l : List (Block n)) (i : ℕ) :
    (l.map Block.bytes).flatten.drop (i * n) = ((l.drop i).map Block.bytes).flatten := by
  induction i generalizing l with
  | zero => simp
  | succ i ih =>
    cases l with
    | nil => simp
    | cons c l =>
      rw [List.map_cons, List.flatten_cons, List.drop_succ_cons, ← ih l, Nat.succ_mul,
        Nat.add_comm, ← List.drop_drop, List.drop_left' (Block.length_bytes c)]

/-- Each signature is at the place of its signer. -/
lemma signature_bundled {l : List Signature} {i : ℕ} (hl : l.length ≤ maxSigners)
    (hi : i < maxSigners) :
    (⟨b, bundled l⟩ : Submission).signature i = l.getD i (Block.zero 64) := by
  have hz : ∀ n, List.replicate (n * 64) (0 : Byte)
      = ((List.replicate n (Block.zero 64)).map Block.bytes).flatten := by
    intro n
    induction n with
    | zero => simp
    | succ n ih =>
      rw [List.replicate_succ, List.map_cons, List.flatten_cons, ← ih, Block.bytes_zero,
        List.replicate_append_replicate]
      congr 1
      omega
  have h8 : maxSigners = 8 := rfl
  have hlen : (l.map Block.bytes).flatten.length = l.length * 64 := by
    rw [List.length_flatten, List.map_map]
    simp [Function.comp_def]
  -- the bundle is eight signatures, of which the last ones are zero
  have hb : (bundled l).bytes
      = ((l ++ List.replicate (maxSigners - l.length) (Block.zero 64)).map
        Block.bytes).flatten := by
    rw [List.map_append, List.flatten_append, ← hz]
    show ((l.map Block.bytes).flatten ++ List.replicate 512 0).take 512 = _
    rw [List.take_append, List.take_of_length_le (by rw [hlen]; omega), List.take_replicate, hlen]
    congr 2
    omega
  have hlong : i < (l ++ List.replicate (maxSigners - l.length) (Block.zero 64)).length := by
    rw [List.length_append, List.length_replicate]
    omega
  rw [Submission.signature, hb, range, List.drop_take, show 1 + i * 64 - 1 = i * 64 by omega,
    show 64 + i * 64 - i * 64 = 64 by omega, drop_flatten,
    List.drop_eq_getElem_cons hlong, List.map_cons, List.flatten_cons,
    List.take_left' (by simp), Block.ofBytes_bytes]
  rw [List.getD_eq_getElem?_getD]
  rcases Nat.lt_or_ge i l.length with h | h
  · rw [List.getElem_append_left h, List.getElem?_eq_getElem h, Option.getD_some]
  · rw [List.getElem_append_right h, List.getElem_replicate, List.getElem?_eq_none h,
      Option.getD_none]

end Bundle

end NiayanAssurance.ControlAdmin
