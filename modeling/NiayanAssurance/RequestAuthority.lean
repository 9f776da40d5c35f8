import NiayanAssurance.RequestAdmin
import NiayanAssurance.GateRuns

/-!
From the operator to the ledger: what a gate admits, over any sequence of submissions and crashes,
is what the holder of the request key of its policy has asked for, and none of it is admitted twice.

Nothing is assumed of what is submitted. Of the request keys it is assumed that requests are signed
with them by `make-request` only, and that no other signature is good.
-/

namespace NiayanAssurance.RequestAuthority

open NiayanAssurance.Lib NiayanAssurance.Types NiayanAssurance.LogFormat
open NiayanAssurance.Log hiding World
open NiayanAssurance.Protocol NiayanAssurance.Requests NiayanAssurance.Ingress
open NiayanAssurance.SitePolicy NiayanAssurance.LogFile NiayanAssurance.RequestAdmin
open NiayanAssurance.RequestReplay NiayanAssurance.ReplaySpec
open NiayanAssurance.Gate hiding genesis
open NiayanAssurance.GateSpec NiayanAssurance.GateLedger NiayanAssurance.GateRuns

/-- The policy that a call finds in its place, and loads if it comes so far. -/
def loaded : Operation → Option Policy
  | .begin _ _ host => (readPolicy host.toEnterHost).toOption.map (·.1)
  | .repair _ host => (readPolicy host.toEnterHost).toOption.map (·.1)
  | _ => none

/-- The request keys of the policies that the calls find. -/
def policyKeys (calls : List Call) : List PublicKey :=
  calls.filterMap fun c => (loaded c.operation).map (·.requestKey)

/-- The requests for which a signature under one of the keys is good are those that `make-request`
has signed, of the files that the holder of the key has handed to it. -/
def Faithful (good : VerifyDetached) (sign : PublicKey → Sign) (files : PublicKey → List Bytes)
    (keys : List PublicKey) : Prop :=
  ∀ key ∈ keys, ∀ sig h, good sig (domain ++ Protocol.encode h) key = true →
    ∃ data ∈ files key, ∃ e, makeRequest (sign key) data = .ok e
      ∧ range e 1 160 = Protocol.encode h

/-! ### The envelopes -/

/-- An envelope whose header has a good signature under one of the keys, and whose body is that of
the header. -/
def Genuine (good : VerifyDetached) (keys : List PublicKey) (env : Bytes) : Prop :=
  ∃ key ∈ keys, ∃ sig h, Protocol.decode (range env 1 160) = .ok h
    ∧ good sig (domain ++ Protocol.encode h) key = true
    ∧ Sha256.hash (range env 161 352) = h.bodyDigest

/-- What the files beside the ledger are. -/
def Kept (good : VerifyDetached) (keys : List PublicKey) : Name → Bytes → Prop
  | .request _, b => Genuine good keys b
  | _, _ => True

section Envelopes

variable {good : VerifyDetached} {keys : List PublicKey} {w w' : World} {x : Submission}
  {key : PublicKey} {scope : Scope} {contract : Digest} {now : Counter} {h : Header} {r : Request}

lemma genuine_envelope
    (ha : Authorized good x.header x.body x.signature key scope contract now h r)
    (hk : key ∈ keys) :
    Genuine good keys x.envelope := by
  have h1 := decode_length ha.header
  have h2 := requests_decode_length ha.request
  have hhead : range x.envelope 1 160 = x.header := by
    rw [Submission.envelope, List.append_assoc]
    exact range_head h1
  have hbody : range x.envelope 161 352 = x.body := by
    rw [Submission.envelope, List.append_assoc, range_right (by omega), h1]
    exact range_head h2
  exact ⟨key, hk, x.signature, h, hhead ▸ ha.header, ha.signed, hbody ▸ ha.bodyDigest⟩

lemma kept_touched (h : w.directory.Every (Kept good keys)) (ht : Touched w w') :
    w'.directory.Every (Kept good keys) := by
  rcases ht.directory with hd | hd <;> rw [hd]
  · exact h
  · exact h.sync

lemma kept_preserves {d d' : Directory Name} {id : Identity} {o : Outcome}
    (h : d.Every (Kept good keys)) (hg : Genuine good keys x.envelope)
    (hp : Atomic.Preserves d (.request id) x.envelope d' o) : d'.Every (Kept good keys) := by
  have hk : Kept good keys (.request id) x.envelope := hg
  cases hp with
  | refused => exact h
  | present => exact h
  | unsynced => exact h.place hk
  | done => exact (h.place hk).sync

lemma kept_begin (h : w.directory.Every (Kept good keys)) {id : ℕ} {host : BeginHost} {a : Answer}
    (hkeys : ∀ p d, readPolicy host.toEnterHost = .ok (p, d) → p.requestKey ∈ keys)
    (hb : Begins good w id x host w' a) : w'.directory.Every (Kept good keys) := by
  have hg : ∀ {p : Policy} {d : Digest} {j : Journal} {v : Judged},
      Entered w host.toEnterHost p d j → judge good w.directory.sync w.log j p x host = .ok v →
        Genuine good keys x.envelope := fun he hv => by
    obtain ⟨before, e, hj⟩ := judge_ok hv
    exact genuine_envelope hj.authorized (hkeys _ _ he.policy)
  cases hb with
  | refused hw => exact kept_touched h hw
  | retry => exact h.sync
  | placed he ht hv hd hp => exact kept_preserves h.sync (hg he hv) hp
  | appended he ht hv hd hp => exact kept_preserves h.sync (hg he hv) hp
  | admitted he ht hv hd hp => exact kept_preserves h.sync (hg he hv) hp

lemma kept_preserveTail {d : Directory Name} (hd : d.Every (Kept good keys)) (f : File)
    (j : Journal) (h : Header) (host : LedgerHost) (hg : Genuine good keys x.envelope) :
    (preserveTail d f j x h host).1.Every (Kept good keys) := by
  unfold preserveTail
  split
  · exact hd
  split
  · exact hd
  split
  · exact hd
  rename_i tail _ _ _
  have ha : (Atomic.preserve d (.repair h.requestId) (x.envelope ++ (Sha256.hash tail).bytes
      ++ j.lastDigest.bytes) host.placeRepair host.placeRepairRead).1.Every (Kept good keys) :=
    Atomic.every_preserve hd trivial
  have hb : ∀ d : Directory Name, d.Every (Kept good keys) →
      (Atomic.preserve d (.request h.requestId) x.envelope host.place
        host.placeRead).1.Every (Kept good keys) := fun d hd => Atomic.every_preserve hd hg
  dsimp only
  split
  · exact ha
  · split <;> exact hb _ ha

lemma kept_repair (h : w.directory.Every (Kept good keys)) (host : LedgerHost)
    (hkeys : ∀ p d, readPolicy host.toEnterHost = .ok (p, d) → p.requestKey ∈ keys) :
    (repairLedger good w x host).1.directory.Every (Kept good keys) := by
  unfold repairLedger
  split
  · exact h
  rcases hpol : readPolicy host.toEnterHost with o | ⟨p, d⟩ <;> dsimp only
  · exact h
  rcases hopen : openLedger w p.rootId host.log with ⟨w₁, _ | j, o⟩ <;> dsimp only
  · exact kept_touched h (openLedger_none hopen).1
  obtain ⟨-, rfl, -, rfl⟩ := openLedger_some hopen
  split
  · exact h.sync
  dsimp only
  rcases hj : judgeRepair good w.directory.sync w.log j p x host with o | hdr <;> dsimp only
  · exact h.sync
  obtain ⟨r, before, hjud⟩ := judgeRepair_ok hj
  have hk := kept_preserveTail h.sync w.log j hdr host
    (genuine_envelope hjud.authorized (hkeys _ _ hpol))
  generalize preserveTail w.directory.sync w.log j x hdr host = t at hk ⊢
  obtain ⟨dir, o | t⟩ := t <;> dsimp only at hk ⊢
  · exact hk
  rcases recheck d hdr host with o | p' <;> exact hk

lemma kept_call (h : w.directory.Every (Kept good keys)) (c : Call)
    (hkeys : ∀ p, loaded c.operation = some p → p.requestKey ∈ keys) :
    (call good w c).1.directory.Every (Kept good keys) := by
  have hclose : ∀ (w : World) id, (close w id).directory = w.directory := fun w id => by
    unfold close
    split <;> rfl
  obtain ⟨op, crash⟩ := c
  have hp : (perform good w op).1.directory.Every (Kept good keys) := by
    rcases op with ⟨id, x, host⟩ | ⟨id, result, host⟩ | id | ⟨x, host⟩
    · exact kept_begin h (fun p d e => hkeys p (by simp [loaded, e, Except.toOption]))
        (begin_cases good w id x host)
    · have hf := finish_cases w id result host
      simp only [perform]
      generalize finish w id result host = a at hf ⊢
      obtain ⟨w', a⟩ := a
      dsimp only at hf ⊢
      cases hf with
      | refused => exact h
      | finished => exact h
    · simpa only [perform, hclose] using h
    · exact kept_repair h host fun p d e => hkeys p (by simp [loaded, e, Except.toOption])
  rcases crash with _ | ⟨id⟩ | ⟨fromStable, n, keep⟩
  · exact hp
  · simpa only [call, World.crash, hclose] using hp
  · exact hp.crash keep

/-- **Every envelope beside a ledger** is one whose signature is good under the request key of a
policy that was loaded. -/
theorem kept_life {host : ProvisionHost} {calls : List Call} {l : History}
    (hl : life good host calls = some (l, w)) (hkeys : policyKeys calls ⊆ keys) :
    w.directory.Every (Kept good keys) := by
  obtain ⟨w₀, hw₀, hx⟩ := Option.map_eq_some_iff.mp hl
  clear hl
  induction calls using List.reverseRecOn generalizing l w with
  | nil =>
    cases hx
    obtain ⟨-, -, -, rfl | ⟨-, -, -, -, rfl⟩⟩ := provision_cases hw₀ <;>
      exact Directory.every_empty
  | append_singleton calls c ih =>
    rw [exec_snoc] at hx
    obtain ⟨rfl, rfl⟩ := Prod.mk.inj hx
    rw [policyKeys, List.filterMap_append, List.append_subset] at hkeys
    refine kept_call (ih hkeys.1 rfl) c fun p hp => hkeys.2 ?_
    simp [hp]

end Envelopes

/-! ### The ledger -/

/-- The admission `b` is that of a request that was asked for: a file of the holder of one of the
keys lists the properties of its header, and of its body up to a collision of SHA-256. -/
structure Asked (files : PublicKey → List Bytes) (keys : List PublicKey) (d : Directory Name)
    (b : Entry) : Prop where
  file : ∃ key ∈ keys, ∃ data ∈ files key, ∃ h r r', Specified data h r
    ∧ RequestReplay.windowOf b = Ingress.windowOf h (Protocol.encode h) ∧ Recorded d.cached b r'
    ∧ Sha256.hash (Requests.encode r') = Sha256.hash (Requests.encode r)

/-- What was admitted, in a run that has led to the ledger `es`, was asked for under the request key
of a policy, and no identity of a request twice. -/
structure CarriesOut (files : PublicKey → List Bytes) (keys : List PublicKey) (w : World)
    (rootId : Identity) (es : List Entry) (tail : Bytes) : Prop where
  represents : Represents rootId w.log.cached es tail
  asked : ∀ b ∈ admissions es, Asked files keys w.directory b
  once : ((admissions es).map fun b => b.operationId).Nodup

def Obeys (good : VerifyDetached) (host : ProvisionHost) (calls : List Call)
    (files : PublicKey → List Bytes) : Prop :=
  ∀ l w, life good host calls = some (l, w) →
    ∃ rootId es tail, CarriesOut files (policyKeys calls) w rootId es tail

section Ledger

variable {good : VerifyDetached} {sign : PublicKey → Sign} {files : PublicKey → List Bytes}
  {keys : List PublicKey} {d : Directory Name} {b : Entry} {r' : Request}

/-- A recorded envelope was asked for. -/
lemma asked_of (hf : Faithful good sign files keys) (hd : d.Every (Kept good keys))
    (hr : Recorded d.cached b r') : Asked files keys d b := by
  obtain ⟨env, h, h1, -, h2, h3, h4⟩ := id hr
  obtain ⟨key, hk, sig, h', h5, h6, h7⟩ := hd _ _ (.inl h1)
  obtain rfl : h' = h := Except.ok.inj (h5.symm.trans h2)
  obtain ⟨data, hm, e, he, hh⟩ := hf key hk sig h' h6
  obtain ⟨h₁, r, sig₁, hs, -, -, hx⟩ := makeRequest_ok.1 he
  have hp := envelope_parts h₁ r sig₁
  simp only [List.cons.injEq, and_true] at hp
  rw [hx, hp.1] at hh
  have henv := encode_decode h2
  obtain rfl : h₁ = h' := Except.ok.inj
    ((Layouts.header_decode_encode hs.bound.1).symm.trans (by rw [hh, henv, h2]))
  refine ⟨key, hk, data, hm, h₁, r, r', hs, ?_, hr, ?_⟩
  · rw [← h3, henv]
  · obtain ⟨hb, -⟩ := (Layouts.request_canonical _ _).1 h4
    rw [hb, h7, hs.bound.2.2.2]

/-- **A gate carries out what it was asked to**: over any submissions, calls and crashes, each
admission in its ledger is that of a request which the holder of the request key of a policy that
was loaded has handed to `make-request`, with the properties of that file, and no request identity
is admitted twice. -/
theorem gate_obeys (host : ProvisionHost) (calls : List Call)
    (hf : Faithful good sign files (policyKeys calls))
    (hcf : Sha256.CollisionFree (policyFiles calls)) : Obeys good host calls files := by
  intro l w hl
  obtain ⟨p, d, es, tail, base, hload, hh, -⟩ := holds_life hcf hl
  refine ⟨p.rootId, es, tail, hh.cached, fun b hb => ?_, ?_⟩
  · obtain ⟨r, hr⟩ := hh.ledger.recorded b hb
    exact asked_of hf (kept_life hl fun _ h => h) (hr.mono hh.files)
  · exact List.pairwise_map.2 hh.ledger.distinct

end Ledger

/-! ### A site -/

/-- The request `n` of the operator, which asks for `a` in transaction `t`. -/
def wanted (a : RequestedAction) (t : Byte) : Request where
  action := a
  transactionId := Block.fill 16 t
  planDigest := Block.fill 32 t
  contractDigest := fingerprint
  expectedRevision := 1
  stageSetDigest := Block.fill 32 9

def wantedHeader (a : RequestedAction) (n : Counter) (t : Byte) : Header := headed
  { requestId := Block.fill 16 (BitVec.ofNat 8 n), clusterId := Block.fill 16 21
    nodeId := Block.fill 16 22, resourceId := Block.fill 16 20, membershipEpoch := 1
    fenceToken := 1, sequenceNumber := n, deadline := 2000, bootId := Block.fill 16 23 }
  (wanted a t)

def wantedFile (a : RequestedAction) (n : Counter) (t : Byte) : Bytes :=
  Properties.lines (requestPairs (wantedHeader a n t) (wanted a t))

/-- The files of the operator. -/
def wantedFiles (key : PublicKey) : List Bytes :=
  if key = operatorKey then
    [wantedFile .apply 1 1, wantedFile .recover 2 1, wantedFile .apply 3 2]
  else []

def operatorSign (_ : PublicKey) : Sign := fun m =>
  match [applyFirst, recoverFirst, applySecond].find? fun x => decide (m = domain ++ x.header) with
  | some x => (x.signature, .ok)
  | none => (Block.fill 64 0, .denied)

/-- What `make-request` makes of a file of the operator. -/
lemma wanted_made {a : RequestedAction} {n : Counter} {t : Byte} {key : PublicKey}
    {x : Submission} (hx : Protocol.encode (wantedHeader a n t) = x.header)
    (hv : ValidIdentity (wantedHeader a n t)) (hr : Layouts.Request.Admissible (wanted a t))
    (hs : operatorSign key (domain ++ x.header) = (x.signature, .ok)) :
    ∃ e, makeRequest (operatorSign key) (wantedFile a n t) = .ok e ∧ range e 1 160 = x.header := by
  have hp := envelope_parts (wantedHeader a n t) (wanted a t) x.signature
  simp only [List.cons.injEq, and_true] at hp
  rw [← hx] at hs ⊢
  exact ⟨_, makeRequest_ok.2 ⟨_, _, _, specified_lines (headed_bound ⟨rfl, rfl⟩) hr, hv, hs, rfl⟩,
    hp.1⟩

lemma faithful_signed (keys : List PublicKey) :
    Faithful signed operatorSign wantedFiles keys := by
  intro key _ sig h hg
  simp only [signed, Bool.and_eq_true, decide_eq_true_eq, List.any_eq_true, List.mem_cons,
    List.not_mem_nil, or_false] at hg
  obtain ⟨rfl, x, hx, -, hm⟩ := hg
  obtain hm := List.append_cancel_left hm
  simp only [hm, wantedFiles, if_true, List.mem_cons, List.not_mem_nil, or_false,
    exists_eq_or_imp, exists_eq_left]
  rcases hx with rfl | rfl | rfl
  · exact .inl (wanted_made (by decide +kernel) (by decide +kernel)
      (by unfold Layouts.Request.Admissible; decide +kernel) (by decide +kernel))
  · exact .inr (.inl (wanted_made (by decide +kernel) (by decide +kernel)
      (by unfold Layouts.Request.Admissible; decide +kernel) (by decide +kernel)))
  · exact .inr (.inr (wanted_made (by decide +kernel) (by decide +kernel)
      (by unfold Layouts.Request.Admissible; decide +kernel) (by decide +kernel)))

/-- The first request is submitted, and again after a crash; what became of it is unknown, and it is
recovered. -/
def submitted : List Call :=
  [⟨.begin 0 applyFirst beginHost, some (.machine false 0 fun _ => true)⟩,
    ⟨.begin 0 applyFirst beginHost, none⟩, ⟨.close 0, none⟩,
    ⟨.begin 1 recoverFirst beginHost, none⟩]

/-- Both requests are in the ledger, after its first record. -/
theorem gate_obeys_submitted : Obeys signed siteHost submitted wantedFiles ∧
    (life signed siteHost submitted).map (fun x => x.2.log.cached.length) = some (3 * 256) :=
  ⟨gate_obeys siteHost submitted (faithful_signed _)
    fun x hx => by simp [policyFiles, submitted] at hx, by decide +kernel⟩

end NiayanAssurance.RequestAuthority
