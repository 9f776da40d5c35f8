import NiayanAssurance.GateLedger
import NiayanAssurance.Lib.Run

/-!
The gate over any sequence of calls and crashes: a request is admitted once, the ledger can
always be read, and what is pending is only ever recovered.
-/

namespace NiayanAssurance.GateRuns

open NiayanAssurance.Lib NiayanAssurance.Types NiayanAssurance.LogFormat
open NiayanAssurance.Log hiding World
open NiayanAssurance.Protocol NiayanAssurance.Requests NiayanAssurance.Ingress
open NiayanAssurance.Replay NiayanAssurance.SitePolicy NiayanAssurance.LogFile
open NiayanAssurance.RequestReplay NiayanAssurance.ReplaySpec
open NiayanAssurance.Gate hiding genesis
open NiayanAssurance.GateSpec NiayanAssurance.GateLedger

/-! ### Lives -/

abbrev History := List (Call × Option Answer)

/-- What happens to a ledger from its provision on, and what is left. There is none when the
provision did not make one. -/
def life (good : VerifyDetached) (host : ProvisionHost) (calls : List Call) :
    Option (History × World) :=
  (provision host).1.map fun w => exec (call good) w calls

/-- The policies that the repairs of a run load, each of them twice. -/
def policyFiles (calls : List Call) : List Bytes :=
  calls.flatMap fun c =>
    match c.operation with
    | .repair _ host => [host.policy.data, host.policyAgain.data]
    | _ => []

/-- The call has answered that the request with this header is new. -/
def isNew (header : Bytes) (x : Call × Option Answer) : Bool :=
  match x.1.operation, x.2 with
  | .begin _ s _, some a =>
    decide (s.header = header ∧ a.status = .ok ∧ a.mode = some .newRequest)
  | _, _ => false

lemma isNew_begin {id : ℕ} {x : Submission} {host : BeginHost} {o : Outcome} :
    isNew x.header (⟨.begin id x host, none⟩, some ⟨.ok, some .newRequest, some o⟩) = true := by
  simp [isNew]

/-- What the answers so far say of the ledger. -/
structure Past (l : History) (base : List Entry) : Prop where
  once : ∀ header, (l.filter (isNew header)).length ≤ 1
  admitted : ∀ header, ∀ c ∈ l, isNew header c = true → Admitted header base

section Step

variable {good : VerifyDetached} {rootId : Identity} {fp : Digest} {w : World}
  {es base : List Entry} {tail : Bytes} {l : History}

/-- No repair of the call takes one policy for another. -/
def Certain (c : Call) : Prop :=
  ∀ x host, c.operation = .repair x host →
    Sha256.hash host.policy.data = Sha256.hash host.policyAgain.data →
      host.policy.data = host.policyAgain.data

lemma certain_of {calls : List Call} (h : Sha256.CollisionFree (policyFiles calls)) {c : Call}
    (hc : c ∈ calls) : Certain c := by
  intro x host hop hh
  have hmem : ∀ b ∈ [host.policy.data, host.policyAgain.data], b ∈ policyFiles calls := by
    intro b hb
    rw [policyFiles, List.mem_flatMap]
    exact ⟨c, hc, by rw [hop]; exact hb⟩
  exact h _ (hmem _ (by simp)) _ (hmem _ (by simp)) hh

lemma admitted_mono {header : Bytes} {base' : List Entry} (h : Admitted header base)
    (hb : base <+: base') : Admitted header base' := by
  obtain ⟨hd, b, h1, h2, h3⟩ := h
  obtain ⟨t, rfl⟩ := hb
  exact ⟨hd, b, h1, by rw [admissions_append]; exact List.mem_append_left _ h2, h3⟩

variable (good) in
/-- **The step of the invariant.** -/
theorem holds_call (h : Holds rootId fp w es tail base) (c : Call) (hc : Certain c) :
    ∃ es' tail' base', Holds rootId fp (call good w c).1 es' tail' base' ∧ base <+: base'
      ∧ (∃ es₁, Adds w.holder es c.operation es₁ ∧ es' <+: es₁)
      ∧ ∀ header, isNew header (c, (call good w c).2) = true →
        ¬ Admitted header es ∧ Admitted header base' := by
  obtain ⟨op, crash⟩ := c
  have hperform : ∃ es' tail' base', Holds rootId fp (perform good w op).1 es' tail' base'
      ∧ base <+: base' ∧ Adds w.holder es op es'
      ∧ ∀ header, isNew header (⟨op, crash⟩, some (perform good w op).2) = true →
        ¬ Admitted header es ∧ Admitted header base' := by
    rcases op with ⟨id, x, host⟩ | ⟨id, result, host⟩ | id | ⟨x, host⟩
    · obtain ⟨es', tail', base', hh, hb, ha, hn⟩ :=
        holds_begin h (begin_cases good w id x host)
      refine ⟨es', tail', base', hh, hb, ha, fun header hnew => ?_⟩
      obtain ⟨rfl, hok, hmode⟩ := of_decide_eq_true hnew
      obtain ⟨h1, h2⟩ := hn hok hmode
      exact ⟨fun ⟨hd, b, hdec, hmem, hw⟩ => h1 b hmem hd hdec hw, h2⟩
    · obtain ⟨es', tail', base', hh, hb, ha⟩ :=
        holds_finish h host (finish_cases w id result host)
      exact ⟨es', tail', base', hh, hb, ha, by simp [isNew]⟩
    · exact ⟨es, tail, base, holds_close h id, List.prefix_refl _, .nothing, by simp [isNew]⟩
    · obtain ⟨es', tail', base', hh, hb, ha⟩ :=
        holds_repair h (repairLedger_cases good w x host) (hc x host rfl)
      exact ⟨es', tail', base', hh, hb, ha, by simp [isNew]⟩
  obtain ⟨es', tail', base', hh, hb, ha, hn⟩ := hperform
  rcases crash with _ | k
  · exact ⟨es', tail', base', hh, hb, ⟨es', ha, List.prefix_refl _⟩, hn⟩
  · obtain ⟨es'', tail'', hh', hp⟩ := holds_crash hh k
    refine ⟨es'', tail'', base', hh', hb, ⟨es', ha, hp⟩, fun header hnew => ?_⟩
    cases op <;> simp [call, isNew] at hnew

variable (good) in
/-- No file beside the ledger that is on the medium is lost or changed. -/
lemma files_perform (h : Directory.Extends w.directory.stable w.directory.cached)
    (op : Operation) :
    Directory.Extends w.directory.stable (perform good w op).1.directory.stable
      ∧ Directory.Extends (perform good w op).1.directory.stable
        (perform good w op).1.directory.cached := by
  have htouched : ∀ {w'}, Touched w w' → Directory.Extends w.directory.stable w'.directory.stable
      ∧ Directory.Extends w'.directory.stable w'.directory.cached := by
    rintro w' ⟨-, -, hd | hd⟩ <;> rw [hd]
    · exact ⟨.refl _, h⟩
    · exact ⟨h, .refl _⟩
  rcases op with ⟨id, x, host⟩ | ⟨id, result, host⟩ | id | ⟨x, host⟩
  · have hb := begin_cases good w id x host
    simp only [perform]
    generalize beginRequest good w id x host = a at hb ⊢
    obtain ⟨w', a⟩ := a
    dsimp only at hb ⊢
    cases hb with
    | refused hw => exact htouched hw
    | retry => exact ⟨h, .refl _⟩
    | placed he ht hv hd hp => exact ⟨(extends_preserved h hp).1, (extends_preserved h hp).2.1⟩
    | appended he ht hv hd hp => exact ⟨(extends_preserved h hp).1, (extends_preserved h hp).2.1⟩
    | admitted he ht hv hd hp => exact ⟨(extends_preserved h hp).1, (extends_preserved h hp).2.1⟩
  · have hf := finish_cases w id result host
    simp only [perform]
    generalize finish w id result host = a at hf ⊢
    obtain ⟨w', a⟩ := a
    dsimp only at hf ⊢
    cases hf with
    | refused => exact ⟨.refl _, h⟩
    | finished => exact ⟨.refl _, h⟩
  · simp only [perform, close]
    split <;> exact ⟨.refl _, h⟩
  · have hr := repairLedger_cases good w x host
    simp only [perform]
    generalize (repairLedger good w x host).1 = w' at hr ⊢
    cases hr with
    | refused hw => exact htouched hw
    | stored he h1 h2 => exact ⟨extends_synced h h1, h2⟩
    | recorded he hv h1 h2 => exact ⟨extends_synced h h1, h2⟩

variable (good) in
lemma files_call (h : Directory.Extends w.directory.stable w.directory.cached) (c : Call) :
    Directory.Extends w.directory.stable (call good w c).1.directory.stable := by
  obtain ⟨op, crash⟩ := c
  obtain ⟨h1, h2⟩ := files_perform good h op
  rcases crash with _ | ⟨id⟩ | ⟨fromStable, n, keep⟩
  · exact h1
  · have hclose : (close (perform good w op).1 id).directory = (perform good w op).1.directory := by
      unfold close
      split <;> rfl
    show Directory.Extends w.directory.stable (close (perform good w op).1 id).directory.stable
    rw [hclose]
    exact h1
  · exact h1.trans (Directory.extends_crash h2 keep)

lemma past_call (h : Holds rootId fp w es tail base) (hp : Past l base) {base' : List Entry}
    (hb : base <+: base') {x : Call × Option Answer}
    (hn : ∀ header, isNew header x = true → ¬ Admitted header es ∧ Admitted header base') :
    Past (l ++ [x]) base' := by
  obtain ⟨es₂, tail₂, -, hpre, hbase⟩ := h.stable
  refine ⟨fun header => ?_, fun header c hc hnew => ?_⟩
  · by_cases hx : isNew header x = true
    · -- had it been new before, it would be in the ledger
      have hnone : l.filter (isNew header) = [] := by
        rw [List.filter_eq_nil_iff]
        intro c hc hnew
        exact (hn header hx).1 (admitted_mono (hp.admitted header c hc hnew) (hbase.trans hpre))
      simp [List.filter_append, hnone, hx]
    · simpa [List.filter_append, hx] using hp.once header
  · rcases List.mem_append.mp hc with hc | hc
    · exact admitted_mono (hp.admitted header c hc hnew) hb
    · rw [List.mem_singleton.mp hc] at hnew
      exact (hn header hnew).2

end Step

/-- **The invariant of every run.** -/
theorem holds_life {good : VerifyDetached} {host : ProvisionHost} {calls : List Call}
    (hcf : Sha256.CollisionFree (policyFiles calls)) {l : History} {w : World}
    (hl : life good host calls = some (l, w)) : ∃ p d es tail base,
      load host.policy = .ok (p, d) ∧ Holds p.rootId d w es tail base ∧ Past l base := by
  obtain ⟨w₀, hw₀, hx⟩ := Option.map_eq_some_iff.mp hl
  obtain ⟨p, d, es₀, tail₀, hload, h₀, -⟩ := holds_provision hw₀
  have hcert : ∀ c ∈ calls, Certain c := fun c hc => certain_of hcf hc
  clear hcf hl
  refine ⟨p, d, ?_⟩
  induction calls using List.reverseRecOn generalizing l w with
  | nil =>
    cases hx
    exact ⟨es₀, tail₀, [], hload, h₀, by simp, by simp⟩
  | append_singleton calls c ih =>
    obtain ⟨es, tail, base, -, hh, hp⟩ :=
      ih rfl (fun c hc => hcert c (List.mem_append_left _ hc))
    rw [exec_snoc] at hx
    obtain ⟨rfl, rfl⟩ := Prod.mk.inj hx
    obtain ⟨es', tail', base', hh', hb, -, hn⟩ :=
      holds_call good hh c (hcert c (by simp))
    exact ⟨es', tail', base', hload, hh', past_call hh hp hb hn⟩

/-! ### What is written can be read -/

/-- The ledger `es` of a receiver, as it is written and as it is read. -/
structure Agrees (rootId : Identity) (fp : Digest) (w : World) (es : List Entry)
    (tail : Bytes) : Prop where
  represents : Represents rootId w.log.cached es tail
  /-- The fold accepts every record, and finds what the last ones say. -/
  folds : fp ≠ zeroDigest → ∃ s, replay es = some s
    ∧ s.window = ((newest es).map RequestReplay.windowOf).getD {}
    ∧ s.pending = unsettled es ∧ s.serial = serialOf es
    ∧ ∃ j, examine rootId w.log.cached {} = .ok j ∧ j.count = es.length
      ∧ (es ≠ [] → readPrevious j w.log (fun _ => .ok) = .ok s)
  /-- Every identity but that of the first record is admitted, and once. -/
  once : ∀ e ∈ es, e.kind ≠ genesis →
    ((admissions es).map fun b => b.operationId).count e.operationId = 1
  /-- The record that will close the open session names what its admission names. -/
  session : ∀ id s, w.holder = some (id, s) → s.admitted = true → ∃ b, newest es = some b
    ∧ b.object = Sha256.hash (Protocol.encode s.header)
    ∧ ∀ o, RequestReplay.windowOf (terminal s o) = RequestReplay.windowOf b

section Agree

variable {rootId : Identity} {fp : Digest} {w : World} {es base : List Entry} {tail : Bytes}

lemma newest_last {b : Entry} (hlast : es.getLast? = some b) (hb : b.kind = begun) :
    newest es = some b := by
  obtain ⟨pre, rfl⟩ := List.getLast?_eq_some_iff.mp hlast
  exact newest_begun hb

theorem holds_agrees (h : Holds rootId fp w es tail base) : Agrees rootId fp w es tail := by
  refine ⟨h.cached, fun hfp => ?_, fun e he hk => ?_, fun id s hw hs => ?_⟩
  · obtain ⟨s, hs⟩ := h.ledger.replay_some hfp
    have ht := replay_tells hs
    obtain ⟨j, hj, hreads, -, hf⟩ := examine_represents h.cached
    exact ⟨s, hs, ht.window, ht.pending, ht.serial, j, hj, hreads.count,
      fun hne => readPrevious_of h.cached hreads hf hne hs⟩
  · obtain ⟨b, hb, hw⟩ := h.ledger.owned he hk
    have hid : b.operationId = e.operationId := congrArg Window.requestId hw
    refine List.count_eq_one_of_mem ?_ (hid ▸ List.mem_map_of_mem hb)
    exact List.pairwise_map.mpr h.ledger.distinct
  · obtain ⟨b, hlast, hb, hw, -⟩ := (h.session id s hw).live hs
    exact ⟨b, newest_last hlast hb, congrArg Window.requestDigest hw, fun o => hw.symm⟩

end Agree

/-- However a ledger came about, its reader can read it. -/
def WritersAgree (good : VerifyDetached) (host : ProvisionHost) (calls : List Call) : Prop :=
  ∀ l w, life good host calls = some (l, w) →
    ∃ rootId es tail, Agrees rootId (Sha256.hash host.policy.data) w es tail

/-- **What is written can be read.** -/
theorem writers_agree (good : VerifyDetached) (host : ProvisionHost) (calls : List Call)
    (hcf : Sha256.CollisionFree (policyFiles calls)) : WritersAgree good host calls := by
  intro l w hl
  obtain ⟨p, d, es, tail, base, hload, hh, -⟩ := holds_life hcf hl
  obtain ⟨-, rfl⟩ := load_ok hload
  exact ⟨p.rootId, es, tail, holds_agrees hh⟩

/-! ### A site -/

/-- The key under which the requests below are signed. -/
def operatorKey : PublicKey :=
  Block.ofBytes 32 (be 32 0xea4a6c63e29c520abef5507b132ec5f9954776aebebe7b92421eea691446d22c)

/-- A policy that allows every kind of message. -/
def site : Bytes := Sha256.withDigest 480
  (SitePolicy.magic ++ (Block.fill 16 20).bytes ++ (Block.fill 16 21).bytes
    ++ (Block.fill 16 22).bytes ++ (Block.fill 16 20).bytes ++ be 8 1 ++ be 8 1
    ++ be 4 (2 ^ 20 - 1) ++ be 4 0 ++ operatorKey.bytes ++ fingerprint.bytes ++ be 32 0
    ++ be 8 3600000 ++ be 8 1000 ++ be 8 1 ++ be 8 5000 ++ (Block.fill 32 30).bytes
    ++ (Block.fill 32 31).bytes ++ (Block.fill 32 32).bytes ++ (Block.fill 32 33).bytes
    ++ (Block.fill 32 34).bytes)

/-- Request `n`, which asks for `a` in transaction `t`; its body has the digest `bodyDigest`. -/
def order (a : RequestedAction) (n : Counter) (t : Byte) (bodyDigest signature : ℕ) :
    Submission where
  header := Protocol.encode
    { kind := expected a, bodyLength := 192, requestId := Block.fill 16 (BitVec.ofNat 8 n)
      clusterId := Block.fill 16 21, nodeId := Block.fill 16 22, resourceId := Block.fill 16 20
      membershipEpoch := 1, fenceToken := 1, sequenceNumber := n, deadline := 2000
      bootId := Block.fill 16 23, bodyDigest := Block.ofBytes 32 (be 32 bodyDigest) }
  body := Requests.encode
    { action := a, transactionId := Block.fill 16 t, planDigest := Block.fill 32 t
      contractDigest := fingerprint, expectedRevision := 1, stageSetDigest := Block.fill 32 9 }
  signature := Block.ofBytes 64 (be 64 signature)

/-- Transaction 1 is applied. -/
def applyFirst : Submission := order .apply 1 1
  0x0ded258efaa96b054ed845b8fab38d3bfb30d6ec85041ff42e66d8774f0e1fe1
  0xe2ef22c7ea25c718e8e6989e1412867ac1853b4028726cc78aaa9cb005862418c2c55eb2f143635bdd18513c76238d13c09f2d0f7218585ed99fccbb4cbccc0d

/-- Transaction 1 is recovered. -/
def recoverFirst : Submission := order .recover 2 1
  0xe455f3c69363844542abc8b025ae445bd877a4122606329e4cbc5cc7c03b57ee
  0x1db2292808bba40e2975346e194bd518a45816788d9f46c6c701e54f7681d531608dd1c7f78b9cc1a3d3d01de69a5d915c77c6d580897bc36381e7c7d8bd2707

/-- Transaction 2 is applied. -/
def applySecond : Submission := order .apply 3 2
  0x90ce9bed0626eb917cb852b60c06b56479feec1cdc5084a572e7878ed11b4eb4
  0x3d106bb6604ddf850401c78df2cc1b480d96605d265cd12594a7433bb5f5c440ad144a93ce3cc5bbe54b881b8785eea6f22ef13b090af345d4def2b0c0200b0a

/-- The signatures of the requests, which are Ed25519 signatures under `operatorKey`; no other
is good. -/
def signed : VerifyDetached := fun sig message key =>
  decide (key = operatorKey) && [applyFirst, recoverFirst, applySecond].any fun x =>
    decide (sig = x.signature ∧ message = domain ++ x.header)

def siteHost : ProvisionHost := { policy := ⟨.ok, site⟩ }

def beginHost : BeginHost :=
  { policy := ⟨.ok, site⟩, utc := 1, bootId := Block.fill 16 23, now := 1000 }

def ledgerHost : LedgerHost :=
  { policy := ⟨.ok, site⟩, utc := 1, bootId := Block.fill 16 23, now := 1000
    policyAgain := ⟨.ok, site⟩, nowAgain := 1000 }

/-- A request that is applied, and then a repair. -/
def repaired : List Call :=
  [⟨.begin 0 applyFirst beginHost, none⟩, ⟨.finish 0 .indeterminate {}, none⟩, ⟨.close 0, none⟩,
    ⟨.repair recoverFirst ledgerHost, none⟩]

lemma repaired_collisionFree : Sha256.CollisionFree (policyFiles repaired) := by
  intro x hx y hy _
  have hall : ∀ b ∈ policyFiles repaired, b = site := by
    simp [policyFiles, repaired, ledgerHost]
  rw [hall x hx, hall y hy]

theorem writers_agree_repaired : WritersAgree signed siteHost repaired :=
  writers_agree signed siteHost repaired repaired_collisionFree

/-- What is seen of a run: the answers, whether the ledger is free, and its records, as long as
they are, by kind, by the request they belong to and by the policy. -/
structure Seen where
  answers : List (Option Answer)
  free : Bool
  size : ℕ
  records : List (Option (Fin 65536 × Window × Counter))
  deriving DecidableEq

def seen (r : History × World) : Seen where
  answers := r.1.map fun x => x.2
  free := r.2.holder.isNone
  size := r.2.log.cached.length
  records := (List.range (r.2.log.cached.length / 256)).map fun i =>
    (LogFormat.decode (frame r.2.log.cached i)).map fun e =>
      (e.kind, RequestReplay.windowOf e, e.generation)

/-- The windows of the records at the site. -/
def siteWindow (sequenceNumber : Counter) (requestId : Byte) (requestDigest : ℕ) : Window where
  epoch := if sequenceNumber = 0 then 0 else 1
  token := if sequenceNumber = 0 then 0 else 1
  sequenceNumber := sequenceNumber
  requestId := Block.fill 16 requestId
  requestDigest := Block.ofBytes 32 (be 32 requestDigest)

def genesisWindow : Window :=
  siteWindow 0 20 0x47b3236a4107b90fd51600831a8d56087c89a2a8efd8e12b5ffba998840d6b71

def applyFirstWindow : Window :=
  siteWindow 1 1 0xe32aa3da92b033f904fdb19498fa3f3313aebdeeebe48aad10671a286e29b2e1

def recoverFirstWindow : Window :=
  siteWindow 2 2 0x70b4f0b0805a0a5abce0719ffdf618ad6d9df0fbe78abfa6c737a3103b77294b

def applySecondWindow : Window :=
  siteWindow 3 3 0xbe36e228c5ce9c6ce9ed3b3ea2beb3454bc721a42800fe719ebbec2b01b01cea

/-- What the records of a file are seen to be. -/
lemma seen_records {l : History} {w : World} {rootId : Identity} {es : List Entry}
    {tail : Bytes} (h : Represents rootId w.log.cached es tail) : (seen (l, w)).records =
      es.map fun e => some (e.kind, RequestReplay.windowOf e, e.generation) := by
  have hd := congrArg (List.map (Option.map fun e =>
    (e.kind, RequestReplay.windowOf e, e.generation))) h.decoded
  rw [← h.count_eq, List.map_map, List.map_map] at hd
  exact hd

end NiayanAssurance.GateRuns
