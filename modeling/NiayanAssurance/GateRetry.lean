import NiayanAssurance.GateRuns

/-!
A request is admitted at most once. One that comes again is answered with what the ledger says
of it, as long as it is the newest; an older one is refused.
-/

namespace NiayanAssurance.GateRetry

open NiayanAssurance.Lib NiayanAssurance.Types NiayanAssurance.LogFormat
open NiayanAssurance.Log hiding World
open NiayanAssurance.Protocol NiayanAssurance.Requests NiayanAssurance.Ingress
open NiayanAssurance.Replay NiayanAssurance.SitePolicy NiayanAssurance.LogFile
open NiayanAssurance.RequestReplay NiayanAssurance.ReplaySpec
open NiayanAssurance.Gate hiding genesis
open NiayanAssurance.GateSpec NiayanAssurance.GateLedger NiayanAssurance.GateRuns

/-! ### One request -/

/-- The submission passes every check that does not compare it with the requests before it,
and no call to the host fails. -/
structure Passes (good : VerifyDetached) (rootId : Identity) (es : List Entry) (x : Submission)
    (host : BeginHost) (p : Policy) (h : Header) (r : Request) : Prop where
  policy : ∃ d, readPolicy host.toEnterHost = .ok (p, d)
  rootId : p.rootId = rootId
  serial : (serialOf es : ℕ) ≤ p.serial
  authorized : Authorized good x.header x.body x.signature p.requestKey p.scope p.contract
    host.now h r
  revision : r.expectedRevision = p.serial
  log : host.log = {}
  readAt : host.readAt = fun _ => .ok
  lastRead : host.lastRead = .ok
  sodium : host.sodium = true

/-- The ledger has a record that ends the request of `b` for good, and it is `e`. -/
def Ends (es : List Entry) (b e : Entry) : Prop :=
  e ∈ es ∧ Known e ∧ RequestReplay.windowOf e = RequestReplay.windowOf b

section Retry

variable {good : VerifyDetached} {rootId : Identity} {fp : Digest} {w : World}
  {es base : List Entry} {tail : Bytes} {id : ℕ} {x : Submission} {host : BeginHost}
  {p : Policy} {h : Header} {r : Request} {d : Directory Name} {f : File} {j : Journal}
  {before : State} {b e : Entry}

lemma judge_retry (hb : readPrevious j f host.readAt = .ok before)
    (hser : (before.serial : ℕ) ≤ p.serial)
    (ha : Authorized good x.header x.body x.signature p.requestKey p.scope p.contract host.now
      h r) (hrev : r.expectedRevision = p.serial) (hsod : host.sodium = true)
    (hw : check before.window (Ingress.windowOf h x.header) = .exactRetry)
    (he : j.read f j.count host.lastRead = .ok e) : judge good d f j p x host =
      .ok ⟨.exactRetry, before.pending, h, r,
        if before.pending then .indeterminate else e.result⟩ := by
  unfold judge
  simp only [hb, if_neg (Nat.not_lt.mpr hser), hsod, checkRequest_of ha hw, ha.header, he]
  rw [if_neg (not_not.mpr hrev), if_pos trivial]

variable (id) in
lemma begin_retry {v : Judged} {dig : Digest} (hfree : w.holder = none)
    (hlen : x.header.length = 160) (hbody : x.body.length = bodySize)
    (hp : readPolicy host.toEnterHost = .ok (p, dig))
    (ho : openLedger w p.rootId host.log = ({ w with directory := w.directory.sync }, some j, .ok))
    (hv : judge good w.directory.sync w.log j p x host = .ok v) (hd : v.decision = .exactRetry) :
    (beginRequest good w id x host).1.log = w.log ∧ (beginRequest good w id x host).2 =
      ⟨.ok, some (if v.pending then .unknownRetry else .knownRetry), some v.lastResult⟩ := by
  unfold beginRequest
  simp [hfree, hlen, hbody, hp, ho, hv, hd]

/-- The ledger of `w` can be opened under its own root. -/
lemma open_of (h : Holds rootId fp w es tail base) (hfree : w.holder = none) (ht : tail = [])
    (h0 : rootId ≠ zeroIdentity) : ∃ j, Reads j rootId es tail ∧ j.filePoisoned = false
      ∧ openLedger w rootId {} = ({ w with directory := w.directory.sync }, some j, .ok) := by
  obtain ⟨j, hx, hreads, -, hf⟩ := examine_represents h.cached
  refine ⟨j, hreads, hf, ?_⟩
  simp [openLedger, hfree, openLog, h0, hx, hreads.status, ht]

/-- **The newest request again**: the answer is what the ledger says of it. -/
theorem retry_newest (hh : Holds rootId fp w es tail base) (hfree : w.holder = none)
    (ht : tail = []) (hn : newest es = some b)
    (hw : Ingress.windowOf h x.header = RequestReplay.windowOf b)
    (hp : Passes good rootId es x host p h r) :
    (beginRequest good w id x host).1.log = w.log
      ∧ ((∃ e, Ends es b e ∧ (beginRequest good w id x host).2 =
            ⟨.ok, some .knownRetry, some e.result⟩)
        ∨ (¬ ∃ e, Ends es b e) ∧ (beginRequest good w id x host).2 =
            ⟨.ok, some .unknownRetry, some .indeterminate⟩) := by
  have hmem := (mem_admissions.mp (newest_mem hn)).1
  have hne : es ≠ [] := List.ne_nil_of_mem hmem
  -- a ledger with an admission can be read
  obtain ⟨s, hs⟩ : ∃ s, replay es = some s :=
    hh.ledger.replays.resolve_right fun ⟨_, g, hg, hk⟩ => by
      rw [hg, List.mem_singleton] at hmem
      have hb := (mem_admissions.mp (newest_mem hn)).2
      rw [hmem, hk] at hb
      exact absurd hb (by decide)
  have htell := replay_tells hs
  obtain ⟨dig, hpol⟩ := hp.policy
  obtain ⟨j, hreads, hf, ho⟩ := open_of hh hfree ht (root_ne hh.cached hne)
  have hwin : s.window = RequestReplay.windowOf b := by rw [htell.window, hn]; rfl
  obtain ⟨pre, e, rfl⟩ : ∃ pre e, es = pre ++ [e] := by
    rcases List.eq_nil_or_concat es with h | ⟨pre, e, h⟩
    · exact absurd h hne
    · exact ⟨pre, e, by simpa using h⟩
  have hget : (pre ++ [e])[pre.length]? = some e := by simp
  have hcount : j.count = pre.length + 1 := by rw [hreads.count]; simp
  have hv : judge good w.directory.sync w.log j p x host =
      .ok ⟨.exactRetry, s.pending, h, r, if s.pending then .indeterminate else e.result⟩ := by
    refine judge_retry ?_ ?_ hp.authorized hp.revision hp.sodium ?_ ?_
    · rw [hp.readAt]
      exact readPrevious_of hh.cached hreads hf hne hs
    · rw [htell.serial]
      exact hp.serial
    · rw [hwin, hw]
      have hobj : (RequestReplay.windowOf b).requestDigest ≠ zeroDigest :=
        admission_object hs (newest_mem hn)
      rw [← hw] at hobj ⊢
      exact check_self (hp.authorized.filled hobj)
    · rw [hcount, hp.lastRead]
      exact read_eq hh.cached hreads hf hget
  have hb := begin_retry id hfree (decode_length hp.authorized.header)
    (requests_decode_length hp.authorized.request) hpol (by rw [hp.rootId, hp.log]; exact ho)
    hv rfl
  refine ⟨hb.1, ?_⟩
  rw [hb.2]
  cases hpend : s.pending with
  | false =>
    obtain ⟨e', hlast, hk, hwe⟩ := htell.closed hpend b hn
    obtain rfl : e = e' := by simpa using hlast
    exact .inl ⟨e, ⟨by simp, hk, hwe⟩, rfl⟩
  | true =>
    refine .inr ⟨?_, rfl⟩
    rintro ⟨e', he', hk, hwe⟩
    have := (htell.ended e' he' hk (hwe.trans hwin.symm)).2
    rw [hpend] at this
    cases this

/-- **An older request** is refused. -/
theorem retry_older (hh : Holds rootId fp w es tail base) (hb : b ∈ admissions es)
    (hn : newest es ≠ some b) (hd : Protocol.decode x.header = .ok h)
    (hw : Ingress.windowOf h x.header = RequestReplay.windowOf b) :
    (beginRequest good w id x host).1.log = w.log ∧
      (beginRequest good w id x host).2.status ≠ .ok := by
  -- a request that was judged is the newest or a later one
  have hno : ∀ {p : Policy} {dig : Digest} {j : Journal} {v : Judged},
      Entered w host.toEnterHost p dig j →
      judge good w.directory.sync w.log j p x host = .ok v → False := by
    intro p dig j v he hv
    obtain ⟨before, e, hjud⟩ := judge_ok hv
    obtain ⟨-, hs, -⟩ := hh.judged he hjud.previous
    obtain rfl := Except.ok.inj (hd.symm.trans hjud.authorized.header)
    have htell := replay_tells hs
    have hdec := hjud.decision
    rw [hw] at hdec
    obtain ⟨h1, h2⟩ := check_before (htell.before_window hb hn)
    rcases hjud.admissible with hx | ⟨hx, -⟩
    · exact h2 (hdec.trans hx)
    · exact h1 (hdec.trans hx)
  have hc := begin_cases good w id x host
  generalize beginRequest good w id x host = a at hc ⊢
  obtain ⟨w', a⟩ := a
  dsimp only at hc ⊢
  cases hc with
  | refused hw ho => exact ⟨hw.log, ho⟩
  | retry he ht hv => exact (hno he hv).elim
  | placed he ht hv => exact (hno he hv).elim
  | appended he ht hv => exact (hno he hv).elim
  | admitted he ht hv => exact (hno he hv).elim

/-- **A torn tail**: nothing is answered about any request until the ledger is repaired. -/
theorem retry_torn (hh : Holds rootId fp w es tail base) (hfree : w.holder = none)
    (ht : tail ≠ []) (hne : es ≠ []) (hp : Passes good rootId es x host p h r) :
    (beginRequest good w id x host).2 = refused .indeterminate := by
  have h0 := root_ne hh.cached hne
  obtain ⟨dig, hpol⟩ := hp.policy
  obtain ⟨j, hx, hreads, -, hf⟩ := examine_represents hh.cached
  have ho : openLedger w rootId {} =
      ({ w with directory := w.directory.sync }, some j, .indeterminate) := by
    simp [openLedger, hfree, openLog, h0, hx, hreads.status, ht]
  have hlen := decode_length hp.authorized.header
  have hbody : x.body.length = bodySize := requests_decode_length hp.authorized.request
  unfold beginRequest
  simp [hfree, hlen, hbody, hpol, hp.rootId, hp.log, ho]

/-- A request that is new passes what it can pass later on. -/
lemma passes_of_new (hh : Holds rootId fp w es tail base) {o : Outcome}
    (ha : (beginRequest good w id x host).2 = ⟨.ok, some .newRequest, some o⟩) :
    ∃ p h r, (∃ d, readPolicy host.toEnterHost = .ok (p, d)) ∧ p.rootId = rootId
      ∧ Authorized good x.header x.body x.signature p.requestKey p.scope p.contract host.now h r
      ∧ r.expectedRevision = p.serial := by
  have hc := begin_cases good w id x host
  generalize beginRequest good w id x host = a at hc ha
  obtain ⟨w', a⟩ := a
  dsimp only at hc ha
  have hrefused : ∀ {o' : Outcome}, refused o' ≠ ⟨.ok, some .newRequest, some o⟩ := by
    simp [refused]
  cases hc with
  | refused => exact absurd ha hrefused
  | @retry _ _ _ v => cases hv : v.pending <;> simp [hv] at ha
  | placed => exact absurd ha hrefused
  | appended => exact absurd ha hrefused
  | @admitted p d j j' v dir f he ht hv =>
    obtain ⟨before, e, hjud⟩ := judge_ok hv
    obtain ⟨-, -, hroot, -⟩ := hh.judged he hjud.previous
    exact ⟨p, v.header, v.content, ⟨d, he.policy⟩, hroot, hjud.authorized, hjud.revision⟩

end Retry

/-! ### Every run -/

/-- What was admitted, in a run that has led to the ledger `es`, is admitted once. -/
structure AdmitsOnce (good : VerifyDetached) (l : History) (w : World) (rootId : Identity)
    (es : List Entry) (tail : Bytes) : Prop where
  represents : Represents rootId w.log.cached es tail
  once : ∀ header, (l.filter (isNew header)).length ≤ 1
  recorded : ∀ header, ∀ c ∈ l, isNew header c = true → Admitted header es
  again : tail = [] → w.holder = none → ∀ id x host p h r b, newest es = some b →
    Ingress.windowOf h x.header = RequestReplay.windowOf b → Passes good rootId es x host p h r →
    (beginRequest good w id x host).1.log = w.log
      ∧ ((∃ e, Ends es b e ∧ (beginRequest good w id x host).2 =
            ⟨.ok, some .knownRetry, some e.result⟩)
        ∨ (¬ ∃ e, Ends es b e) ∧ (beginRequest good w id x host).2 =
            ⟨.ok, some .unknownRetry, some .indeterminate⟩)
  refused : ∀ id x host h, ∀ b ∈ admissions es, newest es ≠ some b →
    Protocol.decode x.header = .ok h →
    Ingress.windowOf h x.header = RequestReplay.windowOf b →
    (beginRequest good w id x host).1.log = w.log
      ∧ (beginRequest good w id x host).2.status ≠ .ok

def AtMostOnce (good : VerifyDetached) (host : ProvisionHost) (calls : List Call) : Prop :=
  ∀ l w, life good host calls = some (l, w) →
    ∃ rootId es tail, AdmitsOnce good l w rootId es tail

/-- **A request is admitted at most once.** -/
theorem at_most_once (good : VerifyDetached) (host : ProvisionHost) (calls : List Call)
    (hcf : Sha256.CollisionFree (policyFiles calls)) : AtMostOnce good host calls := by
  intro l w hl
  obtain ⟨p, d, es, tail, base, hload, hh, hp⟩ := holds_life hcf hl
  obtain ⟨es₂, tail₂, -, hpre, hbase⟩ := hh.stable
  refine ⟨p.rootId, es, tail, hh.cached, hp.once, fun header c hc hn =>
    admitted_mono (hp.admitted header c hc hn) (hbase.trans hpre), ?_, ?_⟩
  · intro ht hfree id x host p' h r b hn hw hpass
    exact retry_newest hh hfree ht hn hw hpass
  · intro id x host h b hb hn hd hw
    exact retry_older hh hb hn hd hw

theorem at_most_once_repaired : AtMostOnce signed siteHost repaired :=
  at_most_once signed siteHost repaired repaired_collisionFree

/-! ### A torn tail -/

/-- The first request is done; the record of the second one is torn by a crash. -/
def torn : List Call :=
  [⟨.begin 0 applyFirst beginHost, none⟩, ⟨.finish 0 .ok {}, none⟩, ⟨.close 0, none⟩,
    ⟨.begin 0 recoverFirst { beginHost with append := ⟨true, .short 100⟩ },
      some (.machine false 1000 fun _ => true)⟩]

set_option maxRecDepth 10000 in
lemma torn_seen : (life signed siteHost torn).map seen = some
    { answers := [some ⟨.ok, some .newRequest, some .ok⟩, some ⟨.ok, none, none⟩,
        some ⟨.ok, none, none⟩, none]
      free := true
      size := 868
      records := [some (genesis, genesisWindow, 1), some (begun, applyFirstWindow, 1),
        some (knownOk, applyFirstWindow, 1)] } := by decide +kernel

lemma applyFirst_revision {r : Request} (h : Requests.decode applyFirst.body = .ok r) :
    r.expectedRevision = 1 := by
  have hc : (Requests.decode applyFirst.body).toOption.map (·.expectedRevision)
      = some 1 := by decide +kernel
  rw [h] at hc
  exact Option.some.inj hc

/-- **A request that is done, and is the newest, is not told so** while the tail of another one
is in the way. -/
theorem torn_refused : ∃ l w rootId es tail b e p h r, life signed siteHost torn = some (l, w)
    ∧ (∃ c ∈ l, isNew applyFirst.header c = true) ∧ w.holder = none
    ∧ Represents rootId w.log.cached es tail ∧ newest es = some b
    ∧ Ingress.windowOf h applyFirst.header = RequestReplay.windowOf b ∧ Ends es b e
    ∧ Passes signed rootId es applyFirst beginHost p h r
    ∧ (beginRequest signed w 0 applyFirst beginHost).2 = ⟨.indeterminate, some .unknownRetry, none⟩
    := by
  obtain ⟨⟨l, w⟩, hl, hseen⟩ := Option.map_eq_some_iff.mp torn_seen
  obtain ⟨w₀, hw₀, hx⟩ := Option.map_eq_some_iff.mp hl
  obtain ⟨p₀, d₀, es₀, tail₀, hload₀, hh₀, -⟩ := holds_provision hw₀
  obtain ⟨p₁, d, es, tail, base, hload, hh, hpast⟩ :=
    holds_life (show Sha256.CollisionFree (policyFiles torn) by simp [policyFiles, torn,
      Sha256.CollisionFree]) hl
  obtain ⟨rfl, rfl⟩ := Prod.mk.inj (Except.ok.inj (hload₀.symm.trans hload))
  obtain ⟨hans, hfree, hsize, -⟩ := Seen.mk.inj hseen
  -- the ledger has three records, and bytes of a fourth
  have hrec := (seen_records (l := l) hh.cached).symm.trans (congrArg Seen.records hseen)
  obtain ⟨g, b, e, rfl⟩ := List.length_eq_three.mp (by simpa using congrArg List.length hrec)
  simp only [List.map_cons, List.map_nil, List.cons.injEq, Option.some.injEq, Prod.mk.injEq,
    and_true] at hrec
  obtain ⟨⟨hg, -, -⟩, ⟨hb, hwb, -⟩, he, hwe, hserial⟩ := hrec
  have htail : tail ≠ [] := by
    rintro rfl
    have := hh.cached.tail_eq
    rw [hsize] at this
    cases this
  have hnew : newest [g, b, e] = some b := by
    simp [newest, admissions, hg, hb, he, genesis, begun, knownOk]
  have hfree : w.holder = none := by simpa using hfree
  -- the first call has admitted the request
  obtain ⟨more, hl₁⟩ : ∃ more, l = (⟨.begin 0 applyFirst beginHost, none⟩,
      some (beginRequest signed w₀ 0 applyFirst beginHost).2) :: more :=
    ⟨_, (Prod.mk.inj hx).1.symm⟩
  rw [hl₁] at hans
  have hfirst : (beginRequest signed w₀ 0 applyFirst beginHost).2 =
      ⟨.ok, some .newRequest, some .ok⟩ := Option.some.inj (List.cons.inj hans).1
  obtain ⟨p, h, r, hpol, hroot, hauth, hrev⟩ := passes_of_new hh₀ hfirst
  have hpass : Passes signed p₀.rootId [g, b, e] applyFirst beginHost p h r := by
    refine ⟨hpol, hroot, ?_, hauth, hrev, rfl, rfl, rfl, rfl⟩
    rw [← hrev, applyFirst_revision hauth.request]
    simp [serialOf, hserial]
  obtain ⟨es₂, tail₂, -, hpre, hbase⟩ := hh.stable
  have hmem : ∃ c ∈ l, isNew applyFirst.header c = true := by
    refine ⟨_, hl₁ ▸ List.mem_cons_self, ?_⟩
    rw [hfirst]
    exact isNew_begin
  obtain ⟨c, hc, hcnew⟩ := hmem
  obtain ⟨h', b', hdec, hb', hwin⟩ := admitted_mono (hpast.admitted _ c hc hcnew)
    (hbase.trans hpre)
  obtain rfl := Except.ok.inj (hdec.symm.trans hauth.header)
  have hbb : b' = b := by
    simpa [admissions, hg, hb, he, genesis, begun, knownOk] using hb'
  exact ⟨l, w, p₀.rootId, _, tail, b, e, p, h', r, hl, ⟨c, hc, hcnew⟩, hfree, hh.cached, hnew,
    hbb ▸ hwin.symm, ⟨by simp, .inl he, hwe.trans hwb.symm⟩, hpass,
    retry_torn hh hfree htail (by simp) hpass⟩

end NiayanAssurance.GateRetry
