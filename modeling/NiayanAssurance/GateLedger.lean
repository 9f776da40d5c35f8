import NiayanAssurance.GateSpec

/-!
The invariant of a receiver: its ledger, the envelopes beside it, and the session that has it
open.

A record of an admission does not say what was asked for. The request is in the envelope that
the record names, so the rule that a pending request admits nothing but its own recovery joins
the ledger with the files.
-/

namespace NiayanAssurance.GateLedger

open NiayanAssurance.Lib NiayanAssurance.Types NiayanAssurance.LogFormat
open NiayanAssurance.Log hiding World
open NiayanAssurance.Protocol NiayanAssurance.Requests NiayanAssurance.Ingress
open NiayanAssurance.Replay NiayanAssurance.SitePolicy NiayanAssurance.LogFile
open NiayanAssurance.RequestReplay NiayanAssurance.ReplaySpec
open NiayanAssurance.Gate hiding genesis
open NiayanAssurance.GateSpec

/-! ### Envelopes -/

/-- The envelope of the admission `e` is among the files, and asks for `r`. -/
def Recorded (files : Name → Option Bytes) (e : Entry) (r : Request) : Prop :=
  ∃ env h, files (.request e.operationId) = some env ∧ env.length = 416
    ∧ Protocol.decode (range env 1 160) = .ok h
    ∧ Ingress.windowOf h (range env 1 160) = RequestReplay.windowOf e
    ∧ Requests.decode (range env 161 352) = .ok r

section Envelopes

variable {files files' : Name → Option Bytes} {e e' : Entry} {r r' : Request}

lemma Recorded.mono (h : Recorded files e r) (hf : Directory.Extends files files') :
    Recorded files' e r := by
  obtain ⟨env, hdr, h1, h2⟩ := h
  exact ⟨env, hdr, hf _ _ h1, h2⟩

lemma Recorded.unique (h : Recorded files e r) (h' : Recorded files e r') : r = r' := by
  obtain ⟨env, hdr, h1, -, -, -, h5⟩ := h
  obtain ⟨env', hdr', h1', -, -, -, h5'⟩ := h'
  obtain rfl := Option.some.inj (h1.symm.trans h1')
  exact Except.ok.inj (h5.symm.trans h5')

/-- One name has one envelope, so one number. -/
lemma Recorded.window_eq (h : Recorded files e r) (h' : Recorded files e' r')
    (hid : e.operationId = e'.operationId) :
    RequestReplay.windowOf e = RequestReplay.windowOf e' := by
  obtain ⟨env, hdr, h1, -, h3, h4, -⟩ := h
  obtain ⟨env', hdr', h1', -, h3', h4', -⟩ := h'
  rw [hid] at h1
  obtain rfl := Option.some.inj (h1.symm.trans h1')
  obtain rfl := Except.ok.inj (h3.symm.trans h3')
  exact h4.symm.trans h4'

lemma requests_decode_length {b : Bytes} (h : Requests.decode b = .ok r) : b.length = 192 := by
  replace h := returned_ok.1 h
  unfold Requests.decodeOut at h
  split at h
  · cases h
  · rename_i hl
    exact not_not.mp hl

/-- The envelope that is stored is that of the request. -/
lemma recorded_envelope {good : VerifyDetached} {x : Submission} {key : PublicKey} {scope : Scope}
    {contract : Digest} {now : Counter} {h : Header}
    (ha : Authorized good x.header x.body x.signature key scope contract now h r)
    (hf : files (.request h.requestId) = some x.envelope)
    (hw : RequestReplay.windowOf e = Ingress.windowOf h x.header) : Recorded files e r := by
  have h1 := decode_length ha.header
  have h2 := requests_decode_length ha.request
  have hid : e.operationId = h.requestId := congrArg Window.requestId hw
  have hhead : range x.envelope 1 160 = x.header := by
    rw [Submission.envelope, List.append_assoc]
    exact range_head h1
  have hbody : range x.envelope 161 352 = x.body := by
    rw [Submission.envelope, List.append_assoc, range_right (by omega), h1]
    exact range_head h2
  refine ⟨x.envelope, h, by rw [hid]; exact hf, by simp [Submission.envelope, h1, h2], ?_, ?_, ?_⟩
  · rw [hhead]
    exact ha.header
  · rw [hhead, hw]
  · rw [hbody]
    exact ha.request

/-- **The stored request is found**, and it is the one that was admitted. -/
lemma priorRequest_recorded {d : Directory Name} (h : Recorded d.cached e r) :
    priorRequest d (RequestReplay.windowOf e) .ok = .ok r := by
  obtain ⟨env, hdr, h1, h2, h3, h4, h5⟩ := h
  have hd : Sha256.hash (range env 1 160) = (RequestReplay.windowOf e).requestDigest :=
    congrArg Window.requestDigest h4
  have hread : Atomic.read d (.request (RequestReplay.windowOf e).requestId) 416 .ok = .ok env :=
    Atomic.read_some h1 (by omega)
  unfold priorRequest
  rw [hread]
  simp [h2, hd, h5]

lemma priorRequest_ok {d : Directory Name} {window : Window} {readAt : Outcome}
    (h : Recorded d.cached e r) (hw : window = RequestReplay.windowOf e)
    (hp : priorRequest d window readAt = .ok r') : r' = r := by
  obtain ⟨env, hdr, h1, h2, h3, h4, h5⟩ := h
  subst hw
  unfold priorRequest at hp
  split at hp
  · cases hp
  rename_i prior hr
  have := Atomic.read_ok hr
  obtain rfl := Option.some.inj (this.symm.trans h1)
  split at hp
  · cases hp
  split at hp
  · cases hp
  · rename_i hdec
    obtain rfl := Except.ok.inj hp
    exact Except.ok.inj (hdec.symm.trans h5)

end Envelopes

/-! ### Ledgers -/

/-- `r` may follow the records `es`: what is pending admits its own recovery only. -/
def Admissible (files : Name → Option Bytes) (es : List Entry) (r : Request) : Prop :=
  unsettled es = true → ∃ n r', newest es = some n ∧ Recorded files n r' ∧ Recovery r.action
    ∧ r.transactionId = r'.transactionId ∧ r.planDigest = r'.planDigest

/-- A ledger that a gate has written, with the files beside it. It can be read, unless the
fingerprint `fp` of the policy that it was made under is the digest that stands for none; then
nothing has come after its first record. -/
structure Ledger (fp : Digest) (files : Name → Option Bytes) (es : List Entry) : Prop where
  replays : (∃ s, replay es = some s) ∨ fp = zeroDigest ∧ ∃ g, es = [g] ∧ g.kind = genesis
  recorded : ∀ b ∈ admissions es, ∃ r, Recorded files b r
  barrier : ∀ pre b post, es = pre ++ b :: post → b.kind = begun →
    ∃ r, Recorded files b r ∧ Admissible files pre r

section Ledgers

variable {fp : Digest} {files files' : Name → Option Bytes} {es es' : List Entry} {e : Entry}
  {r : Request} {s : State}

lemma Admissible.mono (h : Admissible files es r) (hf : Directory.Extends files files') :
    Admissible files' es r := fun hu => by
  obtain ⟨n, r', h1, h2, h3⟩ := h hu
  exact ⟨n, r', h1, h2.mono hf, h3⟩

lemma ledger_nil (fp : Digest) (files : Name → Option Bytes) : Ledger fp files [] :=
  ⟨.inl ⟨{}, rfl⟩, by simp, by simp⟩

lemma Ledger.mono (h : Ledger fp files es) (hf : Directory.Extends files files') :
    Ledger fp files' es := by
  refine ⟨h.replays, fun b hb => ?_, fun pre b post hes hk => ?_⟩
  · obtain ⟨r, hr⟩ := h.recorded b hb
    exact ⟨r, hr.mono hf⟩
  · obtain ⟨r, hr, ha⟩ := h.barrier pre b post hes hk
    exact ⟨r, hr.mono hf, ha.mono hf⟩

lemma Ledger.of_prefix (h : Ledger fp files es') (hp : es <+: es') : Ledger fp files es := by
  obtain ⟨t, rfl⟩ := hp
  refine ⟨?_, fun b hb => h.recorded b ?_, fun pre b post hes hk => ?_⟩
  · rcases h.replays with ⟨s, hs⟩ | ⟨hz, g, hg, hk⟩
    · exact .inl (replay_append hs)
    · rcases List.append_eq_singleton_iff.mp hg with ⟨rfl, -⟩ | ⟨rfl, -⟩
      · exact .inl ⟨{}, rfl⟩
      · exact .inr ⟨hz, g, rfl, hk⟩
  · rw [admissions_append]
    exact List.mem_append_left _ hb
  · exact h.barrier pre b (post ++ t) (by rw [hes]; simp) hk

/-- The last place of a list that has grown by one. -/
lemma snoc_split {α : Type*} {xs pre post : List α} {x y : α} (h : xs ++ [x] = pre ++ y :: post) :
    (pre = xs ∧ y = x ∧ post = []) ∨ ∃ post', post = post' ++ [x] ∧ xs = pre ++ y :: post' := by
  rcases List.eq_nil_or_concat post with rfl | ⟨post', z, rfl⟩
  · obtain ⟨h1, h2⟩ := List.append_inj' h rfl
    exact .inl ⟨h1.symm, (List.singleton_inj.mp h2).symm, rfl⟩
  · right
    have h' : xs ++ [x] = (pre ++ y :: post') ++ [z] := by simpa using h
    obtain ⟨h1, h2⟩ := List.append_inj' h' rfl
    exact ⟨post', by simp [List.singleton_inj.mp h2], h1⟩

lemma Ledger.snoc (h : Ledger fp files es) (hs : replay es = some s) {s' : State}
    (hc : consume s e = some s')
    (hb : e.kind = begun → ∃ r, Recorded files e r ∧ Admissible files es r) :
    Ledger fp files (es ++ [e]) := by
  refine ⟨.inl ⟨s', by rw [replay_snoc, hs, Option.bind_some, hc]⟩, fun b hm => ?_,
    fun pre b post hes hk => ?_⟩
  · obtain ⟨hm, hk⟩ := mem_admissions.mp hm
    rcases List.mem_append.mp hm with hm | hm
    · exact h.recorded b (mem_admissions.mpr ⟨hm, hk⟩)
    · rw [List.mem_singleton.mp hm] at hk ⊢
      obtain ⟨r, hr, -⟩ := hb hk
      exact ⟨r, hr⟩
  · rcases snoc_split hes with ⟨rfl, rfl, -⟩ | ⟨post', -, rfl⟩
    · exact hb hk
    · exact h.barrier pre b post' rfl hk

/-- **No identity is admitted twice.** -/
theorem Ledger.distinct (h : Ledger fp files es) :
    (admissions es).Pairwise fun a b => a.operationId ≠ b.operationId := by
  rcases h.replays with ⟨s, hs⟩ | ⟨-, g, rfl, hk⟩
  swap
  · simp [admissions, hk, genesis, begun]
  refine (replay_tells hs).ordered.imp_of_mem fun {a b} ha hb hlt hid => ?_
  obtain ⟨r, hr⟩ := h.recorded a ha
  obtain ⟨r', hr'⟩ := h.recorded b hb
  rw [hr.window_eq hr' hid] at hlt
  exact Window.Before.irrefl _ hlt

lemma Ledger.replay_some (h : Ledger fp files es) (hfp : fp ≠ zeroDigest) :
    ∃ s, replay es = some s :=
  h.replays.resolve_right fun h => hfp h.1

/-- Every record but the first belongs to an admission. -/
lemma Ledger.owned (h : Ledger fp files es) (he : e ∈ es) (hk : e.kind ≠ genesis) :
    ∃ b ∈ admissions es, RequestReplay.windowOf b = RequestReplay.windowOf e := by
  rcases h.replays with ⟨s, hs⟩ | ⟨-, g, rfl, hg⟩
  · exact (replay_tells hs).owned e he hk
  · rw [List.mem_singleton.mp he] at hk
    exact absurd hg hk

end Ledgers

/-! ### The invariant -/

/-- A session and the ledger it has open. While it is admitted, its own admission is the last
record, and it will be closed under the numbers it was admitted under. -/
structure Open (rootId : Identity) (es : List Entry) (tail : Bytes) (s : Session) : Prop where
  reads : s.journal.poisoned = false → Reads s.journal rootId es tail
  live : s.admitted = true → ∃ b, es.getLast? = some b ∧ b.kind = begun
    ∧ RequestReplay.windowOf b = Ingress.windowOf s.header (Protocol.encode s.header)
    ∧ b.generation = s.policy.serial

/-- What a receiver holds: the ledger `es` and a torn `tail`, at least `base` of which is on
the medium, and the files beside it. -/
structure Holds (rootId : Identity) (fp : Digest) (w : World) (es : List Entry) (tail : Bytes)
    (base : List Entry) : Prop where
  cached : Represents rootId w.log.cached es tail
  stable : ∃ es' tail', Represents rootId w.log.stable es' tail' ∧ es' <+: es ∧ base <+: es'
  files : Directory.Extends w.directory.stable w.directory.cached
  ledger : Ledger fp w.directory.stable es
  session : ∀ id s, w.holder = some (id, s) → Open rootId es tail s

section Steps

variable {rootId : Identity} {fp : Digest} {w w' : World} {es base : List Entry} {tail : Bytes}
  {good : VerifyDetached} {x : Submission} {p : Policy} {d : Digest} {j j' : Journal} {f : File}
  {dir : Directory Name} {e : Entry} {o : Outcome} {s : State}

lemma root_ne (h : Represents rootId w.log.cached es tail) (hne : es ≠ []) :
    rootId ≠ zeroIdentity := by
  obtain ⟨e, he⟩ := List.exists_mem_of_ne_nil es hne
  rw [← (h.log.filled e he).2]
  exact (h.log.filled e he).1.2.2.1

lemma Holds.weaken {base' : List Entry} (h : Holds rootId fp w es tail base)
    (hb : base' <+: base) : Holds rootId fp w es tail base' := by
  obtain ⟨es', tail', h1, h2, h3⟩ := h.stable
  exact ⟨h.cached, ⟨es', tail', h1, h2, hb.trans h3⟩, h.files, h.ledger, h.session⟩

/-- The log as it is, with other files beside it and another session. -/
lemma Holds.same (h : Holds rootId fp w es tail base) {holder : Option (ℕ × Session)}
    (h1 : Directory.Extends w.directory.stable dir.stable)
    (h2 : Directory.Extends dir.stable dir.cached)
    (hs : ∀ id s, holder = some (id, s) → Open rootId es tail s) :
    Holds rootId fp ⟨w.log, dir, holder⟩ es tail base :=
  ⟨h.cached, h.stable, h2, h.ledger.mono h1, hs⟩

lemma Holds.touched (h : Holds rootId fp w es tail base) (ht : Touched w w') :
    Holds rootId fp w' es tail base := by
  obtain ⟨log, dir, holder⟩ := w'
  obtain ⟨h1, h2, h3⟩ := ht
  dsimp only at h1 h2 h3
  subst h1 h2
  rcases h3 with rfl | rfl
  · exact h.same (.refl _) h.files h.session
  · exact h.same h.files (.refl _) h.session

/-- **The append step.** Whatever becomes of an append of a record that the ledger may take,
what there is then is a ledger. -/
theorem Holds.append (h : Holds rootId fp w es tail base) (h0 : rootId ≠ zeroIdentity)
    (hj : j.poisoned = false → Reads j rootId es tail)
    (h1 : Directory.Extends w.directory.stable dir.stable)
    (h2 : Directory.Extends dir.stable dir.cached)
    (hl : Reads j rootId es tail → e.rootId = rootId → Ledger fp dir.stable (es ++ [j.next e]))
    (ha : Appends j w.log e j' f o) :
    (o ≠ .ok ∧ ∃ es' tail', (es' = es ∨ tail = [] ∧ es' = es ++ [j.next e])
        ∧ (j'.poisoned = false → Reads j' rootId es' tail')
        ∧ ∀ holder, (∀ id s, holder = some (id, s) → Open rootId es' tail' s) →
          Holds rootId fp ⟨f, dir, holder⟩ es' tail' base)
      ∨ (o = .ok ∧ tail = [] ∧ j'.poisoned = false ∧ Reads j' rootId (es ++ [j.next e]) []
        ∧ ∀ holder, (∀ id s, holder = some (id, s) → Open rootId (es ++ [j.next e]) [] s) →
          Holds rootId fp ⟨f, dir, holder⟩ (es ++ [j.next e]) [] (es ++ [j.next e])) := by
  obtain ⟨es₂, tail₂, hst, hpre, hbase⟩ := h.stable
  have hwrote : o = .ok ∨ o = .indeterminate →
      tail = [] ∧ Ledger fp dir.stable (es ++ [j.next e]) := by
    intro ho
    have hnil : j.poisoned = false → j.tailBytes = 0 → e.rootId = j.rootId →
        tail = [] ∧ Ledger fp dir.stable (es ++ [j.next e]) := fun hp ht hr =>
      ⟨(hj hp).tail_nil ht, hl (hj hp) (hr.trans (hj hp).rootId)⟩
    rcases ha with ⟨ho', ho''⟩ | ⟨n, -, -, hp, ht, -, -, -, hr⟩ |
      ⟨-, -, -, -, -, -, hp, ht, -, -, -, hr⟩
    · rcases ho with rfl | rfl <;> contradiction
    · exact hnil hp ht hr
    · exact hnil hp ht hr
  rcases append_represents h.cached hj h0 ha with
    ⟨rfl, rfl, ho, -⟩ | ⟨rfl, hp, -, hst', es', tail', hr, hes⟩ | ⟨rfl, hp, hst', hr, hreads⟩
  · exact .inl ⟨ho, es, tail, .inl rfl, hj, fun holder hs =>
      h.same h1 h2 hs⟩
  · obtain ⟨ht, hgrown⟩ := hwrote (.inr rfl)
    have hledger : Ledger fp dir.stable es' := by
      rcases hes with rfl | rfl
      · exact h.ledger.mono h1
      · exact hgrown
    have hpre' : es <+: es' := by
      rcases hes with rfl | rfl
      · exact List.prefix_refl _
      · exact List.prefix_append _ _
    exact .inl ⟨by simp, es', tail', hes.imp_right fun h => ⟨ht, h⟩,
      fun hn => absurd (hp.symm.trans hn) (by simp), fun holder hs =>
      ⟨hr, ⟨es₂, tail₂, hst' ▸ hst, hpre.trans hpre', hbase⟩, h2, hledger, hs⟩⟩
  · obtain ⟨ht, hgrown⟩ := hwrote (.inl rfl)
    exact .inr ⟨rfl, ht, hp, hreads, fun holder hs =>
      ⟨hr, ⟨_, _, hst' ▸ hr, List.prefix_refl _, List.prefix_refl _⟩, h2, hgrown, hs⟩⟩

end Steps

/-! ### What may be appended -/

section Records

variable {rootId : Identity} {fp : Digest} {f : File} {es : List Entry} {tail : Bytes}
  {j : Journal} {files : Name → Option Bytes} {e : Entry} {s : State} {good : VerifyDetached}
  {x : Submission} {p q : Policy} {h : Header} {r : Request} {now : Counter}

@[simp] lemma next_kind : (j.next e).kind = e.kind := rfl
@[simp] lemma next_generation : (j.next e).generation = e.generation := rfl
@[simp] lemma next_windowOf :
    RequestReplay.windowOf (j.next e) = RequestReplay.windowOf e := rfl

lemma follows_next (hr : Represents rootId f.cached es tail) (hj : Reads j rootId es tail)
    (hs : replay es = some s) (he : e.rootId = rootId) (h0 : rootId ≠ zeroIdentity)
    (hg : (s.serial : ℕ) ≤ e.generation) : Follows s (j.next e) := by
  have ht := replay_tells hs
  have hle := hr.count_le
  have hc : (s.count : ℕ) = es.length := ht.count
  have hmax : maxRecords < Counter.last := by decide
  refine ⟨by omega, ?_, he ▸ h0, fun hpos => ?_, hg⟩
  · have : ((j.next e).sequence : ℕ) = j.count + 1 :=
      Counter.val_ofNat (by rw [hj.count]; omega)
    rw [this, hj.count, hc]
  · obtain ⟨a, ha⟩ := List.exists_mem_of_length_pos (hc ▸ hpos)
    rw [← ht.rootId a ha, (hr.log.filled a ha).2]
    exact he

/-- An admission continues the ledger. -/
lemma ledger_admission (hl : Ledger fp files es) (hr : Represents rootId f.cached es tail)
    (hj : Reads j rootId es tail) (hs : replay es = some s) (hp : p.rootId = rootId)
    (h0 : rootId ≠ zeroIdentity) (hser : (s.serial : ℕ) ≤ p.serial)
    (hc : check s.window (Ingress.windowOf h x.header) = .fresh)
    (ha : Authorized good x.header x.body x.signature q.requestKey q.scope q.contract now h r)
    (hf : files (.request h.requestId) = some x.envelope) (had : Admissible files es r) :
    Ledger fp files (es ++ [j.next (admission p h x.header)]) :=
  hl.snoc hs (consume_begun (follows_next hr hj hs hp h0 hser) rfl rfl hc) fun _ =>
    ⟨r, recorded_envelope ha hf rfl, had⟩

lemma terminal_terminal (s : Session) (result : Outcome) : Terminal (terminal s result) := by
  unfold Terminal terminal
  by_cases h1 : result = .ok
  · exact .inl (by simp [h1])
  by_cases h2 : result = .indeterminate
  · exact .inr (.inr (by simp [h2]))
  · exact .inr (.inl (by simp [h1, h2]))

/-- The end of the newest request continues the ledger. -/
lemma ledger_terminal (hl : Ledger fp files es) (hr : Represents rootId f.cached es tail)
    (hj : Reads j rootId es tail) {b : Entry} (hlast : es.getLast? = some b)
    (hb : b.kind = begun) (hp : e.rootId = rootId) (h0 : rootId ≠ zeroIdentity)
    (hw : RequestReplay.windowOf e = RequestReplay.windowOf b)
    (hg : e.generation = b.generation) (ht : Terminal e) :
    Ledger fp files (es ++ [j.next e]) := by
  obtain ⟨s, hs⟩ := hl.replays.resolve_right fun ⟨_, g, hg, hk⟩ => by
    have hgb : g = b := by
      rw [hg] at hlast
      exact Option.some.inj hlast
    exact absurd (hb.symm.trans (hgb ▸ hk)) (by decide)
  obtain ⟨pre, rfl⟩ := List.getLast?_eq_some_iff.mp hlast
  have htell := replay_tells hs
  have hser : (s.serial : ℕ) ≤ e.generation := by
    rw [htell.serial, serialOf_snoc, hg]
  have hpend : s.pending = true := by rw [htell.pending]; simp [hb]
  have hwin : s.window = RequestReplay.windowOf b := by rw [htell.window, newest_begun hb]; rfl
  refine hl.snoc hs (consume_terminal (follows_next hr hj hs hp h0 hser) ht hpend ?_) ?_
  · rw [next_windowOf, hw, hwin]
  · intro hk
    exact absurd hk (terminal_not_begun ht)

end Records

/-! ### The steps -/

/-- What a call may add to the ledger that `holder` has open. -/
inductive Adds (holder : Option (ℕ × Session)) (es : List Entry) :
    Operation → List Entry → Prop
  | nothing {c : Operation} : Adds holder es c es
  | begun {c : Operation} {b : Entry} (hb : b.kind = begun) : Adds holder es c (es ++ [b])
  | repaired {x : Submission} {host : LedgerHost} {b u : Entry} (hb : b.kind = begun)
      (hu : u.kind = unknownOutcome)
      (hw : RequestReplay.windowOf u = RequestReplay.windowOf b) :
      Adds holder es (.repair x host) (es ++ [b] ++ [u])
  | finished {id : ℕ} {result : Outcome} {host : WriteHost} {s : Session} {b e : Entry}
      (hs : holder = some (id, s)) (ha : s.admitted = true)
      (hlast : es.getLast? = some b) (hb : b.kind = begun)
      (hk : e.kind = (terminal s result).kind)
      (hw : RequestReplay.windowOf e = RequestReplay.windowOf b) :
      Adds holder es (.finish id result host) (es ++ [e])

section Perform

variable {rootId : Identity} {fp : Digest} {w w' : World} {es base : List Entry} {tail : Bytes}
  {good : VerifyDetached} {id : ℕ} {x : Submission} {host : BeginHost} {lhost : LedgerHost}
  {p : Policy} {d : Digest} {j : Journal} {v : Judged} {before : State} {a : Answer} {o : Outcome}

/-- The request that is pending is found, and what is let past it is its recovery. -/
lemma admissible_of (h : Holds rootId fp w es tail base) (hs : replay es = some before)
    {r : Request} {readAt : Outcome}
    (hp : before.pending = true → ∃ r', priorRequest w.directory.sync before.window readAt = .ok r'
      ∧ Recovery r.action ∧ r.transactionId = r'.transactionId ∧ r.planDigest = r'.planDigest) :
    Admissible w.directory.stable es r := by
  intro hu
  have ht := replay_tells hs
  have hpend : before.pending = true := ht.pending.trans hu
  obtain ⟨r', hr', hrest⟩ := hp hpend
  obtain ⟨n, hn⟩ := ht.admitted hpend
  obtain ⟨r₁, hr₁⟩ := h.ledger.recorded n (newest_mem hn)
  have hwin : before.window = RequestReplay.windowOf n := by rw [ht.window, hn]; rfl
  obtain rfl := priorRequest_ok (d := w.directory.sync) (hr₁.mono h.files) hwin hr'
  exact ⟨n, r', hn, hr₁, hrest⟩

lemma admissible_repair (h : Holds rootId fp w es tail base) (hs : replay es = some before)
    {hdr : Header} {r : Request}
    (hjud : JudgesRepair good w.directory.sync w.log j p x lhost hdr r before) :
    Admissible w.directory.stable es r :=
  admissible_of h hs fun hpend => by
    obtain ⟨r', hr', hsame, hsame'⟩ := hjud.pending hpend
    exact ⟨r', hr', .inr (.inr (.inr hjud.action)), hsame.symm, hsame'.symm⟩

/-- What a call that judged a request has found. -/
lemma Holds.judged (h : Holds rootId fp w es tail base) {ehost : EnterHost}
    (he : Entered w ehost p d j) {readAt : ℕ → Outcome}
    (hb : readPrevious j w.log readAt = .ok before) :
    es ≠ [] ∧ replay es = some before ∧ p.rootId = rootId ∧ Reads j rootId es tail
      ∧ j.poisoned = false ∧ j.filePoisoned = false := by
  obtain ⟨hr, hj, hp, hf, hroot⟩ := he.reads h.cached
  obtain ⟨hne, hs⟩ := readPrevious_ok hr hj hf hb
  have hroot := hroot hne
  exact ⟨hne, hs, hroot, hroot ▸ hj, hp, hf⟩

/-- A new session on a ledger that is open. -/
lemma open_idle {s : Session} (hj : Reads s.journal rootId es tail) (ha : s.admitted = false) :
    Open rootId es tail s :=
  ⟨fun _ => hj, fun h => by rw [ha] at h; cases h⟩

lemma extends_preserved {path : Name} {data : Bytes} {dir : Directory Name}
    (h : Directory.Extends w.directory.stable w.directory.cached)
    (hp : Atomic.Preserves w.directory.sync path data dir o) :
    Directory.Extends w.directory.stable dir.stable
      ∧ Directory.Extends dir.stable dir.cached
      ∧ (o = .ok → dir.stable path = some data) := by
  obtain ⟨h1, h2, h3⟩ := hp.extends rfl
  exact ⟨fun n y hy => h1 n y (h n y hy), h2, fun ho => (h3 ho).2⟩

/-- An answer that a request is new has its admission on the medium. -/
def Admitted (header : Bytes) (base : List Entry) : Prop :=
  ∃ h b, Protocol.decode header = .ok h ∧ b ∈ admissions base
    ∧ RequestReplay.windowOf b = Ingress.windowOf h header

theorem holds_begin (h : Holds rootId fp w es tail base)
    (hb : Begins good w id x host w' a) : ∃ es' tail' base', Holds rootId fp w' es' tail' base'
      ∧ base <+: base' ∧ Adds w.holder es (.begin id x host) es'
      ∧ (a.status = .ok → a.mode = some .newRequest →
        (∀ b ∈ admissions es, ∀ hd, Protocol.decode x.header = .ok hd →
          RequestReplay.windowOf b ≠ Ingress.windowOf hd x.header) ∧ Admitted x.header base') := by
  cases hb with
  | refused hw ho =>
    exact ⟨es, tail, base, h.touched hw, List.prefix_refl _, .nothing,
      fun hok => absurd hok ho⟩
  | retry he ht hv hd hs hj =>
    obtain ⟨before, e, hjud⟩ := judge_ok hv
    obtain ⟨-, -, -, hreads, -⟩ := h.judged he hjud.previous
    refine ⟨es, tail, base, h.same h.files (.refl _) fun id s hs' => ?_, List.prefix_refl _,
      .nothing, fun _ hm => ?_⟩
    · cases hs'
      exact open_idle (hj ▸ hreads) hs
    · split at hm <;> cases hm
  | placed he ht hv hd hp ho =>
    obtain ⟨h1, h2, -⟩ := extends_preserved h.files hp
    exact ⟨es, tail, base, h.same h1 h2 (by simp), List.prefix_refl _, .nothing,
      fun hok => absurd hok ho⟩
  | @appended p d j j' v dir f o he ht hv hd hp ha ho =>
    obtain ⟨before, e, hjud⟩ := judge_ok hv
    obtain ⟨hne, hs, hroot, hreads, -⟩ := h.judged he hjud.previous
    obtain ⟨h1, h2, h3⟩ := extends_preserved h.files hp
    obtain ⟨hfresh, hpend⟩ := hjud.admissible.resolve_left hd
    have hl := ledger_admission (h.ledger.mono h1) h.cached hreads hs hroot
      (root_ne h.cached hne) hjud.serial (hjud.decision.trans hfresh) hjud.authorized (h3 rfl)
      ((admissible_of h hs hpend).mono h1)
    rcases h.append (root_ne h.cached hne) (fun _ => hreads) h1 h2 (fun _ _ => hl) ha with
      ⟨-, es', tail', hes, -, hh⟩ | ⟨ho', -⟩
    · refine ⟨es', tail', base, hh none (by simp), List.prefix_refl _, ?_,
        fun hok => absurd hok ho⟩
      rcases hes with rfl | ⟨-, rfl⟩
      · exact .nothing
      · exact .begun rfl
    · exact absurd ho' ho
  | @admitted p d j j' v dir f he ht hv hd hp ha =>
    obtain ⟨before, e, hjud⟩ := judge_ok hv
    obtain ⟨hne, hs, hroot, hreads, -⟩ := h.judged he hjud.previous
    obtain ⟨h1, h2, h3⟩ := extends_preserved h.files hp
    obtain ⟨hfresh, hpend⟩ := hjud.admissible.resolve_left hd
    have hcheck := hjud.decision.trans hfresh
    have hl := ledger_admission (h.ledger.mono h1) h.cached hreads hs hroot
      (root_ne h.cached hne) hjud.serial hcheck hjud.authorized (h3 rfl)
      ((admissible_of h hs hpend).mono h1)
    obtain ⟨es₂, tail₂, -, hpre, hbase⟩ := h.stable
    rcases h.append (root_ne h.cached hne) (fun _ => hreads) h1 h2 (fun _ _ => hl) ha with
      ⟨ho, -⟩ | ⟨-, -, hpj, hreads', hh⟩
    · exact absurd rfl ho
    refine ⟨_, [], _, hh _ fun id' s hs' => ?_,
      (hbase.trans hpre).trans (List.prefix_append _ _), .begun rfl, fun _ _ => ⟨?_, ?_⟩⟩
    · cases hs'
      refine ⟨fun _ => hreads', fun _ => ⟨_, List.getLast?_concat, rfl, ?_, rfl⟩⟩
      -- the digest of the header as it is written back is that of the header as it came
      show Ingress.windowOf v.header x.header = _
      rw [encode_decode hjud.authorized.header]
    · intro b hb hdr hdec hw
      obtain rfl := Except.ok.inj (hdec.symm.trans hjud.authorized.header)
      have hlt := (replay_tells hs).lt_new (.inr hcheck) hb
      rw [hw] at hlt
      exact Window.Before.irrefl _ hlt
    · refine ⟨v.header, j.next (admission p v.header x.header), hjud.authorized.header, ?_, rfl⟩
      rw [admissions_begun rfl]
      exact List.mem_append_right _ (List.mem_singleton_self _)

theorem holds_finish (h : Holds rootId fp w es tail base) {result : Outcome} (fhost : WriteHost)
    (hf : Finishes w id result w' a) : ∃ es' tail' base', Holds rootId fp w' es' tail' base'
      ∧ base <+: base' ∧ Adds w.holder es (.finish id result fhost) es' := by
  cases hf with
  | refused => exact ⟨es, tail, base, h, List.prefix_refl _, .nothing⟩
  | @finished s s' j f o hw hs ha hs' hj =>
    obtain ⟨hreads, hlive⟩ := h.session id s hw
    obtain ⟨b, hlast, hb, hwin, hgen⟩ := hlive hs
    have hne : es ≠ [] := by rintro rfl; cases hlast
    have h0 := root_ne h.cached hne
    -- the record is under the numbers that the admission was made under
    have hwt : RequestReplay.windowOf (terminal s result) = RequestReplay.windowOf b :=
      hwin.symm
    have hl : Reads s.journal rootId es tail → (terminal s result).rootId = rootId →
        Ledger fp w.directory.stable (es ++ [s.journal.next (terminal s result)]) := fun hr hp =>
      ledger_terminal h.ledger h.cached hr hlast hb hp h0 hwt hgen.symm (terminal_terminal s result)
    obtain ⟨es₂, tail₂, -, hpre, hbase⟩ := h.stable
    have hclosed : ∀ {es' tail'}, (j.poisoned = false → Reads j rootId es' tail') →
        ∀ id₁ s, some (id, s') = some (id₁, s) → Open rootId es' tail' s := by
      intro es' tail' hr id₁ s₁ hs₁
      cases hs₁
      exact ⟨hj ▸ hr, fun hl => by rw [hs'] at hl; cases hl⟩
    rcases h.append h0 hreads (.refl _) h.files hl ha with
      ⟨-, es', tail', hes, hr', hh⟩ | ⟨-, -, hp', hr', hh⟩
    · refine ⟨es', tail', base, hh _ (hclosed hr'), List.prefix_refl _, ?_⟩
      rcases hes with rfl | ⟨-, rfl⟩
      · exact .nothing
      · exact .finished hw hs hlast hb rfl hwt
    · exact ⟨_, [], _, hh _ (hclosed fun _ => hr'),
        (hbase.trans hpre).trans (List.prefix_append _ _), .finished hw hs hlast hb rfl hwt⟩

/-- The policy that is loaded again is the policy in force. -/
lemma policy_again {ehost : EnterHost} {file : PolicyFile} {p' : Policy}
    (hp : readPolicy ehost = .ok (p, d)) (hl : load file = .ok (p', d))
    (hcf : Sha256.hash ehost.policy.data = Sha256.hash file.data → ehost.policy.data = file.data) :
    p'.rootId = p.rootId ∧ p'.serial = p.serial := by
  obtain ⟨q, hq, rfl, -, -⟩ := readPolicy_ok hp
  obtain ⟨h1, h2⟩ := load_ok hq
  obtain ⟨h3, h4⟩ := load_ok hl
  rw [hcf (h2.symm.trans h4)] at h1
  obtain rfl := Except.ok.inj (h1.symm.trans h3)
  exact ⟨rfl, rfl⟩

/-- The files beside the ledger, in a call that has synced them first. -/
lemma extends_synced (h : Directory.Extends w.directory.stable w.directory.cached)
    {dir : Directory Name} (hd : Directory.Extends w.directory.sync.stable dir.stable) :
    Directory.Extends w.directory.stable dir.stable := fun n y hy => hd n y (h n y hy)

theorem holds_repair (h : Holds rootId fp w es tail base)
    (hr : RepairsLedger good w x lhost w')
    (hcf : Sha256.hash lhost.policy.data = Sha256.hash lhost.policyAgain.data →
      lhost.policy.data = lhost.policyAgain.data) :
    ∃ es' tail' base', Holds rootId fp w' es' tail' base' ∧ base <+: base'
      ∧ Adds w.holder es (.repair x lhost) es' := by
  cases hr with
  | refused hw => exact ⟨es, tail, base, h.touched hw, List.prefix_refl _, .nothing⟩
  | stored he h1 h2 =>
    exact ⟨es, tail, base, h.same (extends_synced h.files h1) h2 (by simp), List.prefix_refl _,
      .nothing⟩
  | @recorded p p' d t j hdr dir f o he hv h1 h2 h3 hp hm =>
    obtain ⟨r, before, hjud⟩ := judgeRepair_ok hv
    obtain ⟨hne, hs, hroot, hreads, -⟩ := h.judged he hjud.previous
    obtain ⟨hp1, hp2⟩ := policy_again he.policy hp hcf
    have h1 := extends_synced h.files h1
    have hadm := admissible_repair h hs hjud
    have h0 := root_ne h.cached hne
    set e := admission p' hdr x.header with he'
    have hl : ∀ {j₁ : Journal} {f₁ : File} {tail₁ : Bytes},
        Represents rootId f₁.cached es tail₁ → Reads j₁ rootId es tail₁ →
        Ledger fp dir.stable (es ++ [j₁.next e]) := fun hr₁ hj₁ =>
      ledger_admission (h.ledger.mono h1) hr₁ hj₁ hs (hp1.trans hroot) h0
        (hp2 ▸ hjud.serial) hjud.fresh hjud.authorized h3 (hadm.mono h1)
    -- the ledger without its tail
    have hcut : ∀ {j₁ : Journal} {f₁ : File} {o₁ : Outcome}, Repairs j w.log t j₁ f₁ o₁ →
        ∃ tail₁, Holds rootId fp ⟨f₁, dir, none⟩ es tail₁ base
          ∧ (j₁.poisoned = false → Reads j₁ rootId es tail₁) := by
      intro j₁ f₁ o₁ hr
      obtain ⟨es₂, tail₂, hst, hpre, hbase⟩ := h.stable
      rcases repair_represents h.cached (fun _ => hreads) hr with ⟨rfl, rfl, -⟩ |
        ⟨-, hp, -, hst', hr'⟩ | ⟨-, -, hst', hr', hreads'⟩
      · exact ⟨tail, h.same h1 h2 (by simp), fun _ => hreads⟩
      · exact ⟨[], ⟨hr', ⟨es₂, tail₂, hst' ▸ hst, hpre, hbase⟩, h2, h.ledger.mono h1, by simp⟩,
          fun hn => absurd (hp.symm.trans hn) (by simp)⟩
      · exact ⟨[], ⟨hr', ⟨es, [], hst' ▸ hr', List.prefix_refl _, hbase.trans hpre⟩, h2,
          h.ledger.mono h1, by simp⟩, fun _ => hreads'⟩
    cases hm with
    | cut hr ho =>
      obtain ⟨tail₁, hh, -⟩ := hcut hr
      exact ⟨es, tail₁, base, hh, List.prefix_refl _, .nothing⟩
    | @begun j₁ j₂ f₁ f₂ o hr ha ho =>
      obtain ⟨tail₁, hh, hj₁⟩ := hcut hr
      rcases hh.append h0 hj₁ (.refl _) hh.files (fun hr _ => hl hh.cached hr) ha with
        ⟨-, es', tail', hes, -, hh'⟩ | ⟨ho', -⟩
      · refine ⟨es', tail', base, hh' none (by simp), List.prefix_refl _, ?_⟩
        rcases hes with rfl | ⟨-, rfl⟩
        · exact .nothing
        · exact .begun rfl
      · exact absurd ho' ho
    | @unknown j₁ j₂ j₃ f₁ f₂ f₃ o hr ha hb =>
      obtain ⟨tail₁, hh, hj₁⟩ := hcut hr
      obtain ⟨es₂, tail₂, -, hpre, hbase⟩ := h.stable
      have hbase' : base <+: es ++ [j₁.next e] :=
        (hbase.trans hpre).trans (List.prefix_append _ _)
      rcases hh.append h0 hj₁ (.refl _) hh.files (fun hr _ => hl hh.cached hr) ha with
        ⟨ho, -⟩ | ⟨-, -, hp₂, hr₂, hh₂⟩
      · exact absurd rfl ho
      have hh₂ := hh₂ none (by simp)
      -- the second record ends what the first one began
      have hend : Reads j₂ rootId (es ++ [j₁.next e]) [] → (unknown e).rootId = rootId →
          Ledger fp dir.stable (es ++ [j₁.next e] ++ [j₂.next (unknown e)]) := fun hr hroot =>
        ledger_terminal hh₂.ledger hh₂.cached hr List.getLast?_concat rfl hroot h0 rfl rfl
          (.inr (.inr ⟨rfl, rfl⟩))
      rcases hh₂.append h0 (fun _ => hr₂) (.refl _) hh₂.files hend hb with
        ⟨-, es', tail', hes, -, hh₃⟩ | ⟨-, -, -, -, hh₃⟩
      · refine ⟨es', tail', _, hh₃ none (by simp), hbase', ?_⟩
        rcases hes with rfl | ⟨-, rfl⟩
        · exact .begun rfl
        · exact .repaired rfl rfl rfl
      · exact ⟨_, [], _, hh₃ none (by simp), hbase'.trans (List.prefix_append _ _),
          .repaired rfl rfl rfl⟩

lemma holds_close (h : Holds rootId fp w es tail base) (id : ℕ) :
    Holds rootId fp (close w id) es tail base := by
  unfold close
  split
  · exact h.same (.refl _) h.files (by simp)
  · exact h

lemma holds_crash (h : Holds rootId fp w es tail base) (k : Crash) :
    ∃ es' tail', Holds rootId fp (w.crash k) es' tail' base ∧ es' <+: es := by
  cases k with
  | process id => exact ⟨es, tail, holds_close h id, List.prefix_refl _⟩
  | machine fromStable n keep =>
    obtain ⟨es₂, tail₂, hst, hpre, hbase⟩ := h.stable
    obtain ⟨es', tail', hr, hp, hb⟩ :=
      crash_represents h.cached hst (hbase.trans hpre) hbase fromStable n
    have hp' : es' <+: es := hp.elim id fun h => h.trans hpre
    exact ⟨es', tail', ⟨hr, ⟨es', tail', hr, List.prefix_refl _, hb⟩, .refl _,
      (h.ledger.of_prefix hp').mono (Directory.extends_crash h.files keep), by simp [World.crash]⟩,
      hp'⟩

end Perform

/-! ### Provision -/

section Provision

variable {phost : ProvisionHost} {w : World}

lemma holds_empty (rootId : Identity) (fp : Digest) : Holds rootId fp World.empty [] [] [] := by
  have hr : Represents rootId [] [] [] := ⟨.nil _, Nat.zero_le _, rfl, by simp⟩
  exact ⟨hr, ⟨[], [], hr, List.prefix_refl _, List.prefix_refl _⟩, .refl _, ledger_nil _ _,
    by simp [World.empty]⟩

/-- The first record of a ledger. -/
lemma ledger_genesis {files : Name → Option Bytes} {f : File} {j : Journal} {p : Policy}
    {d : Digest} (hr : Represents p.rootId f.cached [] []) (hj : Reads j p.rootId [] [])
    (h0 : p.rootId ≠ zeroIdentity) : Ledger d files [j.next (Gate.genesis p d)] := by
  have hf : Follows {} (j.next (Gate.genesis p d)) :=
    follows_next hr hj rfl rfl h0 (Nat.zero_le _)
  have hnb : ¬ (j.next (Gate.genesis p d)).kind = begun := by
    show ¬ genesis = begun
    decide
  refine ⟨?_, fun b hb => ?_, fun pre b post hes hk => ?_⟩
  · by_cases hz : d = zeroDigest
    · exact .inr ⟨hz, _, rfl, rfl⟩
    · have hc := consume_genesis hf rfl rfl rfl rfl rfl rfl rfl hz
      exact .inl ⟨_, by rw [← List.nil_append [_], replay_snoc, replay_nil, Option.bind_some, hc]⟩
  · obtain ⟨hb, hk⟩ := mem_admissions.mp hb
    exact absurd (List.mem_singleton.mp hb ▸ hk) hnb
  · obtain ⟨rfl, rfl, -⟩ | ⟨post', -, h⟩ := snoc_split (List.nil_append [_] ▸ hes)
    · exact absurd hk hnb
    · simp at h

/-- A check that leaves nothing behind when it fails. -/
lemma past_check {c : Prop} [Decidable c] {o : Outcome} {x : Option World × Outcome}
    (h : (if c then (none, o) else x).1 = some w) : x.1 = some w := by
  by_cases hc : c
  · rw [if_pos hc] at h
    cases h
  · rwa [if_neg hc] at h

/-- A step that may leave a ledger without a record when it fails. -/
lemma past_step {c : Prop} [Decidable c] {o : Outcome} {y : Option World}
    {x : Option World × Outcome} (hy : y = some w → w = World.empty)
    (h : (if c then (y, o) else x).1 = some w) : w = World.empty ∨ x.1 = some w := by
  by_cases hc : c
  · rw [if_pos hc] at h
    exact .inl (hy h)
  · rw [if_neg hc] at h
    exact .inr h

/-- What is left of `Provision`: a ledger without a record, or with the first one on its way. -/
lemma provision_cases (h : (provision phost).1 = some w) :
    ∃ p d, load phost.policy = .ok (p, d) ∧ (w = World.empty ∨
      ∃ v j o, openLog ⟨some File.empty, none⟩ p.rootId false phost.log = (⟨v, some j⟩, o)
        ∧ w = { World.empty with
          log := (j.append File.empty (Gate.genesis p d) phost.append).2.1 }) := by
  have made : some World.empty = some w → w = World.empty := fun h => (Option.some.inj h).symm
  unfold provision at h
  replace h := past_check (past_check h)
  cases hl : load phost.policy with
  | error o =>
    rw [hl] at h
    cases h
  | ok x =>
    obtain ⟨p, d⟩ := x
    rw [hl] at h
    refine ⟨p, d, rfl, ?_⟩
    replace h := past_check (past_check (past_check (past_check h)))
    have created : (if phost.created = true then some World.empty else none) = some w →
        w = World.empty := fun h => by
      split_ifs at h
      exact made h
    rcases past_step created h with h | h
    · exact .inl h
    rcases past_step made h with h | h
    · exact .inl h
    rcases past_step made h with h | h
    · exact .inl h
    rcases hopen : openLog ⟨some File.empty, none⟩ p.rootId false phost.log with ⟨⟨v, _ | j⟩, o⟩
    · rw [hopen] at h
      exact .inl (made h)
    · rw [hopen] at h
      exact (past_step made h).imp_right fun h => ⟨v, j, o, rfl, (Option.some.inj h).symm⟩

theorem holds_provision (h : (provision phost).1 = some w) : ∃ p d es tail,
    load phost.policy = .ok (p, d) ∧ Holds p.rootId d w es tail [] ∧ admissions es = [] := by
  obtain ⟨p, d, hl, hw⟩ := provision_cases h
  have hempty : Holds p.rootId d World.empty [] [] [] := holds_empty _ _
  have h0 : p.rootId ≠ zeroIdentity := (decode_sound (load_ok hl).1).1
  rcases hw with rfl | ⟨v, j, o, hopen, rfl⟩
  · exact ⟨p, d, [], [], hl, hempty, rfl⟩
  refine ⟨p, d, ?_⟩
  rcases openLog_open File.empty p.rootId phost.log with ⟨-, -, j', hx, ho⟩ | ⟨o', -, ho⟩
  · rw [ho] at hopen
    cases hopen
    obtain ⟨es, tail, hr, hj, -⟩ := examine_ok hx
    obtain ⟨rfl, rfl⟩ := frames_unique (hr.bytes.symm.trans hempty.cached.bytes) hr.short
      (by simp)
    have hnone : admissions ([] ++ [j.next (Gate.genesis p d)]) = [] := rfl
    have ha := append_cases j File.empty (Gate.genesis p d) phost.append
    rcases hempty.append h0 (fun _ => hj) (.refl _) (.refl _)
        (fun hj' _ => ledger_genesis hempty.cached hj' h0) ha with
      ⟨-, es', tail', hes, -, hh⟩ | ⟨-, -, -, -, hh⟩
    · refine ⟨es', tail', hl, hh none (by simp), ?_⟩
      rcases hes with rfl | ⟨-, rfl⟩
      · rfl
      · exact hnone
    · exact ⟨_, _, hl, (hh none (by simp)).weaken List.nil_prefix, hnone⟩
  · rw [ho] at hopen
    cases hopen

end Provision

end NiayanAssurance.GateLedger
