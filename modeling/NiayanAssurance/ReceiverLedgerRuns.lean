import NiayanAssurance.ReceiverLedger
import NiayanAssurance.GateRetry

/-!
What an observer is told of a request that has ended does not change.

The fold over the records does not rule out that an identity comes again under another token;
the envelopes do, since a name has one envelope. So no record of a request can follow one that
has ended it.
-/

namespace NiayanAssurance.ReceiverLedgerRuns

open NiayanAssurance.Lib NiayanAssurance.Types NiayanAssurance.LogFormat
open NiayanAssurance.Log hiding World
open NiayanAssurance.Protocol NiayanAssurance.Replay NiayanAssurance.LogFile
open NiayanAssurance.Ingress (VerifyDetached)
open NiayanAssurance.RequestReplay NiayanAssurance.ReplaySpec
open NiayanAssurance.Gate hiding genesis
open NiayanAssurance.GateSpec NiayanAssurance.GateLedger NiayanAssurance.GateRuns
open NiayanAssurance.GateRetry NiayanAssurance.ReceiverLedger

def records (es : List Entry) (requestId : Identity) : List Entry :=
  es.filter fun e => OfRequest requestId e

/-- The state that the last record of a request gives it. -/
def lastState (e : Entry) : ReceiptState := (stateOf e.kind).getD .notRecorded

/-- The envelope of the request is stored, is the one that is asked for, and names the request
and the root; `object` is the digest of its header. -/
def Matches (files : Name → Option Bytes) (q : Query) (object : Digest) : Prop :=
  ∃ env h, files (.request q.requestId) = some env ∧ env.length = 416
    ∧ Sha256.hash env = q.expectedEnvelope ∧ Protocol.decode (range env 1 160) = .ok h
    ∧ h.requestId = q.requestId ∧ h.resourceId = q.rootId
    ∧ object = Sha256.hash (range env 1 160)

/-- What an answer `OK` says of the records `es`: of a request that has none, nothing; of
another, what its last record says, under the digest of the header in its envelope. -/
structure Reports (files : Name → Option Bytes) (es : List Entry) (q : Query) (value : Receipt) :
    Prop where
  absent : records es q.requestId = [] → value = {}
  found : ∀ e, (records es q.requestId).getLast? = some e →
    value = receiptFor q e (lastState e) ∧ Matches files q e.object

section Loop

variable {rootId : Identity} {w : World} {es : List Entry} {tail : Bytes} {j : Journal}
  {q : Query} {host : ObserveHost} {s s' : Progress} {e : Entry} {d : Directory Name}
  {replay' : RequestReplay.State} {n : ℕ}

lemma records_snoc (es : List Entry) (e : Entry) (requestId : Identity) :
    records (es ++ [e]) requestId =
      records es requestId ++ if OfRequest requestId e then [e] else [] := by
  rw [records, List.filter_append]
  split_ifs with h <;> simp [records, h]

lemma envelopeHeader_some {readAt : Outcome} {target : Digest}
    (h : envelopeHeader d q readAt = some target) : Matches d.cached q target := by
  unfold envelopeHeader at h
  split at h
  · cases h
  rename_i env hr
  split at h
  · cases h
  rename_i h1
  push Not at h1
  split at h
  · cases h
  rename_i hdr hd
  split at h
  · cases h
  rename_i h2
  push Not at h2
  cases h
  exact ⟨env, hdr, Atomic.read_ok hr, h1.1, h1.2, hd, h2.1, h2.2, rfl⟩

lemma envelopeHeader_of {object : Digest} (h : Matches d.cached q object) :
    envelopeHeader d q .ok = some object := by
  obtain ⟨env, hdr, h1, h2, h3, h4, h5, h6, rfl⟩ := h
  have hread := Atomic.read_some h1 (show _ ≤ 416 by omega)
  simp [envelopeHeader, hread, h2, h3, h4, h5, h6]

/-- What the loop knows after the records `es`. -/
structure Knows (files : Name → Option Bytes) (es : List Entry) (q : Query) (s : Progress) :
    Prop where
  replay : RequestReplay.replay es = some s.replay
  reports : Reports files es q s.value
  unseen : s.targetHeader = none ↔ records es q.requestId = []
  target : ∀ t, s.targetHeader = some t → Matches files q t

lemma Knows.start (files : Name → Option Bytes) (q : Query) : Knows files [] q {} :=
  ⟨rfl, ⟨fun _ => rfl, fun _ h => by cases h⟩, ⟨fun _ => rfl, fun _ => rfl⟩, fun _ h => by cases h⟩

lemma Knows.other (h : Knows d.cached es q s) (hc : consume s.replay e = some replay')
    (he : ¬ OfRequest q.requestId e) :
    Knows d.cached (es ++ [e]) q { s with replay := replay' } := by
  have hr : records (es ++ [e]) q.requestId = records es q.requestId := by
    rw [records_snoc, if_neg he, List.append_nil]
  refine ⟨by rw [replay_snoc, h.replay, Option.bind_some, hc], ⟨?_, ?_⟩, ?_, h.target⟩
  · rw [hr]; exact h.reports.absent
  · rw [hr]; exact h.reports.found
  · rw [hr]; exact h.unseen

lemma Knows.own (h : Knows d.cached es q s) (hc : consume s.replay e = some replay')
    (he : OfRequest q.requestId e) (hm : Matches d.cached q e.object) {state : ReceiptState}
    (hs : stateOf e.kind = some state) :
    Knows d.cached (es ++ [e]) q ⟨replay', some e.object, receiptFor q e state⟩ := by
  have hr : records (es ++ [e]) q.requestId = records es q.requestId ++ [e] := by
    rw [records_snoc, if_pos he]
  refine ⟨by rw [replay_snoc, h.replay, Option.bind_some, hc], ⟨?_, ?_⟩, ?_, ?_⟩
  · intro hn
    rw [hr] at hn
    exact absurd hn (List.append_ne_nil_of_right_ne_nil _ (List.cons_ne_nil _ _))
  · intro e' he'
    rw [hr, List.getLast?_concat] at he'
    obtain rfl := Option.some.inj he'
    exact ⟨by rw [lastState, hs]; rfl, hm⟩
  · simp [hr]
  · intro t ht
    cases ht
    exact hm

lemma Knows.step {f : File} {i : ℕ} (h : Knows d.cached es q s)
    (hstep : observeStep d f j q host s i = .ok s') :
    ∃ e, j.read f (i + 1) (host.readAt (i + 1)) = .ok e ∧ Knows d.cached (es ++ [e]) q s' := by
  unfold observeStep at hstep
  split at hstep
  · cases hstep
  rename_i e he
  refine ⟨e, he, ?_⟩
  split at hstep
  · cases hstep
  rename_i replay' hc
  split at hstep
  · rename_i ho
    cases hstep
    exact h.other hc ho
  rename_i ho
  split at hstep
  · cases hstep
  split at hstep
  · cases hstep
  rename_i target ht
  have hm : Matches d.cached q target := by
    cases htar : s.targetHeader with
    | some t =>
      rw [htar] at ht
      cases ht
      exact h.target _ htar
    | none =>
      rw [htar] at ht
      exact envelopeHeader_some ht
  split at hstep
  · cases hstep
  rename_i hobj
  rw [not_not] at hobj
  split at hstep
  · cases hstep
  rename_i state hs
  cases hstep
  exact hobj ▸ h.own hc (not_not.mp ho) (hobj ▸ hm) hs

lemma stateOf_consumed {r r' : RequestReplay.State} (hc : consume r e = some r')
    (he : e.kind ≠ genesis) : ∃ state, stateOf e.kind = some state := by
  cases (consume_cases hc).2 with
  | genesis hk => exact absurd hk he
  | begun hk => exact ⟨.inProgress, by rw [hk]; rfl⟩
  | terminal ht =>
    rcases ht with ⟨hk, -⟩ | ⟨hk, -⟩ | ⟨hk, -⟩ <;> rw [hk] <;> exact ⟨_, rfl⟩

/-- The loop goes on over a record that can be read and consumed, when what it says of the
request agrees with the envelope. -/
lemma Knows.goes_on {f : File} {i : ℕ} (h : Knows d.cached es q s)
    (hread : j.read f (i + 1) .ok = .ok e) (hc : consume s.replay e = some replay')
    (hm : OfRequest q.requestId e → Matches d.cached q e.object)
    (hfirst : OfRequest q.requestId e → records es q.requestId = [] → e.kind = begun)
    (hsame : ∀ t, s.targetHeader = some t → OfRequest q.requestId e → t = e.object) :
    ∃ s', observeStep d f j q {} s i = .ok s' := by
  unfold observeStep
  rw [hread]
  simp only [hc]
  by_cases he : OfRequest q.requestId e
  · obtain ⟨state, hs⟩ := stateOf_consumed hc he.1
    rw [if_neg (not_not.mpr he), if_neg]
    · have htar : (s.targetHeader <|> envelopeHeader d q .ok) = some e.object := by
        cases ht : s.targetHeader with
        | some t => rw [hsame t ht he]; rfl
        | none => exact envelopeHeader_of (hm he)
      rw [htar]
      simp [hs]
    · rintro ⟨h1, h2⟩
      exact h2 (hfirst he (h.unseen.mp h1))
  · rw [if_pos he]
    exact ⟨_, rfl⟩

end Loop

/-! ### One ledger -/

section Ledgers

variable {fp : Digest} {files : Name → Option Bytes} {es : List Entry} {e e' : Entry}
  {requestId : Identity}

/-- **One request has one number**, under all tokens. -/
lemma same_window (h : Ledger fp files es) (he : e ∈ es) (he' : e' ∈ es)
    (hk : e.kind ≠ genesis) (hk' : e'.kind ≠ genesis) (hid : e.operationId = e'.operationId) :
    RequestReplay.windowOf e = RequestReplay.windowOf e' := by
  obtain ⟨b, hb, hw⟩ := h.owned he hk
  obtain ⟨b', hb', hw'⟩ := h.owned he' hk'
  obtain ⟨r, hr⟩ := h.recorded b hb
  obtain ⟨r', hr'⟩ := h.recorded b' hb'
  have hbid : b.operationId = b'.operationId := by
    have h1 : b.operationId = e.operationId := congrArg Window.requestId hw
    have h2 : b'.operationId = e'.operationId := congrArg Window.requestId hw'
    rw [h1, h2, hid]
  rw [← hw, ← hw']
  exact hr.window_eq hr' hbid

lemma first_begun (h : Ledger fp files (es ++ [e])) (he : OfRequest requestId e)
    (hn : records es requestId = []) : e.kind = begun := by
  obtain ⟨b, hb, hw⟩ := h.owned (e := e) (by simp) he.1
  obtain ⟨hb, hk⟩ := mem_admissions.mp hb
  rcases List.mem_append.mp hb with hb | hb
  · have hmem : b ∈ records es requestId := by
      refine List.mem_filter.mpr ⟨hb, decide_eq_true ⟨by rw [hk]; decide, ?_⟩⟩
      exact (congrArg Window.requestId hw).trans he.2
    rw [hn] at hmem
    cases hmem
  · rw [← List.mem_singleton.mp hb]
    exact hk

/-- **No record of a request follows one that has ended it.** -/
lemma settled {pre post : List Entry} (h : Ledger fp files (pre ++ e :: post))
    (hk : Known e) : ∀ x ∈ post, ¬ OfRequest e.operationId x := by
  intro x hx ho
  obtain ⟨mid, rest, rfl⟩ := List.append_of_mem hx
  have hl : Ledger fp files (pre ++ e :: mid ++ [x]) := h.of_prefix ⟨rest, by simp⟩
  have hw := same_window hl (show e ∈ _ by simp) (show x ∈ _ by simp) hk.not_genesis ho.1 ho.2.symm
  obtain ⟨s, hs⟩ := hl.replays.resolve_right fun ⟨_, g, hg, hgk⟩ => by
    have hmem : x ∈ [g] := hg ▸ by simp
    exact ho.1 (List.mem_singleton.mp hmem ▸ hgk)
  rw [replay_snoc, Option.bind_eq_some_iff] at hs
  obtain ⟨s₁, h1, h2⟩ := hs
  have ht := replay_tells h1
  cases (consume_cases h2).2 with
  | genesis hg => exact ho.1 hg
  | begun _ _ _ _ hnew =>
    -- its number would have to be new
    obtain ⟨b, hb, hbw⟩ := ht.owned e (by simp) hk.not_genesis
    have hlt := ht.lt_new hnew hb
    rw [hbw, hw] at hlt
    exact Window.Before.irrefl _ hlt
  | terminal _ hp hxw =>
    have := (ht.ended e (by simp) hk (hw.trans hxw)).2
    rw [hp] at this
    cases this

end Ledgers

/-! ### One observation -/

section Observe

variable {rootId : Identity} {fp : Digest} {w : World} {es base : List Entry} {tail : Bytes}
  {q : Query} {host : ObserveHost} {value : Receipt} {e : Entry}

/-- **Soundness**: what an answer says, whatever the ledger is. -/
lemma observe_reports (h : Represents rootId w.log.cached es tail)
    (ho : (observe w q host).2 = (value, .ok)) :
    w.holder = none ∧ tail = [] ∧ es ≠ [] ∧ q.rootId = rootId ∧ q.requestId ≠ zeroIdentity
      ∧ q.expectedEnvelope ≠ zeroDigest ∧ (∃ s, replay es = some s)
      ∧ Reports w.directory.cached es q value := by
  unfold observe at ho
  split at ho
  · cases ho
  rename_i h1
  push Not at h1
  split at ho
  · rename_i h2
    simp only [Prod.mk.injEq] at ho
    exact absurd ho.2 h2
  split at ho
  · rename_i w' o hopen
    simp only [Prod.mk.injEq] at ho
    exact absurd ho.2 (openLedger_none hopen).2
  rename_i w' j o hopen
  obtain ⟨hfree, rfl, hx, rfl⟩ := openLedger_some hopen
  split at ho
  · rename_i h2
    simp only [Prod.mk.injEq] at ho
    exact absurd ho.2 h2
  rename_i hst
  split at ho
  · cases ho
  rename_i hcount
  split at ho
  · rename_i v o herr
    obtain ⟨i, s, -, -, hstep⟩ := loop.error herr
    simp only [Prod.mk.injEq] at ho
    obtain ⟨rfl, rfl⟩ := ho
    exfalso
    unfold observeStep at hstep
    split at hstep
    · rename_i hr
      simp only [Except.error.injEq, Prod.mk.injEq] at hstep
      exact read_error hr hstep.2
    split at hstep
    · cases hstep
    split at hstep
    · cases hstep
    split at hstep
    · cases hstep
    split at hstep
    · cases hstep
    split at hstep
    · cases hstep
    split at hstep <;> cases hstep
  rename_i s hs
  cases ho
  obtain ⟨es', tail', hr, hreads, -, hf⟩ := examine_ok hx
  obtain ⟨rfl, rfl⟩ := frames_unique (hr.bytes.symm.trans h.bytes) hr.short h.short
  have htail : tail' = [] := hreads.tail_nil (status_ok (not_not.mp hst))
  have hne : es' ≠ [] := by
    rintro rfl
    exact hcount hreads.count
  have hroot : q.rootId = rootId := by
    obtain ⟨e, he⟩ := List.exists_mem_of_ne_nil es' hne
    rw [← (hr.log.filled e he).2, ← (h.log.filled e he).2]
  have hk : Knows w.directory.cached (es'.take j.count) q s := by
    refine loop.invariant (I := fun n s => Knows w.directory.cached (es'.take n) q s) hs
      (Knows.start _ q) ?_
    intro i s s' _ hi hstep
    obtain ⟨e, he, hk⟩ := Knows.step (d := w.directory.sync) hi hstep
    rw [take_succ (read_of_ok hr hreads hf he)]
    exact hk
  rw [hreads.count, List.take_length] at hk
  exact ⟨hfree, htail, hne, hroot, h1.2.1, h1.2.2, ⟨_, hk.replay⟩, hk.reports⟩

/-- **Completeness**: an observer of a ledger that a gate has written is answered, when the
ledger is free and whole, and the envelope is the one that it asks for. -/
lemma observe_answers (h : Holds rootId fp w es tail base) (hfree : w.holder = none)
    (ht : tail = []) (hne : es ≠ []) (hs : ∃ s, replay es = some s) (hroot : q.rootId = rootId)
    (hid : q.requestId ≠ zeroIdentity) (henv : q.expectedEnvelope ≠ zeroDigest)
    (hm : ∀ e ∈ es, OfRequest q.requestId e → Matches w.directory.cached q e.object) :
    ∃ value, (observe w q {}).2 = (value, .ok) := by
  have h0 := root_ne h.cached hne
  obtain ⟨s, hs⟩ := hs
  obtain ⟨j, hreads, hf, ho⟩ := open_of h hfree ht h0
  obtain ⟨s', hl, -⟩ := loop.total (n := j.count)
    (f := observeStep w.directory.sync w.log j q {}) (a := {})
    (I := fun n s => Knows w.directory.cached (es.take n) q s) (Knows.start _ q)
    fun i s₁ hi hk => by
      rw [hreads.count] at hi
      have hget := List.getElem?_eq_getElem hi
      have hread := read_eq h.cached hreads hf hget
      have hmem : es[i] ∈ es := List.getElem_mem hi
      have hpre : es.take i ++ [es[i]] <+: es := by
        rw [← take_succ hget]
        exact List.take_prefix _ _
      obtain ⟨s₂, h2⟩ := replay_prefix hs hpre
      rw [replay_snoc, hk.replay, Option.bind_some] at h2
      obtain ⟨s', hstep⟩ := Knows.goes_on (d := w.directory.sync) hk hread h2 (hm _ hmem)
        (fun he hn => first_begun (h.ledger.of_prefix hpre) he hn) fun t htar he => by
          -- the header was found by an earlier record of the request, which has the same number
          obtain ⟨env, hdr, h3, -, -, -, -, -, rfl⟩ := hk.target t htar
          obtain ⟨env', hdr', h3', -, -, -, -, -, hobj⟩ := hm _ hmem he
          obtain rfl := Option.some.inj (h3.symm.trans h3')
          exact hobj.symm
      refine ⟨s', hstep, ?_⟩
      obtain ⟨e, he, hk'⟩ := Knows.step (d := w.directory.sync) hk hstep
      obtain rfl := Except.ok.inj (hread.symm.trans he)
      rw [take_succ hget]
      exact hk'
  refine ⟨s'.value, ?_⟩
  unfold observe
  rw [if_neg (by simp [hroot, h0, hid, henv]), if_neg (by simp), hroot, ho]
  have hcount : j.count ≠ 0 := by
    rw [hreads.count]
    exact fun h => hne (List.length_eq_zero_iff.mp h)
  dsimp only
  rw [if_neg (by simp), if_neg hcount]
  unfold loop at hl
  rw [hl]

end Observe

/-! ### Two ledgers of one run -/

/-- What an answer `OK` says of a request. -/
structure Truthful (files : Name → Option Bytes) (es : List Entry) (q : Query) (value : Receipt) :
    Prop where
  absent : records es q.requestId = [] → value = {}
  last : ∀ e, (records es q.requestId).getLast? = some e → value = receiptFor q e (lastState e)
  unfinished : ∀ e, (records es q.requestId).getLast? = some e →
    e.kind = begun ∨ e.kind = unknownOutcome → value.state = .inProgress
  done : value.state = .terminalOk → ∃ e ∈ es, e.kind = knownOk ∧ e.operationId = q.requestId
    ∧ Matches files q e.object
  /-- The first record of all is of no request. -/
  first : (∀ e ∈ es, e.operationId = q.requestId → e.kind = genesis) → value = {}

def Final (value : Receipt) : Prop :=
  value.state = .terminalOk ∨ value.state = .terminalFailure

/-- What observers of a ledger are told, now and when it has grown. -/
structure Stable (rootId : Identity) (w w' : World) (es es' : List Entry) (tail tail' : Bytes) :
    Prop where
  /-- A ledger that is free and whole answers about every request whose envelope is asked for. -/
  told : w.holder = none → tail = [] → es ≠ [] → (∃ s, replay es = some s) → ∀ q,
    q.rootId = rootId → q.requestId ≠ zeroIdentity → q.expectedEnvelope ≠ zeroDigest →
    (∀ e ∈ es, OfRequest q.requestId e → Matches w.directory.cached q e.object) →
    ∃ value, (observe w q {}).2 = (value, .ok)
  truthful : ∀ q host value, (observe w q host).2 = (value, .ok) →
    Truthful w.directory.cached es q value
  /-- No other answer is given later on. -/
  settled : es <+: es' → ∀ q host value, (observe w q host).2 = (value, .ok) → Final value →
    ∀ host' value', (observe w' q host').2 = (value', .ok) → value' = value
  /-- And it is given whenever the ledger is free and whole. -/
  answered : es <+: es' → w'.holder = none → tail' = [] → ∀ q host value,
    (observe w q host).2 = (value, .ok) → Final value → (observe w' q {}).2 = (value, .ok)

section Stability

variable {good : VerifyDetached} {phost : ProvisionHost} {calls more : List Call} {l l' : History}
  {rootId : Identity} {fp : Digest} {w w' : World} {es es' base base' : List Entry}
  {tail tail' : Bytes} {q : Query} {host : ObserveHost} {value : Receipt} {e : Entry}
  {files : Name → Option Bytes}

lemma mem_of_last (h : (records es q.requestId).getLast? = some e) :
    e ∈ es ∧ OfRequest q.requestId e := by
  have := List.mem_of_getLast? h
  obtain ⟨h1, h2⟩ := List.mem_filter.mp this
  exact ⟨h1, of_decide_eq_true h2⟩

lemma Reports.truthful (h : Reports files es q value) : Truthful files es q value := by
  refine ⟨h.absent, fun e he => (h.found e he).1, fun e he hk => ?_, fun hs => ?_, fun hg => ?_⟩
  · rw [(h.found e he).1]
    rcases hk with hk | hk <;> simp [receiptFor, lastState, stateOf, hk]
  · cases hn : (records es q.requestId).getLast? with
    | none =>
      rw [h.absent (List.getLast?_eq_none_iff.mp hn)] at hs
      cases hs
    | some e =>
      obtain ⟨hv, hm⟩ := h.found e hn
      obtain ⟨hmem, ho⟩ := mem_of_last hn
      refine ⟨e, hmem, ?_, ho.2, hm⟩
      rw [hv] at hs
      simp only [receiptFor, lastState, stateOf] at hs
      split_ifs at hs with h1 h2 h3
      · cases hs
      · exact h2
      · cases hs
      · cases hs
  · refine h.absent (List.filter_eq_nil_iff.mpr fun e he ho => ?_)
    obtain ⟨h1, h2⟩ := of_decide_eq_true ho
    exact h1 (hg e he h2)

/-- The last record of a request with a final answer has ended it. -/
lemma Reports.known (h : Reports files es q value) (hf : Final value) :
    ∃ e, (records es q.requestId).getLast? = some e ∧ Known e := by
  cases hn : (records es q.requestId).getLast? with
  | none =>
    rw [h.absent (List.getLast?_eq_none_iff.mp hn)] at hf
    rcases hf with hf | hf <;> cases hf
  | some e =>
    refine ⟨e, rfl, ?_⟩
    rw [(h.found e hn).1] at hf
    simp only [Final, receiptFor, lastState, stateOf] at hf
    unfold Known
    split_ifs at hf with h1 h2 h3
    · rcases hf with hf | hf <;> cases hf
    · exact .inl h2
    · exact .inr h3
    · rcases hf with hf | hf <;> cases hf

/-- A ledger that has grown has no more records of a request that had ended. -/
lemma records_settled (h : Ledger fp files es') (hp : es <+: es')
    (hn : (records es q.requestId).getLast? = some e) (hk : Known e) :
    records es' q.requestId = records es q.requestId := by
  obtain ⟨grown, rfl⟩ := hp
  obtain ⟨hmem, ho⟩ := mem_of_last hn
  obtain ⟨pre, post, rfl⟩ := List.append_of_mem hmem
  have hs := settled (show Ledger _ _ (pre ++ e :: (post ++ grown)) by simpa using h) hk
  rw [ho.2] at hs
  have hnone : grown.filter (fun e => OfRequest q.requestId e) = [] :=
    List.filter_eq_nil_iff.mpr fun x hx hox =>
      hs x (List.mem_append_right _ hx) (of_decide_eq_true hox)
  rw [records, List.filter_append, hnone, List.append_nil, records]

/-- The envelope of a request in the ledger stays what it is. -/
lemma matches_later (h : Holds rootId fp w es tail base)
    (hf : Directory.Extends w.directory.stable w'.directory.cached) (he : e ∈ es)
    (ho : OfRequest q.requestId e) {object : Digest} (hm : Matches w.directory.cached q object) :
    Matches w'.directory.cached q object := by
  obtain ⟨env, hdr, h1, h2⟩ := hm
  obtain ⟨b, hb, hw⟩ := h.ledger.owned he ho.1
  obtain ⟨r, env', hdr', h3, -⟩ := h.ledger.recorded b hb
  have hid : b.operationId = q.requestId := (congrArg Window.requestId hw).trans ho.2
  rw [hid] at h3
  obtain rfl := Option.some.inj ((h.files _ _ h3).symm.trans h1)
  exact ⟨env', hdr, hf _ _ h3, h2⟩

theorem stable_of (h : Holds rootId fp w es tail base) (h' : Holds rootId fp w' es' tail' base')
    (hf : Directory.Extends w.directory.stable w'.directory.cached) :
    Stable rootId w w' es es' tail tail' := by
  have hlater : es <+: es' → ∀ {q host value}, (observe w q host).2 = (value, .ok) → Final value →
      ∀ {host' value'}, (observe w' q host').2 = (value', .ok) → value' = value := by
    intro hp q host value ho hfin host' value' ho'
    obtain ⟨-, -, -, -, -, -, -, hr⟩ := observe_reports h.cached ho
    obtain ⟨-, -, -, -, -, -, -, hr'⟩ := observe_reports h'.cached ho'
    obtain ⟨e, hn, hk⟩ := hr.known hfin
    rw [(hr.found e hn).1]
    rw [← records_settled h'.ledger hp hn hk] at hn
    exact (hr'.found e hn).1
  refine ⟨fun hfree ht hne hs q hroot hid henv hm =>
      observe_answers h hfree ht hne hs hroot hid henv hm, fun q host value ho => ?_,
    fun hp q host value ho hfin host' value' ho' => hlater hp ho hfin ho',
    fun hp hfree htail q host value ho hfin => ?_⟩
  · obtain ⟨-, -, -, -, -, -, -, hr⟩ := observe_reports h.cached ho
    exact hr.truthful
  · obtain ⟨-, -, -, hroot, hid, henv, -, hr⟩ := observe_reports h.cached ho
    obtain ⟨e, hn, hk⟩ := hr.known hfin
    obtain ⟨hmem, hoe⟩ := mem_of_last hn
    have hmem' : e ∈ es' := hp.subset hmem
    have hs : ∃ s, replay es' = some s := h'.ledger.replays.resolve_right fun ⟨_, g, hg, hgk⟩ => by
      rw [hg, List.mem_singleton] at hmem'
      exact hoe.1 (hmem' ▸ hgk)
    obtain ⟨value', ho'⟩ := observe_answers h' hfree htail (List.ne_nil_of_mem hmem') hs hroot hid
      henv fun x hx hox => by
        have hw := same_window h'.ledger hx hmem' hox.1 hoe.1 (hox.2.trans hoe.2.symm)
        have hobj : x.object = e.object := congrArg Window.requestDigest hw
        rw [hobj]
        exact matches_later h hf hmem hoe (hr.found e hn).2
    rw [ho', hlater hp ho hfin ho']

lemma collisionFree_left (h : Sha256.CollisionFree (policyFiles (calls ++ more))) :
    Sha256.CollisionFree (policyFiles calls) := by
  intro x hx y hy
  rw [policyFiles, List.flatMap_append] at h
  exact h x (List.mem_append_left _ hx) y (List.mem_append_left _ hy)

lemma life_append (hl : life good phost calls = some (l, w))
    (hl' : life good phost (calls ++ more) = some (l', w')) :
    w' = (exec (call good) w more).2 := by
  obtain ⟨w₀, hw₀, hx⟩ := Option.map_eq_some_iff.mp hl
  rw [life, hw₀, Option.map_some, Option.some.injEq] at hl'
  have h1 := congrArg Prod.snd hl'
  rw [exec_append, hx] at h1
  exact h1.symm

lemma files_life (hcf : Sha256.CollisionFree (policyFiles (calls ++ more)))
    (hl : life good phost calls = some (l, w))
    (hl' : life good phost (calls ++ more) = some (l', w')) :
    Directory.Extends w.directory.stable w'.directory.stable := by
  rw [life_append hl hl']
  clear hl'
  induction more using List.reverseRecOn with
  | nil => exact .refl _
  | append_singleton more c ih =>
    rw [← List.append_assoc] at hcf
    have hcf := collisionFree_left hcf
    obtain ⟨⟨l₁, w₁⟩, hl₁⟩ : ∃ r, life good phost (calls ++ more) = some r := by
      obtain ⟨w₀, hw₀, -⟩ := Option.map_eq_some_iff.mp hl
      exact ⟨_, by rw [life, hw₀, Option.map_some]⟩
    obtain ⟨_, _, _, _, _, -, hh, -⟩ := holds_life hcf hl₁
    rw [life_append hl hl₁] at hh
    rw [exec_snoc]
    exact (ih hcf).trans (files_call _ hh.files c)

end Stability

/-- However a ledger came about and grew, an observer's final answer stands. -/
def ObservesStably (good : VerifyDetached) (host : ProvisionHost) (calls more : List Call) : Prop :=
  ∀ l w l' w', life good host calls = some (l, w) →
    life good host (calls ++ more) = some (l', w') → ∃ rootId es tail es' tail',
      Represents rootId w.log.cached es tail ∧ Represents rootId w'.log.cached es' tail'
        ∧ Stable rootId w w' es es' tail tail'

/-- **What an observer is told of a request that has ended stands.** -/
theorem observes_stably (good : VerifyDetached) (host : ProvisionHost) (calls more : List Call)
    (hcf : Sha256.CollisionFree (policyFiles (calls ++ more))) :
    ObservesStably good host calls more := by
  intro l w l' w' hl hl'
  obtain ⟨p, d, es, tail, base, hload, hh, -⟩ := holds_life (collisionFree_left hcf) hl
  obtain ⟨p', d', es', tail', base', hload', hh', -⟩ := holds_life hcf hl'
  obtain ⟨rfl, rfl⟩ := Prod.mk.inj (Except.ok.inj (hload.symm.trans hload'))
  exact ⟨p.rootId, es, tail, es', tail', hh.cached, hh'.cached,
    stable_of hh hh' ((files_life hcf hl hl').trans hh'.files)⟩

theorem observes_stably_repaired :
    ObservesStably signed siteHost (repaired.take 3) (repaired.drop 3) :=
  observes_stably signed siteHost (repaired.take 3) (repaired.drop 3) (by
    rw [List.take_append_drop]
    exact repaired_collisionFree)

/-! ### A torn tail -/

def firstQuery : Query := ⟨Block.fill 16 20, Block.fill 16 1, Sha256.hash applyFirst.envelope⟩

def tear : Call :=
  ⟨.begin 0 recoverFirst { beginHost with append := ⟨true, .short 100⟩ },
    some (.machine false 1000 fun _ => true)⟩

set_option maxRecDepth 10000 in
lemma torn_observed : (life signed siteHost (torn.take 3)).map (fun r =>
      (decide (r.2.log.cached <+: (call signed r.2 tear).1.log.cached),
        (observe r.2 firstQuery {}).2.1.state, (observe r.2 firstQuery {}).2.2,
        (observe (call signed r.2 tear).1 firstQuery {}).2.2)) =
    some (true, .terminalOk, .ok, .indeterminate) := by decide +kernel

/-- **A final answer is withheld** while the tail of another request is in the way. -/
theorem observe_torn : ∃ l w l' w' value, life signed siteHost (torn.take 3) = some (l, w)
    ∧ life signed siteHost torn = some (l', w') ∧ w.log.cached <+: w'.log.cached
    ∧ (observe w firstQuery {}).2 = (value, .ok) ∧ value.state = .terminalOk
    ∧ (observe w' firstQuery {}).2.2 = .indeterminate := by
  obtain ⟨⟨l, w⟩, hl, hseen⟩ := Option.map_eq_some_iff.mp torn_observed
  simp only [Prod.mk.injEq, decide_eq_true_eq] at hseen
  obtain ⟨hp, hst, hok, hind⟩ := hseen
  obtain ⟨w₀, hw₀, hx⟩ := Option.map_eq_some_iff.mp hl
  have htorn : life signed siteHost torn =
      some (l ++ [(tear, (call signed w tear).2)], (call signed w tear).1) := by
    rw [show torn = torn.take 3 ++ [tear] from rfl, life, hw₀, Option.map_some, exec_snoc, hx]
  exact ⟨l, w, _, _, _, hl, htorn, hp, Prod.ext rfl hok, hst, hind⟩

end NiayanAssurance.ReceiverLedgerRuns
