import NiayanAssurance.GateRuns

/-!
What is pending is only ever recovered: as long as the outcome of the newest request is not
known, only a recovery of the same transaction and plan is let past it.
-/

namespace NiayanAssurance.GateBarrier

open NiayanAssurance.Lib NiayanAssurance.Types NiayanAssurance.LogFormat
open NiayanAssurance.Log hiding World
open NiayanAssurance.Protocol NiayanAssurance.Requests NiayanAssurance.Ingress
open NiayanAssurance.Replay NiayanAssurance.SitePolicy NiayanAssurance.LogFile
open NiayanAssurance.RequestReplay NiayanAssurance.ReplaySpec
open NiayanAssurance.Gate hiding genesis
open NiayanAssurance.GateSpec NiayanAssurance.GateLedger NiayanAssurance.GateRuns

/-! ### One call -/

def SameWork (r r' : Request) : Prop :=
  r.transactionId = r'.transactionId ∧ r.planDigest = r'.planDigest

lemma SameWork.trans {r r' r'' : Request} (h : SameWork r r') (h' : SameWork r' r'') :
    SameWork r r'' := ⟨h.1.trans h'.1, h.2.trans h'.2⟩

/-- The submission asks for something `allowed`, in the transaction and plan of the newest
request. -/
def Resumes (files : Name → Option Bytes) (es : List Entry) (x : Submission)
    (allowed : RequestedAction → Prop) : Prop :=
  ∃ b r r', newest es = some b ∧ Recorded files b r' ∧ Requests.decode x.body = .ok r
    ∧ allowed r.action ∧ SameWork r r'

section Calls

variable {good : VerifyDetached} {rootId : Identity} {fp : Digest} {w : World}
  {es base : List Entry} {tail : Bytes} {id : ℕ} {x : Submission} {b : Entry} {s : State}

/-- The request of the newest admission can be read back. -/
lemma found_newest (h : Holds rootId fp w es tail base) (hb : newest es = some b) :
    ∃ env r, w.directory.stable (.request b.operationId) = some env
      ∧ w.directory.cached (.request b.operationId) = some env
      ∧ Sha256.hash (range env 1 160) = b.object ∧ Recorded w.directory.cached b r
      ∧ priorRequest w.directory (RequestReplay.windowOf b) .ok = .ok r := by
  obtain ⟨r, hr⟩ := h.ledger.recorded b (newest_mem hb)
  have hr' := hr.mono h.files
  obtain ⟨env, hdr, h1, -, -, h4, -⟩ := hr
  exact ⟨env, r, h1, h.files _ _ h1, congrArg Window.requestDigest h4, hr',
    priorRequest_recorded hr'⟩

lemma unsettled_of (hs : replay es = some s) (hp : s.pending = true) : unsettled es = true :=
  (replay_tells hs).pending.symm.trans hp

/-- **What is new while a request is pending** is its recovery. -/
theorem begin_resumes (h : Holds rootId fp w es tail base) {host : BeginHost}
    (hs : replay es = some s) (hp : s.pending = true) {o : Option Outcome}
    (ha : (beginRequest good w id x host).2 = ⟨.ok, some .newRequest, o⟩) :
    Resumes w.directory.stable es x Recovery := by
  have hc := begin_cases good w id x host
  generalize beginRequest good w id x host = a at hc ha
  obtain ⟨w', a⟩ := a
  dsimp only at hc ha
  cases hc with
  | refused => simp [refused] at ha
  | @retry _ _ _ v => cases hv : v.pending <;> simp [hv] at ha
  | placed => simp [refused] at ha
  | appended => simp [refused] at ha
  | @admitted p d j j' v dir f he ht hv hd =>
    obtain ⟨before, e, hjud⟩ := judge_ok hv
    obtain ⟨-, hs', -⟩ := h.judged he hjud.previous
    obtain rfl := Option.some.inj (hs'.symm.trans hs)
    obtain ⟨n, r', hn, hr, hrec, hsame⟩ :=
      admissible_of h hs (hjud.admissible.resolve_left hd).2 (unsettled_of hs hp)
    exact ⟨n, v.content, r', hn, hr, hjud.authorized.request, hrec, hsame⟩

/-- **What changes the ledger while a request is pending**, and is not the request itself, is
its repair. -/
theorem repair_resumes (h : Holds rootId fp w es tail base) {host : LedgerHost}
    (hs : replay es = some s) (hp : s.pending = true)
    (ha : (repairLedger good w x host).1.log ≠ w.log) :
    Resumes w.directory.stable es x (· = .repair) := by
  have hc := repairLedger_cases good w x host
  generalize (repairLedger good w x host).1 = w' at hc ha
  cases hc with
  | refused hw => exact absurd hw.log ha
  | stored => exact absurd rfl ha
  | recorded he hv =>
    obtain ⟨r, before, hjud⟩ := judgeRepair_ok hv
    obtain ⟨-, hs', -⟩ := h.judged he hjud.previous
    obtain rfl := Option.some.inj (hs'.symm.trans hs)
    obtain ⟨n, r', hn, hr, -, hsame⟩ := admissible_repair h hs hjud (unsettled_of hs hp)
    exact ⟨n, r, r', hn, hr, hjud.authorized.request, hjud.action, hsame⟩

end Calls

/-! ### Chains of recoveries -/

section Chains

variable {fp : Digest} {files : Name → Option Bytes} {es pre mid : List Entry} {a b : Entry}

/-- The newest admission of a ledger that goes on after the admission `a`. -/
lemma newest_after (ha : a.kind = begun) (hb : newest (pre ++ a :: mid) = some b) :
    b = a ∨ b ∈ admissions mid := by
  have hadm : admissions (pre ++ a :: mid) = admissions pre ++ [a] ++ admissions mid := by
    rw [show pre ++ a :: mid = pre ++ [a] ++ mid by simp, admissions_append,
      admissions_begun ha]
  rw [newest, hadm] at hb
  rcases List.eq_nil_or_concat (admissions mid) with hm | ⟨m, c, hm⟩
  · rw [hm, List.append_nil, List.getLast?_concat] at hb
    exact .inl (Option.some.inj hb).symm
  · rw [hm, List.concat_eq_append, ← List.append_assoc, List.getLast?_concat] at hb
    obtain rfl := Option.some.inj hb
    exact .inr (by rw [hm]; simp)

/-- **A chain of recoveries stays with its transaction and its plan**, as long as it is. -/
theorem pending_chain (h : Ledger fp files es) (hes : pre ++ a :: mid <+: es)
    (ha : a.kind = begun)
    (hp : ∀ m c post, mid = m ++ c :: post → c.kind = begun → unsettled (pre ++ a :: m) = true) :
    ∀ c ∈ admissions mid, ∃ r r', Recorded files a r ∧ Recorded files c r' ∧ SameWork r' r := by
  induction mid using List.reverseRecOn with
  | nil => simp
  | append_singleton mid x ih =>
    have hle : pre ++ a :: mid <+: es := by
      refine List.IsPrefix.trans ⟨[x], by simp⟩ hes
    have ih := ih hle fun m c post hm hk => hp m c (post ++ [x]) (by rw [hm]; simp) hk
    intro c hc
    by_cases hx : x.kind = begun
    · rw [admissions_begun hx, List.mem_append] at hc
      rcases hc with hc | hc
      · exact ih c hc
      rw [List.mem_singleton.mp hc]
      obtain ⟨rest, hrest⟩ := hes
      obtain ⟨r, hr, hadm⟩ := h.barrier (pre ++ a :: mid) x rest (by rw [← hrest]; simp) hx
      obtain ⟨n, r', hn, hr', -, hsame⟩ := hadm (hp mid x [] rfl hx)
      rcases newest_after ha hn with rfl | hn
      · exact ⟨r', r, hr', hr, hsame⟩
      · obtain ⟨r₁, r₂, h1, h2, h3⟩ := ih n hn
        obtain rfl := h2.unique hr'
        exact ⟨r₁, r, h1, hr, SameWork.trans hsame h3⟩
    · rw [admissions_other hx] at hc
      exact ih c hc

end Chains

/-! ### Every run -/

/-- A pending request and what the gate does about it. -/
structure Bars (good : VerifyDetached) (rootId : Identity) (w : World) (es : List Entry)
    (tail : Bytes) : Prop where
  represents : Represents rootId w.log.cached es tail
  found : ∀ b, newest es = some b → ∃ env r,
    w.directory.stable (.request b.operationId) = some env
      ∧ w.directory.cached (.request b.operationId) = some env
      ∧ Sha256.hash (range env 1 160) = b.object ∧ Recorded w.directory.cached b r
      ∧ priorRequest w.directory (RequestReplay.windowOf b) .ok = .ok r
  begins : ∀ s, replay es = some s → s.pending = true → ∀ id x host o,
    (beginRequest good w id x host).2 = ⟨.ok, some .newRequest, o⟩ →
    Resumes w.directory.stable es x Recovery
  repairs : ∀ s, replay es = some s → s.pending = true → ∀ x host,
    (repairLedger good w x host).1.log ≠ w.log →
    Resumes w.directory.stable es x (· = .repair)
  /-- Along the admissions that follow `a` while something is pending. -/
  chain : ∀ pre a mid, pre ++ a :: mid <+: es → a.kind = begun →
    (∀ m c post, mid = m ++ c :: post → c.kind = begun → unsettled (pre ++ a :: m) = true) →
    ∀ c ∈ admissions mid, ∃ r r', Recorded w.directory.stable a r
      ∧ Recorded w.directory.stable c r' ∧ SameWork r' r

def PendingBars (good : VerifyDetached) (host : ProvisionHost) (calls : List Call) : Prop :=
  ∀ l w, life good host calls = some (l, w) → ∃ rootId es tail, Bars good rootId w es tail

/-- **A pending request admits only its recovery.** -/
theorem pending_bars (good : VerifyDetached) (host : ProvisionHost) (calls : List Call)
    (hcf : Sha256.CollisionFree (policyFiles calls)) : PendingBars good host calls := by
  intro l w hl
  obtain ⟨p, d, es, tail, base, hload, hh, -⟩ := holds_life hcf hl
  exact ⟨p.rootId, es, tail, hh.cached, fun b hb => found_newest hh hb,
    fun s hs hp id x host o ha => begin_resumes hh hs hp ha,
    fun s hs hp x host ha => repair_resumes hh hs hp ha,
    fun pre a mid hes ha hp => pending_chain hh.ledger hes ha hp⟩

theorem pending_bars_repaired : PendingBars signed siteHost repaired :=
  pending_bars signed siteHost repaired repaired_collisionFree

end NiayanAssurance.GateBarrier
