import NiayanAssurance.Gate
import NiayanAssurance.Lib.Loop
import NiayanAssurance.LogFile
import NiayanAssurance.ReplaySpec

/-!
What each call of the gate can do, said once.
-/

namespace NiayanAssurance.GateSpec

open NiayanAssurance.Lib NiayanAssurance.Types NiayanAssurance.LogFormat
open NiayanAssurance.Log hiding World
open NiayanAssurance.Protocol NiayanAssurance.Requests NiayanAssurance.Ingress
open NiayanAssurance.Replay NiayanAssurance.SitePolicy NiayanAssurance.LogFile
open NiayanAssurance.RequestReplay (replay State)
open NiayanAssurance.Gate

/-! ### Reading the ledger -/

section Reading

variable {rootId : Identity} {f : File} {es : List Entry} {tail : Bytes} {j : Journal}
  {readAt : ℕ → Outcome} {r : State} {o o' : Outcome} {e : Entry} {i : ℕ}

lemma read_of_ok (h : Represents rootId f.cached es tail) (hj : Reads j rootId es tail)
    (hp : j.filePoisoned = false) (hr : j.read f (i + 1) o = .ok e) : es[i]? = some e := by
  have ho : o = .ok := by
    unfold Journal.read at hr
    split at hr
    · cases hr
    split at hr
    · cases hr
    split at hr
    · cases hr
    · rename_i h1
      exact not_not.mp h1
  have hi : i < es.length := by
    unfold Journal.read at hr
    split at hr
    · cases hr
    · rename_i h1
      rw [← hj.count]
      omega
  have hget := List.getElem?_eq_getElem hi
  rw [ho, read_eq h hj hp hget] at hr
  rw [hget, ← Except.ok.inj hr]

lemma read_error (hr : j.read f i o = .error o') : o' ≠ .ok := by
  unfold Journal.read at hr
  split at hr
  · cases hr; simp
  split at hr
  · cases hr; simp
  split at hr
  · cases hr; assumption
  split at hr
  · cases hr; simp
  split at hr
  · cases hr; simp
  split at hr <;> cases hr
  simp

lemma take_succ (hi : es[i]? = some e) : es.take (i + 1) = es.take i ++ [e] := by
  rw [List.take_add_one, hi]
  rfl

lemma loop_ok (h : Represents rootId f.cached es tail) (hj : Reads j rootId es tail)
    (hp : j.filePoisoned = false) {n : ℕ} (hl : loop n (readStep j f readAt) {} = .ok r) :
    replay (es.take n) = some r := by
  refine loop.invariant (I := fun n r => replay (es.take n) = some r) hl rfl ?_
  intro i r r' _ hr hstep
  unfold readStep at hstep
  split at hstep
  · cases hstep
  rename_i e he
  split at hstep
  · cases hstep
  rename_i r₂ hc
  cases hstep
  rw [take_succ (read_of_ok h hj hp he), RequestReplay.replay_snoc, hr, Option.bind_some, hc]

/-- **What `Read_Previous` finds** is what the ledger says. -/
theorem readPrevious_ok (h : Represents rootId f.cached es tail) (hj : Reads j rootId es tail)
    (hp : j.filePoisoned = false) (hr : readPrevious j f readAt = .ok r) :
    es ≠ [] ∧ replay es = some r := by
  unfold readPrevious at hr
  split at hr
  · cases hr
  · rename_i hc
    have := loop_ok h hj hp hr
    rw [hj.count, List.take_length] at this
    refine ⟨?_, this⟩
    rintro rfl
    exact hc hj.count

lemma readPrevious_of (h : Represents rootId f.cached es tail) (hj : Reads j rootId es tail)
    (hp : j.filePoisoned = false) (hne : es ≠ []) (hr : replay es = some r) :
    readPrevious j f (fun _ => .ok) = .ok r := by
  obtain ⟨r', hl, hr'⟩ := loop.total (n := es.length) (f := readStep j f fun _ => .ok)
    (a := {}) (I := fun n r => replay (es.take n) = some r) rfl fun i r₁ hi h1 => by
      have hget := List.getElem?_eq_getElem hi
      obtain ⟨r₂, h2⟩ := RequestReplay.replay_prefix hr (List.take_prefix (i + 1) es)
      rw [take_succ hget, RequestReplay.replay_snoc, h1, Option.bind_some] at h2
      refine ⟨r₂, ?_, by rw [take_succ hget, RequestReplay.replay_snoc, h1, Option.bind_some, h2]⟩
      rw [readStep, read_eq h hj hp hget]
      simp only [h2]
  rw [List.take_length, hr] at hr'
  unfold readPrevious
  rw [if_neg, hj.count, Option.some.inj hr']
  · exact hl
  · rw [hj.count]
    exact fun h0 => hne (List.length_eq_zero_iff.mp h0)

end Reading

/-! ### Opening it -/

/-- Nothing has changed but that the directory may be on the medium now. -/
structure Touched (w w' : World) : Prop where
  log : w'.log = w.log
  holder : w'.holder = w.holder
  directory : w'.directory = w.directory ∨ w'.directory = w.directory.sync

lemma Touched.refl (w : World) : Touched w w := ⟨rfl, rfl, .inl rfl⟩

/-- The policy was read and the ledger is open. -/
structure Entered (w : World) (host : EnterHost) (p : Policy) (d : Digest) (j : Journal) :
    Prop where
  free : w.holder = none
  policy : readPolicy host = .ok (p, d)
  opened : examine p.rootId w.log.cached host.log = .ok j

section Enter

variable {w w' : World} {host : EnterHost} {rootId : Identity} {ohost : OpenHost} {p : Policy}
  {d : Digest} {j : Journal} {o : Outcome} {es : List Entry} {tail : Bytes}

lemma readPolicy_error (h : readPolicy host = .error o) : o ≠ .ok := by
  unfold readPolicy at h
  split at h
  · cases h; assumption
  split at h
  · rename_i hl
    cases h
    exact load_error hl
  split at h
  · cases h; simp
  split at h
  · cases h; assumption
  split at h
  · cases h; simp
  split at h
  · cases h; assumption
  split at h
  · cases h; assumption
  split at h
  · cases h; assumption
  · cases h

/-- The policy in force is the one in the file, in the scope of this boot. -/
lemma readPolicy_ok (h : readPolicy host = .ok (p, d)) : ∃ q, load host.policy = .ok (q, d)
    ∧ p = { q with scope := { q.scope with bootId := host.bootId } }
    ∧ q.contract = fingerprint ∧ (host.utc : ℕ) < q.validUntil := by
  unfold readPolicy at h
  split at h
  · cases h
  split at h
  · cases h
  rename_i q d' hl
  split at h
  · cases h
  rename_i h1
  split at h
  · cases h
  split at h
  · cases h
  rename_i h2
  split at h
  · cases h
  split at h
  · cases h
  split at h
  · cases h
  · obtain ⟨rfl, rfl⟩ := Prod.mk.inj (Except.ok.inj h)
    exact ⟨q, hl, rfl, not_not.mp h1, by omega⟩

lemma openLog_open (f : File) (rootId : Identity) (host : OpenHost) :
    (host.locked = .ok ∧ rootId ≠ zeroIdentity ∧ ∃ j, examine rootId f.cached host = .ok j
        ∧ openLog ⟨some f, none⟩ rootId false host = (⟨some f, some j⟩, j.status))
      ∨ ∃ o, o ≠ .ok ∧ openLog ⟨some f, none⟩ rootId false host = (⟨some f, none⟩, o) := by
  unfold openLog
  split
  · exact .inr ⟨_, by simp, rfl⟩
  rename_i h1
  split
  · exact .inr ⟨_, by simp, rfl⟩
  split
  · rename_i h2
    refine .inr ⟨_, h2, ?_⟩
    split <;> rfl
  rename_i h2
  simp only [Option.getD_some]
  rcases hx : examine rootId f.cached host with o | j <;> dsimp only
  · refine .inr ⟨o, ?_, rfl⟩
    unfold examine at hx
    split at hx
    · cases hx; assumption
    split at hx
    · cases hx; simp
    split at hx <;> cases hx
    simp
  · push Not at h1
    exact .inl ⟨not_not.mp h2, h1.2, j, rfl, rfl⟩

lemma openLedger_some (h : openLedger w rootId ohost = (w', some j, o)) :
    w.holder = none ∧ w' = { w with directory := w.directory.sync }
      ∧ examine rootId w.log.cached ohost = .ok j ∧ o = j.status := by
  unfold openLedger at h
  split at h
  · cases h
  rename_i hh
  dsimp only at h
  rcases openLog_open w.log rootId ohost with ⟨hl, -, j', hx, ho⟩ | ⟨o', -, ho⟩
  · rw [ho, if_pos hl] at h
    obtain ⟨rfl, h2⟩ := Prod.mk.inj h
    obtain ⟨h3, rfl⟩ := Prod.mk.inj h2
    cases h3
    exact ⟨by simpa using hh, rfl, hx, rfl⟩
  · rw [ho] at h
    cases h

lemma openLedger_none (h : openLedger w rootId ohost = (w', none, o)) :
    Touched w w' ∧ o ≠ .ok := by
  unfold openLedger at h
  split at h
  · cases h
    refine ⟨.refl w, ?_⟩
    split <;> simp_all
  dsimp only at h
  rcases openLog_open w.log rootId ohost with ⟨-, -, j', hx, ho⟩ | ⟨o', ho', ho⟩
  · rw [ho] at h
    cases h
  · rw [ho] at h
    obtain ⟨rfl, h2⟩ := Prod.mk.inj h
    cases h2
    refine ⟨?_, ho'⟩
    split
    · exact ⟨rfl, rfl, .inr rfl⟩
    · exact .refl w

/-- **An open ledger**: its journal reads what the file holds, and a ledger that is not empty
belongs to the root of the policy. -/
theorem Entered.reads (he : Entered w host p d j) (h : Represents rootId w.log.cached es tail) :
    Represents p.rootId w.log.cached es tail ∧ Reads j p.rootId es tail ∧ j.poisoned = false
      ∧ j.filePoisoned = false ∧ (es ≠ [] → p.rootId = rootId) := by
  obtain ⟨es', tail', hr, hreads, hp, hf⟩ := examine_ok he.opened
  obtain ⟨rfl, rfl⟩ := frames_unique (hr.bytes.symm.trans h.bytes) hr.short h.short
  refine ⟨hr, hreads, hp, hf, fun hne => ?_⟩
  obtain ⟨e, he⟩ := List.exists_mem_of_ne_nil es' hne
  rw [← (hr.log.filled e he).2, ← (h.log.filled e he).2]

end Enter

/-! ### Begin -/

/-- A request that was judged: what was read, checked and found. -/
structure Judges (good : VerifyDetached) (d : Directory Name) (f : File) (j : Journal)
    (p : Policy) (x : Submission) (host : BeginHost) (v : Judged) (before : State) (e : Entry) :
    Prop where
  previous : readPrevious j f host.readAt = .ok before
  serial : (before.serial : ℕ) ≤ p.serial
  authorized : Authorized good x.header x.body x.signature p.requestKey p.scope p.contract
    host.now v.header v.content
  decision : check before.window (Ingress.windowOf v.header x.header) = v.decision
  revision : v.content.expectedRevision = p.serial
  last : j.read f j.count host.lastRead = .ok e
  pending : v.pending = before.pending
  lastResult : v.lastResult = if before.pending then .indeterminate else e.result
  /-- What is new must be allowed by what is pending. -/
  admissible : v.decision = .exactRetry ∨ v.decision = .fresh
    ∧ (before.pending = true → ∃ r, priorRequest d before.window host.priorRead = .ok r
      ∧ Recovery v.content.action ∧ v.content.transactionId = r.transactionId
      ∧ v.content.planDigest = r.planDigest)

section Judge

variable {good : VerifyDetached} {d : Directory Name} {f : File} {j : Journal} {p : Policy}
  {x : Submission} {host : BeginHost} {v : Judged} {o : Outcome}

/-- Where the checks of a submission end, each with what has been found. -/
inductive Judging (good : VerifyDetached) (d : Directory Name) (f : File) (j : Journal)
    (p : Policy) (x : Submission) (host : BeginHost) : Except Outcome Judged → Prop
  | previous {o : Outcome} (h : readPrevious j f host.readAt = .error o) :
      Judging good d f j p x host (.error o)
  | stale : Judging good d f j p x host (.error .stale)
  | request {window : Window} {o : Outcome} (h : checkRequest good host.sodium x.header x.body
      x.signature p.requestKey p.scope p.contract host.now window = .error o) :
      Judging good d f j p x host (.error o)
  | last {o : Outcome} (h : j.read f j.count host.lastRead = .error o) :
      Judging good d f j p x host (.error o)
  | prior {window : Window} {o : Outcome} (h : priorRequest d window host.priorRead = .error o) :
      Judging good d f j p x host (.error o)
  | conflict : Judging good d f j p x host (.error .conflict)
  | exhausted {r : Request} (h : Requests.decode x.body = .ok r)
      (hc : canAppend j (needed r.action) false = false) :
      Judging good d f j p x host (.error .exhausted)
  | judged {v : Judged} {b : State} {e : Entry} (h : Judges good d f j p x host v b e)
      (hc : v.decision ≠ .exactRetry → canAppend j (needed v.content.action) false = true) :
      Judging good d f j p x host (.ok v)

theorem judge_cases (good : VerifyDetached) (d : Directory Name) (f : File) (j : Journal)
    (p : Policy) (x : Submission) (host : BeginHost) :
    Judging good d f j p x host (judge good d f j p x host) := by
  unfold judge
  cases hb : readPrevious j f host.readAt with
  | error o => exact .previous hb
  | ok before =>
    dsimp only
    by_cases hser : (p.serial : ℕ) < before.serial
    · rw [if_pos hser]
      exact .stale
    rw [if_neg hser]
    cases hc : checkRequest good host.sodium x.header x.body x.signature p.requestKey p.scope
        p.contract host.now before.window with
    | error o => exact .request hc
    | ok c =>
      obtain ⟨h, ha, hw, hcl⟩ := checkRequest_ok hc
      dsimp only
      by_cases hrev : c.request.expectedRevision = p.serial
      · rw [if_neg (not_not.mpr hrev), ha.header]
        dsimp only
        cases he : j.read f j.count host.lastRead with
        | error o => exact .last he
        | ok e =>
          dsimp only
          obtain ⟨v, hv⟩ : ∃ v : Judged, v = ⟨c.classification, before.pending, h, c.request,
            if before.pending then .indeterminate else e.result⟩ := ⟨_, rfl⟩
          rw [← hv]
          by_cases hx : c.classification = .exactRetry
          · rw [if_pos hx]
            refine .judged (b := before) (e := e) ?_ fun hd => absurd (hv ▸ hx) hd
            rw [hv]
            exact ⟨hb, Nat.le_of_not_lt hser, ha, hw, hrev, he, rfl, rfl, .inl hx⟩
          have hfr := hcl.resolve_right hx
          rw [if_neg hx, if_neg (not_not.mpr hfr)]
          -- What is left is to find room, once what is pending allows it.
          have room : (before.pending = true → ∃ r,
              priorRequest d before.window host.priorRead = .ok r ∧ Recovery c.request.action
                ∧ c.request.transactionId = r.transactionId
                ∧ c.request.planDigest = r.planDigest) →
              Judging good d f j p x host
                (if canAppend j (needed c.request.action) false then .ok v
                  else .error .exhausted) := by
            intro hallow
            by_cases hroom : canAppend j (needed c.request.action) false = true
            · rw [if_pos hroom]
              refine .judged (b := before) (e := e) ?_ fun _ => by rw [hv]; exact hroom
              rw [hv]
              exact ⟨hb, Nat.le_of_not_lt hser, ha, hw, hrev, he, rfl, rfl, .inr ⟨hfr, hallow⟩⟩
            · rw [if_neg hroom]
              exact .exhausted ha.request (by simpa using hroom)
          by_cases hp : before.pending = true
          · rw [if_pos hp]
            cases hr : priorRequest d before.window host.priorRead with
            | error o => exact .prior hr
            | ok r =>
              dsimp only
              by_cases hrec : ¬ Recovery c.request.action
                  ∨ c.request.transactionId ≠ r.transactionId
                  ∨ c.request.planDigest ≠ r.planDigest
              · rw [if_pos hrec]
                exact .conflict
              · rw [if_neg hrec]
                push Not at hrec
                exact room fun _ => ⟨r, hr, hrec⟩
          · rw [if_neg hp]
            exact room fun hp' => absurd hp' hp
      · rw [if_pos hrev]
        exact .stale

theorem judge_ok (h : judge good d f j p x host = .ok v) :
    ∃ before e, Judges good d f j p x host v before e := by
  have hj := judge_cases good d f j p x host
  rw [h] at hj
  cases hj with
  | judged hv => exact ⟨_, _, hv⟩

lemma priorRequest_error {window : Window} {readAt : Outcome}
    (h : priorRequest d window readAt = .error o) : o ≠ .ok := by
  unfold priorRequest at h
  split at h
  · cases h; simp
  split at h
  · cases h; simp
  split at h <;> cases h
  simp

lemma readPrevious_error {readAt : ℕ → Outcome} (h : readPrevious j f readAt = .error o) :
    o ≠ .ok := by
  unfold readPrevious at h
  split at h
  · cases h; simp
  obtain ⟨i, r, -, -, hstep⟩ := loop.error h
  unfold readStep at hstep
  split at hstep
  · rename_i hr
    cases hstep
    exact read_error hr
  split at hstep <;> cases hstep
  simp

lemma judge_error (h : judge good d f j p x host = .error o) : o ≠ .ok := by
  have hj := judge_cases good d f j p x host
  rw [h] at hj
  cases hj with
  | previous h => exact readPrevious_error h
  | request h => exact checkRequest_error h
  | last h => exact read_error h
  | prior h => exact priorRequest_error h
  | stale => nofun
  | conflict => nofun
  | exhausted => nofun

end Judge

/-- What `Begin_Request` can do. -/
inductive Begins (good : VerifyDetached) (w : World) (id : ℕ) (x : Submission)
    (host : BeginHost) : World → Answer → Prop
  | refused {w' : World} {o : Outcome} (hw : Touched w w') (ho : o ≠ .ok) :
      Begins good w id x host w' (refused o)
  /-- The newest request once more: nothing is written. -/
  | retry {p : Policy} {d : Digest} {j : Journal} {v : Judged} {s : Session}
      (he : Entered w host.toEnterHost p d j) (ht : j.tailBytes = 0)
      (hv : judge good w.directory.sync w.log j p x host = .ok v)
      (hd : v.decision = .exactRetry) (hs : s.admitted = false) (hj : s.journal = j) :
      Begins good w id x host ⟨w.log, w.directory.sync, some (id, s)⟩
        ⟨.ok, some (if v.pending then .unknownRetry else .knownRetry), some v.lastResult⟩
  /-- The envelope could not be stored. -/
  | placed {p : Policy} {d : Digest} {j : Journal} {v : Judged} {dir : Directory Name}
      {o : Outcome} (he : Entered w host.toEnterHost p d j) (ht : j.tailBytes = 0)
      (hv : judge good w.directory.sync w.log j p x host = .ok v) (hd : v.decision ≠ .exactRetry)
      (hp : Atomic.Preserves w.directory.sync (.request v.header.requestId) x.envelope dir o)
      (ho : o ≠ .ok) :
      Begins good w id x host ⟨w.log, dir, none⟩ (refused o)
  /-- The envelope is stored, but the record may not be. -/
  | appended {p : Policy} {d : Digest} {j j' : Journal} {v : Judged} {dir : Directory Name}
      {f : File} {o : Outcome} (he : Entered w host.toEnterHost p d j) (ht : j.tailBytes = 0)
      (hv : judge good w.directory.sync w.log j p x host = .ok v) (hd : v.decision ≠ .exactRetry)
      (hp : Atomic.Preserves w.directory.sync (.request v.header.requestId) x.envelope dir .ok)
      (ha : Appends j w.log (admission p v.header x.header) j' f o) (ho : o ≠ .ok) :
      Begins good w id x host ⟨f, dir, none⟩ (refused o)
  | admitted {p : Policy} {d : Digest} {j j' : Journal} {v : Judged} {dir : Directory Name}
      {f : File} (he : Entered w host.toEnterHost p d j) (ht : j.tailBytes = 0)
      (hv : judge good w.directory.sync w.log j p x host = .ok v) (hd : v.decision ≠ .exactRetry)
      (hp : Atomic.Preserves w.directory.sync (.request v.header.requestId) x.envelope dir .ok)
      (ha : Appends j w.log (admission p v.header x.header) j' f .ok) :
      Begins good w id x host ⟨f, dir, some (id,
          { journal := j', policy := p, policyDigest := d, header := v.header
            content := v.content, witnesses := x.witnesses, admitted := true, pending := true
            lastResult := v.lastResult })⟩
        ⟨.ok, some .newRequest, some v.lastResult⟩

lemma status_ok {j : Journal} (h : j.status = .ok) : j.tailBytes = 0 := by
  unfold Journal.status at h
  split at h
  · assumption
  · cases h

theorem begin_cases (good : VerifyDetached) (w : World) (id : ℕ) (x : Submission)
    (host : BeginHost) : Begins good w id x host (beginRequest good w id x host).1
      (beginRequest good w id x host).2 := by
  unfold beginRequest
  dsimp only
  split
  · exact .refused (.refl w) (by simp)
  split
  · exact .refused (.refl w) (by simp)
  rcases hpol : readPolicy host.toEnterHost with o | ⟨p, d⟩ <;> dsimp only
  · exact .refused (.refl w) (readPolicy_error hpol)
  rcases hopen : openLedger w p.rootId host.log with ⟨w₁, _ | j, o⟩ <;> dsimp only
  · obtain ⟨hw, ho⟩ := openLedger_none hopen
    exact .refused hw ho
  obtain ⟨hfree, rfl, hx, rfl⟩ := openLedger_some hopen
  have htouched : Touched w { w with directory := w.directory.sync } := ⟨rfl, rfl, .inr rfl⟩
  have he : Entered w host.toEnterHost p d j := ⟨hfree, hpol, hx⟩
  split
  · rename_i ho
    exact .refused htouched ho
  rename_i ho
  have ht := status_ok (not_not.mp ho)
  dsimp only
  rcases hj : judge good w.directory.sync w.log j p x host with o | v <;> dsimp only
  · exact .refused htouched (judge_error hj)
  split
  · rename_i hd
    exact .retry he ht hj hd rfl rfl
  rename_i hd
  have hp := Atomic.preserve_cases w.directory.sync (.request v.header.requestId) x.envelope
    host.place host.placeRead
  generalize Atomic.preserve w.directory.sync (.request v.header.requestId) x.envelope
    host.place host.placeRead = r at hp ⊢
  obtain ⟨dir, o⟩ := r
  dsimp only at hp ⊢
  rw [hfree]
  split
  · rename_i ho
    exact .placed he ht hj hd hp ho
  rename_i ho
  rw [not_not.mp ho] at hp
  have ha := append_cases j w.log (admission p v.header x.header) host.append
  generalize j.append w.log (admission p v.header x.header) host.append = a at ha ⊢
  obtain ⟨j', f, o'⟩ := a
  dsimp only at ha ⊢
  split
  · rename_i ho'
    exact .appended he ht hj hd hp ha ho'
  rename_i ho'
  rw [not_not.mp ho'] at ha
  exact .admitted he ht hj hd hp ha

/-! ### Finish -/

/-- What `Finish` can do. -/
inductive Finishes (w : World) (id : ℕ) (result : Outcome) : World → Answer → Prop
  | refused : Finishes w id result w ⟨.invalidInput, none, none⟩
  | finished {s s' : Session} {j : Journal} {f : File} {o : Outcome}
      (hw : w.holder = some (id, s)) (hs : s.admitted = true)
      (ha : Appends s.journal w.log (terminal s result) j f o) (hs' : s'.admitted = false)
      (hj : s'.journal = j) :
      Finishes w id result ⟨f, w.directory, some (id, s')⟩ ⟨o, none, none⟩

theorem finish_cases (w : World) (id : ℕ) (result : Outcome) (host : WriteHost) :
    Finishes w id result (finish w id result host).1 (finish w id result host).2 := by
  unfold finish
  rcases hw : w.holder with _ | ⟨k, s⟩ <;> dsimp only
  · exact .refused
  split
  · exact .refused
  · rename_i hs
    push Not at hs
    obtain ⟨rfl, hadm, -⟩ := hs
    exact .finished hw (by simpa using hadm)
      (append_cases s.journal w.log (terminal s result) host) rfl rfl

/-! ### Repair -/

/-- A repair that was judged: `r` is what it asks for. -/
structure JudgesRepair (good : VerifyDetached) (d : Directory Name) (f : File) (j : Journal)
    (p : Policy) (x : Submission) (host : LedgerHost) (h : Header) (r : Request)
    (before : State) : Prop where
  previous : readPrevious j f host.readAt = .ok before
  serial : (before.serial : ℕ) ≤ p.serial
  authorized : Authorized good x.header x.body x.signature p.requestKey p.scope p.contract
    host.now h r
  fresh : check before.window (Ingress.windowOf h x.header) = .fresh
  action : r.action = .repair
  pending : before.pending = true → ∃ r', priorRequest d before.window host.priorRead = .ok r'
    ∧ r'.transactionId = r.transactionId ∧ r'.planDigest = r.planDigest

section Repair

variable {good : VerifyDetached} {w : World} {d : Directory Name} {f : File} {j : Journal}
  {p : Policy} {x : Submission} {host : LedgerHost} {h : Header} {o : Outcome}

/-- Where the checks of a repair end, each with what has been found. -/
inductive Repairing (good : VerifyDetached) (d : Directory Name) (f : File) (j : Journal)
    (p : Policy) (x : Submission) (host : LedgerHost) : Except Outcome Header → Prop
  | previous {o : Outcome} (h : readPrevious j f host.readAt = .error o) :
      Repairing good d f j p x host (.error o)
  | stale : Repairing good d f j p x host (.error .stale)
  | request {window : Window} {o : Outcome} (h : checkRequest good host.sodium x.header x.body
      x.signature p.requestKey p.scope p.contract host.now window = .error o) :
      Repairing good d f j p x host (.error o)
  | denied : Repairing good d f j p x host (.error .denied)
  | witness {h : Header} {r : Request} {k : Fact} {o : Outcome}
      (ho : requireFact good host.sodium x.witnesses p h r k host.now zeroDigest = o) :
      Repairing good d f j p x host (.error o)
  | prior {window : Window} {o : Outcome} (h : priorRequest d window host.priorRead = .error o) :
      Repairing good d f j p x host (.error o)
  | conflict : Repairing good d f j p x host (.error .conflict)
  | exhausted (hc : canAppend j 2 true = false) : Repairing good d f j p x host (.error .exhausted)
  | judged {h : Header} {r : Request} {before : State}
      (hj : JudgesRepair good d f j p x host h r before) (hc : canAppend j 2 true = true) :
      Repairing good d f j p x host (.ok h)

theorem judgeRepair_cases (good : VerifyDetached) (d : Directory Name) (f : File) (j : Journal)
    (p : Policy) (x : Submission) (host : LedgerHost) :
    Repairing good d f j p x host (judgeRepair good d f j p x host) := by
  unfold judgeRepair
  cases hb : readPrevious j f host.readAt with
  | error o => exact .previous hb
  | ok before =>
    dsimp only
    by_cases hser : (p.serial : ℕ) < before.serial
    · rw [if_pos hser]
      exact .stale
    rw [if_neg hser]
    cases hc : checkRequest good host.sodium x.header x.body x.signature p.requestKey p.scope
        p.contract host.now before.window with
    | error o => exact .request hc
    | ok c =>
      obtain ⟨h, ha, hw, -⟩ := checkRequest_ok hc
      dsimp only
      by_cases hcl : c.classification ≠ .fresh ∨ c.request.action ≠ .repair
          ∨ c.request.expectedRevision ≠ p.serial
      · rw [if_pos hcl]
        exact .denied
      rw [if_neg hcl, ha.header]
      dsimp only
      push Not at hcl
      by_cases h1 : requireFact good host.sodium x.witnesses p h c.request .clusterReservation
          host.now zeroDigest ≠ .ok
      · rw [if_pos h1]
        exact .witness rfl
      rw [if_neg h1]
      by_cases h2 : requireFact good host.sodium x.witnesses p h c.request .isolationConfirmed
          host.now zeroDigest ≠ .ok
      · rw [if_pos h2]
        exact .witness rfl
      rw [if_neg h2]
      -- What is left is to find room, once what is pending allows it.
      have room : (before.pending = true → ∃ r,
          priorRequest d before.window host.priorRead = .ok r
            ∧ r.transactionId = c.request.transactionId
            ∧ r.planDigest = c.request.planDigest) →
          Repairing good d f j p x host
            (if canAppend j 2 true then .ok h else .error .exhausted) := by
        intro hallow
        by_cases hroom : canAppend j 2 true = true
        · rw [if_pos hroom]
          exact .judged ⟨hb, Nat.le_of_not_lt hser, ha, hw.trans hcl.1, hcl.2.1, hallow⟩ hroom
        · rw [if_neg hroom]
          exact .exhausted (by simpa using hroom)
      by_cases hp : before.pending = true
      · rw [if_pos hp]
        cases hr : priorRequest d before.window host.priorRead with
        | error o => exact .prior hr
        | ok r =>
          dsimp only
          by_cases hsame : r.transactionId ≠ c.request.transactionId
              ∨ r.planDigest ≠ c.request.planDigest
          · rw [if_pos hsame]
            exact .conflict
          · rw [if_neg hsame]
            push Not at hsame
            exact room fun _ => ⟨r, hr, hsame⟩
      · rw [if_neg hp]
        exact room fun hp' => absurd hp' hp

theorem judgeRepair_ok (hj : judgeRepair good d f j p x host = .ok h) :
    ∃ r before, JudgesRepair good d f j p x host h r before := by
  have h' := judgeRepair_cases good d f j p x host
  rw [hj] at h'
  cases h' with
  | judged hr => exact ⟨_, _, hr⟩

/-- What becomes of the files beside a ledger whose tail is preserved. -/
lemma preserveTail_extends (f : File) (j : Journal) (x : Submission) (h : Header)
    (host : LedgerHost) (hd : d.stable = d.cached) :
    Directory.Extends d.stable (preserveTail d f j x h host).1.stable
      ∧ Directory.Extends (preserveTail d f j x h host).1.stable
        (preserveTail d f j x h host).1.cached
      ∧ ∀ t, (preserveTail d f j x h host).2 = .ok t →
        (preserveTail d f j x h host).1.stable (.request h.requestId) = some x.envelope := by
  have hsame : Directory.Extends d.stable d.stable ∧ Directory.Extends d.stable d.cached :=
    ⟨.refl _, hd ▸ .refl _⟩
  unfold preserveTail
  rcases j.exportTail f host.exportRead with o | tail <;> dsimp only
  · exact ⟨hsame.1, hsame.2, by simp⟩
  split
  · exact ⟨hsame.1, hsame.2, by simp⟩
  split
  · exact ⟨hsame.1, hsame.2, by simp⟩
  have ha := (Atomic.preserve_cases d (.repair h.requestId)
    (x.envelope ++ (Sha256.hash tail).bytes ++ j.lastDigest.bytes) host.placeRepair
    host.placeRepairRead).extends hd
  generalize Atomic.preserve d (.repair h.requestId)
    (x.envelope ++ (Sha256.hash tail).bytes ++ j.lastDigest.bytes) host.placeRepair
    host.placeRepairRead = a at ha ⊢
  obtain ⟨h1, h2, h3⟩ := ha
  split
  · exact ⟨h1, h2, by simp⟩
  rename_i ho
  have hb := (Atomic.preserve_cases a.1 (.request h.requestId) x.envelope host.place
    host.placeRead).extends (h3 (not_not.mp ho)).1
  generalize Atomic.preserve a.1 (.request h.requestId) x.envelope host.place host.placeRead = b
    at hb ⊢
  obtain ⟨h4, h5, h6⟩ := hb
  split
  · exact ⟨h1.trans h4, h5, by simp⟩
  · rename_i ho'
    exact ⟨h1.trans h4, h5, fun _ _ => (h6 (not_not.mp ho')).2⟩

/-- The policy right before the ledger is cut has the fingerprint of the first one. -/
lemma recheck_ok {fp : Digest} (hr : recheck fp h host = .ok p) :
    load host.policyAgain = .ok (p, fp) := by
  unfold recheck at hr
  split at hr
  · cases hr
  rename_i p' d' hl
  split at hr
  · cases hr
  rename_i hd
  split at hr
  · cases hr
  split at hr
  · cases hr
  split at hr
  · cases hr
  · obtain rfl := Except.ok.inj hr
    rw [hl, not_not.mp hd]

/-- The second record of a repair. -/
def unknown (e : Entry) : Entry :=
  { e with kind := RequestReplay.unknownOutcome, result := .indeterminate }

/-- What can become of the ledger of a repair: cut or not, with the admission or not, with the
unknown outcome or not. -/
inductive Mends (j : Journal) (f : File) (t : Digest) (e : Entry) : File → Outcome → Prop
  | cut {j₁ : Journal} {f₁ : File} {o : Outcome} (hr : Repairs j f t j₁ f₁ o) (ho : o ≠ .ok) :
      Mends j f t e f₁ o
  | begun {j₁ j₂ : Journal} {f₁ f₂ : File} {o : Outcome} (hr : Repairs j f t j₁ f₁ .ok)
      (ha : Appends j₁ f₁ e j₂ f₂ o) (ho : o ≠ .ok) : Mends j f t e f₂ o
  | unknown {j₁ j₂ j₃ : Journal} {f₁ f₂ f₃ : File} {o : Outcome} (hr : Repairs j f t j₁ f₁ .ok)
      (ha : Appends j₁ f₁ e j₂ f₂ .ok) (hb : Appends j₂ f₂ (unknown e) j₃ f₃ o) :
      Mends j f t e f₃ o

theorem recordRepair_cases (j : Journal) (f : File) (p : Policy) (x : Submission) (h : Header)
    (t : Digest) (host : LedgerHost) : Mends j f t (admission p h x.header)
      (recordRepair j f p x h t host).1 (recordRepair j f p x h t host).2 := by
  have hr := repair_cases j f t host.repairTail
  unfold recordRepair
  generalize j.repairTail f t host.repairTail = r at hr ⊢
  obtain ⟨j₁, f₁, o₁⟩ := r
  dsimp only at hr ⊢
  split
  · rename_i ho
    exact .cut hr ho
  rename_i ho
  rw [not_not.mp ho] at hr
  have ha := append_cases j₁ f₁ (admission p h x.header) host.appendBegun
  generalize j₁.append f₁ (admission p h x.header) host.appendBegun = a at ha ⊢
  obtain ⟨j₂, f₂, o₂⟩ := a
  dsimp only at ha ⊢
  split
  · rename_i ho'
    exact .begun hr ha ho'
  rename_i ho'
  rw [not_not.mp ho'] at ha
  exact .unknown hr ha (append_cases j₂ f₂ (unknown (admission p h x.header))
    host.appendUnknown)

/-- What `Repair_Ledger` can do. -/
inductive RepairsLedger (good : VerifyDetached) (w : World) (x : Submission)
    (host : LedgerHost) : World → Prop
  | refused {w' : World} (hw : Touched w w') : RepairsLedger good w x host w'
  | stored {p : Policy} {d : Digest} {j : Journal} {dir : Directory Name}
      (he : Entered w host.toEnterHost p d j)
      (h1 : Directory.Extends w.directory.sync.stable dir.stable)
      (h2 : Directory.Extends dir.stable dir.cached) :
      RepairsLedger good w x host ⟨w.log, dir, none⟩
  | recorded {p p' : Policy} {d t : Digest} {j : Journal} {h : Header} {dir : Directory Name}
      {f : File} {o : Outcome} (he : Entered w host.toEnterHost p d j)
      (hv : judgeRepair good w.directory.sync w.log j p x host = .ok h)
      (h1 : Directory.Extends w.directory.sync.stable dir.stable)
      (h2 : Directory.Extends dir.stable dir.cached)
      (h3 : dir.stable (.request h.requestId) = some x.envelope)
      (hp : load host.policyAgain = .ok (p', d))
      (hm : Mends j w.log t (admission p' h x.header) f o) :
      RepairsLedger good w x host ⟨f, dir, none⟩

theorem repairLedger_cases (good : VerifyDetached) (w : World) (x : Submission)
    (host : LedgerHost) : RepairsLedger good w x host (repairLedger good w x host).1 := by
  unfold repairLedger
  split
  · exact .refused (.refl w)
  rcases hpol : readPolicy host.toEnterHost with o | ⟨p, d⟩ <;> dsimp only
  · exact .refused (.refl w)
  rcases hopen : openLedger w p.rootId host.log with ⟨w₁, _ | j, o⟩ <;> dsimp only
  · exact .refused (openLedger_none hopen).1
  obtain ⟨hfree, rfl, hx, rfl⟩ := openLedger_some hopen
  have htouched : Touched w { w with directory := w.directory.sync } := ⟨rfl, rfl, .inr rfl⟩
  have he : Entered w host.toEnterHost p d j := ⟨hfree, hpol, hx⟩
  split
  · exact .refused htouched
  dsimp only
  rcases hj : judgeRepair good w.directory.sync w.log j p x host with o | h <;> dsimp only
  · exact .refused htouched
  obtain ⟨h1, h2, h3⟩ := preserveTail_extends w.log j x h host
    (show w.directory.sync.stable = _ from rfl)
  rcases ht : preserveTail w.directory.sync w.log j x h host with ⟨dir, o | t⟩ <;> dsimp only
  · rw [ht] at h1 h2
    rw [hfree]
    exact .stored he h1 h2
  rw [ht] at h1 h2 h3
  rcases hr : recheck d h host with o | p' <;> dsimp only
  · rw [hfree]
    exact .stored he h1 h2
  · rw [hfree]
    exact .recorded he hj h1 h2 (h3 t rfl) (recheck_ok hr)
      (recordRepair_cases j w.log p' x h t host)

end Repair

end NiayanAssurance.GateSpec
