import NiayanAssurance.StopBarrier
import NiayanAssurance.Lib.Run

/-!
What a stop barrier stands for over its whole life: every receipt in the state goes back to
an evidence that was accepted, and an adverse evidence is never lost.
-/

namespace NiayanAssurance.StopBarrierRuns

open NiayanAssurance.Lib NiayanAssurance.Types NiayanAssurance.TimeGuard
open NiayanAssurance.StopBarrier

/-! ### What an evidence says -/

/-- A node agent reports that it has drained, and nothing speaks against it. -/
def Drains (e : Evidence) : Prop :=
  e.kind = .drained ∧ e.source = .nodeAgent ∧ e.durableStopLatch = true
    ∧ e.queueClosed = true ∧ (e.inFlight : ℕ) = 0 ∧ (e.unknownEffects : ℕ) = 0
    ∧ e.lastDispatched = e.lastCompleted

/-- A fence observer reports that the participant is isolated on every path it requires. -/
def Isolates (m : Participant) (e : Evidence) : Prop :=
  e.kind = .fenced ∧ e.source = .fenceObserver ∧ e.retirementDurable = true
    ∧ m.Covered e.isolationPaths

def Adverse (m : Participant) (e : Evidence) : Prop :=
  e.kind = .unsafeAck ∨ (e.kind = .drained ∧ e.source = .nodeAgent ∧ e.Regresses)
    ∨ (e.kind = .fenced ∧ e.source = .fenceObserver
      ∧ (e.retirementDurable = false ∨ ¬ m.Covered e.isolationPaths))

/-- The evidence is about participant `i`, in the boot the policy names. -/
def Concerns (p : Policy) (i : ℕ) (e : Evidence) : Prop :=
  e.nodeId = (p.member i).nodeId ∧ e.resourceId = (p.member i).resourceId
    ∧ e.subjectBoot = (p.member i).bootId

/-- The evidence is one under this policy. -/
def BoundTo (p : Policy) (e : Evidence) : Prop :=
  e.policyHash = fingerprint p ∧ e.epoch = p.epoch ∧ e.appliedGuardRevision = p.guardRevision
    ∧ e.durableReceipt ≠ zeroDigest ∧ e.auditHead ≠ zeroDigest

section Decidable

instance (e : Evidence) : Decidable (Drains e) := by unfold Drains; infer_instance

instance (m : Participant) (e : Evidence) : Decidable (Isolates m e) := by
  unfold Isolates; infer_instance

instance (m : Participant) (e : Evidence) : Decidable (Adverse m e) := by
  unfold Adverse; infer_instance

instance (p : Policy) (i : ℕ) (e : Evidence) : Decidable (Concerns p i e) := by
  unfold Concerns; infer_instance

end Decidable

lemma not_regresses {e : Evidence} : ¬ e.Regresses ↔
    e.durableStopLatch = true ∧ e.queueClosed = true ∧ (e.inFlight : ℕ) = 0
      ∧ (e.unknownEffects : ℕ) = 0 ∧ e.lastDispatched = e.lastCompleted := by
  unfold Evidence.Regresses
  push Not
  simp only [ne_eq, Bool.not_eq_false]

lemma verdict_cases {m : Participant} {r : Receipt} {e : Evidence} {phase : ParticipantPhase}
    (h : verdict m r e = .ok phase) :
    (phase = .uncertain ∧ Adverse m e)
      ∨ (phase = .acknowledged ∧ Drains e ∧ r.current ≠ .isolated)
      ∨ (phase = .isolated ∧ Isolates m e) := by
  unfold verdict at h
  rcases hk : e.kind with _ | _ | _ <;> simp only [hk] at h
  · -- drained
    split at h
    · cases h
    · rename_i hs
      split at h
      · rename_i hr
        cases h
        exact .inl ⟨rfl, .inr (.inl ⟨hk, by simpa using hs, hr⟩)⟩
      · rename_i hr
        split at h
        · cases h
        · rename_i hi
          split at h
          · cases h
          · cases h
            exact .inr (.inl ⟨rfl, ⟨hk, by simpa using hs, not_regresses.mp hr⟩, hi⟩)
  · -- fenced
    split at h
    · cases h
    · rename_i hs
      split at h
      · rename_i hr
        cases h
        exact .inl ⟨rfl, .inr (.inr ⟨hk, by simpa using hs, hr⟩)⟩
      · rename_i hr
        cases h
        push Not at hr
        exact .inr (.inr ⟨rfl, hk, by simpa using hs, by simpa using hr.1, hr.2⟩)
  · -- unsafe
    cases h
    exact .inl ⟨rfl, .inl hk⟩

lemma verdict_adverse {m : Participant} {r : Receipt} {e : Evidence} (h : Adverse m e) :
    verdict m r e = .ok .uncertain := by
  unfold verdict
  rcases h with h | ⟨h, hs, hr⟩ | ⟨h, hs, hr⟩
  · simp [h]
  · simp [h, hs, hr]
  · simp [h, hs, hr]

lemma Drains.not_adverse {m : Participant} {e : Evidence} (h : Drains e) : ¬ Adverse m e := by
  obtain ⟨hk, _, hr⟩ := h
  simp [Adverse, hk, not_regresses.mpr hr]

lemma Isolates.not_adverse {m : Participant} {e : Evidence} (h : Isolates m e) :
    ¬ Adverse m e := by
  obtain ⟨hk, _, hr, hc⟩ := h
  simp [Adverse, hk, hr, hc]

/-! ### The participant an evidence names -/

lemma find_below (p : Policy) (e : Evidence) (n : ℕ) :
    let k := (List.range n).foldl (fun k i =>
      if e.nodeId = (p.member i).nodeId ∧ e.resourceId = (p.member i).resourceId then some i
      else k) none
    (∀ i, k = some i → i < n ∧ e.nodeId = (p.member i).nodeId
      ∧ e.resourceId = (p.member i).resourceId)
    ∧ (k = none → ∀ i < n, ¬ (e.nodeId = (p.member i).nodeId
      ∧ e.resourceId = (p.member i).resourceId)) := by
  induction n with
  | zero => simp
  | succ n ih =>
    simp only [List.range_succ, List.foldl_append, List.foldl_cons, List.foldl_nil] at ih ⊢
    split
    · rename_i hn
      refine ⟨?_, by simp⟩
      rintro i ⟨⟩
      exact ⟨by omega, hn⟩
    · rename_i hn
      refine ⟨fun i hi => ?_, fun hi i hin => ?_⟩
      · have := ih.1 i hi
        exact ⟨by omega, this.2⟩
      · rcases Nat.lt_succ_iff_lt_or_eq.mp hin with h | rfl
        · exact ih.2 hi i h
        · exact hn

lemma find_some {p : Policy} {e : Evidence} {k : ℕ} (h : find p e = some k) :
    k < p.count ∧ e.nodeId = (p.member k).nodeId
      ∧ e.resourceId = (p.member k).resourceId :=
  (find_below p e p.count).1 k h

/-- In a valid policy a node and a resource name one participant. -/
lemma unique {p : Policy} (hp : p.Valid) {i j : ℕ} (hi : i < p.count) (hj : j < p.count)
    (hn : (p.member i).nodeId = (p.member j).nodeId)
    (hr : (p.member i).resourceId = (p.member j).resourceId) : i = j := by
  obtain ⟨-, -, -, -, -, -, -, -, -, -, -, h⟩ := hp
  rcases Nat.lt_trichotomy i j with hij | hij | hij
  · exact absurd hr.symm ((h j hj).2.1 i hij hn.symm).1
  · exact hij
  · exact absurd hr ((h i hi).2.1 j hij hn).1

lemma find_eq {p : Policy} {e : Evidence} {k : ℕ} (hp : p.Valid) (hk : k < p.count)
    (hc : Concerns p k e) : find p e = some k := by
  rcases h : find p e with _ | i
  · exact absurd ⟨hc.1, hc.2.1⟩ ((find_below p e p.count).2 h k hk)
  · obtain ⟨hi, hn, hr⟩ := find_some h
    rw [unique hp hi hk (hn.symm.trans hc.1) (hr.symm.trans hc.2.1)]

/-! ### One step -/

/-- All that an accepted observation has been checked for, and what it does. -/
structure Observed (p : Policy) (s : State) (e : Evidence) (verified : Bool) (now : Counter)
    (k : ℕ) (phase : ParticipantPhase) (s' : State) : Prop where
  policy : p.Valid
  state : s.Valid
  verified : verified = true
  current : s.current ≠ .blocked
  revision : (s.revision : ℕ) ≠ Counter.last
  same : Matches p s
  lastNow : (s.lastNow : ℕ) ≤ now
  bound : Bound p s e now
  index : k < p.count
  concerns : Concerns p k e
  observed : ((s.member k).observed : ℕ) ≤ e.stamp.observedAt
  sequence : ((s.member k).sequence e.source : ℕ) < e.stamp.sequence
  verdict : verdict (p.member k) (s.member k) e = .ok phase
  proof : Sha256.hash e.encode ≠ zeroDigest
  result : s' = s.take k phase e now

lemma observe_ok {p : Policy} {s s' : State} {e : Evidence} {v : Bool} {now : Counter}
    (h : observe p s e v now = .ok s') : ∃ k phase, Observed p s e v now k phase s' := by
  unfold observe at h
  split at h
  · cases h
  rename_i hg
  push Not at hg
  obtain ⟨h1, h2, h3, h4, h5, h6, h7, h8⟩ := hg
  rcases hf : find p e with _ | k
  · simp [hf] at h
  obtain ⟨hk, hn, hr⟩ := find_some hf
  simp only [hf] at h
  split at h
  · cases h
  rename_i hg
  push Not at hg
  obtain ⟨-, h9, h10⟩ := hg
  split at h
  · cases h
  rename_i h11
  rcases hv : verdict (p.member k) (s.member k) e with _ | phase
  · simp [hv] at h
  simp only [hv] at h
  split at h
  · cases h
  rename_i h12
  cases h
  exact ⟨k, phase, h1, h2, by simpa using h3, h4, h5, h6, h7, h8, hk, ⟨hn, hr, h9⟩, h10,
    by omega, hv, h12, rfl⟩

lemma observe_eq {p : Policy} {s s' : State} {e : Evidence} {now : Counter} {k : ℕ}
    {phase : ParticipantPhase} (h : Observed p s e true now k phase s') :
    observe p s e true now = .ok s' := by
  have hf := find_eq h.policy h.index h.concerns
  have h1 := h.lastNow
  have h2 := h.observed
  have h3 := h.sequence
  simp [observe, h.policy, h.state, h.current, h.revision, h.same, h.bound, hf, h.concerns.1,
    h.concerns.2.2, h.verdict, h.proof, h.result, Nat.not_lt.mpr h1, Nat.not_lt.mpr h2,
    Nat.not_le.mpr h3]

lemma seal_ok {p : Policy} {s s' : State} {now : Counter} (h : p.seal s now = .ok s') :
    s.current = .collecting ∧ (s.revision : ℕ) ≠ Counter.last ∧ Ready p s now
      ∧ s' = { s with current := .sealed, lastNow := now, revision := s.revision.next } := by
  unfold Policy.seal at h
  split at h
  · cases h
  rename_i hg
  push Not at hg
  cases h
  exact ⟨hg.1, hg.2.1, hg.2.2, rfl⟩

section Take

variable {s : State} {k i : ℕ} {phase : ParticipantPhase} {e : Evidence} {now : Counter}

@[simp] lemma take_count : (s.take k phase e now).count = s.count := by
  simp [State.take, State.count]

lemma take_member (hk : k < s.count) : (s.take k phase e now).member i =
    if i = k then (s.member k).take phase e else s.member i := by
  unfold State.count at hk
  by_cases h : i = k
  · subst h
    simp [State.take, State.member, List.getD_eq_getElem?_getD, hk]
  · simp [State.take, State.member, List.getD_eq_getElem?_getD, h, Ne.symm h]

lemma take_sequence (r : Receipt) (c : Channel) :
    (r.take phase e).sequence c = if c = e.source then e.stamp.sequence else r.sequence c := by
  rcases c with _ | _ <;> rcases hs : e.source with _ | _ <;>
    simp [Receipt.take, Receipt.sequence, Receipt.withSequence, hs]

end Take

/-- The channel a phase is entered from. -/
lemma verdict_source {m : Participant} {r : Receipt} {e : Evidence} {phase : ParticipantPhase}
    (h : verdict m r e = .ok phase) :
    phase ≠ .awaiting ∧ (phase = .acknowledged → e.source = .nodeAgent)
      ∧ (phase = .isolated → e.source = .fenceObserver) := by
  rcases verdict_cases h with ⟨rfl, _⟩ | ⟨rfl, hd, _⟩ | ⟨rfl, hi⟩
  · simp
  · exact ⟨by simp, fun _ => hd.2.1, by simp⟩
  · exact ⟨by simp, by simp, fun _ => hi.2.1⟩

/-- A receipt just taken is well formed. -/
lemma validReceipt_take {p : Policy} {s s' : State} {e : Evidence} {v : Bool} {now : Counter}
    {k : ℕ} {phase : ParticipantPhase} (h : Observed p s e v now k phase s') :
    ValidReceipt ((s.member k).take phase e) s'.current s'.lastNow := by
  have hseq := h.sequence
  obtain ⟨-, -, -, -, haudit, -, -, -, -, hnow, -, hexp, -⟩ := h.bound
  obtain ⟨h1, h2, h3⟩ := verdict_source h.verdict
  have hpos : 0 < (((s.member k).take phase e).sequence e.source : ℕ) := by
    rw [take_sequence, if_pos rfl]
    omega
  rw [h.result]
  refine ⟨fun hc => absurd hc h1, fun hc => ?_, fun hc => ?_, fun hc => if_pos hc,
    fun _ => ⟨h.proof, haudit, hexp, hnow, ?_⟩, fun hc => ?_⟩
  · rwa [h2 hc] at hpos
  · rwa [h3 hc] at hpos
  · rcases hs : e.source with _ | _ <;> rw [hs] at hpos
    · exact .inl hpos
    · exact .inr hpos
  · rcases verdict_cases h.verdict with ⟨rfl, _⟩ | ⟨rfl, _⟩ | ⟨rfl, _⟩
    · simp [State.take] at hc
    · exact .inl rfl
    · exact .inr rfl

/-- The receipts of the others stay well formed, whatever phase the barrier enters. -/
lemma validReceipt_mono {r : Receipt} {c c' : Phase} {t t' : Counter}
    (h : ValidReceipt r c t) (hc : c' = c ∨ c' = .blocked) (ht : (t : ℕ) ≤ t') :
    ValidReceipt r c' t' := by
  obtain ⟨h1, h2, h3, h4, h5, h6⟩ := h
  refine ⟨h1, h2, h3, fun hu => ?_, fun ha => ?_, fun hs => ?_⟩
  · rcases hc with rfl | rfl
    · exact h4 hu
    · rfl
  · obtain ⟨ha1, ha2, ha3, ha4, ha5⟩ := h5 ha
    exact ⟨ha1, ha2, ha3, by omega, ha5⟩
  · rcases hc with rfl | rfl
    · exact h6 hs
    · cases hs

lemma observe_valid {p : Policy} {s s' : State} {e : Evidence} {v : Bool} {now : Counter}
    (h : observe p s e v now = .ok s') : s'.Valid := by
  obtain ⟨k, phase, h⟩ := observe_ok h
  obtain ⟨h1, h2, h3, h4, h5, h6⟩ := h.state
  have hk : k < s.count := by rw [h.same.2.2.2.2]; exact h.index
  have hv := validReceipt_take h
  have hcur : s'.current = s.current ∨ s'.current = .blocked := by
    rw [h.result]
    by_cases hu : phase = .uncertain
    · exact .inr (if_pos hu)
    · exact .inl (if_neg hu)
  have hnow : (s.lastNow : ℕ) ≤ s'.lastNow := by rw [h.result]; exact h.lastNow
  have hcount : s'.count = s.count := by rw [h.result, take_count]
  refine ⟨by rw [h.result]; exact h1, by rw [h.result]; exact h2, by rw [h.result]; exact h3,
    by rw [h.result]; exact h4, by rw [hcount]; exact h5, fun i hi => ?_⟩
  have hi' : i < s.count := by rwa [hcount] at hi
  have hm : s'.member i = if i = k then (s.member k).take phase e else s.member i := by
    rw [h.result, take_member hk]
  rw [hm]
  split
  · exact hv
  · exact validReceipt_mono (h6 i hi') hcur hnow

lemma seal_valid {p : Policy} {s s' : State} {now : Counter} (h : p.seal s now = .ok s') :
    s'.Valid := by
  obtain ⟨-, -, hr, rfl⟩ := seal_ok h
  obtain ⟨-, ⟨h1, h2, h3, h4, h5, h6⟩, -, -, hnow, hm⟩ := hr
  refine ⟨h1, h2, h3, h4, h5, fun i hi => ?_⟩
  have hi' : i < s.count := hi
  obtain ⟨a1, a2, a3, a4, a5, -⟩ := h6 i hi'
  have hp : (s.member i).current = .acknowledged ∨ (s.member i).current = .isolated :=
    (hm i hi').1
  refine ⟨a1, a2, a3, fun hu => ?_, fun ha => ?_, fun _ => hp⟩
  · rcases hp with hp | hp <;> exact absurd (hp.symm.trans hu) (by decide)
  · obtain ⟨b1, b2, b3, b4, b5⟩ := a5 ha
    exact ⟨b1, b2, b3, b4.trans hnow, b5⟩

/-! ### The life of a barrier -/

inductive Call
  | observe (e : Evidence) (signatureVerified : Bool) (now : Counter)
  | seal (now : Counter)

/-- The answer to a call and the state after it: a refused call changes nothing. -/
def answer (s : State) : Except Outcome State → State × Outcome
  | .ok s' => (s', .ok)
  | .error o => (s, o)

def call (p : Policy) (s : State) : Call → State × Outcome
  | .observe e v now => answer s (observe p s e v now)
  | .seal now => answer s (p.seal s now)

/-- Everything put to a barrier since its initialization, with the answers, and its state. -/
def life (p : Policy) (calls : List Call) : List (Call × Outcome) × State :=
  exec (call p) (init p).2 calls

structure Observation where
  evidence : Evidence
  signatureVerified : Bool
  now : Counter

lemma life_nil (p : Policy) : (life p []).2 = (init p).2 := rfl

lemma life_single (p : Policy) (c : Call) : (life p [c]).2 = (call p (init p).2 c).1 := rfl

/-- The observations that were accepted, oldest first. -/
def accepted (l : List (Call × Outcome)) : List Observation :=
  l.filterMap fun
    | (.observe e v now, .ok) => some ⟨e, v, now⟩
    | _ => none

/-- The sequences accepted from one channel of participant `i`, oldest first. -/
def heard (p : Policy) (l : List (Call × Outcome)) (i : ℕ) (c : Channel) : List ℕ :=
  ((accepted l).filter fun o => o.evidence.source = c ∧ Concerns p i o.evidence).map
    fun o => o.evidence.stamp.sequence

lemma verdict_error {m : Participant} {r : Receipt} {e : Evidence} {o : Outcome}
    (h : verdict m r e = .error o) : o ≠ .ok := by
  rintro rfl
  unfold verdict at h
  split at h
  · split_ifs at h <;> cases h
  · split_ifs at h
    cases h
  · cases h

/-- No observation is refused with `OK`. -/
lemma observe_error {p : Policy} {s : State} {e : Evidence} {v : Bool} {now : Counter}
    {o : Outcome} (h : observe p s e v now = .error o) : o ≠ .ok := by
  rintro rfl
  unfold observe at h
  split at h
  · cases h
  split at h
  · cases h
  split at h
  · cases h
  split at h
  · cases h
  split at h
  · rename_i hv
    cases h
    exact verdict_error hv rfl
  · split at h <;> cases h

lemma call_cases (p : Policy) (s : State) (c : Call) :
    ((call p s c).2 ≠ .ok ∧ (call p s c).1 = s)
      ∨ ((call p s c).2 = .ok ∧ ∃ e v now k phase, c = .observe e v now
        ∧ Observed p s e v now k phase (call p s c).1)
      ∨ ((call p s c).2 = .ok ∧ ∃ now, c = .seal now
        ∧ p.seal s now = .ok (call p s c).1) := by
  rcases c with ⟨e, v, now⟩ | ⟨now⟩
  · rcases ho : observe p s e v now with o | t <;> simp only [call, ho, answer]
    · exact .inl ⟨observe_error ho, trivial⟩
    · obtain ⟨k, phase, hs⟩ := observe_ok ho
      exact .inr (.inl ⟨trivial, e, v, now, k, phase, rfl, hs⟩)
  · rcases ho : p.seal s now with o | t <;> simp only [call, ho, answer]
    · refine .inl ⟨?_, trivial⟩
      rintro rfl
      unfold Policy.seal at ho
      split at ho <;> cases ho
    · exact .inr (.inr ⟨trivial, now, rfl, ho⟩)

section Accepted

variable {p : Policy} {l : List (Call × Outcome)} {i : ℕ} {c : Channel}

@[simp] lemma accepted_nil : accepted [] = [] := rfl

lemma accepted_refused {a : Call} {o : Outcome} (h : o ≠ .ok) :
    accepted (l ++ [(a, o)]) = accepted l := by
  refine (List.filterMap_append ..).trans (List.append_right_eq_self.mpr ?_)
  rw [List.filterMap_eq_nil_iff]
  intro x hx
  rw [List.mem_singleton.mp hx]
  split
  · next heq => exact absurd (congrArg Prod.snd heq) h
  · rfl

@[simp] lemma accepted_observe {e : Evidence} {v : Bool} {now : Counter} :
    accepted (l ++ [(.observe e v now, .ok)]) = accepted l ++ [⟨e, v, now⟩] := by
  simp [accepted, List.filterMap_append]

@[simp] lemma accepted_seal {now : Counter} {o : Outcome} :
    accepted (l ++ [(.seal now, o)]) = accepted l := by
  simp [accepted, List.filterMap_append]

lemma heard_observe {e : Evidence} {v : Bool} {now : Counter} :
    heard p (l ++ [(.observe e v now, .ok)]) i c =
      if e.source = c ∧ Concerns p i e then heard p l i c ++ [(e.stamp.sequence : ℕ)]
      else heard p l i c := by
  unfold heard
  rw [accepted_observe, List.filter_append, List.map_append]
  split
  · rename_i h
    simp [h]
  · rename_i h
    simp [h]

end Accepted

/-! ### Provenance -/

/-- `o` is the evidence that the receipt `r` of participant `i` was written from. -/
structure Backs (p : Policy) (i : ℕ) (r : Receipt) (o : Observation) : Prop where
  verified : o.signatureVerified = true
  bound : BoundTo p o.evidence
  boot : o.evidence.stamp.bootId = p.receiverBoot
  concerns : Concerns p i o.evidence
  observed : o.evidence.stamp.observedAt = r.observed
  expires : o.evidence.stamp.expiresAt = r.expires
  content : (r.current = .acknowledged ∧ Drains o.evidence)
    ∨ (r.current = .isolated ∧ Isolates (p.member i) o.evidence)

/-- What links a state to the calls that led to it. -/
structure Tracks (p : Policy) (l : List (Call × Outcome)) (s : State) : Prop where
  named : ∀ o ∈ accepted l, ∃ i < p.count, Concerns p i o.evidence
  clean : s.current ≠ .blocked → ∀ o ∈ accepted l, ∀ i < p.count, Concerns p i o.evidence →
    ¬ Adverse (p.member i) o.evidence
  backed : ∀ i < p.count,
    (s.member i).current = .acknowledged ∨ (s.member i).current = .isolated →
      ∃ o ∈ accepted l, Backs p i (s.member i) o
  heard_le : ∀ i < p.count, ∀ c, ∀ n ∈ heard p l i c, n ≤ (s.member i).sequence c
  increasing : ∀ i < p.count, ∀ c, (heard p l i c).Pairwise (· < ·)

lemma init_member (p : Policy) (i : ℕ) : (init p).2.member i = {} := by
  unfold init
  split
  · rfl
  split
  · rfl
  · simp only [State.member, List.getD_eq_getElem?_getD]
    rcases h : (List.replicate p.count ({} : Receipt))[i]? with _ | r
    · rfl
    · rw [List.getElem?_replicate] at h
      split_ifs at h
      cases h
      rfl

lemma init_current (p : Policy) : (init p).2.current = .collecting := by
  unfold init
  split_ifs <;> rfl

lemma tracks_init (p : Policy) : Tracks p [] (init p).2 where
  named := by simp
  clean := by simp
  backed i _ h := by simp [init_member] at h
  heard_le := by simp [heard]
  increasing := by simp [heard]

/-- **The step of the invariant.** An accepted observation is the new source of its
participant's receipt, and every other receipt keeps the source it had. -/
theorem tracks_observe {p : Policy} {l : List (Call × Outcome)} {s s' : State} {e : Evidence}
    {v : Bool} {now : Counter} {k : ℕ} {phase : ParticipantPhase} (ht : Tracks p l s)
    (h : Observed p s e v now k phase s') : Tracks p (l ++ [(.observe e v now, .ok)]) s' := by
  have hk : k < s.count := by rw [h.same.2.2.2.2]; exact h.index
  have hm : ∀ i, s'.member i = if i = k then (s.member k).take phase e else s.member i :=
    fun i => by rw [h.result, take_member hk]
  have honly : ∀ i < p.count, Concerns p i e → i = k := fun i hi hc =>
    unique h.policy hi h.index (hc.1.symm.trans h.concerns.1)
      (hc.2.1.symm.trans h.concerns.2.1)
  have hmem : ∀ o, o ∈ accepted (l ++ [(.observe e v now, .ok)]) ↔
      o ∈ accepted l ∨ o = ⟨e, v, now⟩ := by simp
  refine ⟨fun o ho => ?_, fun hb o ho i hi hc => ?_, fun i hi hcur => ?_, fun i hi c n hn => ?_,
    fun i hi c => ?_⟩
  · rcases (hmem o).mp ho with ho | rfl
    · exact ht.named o ho
    · exact ⟨k, h.index, h.concerns⟩
  · -- a barrier that is not blocked has not heard an adverse report this time either
    have hu : phase ≠ .uncertain := fun hu => hb (by rw [h.result]; exact if_pos hu)
    rcases (hmem o).mp ho with ho | rfl
    · exact ht.clean h.current o ho i hi hc
    · obtain rfl := honly i hi hc
      rcases verdict_cases h.verdict with ⟨hp, _⟩ | ⟨_, hd, _⟩ | ⟨_, hi⟩
      · exact absurd hp hu
      · exact hd.not_adverse
      · exact hi.not_adverse
  · rw [hm i] at hcur ⊢
    by_cases hik : i = k
    · subst hik
      rw [if_pos rfl] at hcur ⊢
      refine ⟨⟨e, v, now⟩, by simp, h.verified, ?_, h.bound.2.2.2.2.2.2.1, h.concerns, rfl,
        rfl, ?_⟩
      · exact ⟨h.bound.1.trans h.same.1, h.bound.2.1, h.bound.2.2.1, h.bound.2.2.2.1,
          h.bound.2.2.2.2.1⟩
      · rcases verdict_cases h.verdict with ⟨rfl, _⟩ | ⟨hp, hd, _⟩ | ⟨hp, hi⟩
        · simp [Receipt.take] at hcur
        · exact .inl ⟨hp, hd⟩
        · exact .inr ⟨hp, hi⟩
    · rw [if_neg hik] at hcur ⊢
      obtain ⟨o, ho, hb⟩ := ht.backed i hi hcur
      exact ⟨o, (hmem o).mpr (.inl ho), hb⟩
  · have hold := ht.heard_le i hi c
    rw [heard_observe] at hn
    rw [hm i]
    split at hn
    · rename_i hc
      obtain rfl := honly i hi hc.2
      have hseq := h.sequence
      rw [if_pos rfl, take_sequence, if_pos hc.1.symm]
      rw [hc.1] at hseq
      rcases List.mem_append.mp hn with hn | hn
      · have := hold n hn
        omega
      · rw [List.mem_singleton.mp hn]
    · by_cases hik : i = k
      · subst hik
        rename_i hc
        have hsrc : e.source ≠ c := fun hs => hc ⟨hs, h.concerns⟩
        rw [if_pos rfl, take_sequence, if_neg (Ne.symm hsrc)]
        exact hold n hn
      · rw [if_neg hik]
        exact hold n hn
  · rw [heard_observe]
    split
    · rename_i hc
      obtain rfl := honly i hi hc.2
      have hseq := h.sequence
      rw [hc.1] at hseq
      refine List.pairwise_append.mpr ⟨ht.increasing i hi c, by simp, fun a ha b hb => ?_⟩
      rw [List.mem_singleton.mp hb]
      have := ht.heard_le i hi c a ha
      omega
    · exact ht.increasing i hi c

lemma tracks_call {p : Policy} {l : List (Call × Outcome)} {s s' : State} {c : Call}
    {o : Outcome} (ht : Tracks p l s) (h : call p s c = (s', o)) : Tracks p (l ++ [(c, o)]) s' := by
  have hcases := call_cases p s c
  rw [h] at hcases
  rcases hcases with ⟨ho, hs⟩ | ⟨ho, e, v, now, k, phase, rfl, hs⟩ | ⟨ho, now, rfl, hs⟩ <;>
    dsimp only at ho hs
  · refine ⟨?_, ?_, ?_, ?_, ?_⟩ <;> simp only [heard, accepted_refused ho]
    exacts [ht.named, hs ▸ ht.clean, hs ▸ ht.backed, hs ▸ ht.heard_le, ht.increasing]
  · exact ho ▸ tracks_observe ht hs
  · obtain ⟨hc, -, -, rfl⟩ := seal_ok hs
    have hclean := ht.clean (by rw [hc]; decide)
    refine ⟨?_, fun _ => ?_, ?_, ?_, ?_⟩ <;> simp only [heard, accepted_seal]
    exacts [ht.named, hclean, ht.backed, ht.heard_le, ht.increasing]

lemma tracks_life (p : Policy) (calls : List Call) :
    Tracks p (life p calls).1 (life p calls).2 :=
  (run_exec (call p) (init p).2 calls).history (tracks_init p)
    fun _ _ _ _ _ ht h => tracks_call ht h

/-- What a later state keeps of an earlier one, whatever was put to the barrier between. -/
lemma life_append {p : Policy} {I : State → Prop} (hs : ∀ s c, I s → I (call p s c).1)
    {calls : List Call} (h : I (life p calls).2) (more : List Call) :
    I (life p (calls ++ more)).2 := by
  rw [life, exec_append]
  exact exec_keeps hs h more

lemma call_blocked {p : Policy} {s : State} (h : s.current = .blocked) (c : Call) :
    (call p s c).1 = s := by
  rcases call_cases p s c with
    ⟨-, hs⟩ | ⟨-, e, v, now, k, phase, -, hs⟩ | ⟨-, now, -, hs⟩
  · exact hs
  · exact absurd h hs.current
  · rw [(seal_ok hs).1] at h
    cases h

/-- Participant `i` is isolated, or the barrier is blocked over it. -/
def CutOff (i : ℕ) (s : State) : Prop :=
  (s.member i).current = .isolated
    ∨ (s.current = .blocked ∧ (s.member i).current ≠ .acknowledged)

lemma call_cutOff {p : Policy} {i : ℕ} {s : State} (h : CutOff i s) (c : Call) :
    CutOff i (call p s c).1 := by
  by_cases hb : s.current = .blocked
  · rwa [call_blocked hb]
  have hi : (s.member i).current = .isolated := h.resolve_right fun h => hb h.1
  rcases call_cases p s c with
    ⟨-, hs⟩ | ⟨-, e, v, now, k, phase, -, hs⟩ | ⟨-, now, -, hs⟩
  · rwa [hs]
  · have hk : k < s.count := by rw [hs.same.2.2.2.2]; exact hs.index
    rw [hs.result]
    unfold CutOff
    rw [take_member hk]
    split
    · rename_i hik
      subst hik
      rcases verdict_cases hs.verdict with ⟨rfl, _⟩ | ⟨_, _, hn⟩ | ⟨rfl, _⟩
      · exact .inr ⟨rfl, by simp [Receipt.take]⟩
      · exact absurd hi hn
      · exact .inl rfl
    · exact .inl hi
  · obtain ⟨-, -, -, h2⟩ := seal_ok hs
    rw [h2]
    exact .inl hi

/-- An accepted evidence that shows, at `now`, that participant `i` has stopped. -/
structure Stops (p : Policy) (i : ℕ) (now : Counter) (o : Observation) : Prop where
  verified : o.signatureVerified = true
  bound : BoundTo p o.evidence
  concerns : Concerns p i o.evidence
  past : (o.evidence.stamp.observedAt : ℕ) ≤ now
  unexpired : (now : ℕ) < o.evidence.stamp.expiresAt
  young : (now : ℕ) - o.evidence.stamp.observedAt ≤ p.maximumAge
  content : Drains o.evidence ∨ Isolates (p.member i) o.evidence

structure Provenance (p : Policy) (calls : List Call) : Prop where
  stopped : ∀ now, Usable p (life p calls).2 now → ∀ i < p.count,
    ∃ o ∈ accepted (life p calls).1, Stops p i now o
  clean : ∀ now, Usable p (life p calls).2 now → ∀ o ∈ accepted (life p calls).1,
    (∃ i < p.count, Concerns p i o.evidence)
      ∧ ∀ i < p.count, Concerns p i o.evidence → ¬ Adverse (p.member i) o.evidence
  increasing : ∀ i < p.count, ∀ c, (heard p (life p calls).1 i c).Pairwise (· < ·)
  blocked : (life p calls).2.current = .blocked →
    ∀ more, (life p (calls ++ more)).2.current = .blocked
  isolated : ∀ i, ((life p calls).2.member i).current = .isolated →
    ∀ more, ((life p (calls ++ more)).2.member i).current ≠ .acknowledged
  step : ∀ c, (call p (life p calls).2 c).2 = .ok →
    ((call p (life p calls).2 c).1.revision : ℕ) = (life p calls).2.revision + 1
      ∧ (call p (life p calls).2 c).1.Valid

/-- **Where a usable seal comes from.** Along the whole life of a barrier, a usable seal has
an accepted and still fresh report of every participant behind it and no adverse one. -/
theorem provenance (p : Policy) (calls : List Call) : Provenance p calls := by
  have ht := tracks_life p calls
  refine ⟨fun now hu i hi => ?_, fun now hu o ho => ?_, ht.increasing, fun hb more => ?_,
    fun i hi more => ?_, fun c hc => ?_⟩
  · obtain ⟨-, -, -, -, hsame, -, hm⟩ := hu
    obtain ⟨hcur, hpast, hexp, -, hage, -⟩ := hm i (by rwa [hsame.2.2.2.2])
    obtain ⟨o, ho, hb⟩ := ht.backed i hi hcur
    rw [← hb.observed] at hpast hage
    rw [← hb.expires] at hexp
    exact ⟨o, ho, hb.verified, hb.bound, hb.concerns, hpast, hexp, hage,
      hb.content.imp And.right And.right⟩
  · have hb : (life p calls).2.current ≠ .blocked := hu.2.2.2.1
    exact ⟨ht.named o ho, ht.clean hb o ho⟩
  · exact life_append (I := fun s => s.current = .blocked)
      (fun s c h => by rwa [call_blocked h]) hb more
  · have hcut : CutOff i (life p calls).2 := .inl hi
    rcases life_append (I := CutOff i) (fun s c h => call_cutOff h c) hcut more with h | h
    · rw [h]
      decide
    · exact h.2
  · rcases call_cases p (life p calls).2 c with
      ⟨ho, -⟩ | ⟨-, e, v, now, k, phase, -, hs⟩ | ⟨-, now, -, hs⟩
    · exact absurd hc ho
    · refine ⟨?_, observe_valid (observe_eq (hs.verified ▸ hs))⟩
      rw [hs.result]
      exact Counter.val_next hs.revision
    · obtain ⟨-, hr, -, h2⟩ := seal_ok hs
      refine ⟨?_, seal_valid hs⟩
      rw [h2]
      exact Counter.val_next hr

/-! ### Adverse evidence -/

/-- An adverse report on participant `k` that carries everything a report must carry: it is
bound to the policy, fresh, and newer than what its channel has said before. -/
structure AdverseReport (p : Policy) (s : State) (now : Counter) (e : Evidence) (k : ℕ) :
    Prop where
  bound : BoundTo p e
  index : k < p.count
  concerns : Concerns p k e
  fresh : Fresh e.stamp p.receiverBoot now p.maximumAge
  sequence : ((s.member k).sequence e.source : ℕ) < e.stamp.sequence
  adverse : Adverse (p.member k) e

/-- The barrier was set up and is one of this policy. -/
def Stands (p : Policy) (s : State) : Prop := s.Valid ∧ Matches p s

lemma stands_init {p : Policy} (hp : p.Valid) (hf : fingerprint p ≠ zeroDigest) :
    Stands p (init p).2 := by
  obtain ⟨h1, h2, h3, -, -, -, -, -, -, -, h4, -⟩ := id hp
  have hm := init_member p
  have hcur := init_current p
  unfold init at hm hcur ⊢
  simp only [hp, hf, not_true, if_false] at hm hcur ⊢
  refine ⟨⟨hf, h1, h2, h3, ?_, fun i _ => ?_⟩, rfl, rfl, rfl, rfl, ?_⟩
  · simpa [State.count] using Nat.pos_of_ne_zero h4
  · rw [hm i]
    simp [ValidReceipt]
  · simp [State.count]

lemma stands_call {p : Policy} {s : State} (h : Stands p s) (c : Call) :
    Stands p (call p s c).1 := by
  rcases call_cases p s c with
    ⟨-, hs⟩ | ⟨-, e, v, now, k, phase, -, hs⟩ | ⟨-, now, -, hs⟩
  · rwa [hs]
  · refine ⟨observe_valid (observe_eq (hs.verified ▸ hs)), ?_⟩
    obtain ⟨h1, h2, h3, h4, h5⟩ := h.2
    rw [hs.result]
    exact ⟨h1, h2, h3, h4, by rw [take_count, h5]⟩
  · refine ⟨seal_valid hs, ?_⟩
    obtain ⟨-, -, -, h2⟩ := seal_ok hs
    rw [h2]
    exact h.2

/-- What a policy with the zero fingerprint leaves behind is not a barrier. -/
lemma call_unset {p : Policy} {s : State} (h : s.policyHash = zeroDigest) (c : Call) :
    (call p s c).1 = s := by
  rcases call_cases p s c with
    ⟨-, hs⟩ | ⟨-, e, v, now, k, phase, -, hs⟩ | ⟨-, now, -, hs⟩
  · exact hs
  · exact absurd h hs.state.1
  · exact absurd h (seal_ok hs).2.2.1.2.1.1

lemma life_unset {p : Policy} (hf : fingerprint p = zeroDigest) (calls : List Call) :
    (life p calls).2.policyHash = zeroDigest := by
  refine exec_keeps (I := fun s : State => s.policyHash = zeroDigest)
    (fun s c h => by rwa [call_unset h]) ?_ calls
  unfold init
  split_ifs
  · exact hf
  · rfl

/-- **When an adverse report blocks.** It does exactly when the barrier could be set up, the
report's own digest is not the zero digest, and the report was not observed before the
latest report on that participant, whichever channel brought that one. -/
theorem observe_adverse_iff (p : Policy) (hp : p.Valid) (calls : List Call) (now : Counter)
    (e : Evidence) (k : ℕ) (hb : (life p calls).2.current ≠ .blocked)
    (hr : ((life p calls).2.revision : ℕ) < Counter.last)
    (hn : ((life p calls).2.lastNow : ℕ) ≤ now)
    (h : AdverseReport p (life p calls).2 now e k) :
    (∃ s', observe p (life p calls).2 e true now = .ok s' ∧ s'.current = .blocked) ↔
      fingerprint p ≠ zeroDigest
        ∧ (((life p calls).2.member k).observed : ℕ) ≤ e.stamp.observedAt
        ∧ Sha256.hash e.encode ≠ zeroDigest := by
  constructor
  · rintro ⟨s', hs, -⟩
    obtain ⟨i, phase, hs⟩ := observe_ok hs
    obtain rfl : i = k := unique hp hs.index h.index (hs.concerns.1.symm.trans h.concerns.1)
      (hs.concerns.2.1.symm.trans h.concerns.2.1)
    exact ⟨fun hf => hs.state.1 (life_unset hf calls), hs.observed, hs.proof⟩
  · rintro ⟨hf, ho, hproof⟩
    have hst : Stands p (life p calls).2 :=
      exec_keeps (I := Stands p) (fun s c h => stands_call h c) (stands_init hp hf) calls
    obtain ⟨hpol, he, hg, hd, ha⟩ := h.bound
    refine ⟨_, observe_eq (k := k) ⟨hp, hst.1, rfl, hb, by omega, hst.2,
      hn, ⟨hpol.trans hst.2.1.symm, he, hg, hd, ha, h.fresh⟩, h.index, h.concerns, ho,
      h.sequence, verdict_adverse h.adverse, hproof, rfl⟩, by simp [State.take]⟩

/-! ### One node that two channels report on -/

/-- A policy with one participant. -/
def onePolicy : Policy where
  clusterId := Block.fill 16 1
  barrierId := Block.fill 16 2
  receiverBoot := Block.fill 16 3
  contract := Block.fill 32 4
  changePlan := Block.fill 32 5
  inventory := Block.fill 32 6
  guardValue := Block.fill 32 7
  epoch := 8
  guardRevision := 10
  maximumAge := 1000
  members :=
    [⟨Block.fill 16 11, Block.fill 16 21, Block.fill 16 31, Block.fill 32 41, Block.fill 32 51, 3⟩]

/-- The first report of its channel on the participant of `onePolicy`. -/
def report (policyHash : Digest) (source : Channel) (kind : AckKind) (observedAt : Counter) :
    Evidence where
  policyHash := policyHash
  durableReceipt := Block.fill 32 61
  auditHead := Block.fill 32 62
  nodeId := Block.fill 16 11
  resourceId := Block.fill 16 21
  subjectBoot := Block.fill 16 31
  stamp := ⟨Block.fill 16 3, 1, observedAt, 1000⟩
  epoch := 8
  appliedGuardRevision := 10
  isolationPaths := 3
  kind := kind
  source := source
  retirementDurable := true

/-- The node agent says that it is not safe. -/
lemma unsafe_report {d : Digest} {s : State} (hd : d = fingerprint onePolicy)
    (hs : ((s.member 0).nodeSequence : ℕ) = 0) :
    AdverseReport onePolicy s 200 (report d .nodeAgent .unsafeAck 100) 0 where
  bound := ⟨hd, rfl, rfl, (by decide : Block.fill 32 61 ≠ zeroDigest),
    (by decide : Block.fill 32 62 ≠ zeroDigest)⟩
  index := by decide
  concerns := ⟨rfl, rfl, rfl⟩
  fresh := by
    show Fresh ⟨Block.fill 16 3, 1, 100, 1000⟩ (Block.fill 16 3) 200 1000
    decide
  sequence := by
    show ((s.member 0).nodeSequence : ℕ) < 1
    omega
  adverse := .inl rfl

lemma init_counters (p : Policy) :
    ((init p).2.revision : ℕ) = 0 ∧ ((init p).2.lastNow : ℕ) = 0 := by
  unfold init
  split_ifs <;> exact ⟨rfl, rfl⟩

theorem observe_adverse_iff_onePolicy :
    (∃ s', observe onePolicy (life onePolicy []).2
        (report (fingerprint onePolicy) .nodeAgent .unsafeAck 100) true 200 = .ok s'
        ∧ s'.current = .blocked) ↔
      fingerprint onePolicy ≠ zeroDigest
        ∧ (((life onePolicy []).2.member 0).observed : ℕ)
          ≤ (report (fingerprint onePolicy) .nodeAgent .unsafeAck 100).stamp.observedAt
        ∧ Sha256.hash (report (fingerprint onePolicy) .nodeAgent .unsafeAck 100).encode
          ≠ zeroDigest := by
  have hs := life_nil onePolicy
  have hc := init_counters onePolicy
  refine observe_adverse_iff onePolicy (by decide) [] 200 _ 0 ?_ ?_ ?_ (unsafe_report rfl ?_)
  · rw [hs, init_current]
    decide
  · rw [hs, hc.1]
    decide
  · rw [hs, hc.2]
    decide
  · rw [hs, init_member]
    rfl

def oneDigest : Digest := Block.ofBytes 32
  (be 32 89862693944225965192736591208060558122372326364457642050369373339510233297321)

set_option maxRecDepth 5000 in
lemma fingerprint_onePolicy : fingerprint onePolicy = oneDigest := by decide +kernel

lemma oneDigest_ne : oneDigest ≠ zeroDigest := by decide

/-- A healthy report of the fence observer, observed at 150. -/
def fenceReport : Evidence := report oneDigest .fenceObserver .fenced 150

lemma hash_fenceReport : Sha256.hash fenceReport.encode ≠ zeroDigest := by decide +kernel

/-- The barrier after `fenceReport`. -/
def fencedState : State := (init onePolicy).2.take 0 .isolated fenceReport 200

lemma observe_fenceReport : Observed onePolicy (init onePolicy).2 fenceReport true 200 0
    .isolated fencedState := by
  have hp : onePolicy.Valid := by decide
  have hf : fingerprint onePolicy ≠ zeroDigest := fingerprint_onePolicy ▸ oneDigest_ne
  have hst := stands_init hp hf
  obtain ⟨hrev, hnow⟩ := init_counters onePolicy
  have hm := init_member onePolicy 0
  refine ⟨hp, hst.1, rfl, by rw [init_current]; decide, by rw [hrev]; decide, hst.2,
    by rw [hnow]; decide, ⟨?_, rfl, rfl, by decide, by decide, by decide⟩, by decide,
    by decide, by rw [hm]; decide, by rw [hm]; decide, by rw [hm]; rfl, hash_fenceReport, rfl⟩
  exact fingerprint_onePolicy.symm.trans hst.2.1.symm

/-- **An adverse report that is not heard.** The node agent reports, at first and while its
report is still fresh, that it is not safe. The report was observed at 100, before the fence
observer's healthy one, and is refused. -/
theorem adverse_report_denied :
    onePolicy.Valid
      ∧ (life onePolicy [.observe fenceReport true 200]).2.current ≠ .blocked
      ∧ ((life onePolicy [.observe fenceReport true 200]).2.revision : ℕ) < Counter.last
      ∧ ((life onePolicy [.observe fenceReport true 200]).2.lastNow : ℕ) ≤ 200
      ∧ AdverseReport onePolicy (life onePolicy [.observe fenceReport true 200]).2 200
          (report oneDigest .nodeAgent .unsafeAck 100) 0
      ∧ observe onePolicy (life onePolicy [.observe fenceReport true 200]).2
          (report oneDigest .nodeAgent .unsafeAck 100) true 200
        = .error .denied := by
  have hobs := observe_fenceReport
  have hs : (life onePolicy [.observe fenceReport true 200]).2 = fencedState := by
    rw [life_single, call, observe_eq hobs, answer]
  have hcount : 0 < (init onePolicy).2.count := by
    rw [hobs.same.2.2.2.2]
    decide
  have hm : fencedState.member 0 = ({} : Receipt).take .isolated fenceReport := by
    rw [fencedState, take_member hcount, if_pos rfl, init_member]
  have hcur : fencedState.current = .collecting := by
    simp [fencedState, State.take, init_current]
  have hrev : (fencedState.revision : ℕ) = 1 := by
    have h0 := (init_counters onePolicy).1
    have h1 := Counter.val_next hobs.revision
    rw [h0] at h1
    exact h1
  have hreport : AdverseReport onePolicy fencedState 200
      (report oneDigest .nodeAgent .unsafeAck 100) 0 :=
    unsafe_report fingerprint_onePolicy.symm (by rw [hm]; rfl)
  rw [hs]
  refine ⟨by decide, by rw [hcur]; decide, by rw [hrev]; decide, by decide, hreport, ?_⟩
  unfold observe
  split
  · rfl
  rw [find_eq (by decide) hreport.index hreport.concerns]
  have hold : ((100 : Counter) : ℕ) < (fencedState.member 0).observed := by
    rw [hm]
    decide
  exact if_pos (.inr (.inr hold))

end NiayanAssurance.StopBarrierRuns
