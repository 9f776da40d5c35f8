import NiayanAssurance.StopBarrierRuns

/-!
Evidences about different participants that reach a stop barrier at one time: in whatever order
they are delivered, they come to the same.
-/

namespace NiayanAssurance.StopBarrierOrder

open NiayanAssurance.Lib NiayanAssurance.Types NiayanAssurance.TimeGuard
open NiayanAssurance.StopBarrier NiayanAssurance.StopBarrierRuns

/-- The barrier after the evidences of `l`, delivered in this order at `now`. One that is refused
changes nothing. -/
def deliver (p : Policy) (now : Counter) (s : State) (l : List Evidence) : State :=
  l.foldl (fun s e => (answer s (observe p s e true now)).1) s

/-- The evidence speaks against the participant that it is about. -/
def Harmful (p : Policy) (e : Evidence) : Prop :=
  ∃ k < p.count, Concerns p k e ∧ Adverse (p.member k) e

/-- Evidences about pairwise distinct participants, each of which the barrier would accept now,
and room for all of them. -/
structure Batch (p : Policy) (now : Counter) (s : State) (l : List Evidence) : Prop where
  room : (s.revision : ℕ) + l.length ≤ Counter.last
  accepted : ∀ e ∈ l, ∃ s', observe p s e true now = .ok s'
  apart : l.Pairwise fun e e' => ∀ i, Concerns p i e → ¬ Concerns p i e'

section Batch

variable {p : Policy} {now : Counter} {s s' s₁ s₂ : State} {e e' : Evidence} {k k' : ℕ}
  {phase phase' : ParticipantPhase} {l l' : List Evidence}

lemma Batch.perm (h : Batch p now s l) (hl : l'.Perm l) : Batch p now s l' where
  room := hl.length_eq ▸ h.room
  accepted e he := h.accepted e (hl.mem_iff.mp he)
  apart := (hl.pairwise_iff fun h i hi hi' => h i hi' hi).mpr h.apart

lemma deliver_cons (h : observe p s e true now = .ok s') :
    deliver p now s (e :: l) = deliver p now s' l := by
  unfold deliver
  rw [List.foldl_cons, h]
  rfl

/-- An evidence that is accepted is harmful when its participant becomes uncertain of it. -/
lemma harmful_iff (h : Observed p s e true now k phase s') :
    Harmful p e ↔ phase = .uncertain := by
  constructor
  · rintro ⟨i, hi, hc, ha⟩
    obtain rfl : i = k := unique h.policy hi h.index (hc.1.symm.trans h.concerns.1)
      (hc.2.1.symm.trans h.concerns.2.1)
    have hv := h.verdict
    rw [verdict_adverse ha] at hv
    cases hv
    rfl
  · rintro rfl
    rcases verdict_cases h.verdict with ⟨-, ha⟩ | ⟨hp, -⟩ | ⟨hp, -⟩
    · exact ⟨k, h.index, h.concerns, ha⟩
    · cases hp
    · cases hp

/-- What is accepted keeps acceptable what is about another participant. -/
lemma observed_after (h : Observed p s e true now k phase s₁) (hp : phase ≠ .uncertain)
    (h' : Observed p s e' true now k' phase' s₂) (hk : k' ≠ k)
    (hr : (s.revision : ℕ) + 1 < Counter.last) :
    Observed p s₁ e' true now k' phase' (s₁.take k' phase' e' now) := by
  have hv := observe_valid (observe_eq h)
  have hks : k < s.count := by
    rw [h.same.2.2.2.2]
    exact h.index
  have hm : s₁.member k' = s.member k' := by rw [h.result, take_member hks, if_neg hk]
  have hc : s₁.current = s.current := by
    rw [h.result]
    exact if_neg hp
  have hrev : (s₁.revision : ℕ) = s.revision + 1 := by
    rw [h.result]
    exact Counter.val_next h.revision
  have hcount : s₁.count = s.count := by rw [h.result, take_count]
  have hsame : Matches p s₁ := by
    obtain ⟨m1, m2, m3, m4, m5⟩ := h.same
    rw [Matches, hcount, h.result]
    exact ⟨m1, m2, m3, m4, m5⟩
  have hb : Bound p s₁ e' now := by
    rw [h.result]
    exact h'.bound
  exact {
    policy := h.policy
    state := hv
    verified := rfl
    current := hc ▸ h.current
    revision := by omega
    same := hsame
    lastNow := by
      rw [h.result]
      exact le_rfl
    bound := hb
    index := h'.index
    concerns := h'.concerns
    observed := hm ▸ h'.observed
    sequence := hm ▸ h'.sequence
    verdict := hm ▸ h'.verdict
    proof := h'.proof
    result := rfl }

/-- Two receipts of different participants are taken in either order. -/
lemma take_comm (hk : k' ≠ k) : (s.take k phase e now).take k' phase' e' now
    = (s.take k' phase' e' now).take k phase e now := by
  have h1 : (s.members.set k ((s.member k).take phase e)).getD k' default = s.member k' := by
    simp [State.member, List.getD_eq_getElem?_getD, hk.symm]
  have h2 : (s.members.set k' ((s.member k').take phase' e')).getD k default = s.member k := by
    simp [State.member, List.getD_eq_getElem?_getD, hk]
  unfold State.take
  simp only [State.member] at h1 h2 ⊢
  simp only [h1, h2, State.mk.injEq, true_and]
  refine ⟨?_, List.set_comm _ _ hk.symm⟩
  split_ifs <;> rfl

end Batch

section Delivery

variable {p : Policy} {now : Counter} {s s₁ : State} {e : Evidence} {k : ℕ}
  {phase : ParticipantPhase} {l l' : List Evidence}

/-- After one of them has been accepted, the others are still a batch. -/
lemma Batch.tail (h : Batch p now s (e :: l)) (ho : Observed p s e true now k phase s₁)
    (hp : phase ≠ .uncertain) : Batch p now s₁ l := by
  have hroom := h.room
  rw [List.length_cons] at hroom
  obtain ⟨ha, ht⟩ := List.pairwise_cons.mp h.apart
  refine ⟨?_, fun e' he' => ?_, ht⟩
  · rw [ho.result, State.take, Counter.val_next ho.revision]
    omega
  · obtain ⟨s₂, h2⟩ := h.accepted e' (List.mem_cons_of_mem _ he')
    obtain ⟨k', phase', ho'⟩ := observe_ok h2
    have hk : k' ≠ k := by
      rintro rfl
      exact ha e' he' k' ho.concerns ho'.concerns
    have hl : 0 < l.length := List.length_pos_of_mem he'
    exact ⟨_, observe_eq (observed_after ho hp ho' hk (by omega))⟩

/-- In a batch with no harmful evidence the first one is accepted. -/
lemma Batch.head (h : Batch p now s (e :: l)) (hn : ¬ Harmful p e) :
    ∃ k phase s₁, Observed p s e true now k phase s₁ ∧ phase ≠ .uncertain := by
  obtain ⟨s₁, h1⟩ := h.accepted e List.mem_cons_self
  obtain ⟨k, phase, ho⟩ := observe_ok h1
  exact ⟨k, phase, s₁, ho, fun hp => hn ((harmful_iff ho).mpr hp)⟩

/-- **Order is irrelevant** where nothing is harmful. -/
lemma deliver_perm (hl : l.Perm l') (h : Batch p now s l) (hn : ∀ e ∈ l, ¬ Harmful p e) :
    deliver p now s l = deliver p now s l' := by
  induction hl generalizing s with
  | nil => rfl
  | @cons e l l' hl ih =>
    obtain ⟨k, phase, s₁, ho, hp⟩ := h.head (hn e List.mem_cons_self)
    rw [deliver_cons (observe_eq ho), deliver_cons (observe_eq ho)]
    exact ih (h.tail ho hp) fun e he => hn e (List.mem_cons_of_mem _ he)
  | swap a b l =>
    -- Each is accepted after the other, and the two receipts are taken in either order.
    have hroom := h.room
    simp only [List.length_cons] at hroom
    obtain ⟨k, phase, s₁, ho, hp⟩ := h.head (hn b List.mem_cons_self)
    obtain ⟨s₂, h2⟩ := h.accepted a (by simp)
    obtain ⟨k', phase', ho'⟩ := observe_ok h2
    have hp' : phase' ≠ .uncertain := fun hp => hn a (by simp) ((harmful_iff ho').mpr hp)
    have hk : k' ≠ k := by
      rintro rfl
      exact (List.pairwise_cons.mp h.apart).1 a List.mem_cons_self k' ho.concerns ho'.concerns
    have h3 := observed_after ho hp ho' hk (by omega)
    have h4 := observed_after ho' hp' ho hk.symm (by omega)
    rw [deliver_cons (observe_eq ho), deliver_cons (observe_eq h3),
      deliver_cons (observe_eq ho'), deliver_cons (observe_eq h4), ho.result, ho'.result,
      take_comm hk]
  | @trans l l₁ l' hl hl' ih ih' =>
    rw [ih h hn]
    exact ih' (h.perm hl.symm) fun e he => hn e (hl.mem_iff.mpr he)

/-- Where nothing is harmful every evidence is taken. -/
lemma deliver_taken (h : Batch p now s l) (hn : ∀ e ∈ l, ¬ Harmful p e) :
    ((deliver p now s l).revision : ℕ) = s.revision + l.length
      ∧ (deliver p now s l).current = s.current := by
  induction l generalizing s with
  | nil => exact ⟨rfl, rfl⟩
  | cons e l ih =>
    obtain ⟨k, phase, s₁, ho, hp⟩ := h.head (hn e List.mem_cons_self)
    obtain ⟨h1, h2⟩ := ih (h.tail ho hp) fun e he => hn e (List.mem_cons_of_mem _ he)
    rw [deliver_cons (observe_eq ho), h1, h2, ho.result, List.length_cons]
    refine ⟨?_, if_neg hp⟩
    rw [State.take, Counter.val_next ho.revision]
    omega

lemma deliver_of_blocked (h : s.current = .blocked) (l : List Evidence) :
    (deliver p now s l).current = .blocked := by
  unfold deliver
  induction l generalizing s with
  | nil => exact h
  | cons e l ih =>
    exact ih ((congrArg State.current (call_blocked h (.observe e true now))).trans h)

/-- A harmful evidence blocks the barrier, wherever it stands. -/
lemma deliver_blocked (h : Batch p now s l) (hn : ∃ e ∈ l, Harmful p e) :
    (deliver p now s l).current = .blocked := by
  induction l generalizing s with
  | nil =>
    obtain ⟨e, he, -⟩ := hn
    cases he
  | cons e l ih =>
    obtain ⟨s₁, h1⟩ := h.accepted e List.mem_cons_self
    obtain ⟨k, phase, ho⟩ := observe_ok h1
    rw [deliver_cons h1]
    by_cases hp : phase = .uncertain
    · refine deliver_of_blocked ?_ l
      rw [ho.result]
      exact if_pos hp
    · refine ih (h.tail ho hp) ?_
      obtain ⟨e', he', hh⟩ := hn
      rcases List.mem_cons.mp he' with rfl | he'
      · exact absurd ((harmful_iff ho).mp hh) hp
      · exact ⟨e', he', hh⟩

end Delivery

/-- **The order of delivery is irrelevant**: evidences about pairwise distinct participants, each
of which would be accepted now, are all taken and come to one state in every order when none of
them is harmful, and block the barrier in every order when one is. -/
theorem delivery_order {p : Policy} {now : Counter} {s : State} {l : List Evidence}
    (h : Batch p now s l) :
    ((∀ e ∈ l, ¬ Harmful p e) → ∀ l', l'.Perm l → deliver p now s l' = deliver p now s l
        ∧ ((deliver p now s l').revision : ℕ) = s.revision + l.length
        ∧ (deliver p now s l').current = s.current)
      ∧ ((∃ e ∈ l, Harmful p e) → ∀ l', l'.Perm l → (deliver p now s l').current = .blocked) := by
  refine ⟨fun hn l' hl => ?_, fun ⟨e, he, hh⟩ l' hl => ?_⟩
  · have hd := deliver_perm hl.symm h hn
    rw [← hd]
    exact ⟨rfl, deliver_taken h hn⟩
  · exact deliver_blocked (h.perm hl) ⟨e, hl.mem_iff.mpr he, hh⟩

/-! ### Two participants -/

/-- `onePolicy` with a second node. -/
def twoPolicy : Policy :=
  { onePolicy with
    members := onePolicy.members ++ [⟨Block.fill 16 12, Block.fill 16 22, Block.fill 16 32,
      Block.fill 32 42, Block.fill 32 52, 3⟩]
    count_le := by decide }

def twoDigest : Digest := Block.ofBytes 32
  (be 32 35175026988849358244673668191675878874395967782654014581755170978745235226597)

set_option maxRecDepth 5000 in
lemma fingerprint_twoPolicy : fingerprint twoPolicy = twoDigest := by decide +kernel

lemma twoDigest_ne : twoDigest ≠ zeroDigest := by decide

/-- The first node is fenced. -/
def fenced : Evidence := report twoDigest .fenceObserver .fenced 150

/-- The second node has drained. -/
def drained : Evidence :=
  { report twoDigest .nodeAgent .drained 150 with
    nodeId := Block.fill 16 12
    resourceId := Block.fill 16 22
    subjectBoot := Block.fill 16 32
    durableStopLatch := true
    queueClosed := true }

lemma hash_reports : Sha256.hash fenced.encode ≠ zeroDigest
    ∧ Sha256.hash drained.encode ≠ zeroDigest := by decide +kernel

/-- A healthy report is accepted at first. -/
lemma observed_first {e : Evidence} (k : ℕ) (phase : ParticipantPhase)
    (hb : e.policyHash = twoDigest ∧ e.epoch = 8 ∧ e.appliedGuardRevision = 10
      ∧ e.durableReceipt ≠ zeroDigest ∧ e.auditHead ≠ zeroDigest
      ∧ Fresh e.stamp (Block.fill 16 3) 200 1000)
    (hk : k < twoPolicy.count) (hc : Concerns twoPolicy k e)
    (hs : 0 < (e.stamp.sequence : ℕ)) (hv : verdict (twoPolicy.member k) {} e = .ok phase)
    (hh : Sha256.hash e.encode ≠ zeroDigest) :
    ∃ s', observe twoPolicy (init twoPolicy).2 e true 200 = .ok s' := by
  have hp : twoPolicy.Valid := by decide
  have hf : fingerprint twoPolicy ≠ zeroDigest := fingerprint_twoPolicy ▸ twoDigest_ne
  have hst := stands_init hp hf
  obtain ⟨hrev, hnow⟩ := init_counters twoPolicy
  obtain ⟨h1, h2⟩ := hb
  have hm := init_member twoPolicy k
  refine ⟨_, observe_eq (show Observed _ _ e true 200 k phase _ from
    ⟨hp, hst.1, rfl, by rw [init_current]; decide, by rw [hrev]; decide, hst.2,
      by rw [hnow]; decide, ⟨?_, h2⟩, hk, hc, ?_, ?_, hm ▸ hv, hh, rfl⟩)⟩
  · exact h1.trans (fingerprint_twoPolicy.symm.trans hst.2.1.symm)
  · rw [hm]
    exact Nat.zero_le _
  · rw [hm]
    cases e.source <;> exact hs

lemma batch_two : Batch twoPolicy 200 (init twoPolicy).2 [fenced, drained] where
  room := by
    rw [(init_counters twoPolicy).1]
    decide
  accepted := by
    intro e he
    simp only [List.mem_cons, List.not_mem_nil, or_false] at he
    rcases he with rfl | rfl
    · exact observed_first 0 .isolated (by decide) (by decide) (by decide)
        (by decide) (by decide) hash_reports.1
    · exact observed_first 1 .acknowledged (by decide) (by decide) (by decide)
        (by decide) (by decide) hash_reports.2
  apart := by
    refine List.pairwise_pair.mpr fun i h h' => ?_
    exact (by decide : fenced.nodeId ≠ drained.nodeId) (h.1.trans h'.1.symm)

lemma harmless_two : ∀ e ∈ [fenced, drained], ¬ Harmful twoPolicy e := by
  intro e he
  simp only [List.mem_cons, List.not_mem_nil, or_false] at he
  rintro ⟨k, hk, -, ha⟩
  rcases he with rfl | rfl
  · have hi : ∀ k < 2, Isolates (twoPolicy.member k) fenced := by decide
    exact (hi k hk).not_adverse ha
  · exact (by decide : Drains drained).not_adverse ha

/-- Two healthy reports in either order. -/
theorem delivery_order_two :
    deliver twoPolicy 200 (init twoPolicy).2 [drained, fenced]
      = deliver twoPolicy 200 (init twoPolicy).2 [fenced, drained] :=
  ((delivery_order batch_two).1 harmless_two _ (List.Perm.swap _ _ _)).1

end NiayanAssurance.StopBarrierOrder
