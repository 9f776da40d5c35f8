import NiayanAssurance.Control
import NiayanAssurance.Lib.Run

/-!
What change control keeps over every run of decisions, and who can move its latch which way.
-/

namespace NiayanAssurance.ControlRuns

open NiayanAssurance.Lib NiayanAssurance.Types
open NiayanAssurance.Control

/-! ### The tally -/

lemma tally_fold (a : Authority) (v : VerifiedSet) (l : List (Fin maxSigners)) (t : Tally) :
    l.foldlM (fun t i =>
      if i ∈ v then if (i : ℕ) < a.count then some (t.add (a.key i)) else none
      else some t) t =
    if ∀ i ∈ l, i ∈ v → (i : ℕ) < a.count then
      some (((l.filter (· ∈ v)).map fun i : Fin maxSigners => a.key i).foldl Tally.add t)
    else none := by
  induction l generalizing t with
  | nil => simp
  | cons i l ih =>
    by_cases hv : i ∈ v
    · by_cases hc : (i : ℕ) < a.count
      · simp [List.foldlM_cons, hv, hc, ih]
      · simp [List.foldlM_cons, hv, hc]
    · simp [List.foldlM_cons, hv, ih]

/-- The keys that signed, in the order of the loop. -/
def signed (a : Authority) (v : VerifiedSet) : List Signer :=
  ((List.finRange maxSigners).filter (· ∈ v)).map fun i : Fin maxSigners => a.key i

lemma tally_some {a : Authority} {v : VerifiedSet} {t : Tally} (h : a.tally v = some t) :
    (∀ i ∈ v, (i : ℕ) < a.count) ∧ t = (signed a v).foldl Tally.add {} := by
  unfold Authority.tally at h
  rw [tally_fold] at h
  split at h
  · rename_i hc
    cases h
    exact ⟨fun i hi => hc i (List.mem_finRange i) hi, rfl⟩
  · cases h

lemma tally_eq {a : Authority} {v : VerifiedSet} (h : ∀ i ∈ v, (i : ℕ) < a.count) :
    a.tally v = some ((signed a v).foldl Tally.add {}) := by
  unfold Authority.tally
  rw [tally_fold, if_pos fun i _ hi => h i hi]
  rfl

lemma add_count (l : List Signer) (t : Tally) :
    (l.foldl Tally.add t).count = t.count + l.length := by
  induction l generalizing t with
  | nil => rfl
  | cons k l ih =>
    rw [List.foldl_cons, ih, List.length_cons]
    simp only [Tally.add]
    omega

lemma add_ops (l : List Signer) (t : Tally) :
    (l.foldl Tally.add t).ops = true ↔ t.ops = true ∨ ∃ k ∈ l, k.duty = .operations := by
  induction l generalizing t with
  | nil => simp
  | cons k l ih =>
    rw [List.foldl_cons, ih]
    simp [Tally.add, or_assoc]

lemma add_sec (l : List Signer) (t : Tally) :
    (l.foldl Tally.add t).sec = true ↔ t.sec = true ∨ ∃ k ∈ l, k.duty = .security := by
  induction l generalizing t with
  | nil => simp
  | cons k l ih =>
    rw [List.foldl_cons, ih]
    simp [Tally.add, or_assoc]

/-- Once a first domain is known, the tally is diverse when another domain turns up. -/
lemma add_diverse_of_first (l : List Signer) (t : Tally) (h : t.firstDomain ≠ 0) :
    (l.foldl Tally.add t).diverse = true ↔
      t.diverse = true ∨ ∃ k ∈ l, (k.domain : ℕ) ≠ t.firstDomain := by
  induction l generalizing t with
  | nil => simp
  | cons k l ih =>
    have h1 : (t.add k).firstDomain = t.firstDomain := by simp [Tally.add, h]
    have h2 : (t.add k).diverse = true ↔ t.diverse = true ∨ (k.domain : ℕ) ≠ t.firstDomain := by
      simp [Tally.add, h, Ne, @eq_comm _ t.firstDomain]
    rw [List.foldl_cons, ih _ (by rwa [h1]), h1, h2]
    simp [or_assoc]

lemma add_diverse {l : List Signer} (h : ∀ k ∈ l, (k.domain : ℕ) ≠ 0) :
    (l.foldl Tally.add {}).diverse = true ↔ ∃ k ∈ l, ∃ k' ∈ l, k.domain ≠ k'.domain := by
  rcases l with _ | ⟨k, l⟩
  · simp
  have hk : (k.domain : ℕ) ≠ 0 := h k (by simp)
  rw [List.foldl_cons, add_diverse_of_first l _ (by simpa [Tally.add] using hk)]
  constructor
  · rintro (hd | ⟨k', hk', hd⟩)
    · simp [Tally.add] at hd
    · refine ⟨k', by simp [hk'], k, by simp, fun he => hd ?_⟩
      simp [Tally.add, he]
  · rintro ⟨x, hx, y, hy, hxy⟩
    -- one of the two is not of the first signer's domain
    by_contra hall
    push Not at hall
    have hsame : ∀ z ∈ k :: l, z.domain = k.domain := by
      intro z hz
      rcases List.mem_cons.mp hz with rfl | hz
      · rfl
      · exact Fin.ext (by simpa [Tally.add] using hall.2 z hz)
    exact hxy ((hsame x hx).trans (hsame y hy).symm)

lemma mem_signed {a : Authority} {v : VerifiedSet} {k : Signer} :
    k ∈ signed a v ↔ ∃ i ∈ v, a.key i = k := by
  simp [signed]

lemma length_signed (a : Authority) (v : VerifiedSet) : (signed a v).length = v.card := by
  rw [signed, List.length_map, ← List.toFinset_card_of_nodup
    ((List.nodup_finRange maxSigners).filter _)]
  congr 1
  ext i
  simp

/-! ### One decision -/

/-- All that an accepted proposal has been checked for, and what it leads to. -/
structure Decided (a : Authority) (h : Digest) (before : State) (beforeHash : Digest)
    (isGenesis : Bool) (p : Proposal) (v : VerifiedSet) (boot : Identity) (now : Counter)
    (s' : State) : Prop where
  proper : p.Proper a h boot now
  opens : isGenesis = true → p.Opens beforeHash
  continues : isGenesis = false → p.Continues a h before beforeHash
  keys : ∀ i ∈ v, (i : ℕ) < a.count
  tighten : a.tightenThreshold ≤ v.card
  relax : isGenesis = false → p.desired.pos < before.current.pos →
    a.resumeThreshold ≤ v.card
      ∧ (∃ i ∈ v, (a.key i).duty = .operations) ∧ (∃ i ∈ v, (a.key i).duty = .security)
      ∧ (∃ i ∈ v, ∃ j ∈ v, (a.key i).domain ≠ (a.key j).domain)
      ∧ (before.trustEpoch : ℕ) < p.newTrustEpoch ∧ p.recoveryReceipt ≠ zeroDigest
  result : s' = p.after a h beforeHash

section Decide

variable {a : Authority} {h : Digest} {before s' : State} {beforeHash : Digest}
  {isGenesis : Bool} {p : Proposal} {v : VerifiedSet} {boot : Identity} {now : Counter}

lemma signed_domain (ha : a.Valid) (hv : ∀ i ∈ v, (i : ℕ) < a.count) :
    ∀ k ∈ signed a v, (k.domain : ℕ) ≠ 0 := by
  intro k hk
  obtain ⟨i, hi, rfl⟩ := mem_signed.mp hk
  exact (ha.2.2.2.2.2.2.1 i (hv i hi)).1.2.2

/-- **What a decision accepts**, told of the signers themselves. -/
theorem decide_ok_iff : a.decide h before beforeHash isGenesis p v boot now = .ok s' ↔
    Decided a h before beforeHash isGenesis p v boot now s' := by
  have hsec : ∀ b : Bool, b ≠ false ↔ b = true := by decide
  constructor
  · intro hd
    unfold Authority.decide at hd
    split at hd
    · cases hd
    rename_i h1
    split at hd
    · cases hd
    rename_i h2
    split at hd
    · cases hd
    rename_i h3
    rcases ht : a.tally v with _ | t
    · simp [ht] at hd
    simp only [ht] at hd
    split at hd
    · cases hd
    rename_i h4
    split at hd
    · cases hd
    rename_i h5
    cases hd
    push Not at h1 h2 h3 h5
    obtain ⟨hk, rfl⟩ := tally_some ht
    have hdom := signed_domain h1.1 hk
    rw [add_count, length_signed, Nat.zero_add] at h4 h5
    refine ⟨h1, h2, h3, hk, by omega, fun hg hr => ?_, rfl⟩
    obtain ⟨r1, r2, r3, r4, r5, r6⟩ := h5 ⟨hg, hr⟩
    rw [hsec, add_ops] at r2
    rw [hsec, add_sec] at r3
    rw [hsec, add_diverse hdom] at r4
    refine ⟨r1, ?_, ?_, ?_, r5, r6⟩
    · simpa [mem_signed] using r2
    · simpa [mem_signed] using r3
    · obtain ⟨k, hk1, k', hk2, hne⟩ := r4
      obtain ⟨i, hi, rfl⟩ := mem_signed.mp hk1
      obtain ⟨j, hj, rfl⟩ := mem_signed.mp hk2
      exact ⟨i, hi, j, hj, hne⟩
  · rintro ⟨h1, h2, h3, hk, h4, h5, rfl⟩
    have hdom := signed_domain h1.1 hk
    unfold Authority.decide
    rw [if_neg (not_not.mpr h1), if_neg (fun hc => hc.2 (h2 hc.1)),
      if_neg (fun hc => hc.2 (h3 hc.1)), tally_eq hk]
    simp only
    rw [add_count, length_signed, Nat.zero_add, if_neg (by omega), if_neg]
    rintro ⟨⟨hg, hr⟩, hbad⟩
    obtain ⟨r1, ⟨i, hi, r2⟩, ⟨j, hj, r3⟩, ⟨x, hx, y, hy, r4⟩, r5, r6⟩ := h5 hg hr
    rcases hbad with hb | hb | hb | hb | hb | hb
    · omega
    · rw [← Bool.not_eq_true, add_ops] at hb
      exact hb (.inr ⟨_, mem_signed.mpr ⟨i, hi, rfl⟩, r2⟩)
    · rw [← Bool.not_eq_true, add_sec] at hb
      exact hb (.inr ⟨_, mem_signed.mpr ⟨j, hj, rfl⟩, r3⟩)
    · rw [← Bool.not_eq_true, add_diverse hdom] at hb
      exact hb ⟨_, mem_signed.mpr ⟨x, hx, rfl⟩, _, mem_signed.mpr ⟨y, hy, rfl⟩, r4⟩
    · omega
    · exact r6 hb

end Decide

lemma decide_error {a : Authority} {h : Digest} {before : State} {beforeHash : Digest}
    {isGenesis : Bool} {p : Proposal} {v : VerifiedSet} {boot : Identity} {now : Counter}
    {o : Outcome} (hd : a.decide h before beforeHash isGenesis p v boot now = .error o) :
    o = .denied := by
  unfold Authority.decide at hd
  split at hd
  · cases hd; rfl
  split at hd
  · cases hd; rfl
  split at hd
  · cases hd; rfl
  rcases ht : a.tally v with _ | t <;> simp only [ht] at hd
  · cases hd; rfl
  split at hd
  · cases hd; rfl
  split at hd <;> cases hd
  rfl

/-! ### Runs -/

structure Call where
  proposal : Proposal
  verified : VerifiedSet
  boot : Identity
  now : Counter

/-- The hash a proposal must expect: that of the state, or none before the first one. -/
def expectedHash : Option State → Digest
  | none => zeroDigest
  | some s => stateHash s

/-- One proposal put to the state of a scope, which has none before the first one. -/
def call (a : Authority) (w : Option State) (c : Call) : Option State × Outcome :=
  match a.decide (authorityHash a) (w.getD {}) (expectedHash w) w.isNone c.proposal c.verified
      c.boot c.now with
  | .ok s => (some s, .ok)
  | .error o => (w, o)

/-- Everything put to a scope since before its first state, with the answers, and its state. -/
def life (a : Authority) (calls : List Call) : List (Call × Outcome) × Option State :=
  exec (call a) none calls

/-- The calls that were accepted, oldest first. -/
def accepted (l : List (Call × Outcome)) : List Call :=
  l.filterMap fun x => if x.2 = .ok then some x.1 else none

abbrev Accepts (a : Authority) (w : Option State) (c : Call) (s' : State) : Prop :=
  Decided a (authorityHash a) (w.getD {}) (expectedHash w) w.isNone c.proposal c.verified c.boot
    c.now s'

lemma call_cases (a : Authority) (w : Option State) (c : Call) :
    ((call a w c).2 ≠ .ok ∧ (call a w c).1 = w)
      ∨ ((call a w c).2 = .ok ∧ ∃ s', (call a w c).1 = some s' ∧ Accepts a w c s') := by
  unfold call
  split
  · rename_i s' hd
    exact .inr ⟨rfl, s', rfl, decide_ok_iff.mp hd⟩
  · rename_i o hd
    refine .inl ⟨?_, rfl⟩
    rw [decide_error hd]
    exact (by decide : Outcome.denied ≠ .ok)

lemma accepts_of_ok {a : Authority} {w : Option State} {c : Call} (h : (call a w c).2 = .ok) :
    ∃ s', (call a w c).1 = some s' ∧ Accepts a w c s' := by
  rcases call_cases a w c with hc | hc
  · exact absurd h hc.1
  · exact hc.2

lemma call_accepts {a : Authority} {w : Option State} {c : Call} {s' : State}
    (h : Accepts a w c s') : call a w c = (some s', .ok) := by
  unfold call
  rw [decide_ok_iff.mpr h]

/-- A state of this authority. -/
structure Governs (a : Authority) (s : State) : Prop where
  authority : a.Valid
  hash : authorityHash a ≠ zeroDigest
  valid : s.Valid
  scope : s.scope = a.scope
  contract : s.contract = a.contract
  digest : s.authorityDigest = authorityHash a

lemma after_governs {a : Authority} {w : Option State} {c : Call} {s' : State}
    (h : Accepts a w c s') : Governs a s' := by
  obtain ⟨h1, h2, h3, -, -, -, rfl⟩ := h
  obtain ⟨ha, hh, -, -, -, -, -, hid, hreason, -, -, -, -, hrev, hepoch⟩ := h1
  refine ⟨ha, hh, ⟨ha.1, ha.2.1, hh, ?_, Nat.pos_of_ne_zero hepoch, hid, hreason, ?_, ?_⟩,
    rfl, rfl, rfl⟩
  · show 0 < (c.proposal.expectedRevision.next : ℕ)
    rw [Counter.val_next hrev]
    omega
  · show c.proposal.desired = .running ↔
      (if c.proposal.desired = .running then zeroIdentity else c.proposal.requestId) =
        zeroIdentity
    split
    · simp [*]
    · simp [*]
  · show ((c.proposal.expectedRevision.next : ℕ) = 1 ∧ expectedHash w = zeroDigest)
      ∨ (1 < (c.proposal.expectedRevision.next : ℕ) ∧ expectedHash w ≠ zeroDigest)
    rw [Counter.val_next hrev]
    rcases w with _ | s
    · have := (h2 rfl).1
      exact .inl ⟨by omega, rfl⟩
    · obtain ⟨hs, -, -, -, hne, -, he, -⟩ := h3 rfl
      have hpos : 0 < (s.revision : ℕ) := hs.2.2.2.1
      refine .inr ⟨?_, hne⟩
      rw [he]
      show 1 < (s.revision : ℕ) + 1
      omega

/-- The revision a scope stands at: none before its first state. -/
def revision : Option State → ℕ
  | none => 0
  | some s => s.revision

lemma accepts_revision {a : Authority} {w : Option State} {c : Call} {s' : State}
    (h : Accepts a w c s') :
    (c.proposal.expectedRevision : ℕ) = revision w ∧ (s'.revision : ℕ) = revision w + 1 := by
  have hrev : (c.proposal.expectedRevision : ℕ) ≠ Counter.last :=
    h.proper.2.2.2.2.2.2.2.2.2.2.2.2.2.1
  have hexp : (c.proposal.expectedRevision : ℕ) = revision w := by
    rcases w with _ | s
    · exact (h.opens rfl).1
    · rw [(h.continues rfl).2.2.2.2.2.2.1]
      rfl
  refine ⟨hexp, ?_⟩
  rw [h.result]
  show (c.proposal.expectedRevision.next : ℕ) = _
  rw [Counter.val_next hrev, hexp]

lemma accepted_snoc (l : List (Call × Outcome)) (c : Call) (o : Outcome) :
    accepted (l ++ [(c, o)]) = if o = .ok then accepted l ++ [c] else accepted l := by
  unfold accepted
  rw [List.filterMap_append]
  split <;> simp [*]

/-- What links the state of a scope to the calls that led to it. -/
structure Ledger (a : Authority) (l : List (Call × Outcome)) (w : Option State) : Prop where
  governs : ∀ s, w = some s → Governs a s
  below : ∀ c ∈ accepted l, (c.proposal.expectedRevision : ℕ) < revision w
  increasing : (accepted l).Pairwise fun c c' =>
    (c.proposal.expectedRevision : ℕ) < c'.proposal.expectedRevision

lemma ledger_call {a : Authority} {l : List (Call × Outcome)} {w w' : Option State} {c : Call}
    {o : Outcome} (hl : Ledger a l w) (h : call a w c = (w', o)) :
    Ledger a (l ++ [(c, o)]) w' := by
  have hcases := call_cases a w c
  rw [h] at hcases
  rcases hcases with ⟨ho, hw⟩ | ⟨ho, s', hw, hs⟩ <;> dsimp only at ho hw
  · refine ⟨hw ▸ hl.governs, ?_, ?_⟩ <;> simp only [accepted_snoc, if_neg ho]
    exacts [hw ▸ hl.below, hl.increasing]
  · obtain ⟨hexp, hrev⟩ := accepts_revision hs
    subst hw
    refine ⟨fun s he => ?_, fun x hx => ?_, ?_⟩
    · cases he
      exact after_governs hs
    · rw [accepted_snoc, if_pos ho] at hx
      show (x.proposal.expectedRevision : ℕ) < s'.revision
      rcases List.mem_append.mp hx with hx | hx
      · have := hl.below x hx
        omega
      · rw [List.mem_singleton.mp hx]
        omega
    · rw [accepted_snoc, if_pos ho]
      refine List.pairwise_append.mpr ⟨hl.increasing, by simp, fun x hx y hy => ?_⟩
      rw [List.mem_singleton.mp hy, hexp]
      exact hl.below x hx

lemma ledger_life (a : Authority) (calls : List Call) :
    Ledger a (life a calls).1 (life a calls).2 :=
  (run_exec (call a) none calls).history ⟨by simp, by simp [accepted], by simp [accepted]⟩
    fun _ _ _ _ _ hl h => ledger_call hl h

/-! ### Coalitions -/

/-- A coalition that lacks a duty, a second domain or the number to relax the latch. -/
def Weak (a : Authority) (coalition : VerifiedSet) : Prop :=
  (∀ i ∈ coalition, (a.key i).duty ≠ .operations)
    ∨ (∀ i ∈ coalition, (a.key i).duty ≠ .security)
    ∨ (∃ d, ∀ i ∈ coalition, (a.key i).domain = d)
    ∨ coalition.card < a.resumeThreshold

/-- How tight the latch is. A scope without a state has nothing to relax. -/
def tightness : Option State → ℕ
  | none => 0
  | some s => s.current.pos

lemma weak_tightens {a : Authority} {coalition : VerifiedSet} (hweak : Weak a coalition)
    (w : Option State) {c : Call} (hc : c.verified ⊆ coalition) :
    tightness w ≤ tightness (call a w c).1 := by
  rcases call_cases a w c with ⟨-, hw⟩ | ⟨-, s', hw, hs⟩
  · rw [hw]
  rcases w with _ | s
  · exact Nat.zero_le _
  rw [hw]
  show s.current.pos ≤ s'.current.pos
  by_contra hlt
  have hdes : s'.current = c.proposal.desired := by rw [hs.result]; rfl
  obtain ⟨hn, ⟨i, hi, hops⟩, ⟨j, hj, hsec⟩, ⟨x, hx, y, hy, hdiv⟩, -⟩ :=
    hs.relax rfl (by rw [← hdes]; exact Nat.lt_of_not_le hlt)
  rcases hweak with h | h | ⟨d, h⟩ | h
  · exact h i (hc hi) hops
  · exact h j (hc hj) hsec
  · exact hdiv ((h x (hc hx)).trans (h y (hc hy)).symm)
  · have := Finset.card_le_card hc
    omega

lemma weak_run {a : Authority} {coalition : VerifiedSet} (hweak : Weak a coalition)
    (w : Option State) (more : List Call) (h : ∀ c ∈ more, c.verified ⊆ coalition) :
    tightness w ≤ tightness (exec (call a) w more).2 := by
  induction more using List.reverseRecOn with
  | nil => exact le_rfl
  | append_singleton more c ih =>
    rw [exec_snoc]
    exact (ih fun c hc => h c (by simp [hc])).trans
      (weak_tightens hweak _ (h c (by simp)))

structure Sound (a : Authority) (calls : List Call) : Prop where
  valid : ∀ s, (life a calls).2 = some s → s.Valid
  first : (life a calls).2 = none → ∀ c, (call a none c).2 = .ok →
    ∃ s', (call a none c).1 = some s' ∧ s'.current = .quarantined ∧ (s'.revision : ℕ) = 1
      ∧ s'.previous = zeroDigest
  next : ∀ s, (life a calls).2 = some s → ∀ c, (call a (some s) c).2 = .ok →
    ∃ s', (call a (some s) c).1 = some s' ∧ (s'.revision : ℕ) = s.revision + 1
      ∧ s'.previous = stateHash s ∧ (s.trustEpoch : ℕ) ≤ s'.trustEpoch
      ∧ (s'.current.pos < s.current.pos →
        (s.trustEpoch : ℕ) < s'.trustEpoch ∧ c.proposal.recoveryReceipt ≠ zeroDigest)
  once : ((accepted (life a calls).1).map Call.proposal).Nodup
  coalition : ∀ coalition, Weak a coalition → ∀ more, (∀ c ∈ more, c.verified ⊆ coalition) →
    tightness (life a calls).2 ≤ tightness (life a (calls ++ more)).2

/-- **Change control never relaxes without the full authority.** -/
theorem sound (a : Authority) (calls : List Call) : Sound a calls := by
  have hl := ledger_life a calls
  refine ⟨fun s hs => (hl.governs s hs).valid, fun _ c hc => ?_, fun s _ c hc => ?_, ?_,
    fun C hweak more hmore => ?_⟩
  · obtain ⟨s', hw, hs⟩ := accepts_of_ok hc
    refine ⟨s', hw, ?_, (accepts_revision hs).2, ?_⟩
    · rw [hs.result]
      exact (hs.opens rfl).2.2.2
    · rw [hs.result]
      rfl
  · obtain ⟨s', hw, hs⟩ := accepts_of_ok hc
    have hepoch : (s.trustEpoch : ℕ) ≤ c.proposal.newTrustEpoch :=
      (hs.continues rfl).2.2.2.2.2.2.2.1
    refine ⟨s', hw, (accepts_revision hs).2, ?_, ?_, fun hlt => ?_⟩
    · rw [hs.result]
      rfl
    · rw [hs.result]
      exact hepoch
    · rw [hs.result] at hlt ⊢
      exact (hs.relax rfl hlt).2.2.2.2
  · rw [List.Nodup, List.pairwise_map]
    exact hl.increasing.imp fun {c c'} h he => by rw [he] at h; exact lt_irrefl _ h
  · rw [life, life, exec_append]
    exact weak_run hweak _ more hmore

/-! ### The full authority -/

/-- Every signer the authority has. -/
def allSigners (a : Authority) : VerifiedSet := Finset.univ.filter fun i => (i : ℕ) < a.count

lemma mem_allSigners {a : Authority} {i : Fin maxSigners} :
    i ∈ allSigners a ↔ (i : ℕ) < a.count := by simp [allSigners]

lemma card_allSigners (a : Authority) : (allSigners a).card = a.count := by
  rw [allSigners, Fin.card_filter_val_lt]
  exact Nat.min_eq_right a.count_le

def TwoDomains (a : Authority) : Prop :=
  ∃ i < a.count, ∃ j < a.count, (a.key i).domain ≠ (a.key j).domain

/-- Some proposal under the request `request`, signed by every signer, relaxes the latch. -/
def Relaxes (a : Authority) (s : State) (boot : Identity) (now : Counter) (request : Identity) :
    Prop :=
  ∃ p s', p.requestId = request
    ∧ a.decide (authorityHash a) s (stateHash s) false p (allSigners a) boot now = .ok s'
    ∧ s'.current.pos < s.current.pos

/-- Some digest that is not the zero one. -/
def oneDigest : Digest := Block.ofBytes 32 [1]

lemma oneDigest_ne : oneDigest ≠ zeroDigest := by decide

/-- The proposal that asks for the latch to be released. -/
def release (a : Authority) (s : State) (boot : Identity) (now : Counter) (request : Identity) :
    Proposal where
  scope := a.scope
  bootId := boot
  requestId := request
  contract := a.contract
  authorityDigest := authorityHash a
  expectedState := stateHash s
  reason := oneDigest
  recoveryReceipt := oneDigest
  expectedRevision := s.revision
  newTrustEpoch := s.trustEpoch.next
  notBefore := now
  expires := now.next
  desired := .running

lemma exists_duty {a : Authority} {d : Role} (h : ∃ i < a.count, (a.key i).duty = d) :
    ∃ i ∈ allSigners a, (a.key i).duty = d := by
  obtain ⟨i, hi, hp⟩ := h
  exact ⟨⟨i, lt_of_lt_of_le hi a.count_le⟩, mem_allSigners.mpr hi, hp⟩

lemma release_accepted {a : Authority} {s : State} (hg : Governs a s) {boot : Identity}
    {now : Counter} {request : Identity} (hr : (s.revision : ℕ) < Counter.last)
    (hb : boot ≠ zeroIdentity) (hn : (now : ℕ) < Counter.last) (hid : request ≠ zeroIdentity)
    (hfresh : request ≠ s.lastRequest) (hd : TwoDomains a)
    (he : (s.trustEpoch : ℕ) < Counter.last) (hs : stateHash s ≠ zeroDigest) :
    a.decide (authorityHash a) s (stateHash s) false (release a s boot now request) (allSigners a)
      boot now = .ok ((release a s boot now request).after a (authorityHash a) (stateHash s)) := by
  have ha := hg.authority
  have hnow : (now.next : ℕ) = now + 1 := Counter.val_next hn.ne
  have hepoch : (s.trustEpoch.next : ℕ) = s.trustEpoch + 1 := Counter.val_next he.ne
  obtain ⟨-, -, -, -, htight, hresume, -, hops, hsec⟩ := id ha
  refine decide_ok_iff.mpr ⟨⟨ha, hg.hash, rfl, rfl, rfl, hb, rfl, hid, oneDigest_ne, le_rfl, ?_, ?_,
    ?_, hr.ne, ?_⟩, by simp, fun _ => ⟨hg.valid, hg.scope, hg.contract, hg.digest, hs, rfl, rfl,
    ?_, hfresh⟩, fun i hi => mem_allSigners.mp hi, ?_, fun _ _ => ⟨?_, exists_duty hops,
    exists_duty hsec, ?_, ?_, oneDigest_ne⟩, rfl⟩
  · show (now : ℕ) < now.next
    omega
  · show (now : ℕ) < now.next
    omega
  · show (now.next : ℕ) - now ≤ 300000
    omega
  · show (s.trustEpoch.next : ℕ) ≠ 0
    omega
  · show (s.trustEpoch : ℕ) ≤ s.trustEpoch.next
    omega
  · rwa [card_allSigners]
  · rwa [card_allSigners]
  · obtain ⟨i, hi, j, hj, hne⟩ := hd
    exact ⟨⟨i, lt_of_lt_of_le hi a.count_le⟩, mem_allSigners.mpr hi,
      ⟨j, lt_of_lt_of_le hj a.count_le⟩, mem_allSigners.mpr hj, hne⟩
  · show (s.trustEpoch : ℕ) < s.trustEpoch.next
    omega

/-- What a relaxing proposal of the full authority cannot do without. -/
lemma relaxes_needs {a : Authority} {s : State} {boot : Identity} {now : Counter}
    {request : Identity} (h : Relaxes a s boot now request) :
    TwoDomains a ∧ (s.trustEpoch : ℕ) < Counter.last ∧ stateHash s ≠ zeroDigest := by
  obtain ⟨p, s', -, hd, hlt⟩ := h
  have hdec := decide_ok_iff.mp hd
  have hdes : s'.current = p.desired := by rw [hdec.result]; rfl
  obtain ⟨-, -, -, ⟨i, hi, j, hj, hne⟩, he, -⟩ := hdec.relax rfl (hdes ▸ hlt)
  have hlast := p.newTrustEpoch.le_last
  exact ⟨⟨i, hdec.keys i hi, j, hdec.keys j hj, hne⟩, by omega,
    (hdec.continues rfl).2.2.2.2.1⟩

/-- What the full authority can still do in a state: release the latch under any request id
that is not the last one, when the conditions on the right hold. -/
def Releasable (a : Authority) (s : State) : Prop :=
  ∀ (boot : Identity) (now : Counter) (request : Identity), boot ≠ zeroIdentity →
    (now : ℕ) < Counter.last → request ≠ zeroIdentity → request ≠ s.lastRequest →
    (Relaxes a s boot now request ↔
      TwoDomains a ∧ (s.trustEpoch : ℕ) < Counter.last ∧ stateHash s ≠ zeroDigest)

structure NeverLockedOut (a : Authority) (calls : List Call) : Prop where
  releasable : ∀ s, (life a calls).2 = some s → (s.revision : ℕ) < Counter.last →
    s.current ≠ .running → Releasable a s

/-- **Who can release the latch.** Whatever has been decided before, and by whom, the full
authority can relax a latch that is not already open exactly when its keys are of two
domains, the trust epoch can still grow, and the state's digest is not the zero digest. -/
theorem never_locked_out (a : Authority) (calls : List Call) : NeverLockedOut a calls := by
  refine ⟨fun s hs hr hm boot now request hb hn hid hfresh => ⟨?_, ?_⟩⟩
  · exact relaxes_needs
  · rintro ⟨hd, he, hz⟩
    have hg := (ledger_life a calls).governs s hs
    refine ⟨release a s boot now request, _, rfl,
      release_accepted hg hr hb hn hid hfresh hd he hz, ?_⟩
    show 0 < s.current.pos
    rcases hc : s.current with _ | _ | _
    · exact absurd hc hm
    · decide
    · decide

/-! ### Two authorities that are locked out -/

/-- An operator and a security officer, of the domains `1` and `d`. -/
def twoKeys (d : Fin 65536) : Authority where
  scope := Block.fill 16 1
  contract := Block.fill 32 2
  serial := 1
  keys :=
    [⟨Block.fill 32 11, Block.fill 16 21, 1, .operations⟩,
      ⟨Block.fill 32 12, Block.fill 16 22, d, .security⟩]
  count_le := two_keys _ _
  tighten_range := tighten_one
  resume_range := resume_two

/-- A proposal to quarantine, signed by `verified`. -/
def quarantine (authorityDigest expectedState : Digest) (revision epoch : Counter)
    (request : Identity) (verified : VerifiedSet) : Call where
  proposal :=
    { scope := Block.fill 16 1, bootId := Block.fill 16 9, requestId := request
      contract := Block.fill 32 2
      authorityDigest := authorityDigest, expectedState := expectedState, reason := Block.fill 32 4
      expectedRevision := revision, newTrustEpoch := epoch, notBefore := 100, expires := 10000 }
  verified := verified
  boot := Block.fill 16 9
  now := 200

/-- The first proposal of `twoKeys d`, signed by both. -/
def firstProposal (authorityDigest : Digest) : Call :=
  quarantine authorityDigest zeroDigest 0 1 (Block.fill 16 3) {0, 1}

/-- The first state of `twoKeys d`. -/
def quarantinedState (authorityDigest : Digest) : State where
  scope := Block.fill 16 1
  contract := Block.fill 32 2
  authorityDigest := authorityDigest
  revision := 1
  trustEpoch := 1
  incident := Block.fill 16 3
  lastRequest := Block.fill 16 3
  reason := Block.fill 32 4

lemma genesis_accepted {d : Fin 65536} {h : Digest} (hv : (twoKeys d).Valid)
    (ha : authorityHash (twoKeys d) = h) (hz : h ≠ zeroDigest) :
    Accepts (twoKeys d) none (firstProposal h) (quarantinedState h) := by
  refine ⟨⟨hv, ha ▸ hz, rfl, rfl, ha.symm, ?_, rfl, ?_, ?_, ?_, ?_, ?_, ?_, ?_, ?_⟩,
    fun _ => ⟨rfl, rfl, rfl, rfl⟩, by simp, ?_, ?_, by simp, ?_⟩
  · exact (by decide : Block.fill 16 9 ≠ zeroIdentity)
  · exact (by decide : Block.fill 16 3 ≠ zeroIdentity)
  · exact (by decide : Block.fill 32 4 ≠ zeroDigest)
  · exact (by decide : (100 : ℕ) ≤ 200)
  · exact (by decide : (200 : ℕ) < 10000)
  · exact (by decide : (100 : ℕ) < 10000)
  · exact (by decide : (10000 : ℕ) - 100 ≤ 300000)
  · exact (by decide : 0 ≠ Counter.last)
  · exact (by decide : (1 : ℕ) ≠ 0)
  · show ∀ i ∈ ({0, 1} : VerifiedSet), (i : ℕ) < 2
    decide
  · show 1 ≤ ({0, 1} : VerifiedSet).card
    decide
  · rw [ha]
    rfl

def sameDomainDigest : Digest := Block.ofBytes 32
  (be 32 48476369904024471537661581053617742057008665992964571707723800714079915867778)
def otherDomainDigest : Digest := Block.ofBytes 32
  (be 32 53849256373738802289942715524568732796873956198520162261655921300221731060222)

/-- The second proposal of `twoKeys 2`: the operator alone uses up the trust epochs. -/
def lastEpoch : Call := quarantine otherDomainDigest
  (stateHash (quarantinedState otherDomainDigest)) 1 (Counter.ofNat Counter.last) (Block.fill 16 5)
  {0}

def lastEpochState : State :=
  lastEpoch.proposal.after (twoKeys 2) otherDomainDigest
    (stateHash (quarantinedState otherDomainDigest))

lemma sameDomainDigest_ne : sameDomainDigest ≠ zeroDigest := by decide

lemma otherDomainDigest_ne : otherDomainDigest ≠ zeroDigest := by decide

lemma hash_sameDomain : authorityHash (twoKeys 1) = sameDomainDigest := by decide +kernel

lemma hash_otherDomain : authorityHash (twoKeys 2) = otherDomainDigest := by decide +kernel

lemma hash_quarantinedState : stateHash (quarantinedState otherDomainDigest) ≠ zeroDigest := by
  decide +kernel

lemma lastEpoch_accepted : Accepts (twoKeys 2) (some (quarantinedState otherDomainDigest))
    lastEpoch lastEpochState := by
  have hg := after_governs (genesis_accepted (by decide) hash_otherDomain otherDomainDigest_ne)
  refine ⟨⟨hg.authority, hg.hash, rfl, rfl, hash_otherDomain.symm, ?_, rfl, ?_, ?_, ?_, ?_, ?_,
    ?_, ?_, ?_⟩, by simp, fun _ => ⟨hg.valid, rfl, rfl, hash_otherDomain.symm,
    hash_quarantinedState, rfl, rfl, ?_, ?_⟩, ?_, ?_, fun _ hlt => ?_, ?_⟩
  · exact (by decide : Block.fill 16 9 ≠ zeroIdentity)
  · exact (by decide : Block.fill 16 5 ≠ zeroIdentity)
  · exact (by decide : Block.fill 32 4 ≠ zeroDigest)
  · exact (by decide : (100 : ℕ) ≤ 200)
  · exact (by decide : (200 : ℕ) < 10000)
  · exact (by decide : (100 : ℕ) < 10000)
  · exact (by decide : (10000 : ℕ) - 100 ≤ 300000)
  · exact (by decide : 1 ≠ Counter.last)
  · exact (by decide : (Counter.ofNat Counter.last : ℕ) ≠ 0)
  · exact (by decide : (1 : ℕ) ≤ Counter.ofNat Counter.last)
  · exact (by decide : Block.fill 16 5 ≠ Block.fill 16 3)
  · show ∀ i ∈ ({0} : VerifiedSet), (i : ℕ) < 2
    decide
  · show 1 ≤ ({0} : VerifiedSet).card
    decide
  · exact absurd hlt (by decide : ¬ Mode.quarantined.pos < Mode.quarantined.pos)
  · rw [hash_otherDomain]
    rfl

/-- **Two ways to be locked out.** An authority of one domain can relax nothing, and an
operator alone can take the trust epoch to its end. -/
theorem locked_out :
    ((twoKeys 1).Valid
      ∧ ∃ s, (life (twoKeys 1) [firstProposal sameDomainDigest]).2 = some s
        ∧ (s.revision : ℕ) < Counter.last ∧ s.current ≠ .running
        ∧ ∀ boot now request, ¬ Relaxes (twoKeys 1) s boot now request)
      ∧ (twoKeys 2).Valid ∧ Weak (twoKeys 2) lastEpoch.verified
      ∧ ∃ s, (life (twoKeys 2) [firstProposal otherDomainDigest, lastEpoch]).2 = some s
        ∧ (s.revision : ℕ) < Counter.last ∧ s.current ≠ .running
        ∧ ∀ boot now request, ¬ Relaxes (twoKeys 2) s boot now request := by
  have hc1 := call_accepts (genesis_accepted (by decide) hash_sameDomain sameDomainDigest_ne)
  have hc2 := call_accepts (genesis_accepted (by decide) hash_otherDomain otherDomainDigest_ne)
  have hc3 := call_accepts lastEpoch_accepted
  refine ⟨⟨by decide, quarantinedState sameDomainDigest, ?_, by decide, by decide, ?_⟩,
    by decide, .inr (.inl (by decide)), lastEpochState, ?_, by decide, by decide, ?_⟩
  · simp only [life, exec, List.foldl_cons, List.foldl_nil, hc1]
  · rintro boot now request h
    obtain ⟨i, hi, j, hj, hne⟩ := (relaxes_needs h).1
    revert i j
    decide
  · simp only [life, exec, List.foldl_cons, List.foldl_nil, hc2, hc3]
  · intro boot now request h
    have := (relaxes_needs h).2.1
    revert this
    decide

end NiayanAssurance.ControlRuns
