import NiayanAssurance.RetryBudget
import NiayanAssurance.Lib.Run

/-!
The retry budget over whole runs, reboots included.

Had more starts than the window allows been granted with no window passed among them, then all
of them would still be counted in the state, moved along by every reboot. The clock of one boot
says nothing of another, so what has passed is always measured from the last stamp: the grant
itself, or the last reboot since.
-/

namespace NiayanAssurance.RetryBudgetRuns

open NiayanAssurance.Lib NiayanAssurance.Types NiayanAssurance.RetryBudget

inductive Call
  | reserve (boot : Identity) (now : Counter)
  | confirmStable (now : Counter)
  | rebindBoot (newBoot : Identity) (now : Counter)

/-- A call and its answer. -/
abbrev Entry := Call × Outcome

def Call.now : Call → Counter
  | reserve _ now | confirmStable now | rebindBoot _ now => now

/-- The boot that a call names. -/
def Call.boot : Call → Identity
  | reserve boot _ | rebindBoot boot _ => boot
  | confirmStable _ => zeroIdentity

def step (p : Policy) (s : State) : Call → State × Outcome
  | .reserve boot now => RetryBudget.reserve s p boot now
  | .confirmStable now => RetryBudget.confirmStable s now
  | .rebindBoot newBoot now => RetryBudget.rebindBoot s p newBoot now

/-- A start that was granted. -/
def isGrant : Entry → Bool
  | (.reserve _ _, .ok) => true
  | _ => false

/-- A move to another boot that was made. -/
def isRebind : Entry → Bool
  | (.rebindBoot _ _, .ok) => true
  | _ => false

/-- `x` is what stamped the start `g` last, `since` being what came after it: the start itself,
or the last move to another boot. -/
inductive Stamped (g : Entry) : List Entry → Entry → Prop
  | granted {since : List Entry} : (∀ y ∈ since, isRebind y = false) → Stamped g since g
  | moved {before after : List Entry} {x : Entry} : isRebind x = true →
      (∀ y ∈ after, isRebind y = false) → Stamped g (before ++ x :: after) x

/-- A whole window passed, on the clock of one boot, after the last stamp of a start of the group
and before a later start of it. -/
def WindowPassed (p : Policy) (group : List Entry) : Prop :=
  ∃ a g since g' b x, group = a ++ g :: (since ++ g' :: b)
    ∧ isGrant g = true ∧ isGrant g' = true ∧ Stamped g since x
    ∧ x.1.boot = g'.1.boot ∧ (x.1.now : ℕ) + p.windowMs ≤ g'.1.now

/-! ### Steps -/

variable {p : Policy} {s s' : State} {e : Entry}

lemma step_refused (h : Steps (step p) s e s') (he : e.2 ≠ .ok) : s' = s := by
  obtain ⟨call, outcome⟩ := e
  cases call with
  | reserve boot now =>
    have h1 := reserve_refused s p boot now
    rw [show RetryBudget.reserve s p boot now = (s', outcome) from h] at h1
    exact h1 he
  | confirmStable now =>
    have h1 := confirmStable_refused s now
    rw [show RetryBudget.confirmStable s now = (s', outcome) from h] at h1
    exact h1 he
  | rebindBoot newBoot now =>
    have h1 := rebindBoot_refused s p newBoot now
    rw [show RetryBudget.rebindBoot s p newBoot now = (s', outcome) from h] at h1
    exact h1 he

/-- What a step does: a start is granted, stability is confirmed, the state moves to another
boot, or the call is refused and nothing changes. -/
lemma step_cases (h : Steps (step p) s e s') :
    (∃ boot now, e = (.reserve boot now, .ok) ∧ Granted p s boot now s')
      ∨ (∃ now, e = (.confirmStable now, .ok) ∧ Confirmed s now s')
      ∨ (∃ boot now, e = (.rebindBoot boot now, .ok) ∧ Rebound p s boot now s')
      ∨ e.2 ≠ .ok ∧ s' = s := by
  by_cases he : e.2 = .ok
  · obtain ⟨call, outcome⟩ := e
    cases he
    cases call with
    | reserve boot now =>
      have h1 := reserve_granted s p boot now
      rw [show RetryBudget.reserve s p boot now = (s', .ok) from h] at h1
      exact .inl ⟨boot, now, rfl, h1 rfl⟩
    | confirmStable now =>
      have h1 := confirmStable_confirmed s now
      rw [show RetryBudget.confirmStable s now = (s', .ok) from h] at h1
      exact .inr (.inl ⟨now, rfl, h1 rfl⟩)
    | rebindBoot newBoot now =>
      have h1 := rebindBoot_rebound s p newBoot now
      rw [show RetryBudget.rebindBoot s p newBoot now = (s', .ok) from h] at h1
      exact .inr (.inr (.inl ⟨newBoot, now, rfl, h1 rfl⟩))
  · exact .inr (.inr (.inr ⟨he, step_refused h he⟩))

lemma isGrant_refused (he : e.2 ≠ .ok) : isGrant e = false := by
  obtain ⟨call, outcome⟩ := e
  cases call <;> cases outcome <;> first | rfl | exact absurd rfl he

lemma isRebind_refused (he : e.2 ≠ .ok) : isRebind e = false := by
  obtain ⟨call, outcome⟩ := e
  cases call <;> cases outcome <;> first | rfl | exact absurd rfl he

lemma step_valid (h : Steps (step p) s e s') (hs : s.Valid) : s'.Valid := by
  rcases step_cases h with ⟨_, _, _, h1⟩ | ⟨_, _, h1⟩ | ⟨_, _, _, h1⟩ | ⟨_, rfl⟩
  · exact h1.valid
  · exact h1.valid
  · exact h1.valid
  · exact hs

lemma step_total (h : Steps (step p) s e s') :
    (s.total : ℕ) ≤ s'.total
      ∧ ((s.total : ℕ) ≤ p.maximumTotal → (s'.total : ℕ) ≤ p.maximumTotal) := by
  rcases step_cases h with ⟨_, _, _, h1⟩ | ⟨_, _, h1⟩ | ⟨_, _, _, h1⟩ | ⟨_, rfl⟩
  · have := h1.total
    have := h1.lifetime
    omega
  · rw [h1.total]; exact ⟨le_rfl, id⟩
  · rw [h1.total]; exact ⟨le_rfl, id⟩
  · exact ⟨le_rfl, id⟩

/-- Within one boot the pause that was set is never cut short. -/
lemma step_notBefore (h : Steps (step p) s e s') (he : isRebind e = false) :
    (s.notBefore : ℕ) ≤ s'.notBefore := by
  rcases step_cases h with ⟨_, _, _, h1⟩ | ⟨_, _, h1⟩ | ⟨_, _, rfl, _⟩ | ⟨_, rfl⟩
  · have := h1.notBefore
    have := h1.rested
    omega
  · rw [h1.notBefore]
  · cases he
  · exact le_rfl

lemma step_rested (h : Steps (step p) s e s') (he : isGrant e = true) :
    (s.notBefore : ℕ) ≤ e.1.now := by
  rcases step_cases h with ⟨_, _, rfl, h1⟩ | ⟨_, rfl, _⟩ | ⟨_, _, rfl, _⟩ | ⟨h1, _⟩
  · exact h1.rested
  · cases he
  · cases he
  · rw [isGrant_refused h1] at he
    cases he

lemma run_notBefore {l : List Entry} (h : Run (Steps (step p)) s l s')
    (hl : ∀ y ∈ l, isRebind y = false) : (s.notBefore : ℕ) ≤ s'.notBefore := by
  induction h with
  | nil => exact le_rfl
  | snoc _ h1 ih =>
    simp only [List.mem_append, List.mem_singleton] at hl
    exact (ih fun y hy => hl y (.inl hy)).trans (step_notBefore h1 (hl _ (.inr rfl)))

lemma run_total {l : List Entry} (h : Run (Steps (step p)) s l s') :
    (s.total : ℕ) ≤ s'.total
      ∧ ((s.total : ℕ) ≤ p.maximumTotal → (s'.total : ℕ) ≤ p.maximumTotal) := by
  induction h with
  | nil => exact ⟨le_rfl, id⟩
  | snoc _ h1 ih =>
    exact ⟨ih.1.trans (step_total h1).1, fun h2 => (step_total h1).2 (ih.2 h2)⟩

/-! ### The starts of a group -/

/-- A start of the group was stamped last at `t`, on the clock of the boot. -/
def Owed (group : List Entry) (boot : Identity) (t : Counter) : Prop :=
  ∃ a g since x, group = a ++ g :: since ∧ isGrant g = true ∧ Stamped g since x
    ∧ x.1.boot = boot ∧ x.1.now = t

/-- Every start of the group is counted in the state. -/
def Counted (group : List Entry) (s : State) : Prop :=
  ∃ old new, s.debt = old ++ new ∧ new.length = group.countP isGrant
    ∧ ∀ t ∈ new, Owed group s.bootId t

lemma Stamped.snoc {g x e : Entry} {since : List Entry} (h : Stamped g since x)
    (he : isRebind e = false) : Stamped g (since ++ [e]) x := by
  have hsnoc : ∀ {l : List Entry}, (∀ y ∈ l, isRebind y = false) →
      ∀ y ∈ l ++ [e], isRebind y = false := by
    intro l hl y hy
    rcases List.mem_append.1 hy with hy | hy
    · exact hl y hy
    · rw [List.mem_singleton.1 hy]; exact he
  cases h with
  | granted h => exact .granted (hsnoc h)
  | moved hx h =>
    rw [List.append_assoc, List.cons_append]
    exact .moved hx (hsnoc h)

variable {group : List Entry} {boot : Identity} {t : Counter}

lemma Owed.snoc (h : Owed group boot t) (he : isRebind e = false) :
    Owed (group ++ [e]) boot t := by
  obtain ⟨a, g, since, x, rfl, hg, hx, hb, ht⟩ := h
  exact ⟨a, g, since ++ [e], x, by simp, hg, hx.snoc he, hb, ht⟩

/-- A move to another boot stamps the starts anew. -/
lemma Owed.moved (h : Owed group boot t) (he : isRebind e = true) :
    Owed (group ++ [e]) e.1.boot e.1.now := by
  obtain ⟨a, g, since, x, rfl, hg, -, -, -⟩ := h
  exact ⟨a, g, since ++ [e], e, by simp, hg, .moved he (by simp), rfl, rfl⟩

lemma Owed.granted (he : isGrant e = true) : Owed (group ++ [e]) e.1.boot e.1.now :=
  ⟨group, e, [], e, rfl, he, .granted (by simp), rfl, rfl⟩

/-- What is owed to the window falls out of it only by a window passing. -/
lemma Owed.inWindow (h : Owed group boot t) (hp : 0 < (p.windowMs : ℕ)) (he : isGrant e = true)
    (hb : e.1.boot = boot) (hw : ¬ WindowPassed p (group ++ [e])) :
    (e.1.now : ℕ) - t < p.windowMs := by
  obtain ⟨a, g, since, x, rfl, hg, hx, hxb, hxt⟩ := h
  by_contra hc
  refine hw ⟨a, g, since, e, [], x, by simp, hg, he, hx, hxb.trans hb.symm, ?_⟩
  rw [hxt]
  omega

lemma WindowPassed.append (h : WindowPassed p group) (l : List Entry) :
    WindowPassed p (group ++ l) := by
  obtain ⟨a, g, since, g', b, x, rfl, h1⟩ := h
  exact ⟨a, g, since, g', b ++ l, x, by simp, h1⟩

lemma Counted.step (h : Steps (step p) s e s') (hp : 0 < (p.windowMs : ℕ))
    (hw : ¬ WindowPassed p (group ++ [e])) (hc : Counted group s) :
    Counted (group ++ [e]) s' := by
  obtain ⟨old, new, hd, hn, ho⟩ := hc
  unfold Counted
  rw [List.countP_append]
  rcases step_cases h with ⟨b, now, rfl, h1⟩ | ⟨now, rfl, h1⟩ | ⟨b, now, rfl, h1⟩ | ⟨h1, rfl⟩
  · have hkept : RetryBudget.inWindow p now new = new :=
      List.filter_eq_self.2 fun t ht => decide_eq_true
        ((ho t ht).inWindow (e := (.reserve b now, .ok)) hp rfl h1.boot hw)
    refine ⟨RetryBudget.inWindow p now old, new ++ [now], ?_, by simp [hn, isGrant], ?_⟩
    · rw [h1.debt, hd, RetryBudget.inWindow, List.filter_append, ← RetryBudget.inWindow,
        ← RetryBudget.inWindow, hkept, List.append_assoc]
    · intro t ht
      rw [h1.bootId]
      rcases List.mem_append.1 ht with ht | ht
      · exact (ho t ht).snoc rfl
      · rw [List.mem_singleton.1 ht, ← h1.boot]
        exact .granted rfl
  · refine ⟨old, new, ?_, by simp [hn, isGrant], fun t ht => ?_⟩
    · rw [← hd, State.debt, State.debt, h1.count, h1.attempts]
    · rw [h1.bootId]
      exact (ho t ht).snoc rfl
  · have hl : (s.count : ℕ) = old.length + new.length := by
      rw [← s.length_debt, hd, List.length_append]
    refine ⟨List.replicate old.length now, List.replicate new.length now, ?_,
      by simp [hn, isGrant], fun t ht => ?_⟩
    · rw [h1.debt, hl, List.replicate_add]
    · obtain ⟨hne, rfl⟩ := List.mem_replicate.1 ht
      obtain ⟨u, hu⟩ := List.exists_mem_of_length_pos (Nat.pos_of_ne_zero hne)
      rw [h1.bootId]
      exact (ho u hu).moved rfl
  · refine ⟨old, new, hd, ?_, fun t ht => (ho t ht).snoc (isRebind_refused h1)⟩
    rw [List.countP_singleton, isGrant_refused h1, hn]
    rfl

lemma counted {l : List Entry} (h : Run (Steps (step p)) s l s') (hp : 0 < (p.windowMs : ℕ))
    (hw : ¬ WindowPassed p l) : Counted l s' := by
  induction h with
  | nil => exact ⟨s.debt, [], by simp, rfl, by simp⟩
  | snoc _ h1 ih => exact (ih fun h2 => hw (h2.append _)).step h1 hp hw

/-- Once a start was granted, no more are counted than the window allows. -/
lemma crowded {l : List Entry} (h : Run (Steps (step p)) s l s') (hl : 0 < l.countP isGrant) :
    (s'.count : ℕ) ≤ p.maximumInWindow := by
  induction h with
  | nil => simp at hl
  | @snoc l s e s' _ h1 ih =>
    rw [List.countP_append, List.countP_singleton] at hl
    rcases step_cases h1 with ⟨_, _, rfl, h2⟩ | ⟨_, rfl, h2⟩ | ⟨_, _, rfl, h2⟩ | ⟨h2, rfl⟩
    · have := h2.room
      rw [← s'.length_debt, h2.debt, List.length_append, List.length_singleton]
      omega
    · rw [h2.count]
      exact ih (by simpa [isGrant] using hl)
    · rw [h2.count]
      exact ih (by simpa [isGrant] using hl)
    · rw [isGrant_refused h2] at hl
      exact ih (by simpa using hl)

/-- One start more than the window allows is granted only when a window passed on the way. -/
lemma window_passed {l : List Entry} (h : Run (Steps (step p)) s l s') (hp : 0 < (p.windowMs : ℕ))
    (hl : p.maximumInWindow < l.countP isGrant) : WindowPassed p l := by
  by_contra hw
  obtain ⟨old, new, hd, hn, -⟩ := counted h hp hw
  have h1 := crowded h (by omega)
  rw [← s'.length_debt, hd, List.length_append] at h1
  omega

/-! ### The bounds -/

/-- What a policy promises of every run from the state `s₀`. -/
structure Bounds (p : Policy) (s₀ : State) : Prop where
  /-- The state stays valid. -/
  valid : ∀ l s, Run (Steps (step p)) s₀ l s → s.Valid
  /-- Of one start more than the window allows, one was last stamped a window before another. -/
  window : ∀ before group after s, Run (Steps (step p)) s₀ (before ++ group ++ after) s →
    p.maximumInWindow + 1 ≤ group.countP isGrant → WindowPassed p group
  /-- Two starts in one boot keep the pause set by the first. -/
  spaced : ∀ before g between g' s₁ s, Run (Steps (step p)) s₀ (before ++ [g]) s₁ →
    Run (Steps (step p)) s₁ (between ++ [g']) s → isGrant g = true → isGrant g' = true →
    (∀ e ∈ between, isRebind e = false) →
    (g.1.now : ℕ) + backoff p s₁.consecutive ≤ g'.1.now
  /-- A start after a reboot waits for the longest pause. -/
  rebooted : ∀ before r between g s, Run (Steps (step p)) s₀ (before ++ r :: between ++ [g]) s →
    isRebind r = true → isGrant g = true → (∀ e ∈ between, isRebind e = false) →
    (r.1.now : ℕ) + p.maximumBackoffMs ≤ g.1.now
  /-- The starts of a lifetime only grow in number, up to the maximum. -/
  lifetime : ∀ l l' s s', Run (Steps (step p)) s₀ l s → Run (Steps (step p)) s l' s' →
    (s.total : ℕ) ≤ s'.total ∧ (s'.total : ℕ) ≤ p.maximumTotal
  /-- Only a start that is granted takes another from the window: a confirmation leaves all of
  them, a reboot makes them as recent as can be. -/
  debt : ∀ l s e s', Run (Steps (step p)) s₀ l s → Steps (step p) s e s' → isGrant e = false →
    s'.count = s.count ∧ (isRebind e = false → s'.debt = s.debt)
      ∧ (isRebind e = true → s'.debt = List.replicate s.count s'.lastNow)
  /-- A refused call changes nothing. -/
  refused : ∀ l s e s', Run (Steps (step p)) s₀ l s → Steps (step p) s e s' → e.2 ≠ .ok → s' = s

/-- **The retry budget bounds restarts across reboots.** -/
theorem reserve_bounds {p : Policy} {s₀ : State} (hp : p.Valid) (hs : s₀.Valid)
    (ht : (s₀.total : ℕ) ≤ p.maximumTotal) : Bounds p s₀ where
  valid l s h := h.invariant hs fun _ _ _ hi h1 => step_valid h1 hi
  window before group after s h hg := by
    obtain ⟨s₂, h2, -⟩ := h.split
    obtain ⟨s₁, -, h1⟩ := h2.split
    exact window_passed h1 hp.1 hg
  spaced before g between g' s₁ s h h' hg hg' hb := by
    obtain ⟨s₀', -, h1⟩ := h.snoc_inv
    obtain ⟨s₂, h2, h3⟩ := h'.snoc_inv
    have h4 := run_notBefore h2 hb
    have h5 := step_rested h3 hg'
    rcases step_cases h1 with ⟨_, _, rfl, h6⟩ | ⟨_, rfl, _⟩ | ⟨_, _, rfl, _⟩ | ⟨h6, _⟩
    · rw [h6.notBefore] at h4
      exact h4.trans h5
    · cases hg
    · cases hg
    · rw [isGrant_refused h6] at hg
      cases hg
  rebooted before r between g s h hr hg hb := by
    obtain ⟨s₃, h3, h4⟩ := h.snoc_inv
    obtain ⟨s₁, -, h2⟩ := h3.split
    obtain ⟨s₂, h1, h2⟩ := h2.cons_inv
    have h5 := run_notBefore h2 hb
    have h6 := step_rested h4 hg
    rcases step_cases h1 with ⟨_, _, rfl, _⟩ | ⟨_, rfl, _⟩ | ⟨_, _, rfl, h7⟩ | ⟨h7, _⟩
    · cases hr
    · cases hr
    · rw [h7.notBefore] at h5
      exact h5.trans h6
    · rw [isRebind_refused h7] at hr
      cases hr
  lifetime l l' s s' h h' := by
    have h1 := run_total h
    have h2 := run_total h'
    exact ⟨h2.1, h2.2 (h1.2 ht)⟩
  debt l s e s' _ h1 hg := by
    rcases step_cases h1 with ⟨_, _, rfl, _⟩ | ⟨_, rfl, h2⟩ | ⟨_, _, rfl, h2⟩ | ⟨h2, rfl⟩
    · cases hg
    · exact ⟨h2.count, fun _ => by rw [State.debt, State.debt, h2.count, h2.attempts],
        fun h => by cases h⟩
    · exact ⟨h2.count, fun h => (by cases h), fun _ => by rw [h2.debt, h2.lastNow]⟩
    · exact ⟨rfl, fun _ => rfl, fun h => by rw [isRebind_refused h2] at h; cases h⟩
  refused l s e s' _ h1 he := step_refused h1 he

/-- The default policy from a state that has seen no start. -/
theorem reserve_bounds_default :
    ({} : Policy).Valid ∧ Bounds {} { bootId := Block.fill 16 1 } :=
  ⟨by decide, reserve_bounds (by decide) (by decide) (by decide)⟩

end NiayanAssurance.RetryBudgetRuns
