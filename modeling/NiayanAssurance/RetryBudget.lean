import NiayanAssurance.Types
import Mathlib.Data.List.GetD
import Mathlib.Data.List.Chain

/-!
The retry budget: how often an automatic recovery may be started.

Starts are held to a number in every window of time, to a growing pause after each other, to a
number in a row and to a number for life. The state outlives reboots, though the clock does
not: a reboot moves every start still counted to the present of the new clock.
-/

namespace NiayanAssurance.RetryBudget

open NiayanAssurance.Types

abbrev capacity : ℕ := 64

/-- `Natural range 0 .. bound`. -/
abbrev Natural (bound : ℕ) := Fin (bound + 1)

/-- The value `n` of the range; the sources only take values inside it. -/
def natural (bound n : ℕ) : Natural bound := if h : n < bound + 1 then ⟨n, h⟩ else 0

lemma val_natural {bound n : ℕ} (h : n ≤ bound) : (natural bound n : ℕ) = n := by
  rw [natural, dif_pos (by omega)]

/-- The times of the starts still counted, oldest first, and zeros. -/
abbrev TimeArray := Vector Counter capacity

structure Policy where
  maximumInWindow : ℕ := 3
  maximumConsecutive : ℕ := 5
  maximumTotal : ℕ := 100
  windowMs : Counter := Counter.ofNat 3600000
  initialBackoffMs : Counter := Counter.ofNat 5000
  maximumBackoffMs : Counter := Counter.ofNat 300000
  inWindow_range : 1 ≤ maximumInWindow ∧ maximumInWindow ≤ capacity := by decide
  consecutive_range : 1 ≤ maximumConsecutive ∧ maximumConsecutive ≤ capacity := by decide
  total_range : 1 ≤ maximumTotal ∧ maximumTotal ≤ 1000000 := by decide

structure State where
  bootId : Identity := zeroIdentity
  count : Natural capacity := 0
  attempts : TimeArray := Vector.replicate capacity 0
  consecutive : Natural capacity := 0
  total : Natural 1000000 := 0
  lastNow : Counter := 0
  notBefore : Counter := 0
  deriving DecidableEq

/-- `Valid` of a policy. -/
def Policy.Valid (p : Policy) : Prop :=
  0 < (p.windowMs : ℕ) ∧ (p.windowMs : ℕ) ≤ 86400000
    ∧ 0 < (p.initialBackoffMs : ℕ) ∧ (p.initialBackoffMs : ℕ) ≤ p.maximumBackoffMs
    ∧ (p.maximumBackoffMs : ℕ) ≤ p.windowMs

/-- `Valid` of a state. -/
def State.Valid (s : State) : Prop :=
  s.bootId ≠ zeroIdentity ∧ (s.count : ℕ) ≤ s.total ∧ (s.consecutive : ℕ) ≤ s.total
    ∧ ∀ i : Fin capacity,
        if (i : ℕ) < s.count then
          (s.attempts[i] : ℕ) ≤ s.lastNow
            ∧ ((i : ℕ) = 0 ∨ (s.attempts[(i : ℕ) - 1] : ℕ) ≤ s.attempts[i])
        else s.attempts[i] = 0

instance (p : Policy) : Decidable p.Valid := by unfold Policy.Valid; infer_instance

instance (s : State) : Decidable s.Valid := by unfold State.Valid; infer_instance

/-- The loop of `Backoff`: `n` doublings, stopped at the maximum. -/
def double (maximum : ℕ) : ℕ → ℕ → ℕ
  | 0, delayMs => min delayMs maximum
  | n + 1, delayMs => if delayMs > maximum / 2 then maximum else double maximum n (delayMs * 2)

def backoff (p : Policy) (consecutive : ℕ) : ℕ :=
  double p.maximumBackoffMs (min consecutive capacity - 1) p.initialBackoffMs

/-- The starts still counted. -/
def State.debt (s : State) : List Counter := s.attempts.toList.take s.count

/-- The loop of `Reserve`: how many starts are still in the window, and their times moved to the
front. -/
def compact (p : Policy) (now : Counter) (s : State) : ℕ × TimeArray :=
  s.debt.foldl
    (fun (x : ℕ × TimeArray) (attempt : Counter) =>
      if (now : ℕ) - attempt < p.windowMs then (x.1 + 1, x.2.setIfInBounds x.1 attempt) else x)
    (0, Vector.replicate capacity 0)

def reserve (s : State) (p : Policy) (boot : Identity) (now : Counter) : State × Outcome :=
  if ¬ p.Valid ∨ ¬ s.Valid then (s, .invalidInput)
  else if boot ≠ s.bootId ∨ (now : ℕ) < s.lastNow then (s, .stale)
  else if (now : ℕ) < s.notBefore then (s, .denied)
  else if p.maximumTotal ≤ s.total ∨ p.maximumConsecutive ≤ s.consecutive then (s, .exhausted)
  else
    let kept := (compact p now s).1
    let times := (compact p now s).2
    let delayMs := backoff p (s.consecutive + 1)
    if p.maximumInWindow ≤ kept then (s, .denied)
    else if Counter.last - delayMs ≤ now then (s, .exhausted)
    else
      ({ s with
          count := natural capacity (kept + 1)
          attempts := times.setIfInBounds kept now
          lastNow := now
          consecutive := natural capacity (s.consecutive + 1)
          total := natural 1000000 (s.total + 1)
          notBefore := Counter.ofNat (now + delayMs) }, .ok)

def confirmStable (s : State) (now : Counter) : State × Outcome :=
  if ¬ s.Valid then (s, .invalidInput)
  else if (now : ℕ) < s.lastNow then (s, .stale)
  else ({ s with consecutive := 0, lastNow := now }, .ok)

def rebindBoot (s : State) (p : Policy) (newBoot : Identity) (now : Counter) : State × Outcome :=
  if ¬ p.Valid ∨ ¬ s.Valid ∨ newBoot = zeroIdentity ∨ newBoot = s.bootId then (s, .invalidInput)
  else if Counter.last - p.maximumBackoffMs ≤ now then (s, .exhausted)
  else
    ({ s with
        bootId := newBoot
        lastNow := now
        attempts := Vector.ofFn fun i => if (i : ℕ) < s.count then now else s.attempts[i]
        notBefore := Counter.ofNat (now + p.maximumBackoffMs) }, .ok)

/-! ### The pause after a start -/

/-! ### The array and the starts it holds -/

/-- The array that holds the given times. -/
def hold (times : List Counter) : TimeArray := Vector.ofFn fun i => times.getD i 0

lemma hold_nil : hold [] = Vector.replicate capacity 0 := by
  ext i hi
  simp [hold]

lemma hold_set (times : List Counter) (a : Counter) :
    (hold times).setIfInBounds times.length a = hold (times ++ [a]) := by
  apply Vector.ext
  intro i hi
  rw [Vector.getElem_setIfInBounds]
  simp only [hold, Vector.getElem_ofFn]
  rcases Nat.lt_trichotomy i times.length with h1 | rfl | h1
  · rw [if_neg (by omega), List.getD_append _ _ _ _ h1]
  · rw [if_pos rfl, List.getD_append_right _ _ _ _ le_rfl]
    simp
  · rw [if_neg (by omega), List.getD_eq_default _ _ (by omega),
      List.getD_eq_default _ _ (by simp; omega)]

lemma take_hold {times : List Counter} (h : times.length ≤ capacity) :
    (hold times).toList.take times.length = times := by
  apply List.ext_getElem
  · simp [hold, h]
  · intro i h1 h2
    simp [hold, h2]

lemma State.length_debt (s : State) : s.debt.length = s.count := by
  have := s.count.isLt
  simp [State.debt]
  omega

/-- A state is valid when its array holds the starts counted, in order and none after the last
time seen, and nothing else. -/
lemma State.valid_iff (s : State) :
    s.Valid ↔ s.bootId ≠ zeroIdentity ∧ (s.count : ℕ) ≤ s.total ∧ (s.consecutive : ℕ) ≤ s.total
      ∧ s.attempts = hold s.debt ∧ s.debt.Pairwise (fun a b : Counter => (a : ℕ) ≤ b)
      ∧ ∀ a ∈ s.debt, (a : ℕ) ≤ s.lastNow := by
  have hl := s.length_debt
  have hc := s.count.isLt
  have hget : ∀ i (h : i < s.debt.length) (h' : i < capacity), s.debt[i] = s.attempts[i] := by
    intro i h h'
    simp [State.debt]
  unfold State.Valid
  refine and_congr_right fun _ => and_congr_right fun _ => and_congr_right fun _ => ?_
  constructor
  · intro h
    refine ⟨?_, ?_, ?_⟩
    · apply Vector.ext
      intro i hi
      simp only [hold, Vector.getElem_ofFn]
      by_cases h1 : i < s.debt.length
      · rw [List.getD_eq_getElem _ _ h1, hget i h1 hi]
      · rw [List.getD_eq_default _ _ (by omega)]
        have := h ⟨i, hi⟩
        rwa [if_neg (by simp; omega)] at this
    · rw [← List.isChain_iff_pairwise, List.isChain_iff_getElem]
      intro i hi
      have := h ⟨i + 1, by omega⟩
      rw [if_pos (by simp; omega)] at this
      rw [hget i (by omega) (by omega), hget (i + 1) hi (by omega)]
      simpa using this.2
    · intro a ha
      obtain ⟨i, hi, rfl⟩ := List.mem_iff_getElem.1 ha
      have := h ⟨i, by omega⟩
      rw [if_pos (by simp; omega)] at this
      rw [hget i hi (by omega)]
      exact this.1
  · rintro ⟨h1, h2, h3⟩ ⟨i, hi⟩
    split_ifs with h
    · have hi' : i < s.debt.length := by simpa [hl] using h
      refine ⟨?_, ?_⟩
      · have := h3 _ (List.getElem_mem hi')
        rwa [hget i hi' hi] at this
      · rcases Nat.eq_zero_or_pos i with h0 | h0
        · exact .inl h0
        · have := List.pairwise_iff_getElem.1 h2 (i - 1) i (by omega) hi' (by omega)
          rw [hget i hi' hi, hget (i - 1) (by omega) (by omega)] at this
          exact .inr this
    · have hi' : s.debt.length ≤ i := by simpa [hl] using h
      have h4 := congrArg (fun times : TimeArray => times[i]) h1
      simp only [hold, Vector.getElem_ofFn, List.getD_eq_default _ _ hi'] at h4
      exact h4

/-- The starts that are still in the window at `now`. -/
def inWindow (p : Policy) (now : Counter) (times : List Counter) : List Counter :=
  times.filter fun a => (now : ℕ) - a < p.windowMs

lemma compact_eq (p : Policy) (now : Counter) (s : State) :
    compact p now s = ((inWindow p now s.debt).length, hold (inWindow p now s.debt)) := by
  have hfold : ∀ xs done : List Counter, done.length + xs.length ≤ capacity →
      xs.foldl (fun (x : ℕ × TimeArray) (attempt : Counter) =>
        if (now : ℕ) - attempt < p.windowMs then
          (x.1 + 1, x.2.setIfInBounds x.1 attempt) else x) (done.length, hold done) =
      ((done ++ inWindow p now xs).length, hold (done ++ inWindow p now xs)) := by
    intro xs
    induction xs with
    | nil => intro done _; simp [inWindow]
    | cons a xs ih =>
      intro done hd
      simp only [List.length_cons] at hd
      rw [List.foldl_cons]
      by_cases ha : (now : ℕ) - a < p.windowMs
      · have hw : inWindow p now (a :: xs) = a :: inWindow p now xs := by simp [inWindow, ha]
        have := ih (done ++ [a]) (by simp; omega)
        rw [List.length_append, List.length_singleton] at this
        simp only [if_pos ha, hold_set, this, hw,
          List.append_assoc, List.singleton_append]
      · have hw : inWindow p now (a :: xs) = inWindow p now xs := by simp [inWindow, ha]
        rw [if_neg ha, ih done (by omega), hw]
  have hl := s.length_debt
  have hc := s.count.isLt
  have := hfold s.debt [] (by simp; omega)
  rw [hold_nil] at this
  simpa [compact] using this

lemma debt_hold {s : State} {times : List Counter} (h : (s.count : ℕ) = times.length)
    (ha : s.attempts = hold times) : s.debt = times := by
  rw [State.debt, ha, h]
  exact take_hold (by have := s.count.isLt; omega)

/-! ### What each call does -/

/-- What is known when a start is granted. -/
structure Granted (p : Policy) (s : State) (boot : Identity) (now : Counter) (s' : State) :
    Prop where
  policy : p.Valid
  state : s.Valid
  boot : boot = s.bootId
  since : (s.lastNow : ℕ) ≤ now
  rested : (s.notBefore : ℕ) ≤ now
  bootId : s'.bootId = s.bootId
  room : (inWindow p now s.debt).length < p.maximumInWindow
  debt : s'.debt = inWindow p now s.debt ++ [now]
  total : (s'.total : ℕ) = s.total + 1
  lifetime : (s.total : ℕ) < p.maximumTotal
  consecutive : (s'.consecutive : ℕ) = s.consecutive + 1
  lastNow : s'.lastNow = now
  notBefore : (s'.notBefore : ℕ) = now + backoff p s'.consecutive
  valid : s'.Valid

lemma reserve_refused (s : State) (p : Policy) (boot : Identity) (now : Counter)
    (h : (reserve s p boot now).2 ≠ .ok) : (reserve s p boot now).1 = s := by
  simp only [reserve] at *
  split_ifs at h ⊢ <;> first | rfl | exact absurd rfl h

lemma length_inWindow_le (p : Policy) (now : Counter) (times : List Counter) :
    (inWindow p now times).length ≤ times.length := List.length_filter_le _ _

lemma reserve_granted (s : State) (p : Policy) (boot : Identity) (now : Counter)
    (h : (reserve s p boot now).2 = .ok) : Granted p s boot now (reserve s p boot now).1 := by
  unfold reserve at *
  simp only [compact_eq] at *
  split_ifs at h ⊢ with h1 h2 h3 h4 h5 h6
  push Not at h1 h2 h3 h4 h5 h6
  obtain ⟨hb, hct, hcc, -, hsorted, hle⟩ := s.valid_iff.1 h1.2
  have hroom := p.inWindow_range
  have hrow := p.consecutive_range
  have hlife := p.total_range
  have hdebt := length_inWindow_le p now s.debt
  rw [s.length_debt] at hdebt
  have hcount : (natural capacity ((inWindow p now s.debt).length + 1) : ℕ)
      = (inWindow p now s.debt).length + 1 := val_natural (by omega)
  have hcons : (natural capacity (s.consecutive + 1) : ℕ) = s.consecutive + 1 :=
    val_natural (by omega)
  have htotal : (natural 1000000 (s.total + 1) : ℕ) = s.total + 1 := val_natural (by omega)
  have hbefore : (Counter.ofNat (now + backoff p (s.consecutive + 1)) : ℕ)
      = now + backoff p (s.consecutive + 1) := Counter.val_ofNat (by omega)
  set s' : State := { s with
    count := natural capacity ((inWindow p now s.debt).length + 1)
    attempts := (hold (inWindow p now s.debt)).setIfInBounds (inWindow p now s.debt).length now
    lastNow := now
    consecutive := natural capacity (s.consecutive + 1)
    total := natural 1000000 (s.total + 1)
    notBefore := Counter.ofNat (now + backoff p (s.consecutive + 1)) } with hs'
  have hd : s'.debt = inWindow p now s.debt ++ [now] :=
    debt_hold (by simpa [hs'] using hcount) (hold_set _ _)
  refine ⟨h1.1, h1.2, h2.1, h2.2, h3, rfl, h5, hd, htotal, h4.1, hcons, rfl, ?_, ?_⟩
  · rw [hs', hcons]
    exact hbefore
  · rw [State.valid_iff, hd]
    refine ⟨hb, ?_, ?_, hold_set _ _, ?_, ?_⟩
    · rw [hs', hcount, htotal]; omega
    · rw [hs', hcons, htotal]; omega
    · rw [List.pairwise_append]
      refine ⟨hsorted.filter _, List.pairwise_singleton _ _, fun a ha b hb => ?_⟩
      rw [List.mem_singleton.1 hb]
      exact (hle a (List.mem_of_mem_filter ha)).trans h2.2
    · intro a ha
      rcases List.mem_append.1 ha with ha | ha
      · exact (hle a (List.mem_of_mem_filter ha)).trans h2.2
      · rw [List.mem_singleton.1 ha]

/-- What is known when a start is confirmed to have been stable. -/
structure Confirmed (s : State) (now : Counter) (s' : State) : Prop where
  since : (s.lastNow : ℕ) ≤ now
  bootId : s'.bootId = s.bootId
  count : s'.count = s.count
  attempts : s'.attempts = s.attempts
  total : s'.total = s.total
  lastNow : s'.lastNow = now
  notBefore : s'.notBefore = s.notBefore
  valid : s'.Valid

lemma confirmStable_refused (s : State) (now : Counter) (h : (confirmStable s now).2 ≠ .ok) :
    (confirmStable s now).1 = s := by
  unfold confirmStable at *
  split_ifs at h ⊢ <;> first | rfl | exact absurd rfl h

lemma confirmStable_confirmed (s : State) (now : Counter) (h : (confirmStable s now).2 = .ok) :
    Confirmed s now (confirmStable s now).1 := by
  unfold confirmStable at *
  split_ifs at h ⊢ with h1 h2
  rw [not_lt] at h2
  refine ⟨h2, rfl, rfl, rfl, rfl, rfl, rfl, ?_⟩
  obtain ⟨hb, hct, -, ha, hsorted, hle⟩ := s.valid_iff.1 h1
  exact (State.valid_iff _).2
    ⟨hb, hct, Nat.zero_le _, ha, hsorted, fun a ha => (hle a ha).trans h2⟩

/-- What is known when the state was moved to another boot. -/
structure Rebound (p : Policy) (s : State) (boot : Identity) (now : Counter) (s' : State) :
    Prop where
  bootId : s'.bootId = boot
  count : s'.count = s.count
  debt : s'.debt = List.replicate s.count now
  total : s'.total = s.total
  lastNow : s'.lastNow = now
  notBefore : (s'.notBefore : ℕ) = now + p.maximumBackoffMs
  valid : s'.Valid

lemma rebindBoot_refused (s : State) (p : Policy) (newBoot : Identity) (now : Counter)
    (h : (rebindBoot s p newBoot now).2 ≠ .ok) : (rebindBoot s p newBoot now).1 = s := by
  unfold rebindBoot at *
  split_ifs at h ⊢ <;> first | rfl | exact absurd rfl h

lemma rebindBoot_rebound (s : State) (p : Policy) (newBoot : Identity) (now : Counter)
    (h : (rebindBoot s p newBoot now).2 = .ok) :
    Rebound p s newBoot now (rebindBoot s p newBoot now).1 := by
  unfold rebindBoot at *
  split_ifs at h ⊢ with h1 h2
  push Not at h1 h2
  obtain ⟨-, hct, hcc, ha, -, -⟩ := s.valid_iff.1 h1.2.1
  have hold_eq : (Vector.ofFn fun i : Fin capacity =>
      if (i : ℕ) < s.count then now else s.attempts[i]) = hold (List.replicate s.count now) := by
    apply Vector.ext
    intro i hi
    have h3 := congrArg (fun times : TimeArray => times[i]) ha
    simp only [hold, Vector.getElem_ofFn, Fin.getElem_fin] at h3 ⊢
    split_ifs with h
    · rw [List.getD_eq_getElem _ _ (by simpa using h), List.getElem_replicate]
    · rw [List.getD_eq_default _ _ (by simpa using h), h3,
        List.getD_eq_default _ _ (by rw [s.length_debt]; omega)]
  set s' : State := { s with
    bootId := newBoot
    lastNow := now
    attempts := Vector.ofFn fun i => if (i : ℕ) < s.count then now else s.attempts[i]
    notBefore := Counter.ofNat (now + p.maximumBackoffMs) } with hs'
  have hd : s'.debt = List.replicate s.count now := debt_hold (by simp [hs']) hold_eq
  refine ⟨rfl, rfl, hd, rfl, rfl, Counter.val_ofNat (by omega), ?_⟩
  rw [State.valid_iff, hd]
  exact ⟨h1.2.2.1, hct, hcc, hold_eq, by simp, fun a ha => by rw [List.eq_of_mem_replicate ha]⟩

end NiayanAssurance.RetryBudget
