import NiayanAssurance.Replay
import NiayanAssurance.Lib.Run

/-!
The replay window over whole histories of requests.

What the window holds is the last request that was fresh, so the fresh requests of a history
form a chain in which each is the next one after its predecessor.
-/

namespace NiayanAssurance.ReplayRuns

open NiayanAssurance.Lib NiayanAssurance.Types NiayanAssurance.Replay

/-- What makes a request the only one of its kind. -/
abbrev Window.key (r : Window) : Counter × Counter × Counter :=
  (r.epoch, r.token, r.sequenceNumber)

/-- The requests of a history that were fresh, oldest first. -/
def freshRequests (l : List (Window × Decision)) : List Window :=
  (l.filter fun x => x.2 = .fresh).map Prod.fst

/-- The numbers of the fresh requests under one epoch and one token. -/
def numbers (epoch token : Counter) (l : List (Window × Decision)) : List ℕ :=
  ((freshRequests l).filter fun r => r.epoch = epoch ∧ r.token = token).map
    fun r => (r.sequenceNumber : ℕ)

@[simp] lemma freshRequests_nil : freshRequests [] = [] := rfl

lemma freshRequests_append (l l' : List (Window × Decision)) :
    freshRequests (l ++ l') = freshRequests l ++ freshRequests l' := by
  simp [freshRequests]

lemma freshRequests_fresh (r : Window) : freshRequests [(r, .fresh)] = [r] := rfl

lemma freshRequests_other {r : Window} {d : Decision} (h : d ≠ .fresh) :
    freshRequests [(r, d)] = [] := by
  simp [freshRequests, h]

lemma numbers_snoc_fresh (epoch token : Counter) (l : List (Window × Decision)) (r : Window) :
    numbers epoch token (l ++ [(r, .fresh)]) =
      numbers epoch token l ++
        if r.epoch = epoch ∧ r.token = token then [(r.sequenceNumber : ℕ)] else [] := by
  rw [numbers, freshRequests_append, freshRequests_fresh, List.filter_append, List.map_append]
  congr 1
  split_ifs with h <;> simp [h]

lemma numbers_snoc_other (epoch token : Counter) (l : List (Window × Decision)) (r : Window)
    {d : Decision} (h : d ≠ .fresh) :
    numbers epoch token (l ++ [(r, d)]) = numbers epoch token l := by
  rw [numbers, freshRequests_append, freshRequests_other h, List.append_nil, numbers]

/-- What holds of every history: the window is the last fresh request, every fresh request
precedes it or is it, a retry is of the last one, and under each epoch and token the numbers
count up from 1; under those of the window they end at its own. -/
structure Inv (l : List (Window × Decision)) (state : Window) : Prop where
  newest : state = (freshRequests l).getLast?.getD {}
  ordered : (freshRequests l).Pairwise Window.Before
  latest : ∀ r ∈ freshRequests l, r = state ∨ r.Before state
  retried : ∀ l₁ r l₂, l = l₁ ++ (r, .exactRetry) :: l₂ → (freshRequests l₁).getLast? = some r
  counted : ∀ epoch token, numbers epoch token l = List.range' 1 (numbers epoch token l).length
  current : (numbers state.epoch state.token l).length = (state.sequenceNumber : ℕ)

lemma Inv.nil : Inv [] {} := by
  refine ⟨rfl, .nil, by simp, by simp, fun _ _ => rfl, rfl⟩

/-- No number is taken yet under the epoch and token of a request that changes either. -/
lemma Inv.none_taken {l : List (Window × Decision)} {state r : Window} (hI : Inv l state)
    (hb : state.Before r) (hne : ¬ (r.epoch = state.epoch ∧ r.token = state.token)) :
    numbers r.epoch r.token l = [] := by
  rw [numbers, List.map_eq_nil_iff, List.filter_eq_nil_iff]
  intro x hx hc
  obtain ⟨h1, h2⟩ := of_decide_eq_true hc
  have h3 := congrArg Fin.val h1
  have h4 := congrArg Fin.val h2
  have hne' : ¬ ((r.epoch : ℕ) = state.epoch ∧ (r.token : ℕ) = state.token) :=
    fun h => hne ⟨Fin.ext h.1, Fin.ext h.2⟩
  rcases hI.latest x hx with rfl | hx
  · exact hne ⟨h1.symm, h2.symm⟩
  · unfold Window.Before at hx hb
    omega

/-- A retry is of the window, and the window is the last fresh request. -/
lemma Inv.exactRetry {l : List (Window × Decision)} {state r : Window} (hI : Inv l state)
    (h : check state r = .exactRetry) : (freshRequests l).getLast? = some r := by
  have hr := check_exactRetry h
  have hf := check_filled (by rw [h]; simp)
  have hn := hI.newest
  rw [← hr] at hn
  cases hl : (freshRequests l).getLast? with
  | some x => rw [hn, hl]; rfl
  | none =>
    rw [hl] at hn
    have := hf.epoch
    rw [hn] at this
    cases this

lemma Inv.retried_snoc {l : List (Window × Decision)} {state r : Window} (hI : Inv l state) :
    ∀ l₁ x l₂, l ++ [(r, check state r)] = l₁ ++ (x, Decision.exactRetry) :: l₂ →
      (freshRequests l₁).getLast? = some x := by
  intro l₁ x l₂ h
  cases l₂ using List.reverseRecOn with
  | nil =>
    obtain ⟨rfl, h1⟩ := List.append_inj' h rfl
    simp only [List.cons.injEq, Prod.mk.injEq, and_true] at h1
    obtain ⟨rfl, h2⟩ := h1
    exact hI.exactRetry h2
  | append_singleton l₂ y =>
    rw [← List.cons_append, ← List.append_assoc] at h
    exact hI.retried _ _ _ (List.append_inj' h rfl).1

lemma Inv.step {l : List (Window × Decision)} {state r : Window} (hI : Inv l state) :
    Inv (l ++ [(r, (recordRequest state r).2)]) (recordRequest state r).1 := by
  by_cases hd : check state r = .fresh
  · have h1 : recordRequest state r = (r, .fresh) := by simp [recordRequest, hd]
    have hb := check_fresh hd
    have hn := check_next hd
    rw [h1]
    have hfresh : freshRequests (l ++ [(r, .fresh)]) = freshRequests l ++ [r] := by
      rw [freshRequests_append, freshRequests_fresh]
    have hlatest : ∀ x ∈ freshRequests l, x.Before r := fun x hx =>
      (hI.latest x hx).elim (fun h => h ▸ hb) fun h => h.trans hb
    have hcount : (r.sequenceNumber : ℕ) = (numbers r.epoch r.token l).length + 1 := by
      by_cases hs : r.epoch = state.epoch ∧ r.token = state.token
      · rw [hs.1, hs.2, hI.current]
        exact hn.2.2.1 hs
      · rw [hI.none_taken hb hs]
        exact (hn.2.2.2 hs).2
    refine ⟨by rw [hfresh]; simp, ?_, ?_, hd ▸ hI.retried_snoc, ?_, ?_⟩
    · rw [hfresh, List.pairwise_append]
      exact ⟨hI.ordered, List.pairwise_singleton _ _, fun x hx y hy =>
        List.mem_singleton.1 hy ▸ hlatest x hx⟩
    · intro x hx
      rw [hfresh] at hx
      rcases List.mem_append.1 hx with hx | hx
      · exact .inr (hlatest x hx)
      · exact .inl (List.mem_singleton.1 hx)
    · intro epoch token
      rw [numbers_snoc_fresh]
      split_ifs with hs
      · obtain ⟨rfl, rfl⟩ := hs
        rw [List.length_append, List.length_singleton, List.range'_1_concat,
          ← hI.counted r.epoch r.token, hcount, Nat.add_comm 1]
      · rw [List.append_nil]
        exact hI.counted epoch token
    · rw [numbers_snoc_fresh, if_pos ⟨rfl, rfl⟩, List.length_append, List.length_singleton, hcount]
  · have h1 : recordRequest state r = (state, check state r) := by simp [recordRequest, hd]
    rw [h1]
    have hfresh : freshRequests (l ++ [(r, check state r)]) = freshRequests l := by
      rw [freshRequests_append, freshRequests_other hd, List.append_nil]
    refine ⟨?_, ?_, ?_, hI.retried_snoc, fun epoch token => ?_, ?_⟩
    · rw [hfresh]; exact hI.newest
    · rw [hfresh]; exact hI.ordered
    · rw [hfresh]; exact hI.latest
    · rw [numbers_snoc_other _ _ _ _ hd]; exact hI.counted epoch token
    · rw [numbers_snoc_other _ _ _ _ hd]; exact hI.current

lemma inv_exec (requests : List Window) :
    Inv (exec recordRequest {} requests).1 (exec recordRequest {} requests).2 := by
  induction requests using List.reverseRecOn with
  | nil => exact .nil
  | append_singleton requests r ih => rw [exec_snoc]; exact ih.step

/-! ### No request is fresh twice -/

/-- A history of the window `state` without a replay. -/
structure NoReplay (l : List (Window × Decision)) (state : Window) : Prop where
  increasing : (freshRequests l).Pairwise fun a b => (a.epoch : ℕ) ≤ b.epoch
    ∧ ((a.token : ℕ) < b.token
      ∨ (a.token : ℕ) = b.token ∧ (a.sequenceNumber : ℕ) < b.sequenceNumber)
  counted : ∀ epoch token, ∃ n, numbers epoch token l = List.range' 1 n
  once : ((freshRequests l).map Window.key).Nodup
  retried : ∀ l₁ r l₂, l = l₁ ++ (r, .exactRetry) :: l₂ → (freshRequests l₁).getLast? = some r
  newest : state = (freshRequests l).getLast?.getD {}

/-- What is not fresh leaves the window as it is; after the last number of a token, nothing
more is fresh under it. -/
structure Settled (state r : Window) : Prop where
  unchanged : (recordRequest state r).2 ≠ .fresh → (recordRequest state r).1 = state
  exhausted : (state.sequenceNumber : ℕ) = Counter.last → r.epoch = state.epoch →
    r.token = state.token → (recordRequest state r).2 ≠ .fresh

lemma settled (state r : Window) : Settled state r := by
  refine ⟨fun h => if_neg h, fun h he ht hd => ?_⟩
  have := (check_next hd).2.2.1 ⟨he, ht⟩
  have := r.sequenceNumber.le_last
  omega

lemma Inv.noReplay {l : List (Window × Decision)} {state : Window} (hI : Inv l state) :
    NoReplay l state := by
  refine ⟨hI.ordered.imp fun {a b} h => ?_, fun epoch token => ⟨_, hI.counted epoch token⟩, ?_,
    hI.retried, hI.newest⟩
  · unfold Window.Before at h
    omega
  · rw [List.nodup_iff_pairwise_ne, List.pairwise_map]
    refine hI.ordered.imp fun {a b} h he => ?_
    simp only [Window.key, Prod.mk.injEq, Fin.ext_iff] at he
    unfold Window.Before at h
    omega

/-- **No replay.** Whatever requests are put to an empty window, the fresh ones are in order and
numbered without a gap under each token, none is fresh twice, only the last is ever a retry, and
the window is always the last fresh request, changed by nothing else. -/
theorem record_never_replays (requests : List Window) :
    NoReplay (exec recordRequest {} requests).1 (exec recordRequest {} requests).2
      ∧ ∀ r, Settled (exec recordRequest {} requests).2 r :=
  ⟨(inv_exec requests).noReplay, fun r => settled _ r⟩

end NiayanAssurance.ReplayRuns
