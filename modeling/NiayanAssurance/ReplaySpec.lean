import NiayanAssurance.RequestReplay

/-!
What a receiver's ledger says, read off its records without a fold: the requests admitted, the
newest of them, and how it ended.
-/

namespace NiayanAssurance.ReplaySpec

open NiayanAssurance.Lib NiayanAssurance.Types NiayanAssurance.LogFormat
open NiayanAssurance.Replay NiayanAssurance.RequestReplay

/-- The admissions of a ledger, oldest first. -/
def admissions (es : List Entry) : List Entry := es.filter fun e => decide (e.kind = begun)

def newest (es : List Entry) : Option Entry := (admissions es).getLast?

/-- The outcome of the newest request is not known. -/
def unsettled (es : List Entry) : Bool :=
  match es.getLast? with
  | none => false
  | some e => decide (e.kind = begun ∨ e.kind = unknownOutcome)

/-- A record that ends a request for good. -/
def Known (e : Entry) : Prop := e.kind = knownOk ∨ e.kind = knownFailure

/-- The policy serial of the last record. -/
def serialOf (es : List Entry) : Counter := (es.getLast?.map fun e => e.generation).getD 0

def resultOf (es : List Entry) : Outcome :=
  match es.getLast? with
  | none => .indeterminate
  | some e => if e.kind = begun then .indeterminate else e.result

section Lists

variable {es : List Entry} {e : Entry}

@[simp] lemma admissions_nil : admissions [] = [] := rfl

lemma admissions_append (es es' : List Entry) :
    admissions (es ++ es') = admissions es ++ admissions es' := by simp [admissions]

lemma admissions_begun (h : e.kind = begun) : admissions (es ++ [e]) = admissions es ++ [e] := by
  simp [admissions, h]

lemma admissions_other (h : e.kind ≠ begun) : admissions (es ++ [e]) = admissions es := by
  simp [admissions, h]

lemma mem_admissions : e ∈ admissions es ↔ e ∈ es ∧ e.kind = begun := by simp [admissions]

lemma newest_begun (h : e.kind = begun) : newest (es ++ [e]) = some e := by
  rw [newest, admissions_begun h, List.getLast?_concat]

lemma newest_other (h : e.kind ≠ begun) : newest (es ++ [e]) = newest es := by
  rw [newest, admissions_other h, newest]

lemma newest_mem (h : newest es = some e) : e ∈ admissions es := List.mem_of_getLast? h

@[simp] lemma unsettled_snoc :
    unsettled (es ++ [e]) = decide (e.kind = begun ∨ e.kind = unknownOutcome) := by
  simp [unsettled]

@[simp] lemma serialOf_snoc : serialOf (es ++ [e]) = e.generation := by simp [serialOf]

@[simp] lemma resultOf_snoc :
    resultOf (es ++ [e]) = if e.kind = begun then .indeterminate else e.result := by
  simp [resultOf]

end Lists

/-! ### The fold finds it -/

/-- The state `s` is what the records `es` say. -/
structure Tells (es : List Entry) (s : State) : Prop where
  count : (s.count : ℕ) = es.length
  rootId : ∀ e ∈ es, e.rootId = s.rootId
  window : s.window = ((newest es).map windowOf).getD {}
  idle : s.window.requestId = zeroIdentity → admissions es = []
  admitted : s.pending = true → ∃ b, newest es = some b
  pending : s.pending = unsettled es
  serial : s.serial = serialOf es
  lastResult : s.lastResult = resultOf es
  /-- Every request is newer than all before it. -/
  ordered : (admissions es).Pairwise fun a b => (windowOf a).Before (windowOf b)
  /-- Every record but the first of all belongs to a request. -/
  owned : ∀ e ∈ es, e.kind ≠ genesis → ∃ b ∈ admissions es, windowOf b = windowOf e
  /-- The newest request is ended only by the last record. -/
  ended : ∀ e ∈ es, Known e → windowOf e = s.window → es.getLast? = some e ∧ s.pending = false
  /-- When nothing is pending, the last record has ended the newest request. -/
  closed : s.pending = false → ∀ b, newest es = some b →
    ∃ e, es.getLast? = some e ∧ Known e ∧ windowOf e = windowOf b

lemma tells_nil : Tells [] {} where
  count := rfl
  rootId := by simp
  window := rfl
  idle _ := rfl
  admitted := by simp
  pending := rfl
  serial := rfl
  lastResult := rfl
  ordered := by simp
  owned := by simp
  ended := by simp
  closed := by simp [newest]

section Step

variable {es : List Entry} {s s' : State} {e : Entry}

/-- Every request but the newest is older than the window. -/
lemma Tells.before_window (h : Tells es s) {b : Entry} (hb : b ∈ admissions es)
    (hn : newest es ≠ some b) : (windowOf b).Before s.window := by
  have hw := h.window
  have ho := h.ordered
  rcases hx : newest es with _ | n
  · rw [newest, List.getLast?_eq_none_iff] at hx
    rw [hx] at hb
    cases hb
  · rw [hx, Option.map_some, Option.getD_some] at hw
    obtain ⟨xs, hxs⟩ := List.getLast?_eq_some_iff.mp hx
    rw [hxs] at ho hb
    rcases List.mem_append.mp hb with hb | hb
    · exact hw ▸ (List.pairwise_append.mp ho).2.2 b hb n (by simp)
    · rw [List.mem_singleton.mp hb] at hn
      exact absurd hx hn

/-- No request is newer than the window. -/
lemma Tells.le_window (h : Tells es s) {b : Entry} (hb : b ∈ admissions es) :
    windowOf b = s.window ∨ (windowOf b).Before s.window := by
  by_cases hn : newest es = some b
  · rw [h.window, hn]
    exact .inl rfl
  · exact .inr (h.before_window hb hn)

/-- A request that may be admitted is newer than every admission. -/
lemma Tells.lt_new (h : Tells es s) {r : Window}
    (hr : s.window.requestId = zeroIdentity ∨ check s.window r = .fresh) {b : Entry}
    (hb : b ∈ admissions es) : (windowOf b).Before r := by
  rcases hr with hz | hf
  · rw [h.idle hz] at hb
    cases hb
  · rcases h.le_window hb with he | hlt
    · rw [he]
      exact check_fresh hf
    · exact hlt.trans (check_fresh hf)

lemma counted_count (hf : Follows s e) (h : (s.count : ℕ) = es.length) :
    ((s.counted e).count : ℕ) = (es ++ [e]).length := by
  rw [State.counted, Counter.val_next hf.room, h]
  simp

lemma counted_rootId (hf : Follows s e) (h : Tells es s) :
    ∀ x ∈ es ++ [e], x.rootId = (s.counted e).rootId := by
  intro x hx
  rcases List.mem_append.mp hx with hx | hx
  · have hpos : 0 < (s.count : ℕ) := by
      rw [h.count]
      exact List.length_pos_of_mem hx
    rw [h.rootId x hx, State.counted]
    exact (hf.same hpos).symm
  · rw [List.mem_singleton.mp hx]
    rfl

lemma terminal_not_begun (h : Terminal e) : e.kind ≠ begun := by
  rcases h with ⟨hk, -⟩ | ⟨hk, -⟩ | ⟨hk, -⟩ <;> rw [hk] <;> decide

lemma Known.not_begun (h : Known e) : e.kind ≠ begun := by
  rcases h with hk | hk <;> rw [hk] <;> decide

lemma Known.not_genesis (h : Known e) : e.kind ≠ genesis := by
  rcases h with hk | hk <;> rw [hk] <;> decide

lemma known_iff (h : Terminal e) : Known e ↔ e.kind ≠ unknownOutcome := by
  unfold Known
  rcases h with ⟨hk, -⟩ | ⟨hk, -⟩ | ⟨hk, -⟩ <;> rw [hk] <;> decide

/-- **The step**: what one more record says is what the fold makes of it. -/
theorem Tells.snoc (h : Tells es s) (hc : consume s e = some s') : Tells (es ++ [e]) s' := by
  obtain ⟨hf, hs⟩ := consume_cases hc
  have hcount := counted_count hf h.count
  have hroot := counted_rootId hf h
  cases hs with
  | genesis hk h0 hr =>
    have hnil : es = [] := List.length_eq_zero_iff.mp (h.count ▸ h0)
    have hnb : e.kind ≠ begun := by rw [hk]; decide
    have hnu : e.kind ≠ unknownOutcome := by rw [hk]; decide
    have hadm : admissions (es ++ [e]) = [] := by rw [admissions_other hnb, hnil, admissions_nil]
    have hnew : newest (es ++ [e]) = newest es := newest_other hnb
    have hnone : newest es = none := by rw [hnil]; rfl
    have hpend : s.pending = false := by rw [h.pending, hnil]; rfl
    refine ⟨hcount, hroot, by rw [hnew]; exact h.window, fun _ => hadm, ?_, ?_,
      by simp [State.counted], ?_, ?_, ?_, ?_, ?_⟩
    · rw [hnew]
      exact h.admitted
    · simp [hnb, hnu, State.counted, hpend]
    · simp [hnb, hr]
    · simp [hadm]
    · simp [hnil, hk]
    · intro x hx hkn
      rw [hnil, List.nil_append, List.mem_singleton] at hx
      exact absurd (hx ▸ hk) hkn.not_genesis
    · simp [hnew, hnone]
  | begun hk hi hd ho hw =>
    have hlt : ∀ b ∈ admissions es, (windowOf b).Before (windowOf e) := fun b => h.lt_new hw
    refine ⟨hcount, hroot, by simp [newest_begun hk], fun hz => absurd hz ho,
      fun _ => ⟨e, newest_begun hk⟩, by simp [hk], by simp [State.counted], by simp [hk],
      ?_, ?_, ?_, by simp⟩
    · rw [admissions_begun hk, List.pairwise_append]
      exact ⟨h.ordered, by simp, fun a ha b hb => List.mem_singleton.mp hb ▸ hlt a ha⟩
    · intro x hx hg
      rw [admissions_begun hk]
      rcases List.mem_append.mp hx with hx | hx
      · obtain ⟨b, hb, hbx⟩ := h.owned x hx hg
        exact ⟨b, by simp [hb], hbx⟩
      · exact ⟨e, by simp, by rw [List.mem_singleton.mp hx]⟩
    · -- no earlier record can be of a request that is newer than all of them
      intro x hx hkn hxw
      rcases List.mem_append.mp hx with hx | hx
      · obtain ⟨b, hb, hbx⟩ := h.owned x hx hkn.not_genesis
        have hbe := hlt b hb
        rw [hbx, hxw] at hbe
        exact absurd hbe (Window.Before.irrefl _)
      · rw [List.mem_singleton.mp hx] at hkn
        exact absurd hk hkn.not_begun
  | terminal ht hp hw =>
    have hnb := terminal_not_begun ht
    have hadm : admissions (es ++ [e]) = admissions es := admissions_other hnb
    have hnew : newest (es ++ [e]) = newest es := newest_other hnb
    refine ⟨hcount, hroot, by rw [hnew]; exact h.window, fun hz => by rw [hadm]; exact h.idle hz,
      fun _ => by rw [hnew]; exact h.admitted hp, by simp [hnb], by simp [State.counted],
      by simp [hnb], by rw [hadm]; exact h.ordered, ?_, ?_, ?_⟩
    · intro x hx hg
      rw [hadm]
      rcases List.mem_append.mp hx with hx | hx
      · exact h.owned x hx hg
      · -- a terminal record is of the request in the window
        obtain ⟨n, hn⟩ := h.admitted hp
        rw [List.mem_singleton.mp hx, hw]
        exact ⟨n, newest_mem hn, by rw [h.window, hn]; rfl⟩
    · intro x hx hkn hxw
      rcases List.mem_append.mp hx with hx | hx
      · have := (h.ended x hx hkn hxw).2
        rw [hp] at this
        cases this
      · rw [List.mem_singleton.mp hx] at hkn ⊢
        simpa using (known_iff ht).mp hkn
    · intro hnp b hb
      refine ⟨e, by simp, (known_iff ht).mpr (by simpa using hnp), ?_⟩
      rw [hnew] at hb
      rw [hw, h.window, hb]
      rfl

end Step

/-- **The fold finds what the ledger says.** -/
theorem replay_tells {es : List Entry} {s : State} (h : replay es = some s) : Tells es s := by
  induction es using List.reverseRecOn generalizing s with
  | nil =>
    cases h
    exact tells_nil
  | append_singleton es e ih =>
    rw [replay_snoc, Option.bind_eq_some_iff] at h
    obtain ⟨s₁, h1, h2⟩ := h
    exact (ih h1).snoc h2

/-- An admission names a header. -/
lemma admission_object {es : List Entry} {s : State} (h : replay es = some s) {b : Entry}
    (hb : b ∈ admissions es) : b.object ≠ zeroDigest := by
  obtain ⟨hb, hk⟩ := mem_admissions.mp hb
  obtain ⟨pre, post, rfl⟩ := List.append_of_mem hb
  obtain ⟨s₁, h1⟩ := replay_append (show replay ((pre ++ [b]) ++ post) = some s by simpa using h)
  rw [replay_snoc, Option.bind_eq_some_iff] at h1
  obtain ⟨s₀, -, h2⟩ := h1
  cases (consume_cases h2).2 with
  | genesis hg => exact absurd (hk.symm.trans hg) (by decide)
  | begun _ _ hd => exact hd
  | terminal ht => exact absurd hk (terminal_not_begun ht)

end NiayanAssurance.ReplaySpec
