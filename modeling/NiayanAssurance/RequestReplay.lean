import NiayanAssurance.LogFormat
import NiayanAssurance.Replay
import Mathlib.Data.List.Basic

/-!
Reading a receiver's ledger: a fold over its records that finds the request admitted last and
whether its outcome is known.
-/

namespace NiayanAssurance.RequestReplay

open NiayanAssurance.Lib NiayanAssurance.Types NiayanAssurance.LogFormat NiayanAssurance.Replay

def genesis : Fin 65536 := 199
def begun : Fin 65536 := 200
def knownOk : Fin 65536 := 201
def knownFailure : Fin 65536 := 202
def unknownOutcome : Fin 65536 := 203

structure State where
  count : Counter := 0
  rootId : Identity := zeroIdentity
  window : Window := {}
  pending : Bool := false
  serial : Counter := 0
  lastResult : Outcome := .indeterminate
  deriving DecidableEq

/-- What the window keeps of a record. -/
def windowOf (e : Entry) : Window := ⟨e.epoch, e.token, e.index, e.operationId, e.object⟩

/-- The state `s`, with `e` counted. -/
def State.counted (s : State) (e : Entry) : State :=
  { s with count := s.count.next, rootId := e.rootId, serial := e.generation }

/-- `Consume`; `none` is `Corrupt`. -/
def consume (s : State) (e : Entry) : Option State :=
  if (s.count : ℕ) = Counter.last ∨ (e.sequence : ℕ) ≠ s.count + 1 ∨ e.rootId = zeroIdentity
      ∨ (0 < (s.count : ℕ) ∧ e.rootId ≠ s.rootId) ∨ (e.generation : ℕ) < s.serial then none
  else if e.kind = genesis then
    if (s.count : ℕ) ≠ 0 ∨ (e.index : ℕ) ≠ 0 ∨ e.operationId ≠ e.rootId
        ∨ e.object = zeroDigest ∨ e.result ≠ .ok ∨ (e.epoch : ℕ) ≠ 0 ∨ (e.token : ℕ) ≠ 0 then
      none
    else some { s.counted e with lastResult := .ok }
  else if e.kind = begun then
    if (e.index : ℕ) = 0 ∨ e.object = zeroDigest ∨ e.operationId = zeroIdentity
        ∨ e.result ≠ .ok then none
    else if s.window.requestId ≠ zeroIdentity ∧ check s.window (windowOf e) ≠ .fresh then none
    else some { s.counted e with
      pending := true, lastResult := .indeterminate, window := windowOf e }
  else if e.kind = knownOk ∨ e.kind = knownFailure ∨ e.kind = unknownOutcome then
    if s.pending = false ∨ windowOf e ≠ s.window then none
    else if (e.kind = knownOk ∧ e.result ≠ .ok)
        ∨ (e.kind = knownFailure ∧ (e.result = .ok ∨ e.result = .indeterminate))
        ∨ (e.kind = unknownOutcome ∧ e.result ≠ .indeterminate) then none
    else some { s.counted e with pending := decide (e.kind = unknownOutcome),
                                 lastResult := e.result }
  else none

/-- The loop of `Read_Previous`, over records that have all been read. -/
def replay (es : List Entry) : Option State := es.foldlM consume {}

@[simp] lemma replay_nil : replay [] = some {} := rfl

lemma replay_snoc (es : List Entry) (e : Entry) :
    replay (es ++ [e]) = (replay es).bind fun s => consume s e := by
  simp [replay, List.foldlM_append]

lemma replay_append {es es' : List Entry} {s : State} (h : replay (es ++ es') = some s) :
    ∃ s', replay es = some s' := by
  rw [replay, List.foldlM_append] at h
  cases hr : replay es with
  | none => rw [replay] at hr; rw [hr] at h; cases h
  | some s' => exact ⟨s', rfl⟩

lemma replay_prefix {es es' : List Entry} {s : State} (h : replay es' = some s)
    (hp : es <+: es') : ∃ s', replay es = some s' := by
  obtain ⟨x, rfl⟩ := hp
  exact replay_append h

/-! ### One record -/

/-- A record that closes a request, for now or for good. -/
def Terminal (e : Entry) : Prop :=
  (e.kind = knownOk ∧ e.result = .ok)
    ∨ (e.kind = knownFailure ∧ e.result ≠ .ok ∧ e.result ≠ .indeterminate)
    ∨ (e.kind = unknownOutcome ∧ e.result = .indeterminate)

/-- What one record can do to the state. -/
inductive Consumes (s : State) (e : Entry) : State → Prop
  | genesis (hk : e.kind = genesis) (h0 : (s.count : ℕ) = 0) (hr : e.result = .ok) :
      Consumes s e { s.counted e with lastResult := .ok }
  | begun (hk : e.kind = begun) (hi : 0 < (e.index : ℕ)) (hd : e.object ≠ zeroDigest)
      (ho : e.operationId ≠ zeroIdentity)
      (hw : s.window.requestId = zeroIdentity ∨ check s.window (windowOf e) = .fresh) :
      Consumes s e { s.counted e with
        pending := true, lastResult := .indeterminate, window := windowOf e }
  | terminal (ht : Terminal e) (hp : s.pending = true) (hw : windowOf e = s.window) :
      Consumes s e { s.counted e with pending := decide (e.kind = unknownOutcome),
                                      lastResult := e.result }

/-- Of every record, whatever it is. -/
structure Follows (s : State) (e : Entry) : Prop where
  room : (s.count : ℕ) ≠ Counter.last
  sequence : (e.sequence : ℕ) = s.count + 1
  rootId : e.rootId ≠ zeroIdentity
  same : 0 < (s.count : ℕ) → e.rootId = s.rootId
  serial : (s.serial : ℕ) ≤ e.generation

theorem consume_cases {s s' : State} {e : Entry} (h : consume s e = some s') :
    Follows s e ∧ Consumes s e s' := by
  unfold consume at h
  split at h
  · cases h
  rename_i h1
  push Not at h1
  refine ⟨⟨h1.1, h1.2.1, h1.2.2.1, h1.2.2.2.1, h1.2.2.2.2⟩, ?_⟩
  split at h
  · rename_i hk
    split at h
    · cases h
    · rename_i h2
      push Not at h2
      cases h
      exact .genesis hk h2.1 h2.2.2.2.2.1
  split at h
  · rename_i hk
    split at h
    · cases h
    rename_i h2
    push Not at h2
    split at h
    · cases h
    · rename_i h3
      cases h
      refine .begun hk (by omega) h2.2.1 h2.2.2.1 ?_
      by_cases hz : s.window.requestId = zeroIdentity
      · exact .inl hz
      · exact .inr (by simpa [hz] using h3)
  split at h
  · rename_i hk
    split at h
    · cases h
    rename_i h2
    push Not at h2
    split at h
    · cases h
    · rename_i h3
      push Not at h3
      cases h
      refine .terminal ?_ (by simpa using h2.1) h2.2
      rcases hk with hk | hk | hk
      · exact .inl ⟨hk, h3.1 hk⟩
      · exact .inr (.inl ⟨hk, h3.2.1 hk⟩)
      · exact .inr (.inr ⟨hk, h3.2.2 hk⟩)
  · cases h

lemma consume_genesis {s : State} {e : Entry} (hf : Follows s e) (hk : e.kind = genesis)
    (h0 : s.count = 0) (hi : e.index = 0) (ho : e.operationId = e.rootId) (hr : e.result = .ok)
    (he : e.epoch = 0) (ht : e.token = 0) (hd : e.object ≠ zeroDigest) :
    consume s e = some { s.counted e with lastResult := .ok } := by
  obtain ⟨h1, h2, h3, h4, h5⟩ := hf
  have h5' : ¬ (e.generation : ℕ) < s.serial := by omega
  unfold consume
  rw [if_neg, if_pos hk, if_neg]
  · simp [h0, hi, ho, hr, he, ht, hd]
  · simp only [not_or, not_and, not_not]
    exact ⟨h1, h2, h3, h4, h5'⟩

lemma consume_begun {s : State} {e : Entry} (hf : Follows s e) (hk : e.kind = begun)
    (hr : e.result = .ok) (hw : check s.window (windowOf e) = .fresh) :
    consume s e = some { s.counted e with
      pending := true, lastResult := .indeterminate, window := windowOf e } := by
  have hfill := check_filled (by rw [hw]; simp)
  obtain ⟨h1, h2, h3, h4, h5⟩ := hf
  have hi : (e.index : ℕ) ≠ 0 := by
    have : 0 < (e.index : ℕ) := hfill.sequenceNumber
    omega
  have ho : e.operationId ≠ zeroIdentity := hfill.requestId
  have hd : e.object ≠ zeroDigest := hfill.requestDigest
  have h5' : ¬ (e.generation : ℕ) < s.serial := by omega
  have hg : ¬ begun = genesis := by decide
  unfold consume
  rw [if_neg, if_neg, if_pos hk, if_neg, if_neg]
  · simp [hw]
  · simp [hi, hd, ho, hr]
  · rw [hk]
    exact hg
  · simp only [not_or, not_and, not_not]
    exact ⟨h1, h2, h3, h4, h5'⟩

lemma consume_terminal {s : State} {e : Entry} (hf : Follows s e) (ht : Terminal e)
    (hp : s.pending = true) (hw : windowOf e = s.window) :
    consume s e = some { s.counted e with pending := decide (e.kind = unknownOutcome),
                                          lastResult := e.result } := by
  obtain ⟨h1, h2, h3, h4, h5⟩ := hf
  have h5' : ¬ (e.generation : ℕ) < s.serial := by omega
  unfold consume
  rw [if_neg, if_neg, if_neg, if_pos, if_neg, if_neg]
  · rcases ht with ⟨hk, hr⟩ | ⟨hk, hr, hr'⟩ | ⟨hk, hr⟩
    · simp [hk, hr, knownOk, knownFailure, unknownOutcome]
    · simp [hk, hr, hr', knownOk, knownFailure, unknownOutcome]
    · simp [hk, hr, knownOk, knownFailure, unknownOutcome]
  · simp [hp, hw]
  · rcases ht with ⟨hk, -⟩ | ⟨hk, -⟩ | ⟨hk, -⟩ <;> simp [hk]
  · rcases ht with ⟨hk, -⟩ | ⟨hk, -⟩ | ⟨hk, -⟩ <;> rw [hk] <;> decide
  · rcases ht with ⟨hk, -⟩ | ⟨hk, -⟩ | ⟨hk, -⟩ <;> rw [hk] <;> decide
  · simp only [not_or, not_and, not_not]
    exact ⟨h1, h2, h3, h4, h5'⟩

end NiayanAssurance.RequestReplay
