import NiayanAssurance.ReceiverLedgerRuns

/-!
What an observer of a ledger is left with when it is refused an answer. The receipt is filled
while later records have still to be read.
-/

namespace NiayanAssurance.ReceiverLedgerFailures

open NiayanAssurance.Lib NiayanAssurance.Types NiayanAssurance.LogFormat
open NiayanAssurance.Log hiding World
open NiayanAssurance.LogFile NiayanAssurance.RequestReplay
open NiayanAssurance.Gate hiding genesis
open NiayanAssurance.GateSpec NiayanAssurance.GateRuns NiayanAssurance.GateRetry
open NiayanAssurance.ReceiverLedger NiayanAssurance.ReceiverLedgerRuns

/-- `Observe` with its handler; `raised` tells that one of the calls it makes has raised. -/
def observed (w : World) (q : Query) (host : ObserveHost) (raised : Bool) : Receipt × Outcome :=
  if raised then ({}, .ioError) else (observe w q host).2

/-! ### The part of a ledger that is taken -/

section Loop

variable {d : Directory Name} {f : File} {j : Journal} {q : Query} {host : ObserveHost}
  {l l' : List Entry} {e : Entry} {s s' : Progress} {i n : ℕ}

/-- The records `l`, with which the ledger begins, can be read and follow one another; those of
the request begin with its admission, and all name the header in the envelope. -/
structure Takes (d : Directory Name) (f : File) (j : Journal) (q : Query) (host : ObserveHost)
    (l : List Entry) : Prop where
  reads : ∀ i e, l[i]? = some e → j.read f (i + 1) (host.readAt (i + 1)) = .ok e
  replays : ∃ r, replay l = some r
  first : ∀ e, (records l q.requestId).head? = some e → e.kind = begun
  header : ∀ e ∈ records l q.requestId, envelopeHeader d q host.envelopeRead = some e.object

structure At (d : Directory Name) (q : Query) (host : ObserveHost) (l : List Entry)
    (s : Progress) : Prop where
  replay : RequestReplay.replay l = some s.replay
  seen : ∀ t, s.targetHeader = some t → envelopeHeader d q host.envelopeRead = some t
  unseen : s.targetHeader = none ↔ records l q.requestId = []
  value : s.value = {} ↔ records l q.requestId = []

/-- What the loop asks of the next record. -/
structure Next (d : Directory Name) (q : Query) (host : ObserveHost) (l : List Entry)
    (s : Progress) (e : Entry) : Prop where
  consumes : ∃ r, consume s.replay e = some r
  first : OfRequest q.requestId e → records l q.requestId = [] → e.kind = begun
  header : OfRequest q.requestId e → envelopeHeader d q host.envelopeRead = some e.object

lemma At.start : At d q host [] {} :=
  ⟨rfl, nofun, iff_of_true rfl rfl, iff_of_true rfl rfl⟩

lemma Takes.nil : Takes d f j q host [] :=
  ⟨nofun, ⟨_, rfl⟩, nofun, nofun⟩

lemma Takes.snoc (h : Takes d f j q host l) (ha : At d q host l s) (hn : Next d q host l s e)
    (hr : j.read f (l.length + 1) (host.readAt (l.length + 1)) = .ok e) :
    Takes d f j q host (l ++ [e]) := by
  obtain ⟨r, hc⟩ := hn.consumes
  refine ⟨fun i x hx => ?_, ⟨r, ?_⟩, fun x hx => ?_, fun x hx => ?_⟩
  · rcases Nat.lt_trichotomy i l.length with hi | rfl | hi
    · rw [List.getElem?_append_left hi] at hx
      exact h.reads i x hx
    · rw [List.getElem?_concat_length] at hx
      cases hx
      exact hr
    · rw [List.getElem?_eq_none
        (by simp only [List.length_append, List.length_singleton]; omega)] at hx
      cases hx
  · rw [replay_snoc, ha.replay, Option.bind_some, hc]
  · rw [records_snoc] at hx
    split_ifs at hx with ho
    · by_cases hl : records l q.requestId = []
      · rw [hl] at hx
        cases hx
        exact hn.first ho hl
      · obtain ⟨y, ys, hy⟩ := List.exists_cons_of_ne_nil hl
        rw [hy] at hx
        exact h.first x (by rw [hy]; exact hx)
    · exact h.first x (by simpa using hx)
  · rw [records_snoc] at hx
    split_ifs at hx with ho
    · rcases List.mem_append.mp hx with hx | hx
      · exact h.header x hx
      · rw [List.mem_singleton.mp hx]
        exact hn.header ho
    · exact h.header x (by simpa using hx)

lemma Takes.left (h : Takes d f j q host (l ++ [e])) : Takes d f j q host l := by
  obtain ⟨r, hr⟩ := h.replays
  have hrec := records_snoc l e q.requestId
  refine ⟨fun i x hx => h.reads i x ?_, replay_append hr, fun x hx => h.first x ?_,
    fun x hx => h.header x ?_⟩
  · rw [List.getElem?_append_left (List.getElem?_eq_some_iff.mp hx).1]
    exact hx
  · rw [hrec, List.head?_append, hx]
    rfl
  · rw [hrec]
    exact List.mem_append_left _ hx

lemma Takes.next (h : Takes d f j q host (l ++ [e])) (ha : At d q host l s) :
    Next d q host l s e ∧ j.read f (l.length + 1) (host.readAt (l.length + 1)) = .ok e := by
  obtain ⟨r, hr⟩ := h.replays
  rw [replay_snoc, ha.replay, Option.bind_some] at hr
  have hrec := records_snoc l e q.requestId
  refine ⟨⟨⟨r, hr⟩, fun ho hl => h.first e ?_, fun ho => h.header e ?_⟩,
    h.reads _ _ (List.getElem?_concat_length ..)⟩
  · rw [hrec, hl, if_pos ho]
    rfl
  · rw [hrec, if_pos ho]
    simp

lemma receiptFor_ne (hq : q.requestId ≠ zeroIdentity) (e : Entry) (state : ReceiptState) :
    receiptFor q e state ≠ {} := fun h => hq (congrArg Receipt.requestId h)

lemma At.step (hq : q.requestId ≠ zeroIdentity) (h : At d q host l s)
    (hstep : observeStep d f j q host s i = .ok s') :
    ∃ e, j.read f (i + 1) (host.readAt (i + 1)) = .ok e ∧ Next d q host l s e
      ∧ At d q host (l ++ [e]) s' := by
  unfold observeStep at hstep
  split at hstep
  · cases hstep
  rename_i e he
  refine ⟨e, he, ?_⟩
  split at hstep
  · cases hstep
  rename_i r hc
  have hreplay : RequestReplay.replay (l ++ [e]) = some r := by
    rw [replay_snoc, h.replay, Option.bind_some, hc]
  split at hstep
  · rename_i ho
    cases hstep
    have hr : records (l ++ [e]) q.requestId = records l q.requestId := by
      rw [records_snoc, if_neg ho, List.append_nil]
    exact ⟨⟨⟨r, hc⟩, fun hx => absurd hx ho, fun hx => absurd hx ho⟩, hreplay, h.seen,
      hr ▸ h.unseen, hr ▸ h.value⟩
  rename_i ho
  rw [not_not] at ho
  have hr : records (l ++ [e]) q.requestId ≠ [] := by
    rw [records_snoc, if_pos ho]
    simp
  split at hstep
  · cases hstep
  rename_i hb
  split at hstep
  · cases hstep
  rename_i t ht
  have hh : envelopeHeader d q host.envelopeRead = some t := by
    cases htar : s.targetHeader with
    | some t' =>
      rw [htar] at ht
      cases ht
      exact h.seen _ htar
    | none => rwa [htar] at ht
  split at hstep
  · cases hstep
  rename_i hobj
  rw [not_not] at hobj
  split at hstep
  · cases hstep
  rename_i state hs
  cases hstep
  refine ⟨⟨⟨r, hc⟩, fun _ hl => ?_, fun _ => hobj ▸ hh⟩, hreplay, fun t' ht' => ?_,
    iff_of_false (by simp) hr, iff_of_false (receiptFor_ne hq e state) hr⟩
  · by_contra hk
    exact hb ⟨h.unseen.mpr hl, hk⟩
  · cases ht'
    exact hh

lemma At.goes (h : At d q host l s) (hn : Next d q host l s e)
    (hr : j.read f (i + 1) (host.readAt (i + 1)) = .ok e) :
    ∃ s', observeStep d f j q host s i = .ok s' := by
  obtain ⟨r, hc⟩ := hn.consumes
  unfold observeStep
  rw [hr]
  simp only [hc]
  by_cases ho : OfRequest q.requestId e
  · obtain ⟨state, hs⟩ := stateOf_consumed hc ho.1
    have ht : (s.targetHeader <|> envelopeHeader d q host.envelopeRead) = some e.object := by
      cases htar : s.targetHeader with
      | some t => exact (h.seen t htar).symm.trans (hn.header ho)
      | none => exact hn.header ho
    rw [if_neg (not_not.mpr ho), if_neg fun hx => hx.2 (hn.first ho (h.unseen.mp hx.1)), ht]
    simp [hs]
  · rw [if_pos ho]
    exact ⟨_, rfl⟩

/-- A turn that ends the loop leaves the receipt as it was. -/
lemma step_error {v : Receipt} {o : Outcome} (h : observeStep d f j q host s i = .error (v, o)) :
    v = s.value ∧ o ≠ .ok := by
  unfold observeStep at h
  split at h
  · rename_i hr
    cases h
    exact ⟨rfl, read_error hr⟩
  split at h
  · cases h; exact ⟨rfl, by decide⟩
  rename_i r hc
  split at h
  · cases h
  rename_i ho
  split at h
  · cases h; exact ⟨rfl, by decide⟩
  split at h
  · cases h; exact ⟨rfl, by decide⟩
  split at h
  · cases h; exact ⟨rfl, by decide⟩
  split at h
  · -- Of the records that `Consume` takes, none of a request has another kind.
    rename_i hs
    obtain ⟨state, hs'⟩ := stateOf_consumed hc (not_not.mp ho).1
    rw [hs] at hs'
    cases hs'
  · cases h

/-! ### The loop -/

/-- How far the loop has come is what it has taken. -/
lemma loop_takes (hq : q.requestId ≠ zeroIdentity)
    (h : loop n (observeStep d f j q host) {} = .ok s) :
    ∃ l, l.length = n ∧ Takes d f j q host l ∧ At d q host l s := by
  refine loop.invariant (I := fun n s => ∃ l, l.length = n ∧ Takes d f j q host l
    ∧ At d q host l s) h ⟨[], rfl, .nil, .start⟩ ?_
  rintro i s s' - ⟨l, rfl, ht, ha⟩ hstep
  obtain ⟨e, hr, hn, ha'⟩ := ha.step hq hstep
  exact ⟨l ++ [e], by simp, ht.snoc ha hn hr, ha'⟩

/-- The loop comes as far as there is something to take. -/
lemma takes_loop (hq : q.requestId ≠ zeroIdentity) (h : Takes d f j q host l) :
    ∃ s, loop l.length (observeStep d f j q host) {} = .ok s ∧ At d q host l s := by
  induction l using List.reverseRecOn with
  | nil => exact ⟨{}, rfl, .start⟩
  | append_singleton l e ih =>
    obtain ⟨s, hs, ha⟩ := ih h.left
    obtain ⟨hn, hr⟩ := h.next ha
    obtain ⟨s', hstep⟩ := ha.goes hn hr
    obtain ⟨e', hr', -, ha'⟩ := ha.step hq hstep
    cases hr.symm.trans hr'
    refine ⟨s', ?_, ha'⟩
    rw [List.length_append, List.length_singleton, loop.succ, hs]
    exact hstep

/-- Of two parts that are taken the shorter one is a part of the longer one. -/
lemma Takes.isPrefix (h : Takes d f j q host l) (h' : Takes d f j q host l')
    (hl : l.length ≤ l'.length) : l <+: l' := by
  refine List.prefix_iff_eq_take.mpr (List.ext_getElem? fun i => ?_)
  rcases Nat.lt_or_ge i l.length with hi | hi
  · have h1 := List.getElem?_eq_getElem hi
    have h2 := List.getElem?_eq_getElem (hi.trans_le hl)
    have h3 := (h.reads i _ h1).symm.trans (h'.reads i _ h2)
    rw [List.getElem?_take_of_lt hi, h1, h2, Except.ok.inj h3]
  · rw [List.getElem?_eq_none hi, List.getElem?_take_eq_none hi]

lemma records_start (h : l <+: l') (hn : records l' q.requestId = []) :
    records l q.requestId = [] :=
  List.prefix_nil.mp (hn ▸ h.filter _)

end Loop

/-! ### The result -/

/-- The observer takes a record of the request, and then does not take all that follows. -/
def Interrupted (w : World) (q : Query) (host : ObserveHost) : Prop :=
  q.rootId ≠ zeroIdentity ∧ q.requestId ≠ zeroIdentity ∧ q.expectedEnvelope ≠ zeroDigest
    ∧ host.ledgerRoot = .ok ∧ ∃ w' j, openLedger w q.rootId host.log = (w', some j, .ok)
      ∧ (∃ l, l.length ≤ j.count ∧ Takes w'.directory w'.log j q host l
        ∧ records l q.requestId ≠ [])
      ∧ ¬ ∃ l, l.length = j.count ∧ Takes w'.directory w'.log j q host l

section Result

variable {d : Directory Name} {f : File} {j : Journal} {q : Query} {host : ObserveHost}
  {s : Progress} {i : ℕ}

lemma interrupted_iff (hq : q.requestId ≠ zeroIdentity) (hi : i < j.count)
    (hl : loop i (observeStep d f j q host) {} = .ok s) {x : Receipt × Outcome}
    (he : observeStep d f j q host s i = .error x) :
    s.value = {} ↔ ¬ ((∃ l, l.length ≤ j.count ∧ Takes d f j q host l
        ∧ records l q.requestId ≠ []) ∧ ¬ ∃ l, l.length = j.count ∧ Takes d f j q host l) := by
  obtain ⟨l, rfl, ht, ha⟩ := loop_takes hq hl
  -- No part that is taken is longer than `l`.
  have hmax : ∀ l', Takes d f j q host l' → l'.length ≤ l.length := by
    intro l' ht'
    by_contra hlt
    obtain ⟨s', hs', -⟩ := takes_loop hq ht'
    obtain ⟨s'', hs''⟩ := loop.mono hs' (Nat.not_le.mp hlt)
    rw [loop.succ, hl] at hs''
    cases he.symm.trans hs''
  rw [ha.value]
  constructor
  · rintro hn ⟨⟨l', -, ht', hn'⟩, -⟩
    exact hn' (records_start (ht'.isPrefix ht (hmax l' ht')) hn)
  · intro h
    by_contra hn
    refine h ⟨⟨l, hi.le, ht, hn⟩, ?_⟩
    rintro ⟨l', hc, ht'⟩
    exact absurd (hmax l' ht') (by omega)

/-- **A failed observation exposes a receipt just when it was interrupted**: no exception has
been raised, and a record that is refused comes after a record of the request that has been
taken. -/
theorem observed_default_iff (w : World) (q : Query) (host : ObserveHost) (raised : Bool) :
    ((observed w q host raised).2 ≠ .ok → (observed w q host raised).1 = {})
      ↔ raised = true ∨ ¬ Interrupted w q host := by
  cases raised with
  | true => exact iff_of_true (fun _ => rfl) (.inl rfl)
  | false =>
    show ((observe w q host).2.2 ≠ .ok → (observe w q host).2.1 = {}) ↔ _
    rw [or_iff_right (by decide)]
    unfold observe Interrupted
    split_ifs with h1 h2
    · exact iff_of_true (fun _ => rfl) fun h => by tauto
    · exact iff_of_true (fun _ => rfl) fun h => h2 h.2.2.2.1
    push Not at h1
    obtain ⟨hr, hq, he⟩ := h1
    rcases ho : openLedger w q.rootId host.log with ⟨w', _ | j, o⟩
    · refine iff_of_true (fun _ => rfl) ?_
      rintro ⟨-, -, -, -, _, _, h, -⟩
      cases h
    dsimp only
    split_ifs with h3 h4
    · refine iff_of_true (fun _ => rfl) ?_
      rintro ⟨-, -, -, -, _, _, h, -⟩
      cases h
      exact h3 rfl
    · refine iff_of_true (fun _ => rfl) ?_
      rintro ⟨-, -, -, -, _, _, h, ⟨l, hl, -, hn⟩, -⟩
      cases h
      rw [h4, Nat.le_zero, List.length_eq_zero_iff] at hl
      exact hn (by rw [hl]; rfl)
    rw [not_not] at h2 h3
    subst h3
    have hint : (q.rootId ≠ zeroIdentity ∧ q.requestId ≠ zeroIdentity
        ∧ q.expectedEnvelope ≠ zeroDigest ∧ host.ledgerRoot = .ok ∧ ∃ w₁ j₁,
          (w', some j, Outcome.ok) = (w₁, some j₁, .ok)
          ∧ (∃ l, l.length ≤ j₁.count ∧ Takes w₁.directory w₁.log j₁ q host l
            ∧ records l q.requestId ≠ [])
          ∧ ¬ ∃ l, l.length = j₁.count ∧ Takes w₁.directory w₁.log j₁ q host l)
        ↔ (∃ l, l.length ≤ j.count ∧ Takes w'.directory w'.log j q host l
            ∧ records l q.requestId ≠ [])
          ∧ ¬ ∃ l, l.length = j.count ∧ Takes w'.directory w'.log j q host l := by
      constructor
      · rintro ⟨-, -, -, -, _, _, h, hx⟩
        cases h
        exact hx
      · exact fun hx => ⟨hr, hq, he, h2, w', j, rfl, hx⟩
    rw [hint]
    rcases hl : loop j.count (observeStep w'.directory w'.log j q host) {} with x | s
    · obtain ⟨i, s, hi, hs, hstep⟩ := loop.error hl
      obtain ⟨hv, hne⟩ := step_error hstep
      unfold loop at hl
      rw [hl]
      dsimp only
      rw [← interrupted_iff hq hi hs hstep, ← hv]
      exact ⟨fun h => h hne, fun h _ => h⟩
    · obtain ⟨l, hc, ht, -⟩ := loop_takes hq hl
      unfold loop at hl
      rw [hl]
      exact iff_of_true (fun h => absurd rfl h) fun h => h.2 ⟨l, hc, ht⟩

end Result

/-! ### A record of the request, and one that is refused -/

/-- The third record of a ledger again, as its fourth: a known outcome of a request that is no
longer pending. -/
def repeated (w : World) : World :=
  match LogFormat.decode (frame w.log.cached 2) with
  | none => w
  | some e =>
    let again := { e with sequence := 4, previous := Sha256.hash (frame w.log.cached 2) }
    { w with log := w.log.write (LogFormat.encode again) }

set_option maxRecDepth 10000 in
lemma repeated_observed : (life signed siteHost (torn.take 3)).map (fun r =>
      let seen := observed (repeated r.2) firstQuery {} false
      (seen.1.state, seen.2)) = some (.terminalOk, .corrupt) := by decide +kernel

/-- A receipt with the state of a request that has succeeded is exposed, though the ledger is
refused. -/
theorem observed_exposes : ∃ w q host, (observed w q host false).2 ≠ .ok
    ∧ (observed w q host false).1.state = .terminalOk ∧ (observed w q host false).1 ≠ {} := by
  obtain ⟨⟨l, w⟩, -, hseen⟩ := Option.map_eq_some_iff.mp repeated_observed
  simp only [Prod.mk.injEq] at hseen
  obtain ⟨hst, hr⟩ := hseen
  refine ⟨repeated w, firstQuery, {}, by rw [hr]; decide, hst, fun h => ?_⟩
  rw [h] at hst
  cases hst

end NiayanAssurance.ReceiverLedgerFailures
