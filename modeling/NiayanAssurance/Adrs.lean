import NiayanAssurance.Lib.Search
import Mathlib.Logic.Function.Basic

/-!
The registry of decisions: which decision replaces which.
-/

namespace NiayanAssurance.Adrs

open NiayanAssurance.Lib

abbrev Id := String

inductive Status
  | proposedForReview | acceptedByMaintainers | superseded
  deriving DecidableEq

/-- A decision, without its path. -/
structure Decision where
  id : Id
  status : Status
  supersedes : List Id

/-- `adrs` as the loop over the decisions leaves it, which refuses a second one of the same id. -/
structure Registry where
  adrs : List Decision
  nodup : (adrs.map (·.id)).Nodup

/-- `adrs[node]['supersedes']`; none is a `KeyError`. -/
def Registry.supersedes (r : Registry) (node : Id) : Option (List Id) :=
  (r.adrs.find? (·.id = node)).map (·.supersedes)

/-- `old not in adrs or old == d['id']` of no decision and none that it supersedes. -/
def Registry.targets (r : Registry) : Bool :=
  r.adrs.all fun d => d.supersedes.all fun old => r.adrs.any (·.id = old) ∧ old ≠ d.id

/-- `incoming`. Every key is there, as the targets have been checked. -/
def Registry.incoming (r : Registry) : Id → List Id :=
  r.adrs.foldl
    (fun m d => d.supersedes.foldl (fun m old => Function.update m old (d.id :: m old)) m)
    fun _ => []

/-- The loop over the decisions. There is no result where a search does not end. -/
def Registry.check (r : Registry) (turns : ℕ) : List Decision → Option (Except String Unit)
  | [] => some (.ok ())
  | d :: rest => do
    if d.status = .superseded ∧ r.incoming d.id = [] then
      return .error "superseded ADR has no replacement"
    if r.incoming d.id ≠ [] ∧ d.status ≠ .superseded then
      return .error "replaced ADR not marked superseded"
    if ← Search.search r.supersedes d.id turns [d.id] [] then
      return .error "cyclic ADR replacement"
    r.check turns rest

/-- What `validate` says of the replacements. -/
def Registry.validate (r : Registry) (turns : ℕ) : Option (Except String Unit) :=
  if r.targets then r.check turns r.adrs else some (.error "invalid superseded ADR")

/-! ### What is asked of a registry -/

/-- `x` replaces `y`. -/
def Registry.Replaces (r : Registry) (x y : Id) : Prop :=
  ∃ d ∈ r.adrs, d.id = x ∧ y ∈ d.supersedes

structure Registry.Sound (r : Registry) : Prop where
  targets : ∀ x y, r.Replaces x y → ∃ d ∈ r.adrs, d.id = y
  acyclic : ∀ x, ¬ Relation.TransGen r.Replaces x x
  superseded : ∀ d ∈ r.adrs,
    d.status = .superseded ↔ ∃ d' ∈ r.adrs, d'.id ≠ d.id ∧ r.Replaces d'.id d.id

variable {r : Registry} {d : Decision} {x y : Id}

lemma Registry.eq_of_id (r : Registry) {d d' : Decision} (hd : d ∈ r.adrs) (hd' : d' ∈ r.adrs)
    (h : d.id = d'.id) : d = d' := List.inj_on_of_nodup_map r.nodup hd hd' h

lemma Registry.supersedes_mem (hd : d ∈ r.adrs) : r.supersedes d.id = some d.supersedes := by
  unfold Registry.supersedes
  cases h : r.adrs.find? (·.id = d.id) with
  | none => exact absurd (List.find?_eq_none.1 h d hd) (by simp)
  | some d' =>
    obtain rfl := r.eq_of_id (List.mem_of_find?_eq_some h) hd (by simpa using List.find?_some h)
    rfl

/-- The edges that are searched. -/
lemma Registry.edge_eq (r : Registry) : Search.Edge r.supersedes = r.Replaces := by
  funext x y
  refine propext ⟨?_, ?_⟩
  · rintro ⟨l, hl, hy⟩
    obtain ⟨d, hd, rfl⟩ := Option.map_eq_some_iff.1 hl
    exact ⟨d, List.mem_of_find?_eq_some hd, by simpa using List.find?_some hd, hy⟩
  · rintro ⟨d, hd, rfl, hy⟩
    exact ⟨d.supersedes, r.supersedes_mem hd, hy⟩

lemma Registry.targets_iff : r.targets = true ↔
    ∀ x y, r.Replaces x y → (∃ d ∈ r.adrs, d.id = y) ∧ y ≠ x := by
  simp only [Registry.targets, Registry.Replaces, List.all_eq_true, List.any_eq_true,
    decide_eq_true_eq]
  constructor
  · rintro h x y ⟨d, hd, rfl, hy⟩
    exact h d hd y hy
  · intro h d hd old hold
    exact h d.id old ⟨d, hd, rfl, hold⟩

/-- The nodes of the graph. -/
lemma Registry.closed (h : r.targets = true) :
    Search.Closed r.supersedes (r.adrs.map (·.id)) := by
  intro x hx
  obtain ⟨d, hd, rfl⟩ := List.mem_map.1 hx
  refine ⟨d.supersedes, r.supersedes_mem hd, fun y hy => ?_⟩
  obtain ⟨⟨e, he, rfl⟩, -⟩ := Registry.targets_iff.1 h d.id y ⟨d, hd, rfl, hy⟩
  exact List.mem_map.2 ⟨e, he, rfl⟩

/-! ### What comes in -/

lemma mem_addAll {l : List Id} {m : Id → List Id} {z : Id} :
    z ∈ l.foldl (fun m old => Function.update m old (x :: m old)) m y ↔
      z ∈ m y ∨ y ∈ l ∧ z = x := by
  induction l generalizing m with
  | nil => simp
  | cons old l ih =>
    rw [List.foldl_cons, ih, List.mem_cons]
    by_cases h : y = old
    · subst h
      rw [Function.update_self, List.mem_cons]
      tauto
    · rw [Function.update_of_ne h]
      simp only [h, false_or]

lemma Registry.mem_incoming : x ∈ r.incoming y ↔ r.Replaces x y := by
  suffices ∀ (l : List Decision) (m : Id → List Id),
      x ∈ l.foldl (fun m d => d.supersedes.foldl
        (fun m old => Function.update m old (d.id :: m old)) m) m y ↔
      x ∈ m y ∨ ∃ d ∈ l, d.id = x ∧ y ∈ d.supersedes by
    rw [Registry.incoming, this]
    simp [Registry.Replaces]
  intro l
  induction l with
  | nil => simp
  | cons d l ih =>
    intro m
    rw [List.foldl_cons, ih, mem_addAll, List.exists_mem_cons_iff]
    tauto

/-- What the loop asks of one decision. -/
def Registry.Good (r : Registry) (d : Decision) : Prop :=
  (d.status = .superseded ↔ ∃ x, r.Replaces x d.id) ∧ ¬ Relation.TransGen r.Replaces d.id d.id

lemma Registry.incoming_ne_nil : r.incoming y ≠ [] ↔ ∃ x, r.Replaces x y := by
  constructor
  · intro h
    obtain ⟨x, hx⟩ := List.exists_mem_of_ne_nil _ h
    exact ⟨x, Registry.mem_incoming.1 hx⟩
  · rintro ⟨x, hx⟩
    exact List.ne_nil_of_mem (Registry.mem_incoming.2 hx)

/-- The loop ends, and well when it has nothing to say of any decision. -/
lemma Registry.check_iff {turns : ℕ} (ht : r.targets = true) (hturns : r.adrs.length + 1 ≤ turns)
    {l : List Decision} (hl : ∀ d ∈ l, d ∈ r.adrs) :
    ∃ verdict, r.check turns l = some verdict
      ∧ (verdict = .ok () ↔ ∀ d ∈ l, r.Good d) := by
  induction l with
  | nil => exact ⟨.ok (), rfl, iff_of_true rfl nofun⟩
  | cons d l ih =>
    obtain ⟨hd, hl⟩ := List.forall_mem_cons.1 hl
    have hin := r.incoming_ne_nil (y := d.id)
    have hkey : d.id ∈ r.adrs.map (·.id) := List.mem_map.2 ⟨d, hd, rfl⟩
    obtain ⟨found, hsearch, hfound⟩ :=
      Search.search_iff (Registry.closed ht) hkey (by simpa using hturns)
    rw [Registry.edge_eq] at hfound
    rw [Registry.check, List.forall_mem_cons, hsearch]
    by_cases h1 : d.status = .superseded ∧ r.incoming d.id = []
    · rw [if_pos h1]
      refine ⟨_, rfl, iff_of_false nofun fun h => ?_⟩
      exact hin.2 (h.1.1.1 h1.1) h1.2
    rw [if_neg h1]
    by_cases h2 : r.incoming d.id ≠ [] ∧ d.status ≠ .superseded
    · rw [if_pos h2]
      exact ⟨_, rfl, iff_of_false nofun fun h => h2.2 (h.1.1.2 (hin.1 h2.1))⟩
    rw [if_neg h2]
    have hstatus : d.status = .superseded ↔ ∃ x, r.Replaces x d.id := by
      rw [← hin]
      tauto
    cases found with
    | true => exact ⟨_, rfl, iff_of_false nofun fun h => h.1.2 (hfound.1 rfl)⟩
    | false =>
      obtain ⟨verdict, h3, h4⟩ := ih hl
      refine ⟨verdict, h3, h4.trans ⟨fun h => ⟨⟨hstatus, fun h' => ?_⟩, h⟩, And.right⟩⟩
      exact absurd (hfound.2 h') nofun

/-- The decisions that the loop has nothing to say of, and targets that are there. -/
lemma Registry.sound_iff : r.Sound ↔ r.targets = true ∧ ∀ d ∈ r.adrs, r.Good d := by
  rw [Registry.targets_iff]
  constructor
  · intro h
    have hne : ∀ x y, r.Replaces x y → y ≠ x := by
      rintro x y hxy rfl
      exact h.acyclic y (.single hxy)
    refine ⟨fun x y hxy => ⟨h.targets x y hxy, hne x y hxy⟩, fun d hd => ⟨?_, h.acyclic d.id⟩⟩
    rw [h.superseded d hd]
    constructor
    · rintro ⟨d', -, -, h'⟩
      exact ⟨d'.id, h'⟩
    · rintro ⟨x, h'⟩
      obtain ⟨d', hd', rfl, -⟩ := id h'
      exact ⟨d', hd', (hne _ _ h').symm, h'⟩
  · rintro ⟨ht, hgood⟩
    refine ⟨fun x y hxy => (ht x y hxy).1, fun x hx => ?_, fun d hd => ?_⟩
    · -- A cycle goes through decisions only.
      obtain ⟨y, ⟨d, hd, rfl, -⟩, -⟩ := Relation.TransGen.head'_iff.1 hx
      exact (hgood d hd).2 hx
    · rw [(hgood d hd).1]
      constructor
      · rintro ⟨x, h'⟩
        obtain ⟨d', hd', rfl, -⟩ := id h'
        exact ⟨d', hd', ((ht _ _ h').2).symm, h'⟩
      · rintro ⟨d', -, -, h'⟩
        exact ⟨d'.id, h'⟩

/-- **The replacements are accepted exactly when they are sound**: every decision that is replaced
is there, none is replaced by itself by way of however many others, and those marked superseded are
those that another one replaces. Every search ends, after no more turns than there are decisions
and one. -/
theorem Registry.validate_iff (r : Registry) (turns : ℕ) (hturns : r.adrs.length + 1 ≤ turns) :
    ∃ verdict, r.validate turns = some verdict ∧ (verdict = .ok () ↔ r.Sound) := by
  rw [Registry.sound_iff, Registry.validate]
  by_cases ht : r.targets = true
  · obtain ⟨verdict, h1, h2⟩ := Registry.check_iff ht hturns (l := r.adrs) fun d hd => hd
    rw [if_pos ht]
    exact ⟨verdict, h1, h2.trans ⟨fun h => ⟨ht, h⟩, And.right⟩⟩
  · rw [if_neg ht]
    exact ⟨_, rfl, iff_of_false nofun fun h => ht h.1⟩

/-- Two decisions, the second of which replaces the first. -/
def someRegistry : Registry where
  adrs := [⟨"ADR-0001", .superseded, []⟩, ⟨"ADR-0002", .acceptedByMaintainers, ["ADR-0001"]⟩]
  nodup := by decide

theorem Registry.validate_iff_someRegistry :
    someRegistry.validate 3 = some (.ok ()) ∧ someRegistry.Sound := by
  have h : someRegistry.validate 3 = some (.ok ()) := by rfl
  obtain ⟨verdict, h1, h2⟩ := someRegistry.validate_iff 3 (by decide)
  exact ⟨h, h2.1 (Option.some.inj (h1.symm.trans h))⟩

end NiayanAssurance.Adrs
