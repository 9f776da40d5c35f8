import NiayanAssurance.Backups
import Mathlib.Data.Finset.Card
import Mathlib.Order.Interval.Finset.Nat
import Mathlib.Logic.Relation

/-!
What a restore set is, and that the best of them is chosen.

The walk from parent to parent is compared with the relation that the entries of a catalog
define: distinct manifests make it deterministic, and a path to a full backup is then the only
one.
-/

namespace NiayanAssurance.BackupsSpec

open NiayanAssurance.Lib NiayanAssurance.Types NiayanAssurance.Backups

/-- `v` is the entry that the incremental backup `u` names as its parent. -/
def Parent (c : Catalog) (count u v : ℕ) : Prop :=
  (c.entry u).full = false ∧ (1 ≤ v ∧ v ≤ count) ∧ (c.entry v).manifest = (c.entry u).parent

/-- The entries from `u` to a full backup, each the parent of the one before it. -/
inductive ParentPath (c : Catalog) (count : ℕ) : ℕ → List ℕ → Prop
  | full {u : ℕ} : (c.entry u).full = true → ParentPath c count u [u]
  | step {u v : ℕ} {l : List ℕ} : Parent c count u v → ParentPath c count v l →
      ParentPath c count u (u :: l)

variable {p : Policy} {c : Catalog} {count t u v : ℕ} {l path : List ℕ}

/-! ### Catalogs -/

lemma entry_wellFormed (hc : ValidCatalog c count) (hu : 1 ≤ u ∧ u ≤ count) :
    (c.entry u).WellFormed :=
  (hc.2 u (mem_indices.2 hu)).1

/-- In a valid catalog a manifest names one entry. -/
lemma manifest_inj (hc : ValidCatalog c count) (hu : 1 ≤ u ∧ u ≤ count) (hv : 1 ≤ v ∧ v ≤ count)
    (h : (c.entry u).manifest = (c.entry v).manifest) : u = v := by
  rcases Nat.lt_trichotomy u v with h1 | h1 | h1
  · exact absurd h.symm ((hc.2 v (mem_indices.2 hv)).2 u (mem_indices.2 (by omega)))
  · exact h1
  · exact absurd h ((hc.2 u (mem_indices.2 hu)).2 v (mem_indices.2 (by omega)))

lemma parent_unique (hc : ValidCatalog c count) {v' : ℕ} (h : Parent c count u v)
    (h' : Parent c count u v') : v = v' :=
  manifest_inj hc h.2.1 h'.2.1 (h.2.2.trans h'.2.2.symm)

lemma parentOf_some (hu : (c.entry u).full = false) (h : parentOf c count u = some v) :
    Parent c count u v := by
  have h1 := List.find?_some h
  have h2 := List.mem_of_find?_eq_some h
  exact ⟨hu, mem_indices.1 h2, by simpa using h1⟩

/-! ### Paths -/

lemma ParentPath.head (h : ParentPath c count u l) : ∃ rest, l = u :: rest := by
  cases h with
  | full _ => exact ⟨[], rfl⟩
  | step _ _ => exact ⟨_, rfl⟩

lemma ParentPath.mem (h : ParentPath c count u l) (hu : 1 ≤ u ∧ u ≤ count) :
    ∀ i ∈ l, 1 ≤ i ∧ i ≤ count := by
  induction h with
  | full _ => simpa using hu
  | step h1 _ ih =>
    intro i hi
    rcases List.mem_cons.1 hi with rfl | hi
    · exact hu
    · exact ih h1.2.1 i hi

/-- From the parent of an entry the path is shorter. -/
lemma ParentPath.parent (hc : ValidCatalog c count) (h : ParentPath c count u l)
    (huv : Parent c count u v) : ∃ l', ParentPath c count v l' ∧ l'.length < l.length := by
  cases h with
  | full h1 => rw [huv.1] at h1; cases h1
  | step h1 h2 =>
    rw [parent_unique hc huv h1]
    exact ⟨_, h2, by simp⟩

lemma ParentPath.ancestor (hc : ValidCatalog c count) (h : ParentPath c count u l)
    (huv : Relation.TransGen (Parent c count) u v) :
    ∃ l', ParentPath c count v l' ∧ l'.length < l.length := by
  induction huv with
  | single h1 => exact h.parent hc h1
  | tail _ h1 ih =>
    obtain ⟨l₁, h2, hl₁⟩ := ih
    obtain ⟨l₂, h3, hl₂⟩ := h2.parent hc h1
    exact ⟨l₂, h3, by omega⟩

lemma ParentPath.reaches (hc : ValidCatalog c count) (h : ParentPath c count u l)
    (huv : Relation.ReflTransGen (Parent c count) u v) : ∃ l', ParentPath c count v l' := by
  rcases Relation.reflTransGen_iff_eq_or_transGen.1 huv with rfl | huv
  · exact ⟨l, h⟩
  · obtain ⟨l', h1, -⟩ := h.ancestor hc huv
    exact ⟨l', h1⟩

/-- An entry on a cycle has no path to a full backup. -/
lemma ParentPath.acyclic (hc : ValidCatalog c count) (h : ParentPath c count u l) :
    ¬ Relation.TransGen (Parent c count) u u := by
  intro hu
  induction hn : l.length using Nat.strong_induction_on generalizing l with
  | _ n ih =>
    obtain ⟨l', h1, hl⟩ := h.ancestor hc hu
    exact ih l'.length (hn ▸ hl) h1 rfl

/-! ### The walk -/

/-- What the walk adds to the path when it succeeds. -/
lemma walk_ok {room : ℕ} (h : walk c count room u path = (l, .ok)) (hd : path.Nodup) :
    ∃ rest, l = path ++ rest ∧ ParentPath c count u rest ∧ rest.IsChain (Linked c) ∧ l.Nodup := by
  induction room generalizing u path with
  | zero => simp [walk] at h
  | succ room ih =>
    rw [walk] at h
    split_ifs at h with h1 h2
    · cases h
    · simp only [Prod.mk.injEq, and_true] at h
      subst h
      refine ⟨[u], rfl, .full h2, List.isChain_singleton _, ?_⟩
      exact List.nodup_append.2 ⟨hd, List.nodup_singleton _, fun a ha b hb =>
        List.mem_singleton.1 hb ▸ fun he => h1 (he ▸ ha)⟩
    · cases hp : parentOf c count u with
      | none => simp [hp] at h
      | some v =>
        simp only [hp] at h
        split_ifs at h with h3
        · have hd' : (path ++ [u]).Nodup :=
            List.nodup_append.2 ⟨hd, List.nodup_singleton _, fun a ha b hb =>
              List.mem_singleton.1 hb ▸ fun he => h1 (he ▸ ha)⟩
          obtain ⟨rest, rfl, h4, h5, h6⟩ := ih h hd'
          obtain ⟨tail, rfl⟩ := h4.head
          refine ⟨u :: v :: tail, by simp, ?_, List.isChain_cons_cons.2 ⟨h3, h5⟩, h6⟩
          exact .step (parentOf_some (by simpa using h2) hp) h4
        · cases h

/-- The walk takes entries of the catalog, and none twice. -/
lemma walk_path (room : ℕ) (hu : 1 ≤ u ∧ u ≤ count) (hp : ∀ i ∈ path, 1 ≤ i ∧ i ≤ count) :
    ∀ i ∈ (walk c count room u path).1, 1 ≤ i ∧ i ≤ count := by
  induction room generalizing u path with
  | zero => exact hp
  | succ room ih =>
    have hp' : ∀ i ∈ path ++ [u], 1 ≤ i ∧ i ≤ count := by
      intro i hi
      rcases List.mem_append.1 hi with hi | hi
      · exact hp i hi
      · rw [List.mem_singleton.1 hi]; exact hu
    rw [walk]
    split_ifs with h1 h2
    · exact hp
    · exact hp'
    · cases hv : parentOf c count u with
      | none => exact hp'
      | some v =>
        dsimp only
        split_ifs
        · exact ih (mem_indices.1 (List.mem_of_find?_eq_some hv)) hp'
        · exact hp'

lemma chain_card (c : Catalog) (count terminal : ℕ) : (chain c count terminal).1.card ≤ count := by
  unfold chain
  split_ifs with h1
  · simp
  · have hsub : (walk c count capacity terminal []).1.toFinset ⊆ Finset.Icc 1 count := by
      intro i hi
      rw [List.mem_toFinset] at hi
      exact Finset.mem_Icc.2 (walk_path _ (by omega) (by simp) i hi)
    have := Finset.card_le_card hsub
    rw [Nat.card_Icc] at this
    dsimp only
    split_ifs <;> simpa using this

/-- What is known of a chain that was found. -/
lemma chain_ok {m : Selection} {d : Digest} (h : chain c count t = (m, d, .ok)) :
    ValidCatalog c count ∧ (1 ≤ t ∧ t ≤ count) ∧ ∃ l, ParentPath c count t l
      ∧ l.IsChain (Linked c) ∧ l.Nodup ∧ m = l.toFinset ∧ d = commitment c l := by
  unfold chain at h
  split_ifs at h with h1
  · cases h
  · dsimp only at h
    push Not at h1
    split_ifs at h with h2
    · obtain ⟨rfl, rfl⟩ : (walk c count capacity t []).1.toFinset = m
          ∧ commitment c (walk c count capacity t []).1 = d := by simpa using h
      obtain ⟨rest, h3, h4, h5, h6⟩ := walk_ok (Prod.ext rfl h2) .nil
      rw [List.nil_append] at h3
      exact ⟨h1.1, by omega, _, h3 ▸ h4, h3 ▸ h5, h6, rfl, rfl⟩
    · simp only [Prod.mk.injEq] at h
      exact absurd h.2.2 h2

/-! ### Restore sets -/

/-- The positions below `n` are divided among the entries of a path. -/
structure Tiles (c : Catalog) (l : List ℕ) (n : ℕ) : Prop where
  covered : ∀ x < n, ∃! i, i ∈ l ∧ ((c.entry i).fromPosition : ℕ) ≤ x
    ∧ x < (c.entry i).throughPosition
  within : ∀ i ∈ l, ((c.entry i).throughPosition : ℕ) ≤ n

lemma ParentPath.tiles (hc : ValidCatalog c count) (h : ParentPath c count t l)
    (ht : 1 ≤ t ∧ t ≤ count) (hl : l.IsChain (Linked c)) :
    Tiles c l (c.entry t).throughPosition := by
  induction h with
  | @full u hu =>
    have hw := entry_wellFormed hc ht
    have h0 := hw.2.2.2.2.2.2.2 hu
    refine ⟨fun x hx => ⟨u, ⟨by simp, by omega, hx⟩, fun i hi => by simpa using hi.1⟩, by simp⟩
  | @step u v l huv hp ih =>
    obtain ⟨rest, rfl⟩ := hp.head
    have hlink := (List.isChain_cons_cons.1 hl).1
    have hmeet : ((c.entry v).throughPosition : ℕ) = (c.entry u).fromPosition :=
      congrArg Fin.val hlink.2.2.2.1
    have hle := (entry_wellFormed hc ht).2.2.2.2.2.1
    obtain ⟨h1, h2⟩ := ih huv.2.1 (List.isChain_cons_cons.1 hl).2
    refine ⟨fun x hx => ?_, fun i hi => ?_⟩
    · rcases Nat.lt_or_ge x (c.entry v).throughPosition with hxv | hxv
      · obtain ⟨i, ⟨hi, hfi, hti⟩, huniq⟩ := h1 x hxv
        refine ⟨i, ⟨List.mem_cons_of_mem _ hi, hfi, hti⟩, fun j ⟨hj, hfj, htj⟩ => ?_⟩
        rcases List.mem_cons.1 hj with rfl | hj
        · omega
        · exact huniq j ⟨hj, hfj, htj⟩
      · refine ⟨u, ⟨by simp, by omega, hx⟩, fun j ⟨hj, hfj, htj⟩ => ?_⟩
        rcases List.mem_cons.1 hj with rfl | hj
        · rfl
        · have := h2 j hj
          omega
    · rcases List.mem_cons.1 hi with rfl | hi
      · exact le_rfl
      · have := h2 i hi
        omega

lemma completed_of_linked (hl : l.IsChain (Linked c)) :
    l.Pairwise fun i j => ((c.entry j).completedAt : ℕ) ≤ (c.entry i).completedAt := by
  have h : l.IsChain fun i j => ((c.entry j).completedAt : ℕ) ≤ (c.entry i).completedAt :=
    hl.imp fun _ _ h => h.2.2.2.2
  have : IsTrans ℕ fun i j => ((c.entry j).completedAt : ℕ) ≤ (c.entry i).completedAt :=
    ⟨fun _ _ _ h1 h2 => h2.trans h1⟩
  exact List.isChain_iff_pairwise.1 h

lemma usable_eligible {b : Backup} (h : usable p b = true) : Eligible p b := by
  unfold usable at h
  split_ifs at h with h1
  exact h1

/-- What restoring the terminal `t` from the members `m` rests on. -/
structure Restores (p : Policy) (c : Catalog) (count t : ℕ) (m : Selection) (l : List ℕ) :
    Prop where
  path : ParentPath c count t l
  members : ∀ i, i ∈ m ↔ i ∈ l
  once : l.Nodup
  listed : ∀ i ∈ l, 1 ≤ i ∧ i ≤ count
  scope : ∀ i ∈ l, (c.entry i).scope = p.scope ∧ (c.entry i).dataset = p.dataset
    ∧ (c.entry i).lineage = p.lineage
  usable : ∀ i ∈ l, Backups.usable p (c.entry i) = true
  tiles : Tiles c l (c.entry t).throughPosition
  completed : l.Pairwise fun i j => ((c.entry j).completedAt : ℕ) ≤ (c.entry i).completedAt
  tested : (c.entry t).restoreTestChain =
    (l.reverse.map fun i => (c.entry i).manifest).foldl commit zeroDigest

lemma restoreSet_chain {m : Selection} (h : restoreSet p c count t = (m, .ok)) :
    ∃ d, chain c count t = (m, d, .ok) ∧ Tested p (c.entry t) d
      ∧ ∀ i, 1 ≤ i ∧ i ≤ count → i ∈ m → usable p (c.entry i) = true := by
  unfold restoreSet at h
  dsimp only at h
  split_ifs at h with h1 h2 h3
  · simp only [Prod.mk.injEq] at h
    exact absurd h.2 h1
  · cases h
  · simp only [Prod.mk.injEq, and_true] at h
    subst h
    rw [not_not] at h1
    refine ⟨_, Prod.ext rfl (Prod.ext rfl h1), h2, fun i hi hm => ?_⟩
    by_contra hu
    exact h3 ⟨i, mem_indices.2 hi, hm, by simpa using hu⟩
  · cases h

lemma restoreSet_ok {m : Selection} (h : restoreSet p c count t = (m, .ok)) :
    ValidCatalog c count ∧ (1 ≤ t ∧ t ≤ count) ∧ p.Valid ∧ ∃ l, Restores p c count t m l := by
  obtain ⟨d, h1, h2, h3⟩ := restoreSet_chain h
  obtain ⟨hc, ht, l, h4, h5, h6, rfl, rfl⟩ := chain_ok h1
  have hl := h4.mem ht
  have hu : ∀ i ∈ l, usable p (c.entry i) = true := fun i hi =>
    h3 i (hl i hi) (List.mem_toFinset.2 hi)
  refine ⟨hc, ht, h2.1, l, h4, fun i => List.mem_toFinset, h6, hl, fun i hi => ?_, hu,
    h4.tiles hc ht h5, completed_of_linked h5, ?_⟩
  · have he := usable_eligible (hu i hi)
    exact ⟨he.2.1, he.2.2.1, he.2.2.2.1⟩
  · rw [h2.2.2.1, commitment, List.foldl_map]

/-! ### The choice -/

/-- `t` is preferred to `j`: it reaches further, or was tested later, or is listed first. -/
def Preferred (c : Catalog) (t j : ℕ) : Prop :=
  ((c.entry j).throughPosition : ℕ) < (c.entry t).throughPosition
    ∨ (c.entry j).throughPosition = (c.entry t).throughPosition
      ∧ (((c.entry j).testedAt : ℕ) < (c.entry t).testedAt
        ∨ (c.entry j).testedAt = (c.entry t).testedAt ∧ t ≤ j)

/-- What the loop of `Choose` has found among the first `n` terminals. -/
structure Best (p : Policy) (c : Catalog) (count n : ℕ) (best : ℕ × Selection) : Prop where
  start : best.1 = 0 → best = (0, ∅) ∧ ∀ j ≤ n, (restoreSet p c count j).2 ≠ .ok
  found : best.1 ≠ 0 → best.1 ≤ n ∧ restoreSet p c count best.1 = (best.2, .ok)
    ∧ ∀ j ≤ n, (restoreSet p c count j).2 = .ok → Preferred c best.1 j

lemma restoreSet_zero : (restoreSet p c count 0).2 ≠ .ok := by
  intro h
  have := (restoreSet_ok (Prod.ext rfl h)).2.1
  omega

lemma Best.step {n : ℕ} {best : ℕ × Selection} (h : Best p c count n best) :
    Best p c count (n + 1) (better p c count best (n + 1)) := by
  have hsplit : ∀ {j}, j ≤ n + 1 → j ≤ n ∨ j = n + 1 := fun hj => by omega
  unfold better
  dsimp only
  split_ifs with hb
  · obtain ⟨hok, hb⟩ := hb
    refine ⟨fun h0 => absurd h0 (Nat.succ_ne_zero n), fun _ => ⟨le_rfl, Prod.ext rfl hok, ?_⟩⟩
    intro j hj hjok
    rcases hsplit hj with hj | rfl
    · by_cases h0 : best.1 = 0
      · exact absurd hjok ((h.start h0).2 j hj)
      · have hpref := (h.found h0).2.2 j hj hjok
        simp only [Preferred, Fin.ext_iff] at hpref hb ⊢
        omega
    · exact .inr ⟨rfl, .inr ⟨rfl, le_rfl⟩⟩
  · refine ⟨fun h0 => ⟨(h.start h0).1, fun j hj => ?_⟩, fun h0 => ?_⟩
    · rcases hsplit hj with hj | rfl
      · exact (h.start h0).2 j hj
      · exact fun hok => hb ⟨hok, .inl h0⟩
    · obtain ⟨hle, hset, hpref⟩ := h.found h0
      refine ⟨by omega, hset, fun j hj hjok => ?_⟩
      rcases hsplit hj with hj | rfl
      · exact hpref j hj hjok
      · have hworse : ¬ _ := fun h1 => hb ⟨hjok, .inr h1⟩
        simp only [Preferred, Fin.ext_iff] at hworse ⊢
        omega

lemma best_foldl (p : Policy) (c : Catalog) (count n : ℕ) :
    Best p c count n ((indices n).foldl (better p c count) (0, ∅)) := by
  induction n with
  | zero =>
    refine ⟨fun _ => ⟨rfl, fun j hj => ?_⟩, fun h => absurd rfl h⟩
    rw [Nat.le_zero.1 hj]
    exact restoreSet_zero
  | succ n ih =>
    have : indices (n + 1) = indices n ++ [n + 1] := by
      rw [indices, indices, List.range'_1_concat, Nat.add_comm 1]
    rw [this, List.foldl_append]
    exact ih.step

/-- **What is chosen to be restored.** -/
structure Sound (p : Policy) (c : Catalog) (count : ℕ) : Prop where
  /-- Something is chosen if anything can be restored. -/
  chosen : (choose p c count).2.2 = .ok ↔ ∃ t, (restoreSet p c count t).2 = .ok
  /-- It is the best of what can be. -/
  best : ∀ t m, choose p c count = (t, m, .ok) → restoreSet p c count t = (m, .ok)
    ∧ ∀ j, (restoreSet p c count j).2 = .ok → Preferred c t j
  /-- It is complete. -/
  complete : ∀ t m, restoreSet p c count t = (m, .ok) → ∃ l, Restores p c count t m l
  /-- A terminal is refused when its parents lead into a cycle. -/
  acyclic : ∀ t u, Relation.ReflTransGen (Parent c count) t u →
    Relation.TransGen (Parent c count) u u → (restoreSet p c count t).2 ≠ .ok
  /-- A terminal is refused when its parents lead to one that is missing. -/
  closed : ∀ t u, Relation.ReflTransGen (Parent c count) t u → (c.entry u).full = false →
    (∀ v, ¬ Parent c count u v) → (restoreSet p c count t).2 ≠ .ok
  /-- With a manifest listed twice, everything is refused. -/
  distinct : ∀ i j, 1 ≤ i → i < j → j ≤ count → (c.entry i).manifest = (c.entry j).manifest →
    (choose p c count).2.2 ≠ .ok ∧ ∀ t, (restoreSet p c count t).2 ≠ .ok
  /-- The walk ends: it takes no entry twice. -/
  bounded : ∀ t, (chain c count t).1.card ≤ count

lemma choose_iff : (choose p c count).2.2 = .ok ↔ ∃ t, (restoreSet p c count t).2 = .ok := by
  have hb := best_foldl p c count count
  unfold choose
  split_ifs with h
  · refine ⟨fun h1 => (by cases h1), fun ⟨t, ht⟩ => ?_⟩
    obtain ⟨hc, -, hp, -⟩ := restoreSet_ok (Prod.ext rfl ht)
    exact absurd h (by simp [hc, hp])
  · dsimp only
    split_ifs with h0
    · refine ⟨fun h1 => (by cases h1), fun ⟨t, ht⟩ => ?_⟩
      exact absurd ht ((hb.start h0).2 t (restoreSet_ok (Prod.ext rfl ht)).2.1.2)
    · exact ⟨fun _ => ⟨_, congrArg Prod.snd (hb.found h0).2.1⟩, fun _ => rfl⟩

lemma choose_best {m : Selection} (h : choose p c count = (t, m, .ok)) :
    restoreSet p c count t = (m, .ok)
      ∧ ∀ j, (restoreSet p c count j).2 = .ok → Preferred c t j := by
  have hb := best_foldl p c count count
  unfold choose at h
  split_ifs at h with h1
  · cases h
  · simp only [Prod.mk.injEq] at h
    obtain ⟨h2, h3, h4⟩ := h
    have h0 : ((indices count).foldl (better p c count) (0, ∅)).1 ≠ 0 := by
      intro h0
      rw [if_pos h0] at h4
      cases h4
    obtain ⟨-, hset, hpref⟩ := hb.found h0
    rw [h2, h3] at hset
    rw [h2] at hpref
    exact ⟨hset, fun j hj => hpref j (restoreSet_ok (Prod.ext rfl hj)).2.1.2 hj⟩

lemma restoreSet_acyclic (h : (restoreSet p c count t).2 = .ok)
    (htu : Relation.ReflTransGen (Parent c count) t u) :
    ¬ Relation.TransGen (Parent c count) u u := by
  obtain ⟨hc, -, -, l, hl⟩ := restoreSet_ok (Prod.ext rfl h)
  obtain ⟨l', h1⟩ := hl.path.reaches hc htu
  exact h1.acyclic hc

lemma restoreSet_closed (h : (restoreSet p c count t).2 = .ok)
    (htu : Relation.ReflTransGen (Parent c count) t u) (hu : (c.entry u).full = false) :
    ∃ v, Parent c count u v := by
  obtain ⟨hc, -, -, l, hl⟩ := restoreSet_ok (Prod.ext rfl h)
  obtain ⟨l', h1⟩ := hl.path.reaches hc htu
  cases h1 with
  | full h2 => rw [h2] at hu; cases hu
  | step h2 _ => exact ⟨_, h2⟩

/-- **Backup selection is sound and picks the best.** -/
theorem choose_sound (p : Policy) (c : Catalog) (count : ℕ) : Sound p c count where
  chosen := choose_iff
  best _ _ h := choose_best h
  complete _ _ h := (restoreSet_ok h).2.2.2
  acyclic _ _ htu hu h := restoreSet_acyclic h htu hu
  closed _ _ htu hu hv h := (restoreSet_closed h htu hu).elim hv
  distinct i j hi hij hj hm := by
    have hrefused : ∀ t, (restoreSet p c count t).2 ≠ .ok := by
      intro t h
      have := manifest_inj (restoreSet_ok (Prod.ext rfl h)).1 ⟨hi, by omega⟩ ⟨by omega, hj⟩ hm
      omega
    exact ⟨fun h => (choose_iff.1 h).elim hrefused, hrefused⟩
  bounded := chain_card c count

/-! ### A catalog with an entry that cannot be restored -/

/-- The policy of a site. -/
def policy : Policy where
  scope := Block.fill 16 1
  dataset := Block.fill 16 2
  lineage := Block.fill 16 3
  nowLower := Counter.ofNat 1000
  nowUpper := Counter.ofNat 1100
  minimumTrustEpoch := Counter.ofNat 1
  maximumTestAge := Counter.ofNat 500

/-- A copy in the store and the domain `n`. -/
def copy (n : ℕ) : CopyReceipt where
  storeId := Block.fill 16 (BitVec.ofNat 8 n)
  domainId := Fin.ofNat 65536 n
  objectHash := Block.fill 32 6
  receiptHash := Block.fill 32 7
  validUntil := Counter.ofNat 2000
  immutableUntil := Counter.ofNat 2000
  authenticated := true
  integrityVerified := true
  durable := true

def fullBackup : Backup where
  scope := policy.scope
  dataset := policy.dataset
  lineage := policy.lineage
  manifest := Block.fill 32 5
  payload := Block.fill 32 6
  restoreTestChain := commit zeroDigest (Block.fill 32 5)
  throughPosition := Counter.ofNat 10
  completedAt := Counter.ofNat 800
  testedAt := Counter.ofNat 900
  trustEpoch := Counter.ofNat 1
  full := true
  authenticated := true
  headerPayloadBound := true
  keyAvailable := true
  keyRevoked := false
  integrityIncident := false
  locations := ((Vector.replicate maxCopies {}).setIfInBounds 0 (copy 1)).setIfInBounds 1 (copy 2)

/-- An incremental backup whose parent is not listed. -/
def orphan : Backup :=
  { fullBackup with
    manifest := Block.fill 32 8
    parent := Block.fill 32 9
    fromPosition := Counter.ofNat 10
    throughPosition := Counter.ofNat 20
    full := false }

def catalog : Catalog :=
  ((Vector.replicate capacity {}).setIfInBounds 0 fullBackup).setIfInBounds 1 orphan

/-- A catalog with a missing parent is not refused as a whole: what can be restored is still
chosen. -/
theorem choose_beside_orphan :
    (catalog.entry 2).full = false ∧ (∀ v, ¬ Parent catalog 2 2 v)
      ∧ choose policy catalog 2 = (1, {1}, .ok) := by
  refine ⟨rfl, fun v hv => ?_, by decide +kernel⟩
  have h1 := hv.2.1
  have h2 := hv.2.2
  obtain rfl | rfl : v = 1 ∨ v = 2 := by omega
  · exact absurd h2 (by decide)
  · exact absurd h2 (by decide)

end NiayanAssurance.BackupsSpec
