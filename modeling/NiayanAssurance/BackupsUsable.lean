import NiayanAssurance.Backups
import Mathlib.Data.List.OfFn
import Mathlib.Data.Finset.Card
import Mathlib.Data.Fintype.Card

/-!
What makes a backup usable, by the set of its copies that count and the set of domains in which
they lie.
-/

namespace NiayanAssurance.BackupsUsable

open NiayanAssurance.Lib NiayanAssurance.Types NiayanAssurance.Backups

/-- `B.Locations (I)`. -/
def location (b : Backup) (i : Fin maxCopies) : CopyReceipt := b.locations.get i

/-- The slots whose copies count. -/
def acceptedSlots (p : Policy) (b : Backup) : Finset (Fin maxCopies) :=
  {i | Accepted p b (location b i)}

/-- The domains in which they lie. -/
def acceptedDomains (p : Policy) (b : Backup) : Finset (Fin 65536) :=
  (acceptedSlots p b).image fun i => (location b i).domainId

/-- No store is named by two slots. -/
def DistinctStores (b : Backup) : Prop :=
  ∀ i j : Fin maxCopies, i ≠ j → (location b i).storeId ≠ zeroIdentity →
    (location b i).storeId ≠ (location b j).storeId

variable {p : Policy} {b : Backup} {l : List CopyReceipt}

/-! ### The loop over the copies -/

/-- No store of the copies is named again later. -/
def Fresh (l : List CopyReceipt) : Prop :=
  l.Pairwise fun x y => y.storeId ≠ zeroIdentity → y.storeId ≠ x.storeId

/-- What the loop has found after the copies `l`. -/
def found (p : Policy) (b : Backup) (l : List CopyReceipt) : Tally where
  seen := l
  accepted := l.filter (Accepted p b ·)
  total := (l.filter (Accepted p b ·)).length
  domains := ((l.filter (Accepted p b ·)).map (·.domainId)).toFinset.card

lemma fresh_snoc {x : CopyReceipt} :
    Fresh (l ++ [x]) ↔ Fresh l ∧ ∀ y ∈ l, x.storeId ≠ zeroIdentity → x.storeId ≠ y.storeId := by
  simp [Fresh, List.pairwise_append]

/-- One turn of the loop. -/
lemma tally_found (x : CopyReceipt) (h : ∀ y ∈ l, x.storeId ≠ zeroIdentity →
    x.storeId ≠ y.storeId) : tally p b (found p b l) x = some (found p b (l ++ [x])) := by
  unfold tally
  rw [if_neg (by rintro ⟨h0, y, hy, he⟩; exact h y hy h0 he)]
  by_cases hx : Accepted p b x
  · have hf : (l ++ [x]).filter (Accepted p b ·) = l.filter (Accepted p b ·) ++ [x] := by
      simp [List.filter_append, hx]
    rw [if_pos hx]
    unfold found
    simp only [hf, List.map_append, List.length_append, List.toFinset_append, List.map_cons,
      List.map_nil, List.length_singleton, List.toFinset_cons, List.toFinset_nil]
    congr 2
    -- The domain of `x` is counted if and only if it is not among those counted before.
    split_ifs with hd
    · obtain ⟨y, hy, he⟩ := hd
      rw [Finset.union_eq_left.2]
      rw [insert_empty_eq, Finset.singleton_subset_iff, List.mem_toFinset]
      exact List.mem_map.2 ⟨y, hy, he⟩
    · rw [Finset.union_comm, Finset.insert_union, Finset.empty_union, Finset.card_insert_of_notMem]
      rw [List.mem_toFinset, List.mem_map]
      exact hd
  · have hf : (l ++ [x]).filter (Accepted p b ·) = l.filter (Accepted p b ·) := by
      simp [List.filter_append, hx]
    rw [if_neg hx]
    unfold found
    rw [hf]

/-- **What the loop finds**, if it does not end at a store that is named twice. -/
theorem foldlM_tally (l : List CopyReceipt) (t : Tally) :
    l.foldlM (tally p b) {} = some t ↔ Fresh l ∧ t = found p b l := by
  induction l using List.reverseRecOn generalizing t with
  | nil =>
    have h : found p b [] = {} := rfl
    rw [h]
    simp [Fresh, eq_comm]
  | append_singleton l x ih =>
    rw [List.foldlM_append, Option.bind_eq_bind, Option.bind_eq_some_iff]
    simp only [ih, List.foldlM_cons, List.foldlM_nil, Option.bind_eq_bind, Option.pure_def,
      Option.bind_fun_some]
    rw [fresh_snoc]
    constructor
    · rintro ⟨-, ⟨hf, rfl⟩, ht⟩
      by_cases h : ∀ y ∈ l, x.storeId ≠ zeroIdentity → x.storeId ≠ y.storeId
      · rw [tally_found x h, Option.some.injEq] at ht
        exact ⟨⟨hf, h⟩, ht.symm⟩
      · push Not at h
        obtain ⟨y, hy, h0, he⟩ := h
        unfold tally at ht
        rw [if_pos ⟨h0, y, hy, he⟩] at ht
        cases ht
    · rintro ⟨⟨hf, h⟩, rfl⟩
      exact ⟨_, ⟨hf, rfl⟩, tally_found x h⟩

/-! ### The slots -/

lemma locations_toList (b : Backup) : b.locations.toList = List.ofFn (location b) := by
  refine List.ext_getElem (by simp) fun i h1 h2 => ?_
  rw [List.getElem_ofFn, Vector.getElem_toList]
  rfl

lemma filter_locations (p : Policy) (b : Backup) :
    b.locations.toList.filter (Accepted p b ·)
      = ((List.finRange maxCopies).filter (Accepted p b <| location b ·)).map (location b) := by
  rw [locations_toList, List.ofFn_eq_map, List.filter_map]
  rfl

lemma toFinset_slots (p : Policy) (b : Backup) :
    ((List.finRange maxCopies).filter (Accepted p b <| location b ·)).toFinset
      = acceptedSlots p b := by
  ext i
  simp [acceptedSlots]

lemma found_total (p : Policy) (b : Backup) :
    (found p b b.locations.toList).total = (acceptedSlots p b).card := by
  have hd := (List.nodup_finRange maxCopies).filter (Accepted p b <| location b ·)
  unfold found
  dsimp only
  rw [filter_locations, List.length_map, ← toFinset_slots, List.toFinset_card_of_nodup hd]

lemma found_domains (p : Policy) (b : Backup) :
    (found p b b.locations.toList).domains = (acceptedDomains p b).card := by
  unfold found acceptedDomains
  dsimp only
  rw [filter_locations, ← toFinset_slots, List.map_map]
  congr 1
  ext d
  simp

lemma fresh_locations (b : Backup) : Fresh b.locations.toList ↔ DistinctStores b := by
  unfold Fresh
  rw [locations_toList, List.pairwise_ofFn]
  constructor
  · intro h i j hij h0 he
    rcases lt_or_gt_of_ne hij with h1 | h1
    · exact h h1 (he ▸ h0) he.symm
    · exact h h1 h0 he
  · intro h i j hij h0
    exact h j i (ne_of_gt hij) h0

lemma found_le (l : List CopyReceipt) :
    (found p b l).domains ≤ (found p b l).total ∧ (found p b l).total ≤ l.length := by
  refine ⟨(List.toFinset_card_le _).trans ?_, List.length_filter_le _ _⟩
  rw [List.length_map]
  exact le_rfl

/-- **What makes a backup usable.** It is eligible, no store is named by two slots, and there are
enough copies that count, in enough domains. The sums that are taken on the way are all in
range. -/
theorem usable_iff (p : Policy) (b : Backup) :
    (usable p b = true ↔ Eligible p b ∧ DistinctStores b
      ∧ p.minimumCopies ≤ (acceptedSlots p b).card
      ∧ p.minimumDomains ≤ (acceptedDomains p b).card) ∧
    (p.Valid → (p.nowUpper : ℕ) + p.immutableFor ≤ Counter.last) ∧
    ∀ n t, (b.locations.toList.take n).foldlM (tally p b) {} = some t →
      t.total ≤ maxCopies ∧ t.domains ≤ maxCopies := by
  refine ⟨?_, fun hv => ?_, fun n t ht => ?_⟩
  · unfold usable
    by_cases he : Eligible p b
    swap
    · simp [he]
    rw [if_neg (not_not.2 he), ← fresh_locations, ← found_total, ← found_domains]
    cases hf : b.locations.toList.foldlM (tally p b) {} with
    | none =>
      have hn : ¬ Fresh b.locations.toList := fun h => by
        rw [(foldlM_tally _ _).2 ⟨h, rfl⟩] at hf
        cases hf
      simp [hn]
    | some t =>
      obtain ⟨h, rfl⟩ := (foldlM_tally _ _).1 hf
      simp [he, h]
  · have h1 := p.nowUpper.le_last
    have h2 := hv.2.2.2.2.2.2.2
    omega
  · obtain ⟨-, rfl⟩ := (foldlM_tally _ _).1 ht
    have h1 := found_le (p := p) (b := b) (b.locations.toList.take n)
    have h2 : (b.locations.toList.take n).length ≤ maxCopies := by simp
    omega

end NiayanAssurance.BackupsUsable
