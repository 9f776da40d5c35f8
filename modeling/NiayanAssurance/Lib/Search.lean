import Mathlib.Logic.Relation
import Mathlib.Data.List.Perm.Subperm
import Mathlib.Data.List.Nodup

/-!
Searching a graph from a node for a way back to it, with a stack and a set of what has been seen.

The start is not put into the set, so that it is recognised wherever an edge leads to it.
-/

namespace NiayanAssurance.Lib.Search

variable {α : Type} [DecidableEq α]

/-- What follows a node is gone through: what is new is seen, and put on the stack. None if it
leads back to `key`. -/
def expand (key : α) : List α → List α → List α → Option (List α × List α)
  | [], stack, seen => some (stack, seen)
  | x :: l, stack, seen =>
    if x = key then none
    else if x ∈ seen then expand key l stack seen
    else expand key l (x :: stack) (x :: seen)

/-- Whether there is a way back to `key`, with at most the given number of turns. There is no
result where the turns are not enough, or where `next` has none. -/
def search (next : α → Option (List α)) (key : α) : ℕ → List α → List α → Option Bool
  | _, [], _ => some false
  | 0, _ :: _, _ => none
  | turns + 1, node :: stack, seen => do
    let l ← next node
    match expand key l stack seen with
    | none => some true
    | some (stack, seen) => search next key turns stack seen

def Edge (next : α → Option (List α)) (x y : α) : Prop := ∃ l, next x = some l ∧ y ∈ l

def Closed (next : α → Option (List α)) (nodes : List α) : Prop :=
  ∀ x ∈ nodes, ∃ l, next x = some l ∧ ∀ y ∈ l, y ∈ nodes

variable {next : α → Option (List α)} {key : α} {nodes l stack seen : List α}

lemma expand_none : expand key l stack seen = none ↔ key ∈ l := by
  induction l generalizing stack seen with
  | nil => simp [expand]
  | cons x l ih =>
    rw [expand, List.mem_cons]
    split_ifs with h1 h2
    · simp [h1]
    · rw [ih]
      simp [Ne.symm h1]
    · rw [ih]
      simp [Ne.symm h1]

lemma expand_some {stack' seen' : List α} (h : expand key l stack seen = some (stack', seen')) :
    ∃ new, stack' = new ++ stack ∧ seen' = new ++ seen ∧ (seen.Nodup → seen'.Nodup)
      ∧ (∀ y ∈ new, y ∈ l ∧ y ≠ key) ∧ ∀ y ∈ l, y ∈ seen' := by
  induction l generalizing stack seen with
  | nil =>
    cases h
    exact ⟨[], rfl, rfl, id, nofun, nofun⟩
  | cons x l ih =>
    rw [expand] at h
    split_ifs at h with h1 h2
    · obtain ⟨new, h3, h4, h5, h6, h7⟩ := ih h
      refine ⟨new, h3, h4, h5, fun y hy => ⟨List.mem_cons_of_mem _ (h6 y hy).1, (h6 y hy).2⟩, ?_⟩
      refine List.forall_mem_cons.2 ⟨?_, h7⟩
      rw [h4]
      exact List.mem_append_right _ h2
    · obtain ⟨new, h3, h4, h5, h6, h7⟩ := ih h
      refine ⟨new ++ [x], by simp [h3], by simp [h4], fun hs => h5 (hs.cons h2), ?_, ?_⟩
      · intro y hy
        rcases List.mem_append.1 hy with hy | hy
        · exact ⟨List.mem_cons_of_mem _ (h6 y hy).1, (h6 y hy).2⟩
        · rw [List.mem_singleton.1 hy]
          exact ⟨List.mem_cons_self, h1⟩
      · refine List.forall_mem_cons.2 ⟨?_, h7⟩
        rw [h4]
        exact List.mem_append_right _ List.mem_cons_self

/-! ### The invariant -/

/-- What is known while no way back has been found. -/
structure Searched (next : α → Option (List α)) (key : α) (nodes stack seen : List α) : Prop where
  nodup : seen.Nodup
  seen_nodes : ∀ x ∈ seen, x ∈ nodes
  stack_nodes : ∀ x ∈ stack, x ∈ nodes
  reached : ∀ x ∈ stack, Relation.ReflTransGen (Edge next) key x
  key_unseen : key ∉ seen
  /-- What has been taken from the stack leads to nothing but what has been seen. -/
  done : ∀ x, x = key ∨ x ∈ seen → x ∈ stack ∨ ∀ y, Edge next x y → y ∈ seen

omit [DecidableEq α] in
lemma Searched.start (hk : key ∈ nodes) : Searched next key nodes [key] [] where
  nodup := List.nodup_nil
  seen_nodes := nofun
  stack_nodes := by simpa using hk
  reached x hx := List.mem_singleton.1 hx ▸ .refl
  key_unseen := List.not_mem_nil
  done x hx := by
    rcases hx with rfl | hx
    · exact .inl List.mem_cons_self
    · cases hx

lemma Searched.turn {node : α} {stack' seen' : List α} (hc : Closed next nodes)
    (h : Searched next key nodes (node :: stack) seen) (hl : next node = some l)
    (he : expand key l stack seen = some (stack', seen')) :
    Searched next key nodes stack' seen' := by
  have hkey : key ∉ l := fun hk => by
    rw [expand_none.2 hk] at he
    cases he
  obtain ⟨new, rfl, rfl, hnodup, hnew, hl'⟩ := expand_some he
  obtain ⟨l', hl₁, hnodes⟩ := hc node (h.stack_nodes _ List.mem_cons_self)
  obtain rfl : l = l' := Option.some.inj (hl.symm.trans hl₁)
  have hnode := h.reached node List.mem_cons_self
  refine ⟨hnodup h.nodup, fun x hx => ?_, fun x hx => ?_, fun x hx => ?_, fun hk => ?_,
    fun x hx => ?_⟩
  · rcases List.mem_append.1 hx with hx | hx
    · exact hnodes x (hnew x hx).1
    · exact h.seen_nodes x hx
  · rcases List.mem_append.1 hx with hx | hx
    · exact hnodes x (hnew x hx).1
    · exact h.stack_nodes x (List.mem_cons_of_mem _ hx)
  · rcases List.mem_append.1 hx with hx | hx
    · exact hnode.tail ⟨l, hl, (hnew x hx).1⟩
    · exact h.reached x (List.mem_cons_of_mem _ hx)
  · rcases List.mem_append.1 hk with hk | hk
    · exact (hnew key hk).2 rfl
    · exact h.key_unseen hk
  · by_cases hxn : x ∈ new
    · exact .inl (List.mem_append_left _ hxn)
    have hx' : x = key ∨ x ∈ seen := hx.imp_right fun hx =>
      (List.mem_append.1 hx).resolve_left hxn
    rcases h.done x hx' with hx | hx
    · rcases List.mem_cons.1 hx with rfl | hx
      · -- It is the node of this turn.
        refine .inr fun y ⟨l', hl₁, hy⟩ => hl' y ?_
        rwa [Option.some.inj (hl.symm.trans hl₁)]
      · exact .inl (List.mem_append_right _ hx)
    · exact .inr fun y hy => List.mem_append_right _ (hx y hy)

omit [DecidableEq α] in
lemma Searched.none (h : Searched next key nodes [] seen) :
    ¬ Relation.TransGen (Edge next) key key := by
  have hdone : ∀ x, x = key ∨ x ∈ seen → ∀ y, Edge next x y → y ∈ seen := fun x hx =>
    (h.done x hx).resolve_left List.not_mem_nil
  have hseen : ∀ y, Relation.TransGen (Edge next) key y → y ∈ seen := by
    intro y hy
    induction hy with
    | single hy => exact hdone key (.inl rfl) _ hy
    | tail _ hyz ih => exact hdone _ (.inr ih) _ hyz
  exact fun hk => h.key_unseen (hseen key hk)

/-! ### What the search says -/

/-- Every turn takes a node from the stack, and puts none on it but what is seen for the first
time. -/
lemma search_spec {turns : ℕ} (hc : Closed next nodes)
    (h : Searched next key nodes stack seen)
    (hturns : stack.length + (nodes.length - seen.length) ≤ turns) :
    ∃ found, search next key turns stack seen = some found
      ∧ (found = true ↔ Relation.TransGen (Edge next) key key) := by
  induction turns generalizing stack seen with
  | zero =>
    obtain rfl : stack = [] := List.length_eq_zero_iff.1 (by omega)
    exact ⟨false, rfl, iff_of_false nofun h.none⟩
  | succ turns ih =>
    cases stack with
    | nil => exact ⟨false, rfl, iff_of_false nofun h.none⟩
    | cons node stack =>
      obtain ⟨l, hl, -⟩ := hc node (h.stack_nodes _ List.mem_cons_self)
      rw [search, hl, Option.bind_eq_bind, Option.bind_some]
      cases he : expand key l stack seen with
      | none =>
        have hnode := h.reached node List.mem_cons_self
        exact ⟨true, rfl, iff_of_true rfl (Relation.TransGen.tail' hnode ⟨l, hl, expand_none.1 he⟩)⟩
      | some s =>
        obtain ⟨stack', seen'⟩ := s
        have h' := h.turn hc hl he
        refine ih h' ?_
        obtain ⟨new, rfl, rfl, -, -, -⟩ := expand_some he
        have hle : (new ++ seen).length ≤ nodes.length :=
          (h'.nodup.subperm fun x hx => h'.seen_nodes x hx).length_le
        simp only [List.length_append, List.length_cons] at hle hturns ⊢
        omega

/-- **The search ends, and finds a way back exactly where there is one**, of any length. -/
theorem search_iff {turns : ℕ} (hc : Closed next nodes) (hk : key ∈ nodes)
    (hturns : nodes.length + 1 ≤ turns) :
    ∃ found, search next key turns [key] [] = some found
      ∧ (found = true ↔ Relation.TransGen (Edge next) key key) :=
  search_spec hc (.start hk) (by simpa [Nat.add_comm] using hturns)

end NiayanAssurance.Lib.Search
