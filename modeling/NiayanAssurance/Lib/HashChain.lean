import Mathlib.Data.List.Induction

/-!
Chains of records in which each record carries its own number and the digest of the record
before it.

The digest is any function. What a chain commits to rests on the digest telling apart the
records at hand, which each result asks for where it needs it.
-/

namespace NiayanAssurance.Lib

variable {α δ : Type*}

/-- How records of a chain refer to each other. -/
structure Links (α δ : Type*) where
  digest : α → δ
  previous : α → δ
  sequence : α → ℕ
  /-- What the first record names as its predecessor. -/
  genesis : δ

namespace Links

variable (L : Links α δ)

/-- The digest that the next record has to carry. -/
def head (es : List α) : δ := (es.getLast?.map L.digest).getD L.genesis

@[simp] lemma head_nil : L.head [] = L.genesis := rfl
@[simp] lemma head_snoc (es : List α) (e : α) : L.head (es ++ [e]) = L.digest e := by
  simp [head]

/-- Records numbered from 1, each linked to the one before it. -/
inductive Chain : List α → Prop
  | nil : Chain []
  | snoc {es : List α} {e : α} : Chain es → L.sequence e = es.length + 1 →
      L.previous e = L.head es → Chain (es ++ [e])

namespace Chain

variable {L} {es xs ys : List α} {e : α} {i j : ℕ}

lemma snoc_iff : L.Chain (es ++ [e]) ↔
    L.Chain es ∧ L.sequence e = es.length + 1 ∧ L.previous e = L.head es := by
  constructor
  · intro h
    generalize hm : es ++ [e] = m at h
    cases h with
    | nil => simp at hm
    | snoc h1 h2 h3 =>
      obtain ⟨rfl, he⟩ := List.append_inj' hm rfl
      cases he
      exact ⟨h1, h2, h3⟩
  · exact fun h => h.1.snoc h.2.1 h.2.2

/-- A chain cut short is a chain. -/
theorem take (h : L.Chain es) (n : ℕ) : L.Chain (es.take n) := by
  induction h with
  | nil => simpa using Chain.nil
  | @snoc es e hc hs hp ih =>
    rcases Nat.lt_or_ge es.length n with hn | hn
    · rw [List.take_of_length_le (by simp; omega)]
      exact hc.snoc hs hp
    · rw [List.take_append_of_le_length hn]
      exact ih

/-- What a record of a chain carries. -/
theorem getElem (h : L.Chain es) (hi : es[i]? = some e) :
    L.sequence e = i + 1 ∧ L.previous e = L.head (es.take i) := by
  induction h with
  | nil => simp at hi
  | @snoc es x hc hs hp ih =>
    rcases Nat.lt_trichotomy i es.length with hlt | rfl | hgt
    · rw [List.getElem?_append_left hlt] at hi
      rw [List.take_append_of_le_length (Nat.le_of_lt hlt)]
      exact ih hi
    · rw [List.getElem?_append_right (Nat.le_refl _), Nat.sub_self] at hi
      cases hi
      rw [List.take_left]
      exact ⟨hs, hp⟩
    · rw [List.getElem?_eq_none (by simp; omega)] at hi
      cases hi

lemma sequence_eq (h : L.Chain es) (hi : es[i]? = some e) : L.sequence e = i + 1 :=
  (h.getElem hi).1

/-- **A record commits to all before it.** When two chains share a record, it has one place
in both, and they agree up to it. -/
theorem agree (hx : L.Chain xs) (hy : L.Chain ys)
    (hinj : ∀ a ∈ xs, ∀ b ∈ ys, L.digest a = L.digest b → a = b)
    (hi : xs[i]? = some e) (hj : ys[j]? = some e) :
    i = j ∧ xs.take (i + 1) = ys.take (i + 1) := by
  have hij : i = j := by
    have h1 := hx.sequence_eq hi
    have h2 := hy.sequence_eq hj
    omega
  subst hij
  refine ⟨rfl, ?_⟩
  induction i generalizing e with
  | zero => rw [List.take_add_one, List.take_add_one, hi, hj]; simp
  | succ i ih =>
    have hix : i < xs.length := by
      have := (List.getElem?_eq_some_iff.mp hi).1
      omega
    have hiy : i < ys.length := by
      have := (List.getElem?_eq_some_iff.mp hj).1
      omega
    -- the records before this one have the digest that it names
    have hpx := (hx.getElem hi).2
    have hpy := (hy.getElem hj).2
    rw [List.take_succ_eq_append_getElem hix, head_snoc] at hpx
    rw [List.take_succ_eq_append_getElem hiy, head_snoc] at hpy
    have hsame : xs[i] = ys[i] :=
      hinj _ (List.getElem_mem hix) _ (List.getElem_mem hiy) (hpx.symm.trans hpy)
    have htake := ih (e := xs[i]) (List.getElem?_eq_getElem hix)
      (by rw [hsame]; exact List.getElem?_eq_getElem hiy)
    rw [List.take_add_one, List.take_add_one (l := ys), htake, hi, hj]

end Chain

end Links

end NiayanAssurance.Lib
