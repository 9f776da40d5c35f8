import NiayanAssurance.Lib.Bytes
import Mathlib.Data.List.Lex
import Mathlib.Data.List.DropRight
import Mathlib.Data.List.Sort

/-!
Sorting in place by a strict order, and the order of byte strings.
-/

namespace NiayanAssurance.Lib

section Sorts

variable {α : Type} (r : α → α → Prop) [DecidableRel r]

/-- `x`, whose place is `j`, is moved down past those that it is less than. -/
def place (x : α) : (j : ℕ) → List α → List α
  | 0, l => l.set 0 x
  | j + 1, l =>
    match l[j]? with
    | none => l
    | some y => if r x y then place x j (l.set (j + 1) y) else l.set (j + 1) x

/-- One item after the other is moved down to its place among those before it. -/
def insertionSort (l : List α) : List α :=
  (List.range' 1 (l.length - 1)).foldl
    (fun l i => match l[i]? with | none => l | some x => place r x i l) l

/-- `x` is compared with one item after the other, and exchanged for every smaller one. -/
def pass (x : α) : List α → α × List α
  | [] => (x, [])
  | y :: l =>
    if r y x then ((pass y l).1, x :: (pass y l).2) else ((pass x l).1, y :: (pass x l).2)

/-- The first place gets the smallest item, then the second one, and so on; `n` is the number of
items. -/
def exchange : (n : ℕ) → List α → List α
  | n + 1, x :: l => (pass r x l).1 :: exchange n (pass r x l).2
  | _, l => l

def exchangeSort (l : List α) : List α := exchange r l.length l

section Insertion

variable {r} {x : α} {l : List α}

lemma place_eq (x y : α) (l rest : List α) : place r x l.length (l ++ y :: rest)
    = l.rdropWhile (r x ·) ++ x :: (l.rtakeWhile (r x ·) ++ rest) := by
  induction l using List.reverseRecOn generalizing y rest with
  | nil => rfl
  | append_singleton l z ih =>
    have h1 : (l ++ [z] ++ y :: rest)[l.length]? = some z := by simp
    rw [List.length_append, List.length_singleton, place, h1]
    dsimp only
    by_cases hz : r x z
    · rw [if_pos hz, List.rdropWhile_concat_pos _ _ _ (by simpa using hz),
        List.rtakeWhile_concat_pos _ _ _ (by simpa using hz)]
      have h2 : (l ++ [z] ++ y :: rest).set (l.length + 1) z = l ++ z :: (z :: rest) := by
        simp
      rw [h2, ih]
      simp
    · rw [if_neg hz, List.rdropWhile_concat_neg _ _ _ (by simpa using hz),
        List.rtakeWhile_concat_neg _ _ _ (by simpa using hz)]
      simp

lemma length_place (x : α) (j : ℕ) (l : List α) : (place r x j l).length = l.length := by
  induction j generalizing l with
  | zero => exact List.length_set
  | succ j ih =>
    rw [place]
    split
    · rfl
    · split
      · rw [ih, List.length_set]
      · exact List.length_set

lemma length_insertionSort (l : List α) : (insertionSort r l).length = l.length := by
  unfold insertionSort
  generalize List.range' 1 (l.length - 1) = is
  induction is generalizing l with
  | nil => rfl
  | cons i is ih =>
    rw [List.foldl_cons, ih]
    split
    · rfl
    · exact length_place _ _ _

lemma place_perm (x y : α) (l rest : List α) :
    (place r x l.length (l ++ y :: rest)).Perm (l ++ x :: rest) := by
  rw [place_eq]
  conv_rhs => rw [← List.rdropWhile_append_rtakeWhile (p := (r x ·)) (l := l), List.append_assoc]
  exact List.Perm.append_left _ List.perm_middle.symm

variable [IsTrans α r] [Std.Trichotomous r]

/-- A new item among items in order. -/
lemma place_pairwise (hl : l.Pairwise r) (hx : x ∉ l) :
    (l.rdropWhile (r x ·) ++ x :: l.rtakeWhile (r x ·)).Pairwise r := by
  have hs : l.rdropWhile (r x ·) ++ l.rtakeWhile (r x ·) = l := List.rdropWhile_append_rtakeWhile
  have hl' := hl
  rw [← hs, List.pairwise_append] at hl'
  obtain ⟨h1, h2, h3⟩ := hl'
  have hgt : ∀ b ∈ l.rtakeWhile (r x ·), r x b := fun b hb => by
    simpa using List.mem_rtakeWhile_imp hb
  have hlt : ∀ a ∈ l.rdropWhile (r x ·), r a x := by
    intro a ha
    -- The last of those that stay in place is not greater than `x`, hence less.
    have hne : l.rdropWhile (r x ·) ≠ [] := List.ne_nil_of_mem ha
    obtain ⟨init, g, hg⟩ := List.eq_nil_or_concat _ |>.resolve_left hne
    have hnot := List.rdropWhile_last_not (r x ·) l hne
    have hmem : g ∈ l := by
      rw [← hs, hg]
      simp
    have hgx : r g x := by
      have hn : ¬ r x g := by simpa [hg] using hnot
      by_contra hc
      exact hx (Std.Trichotomous.trichotomous x g hn hc ▸ hmem)
    rw [hg, List.concat_eq_append] at ha h1
    rcases List.mem_append.1 ha with ha | ha
    · exact Trans.trans ((List.pairwise_append.1 h1).2.2 a ha g (List.mem_singleton_self g)) hgx
    · rwa [List.mem_singleton.1 ha]
  refine List.pairwise_append.2 ⟨h1, List.pairwise_cons.2 ⟨hgt, h2⟩, fun a ha b hb => ?_⟩
  rcases List.mem_cons.1 hb with rfl | hb
  · exact hlt a ha
  · exact h3 a ha b hb

/-- **Sorting by insertion** puts different items into strict order. -/
theorem insertionSort_spec (hl : l.Nodup) :
    (insertionSort r l).Perm l ∧ (insertionSort r l).Pairwise r := by
  let f : List α → ℕ → List α := fun l i => match l[i]? with
    | none => l
    | some x => place r x i l
  suffices h : ∀ k ≤ l.length - 1, ((List.range' 1 k).foldl f l).Perm l
      ∧ (((List.range' 1 k).foldl f l).take (k + 1)).Pairwise r by
    obtain ⟨h1, h2⟩ := h _ le_rfl
    refine ⟨h1, ?_⟩
    rwa [List.take_of_length_le (by have := h1.length_eq; omega)] at h2
  intro k hk
  induction k with
  | zero =>
    refine ⟨.refl _, ?_⟩
    cases l with
    | nil => exact List.Pairwise.nil
    | cons x l => exact List.pairwise_singleton _ _
  | succ k ih =>
    obtain ⟨h1, h2⟩ := ih (by omega)
    rw [List.range'_concat, List.foldl_append]
    generalize hm : (List.range' 1 k).foldl f l = m at h1 h2
    have hlen : 1 + k < m.length := by
      rw [h1.length_eq]
      omega
    have hget : m[1 + 1 * k]? = some m[1 + k] := by rw [Nat.one_mul, List.getElem?_eq_getElem hlen]
    have hf : [1 + 1 * k].foldl f m = place r m[1 + k] (1 + k) m := by
      show f m (1 + 1 * k) = _
      simp only [f]
      rw [hget, Nat.one_mul]
    have hsplit : m = m.take (1 + k) ++ m[1 + k] :: m.drop (1 + k + 1) := by
      rw [← List.drop_eq_getElem_cons hlen, List.take_append_drop]
    have htake : (m.take (1 + k)).length = 1 + k := by
      rw [List.length_take]
      omega
    have hplace := place_eq (r := r) m[1 + k] m[1 + k] (m.take (1 + k)) (m.drop (1 + k + 1))
    have hperm := place_perm (r := r) m[1 + k] m[1 + k] (m.take (1 + k)) (m.drop (1 + k + 1))
    rw [htake, ← hsplit] at hplace hperm
    rw [hf]
    refine ⟨hperm.trans h1, ?_⟩
    have hnot : m[1 + k] ∉ m.take (1 + k) := by
      have hd : (m.take (1 + k) ++ m[1 + k] :: m.drop (1 + k + 1)).Nodup :=
        hsplit ▸ h1.nodup_iff.2 hl
      intro hin
      exact (List.nodup_append.1 hd).2.2 _ hin _ List.mem_cons_self rfl
    have hpw := place_pairwise (x := m[1 + k]) (by rwa [Nat.add_comm]) hnot
    rw [hplace, ← List.cons_append, ← List.append_assoc, List.take_append_of_le_length]
    · exact hpw.sublist (List.take_sublist _ _)
    · have hs := congrArg List.length
        (List.rdropWhile_append_rtakeWhile (p := (r m[1 + k] ·)) (l := m.take (1 + k)))
      rw [List.length_append, htake] at hs
      rw [List.length_append, List.length_cons]
      omega

end Insertion

section Exchange

variable {r} {x : α} {l : List α}

lemma pass_perm (x : α) (l : List α) : ((pass r x l).1 :: (pass r x l).2).Perm (x :: l) := by
  induction l generalizing x with
  | nil => exact .refl _
  | cons y l ih =>
    rw [pass]
    split
    · exact (List.Perm.swap _ _ _).trans ((ih y).cons x)
    · exact (List.Perm.swap _ _ _).trans (((ih x).cons y).trans (List.Perm.swap _ _ _))

lemma length_pass (x : α) (l : List α) : (pass r x l).2.length = l.length := by
  have := (pass_perm (r := r) x l).length_eq
  simpa using this

lemma exchange_perm (n : ℕ) (l : List α) : (exchange r n l).Perm l := by
  induction n generalizing l with
  | zero => exact .refl _
  | succ n ih =>
    cases l with
    | nil => exact .refl _
    | cons x l => exact ((ih _).cons _).trans (pass_perm x l)

variable [IsTrans α r] [Std.Trichotomous r]

/-- What a pass finds is smaller than all that it leaves. -/
lemma pass_least (hl : (x :: l).Nodup) : ∀ y ∈ (pass r x l).2, r (pass r x l).1 y := by
  induction l generalizing x with
  | nil => exact nofun
  | cons z l ih =>
    obtain ⟨hx, hz⟩ := List.nodup_cons.1 hl
    obtain ⟨hxz, hxl⟩ : x ≠ z ∧ x ∉ l := by simpa using hx
    have hfirst : ∀ w, (w :: l).Nodup → w = (pass r w l).1 ∨ r (pass r w l).1 w := by
      intro w hw
      rcases List.mem_cons.1 ((pass_perm (r := r) w l).mem_iff.2 List.mem_cons_self) with h | h
      · exact .inl h
      · exact .inr (ih hw w h)
    rw [pass]
    split_ifs with h <;> dsimp only <;> intro y hy <;> rcases List.mem_cons.1 hy with rfl | hy
    · rcases hfirst z hz with h1 | h1
      · rwa [← h1]
      · exact Trans.trans h1 h
    · exact ih hz y hy
    · have hlt : r x y := by
        by_contra hc
        exact hxz (Std.Trichotomous.trichotomous x y hc h)
      rcases hfirst x (List.nodup_cons.2 ⟨hxl, (List.nodup_cons.1 hz).2⟩) with h1 | h1
      · rwa [← h1]
      · exact Trans.trans h1 hlt
    · exact ih (List.nodup_cons.2 ⟨hxl, (List.nodup_cons.1 hz).2⟩) y hy

/-- **Sorting by exchange** puts different items into strict order. -/
theorem exchangeSort_spec (hl : l.Nodup) :
    (exchangeSort r l).Perm l ∧ (exchangeSort r l).Pairwise r := by
  refine ⟨exchange_perm _ _, ?_⟩
  unfold exchangeSort
  generalize hn : l.length = n
  induction n generalizing l with
  | zero =>
    rw [List.length_eq_zero_iff.1 hn]
    exact List.Pairwise.nil
  | succ n ih =>
    obtain ⟨x, l, rfl⟩ : ∃ x m, l = x :: m := List.exists_cons_of_length_eq_add_one hn
    have hd : ((pass r x l).1 :: (pass r x l).2).Nodup := (pass_perm x l).nodup_iff.2 hl
    refine List.pairwise_cons.2 ⟨fun y hy => ?_, ih (List.nodup_cons.1 hd).2 ?_⟩
    · exact pass_least hl y ((exchange_perm n _).mem_iff.1 hy)
    · rw [length_pass]
      exact Nat.succ.inj hn

end Exchange

end Sorts

/-- Lists in one strict order with the same members are the same. -/
lemma eq_of_pairwise {α : Type} {r : α → α → Prop} [Std.Asymm r] {l l' : List α}
    (h : l.Pairwise r) (h' : l'.Pairwise r) (hm : ∀ x, x ∈ l ↔ x ∈ l') : l = l' := by
  have hd : ∀ {l : List α}, l.Pairwise r → l.Nodup := fun h => by
    refine h.imp ?_
    rintro a b hab rfl
    exact Std.Asymm.asymm a a hab hab
  have he : ∀ a b, a ∈ l → b ∈ l' → r a b → r b a → a = b := fun a b _ _ hab hba =>
    absurd hba (Std.Asymm.asymm a b hab)
  exact List.Perm.eq_of_pairwise he h h' ((List.perm_ext_iff_of_nodup (hd h) (hd h')).2 hm)

/-! ### The order of byte strings -/

/-- `a < b`, byte by byte. -/
def Before (a b : Bytes) : Prop := List.Lex (fun x y : Byte => x.toNat < y.toNat) a b

namespace Before

instance : DecidableRel Before := fun _ _ => inferInstanceAs (Decidable (List.Lex _ _ _))

instance : Std.Asymm fun x y : Byte => x.toNat < y.toNat := ⟨fun _ _ h => Nat.lt_asymm h⟩

instance : Std.Trichotomous fun x y : Byte => x.toNat < y.toNat :=
  ⟨fun x y h h' => BitVec.eq_of_toNat_eq (by omega)⟩

instance : Std.Asymm Before := List.Lex.asymm _

instance : Std.Trichotomous Before := List.Lex.trichotomous _

lemma trans {a b c : Bytes} (h : Before a b) (h' : Before b c) : Before a c := by
  unfold Before at h h' ⊢
  induction h generalizing c with
  | nil => cases h' <;> exact .nil
  | rel hr =>
    cases h' with
    | rel hr' => exact .rel (hr.trans hr')
    | cons _ => exact .rel hr
  | cons _ ih =>
    cases h' with
    | rel hr' => exact .rel hr'
    | cons h' => exact .cons (ih h')

instance : IsTrans Bytes Before := ⟨fun _ _ _ => trans⟩

end Before

end NiayanAssurance.Lib
