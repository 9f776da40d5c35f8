import Mathlib.Data.List.Basic

/-!
Lists that are split at a separator.
-/

namespace NiayanAssurance.Lib

variable {α : Type*} [DecidableEq α] {x : α} {s t w : List α}

lemma not_mem_of_mem_splitOn (h : w ∈ s.splitOn x) : x ∉ w := by
  induction s generalizing w with
  | nil =>
    rw [List.splitOn_nil, List.mem_singleton] at h
    simp [h]
  | cons a s ih =>
    rw [List.splitOn_cons_eq_if_modifyHead] at h
    split at h
    · rcases List.mem_cons.mp h with rfl | h
      · simp
      · exact ih h
    · rename_i ha
      cases hs : s.splitOn x with
      | nil => exact absurd hs (List.splitOn_ne_nil _ _)
      | cons u l =>
        rw [hs, List.modifyHead_cons] at h
        rcases List.mem_cons.mp h with rfl | h
        · have := ih (hs ▸ List.mem_cons_self)
          simp only [beq_iff_eq] at ha
          simp [this, Ne.symm ha]
        · exact ih (hs ▸ List.mem_cons_of_mem _ h)

/-- What is before the first separator, and what is after it. -/
lemma append_cons_inj {u v : List α} (hs : x ∉ s) (ht : x ∉ t) (h : s ++ x :: u = t ++ x :: v) :
    s = t ∧ u = v := by
  have hw : ∀ {s : List α}, x ∉ s → ∀ u, (s ++ x :: u).takeWhile (· ≠ x) = s := fun {s} hs u => by
    rw [List.takeWhile_append_of_pos fun y hy => by simpa using fun e : y = x => hs (e ▸ hy)]
    simp
  obtain rfl : s = t := by rw [← hw hs u, h, hw ht]
  exact ⟨rfl, (List.cons.inj (List.append_cancel_left h)).2⟩

omit [DecidableEq α] in
/-- Parts that are each followed by the separator. -/
lemma flatMap_sep {l : List (List α)} (h : l ≠ []) :
    l.flatMap (· ++ [x]) = [x].intercalate l ++ [x] := by
  induction l with
  | nil => exact absurd rfl h
  | cons w l ih =>
    cases l with
    | nil => simp
    | cons w' l =>
      rw [List.flatMap_cons, ih nofun]
      simp [List.intercalate, List.intersperse]

lemma splitOn_inj (h : s.splitOn x = t.splitOn x) : s = t := by
  have hs : [x].intercalate (s.splitOn x) = s := List.intercalate_splitOn x
  rw [← hs, h, List.intercalate_splitOn]

/-- The first parts, put together and split again. -/
lemma splitOn_intercalate_take {n : ℕ} (hn : 0 < n) :
    ([x].intercalate ((s.splitOn x).take n)).splitOn x = (s.splitOn x).take n := by
  refine List.splitOn_intercalate x (fun w hw => ?_) fun h => ?_
  · exact not_mem_of_mem_splitOn (List.mem_of_mem_take hw)
  · rcases List.take_eq_nil_iff.mp h with h | h
    · omega
    · exact List.splitOn_ne_nil _ _ h

end NiayanAssurance.Lib
