import NiayanAssurance.Lib.Program

/-!
The record of what a program has asked its host and been answered, and the rules by which what
holds of that record at the end is proved for every sequence of answers.
-/

namespace NiayanAssurance.Lib

/-- Calls with their answers, in order. -/
abbrev Trace (ι : Type) (ρ : ι → Type) := List ((c : ι) × ρ c)

namespace Program

variable {ι : Type} {ρ : ι → Type} {α β : Type}

/-- The host that answers as `f` says, which may depend on all that has been before. -/
def recording (f : Trace ι ρ → (c : ι) → ρ c) (c : ι) (t : Trace ι ρ) : ρ c × Trace ι ρ :=
  (f t c, t ++ [⟨c, f t c⟩])

/-- After `t`, the program ends in `Q` if it is answered in any way whatever. -/
def Always (Q : α → Trace ι ρ → Prop) : Program ι ρ α → Trace ι ρ → Prop
  | .done a, t => Q a t
  | .call c k, t => ∀ r, (k r).Always Q (t ++ [⟨c, r⟩])

variable {p : Program ι ρ α} {f : α → Program ι ρ β} {P Q : α → Trace ι ρ → Prop}
  {R : β → Trace ι ρ → Prop} {t : Trace ι ρ}

lemma Always.mono (h : p.Always P t) (hp : ∀ a t, P a t → Q a t) : p.Always Q t := by
  induction p generalizing t with
  | done a => exact hp a t h
  | call c k ih => exact fun r => ih r (h r)

/-- **The rule for one program after another.** -/
theorem Always.bind (h : p.Always P t) (hf : ∀ a t, P a t → (f a).Always R t) :
    (p >>= f).Always R t := by
  induction p generalizing t with
  | done a => exact hf a t h
  | call c k ih => exact fun r => ih r (h r)

lemma always_true : p.Always (fun _ _ => True) t := by
  induction p generalizing t with
  | done a => exact trivial
  | call c k ih => exact fun r => ih r

lemma always_pure {a : α} (h : Q a t) : (pure a : Program ι ρ α).Always Q t := h

/-- **The rule for one call.** -/
lemma always_ask {c : ι} {f : ρ c → Program ι ρ β} (h : ∀ r, (f r).Always R (t ++ [⟨c, r⟩])) :
    (ask c >>= f).Always R t := h

/-- The record is only added to. -/
lemma Always.extends (h : p.Always Q t) : p.Always (fun a t' => Q a t' ∧ t <+: t') t := by
  induction p generalizing t with
  | done a => exact ⟨h, List.prefix_refl t⟩
  | call c k ih =>
    exact fun r => (ih r (h r)).mono fun a t' h => ⟨h.1, (List.prefix_append _ _).trans h.2⟩

/-- What always holds at the end holds at the end of a run. -/
theorem Always.run (h : p.Always Q t) (f : Trace ι ρ → (c : ι) → ρ c) :
    Q (p.run (recording f) t).1 (p.run (recording f) t).2 := by
  induction p generalizing t with
  | done a => exact h
  | call c k ih => exact ih _ (h _)

/-- What a program adds to the record are calls in `S`. -/
theorem Uses.always {S : ι → Prop} (h : p.Uses S) :
    p.Always (fun _ t' => ∃ u, t' = t ++ u ∧ ∀ x ∈ u, S x.1) t := by
  induction p generalizing t with
  | done a => exact ⟨[], (List.append_nil t).symm, nofun⟩
  | call c k ih =>
    refine fun r => (ih r (h.2 r)).mono fun a t' ⟨u, hu, hs⟩ => ⟨⟨c, r⟩ :: u, ?_, ?_⟩
    · rw [hu, List.append_assoc, List.singleton_append]
    · rintro x hx
      rcases List.mem_cons.1 hx with rfl | hx
      · exact h.1
      · exact hs x hx

end Program

end NiayanAssurance.Lib
