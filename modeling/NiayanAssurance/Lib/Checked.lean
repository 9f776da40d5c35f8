import Mathlib.Data.List.Forall2

/-!
Checks that are made one after the other, and what is known when none of them has failed.
-/

namespace NiayanAssurance.Lib

variable {ε α β : Type}

@[simp] lemma bind_ok {x : Except ε α} {f : α → Except ε β} {b : β} :
    (x >>= f) = .ok b ↔ ∃ a, x = .ok a ∧ f a = .ok b := by
  cases x with
  | error e => exact ⟨nofun, fun ⟨a, h, _⟩ => nomatch h⟩
  | ok a => exact ⟨fun h => ⟨a, rfl, h⟩, fun ⟨b, h, h'⟩ => by cases h; exact h'⟩

@[simp] lemma pure_ok {a b : α} : (pure a : Except ε α) = .ok b ↔ a = b :=
  ⟨Except.ok.inj, congrArg _⟩

/-- What is made of every item of a list. -/
lemma mapM_ok {f : α → Except ε β} {l : List α} {r : List β} :
    l.mapM f = .ok r ↔ List.Forall₂ (fun a b => f a = .ok b) l r := by
  induction l generalizing r with
  | nil =>
    rw [List.mapM_nil, pure_ok, List.forall₂_nil_left_iff]
    exact eq_comm
  | cons a l ih =>
    simp only [List.mapM_cons, bind_ok, pure_ok, List.forall₂_cons_left_iff, ih]
    exact ⟨fun ⟨b, h1, u, h2, h3⟩ => ⟨b, u, h1, h2, h3.symm⟩,
      fun ⟨b, u, h1, h2, h3⟩ => ⟨b, h1, u, h2, h3.symm⟩⟩

lemma forall₂_left {R : α → β → Prop} {l : List α} {r : List β} (h : List.Forall₂ R l r) {a : α}
    (ha : a ∈ l) : ∃ b ∈ r, R a b := by
  induction h with
  | nil => cases ha
  | cons hab _ ih =>
    rcases List.mem_cons.mp ha with rfl | ha
    · exact ⟨_, List.mem_cons_self, hab⟩
    · obtain ⟨b, hb, h⟩ := ih ha
      exact ⟨b, List.mem_cons_of_mem _ hb, h⟩

lemma forall₂_right {R : α → β → Prop} {l : List α} {r : List β} (h : List.Forall₂ R l r) {b : β}
    (hb : b ∈ r) : ∃ a ∈ l, R a b := forall₂_left h.flip hb

/-- Items that are related to others by way of what they have been zipped with. -/
lemma forall₂_zip {γ : Type} {R : α → β → Prop} {S : α × β → γ → Prop} {l : List α} {r : List β}
    {u : List γ} (h : List.Forall₂ R l r) (h' : List.Forall₂ S (l.zip r) u) :
    List.Forall₂ (fun a c => ∃ b, R a b ∧ S (a, b) c) l u := by
  induction h generalizing u with
  | nil =>
    cases h'
    exact .nil
  | cons hab _ ih =>
    cases h' with
    | cons hs h' => exact .cons ⟨_, hab, hs⟩ (ih h')

lemma mapM_some {f : α → Option β} {l : List α} {r : List β} :
    l.mapM f = some r ↔ List.Forall₂ (fun a b => f a = some b) l r := by
  induction l generalizing r with
  | nil =>
    rw [List.mapM_nil, List.forall₂_nil_left_iff]
    exact ⟨fun h => (Option.some.inj h).symm, fun h => h ▸ rfl⟩
  | cons a l ih =>
    simp only [List.mapM_cons, Option.bind_eq_bind, Option.bind_eq_some_iff, Option.pure_def,
      Option.some.injEq, List.forall₂_cons_left_iff, ih]
    exact ⟨fun ⟨b, h1, u, h2, h3⟩ => ⟨b, u, h1, h2, h3.symm⟩,
      fun ⟨b, u, h1, h2, h3⟩ => ⟨b, h1, u, h2, h3.symm⟩⟩

lemma foldlM_cons_ok {f : β → α → Except ε β} {a : α} {l : List α} {s s' : β} :
    (a :: l).foldlM f s = .ok s' ↔ ∃ t, f s a = .ok t ∧ l.foldlM f t = .ok s' := by
  rw [List.foldlM_cons, bind_ok]

/-- A step that ends well where another one does. -/
lemma foldlM_mono {f g : β → α → Except ε β}
    (hfg : ∀ b a c, f b a = .ok c → g b a = .ok c) {l : List α} {b c : β}
    (hf : l.foldlM f b = .ok c) : l.foldlM g b = .ok c := by
  induction l generalizing b with
  | nil => exact hf
  | cons a l ih =>
    obtain ⟨t, h1, h2⟩ := foldlM_cons_ok.mp hf
    exact foldlM_cons_ok.mpr ⟨t, hfg _ _ _ h1, ih h2⟩

lemma foldlM_invariant_from {f : β → α → Except ε β} {I : List α → β → Prop} {l done : List α}
    {s s' : β} (h : l.foldlM f s = .ok s') (h0 : I done s)
    (hs : ∀ done a s s', a ∈ l → I done s → f s a = .ok s' → I (done ++ [a]) s') :
    I (done ++ l) s' := by
  induction l generalizing s done with
  | nil => cases h; simpa using h0
  | cons a l ih =>
    obtain ⟨t, h1, h2⟩ := foldlM_cons_ok.mp h
    simpa using ih h2 (hs _ _ _ _ List.mem_cons_self h0 h1) fun done b s s' hb =>
      hs done b s s' (List.mem_cons_of_mem _ hb)

/-- **The invariant rule**: what holds of that part of a list that has been gone through holds of
all of it at the end. -/
theorem foldlM_invariant {f : β → α → Except ε β} {I : List α → β → Prop} {l : List α} {s s' : β}
    (h : l.foldlM f s = .ok s') (h0 : I [] s)
    (hs : ∀ done a s s', a ∈ l → I done s → f s a = .ok s' → I (done ++ [a]) s') : I l s' :=
  foldlM_invariant_from h h0 hs

end NiayanAssurance.Lib
