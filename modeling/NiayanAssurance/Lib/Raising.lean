import NiayanAssurance.Lib.Program

/-!
Programs that may raise: what holds where they end without an error.

An error says nothing about the state but what every call guarantees.
-/

namespace NiayanAssurance.Lib

variable {ε ι : Type} {ρ : ι → Type} {σ α β : Type}

namespace Program

/-- Every call of `x` keeps to the contract, and if nothing is raised, `Q` holds at the end. -/
def Keeps (act : (c : ι) → σ → ρ c → σ → Prop) (C : Contract σ) (x : ExceptT ε (Program ι ρ) α)
    (Q : α → σ → Prop) (s : σ) : Prop :=
  x.run.Meets act C (fun r s => ∀ a, r = .ok a → Q a s) s

variable {act : (c : ι) → σ → ρ c → σ → Prop} {C D : Contract σ} {x : ExceptT ε (Program ι ρ) α}
  {f : α → ExceptT ε (Program ι ρ) β} {P Q : α → σ → Prop} {R : β → σ → Prop} {s : σ}

theorem Keeps.mono (h : Keeps act C x P s) (hp : ∀ a s, P a s → Q a s) : Keeps act C x Q s :=
  Meets.mono h fun _ s hr a ha => hp a s (hr a ha)

theorem Keeps.bind (h : Keeps act C x P s) (hf : ∀ a s, P a s → Keeps act C (f a) R s) :
    Keeps act C (x >>= f) R s := by
  refine Meets.bind h fun r s hr => ?_
  cases r with
  | error e => exact fun b hb => nomatch hb
  | ok a => exact hf a s (hr a rfl)

lemma keeps_pure {a : α} (h : Q a s) : Keeps act C (pure a : ExceptT ε (Program ι ρ) α) Q s :=
  fun _ hb => Except.ok.inj hb ▸ h

/-- What is raised or not without a call. -/
lemma keeps_mk {r : Except ε α} (h : ∀ a, r = .ok a → Q a s) :
    Keeps act C (ExceptT.mk (pure r) : ExceptT ε (Program ι ρ) α) Q s := h

lemma keeps_foldlM_from {f : β → α → ExceptT ε (Program ι ρ) β} {I : List α → β → σ → Prop}
    {l done : List α} {b : β}
    (hf : ∀ done a b s, a ∈ l → I done b s → Keeps act C (f b a) (I (done ++ [a])) s)
    (h : I done b s) : Keeps act C (l.foldlM f b) (I (done ++ l)) s := by
  induction l generalizing done b s with
  | nil => exact keeps_pure (by simpa using h)
  | cons a l ih =>
    rw [List.foldlM_cons]
    refine (hf done a b s List.mem_cons_self h).bind fun b' s' hb' => ?_
    simpa using ih (fun done a b s ha => hf done a b s (List.mem_cons_of_mem _ ha)) hb'

/-- **The invariant rule** for a loop over a list: what holds of that part of it that has been
gone through holds of all of it at the end. -/
theorem keeps_foldlM {f : β → α → ExceptT ε (Program ι ρ) β} {I : List α → β → σ → Prop}
    {l : List α} {b : β}
    (hf : ∀ done a b s, a ∈ l → I done b s → Keeps act C (f b a) (I (done ++ [a])) s)
    (h : I [] b s) : Keeps act C (l.foldlM f b) (I l) s := keeps_foldlM_from hf h

/-- Another contract, under which something is known of the state all along. -/
theorem Keeps.within {K : σ → Prop} (h : Keeps act C x Q s)
    (hr : ∀ s s', D.rely s s' → C.rely s s') (hrk : ∀ s s', D.rely s s' → K s → K s')
    (hi : ∀ s, D.inv s → K s → C.inv s)
    (hg : ∀ s s', D.inv s → K s → C.guar s s' → C.inv s' → D.guar s s' ∧ D.inv s' ∧ K s')
    (h0 : K s) : Keeps act D x (fun a s => Q a s ∧ K s) s :=
  (Meets.within h hr hrk hi hg h0).mono fun _ _ hq a ha => ⟨hq.1 a ha, hq.2⟩

/-! ### Runs on one host -/

/-- Where nothing is asked of the calls. -/
def anything : Contract σ where
  inv _ := True
  rely _ _ := True
  guar _ _ := True
  rely_refl _ := trivial
  rely_trans _ _ _ _ _ := trivial

/-- What is known before a program is known after it. -/
lemma keeps_anything {K : Prop} (h : K) (x : ExceptT ε (Program ι ρ) α) :
    Keeps act anything x (fun _ _ => K) s := by
  suffices ∀ (p : Program ι ρ (Except ε α)) (s : σ),
      p.Meets act anything (fun r _ => ∀ a, r = .ok a → K) s from this x.run s
  intro p
  induction p with
  | done r => exact fun _ _ _ => h
  | call c k ih => exact fun _ s₁ _ _ r s₂ _ => ⟨trivial, trivial, ih r s₂⟩

/-- What is known of the end of a program is known of the end of its run. -/
theorem Keeps.run {f : (c : ι) → σ → ρ c × σ} {a : α} {t : σ} (h : Keeps act C x Q s)
    (hi : C.inv s) (hf : ∀ c s, act c s (f c s).1 (f c s).2) (hr : x.run.run f s = (.ok a, t)) :
    Q a t := by
  suffices ∀ (p : Program ι ρ (Except ε α)) (s : σ), C.inv s →
      p.Meets act C (fun r s => ∀ a, r = .ok a → Q a s) s →
      ∀ a, (p.run f s).1 = .ok a → Q a (p.run f s).2 by
    have := this x.run s hi h a (by rw [hr])
    rwa [hr] at this
  intro p
  induction p with
  | done r => exact fun s _ h => h
  | call c k ih =>
    intro s hi h
    obtain ⟨-, hi', h'⟩ := h s (C.rely_refl s) hi _ _ (hf c s)
    exact ih _ _ hi' h'

end Program

end NiayanAssurance.Lib
