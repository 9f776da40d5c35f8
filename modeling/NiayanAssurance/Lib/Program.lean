import NiayanAssurance.Lib.Run
import Mathlib.Logic.Function.Basic

/-!
Programs that ask a host for each of their effects, and the rules by which what they do is
proved: what a program relies on of the others that share the state, what each of its calls
guarantees, and what holds when it is done.

A program may be left between any two of its calls. What is proved of it is then what holds at
every such point, and not only at its end.
-/

namespace NiayanAssurance.Lib

/-- A computation that asks for `c : ι` and goes on with the answer, a `ρ c`. -/
inductive Program (ι : Type) (ρ : ι → Type) (α : Type)
  | done (a : α)
  | call (c : ι) (k : ρ c → Program ι ρ α)

/-- What is agreed on between a program and those that share the state with it. -/
structure Contract (σ : Type) where
  /-- What holds of the state before and after every call. -/
  inv : σ → Prop
  rely : σ → σ → Prop
  guar : σ → σ → Prop
  rely_refl : ∀ s, rely s s
  rely_trans : ∀ s t u, rely s t → rely t u → rely s u

namespace Program

variable {ι : Type} {ρ : ι → Type} {σ α β : Type}

def andThen : Program ι ρ α → (α → Program ι ρ β) → Program ι ρ β
  | .done a, f => f a
  | .call c k, f => .call c fun r => (k r).andThen f

instance : Monad (Program ι ρ) where
  pure := .done
  bind := andThen

def ask (c : ι) : Program ι ρ (ρ c) := .call c .done

@[simp] lemma pure_bind (a : α) (f : α → Program ι ρ β) : (pure a >>= f) = f a := rfl

@[simp] lemma done_bind (a : α) (f : α → Program ι ρ β) : (done a >>= f) = f a := rfl

lemma bind_assoc {γ : Type} (p : Program ι ρ α) (f : α → Program ι ρ β) (g : β → Program ι ρ γ) :
    (p >>= f) >>= g = p >>= fun a => f a >>= g := by
  induction p with
  | done a => rfl
  | call c k ih => exact congrArg (call c) (funext ih)

/-- Every call the program makes is in `S`. -/
def Uses (S : ι → Prop) : Program ι ρ α → Prop
  | .done _ => True
  | .call c k => S c ∧ ∀ r, (k r).Uses S

@[simp] lemma uses_pure (S : ι → Prop) (a : α) : (pure a : Program ι ρ α).Uses S := trivial

lemma uses_ask {S : ι → Prop} {c : ι} (h : S c) : (ask c : Program ι ρ (ρ c)).Uses S :=
  ⟨h, fun _ => trivial⟩

lemma Uses.bind {S : ι → Prop} {p : Program ι ρ α} {f : α → Program ι ρ β} (h : p.Uses S)
    (hf : ∀ a, (f a).Uses S) : (p >>= f).Uses S := by
  induction p with
  | done a => exact hf a
  | call c k ih => exact ⟨h.1, fun r => ih r (h.2 r)⟩

/-! ### What a program keeps to -/

section Meets

variable (act : (c : ι) → σ → ρ c → σ → Prop) (C : Contract σ)

/-- From `s` every call of the program keeps to the contract, whatever the host answers and
whatever the others do, and `Q` holds when it is done. -/
def Meets : Program ι ρ α → (α → σ → Prop) → σ → Prop
  | .done a, Q, s => Q a s
  | .call c k, Q, s => ∀ s₁, C.rely s s₁ → C.inv s₁ → ∀ r s₂, act c s₁ r s₂ →
      C.guar s₁ s₂ ∧ C.inv s₂ ∧ (k r).Meets Q s₂

variable {act C} {p : Program ι ρ α} {f : α → Program ι ρ β} {P Q : α → σ → Prop}
  {R : β → σ → Prop} {s s' : σ}

theorem Meets.mono (h : p.Meets act C P s) (hp : ∀ a s, P a s → Q a s) : p.Meets act C Q s := by
  induction p generalizing s with
  | done a => exact hp a s h
  | call c k ih =>
    intro s₁ h1 hi r s₂ h2
    obtain ⟨hg, hi2, hk⟩ := h s₁ h1 hi r s₂ h2
    exact ⟨hg, hi2, ih r hk⟩

theorem Meets.bind (h : p.Meets act C P s) (hf : ∀ a s, P a s → (f a).Meets act C R s) :
    (p >>= f).Meets act C R s := by
  induction p generalizing s with
  | done a => exact hf a s h
  | call c k ih =>
    intro s₁ h1 hi r s₂ h2
    obtain ⟨hg, hi2, hk⟩ := h s₁ h1 hi r s₂ h2
    exact ⟨hg, hi2, ih r hk⟩

lemma meets_ask {c : ι} {Q : ρ c → σ → Prop}
    (h : ∀ s₁, C.rely s s₁ → C.inv s₁ → ∀ r s₂, act c s₁ r s₂ →
      C.guar s₁ s₂ ∧ C.inv s₂ ∧ Q r s₂) : (ask c).Meets act C Q s := h

lemma Meets.ite {b : Prop} [Decidable b] {q : Program ι ρ α} (h : b → p.Meets act C Q s)
    (h' : ¬ b → q.Meets act C Q s) : (if b then p else q).Meets act C Q s := by
  split
  · exact h ‹_›
  · exact h' ‹_›

/-- Another contract that allows no more calls and asks for no less. -/
theorem Meets.weaken {D : Contract σ} (h : p.Meets act C Q s) (hi : ∀ s, D.inv s → C.inv s)
    (hr : ∀ s s', D.rely s s' → C.rely s s')
    (hg : ∀ s s', D.inv s → C.guar s s' → C.inv s' → D.guar s s' ∧ D.inv s') :
    p.Meets act D Q s := by
  induction p generalizing s with
  | done a => exact h
  | call c k ih =>
    intro s₁ h1 hd r s₂ h2
    obtain ⟨h3, hi2, hk⟩ := h s₁ (hr _ _ h1) (hi _ hd) r s₂ h2
    obtain ⟨hg', hd'⟩ := hg _ _ hd h3 hi2
    exact ⟨hg', hd', ih r hk⟩

/-- What holds at the end and cannot be undone by the others. -/
def Stable (C : Contract σ) (Q : α → σ → Prop) : Prop := ∀ a s s', C.rely s s' → Q a s → Q a s'

/-- The others do not take from a program what it keeps to. -/
theorem Meets.rely (h : p.Meets act C Q s) (hq : Stable C Q) (hr : C.rely s s') :
    p.Meets act C Q s' := by
  cases p with
  | done a => exact hq a s s' hr h
  | call c k => exact fun s₁ h1 => h s₁ (C.rely_trans _ _ _ hr h1)

theorem Meets.and (h : p.Meets act C P s) (h' : p.Meets act C Q s) :
    p.Meets act C (fun a s => P a s ∧ Q a s) s := by
  induction p generalizing s with
  | done a => exact ⟨h, h'⟩
  | call c k ih =>
    intro s₁ h1 hi r s₂ h2
    obtain ⟨hg, hi2, hk⟩ := h s₁ h1 hi r s₂ h2
    exact ⟨hg, hi2, ih r hk (h' s₁ h1 hi r s₂ h2).2.2⟩

theorem Meets.inv (h : p.Meets act C Q s) (hi : C.inv s) :
    p.Meets act C (fun a s => Q a s ∧ C.inv s) s := by
  induction p generalizing s with
  | done a => exact ⟨h, hi⟩
  | call c k ih =>
    intro s₁ h1 hi1 r s₂ h2
    obtain ⟨hg, hi2, hk⟩ := h s₁ h1 hi1 r s₂ h2
    exact ⟨hg, hi2, ih r hk hi2⟩

/-- What neither the others nor the program's own calls undo holds at the end. -/
theorem Meets.frame {K : σ → Prop} (h : p.Meets act C Q s)
    (hr : ∀ s s', C.rely s s' → K s → K s')
    (hg : ∀ s s', C.inv s → C.guar s s' → C.inv s' → K s → K s') (h0 : K s) :
    p.Meets act C (fun a s => Q a s ∧ K s) s := by
  induction p generalizing s with
  | done a => exact ⟨h, h0⟩
  | call c k ih =>
    intro s₁ h1 hi r s₂ h2
    obtain ⟨h3, hi2, hk⟩ := h s₁ h1 hi r s₂ h2
    exact ⟨h3, hi2, ih r hk (hg _ _ hi h3 hi2 (hr _ _ h1 h0))⟩

/-- Another contract, under which something is known of the state all along. -/
theorem Meets.within {D : Contract σ} {K : σ → Prop} (h : p.Meets act C Q s)
    (hr : ∀ s s', D.rely s s' → C.rely s s') (hrk : ∀ s s', D.rely s s' → K s → K s')
    (hi : ∀ s, D.inv s → K s → C.inv s)
    (hg : ∀ s s', D.inv s → K s → C.guar s s' → C.inv s' → D.guar s s' ∧ D.inv s' ∧ K s')
    (h0 : K s) : p.Meets act D (fun a s => Q a s ∧ K s) s := by
  induction p generalizing s with
  | done a => exact ⟨h, h0⟩
  | call c k ih =>
    intro s₁ h1 hd r s₂ h2
    have hk1 := hrk _ _ h1 h0
    obtain ⟨h3, hi2, hk⟩ := h s₁ (hr _ _ h1) (hi _ hd hk1) r s₂ h2
    obtain ⟨hg', hd', hk2⟩ := hg _ _ hd hk1 h3 hi2
    exact ⟨hg', hd', ih r hk hk2⟩

/-- A program whose calls leave the state as it is keeps what the others keep. -/
theorem Uses.meets {S : ι → Prop} {K : σ → Prop} (h : p.Uses S)
    (ha : ∀ c s r s', S c → act c s r s' → s' = s) (hg : ∀ s, C.inv s → C.guar s s)
    (hk : ∀ s s', C.rely s s' → K s → K s') (h0 : K s) :
    p.Meets act C (fun _ => K) s := by
  induction p generalizing s with
  | done a => exact h0
  | call c k ih =>
    intro s₁ h1 hi r s₂ h2
    obtain rfl := ha c s₁ r s₂ h.1 h2
    exact ⟨hg _ hi, hi, ih r (h.2 r) (hk _ _ h1 h0)⟩

/-! ### One program and its surroundings -/

variable (act C) in
/-- Where a program, and the state, may have got to from `p` and `s`. -/
inductive Steps (p : Program ι ρ α) (s : σ) : Program ι ρ α → σ → Prop
  | refl : Steps p s p s
  | others {q : Program ι ρ α} {t t' : σ} : Steps p s q t → C.rely t t' → Steps p s q t'
  | call {c : ι} {k : ρ c → Program ι ρ α} {t t' : σ} {r : ρ c} :
      Steps p s (.call c k) t → act c t r t' → Steps p s (k r) t'

theorem Steps.mono {D : Contract σ} (hr : ∀ s s', C.rely s s' → D.rely s s')
    {q : Program ι ρ α} (h : Steps act C p s q s') : Steps act D p s q s' := by
  induction h with
  | refl => exact .refl
  | others _ h ih => exact ih.others (hr _ _ h)
  | call _ h ih => exact ih.call h

/-- **The rule for a program that may be left anywhere**: the invariant holds wherever it has
got to, and the postcondition where it is done. -/
theorem Meets.steps {q : Program ι ρ α} (h : p.Meets act C Q s) (hq : Stable C Q)
    (hi : ∀ t t', C.rely t t' → C.inv t → C.inv t') (h0 : C.inv s)
    (hs : Steps act C p s q s') : C.inv s' ∧ q.Meets act C Q s' := by
  induction hs with
  | refl => exact ⟨h0, h⟩
  | others _ hr ih => exact ⟨hi _ _ hr ih.1, ih.2.rely hq hr⟩
  | call _ ha ih => exact (ih.2 _ (C.rely_refl _) ih.1 _ _ ha).2

end Meets

/-! ### A host whose answers are determined -/

/-- The result of a program on a host that answers `f c s`, and the state it leaves. -/
def run (f : (c : ι) → σ → ρ c × σ) : Program ι ρ α → σ → α × σ
  | .done a, s => (a, s)
  | .call c k, s => (k (f c s).1).run f (f c s).2

lemma run_pure (f : (c : ι) → σ → ρ c × σ) (a : α) (s : σ) :
    (pure a : Program ι ρ α).run f s = (a, s) := rfl

lemma run_ask (f : (c : ι) → σ → ρ c × σ) (c : ι) (s : σ) :
    (ask c : Program ι ρ (ρ c)).run f s = f c s := rfl

lemma run_bind (f : (c : ι) → σ → ρ c × σ) (p : Program ι ρ α) (g : α → Program ι ρ β) (s : σ) :
    (p >>= g).run f s = (g (p.run f s).1).run f (p.run f s).2 := by
  induction p generalizing s with
  | done a => rfl
  | call c k ih => exact ih (f c s).1 (f c s).2

end Program

/-! ### Workers that share a state -/

/-- Workers `τ`, each of which makes one call `κ` after the other and keeps variables `μ` from
one to the next. -/
structure Machine (τ κ μ β ι : Type) (ρ : ι → Type) (σ : Type) where
  body : κ → μ → Program ι ρ (β × μ)
  fresh : μ
  /-- What the host may do when a worker asks it for something in one of its calls. -/
  act : τ → κ → (c : ι) → σ → ρ c → σ → Prop
  others : σ → σ → Prop
  halt : τ → σ → σ → Prop
  /-- What the end of all of them at once does. -/
  crash : σ → σ → Prop

namespace Machine

variable {τ κ μ β ι : Type} {ρ : ι → Type} {σ : Type}

structure State (τ κ μ β ι : Type) (ρ : ι → Type) (σ : Type) where
  world : σ
  memory : τ → μ
  /-- The call a worker is in, and what is left of it. -/
  running : τ → Option (κ × Program ι ρ (β × μ))

inductive Label (τ κ β : Type)
  | start (t : τ) (k : κ)
  | call (t : τ)
  | finish (t : τ) (k : κ) (b : β)
  | halt (t : τ)
  | crash
  | others

variable (M : Machine τ κ μ β ι ρ σ)

/-- What is proved of the workers one at a time. -/
structure Discipline (τ κ μ β σ : Type) where
  inv : σ → Prop
  rely : τ → σ → σ → Prop
  guar : τ → κ → μ → σ → σ → Prop
  /-- What a worker knows of its variables between two calls. -/
  knows : τ → μ → σ → Prop
  result : τ → κ → μ → β → σ → Prop
  rely_refl : ∀ t s, rely t s s
  rely_trans : ∀ t s s' s'', rely t s s' → rely t s' s'' → rely t s s''

variable (D : Discipline τ κ μ β σ)

def Discipline.contract (t : τ) (k : κ) (v : μ) : Contract σ where
  inv := D.inv
  rely := D.rely t
  guar := D.guar t k v
  rely_refl := D.rely_refl t
  rely_trans := D.rely_trans t

/-- What is asked of a call of `k` with the variables `v` when it is done. -/
def Discipline.post (t : τ) (k : κ) (v : μ) (r : β × μ) (s : σ) : Prop :=
  D.knows t r.2 s ∧ D.result t k v r.1 s

/-- The workers keep to the discipline, and none of them breaks what another relies on. -/
structure Sound : Prop where
  body : ∀ t k v s, D.inv s → D.knows t v s →
    (M.body k v).Meets (M.act t k) (D.contract t k v) (D.post t k v) s
  guar : ∀ t t' k v s s', D.inv s → D.inv s' → D.guar t k v s s' → t' ≠ t → D.rely t' s s'
  others : ∀ s s', D.inv s → M.others s s' → D.inv s' ∧ ∀ t, D.rely t s s'
  halt : ∀ t s s', D.inv s → M.halt t s s' →
    D.inv s' ∧ D.knows t M.fresh s' ∧ ∀ t', t' ≠ t → D.rely t' s s'
  crash : ∀ s s', D.inv s → M.crash s s' → D.inv s' ∧ ∀ t, D.knows t M.fresh s'
  knows : ∀ t v s s', D.rely t s s' → D.knows t v s → D.knows t v s'
  result : ∀ t k v b s s', D.rely t s s' → D.result t k v b s → D.result t k v b s'

/-- Where one worker is: between two calls, or in one that will keep to the discipline. -/
def Ready (m : State τ κ μ β ι ρ σ) (t : τ) : Prop :=
  match m.running t with
  | none => D.knows t (m.memory t) m.world
  | some (k, p) => p.Meets (M.act t k) (D.contract t k (m.memory t)) (D.post t k (m.memory t))
      m.world

structure Kept (m : State τ κ μ β ι ρ σ) : Prop where
  inv : D.inv m.world
  ready : ∀ t, M.Ready D m t

variable {M D} {m m' : State τ κ μ β ι ρ σ}

lemma Sound.stable (h : M.Sound D) (t : τ) (k : κ) (v : μ) :
    Program.Stable (D.contract t k v) (D.post t k v) := fun _ _ _ hr hp =>
  ⟨h.knows _ _ _ _ hr hp.1, h.result _ _ _ _ _ _ hr hp.2⟩

/-- A step that is nothing to a worker leaves it where it is. -/
lemma Ready.rely {t : τ} (hm : M.Ready D m t) (h : M.Sound D) (hr : D.rely t m.world m'.world)
    (hmem : m'.memory t = m.memory t) (hrun : m'.running t = m.running t) : M.Ready D m' t := by
  unfold Ready at hm ⊢
  rw [hrun, hmem]
  cases hx : m.running t with
  | none =>
    rw [hx] at hm
    exact h.knows _ _ _ _ hr hm
  | some x =>
    rw [hx] at hm
    exact Program.Meets.rely hm (h.stable _ _ _) hr

lemma Kept.call {t : τ} {k : κ} {c : ι} {f : ρ c → Program ι ρ (β × μ)} {r : ρ c} {w : σ}
    (hm : M.Kept D m) (h : m.running t = some (k, .call c f)) (ha : M.act t k c m.world r w) :
    D.guar t k (m.memory t) m.world w ∧ D.inv w ∧
      (f r).Meets (M.act t k) (D.contract t k (m.memory t)) (D.post t k (m.memory t)) w := by
  have h1 := hm.ready t
  unfold Ready at h1
  rw [h] at h1
  exact h1 m.world (D.rely_refl _ _) hm.inv r w ha

lemma Kept.done {t : τ} {k : κ} {r : β × μ} (hm : M.Kept D m)
    (h : m.running t = some (k, .done r)) : D.post t k (m.memory t) r m.world := by
  have h1 := hm.ready t
  unfold Ready at h1
  rw [h] at h1
  exact h1

/-! ### Runs of all of them -/

variable [DecidableEq τ] {l : Label τ κ β}

variable (M) in
inductive Step : State τ κ μ β ι ρ σ → Label τ κ β → State τ κ μ β ι ρ σ → Prop
  | start (m : State τ κ μ β ι ρ σ) (t : τ) (k : κ) (h : m.running t = none) :
      Step m (.start t k)
        { m with running := Function.update m.running t (some (k, M.body k (m.memory t))) }
  | call (m : State τ κ μ β ι ρ σ) (t : τ) {k : κ} {c : ι} {f : ρ c → Program ι ρ (β × μ)}
      {r : ρ c} {w : σ} (h : m.running t = some (k, .call c f)) (ha : M.act t k c m.world r w) :
      Step m (.call t)
        { m with world := w, running := Function.update m.running t (some (k, f r)) }
  | finish (m : State τ κ μ β ι ρ σ) (t : τ) {k : κ} {b : β} {v : μ}
      (h : m.running t = some (k, .done (b, v))) :
      Step m (.finish t k b)
        { m with memory := Function.update m.memory t v
                 running := Function.update m.running t none }
  | halt (m : State τ κ μ β ι ρ σ) (t : τ) {w : σ} (h : M.halt t m.world w) :
      Step m (.halt t)
        ⟨w, Function.update m.memory t M.fresh, Function.update m.running t none⟩
  | crash (m : State τ κ μ β ι ρ σ) {w : σ} (h : M.crash m.world w) :
      Step m .crash ⟨w, fun _ => M.fresh, fun _ => none⟩
  | others (m : State τ κ μ β ι ρ σ) {w : σ} (h : M.others m.world w) :
      Step m .others { m with world := w }

variable (M) in
def init (w : σ) : State τ κ μ β ι ρ σ := ⟨w, fun _ => M.fresh, fun _ => none⟩

theorem Kept.step (hm : M.Kept D m) (h : M.Sound D) (hs : M.Step m l m') : M.Kept D m' := by
  cases hs with
  | start t k ht =>
    refine ⟨hm.inv, fun t' => ?_⟩
    by_cases e : t' = t
    · subst e
      have h1 := hm.ready t'
      unfold Ready at h1 ⊢
      rw [ht] at h1
      simp only [Function.update_self]
      exact h.body _ _ _ _ hm.inv h1
    · exact (hm.ready t').rely h (D.rely_refl _ _) rfl (Function.update_of_ne e _ _)
  | @call t k c f r w ht ha =>
    obtain ⟨hg, hi, hf⟩ := hm.call ht ha
    refine ⟨hi, fun t' => ?_⟩
    by_cases e : t' = t
    · subst e
      unfold Ready
      simp only [Function.update_self]
      exact hf
    · exact (hm.ready t').rely h (h.guar _ _ _ _ _ _ hm.inv hi hg e) rfl
        (Function.update_of_ne e _ _)
  | finish t ht =>
    refine ⟨hm.inv, fun t' => ?_⟩
    by_cases e : t' = t
    · subst e
      unfold Ready
      simp only [Function.update_self]
      exact (hm.done ht).1
    · exact (hm.ready t').rely h (D.rely_refl _ _) (Function.update_of_ne e _ _)
        (Function.update_of_ne e _ _)
  | halt t hw =>
    obtain ⟨hi, hk, hr⟩ := h.halt _ _ _ hm.inv hw
    refine ⟨hi, fun t' => ?_⟩
    by_cases e : t' = t
    · subst e
      unfold Ready
      simp only [Function.update_self]
      exact hk
    · exact (hm.ready t').rely h (hr t' e) (Function.update_of_ne e _ _)
        (Function.update_of_ne e _ _)
  | crash hw =>
    obtain ⟨hi, hk⟩ := h.crash _ _ hm.inv hw
    exact ⟨hi, fun t => hk t⟩
  | others hw =>
    obtain ⟨hi, hr⟩ := h.others _ _ hm.inv hw
    exact ⟨hi, fun t => (hm.ready t).rely h (hr t) rfl rfl⟩

/-- **The rule for workers**: what is proved of each of them, under what it relies on of the
others, holds of every run of all of them. -/
theorem Sound.kept {w : σ} {ls : List (Label τ κ β)} (h : M.Sound D) (hi : D.inv w)
    (hk : ∀ t, D.knows t M.fresh w) (hr : Run M.Step (M.init w) ls m) : M.Kept D m :=
  hr.invariant ⟨hi, fun t => hk t⟩ fun _ _ _ ih hs => ih.step h hs

/-- A relation that holds whenever the state of the world is changed holds from any state that
is reached to any later one. -/
theorem Sound.rel {R : σ → σ → Prop} {w : σ} {ls ls' : List (Label τ κ β)} (h : M.Sound D)
    (hi : D.inv w) (hk : ∀ t, D.knows t M.fresh w) (hrefl : ∀ s, R s s)
    (htrans : ∀ s s' s'', R s s' → R s' s'' → R s s'')
    (hg : ∀ t k v s s', D.inv s → D.inv s' → D.guar t k v s s' → R s s')
    (ho : ∀ s s', D.inv s → M.others s s' → R s s')
    (hh : ∀ t s s', D.inv s → M.halt t s s' → R s s')
    (hc : ∀ s s', D.inv s → M.crash s s' → R s s')
    (hr : Run M.Step (M.init w) ls m) (hr' : Run M.Step m ls' m') : R m.world m'.world := by
  have hm := h.kept hi hk hr
  suffices M.Kept D m' ∧ R m.world m'.world from this.2
  refine hr'.invariant (I := fun n => M.Kept D n ∧ R m.world n.world) ⟨hm, hrefl _⟩ ?_
  intro n l n' ⟨hn, hR⟩ hs
  have hn' := hn.step h hs
  refine ⟨hn', htrans _ _ _ hR ?_⟩
  cases hs with
  | start | finish => exact hrefl _
  | call t ht ha => exact hg _ _ _ _ _ hn.inv hn'.inv (hn.call ht ha).1
  | halt t hw => exact hh _ _ _ hn.inv hw
  | crash hw => exact hc _ _ hn.inv hw
  | others hw => exact ho _ _ hn.inv hw

/-! ### A call on a host whose answers are determined -/

lemma run_calls {f : (c : ι) → σ → ρ c × σ} {t : τ} {k : κ} {p : Program ι ρ (β × μ)}
    (hf : ∀ c s, M.act t k c s (f c s).1 (f c s).2) (h : m.running t = some (k, p)) :
    ∃ ls, Run M.Step m ls { m with
      world := (p.run f m.world).2
      running := Function.update m.running t (some (k, .done (p.run f m.world).1)) } := by
  induction p generalizing m with
  | done r =>
    refine ⟨[], ?_⟩
    have : Function.update m.running t (some (k, .done r)) = m.running := by
      rw [← h, Function.update_eq_self]
    simp only [Program.run, this]
    exact .nil
  | call c g ih =>
    have h1 := Step.call (M := M) m t h (hf c m.world)
    obtain ⟨ls, h2⟩ := ih (f c m.world).1 (m := { m with
      world := (f c m.world).2
      running := Function.update m.running t (some (k, g (f c m.world).1)) })
      (Function.update_self _ _ _)
    refine ⟨.call t :: ls, ?_⟩
    simpa [Program.run] using (Run.single h1).append h2

/-- A worker that is between two calls may make one from its start to its end. -/
theorem run_call {f : (c : ι) → σ → ρ c × σ} {t : τ} (k : κ)
    (hf : ∀ c s, M.act t k c s (f c s).1 (f c s).2) (h : m.running t = none) :
    ∃ ls, Run M.Step m (.start t k :: ls) { m with
      world := ((M.body k (m.memory t)).run f m.world).2
      running := Function.update m.running t
        (some (k, .done ((M.body k (m.memory t)).run f m.world).1)) } := by
  obtain ⟨ls, h1⟩ := run_calls (M := M) (m := { m with
    running := Function.update m.running t (some (k, M.body k (m.memory t))) }) hf
    (Function.update_self _ _ _)
  refine ⟨ls, ?_⟩
  simpa using (Run.single (Step.start (M := M) m t k h)).append h1

/-- The worker, and the state of the world, after such a call. -/
theorem run_whole_call {f : (c : ι) → σ → ρ c × σ} {t : τ} (k : κ)
    (hf : ∀ c s, M.act t k c s (f c s).1 (f c s).2) (h : m.running t = none) :
    ∃ ls, Run M.Step m (.start t k :: ls ++
        [.finish t k ((M.body k (m.memory t)).run f m.world).1.1]) { m with
      world := ((M.body k (m.memory t)).run f m.world).2
      memory := Function.update m.memory t ((M.body k (m.memory t)).run f m.world).1.2 } := by
  obtain ⟨ls, h1⟩ := run_call k hf h
  have h2 := Step.finish (M := M) { m with
    world := ((M.body k (m.memory t)).run f m.world).2
    running := Function.update m.running t
      (some (k, .done ((M.body k (m.memory t)).run f m.world).1)) } t (Function.update_self _ _ _)
  have idle : ∀ x, Function.update (Function.update m.running t x) t none = m.running := by
    intro x
    rw [Function.update_idem, ← h, Function.update_eq_self]
  rw [idle] at h2
  exact ⟨_, h1.snoc h2⟩

/-! ### One call among those of the others -/

variable {t : τ} {k : κ} {ls : List (Label τ κ β)}

/-- A worker that is not started goes on, or it ends, or it makes a call. -/
lemma Step.worker {l : Label τ κ β} (h : M.Step m l m') (hl : ∀ k, l ≠ .start t k) :
    m'.running t = m.running t ∨ m'.running t = none ∨
      ∃ k c f r, l = .call t ∧ m.running t = some (k, .call c f) ∧
        M.act t k c m.world r m'.world ∧ m'.running t = some (k, f r) := by
  have other : ∀ {t'} {x : Option (κ × Program ι ρ (β × μ))}, t ≠ t' →
      Function.update m.running t' x t = m.running t := fun h => Function.update_of_ne h _ _
  cases h with
  | start t' k =>
    by_cases e : t = t'
    · exact absurd (e ▸ rfl) (hl k)
    · exact .inl (other e)
  | @call t' k c f r w hr ha =>
    by_cases e : t = t'
    · subst e
      exact .inr (.inr ⟨k, c, f, r, rfl, hr, ha, Function.update_self _ _ _⟩)
    · exact .inl (other e)
  | finish t' hr =>
    by_cases e : t = t'
    · subst e
      exact .inr (.inl (Function.update_self _ _ _))
    · exact .inl (other e)
  | halt t' hw =>
    by_cases e : t = t'
    · subst e
      exact .inr (.inl (Function.update_self _ _ _))
    · exact .inl (other e)
  | crash hw => exact .inr (.inl rfl)
  | others hw => exact .inl rfl

/-- A worker that is not started stays between two calls. -/
lemma idle (h : Run M.Step m ls m') (hl : ∀ k, .start t k ∉ ls) (h0 : m.running t = none) :
    m'.running t = none := by
  induction h with
  | nil => exact h0
  | snoc hr hs ih =>
    have h1 := ih fun k hk => hl k (List.mem_append_left _ hk)
    rcases hs.worker (t := t) fun k e => hl k (by simp [e]) with h2 | h2 | ⟨k, c, f, r, -, h2, -⟩
    · rw [h2, h1]
    · exact h2
    · rw [h1] at h2
      cases h2

/-- A worker that is done is done with what it has found. -/
lemma done_of_done {r r' : β × μ} (h : Run M.Step m ls m') (hl : ∀ k, .start t k ∉ ls)
    (h0 : m.running t = some (k, .done r)) (h1 : m'.running t = some (k, .done r')) : r' = r := by
  have key : m'.running t = some (k, .done r) ∨ m'.running t = none := by
    clear h1
    induction h with
    | nil => exact .inl h0
    | snoc hr hs ih =>
      have h1 := ih fun k hk => hl k (List.mem_append_left _ hk)
      rcases hs.worker (t := t) fun k e => hl k (by simp [e]) with
        h2 | h2 | ⟨k', c, f, r, -, h2, -⟩
      · rwa [h2]
      · exact .inr h2
      · rw [h2] at h1
        rcases h1 with h1 | h1 <;> cases h1
  rcases key with h2 | h2
  · rw [h1] at h2
    cases h2
    rfl
  · rw [h1] at h2
    cases h2

/-- **The first call of a program that is done has been made.** -/
theorem first_call {c : ι} {f : ρ c → Program ι ρ (β × μ)} {b : β × μ}
    (h : Run M.Step m ls m') (hl : ∀ k, .start t k ∉ ls)
    (h0 : m.running t = some (k, .call c f)) (h1 : m'.running t = some (k, .done b)) :
    ∃ l₁ l₂ m₁ m₂ r, ls = l₁ ++ .call t :: l₂ ∧ Run M.Step m l₁ m₁ ∧ M.Step m₁ (.call t) m₂ ∧
      M.act t k c m₁.world r m₂.world ∧ m₂.running t = some (k, f r) ∧ Run M.Step m₂ l₂ m' := by
  induction ls generalizing m with
  | nil =>
    cases h.nil_inv
    rw [h0] at h1
    cases h1
  | cons a ls ih =>
    obtain ⟨n, hs, hr⟩ := h.cons_inv
    have hl' : ∀ k, .start t k ∉ ls := fun k hk => hl k (List.mem_cons_of_mem _ hk)
    rcases hs.worker (t := t) fun k e => hl k (by simp [e]) with
      h2 | h2 | ⟨k', c', f', r, rfl, h2, ha, h3⟩
    · obtain ⟨l₁, l₂, m₁, m₂, r, rfl, h3, h4⟩ := ih hr hl' (h2.trans h0)
      exact ⟨a :: l₁, l₂, m₁, m₂, r, rfl, (Run.single hs).append h3, h4⟩
    · rw [idle hr hl' h2] at h1
      cases h1
    · rw [h0] at h2
      cases h2
      exact ⟨[], ls, m, n, r, rfl, .nil, hs, ha, h3, hr⟩

end Machine

end NiayanAssurance.Lib
