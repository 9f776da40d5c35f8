import Mathlib.Tactic.SplitIfs

/-!
Computations over a state that may give up, and the rules by which a postcondition is carried
through them.

Giving up is an ordinary way to end, and leaves a state. An error of the language (a number or an
index out of its range, a loop that does not end) is not: the rules prove that there is none.
-/

namespace NiayanAssurance.Lib

variable {σ α β : Type}

/-- How a computation ends. -/
inductive Ending (σ α : Type)
  | done (a : α) (s : σ)
  | refused (s : σ)
  | raised

/-- How the computation goes on after `e`. -/
def Ending.andThen (e : Ending σ α) (f : α → σ → Ending σ β) : Ending σ β :=
  match e with
  | .done a s => f a s
  | .refused s => .refused s
  | .raised => .raised

/-- A computation over states `σ`. -/
structure Attempt (σ α : Type) where
  run : σ → Ending σ α

namespace Attempt

instance : Monad (Attempt σ) where
  pure a := ⟨.done a⟩
  bind m f := ⟨fun s => (m.run s).andThen fun a => (f a).run⟩

def get : Attempt σ σ := ⟨fun s => .done s s⟩

def modify (f : σ → σ) : Attempt σ Unit := ⟨fun s => .done () (f s)⟩

def refuse : Attempt σ α := ⟨.refused⟩

def raise : Attempt σ α := ⟨fun _ => .raised⟩

/-- Gives up unless `p` holds. -/
def require (p : Prop) [Decidable p] : Attempt σ Unit := if p then pure () else refuse

/-- The value of `o`, whose absence is an error. -/
def lift (o : Option α) : Attempt σ α := o.elim raise pure

variable {m : Attempt σ α} {f : α → Attempt σ β} {s s' : σ} {a : α} {e : Ending σ β}

/-! ### Steps that are done -/

/-- A computation whose first step is done ends as the others do. -/
lemma done_bind (h : m.run s = .done a s') (hf : (f a).run s' = e) : (m >>= f).run s = e := by
  show (m.run s).andThen _ = _
  rw [h]
  exact hf

lemma get_done : (get : Attempt σ σ).run s = .done s s := rfl

lemma modify_done {g : σ → σ} : (modify g).run s = .done () (g s) := rfl

lemma require_done {p : Prop} [Decidable p] (h : p) : (require p).run s = .done () s := by
  rw [require, if_pos h]
  rfl

lemma require_refused {p : Prop} [Decidable p] (h : ¬ p) : (require p).run s = .refused s := by
  rw [require, if_neg h]
  rfl

/-- A computation whose first step gives up does. -/
lemma refused_bind (h : m.run s = .refused s') : (m >>= f).run s = .refused s' := by
  show (m.run s).andThen _ = _
  rw [h]
  rfl

lemma lift_done (a : α) : (lift (some a)).run s = .done a s := rfl

/-! ### What a computation ensures -/

/-- From `s` the computation does not raise, and ends in `Q` if it does not give up. -/
def Ensures (m : Attempt σ α) (s : σ) (Q : α → σ → Prop) : Prop :=
  match m.run s with
  | .done a s' => Q a s'
  | .refused _ => True
  | .raised => False

variable {P P' : α → σ → Prop} {Q : β → σ → Prop}

theorem Ensures.bind (h : Ensures m s P) (hf : ∀ a s', P a s' → Ensures (f a) s' Q) :
    Ensures (m >>= f) s Q := by
  unfold Ensures at h
  show match (m.run s).andThen fun a => (f a).run with
    | .done a s' => Q a s' | .refused _ => True | .raised => False
  cases hm : m.run s with
  | done a s' =>
    rw [hm] at h
    exact hf a s' h
  | refused s' => trivial
  | raised =>
    rw [hm] at h
    exact h

theorem Ensures.mono (h : Ensures m s P) (hp : ∀ a s', P a s' → P' a s') : Ensures m s P' := by
  unfold Ensures at h ⊢
  cases hm : m.run s with
  | done a s' =>
    rw [hm] at h
    exact hp a s' h
  | refused s' => trivial
  | raised =>
    rw [hm] at h
    exact h

/-- What is known of how a computation ends is what it ensures. -/
lemma Ensures.of_done (h : m.run s = .done a s') (hp : P a s') : Ensures m s P := by
  unfold Ensures
  rw [h]
  exact hp

lemma Ensures.of_done_bind (h : m.run s = .done a s') (hf : Ensures (f a) s' Q) :
    Ensures (m >>= f) s Q := by
  unfold Ensures at hf ⊢
  rw [done_bind h rfl]
  exact hf

lemma Ensures.done (h : Ensures m s P) (hm : m.run s = .done a s') : P a s' := by
  unfold Ensures at h
  rw [hm] at h
  exact h

lemma Ensures.not_raised (h : Ensures m s P) : m.run s ≠ .raised := by
  intro hm
  unfold Ensures at h
  rw [hm] at h
  exact h

lemma ensures_pure (h : P a s) : Ensures (pure a) s P := h

lemma ensures_refuse : Ensures refuse s P := trivial

/-- The rule for a requirement that the rest of the computation relies on. -/
lemma ensures_require {p : Prop} [Decidable p] {f : Unit → Attempt σ β}
    (h : p → Ensures (f ()) s Q) : Ensures (require p >>= f) s Q := by
  by_cases hp : p
  · exact .of_done_bind (require_done hp) (h hp)
  · unfold Ensures
    rw [require, if_neg hp]
    trivial

end Attempt

end NiayanAssurance.Lib
