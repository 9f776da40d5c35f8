import NiayanAssurance.Lib.Bytes

/-!
A directory whose entries are whole files: what a process sees of it, and what the medium
holds.

A file appears under its name at once and in full. It is on the medium for certain after the
next successful sync of the directory; a crash before that may undo it, each name by itself, and
what was under the name before is there again.
-/

namespace NiayanAssurance.Lib

structure Directory (ν : Type*) where
  cached : ν → Option Bytes
  stable : ν → Option Bytes

namespace Directory

variable {ν : Type*}

def empty : Directory ν := ⟨fun _ => none, fun _ => none⟩

/-- `data` appears under `name`. -/
def place [DecidableEq ν] (d : Directory ν) (name : ν) (data : Bytes) : Directory ν :=
  { d with cached := Function.update d.cached name (some data) }

def sync (d : Directory ν) : Directory ν := ⟨d.cached, d.cached⟩

/-- The directory after a crash that keeps what a process saw of the names in `keep`. -/
def crash (d : Directory ν) (keep : ν → Bool) : Directory ν :=
  let b := fun n => if keep n then d.cached n else d.stable n
  ⟨b, b⟩

/-- Every file of `a` is in `b`, unchanged. -/
def Extends (a b : ν → Option Bytes) : Prop := ∀ n x, a n = some x → b n = some x

lemma Extends.refl (a : ν → Option Bytes) : Extends a a := fun _ _ h => h

lemma Extends.trans {a b c : ν → Option Bytes} (h : Extends a b) (h' : Extends b c) :
    Extends a c := fun n x hx => h' n x (h n x hx)

/-- A new name changes no other. -/
lemma extends_place [DecidableEq ν] (d : Directory ν) {name : ν} (data : Bytes)
    (h : d.cached name = none) : Extends d.cached (d.place name data).cached := by
  intro n x hx
  by_cases hn : n = name
  · rw [hn, h] at hx
    cases hx
  · simp [place, hn, hx]

/-- A crash loses nothing that is on the medium, if no name has been replaced since. -/
lemma extends_crash {d : Directory ν} (h : Extends d.stable d.cached) (keep : ν → Bool) :
    Extends d.stable (d.crash keep).stable := by
  intro n x hx
  cases hk : keep n <;> simp [crash, hk, hx, h n x hx]

/-! ### What every file is -/

/-- Every file, of those a process sees and of those on the medium, is as `P` says. -/
def Every (P : ν → Bytes → Prop) (d : Directory ν) : Prop :=
  ∀ n b, d.cached n = some b ∨ d.stable n = some b → P n b

variable {P : ν → Bytes → Prop} {d : Directory ν}

lemma every_empty : Every P (empty : Directory ν) := fun _ _ h => by
  rcases h with h | h <;> cases h

lemma Every.place [DecidableEq ν] (h : Every P d) {name : ν} {data : Bytes} (hp : P name data) :
    Every P (d.place name data) := by
  intro n b hb
  by_cases hn : n = name
  · subst hn
    rcases hb with hb | hb
    · obtain rfl : data = b := by simpa [Directory.place] using hb
      exact hp
    · exact h n b (.inr hb)
  · exact h n b (by simpa [Directory.place, hn] using hb)

lemma Every.sync (h : Every P d) : Every P d.sync := fun n b hb =>
  h n b (.inl (by simpa [Directory.sync] using hb))

lemma Every.crash (h : Every P d) (keep : ν → Bool) : Every P (d.crash keep) := fun n b hb => by
  cases hk : keep n
  · exact h n b (.inr (by simpa [Directory.crash, hk] using hb))
  · exact h n b (.inl (by simpa [Directory.crash, hk] using hb))

end Directory

end NiayanAssurance.Lib
