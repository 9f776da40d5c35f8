import NiayanAssurance.Lib.Directory
import NiayanAssurance.Types

/-!
Writing and reading whole files: a write makes a temporary file, syncs it and renames it.

A crash may undo a new name, and the one before is there again, until the directory is synced. The
directory is synced as the temporary file is created as well; no such sync is counted on here.
-/

namespace NiayanAssurance.Atomic

open NiayanAssurance.Lib NiayanAssurance.Types

variable {ν : Type*}

/-- `Read`, into a buffer of `capacity` bytes; `host` is what the calls that open and read an
existing file answer. -/
def read (d : Directory ν) (path : ν) (capacity : ℕ) (host : Outcome) : Except Outcome Bytes :=
  match d.cached path with
  | none => .error .ioError
  | some b =>
    if host ≠ .ok then .error host
    else if capacity < b.length then .error .exhausted
    else .ok b

lemma read_ok {d : Directory ν} {path : ν} {capacity : ℕ} {o : Outcome} {b : Bytes}
    (h : read d path capacity o = .ok b) : d.cached path = some b := by
  unfold read at h
  split at h
  · cases h
  · split at h
    · cases h
    split at h <;> cases h
    assumption

lemma read_error {d : Directory ν} {path : ν} {capacity : ℕ} {o o' : Outcome}
    (h : read d path capacity o = .error o') :
    o' ≠ .ok := by
  unfold read at h
  split at h
  · cases h
    simp
  · split at h
    · cases h
      assumption
    split at h <;> cases h
    simp

lemma read_some {d : Directory ν} {path : ν} {capacity : ℕ} {b : Bytes}
    (h : d.cached path = some b) (hb : b.length ≤ capacity) : read d path capacity .ok = .ok b := by
  simp [read, h, hb]

variable [DecidableEq ν]

/-- What the host answers while a file is written: to all that is done with the temporary
file, to a rename that does not fail because the target exists, to the sync of the directory,
and to the removal of the temporary file. -/
structure PlaceHost where
  staged : Outcome := .ok
  renamed : Bool := true
  synced : Bool := true
  cleaned : Bool := true

def write (d : Directory ν) (path : ν) (data : Bytes) (mustBeNew : Bool) (host : PlaceHost) :
    Directory ν × Outcome :=
  if host.staged ≠ .ok then (d, host.staged)
  else if host.renamed = false then (d, .ioError)
  else if mustBeNew = true ∧ (d.cached path).isSome then
    (d, if host.cleaned then .conflict else .ioError)
  else if host.synced then ((d.place path data).sync, .ok)
  else (d.place path data, .indeterminate)

/-- `Write` of a new file, after which one that is already there may have to be the same. -/
def preserve (d : Directory ν) (path : ν) (data : Bytes) (host : PlaceHost)
    (readBack : Outcome) : Directory ν × Outcome :=
  let r := write d path data true host
  if r.2 = .conflict then
    match read d path data.length readBack with
    | .error o => (r.1, o)
    | .ok b => (r.1, if b = data then .ok else .conflict)
  else r

/-! ### What can have become of the directory -/

section Cases

variable {d : Directory ν} {path : ν} {data : Bytes} {host : PlaceHost} {readBack : Outcome}

/-- What is done to a directory that may only gain the file `data` under `path`. -/
inductive Preserves (d : Directory ν) (path : ν) (data : Bytes) :
    Directory ν → Outcome → Prop
  | refused {o : Outcome} (ho : o ≠ .ok) : Preserves d path data d o
  | present (hp : d.cached path = some data) : Preserves d path data d .ok
  | unsynced (hp : d.cached path = none) :
      Preserves d path data (d.place path data) .indeterminate
  | done (hp : d.cached path = none) : Preserves d path data (d.place path data).sync .ok

theorem preserve_cases (d : Directory ν) (path : ν) (data : Bytes) (host : PlaceHost)
    (readBack : Outcome) : Preserves d path data (preserve d path data host readBack).1
      (preserve d path data host readBack).2 := by
  unfold preserve
  dsimp only
  by_cases hc : (write d path data true host).2 = .conflict
  · -- only an untouched directory answers so
    have hd : (write d path data true host).1 = d := by
      unfold write at hc ⊢
      split
      · rfl
      rename_i h1
      split
      · rfl
      rename_i h2
      split
      · rfl
      rename_i h3
      rw [if_neg h1, if_neg h2, if_neg h3] at hc
      split at hc <;> cases hc
    rw [if_pos hc, hd]
    rcases hr : read d path data.length readBack with o | b <;> dsimp only
    · exact .refused (read_error hr)
    · split
      · rename_i hb
        exact .present (hb ▸ read_ok hr)
      · exact .refused (by simp)
  · rw [if_neg hc]
    clear hc
    unfold write
    split
    · exact .refused (by assumption)
    split
    · exact .refused (by simp)
    split
    · exact .refused (by split <;> simp)
    rename_i h3
    have hp : d.cached path = none := by simpa using h3
    split
    · exact .done hp
    · exact .unsynced hp

/-- When all a process sees is on the medium, keeping one more file loses none of it. -/
lemma Preserves.extends {d' : Directory ν} {o : Outcome} (h : Preserves d path data d' o)
    (hd : d.stable = d.cached) : Directory.Extends d.stable d'.stable
      ∧ Directory.Extends d'.stable d'.cached
      ∧ (o = .ok → d'.stable = d'.cached ∧ d'.stable path = some data) := by
  cases h with
  | refused ho => exact ⟨.refl _, hd ▸ .refl _, fun h => absurd h ho⟩
  | present hp => exact ⟨.refl _, hd ▸ .refl _, fun _ => ⟨hd, hd ▸ hp⟩⟩
  | unsynced hp =>
    have h := Directory.extends_place d data hp
    refine ⟨.refl _, ?_, by simp⟩
    show Directory.Extends d.stable _
    rwa [hd]
  | done hp =>
    have h := Directory.extends_place d data hp
    refine ⟨?_, .refl _, fun _ => ⟨rfl, by simp [Directory.sync, Directory.place]⟩⟩
    rwa [hd]

/-- A write changes nothing, or places the new file. -/
lemma write_cases (d : Directory ν) (path : ν) (b : Bytes) (mustBeNew : Bool) (host : PlaceHost) :
    ((write d path b mustBeNew host).1 = d ∧ (write d path b mustBeNew host).2 ≠ .ok)
      ∨ (mustBeNew = true → d.cached path = none)
        ∧ (write d path b mustBeNew host = ((d.place path b).sync, .ok)
          ∨ write d path b mustBeNew host = (d.place path b, .indeterminate)) := by
  unfold write
  split
  · exact .inl ⟨rfl, by assumption⟩
  split
  · exact .inl ⟨rfl, by simp⟩
  split
  · exact .inl ⟨rfl, by split <;> simp⟩
  rename_i h
  refine .inr ⟨fun hm => by simpa [hm] using h, ?_⟩
  split
  · exact .inl rfl
  · exact .inr rfl

/-- A write leaves old files, and the new one. -/
lemma every_write {P : ν → Bytes → Prop} (h : d.Every P) (hp : P path data) (mustBeNew : Bool) :
    (write d path data mustBeNew host).1.Every P := by
  unfold write
  split
  · exact h
  split
  · exact h
  split
  · exact h
  split
  · exact (h.place hp).sync
  · exact h.place hp

lemma every_preserve {P : ν → Bytes → Prop} (h : d.Every P) (hp : P path data) :
    (preserve d path data host readBack).1.Every P := by
  have hw : (write d path data true host).1.Every P := every_write h hp true
  unfold preserve
  dsimp only
  split
  · split <;> exact hw
  · exact hw

end Cases

end NiayanAssurance.Atomic
