import NiayanAssurance.Lib.Bytes

/-!
A file as a process sees it and as the medium holds it.

What is written is read back at once, and is on the medium for certain after the next
successful sync. A crash before that leaves, from the point on where the two contents
differ, a part of either.
-/

namespace NiayanAssurance.Lib

structure File where
  cached : Bytes
  stable : Bytes
  deriving DecidableEq

/-- How many bytes two contents have in common at their beginnings. -/
def common : Bytes → Bytes → ℕ
  | a :: as, b :: bs => if a = b then common as bs + 1 else 0
  | _, _ => 0

namespace File

def empty : File := ⟨[], []⟩

def write (f : File) (data : Bytes) : File := { f with cached := f.cached ++ data }

def sync (f : File) : File := ⟨f.cached, f.cached⟩

def truncate (f : File) (n : ℕ) : File := { f with cached := f.cached.take n }

/-- The file after a crash that leaves `n` bytes, or all that the two contents have in
common when that is more, of the stable or of the cached content. -/
def crash (f : File) (fromStable : Bool) (n : ℕ) : File :=
  let b := (if fromStable then f.stable else f.cached).take (max n (common f.cached f.stable))
  ⟨b, b⟩

end File

lemma common_append (a b c : Bytes) : a.length ≤ common (a ++ b) (a ++ c) := by
  induction a with
  | nil => simp
  | cons x a ih => simp [common]; omega

end NiayanAssurance.Lib
