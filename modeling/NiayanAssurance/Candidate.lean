import NiayanAssurance.ReconstructSpec
import NiayanAssurance.Lib.Raising

/-!
What `reconstruct` leaves behind, wherever it is interrupted.

A replica answers anything at all, and every call about the candidate may fail. A file that has
been flushed, with its name, outlasts a loss of power. The marker of a candidate that is ready is
made last, when all that it stands for has been flushed.
-/

namespace NiayanAssurance.Recovery

open NiayanAssurance.Lib NiayanAssurance.Types NiayanAssurance.RecoveryIo

/-! ### Disks -/

/-- The names that lead somewhere from the root. -/
abbrev Place := List Text

inductive Entry
  | directory
  /-- A file, and whether its data and its name have been flushed since they were written. -/
  | file (data : Bytes) (synced named : Bool)
  deriving DecidableEq

abbrev Disk := Place → Option Entry

/-- The place of what `path` leads to from the directory `out`. -/
def place (out : Place) (path : Text) : Place := out ++ path.splitOn '/'

/-- There is nothing in the directory. -/
def Vacant (out : Place) (s : Disk) : Prop := ∀ p, out <+: p → p ≠ out → s p = none

/-- A file that a loss of power does not take away. -/
def Durable (out : Place) (path : Text) (b : Bytes) (s : Disk) : Prop :=
  s (place out path) = some (.file b true true)

/-- Directories are made on the way to `path`, where there is nothing. -/
def Parents (out : Place) (path : Text) (s s' : Disk) : Prop :=
  ∀ p, s' p = s p ∨
    (s p = none ∧ s' p = some .directory ∧ out <+: p ∧ p ≠ out
      ∧ p <+: place out path ∧ p ≠ place out path)

/-- What becomes of a file, if there is one. -/
def Disk.change (s : Disk) (p : Place) (f : Bytes → Bool → Bool → Entry) : Disk :=
  match s p with
  | some (.file b synced named) => Function.update s p (some (f b synced named))
  | _ => s

/-- What a call may answer, and what it does about the candidate in `out`. A call that fails may
have done a part of what it was asked for. -/
def act (out : Place) : (c : Call) → Disk → Answer c → Disk → Prop
  | .read _ _, s, _, s' => s' = s
  | .listdir, s, r, s' => s' = s ∧ ∀ full, r = .ok full → (full = false ↔ Vacant out s)
  | .fstatvfs, s, _, s' => s' = s
  | .create path, s, r, s' => ∃ t, Parents out path s t
      ∧ (r = .ok true → t (place out path) = none
        ∧ s' = Function.update t (place out path) (some (.file [] false false)))
      ∧ (r ≠ .ok true → s' = t)
  | .write path data, s, r, s' => ∃ n, (r = .ok () → data.length ≤ n)
      ∧ s' = s.change (place out path) fun b _ named => .file (b ++ data.take n) false named
  | .fsync path, s, r, s' =>
      (r = .ok () → s' = s.change (place out path) fun b _ named => .file b true named)
        ∧ (r ≠ .ok () → s' = s)
  | .fsyncParent path, s, r, s' =>
      (r = .ok () → s' = s.change (place out path) fun b synced _ => .file b synced true)
        ∧ (r ≠ .ok () → s' = s)
  | .readBack _, s, _, s' => s' = s
  | .fault _, s, _, s' => s' = s

/-! ### What is left alone -/

/-- Below one of `tops` in the directory. -/
def Under (out : Place) (tops : List Text) (p : Place) : Prop := ∃ top ∈ tops, out ++ [top] <+: p

/-- Nothing is changed but below `tops`, and no file there that has been flushed. Nobody else has
access to the directory. -/
def only (out : Place) (tops : List Text) : Contract Disk where
  inv _ := True
  rely s s' := s' = s
  guar s s' := ∀ p, s' p = s p ∨ (Under out tops p ∧ ∀ b, s p ≠ some (.file b true true))
  rely_refl _ := rfl
  rely_trans _ _ _ h h' := h'.trans h

variable {out : Place} {tops tops' : List Text} {s s' : Disk} {path : Text} {b : Bytes}
  {synced named : Bool} {α : Type}

lemma under_mono (h : tops ⊆ tops') {p : Place} (hp : Under out tops p) : Under out tops' p :=
  let ⟨top, ht, hp⟩ := hp
  ⟨top, h ht, hp⟩

/-- The first name of a path. -/
def top (path : Text) : Text := (path.splitOn '/').headD []

/-- That `x` changes nothing but below `tops`, and `Q` where it does not raise. -/
abbrev Only (out : Place) (tops : List Text) (x : Tool α) (Q : α → Disk → Prop) (s : Disk) : Prop :=
  Program.Keeps (act out) (only out tops) x Q s

lemma guar_refl (s : Disk) : (only out tops).guar s s := fun _ => .inl rfl

/-- What is left alone may be more, and what is known of the rest of the disk stays known. -/
lemma Only.frame {x : Tool α} {Q : α → Disk → Prop} {K : Disk → Prop} (h : Only out tops x Q s)
    (ht : tops ⊆ tops') (hk : ∀ s s', (only out tops).guar s s' → K s → K s') (h0 : K s) :
    Only out tops' x (fun a s' => Q a s' ∧ K s') s := by
  refine Program.Keeps.within h (fun _ _ h => h) ?_ (fun _ _ _ => trivial) ?_ h0
  · rintro s _ rfl h
    exact h
  · intro s s' _ hs hg _
    refine ⟨fun p => (hg p).imp_right fun h => ⟨under_mono ht h.1, h.2⟩, trivial, hk s s' hg hs⟩

/-- Where bad copies are kept, if there is a candidate. -/
def evidence (into : Bool) : List Text := if into then ["evidence".toList] else []

/-- As long as it has to be, and with its digest. -/
def Good (chunk : Text) (size : ℕ) (b : Bytes) : Prop := b.length = size ∧ sha b = chunk

/-- The pieces of `i` that are named by `chunks`, from `number` on. -/
def Pieces (i : Item) (number : ℕ) (chunks : List Text) (pieces : List Bytes) : Prop :=
  List.Forall₂ (fun c b => Good c.1 (i.chunkSize c.2) b) (chunks.zipIdx number) pieces

/-- The file of an object, as long as it is written to. -/
def Written (out : Place) (i : Item) (content : Bytes) (s : Disk) : Prop :=
  s (place out (payloadPath i.path)) = some (.file content false false)

/-- The file of `i` is on the medium, put together from good chunks. -/
def Restored (out : Place) (i : Item) (s : Disk) : Prop :=
  ∃ pieces, Pieces i 0 i.chunks pieces ∧ pieces.flatten.length = i.size
    ∧ sha pieces.flatten = i.sha256 ∧ Durable out (payloadPath i.path) pieces.flatten s

/-- Where the marker of a candidate that is ready is. -/
def marker (out : Place) : Place := place out "candidate-ready.json".toList

/-- All that the marker stands for. -/
structure Complete (L : Library) (mraw eraw : Bytes) (expected : Text) (m : Manifest) (out : Place)
    (s : Disk) : Prop where
  manifest : Durable out "manifest.json".toList mraw s
  anchor : Durable out "anchor.json".toList eraw s
  report : ∃ bad, Durable out "report.json".toList (L.dumps (Report.value
    { anchor := expected
      node := m.node
      generation := m.generation
      pending := m.pending
      complete := true
      objects := m.objects.map fun i => (i.path, true)
      bad })) s
  objects : ∀ i ∈ m.objects, Restored out i s

/-- Nothing is changed that is not in the directory. -/
def Outside (out : Place) (s s' : Disk) : Prop := ∀ p, ¬ out <+: p → s' p = s p

section Marker

variable (L : Library) (mraw eraw : Bytes) (trust : Value) (expected : Text) (now : ℤ)
  (replicas : List Place) (out : Option Place) (s₀ : Disk)

end Marker

variable {L : Library} {mraw eraw : Bytes} {trust : Value} {expected : Text} {now : ℤ}
  {replicas : List Place} {m : Manifest} {a : Anchor} {s₀ : Disk} {tops : List Text} {x : Tool α}
  {Q : α → Disk → Prop}

/-- What has been checked before anything is written. -/
structure Checked (L : Library) (mraw eraw : Bytes) (trust : Value) (expected : Text) (now : ℤ)
    (replicas : List Place) (out : Place) (m : Manifest) (s₀ : Disk) : Prop where
  authentic : ∃ a, authenticate L mraw eraw trust expected now = .ok (m, a)
  apart : ∀ r ∈ replicas, ¬ Overlap out r
  vacant : Vacant out s₀

/-- What is known from `s` on as long as there is no marker. -/
structure Unmarked (out : Place) (s₀ s t : Disk) : Prop where
  absent : t (marker out) = none
  outside : Outside out s₀ t
  durable : ∀ path b, Durable out path b s → Durable out path b t

lemma Unmarked.refl (h : s (marker out) = none) (ho : Outside out s₀ s) : Unmarked out s₀ s s :=
  ⟨h, ho, fun _ _ h => h⟩

/-- What is there when the objects may be gone through. -/
structure Prepared (mraw eraw : Bytes) (out : Place) (s₀ s : Disk) : Prop where
  absent : s (marker out) = none
  outside : Outside out s₀ s
  manifest : Durable out "manifest.json".toList mraw s
  anchor : Durable out "anchor.json".toList eraw s

/-- The report before the first object. -/
def Report.start (expected : Text) (m : Manifest) : Report :=
  { anchor := expected, node := m.node, generation := m.generation, pending := m.pending }

/-- The entries of a disk, the newest ones first. -/
abbrev Entries := List (Place × Entry)

def Entries.disk (l : Entries) : Disk := fun p => l.lookup p

/-- The directories above `path`, from the top on. -/
def parents (out : Place) (path : Text) : List Place :=
  (List.range' 1 ((path.splitOn '/').length - 1)).map fun n => out ++ (path.splitOn '/').take n

/-- Those that are missing are made. -/
def Entries.mkdir (l : Entries) (ps : List Place) : Entries :=
  (ps.filter fun p => l.disk p = none).map (·, .directory) ++ l

/-- A new file, below directories that are made where they are missing. -/
def Entries.create (l : Entries) (out : Place) (path : Text) : Except String Bool × Entries :=
  if ∃ p ∈ parents out path, l.disk p ≠ none ∧ l.disk p ≠ some .directory then
    (.error "NotADirectoryError", l)
  else if (l.mkdir (parents out path)).disk (place out path) = none then
    (.ok true, (place out path, .file [] false false) :: l.mkdir (parents out path))
  else (.error "FileExistsError", l.mkdir (parents out path))

/-- What becomes of a file, if there is one. -/
def Entries.change (l : Entries) (p : Place) (f : Bytes → Bool → Bool → Entry) : Entries :=
  match l.disk p with
  | some (.file b synced named) => (p, f b synced named) :: l
  | _ => l

def serve (rs : List Replica) (free : ℕ) (out : Place) : (c : Call) → Entries → Answer c × Entries
  | .read replica path, l => ((rs[replica]?.map fun r => r.files path).getD {}, l)
  | .listdir, l => (.ok (l.any fun x => out.isPrefixOf x.1 && x.1 != out), l)
  | .fstatvfs, l => (.ok free, l)
  | .create path, l => l.create out path
  | .write path data, l =>
    (.ok (), l.change (place out path) fun b _ named => .file (b ++ data) false named)
  | .fsync path, l => (.ok (), l.change (place out path) fun b _ named => .file b true named)
  | .fsyncParent path, l =>
    (.ok (), l.change (place out path) fun b synced _ => .file b synced true)
  | .readBack path, l =>
    match l.disk (place out path) with
    | some (.file b _ _) => ({ size := b.length, content := b }, l)
    | _ => ({ stat := .error "FileNotFoundError" }, l)
  | .fault _, l => (.ok (), l)

lemma disk_cons (p : Place) (e : Entry) (l : Entries) :
    Entries.disk ((p, e) :: l) = Function.update l.disk p (some e) := by
  funext q
  by_cases h : q = p
  · subst h
    simp [Entries.disk]
  · rw [Function.update_of_ne h]
    simp [Entries.disk, List.lookup_cons, beq_false_of_ne h]

lemma lookup_map (ps : List Place) (e : Entry) (p : Place) :
    (ps.map (·, e)).lookup p = if p ∈ ps then some e else none := by
  induction ps with
  | nil => rfl
  | cons q ps ih =>
    rw [List.map_cons, List.lookup_cons]
    by_cases h : p = q
    · simp [h]
    · simp [beq_false_of_ne h, ih, h]

lemma disk_mkdir (l : Entries) (ps : List Place) (p : Place) :
    (l.mkdir ps).disk p
      = if p ∈ ps ∧ l.disk p = none then some .directory else l.disk p := by
  rw [Entries.disk, Entries.mkdir, List.lookup_append, lookup_map]
  by_cases h : p ∈ ps ∧ l.disk p = none
  · simp [h]
  · rw [if_neg h, if_neg (by simpa using h)]
    rfl

lemma mem_parents {p : Place} (h : p ∈ parents out path) :
    out <+: p ∧ p ≠ out ∧ p <+: place out path ∧ p ≠ place out path := by
  obtain ⟨n, hn, rfl⟩ := List.mem_map.mp h
  rw [List.mem_range'_1] at hn
  refine ⟨List.prefix_append _ _, fun he => ?_, ?_, fun he => ?_⟩
  · have := congrArg List.length he
    simp at this
    omega
  · exact (List.prefix_append_right_inj _).mpr (List.take_prefix _ _)
  · have := congrArg List.length he
    simp [place] at this
    omega

lemma vacant_iff {l : Entries} :
    (l.any fun x => out.isPrefixOf x.1 && x.1 != out) = false ↔ Vacant out l.disk := by
  simp only [List.any_eq_false, Bool.and_eq_true, List.isPrefixOf_iff_prefix, bne_iff_ne,
    not_and, Vacant]
  constructor
  · intro h p h1 h2
    refine List.lookup_eq_none_iff.mpr fun x hx => bne_iff_ne.mpr ?_
    rintro rfl
    exact h x hx h1 h2
  · intro h x hx h1 h2
    have := List.lookup_eq_none_iff.mp (h x.1 h1 h2) x hx
    simp at this

/-- Nobody else has access to the disk. -/
def alone : Contract Disk where
  inv _ := True
  rely s s' := s' = s
  guar _ _ := True
  rely_refl _ := rfl
  rely_trans _ _ _ h h' := h'.trans h

end NiayanAssurance.Recovery
