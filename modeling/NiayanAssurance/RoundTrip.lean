import NiayanAssurance.Candidate
import NiayanAssurance.Export
import NiayanAssurance.Lib.Split

/-!
A cohort that has been exported is put together again, if its paths leave room for the name of the
directory that the files go to.
-/

namespace NiayanAssurance.Recovery

open NiayanAssurance.Lib NiayanAssurance.Types NiayanAssurance.RecoveryIo

/-! ### A file that nobody changes -/

/-- The reads of a file that never fail give all of it. -/
lemma readLoop_content {h : ReadHost} {out : Bytes} {limit fuel n : ℕ}
    (hr : ∀ n, ∃ k, h.reads n = .ok k) (hb : h.content.length ≤ limit) (ho : out <+: h.content)
    (hf : limit + 2 ≤ fuel + out.length) : readLoop h limit fuel n out = .ok h.content := by
  have hlen := ho.length_le
  induction fuel generalizing n out with
  | zero => omega
  | succ fuel ih =>
    obtain ⟨k, hk⟩ := hr n
    obtain ⟨u, hu⟩ := ho
    have hd : h.content.drop out.length = u := by rw [← hu, List.drop_left]
    rw [readLoop, if_neg (by omega), hk, hd]
    cases u with
    | nil => simp [answer, Except.mapError, ← hu]
    | cons x u =>
      generalize hc : min (max 1 k) (min 65536 (limit + 1 - out.length)) = c
      have hc1 : 1 ≤ c := by omega
      have hne : (x :: u).take c ≠ [] := by cases c <;> simp at hc1 ⊢
      have h1 : out ++ (x :: u).take c <+: h.content :=
        hu ▸ (List.prefix_append_right_inj _).mpr (List.take_prefix _ _)
      simp only [answer, Except.mapError, hc, if_neg hne]
      refine ih h1 ?_ h1.length_le
      rw [List.length_append, List.length_take, List.length_cons]
      omega

lemma readLoop_fileHost {b out : Bytes} {limit fuel n : ℕ} (hb : b.length ≤ limit)
    (ho : out <+: b) (hf : limit + 2 ≤ fuel + out.length) :
    readLoop (fileHost b) limit fuel n out = .ok b :=
  readLoop_content (h := fileHost b) (fun _ => ⟨65536, rfl⟩) hb ho hf

/-- What `relative` asks for. -/
def Relative (s : Text) : Prop :=
  (s ≠ [] ∧ s.length ≤ 1024 ∧ .ofNat 92 ∉ s ∧ .ofNat 0 ∉ s)
    ∧ (s.splitOn '/').length ≤ 32 ∧ ∀ p ∈ s.splitOn '/', Component p

instance (s : Text) : Decidable (Relative s) := by unfold Relative; infer_instance

lemma relative_ok {s p : Text} : relative s = .ok p ↔ Relative s ∧ p = s := by
  simp only [relative, bind_ok, require_ok, pure_ok, Relative]
  constructor
  · rintro ⟨_, h1, _, h2, h3⟩
    exact ⟨⟨h1, h2⟩, h3.symm⟩
  · rintro ⟨⟨h1, h2⟩, h3⟩
    exact ⟨(), h1, (), h2, h3.symm⟩

lemma read_fileHost {path : Text} {b x : Bytes} {limit : ℕ} :
    read path limit (fileHost b) = .ok x ↔ Relative path ∧ b.length ≤ limit ∧ x = b := by
  have loop : b.length ≤ limit → readLoop (fileHost b) limit (limit + 2) 0 [] = .ok b :=
    fun h => readLoop_fileHost h List.nil_prefix (by simp)
  simp only [RecoveryIo.read, bind_ok, require_ok, pure_ok, answer_ok, relative_ok]
  constructor
  · rintro ⟨p, ⟨h1, rfl⟩, _, -, _, -, _, -, _, ⟨-, h2, -⟩, _, -, _, -, _, -, y, hy, _, -, _, -, _,
      -, rfl⟩
    rw [loop h2] at hy
    exact ⟨h1, h2, (Except.ok.inj hy).symm⟩
  · rintro ⟨h1, h2, rfl⟩
    exact ⟨path, ⟨h1, rfl⟩, true, rfl, (), rfl, (), rfl, (), ⟨rfl, h2, rfl⟩, (), rfl, true, rfl, (),
      rfl, x, loop h2, (), h2, true, rfl, (), rfl, rfl⟩

/-! ### What has been exported -/

/-- The number of chunks of a file. -/
def chunkCount (data : Bytes) : ℕ := (data.length + CHUNK - 1) / CHUNK

/-- The pieces of a file are the file. -/
lemma pieces_flatten (data : Bytes) (n : ℕ) :
    ((List.range n).map (piece data)).flatten = data.take (n * CHUNK) := by
  induction n with
  | zero => simp
  | succ n ih =>
    rw [List.range_succ, List.map_append, List.flatten_append, ih, Nat.succ_mul, List.take_add]
    simp [piece]

lemma take_chunkCount (data : Bytes) : data.take (chunkCount data * CHUNK) = data := by
  refine List.take_of_length_le ?_
  change data.length ≤ (data.length + 65536 - 1) / 65536 * 65536
  omega

/-- The piece is on record, under its digest. -/
def Files.Has (l : Files) (b : Bytes) : Prop :=
  Relative (objectPath (sha b)) ∧ l.lookup (objectPath (sha b)) = some b

/-- Nothing of `l` has been changed. -/
def Files.Grows (l l' : Files) : Prop := ∀ p b, l.lookup p = some b → l'.lookup p = some b

lemma Files.Grows.append (l u : Files) : l.Grows (l ++ u) := by
  intro p b h
  rw [List.lookup_append, h]
  rfl

lemma store_ok {l l' : Files} {b : Bytes} (h : l.store b = .ok l') : l'.Has b ∧ l.Grows l' := by
  simp only [Files.store, bind_ok, relative_ok] at h
  obtain ⟨p, ⟨hr, rfl⟩, h⟩ := h
  cases hl : l.lookup (objectPath (sha b)) with
  | none =>
    rw [hl] at h
    obtain rfl := pure_ok.mp h
    refine ⟨⟨hr, ?_⟩, Files.Grows.append l _⟩
    rw [List.lookup_append, hl]
    simp
  | some x =>
    rw [hl] at h
    simp only [bind_ok, require_ok, read_fileHost, pure_ok] at h
    obtain ⟨y, ⟨-, -, rfl⟩, _, rfl, rfl⟩ := h
    exact ⟨⟨hr, hl⟩, fun _ _ h => h⟩

/-- The loop over the chunks of a file. -/
lemma exportChunks_ok {data : Bytes} {l : Files} {n : ℕ} {s : List Text × Files}
    (h : (List.range n).foldlM (exportChunk data) ([], l) = .ok s) :
    s.1 = (List.range n).map (fun k => sha (piece data k))
      ∧ (∀ k < n, s.2.Has (piece data k)) ∧ l.Grows s.2 := by
  induction n generalizing s with
  | zero =>
    cases h
    exact ⟨rfl, nofun, fun _ _ h => h⟩
  | succ n ih =>
    rw [List.range_succ, List.foldlM_append, bind_ok] at h
    obtain ⟨t, h1, h2⟩ := h
    obtain ⟨h3, h4, h5⟩ := ih h1
    simp only [List.foldlM_cons, List.foldlM_nil, bind_pure, exportChunk, bind_ok, pure_ok] at h2
    obtain ⟨l', hs, rfl⟩ := h2
    obtain ⟨h6, h7⟩ := store_ok hs
    refine ⟨by simp [h3, List.range_succ], fun k hk => ?_, fun p b hb => h7 p b (h5 p b hb)⟩
    rcases Nat.lt_succ_iff_lt_or_eq.mp hk with hk | rfl
    · exact ⟨(h4 k hk).1, h7 _ _ (h4 k hk).2⟩
    · exact h6

/-- `v` is the entry of a file whose pieces are all on record. -/
def Copied (t : Tree) (l : Files) (w : Wanted) (v : Value) : Prop :=
  ∃ f attrs, t.file w.path = some f
    ∧ v = itemValue w f attrs ((List.range (chunkCount f.data)).map fun k => sha (piece f.data k))
    ∧ ∀ k < chunkCount f.data, l.Has (piece f.data k)

lemma Copied.mono {t : Tree} {l l' : Files} {w : Wanted} {v : Value} (h : Copied t l w v)
    (hl : l.Grows l') : Copied t l' w v :=
  let ⟨f, attrs, h1, h2, h3⟩ := h
  ⟨f, attrs, h1, h2, fun k hk => ⟨(h3 k hk).1, hl _ _ (h3 k hk).2⟩⟩

lemma openFile_file {t : Tree} {path : Text} {limit : ℕ} {f : SourceFile}
    (h : openFile t path limit = .ok f) : t.file path = some f := by
  simp only [openFile, bind_ok, relative_ok] at h
  obtain ⟨p, ⟨-, rfl⟩, node, hn, h⟩ := h
  rw [Tree.file, hn]
  cases node with
  | file g =>
    simp only [bind_ok, require_ok, pure_ok] at h
    obtain ⟨_, -, rfl⟩ := h
    rfl
  | directory | mount | special => cases h

lemma exportObject_ok {t : Tree} {s s' : Exported} {w : Wanted} {done : List Wanted}
    (h : exportObject t s w = .ok s') (hs : List.Forall₂ (Copied t s.files) done s.items) :
    List.Forall₂ (Copied t s'.files) (done ++ [w]) s'.items := by
  simp only [exportObject, bind_ok, require_ok, pure_ok] at h
  obtain ⟨f, hf, _, -, attrs, -, x, hx, rfl⟩ := h
  obtain ⟨h1, h2, h3⟩ := exportChunks_ok hx
  refine List.rel_append (hs.imp fun _ _ h => h.mono h3)
    (.cons ⟨f, attrs, openFile_file hf, ?_, h2⟩ .nil)
  rw [h1]
  rfl

lemma fields_ok {v : Value} {names : List String} {d : Dict} (h : fields v names = .ok d) :
    v = .dict d := by
  cases v with
  | dict d' =>
    simp only [fields, bind_ok, pure_ok] at h
    obtain ⟨_, -, rfl⟩ := h
    rfl
  | _ => cases h

lemma items_ok {v : Value} {why : String} {l : List Value} (h : items v why = .ok l) :
    v = .list l := by
  cases v <;> cases h
  rfl

/-- `w` is among the objects of `spec`. -/
def Wants (spec : Value) (w : Wanted) : Prop :=
  ∃ (d : Dict) (l : List Value), spec = .dict d ∧ d.get "objects" = .list l ∧
    ∃ v ∈ l, wanted v = .ok w

lemma exportCohort_size {dumps : Value → Bytes} {t : Tree} {spec v : Value} {dir : Place}
    {listing : List Text} {files : Files}
    (h : exportCohort dumps t spec dir listing = .ok (v, files)) : (dumps v).length ≤ LIMIT := by
  simp only [exportCohort, bind_ok, require_ok, relative_ok] at h
  obtain ⟨_, -, _, -, d, -, _, -, _, -, _, -, _, -, objects, -, _, -, ws, -, _, -, x, -, _, -,
    root, -, attributes, -, s, -, _, -, _, -, _, hlen, _, -, h⟩ := h
  cases h
  exact hlen

lemma exportCohort_ok {dumps : Value → Bytes} {t : Tree} {spec v : Value} {dir : Place}
    {listing : List Text} {files : Files}
    (h : exportCohort dumps t spec dir listing = .ok (v, files)) :
    ∃ d root dirs ws l, v = manifestValue d root dirs l ∧ (∀ w, Wants spec w ↔ w ∈ ws)
      ∧ List.Forall₂ (Copied t files) ws l := by
  simp only [exportCohort, bind_ok, require_ok, relative_ok] at h
  obtain ⟨_, -, _, -, d, hd, _, -, _, -, _, -, _, -, objects, ho, _, -, ws, hw, _, -, x, -, _, -,
    root, -, attributes, -, s, hs, _, -, _, -, _, -, _, ⟨-, rfl⟩, h⟩ := h
  cases h
  have hi := foldlM_invariant (I := fun done (s : Exported) =>
    List.Forall₂ (Copied t s.files) done s.items) hs .nil fun done w s s' _ hs h =>
      exportObject_ok h hs
  refine ⟨d, root, _, _, s.items, rfl, fun w => ?_,
    hi.imp fun _ _ h => h.mono (Files.Grows.append _ _)⟩
  rw [List.mem_insertionSort]
  cases fields_ok hd
  have hl := items_ok ho
  constructor
  · rintro ⟨d', l, hd', hl', v, hv, hvw⟩
    cases hd'
    rw [hl] at hl'
    cases hl'
    obtain ⟨w', hw', h⟩ := forall₂_left (mapM_ok.mp hw) hv
    rw [hvw] at h
    cases h
    exact hw'
  · intro hmem
    obtain ⟨v, hv, h⟩ := forall₂_right (mapM_ok.mp hw) hmem
    exact ⟨d, objects, rfl, hl, v, hv, h⟩

/-! ### What a manifest says -/

lemma digest_ok {v : Value} {s : Text} (h : digest v = .ok s) : v = .text s := by
  cases v with
  | text x =>
    simp only [digest, bind_ok, pure_ok] at h
    obtain ⟨_, -, rfl⟩ := h
    rfl
  | _ => cases h

lemma path_ok {v : Value} {s : Text} (h : path v = .ok s) : v = .text s ∧ Relative s := by
  cases v with
  | text x =>
    obtain ⟨h1, rfl⟩ := relative_ok.mp h
    exact ⟨rfl, h1⟩
  | _ => cases h

lemma integer_ok {v : Value} {low high n : ℕ} (h : integer v low high = .ok n) : v = .int n := by
  cases v with
  | int x =>
    simp only [integer, bind_ok, require_ok, pure_ok] at h
    obtain ⟨_, ⟨h1, -⟩, rfl⟩ := h
    rw [Int.toNat_of_nonneg (by omega)]
  | _ => cases h

/-- What an entry of a manifest says is what is written in it. -/
lemma validateItem_ok {seen : List Text} {d : Dict} {i : Item}
    (h : validateItem seen (.dict d) = .ok i) :
    d.get "path" = .text i.path ∧ Relative i.path ∧ d.get "size" = .int i.size
      ∧ d.get "sha256" = .text i.sha256 ∧ d.get "chunks" = .list (i.chunks.map .text)
      ∧ i.path ∉ seen := by
  simp only [validateItem, bind_ok, require_ok, pure_ok] at h
  obtain ⟨d', hd, p, hp, _, hs, kind, -, _, -, mode, -, uid, -, gid, -, xattrs, -, size, hsize,
    sha256, hsha, cs, hcs, _, -, chunks, hchunks, rfl⟩ := h
  cases fields_ok hd
  obtain ⟨h1, h2⟩ := path_ok hp
  refine ⟨h1, h2, integer_ok hsize, digest_ok hsha, ?_, hs⟩
  rw [items_ok hcs]
  have := (mapM_ok.mp hchunks).imp fun a b hab => digest_ok hab
  rw [← List.forall₂_map_right_iff (f := Value.text), List.forall₂_eq_eq_eq] at this
  exact congrArg _ this

lemma validateItem_dict {seen : List Text} {v : Value} {i : Item}
    (h : validateItem seen v = .ok i) : ∃ d, v = .dict d := by
  simp only [validateItem, bind_ok] at h
  obtain ⟨d, hd, -⟩ := h
  exact ⟨d, fields_ok hd⟩

/-- An entry of the manifest is read as it was written. -/
lemma validateItem_value {seen : List Text} {w : Wanted} {f : SourceFile} {attrs : Value}
    {chunks : List Text} {i : Item}
    (h : validateItem seen (itemValue w f attrs chunks) = .ok i) :
    i.path = w.path ∧ i.size = f.data.length ∧ i.sha256 = sha f.data ∧ i.chunks = chunks := by
  obtain ⟨h1, -, h3, h4, h5, -⟩ := validateItem_ok h
  have e1 : (.text w.path : Value) = .text i.path := h1
  have e3 : (.int f.data.length : Value) = .int i.size := h3
  have e4 : (.text (sha f.data) : Value) = .text i.sha256 := h4
  have e5 : (.list (chunks.map .text) : Value) = .list (i.chunks.map .text) := h5
  refine ⟨(Value.text.inj e1).symm, by have := Value.int.inj e3; omega,
    (Value.text.inj e4).symm, ?_⟩
  exact (List.map_injective_iff.mpr (fun _ _ h => Value.text.inj h) (Value.list.inj e5)).symm

/-- What is known of a manifest that has been validated. -/
structure Sound (m : Manifest) : Prop where
  paths : (m.objects.map Item.path).Nodup
  /-- No file is above another one. -/
  apart : ∀ i ∈ m.objects, ∀ j ∈ m.objects, j.path ∉ ancestors i.path
  relative : ∀ i ∈ m.objects, Relative i.path

/-- One turn of the loop over the entries. -/
lemma itemStep_ok {s s' : Items} {v : Value} (h : itemStep s v = .ok s') :
    ∃ i, validateItem (s.list.map Item.path) v = .ok i ∧ s'.list = s.list ++ [i] := by
  simp only [itemStep, bind_ok, require_ok, pure_ok] at h
  obtain ⟨i, hi, _, -, rfl⟩ := h
  exact ⟨i, hi, rfl⟩

/-- An entry that is read as the object `i`. -/
def Reads (v : Value) (i : Item) : Prop := ∃ seen, validateItem seen v = .ok i

/-- What is known of the entries that have been gone through. -/
structure Listed (done : List Value) (s : Items) : Prop where
  paths : (s.list.map Item.path).Nodup
  entries : List.Forall₂ Reads done s.list

lemma Listed.snoc {done : List Value} {s s' : Items} {v : Value} (hs : Listed done s)
    (h : itemStep s v = .ok s') : Listed (done ++ [v]) s' := by
  obtain ⟨i, hi, he⟩ := itemStep_ok h
  obtain ⟨d, rfl⟩ := validateItem_dict hi
  obtain ⟨-, -, -, -, -, hseen⟩ := validateItem_ok hi
  constructor
  · rw [he, List.map_append, List.nodup_append]
    refine ⟨hs.paths, List.nodup_singleton _, fun p hp q hq hpq => ?_⟩
    rw [List.map_singleton, List.mem_singleton] at hq
    exact hseen (hq ▸ hpq ▸ hp)
  · rw [he]
    exact List.rel_append hs.entries (.cons ⟨_, hi⟩ .nil)

/-- What a manifest has been read from, and what has been checked of it. -/
structure Validated (d : Dict) (os ds : List Value) (m : Manifest) : Prop where
  objects : d.get "objects" = .list os
  count : 1 ≤ os.length ∧ os.length ≤ MAX_OBJECTS
  root : validateDirectoryAttributes (d.get "root_attributes") = .ok m.rootAttributes
  directories : d.get "directories" = .list ds
  few : ds.length ≤ MAX_OBJECTS
  validated : List.Forall₂ (fun v d => validateDirectory v = .ok d) ds m.directories
  dirs : Canonical (m.directories.map DirectoryEntry.path)
  nodup : (m.objects.map Item.path).Nodup
  entries : List.Forall₂ Reads os m.objects
  paths : Canonical (m.objects.map Item.path)
  apart : ∀ p ∈ m.objects.map Item.path, ∀ a ∈ ancestors p, a ∉ m.objects.map Item.path

lemma validateManifest_validated {v : Value} {m : Manifest} {n : ℕ}
    (h : validateManifest v = .ok (m, n)) :
    ∃ d objects directories, v = .dict d ∧ Validated d objects directories m := by
  simp only [validateManifest, bind_ok, require_ok, pure_ok] at h
  obtain ⟨d, hd, _, -, _, -, _, -, _, -, _, -, _, -, _, -, _, -, _, -, _, -, _, -, _, -, _, -,
    objects, ho, _, hcount, root, hroot, dvs, hdvs, _, hfew, ds, hds, _, hdirs, s, hs, _, hpaths,
    _, -, _, -, _, hapart, _, -, _, -, _, -, h⟩ := h
  cases h
  have hl := foldlM_invariant (I := Listed) hs ⟨List.nodup_nil, .nil⟩
    fun done v s s' _ hs h => hs.snoc h
  exact ⟨d, objects, dvs, fields_ok hd, items_ok ho, hcount, hroot, items_ok hdvs, hfew,
    mapM_ok.mp hds, hdirs, hl.paths, hl.entries, hpaths, hapart⟩

lemma validateManifest_ok {d : Dict} {l : List Value} {m : Manifest} {n : ℕ}
    (hd : d.get "objects" = .list l) (h : validateManifest (.dict d) = .ok (m, n)) :
    Sound m ∧ List.Forall₂ Reads l m.objects := by
  obtain ⟨d', objects, directories, hv, hm⟩ := validateManifest_validated h
  cases hv
  cases hd.symm.trans hm.objects
  refine ⟨⟨hm.nodup, fun i hi j hj ha => ?_, fun i hi => ?_⟩, hm.entries⟩
  · exact hm.apart _ (List.mem_map_of_mem hi) _ ha (List.mem_map_of_mem hj)
  · obtain ⟨v, -, seen, hv⟩ := forall₂_right hm.entries hi
    obtain ⟨d, rfl⟩ := validateItem_dict hv
    exact (validateItem_ok hv).2.1

lemma authenticate_manifest {L : Library} {mraw eraw : Bytes} {trust : Value} {expected : Text}
    {now : ℤ} {m : Manifest} {a : Anchor}
    (h : authenticate L mraw eraw trust expected now = .ok (m, a)) :
    ∃ v n, L.loads mraw = .ok v ∧ validateManifest v = .ok (m, n) := by
  simp only [authenticate, decode, bind_ok, require_ok, pure_ok] at h
  obtain ⟨_, -, _, -, _, -, v, ⟨_, -, hv⟩, ⟨m', n⟩, hm, h⟩ := h
  obtain ⟨_, -, _, -, _, -, _, -, _, -, _, -, _, -, _, -, _, -, _, -, h⟩ := h
  cases h
  exact ⟨v, n, hv, hm⟩

/-- All that the manifest says of `i` is what `export` has found and copied. -/
structure Archived (t : Tree) (files : Files) (i : Item) (data : Bytes) : Prop where
  source : ∃ f, t.file i.path = some f ∧ f.data = data
  size : i.size = data.length
  sha256 : i.sha256 = sha data
  chunks : i.chunks = (List.range (chunkCount data)).map fun k => sha (piece data k)
  pieces : ∀ k < chunkCount data, files.Has (piece data k)

/-- **What has been exported**, of a manifest that has been authenticated. -/
lemma exported {L : Library} {t : Tree} {spec v : Value} {dir : Place} {listing : List Text}
    {files : Files} {eraw : Bytes} {trust : Value} {expected : Text} {now : ℤ} {m : Manifest}
    {a : Anchor} (hx : exportCohort L.dumps t spec dir listing = .ok (v, files))
    (hj : L.loads (L.dumps v) = .ok v)
    (ha : authenticate L (L.dumps v) eraw trust expected now = .ok (m, a)) :
    Sound m ∧ (∀ i ∈ m.objects, ∃ data, Archived t files i data)
      ∧ ∀ p, (∃ i ∈ m.objects, i.path = p) ↔ ∃ w, Wants spec w ∧ w.path = p := by
  obtain ⟨d, root, dirs, ws, l, rfl, hw, hl⟩ := exportCohort_ok hx
  obtain ⟨v, n, hv, hm⟩ := authenticate_manifest ha
  rw [hj] at hv
  cases hv
  obtain ⟨hs, hi⟩ := validateManifest_ok (l := l) rfl hm
  refine ⟨hs, fun i hi' => ?_, fun p => ⟨?_, ?_⟩⟩
  · obtain ⟨x, hx, seen, hval⟩ := forall₂_right hi hi'
    obtain ⟨w, -, f, attrs, hf, rfl, hpieces⟩ := forall₂_right hl hx
    obtain ⟨h1, h2, h3, h4⟩ := validateItem_value hval
    exact ⟨f.data, ⟨f, h1 ▸ hf, rfl⟩, h2, h3, h4, hpieces⟩
  · rintro ⟨i, hi', rfl⟩
    obtain ⟨x, hx, seen, hval⟩ := forall₂_right hi hi'
    obtain ⟨w, hw', f, attrs, -, rfl, -⟩ := forall₂_right hl hx
    exact ⟨w, (hw w).mpr hw', (validateItem_value hval).1.symm⟩
  · rintro ⟨w, hw', rfl⟩
    obtain ⟨x, hx, f, attrs, -, rfl, -⟩ := forall₂_left hl ((hw w).mp hw')
    obtain ⟨i, hi', seen, hval⟩ := forall₂_left hi hx
    exact ⟨i, hi', (validateItem_value hval).1⟩

/-! ### Places -/

variable {out : Place} {q : Text}

lemma splitOn_payload (q : Text) :
    (payloadPath q).splitOn '/' = "payload".toList :: q.splitOn '/' := by
  rw [show payloadPath q = "payload".toList ++ '/' :: q from rfl, List.splitOn_append_cons_self,
    List.splitOn_eq_singleton (by decide)]
  rfl

lemma place_payload (out : Place) (q : Text) :
    place out (payloadPath q) = out ++ "payload".toList :: q.splitOn '/' := by
  rw [place, splitOn_payload]

lemma place_payload_inj {q' : Text} (h : place out (payloadPath q) = place out (payloadPath q')) :
    q = q' := by
  rw [place_payload, place_payload, List.append_cancel_left_eq, List.cons.injEq] at h
  exact splitOn_inj h.2

/-- The directories above a file of the candidate: that of all of them, and those that are named
by what is above its path. -/
lemma mem_parents_payload {p : Place} : p ∈ parents out (payloadPath q) ↔
    p = out ++ ["payload".toList] ∨ ∃ a ∈ ancestors q, p = place out (payloadPath a) := by
  have hlen : (q.splitOn '/').length ≠ 0 := fun h =>
    List.splitOn_ne_nil _ _ (List.length_eq_zero_iff.mp h)
  have key : ∀ n, 0 < n → place out (payloadPath (['/'].intercalate ((q.splitOn '/').take n)))
      = out ++ "payload".toList :: (q.splitOn '/').take n := fun n hn => by
    rw [place_payload, splitOn_intercalate_take hn]
  simp only [parents, ancestors, splitOn_payload, List.mem_map, List.mem_range'_1,
    List.length_cons]
  constructor
  · rintro ⟨n, hn, rfl⟩
    rcases Nat.eq_or_lt_of_le hn.1 with rfl | h1
    · exact .inl (by simp)
    · refine .inr ⟨_, ⟨n - 1, ⟨by omega, by omega⟩, rfl⟩, ?_⟩
      rw [key _ (by omega)]
      obtain ⟨k, rfl⟩ : ∃ k, n = k + 1 := ⟨n - 1, by omega⟩
      rfl
  · rintro (rfl | ⟨_, ⟨n, hn, rfl⟩, rfl⟩)
    · exact ⟨1, ⟨Nat.le_refl _, by omega⟩, by simp⟩
    · exact ⟨n + 1, ⟨by omega, by omega⟩, by rw [key _ (by omega)]; rfl⟩

/-! ### What the candidate's host does -/

section Host

variable {rs : List Replica} {free : ℕ} {l l' l'' : Entries} {path : Text} {α β : Type}

/-- `x` ends with `a`, and leaves `l'`. -/
def Ends (rs : List Replica) (free : ℕ) (out : Place) (x : Tool α) (l : Entries) (a : α)
    (l' : Entries) : Prop := x.run.run (serve rs free out) l = (.ok a, l')

lemma Ends.bind {x : Tool α} {f : α → Tool β} {a : α} {b : β} (h : Ends rs free out x l a l')
    (h' : Ends rs free out (f a) l' b l'') : Ends rs free out (x >>= f) l b l'' := by
  unfold Ends at h ⊢
  rw [ExceptT.run_bind, Program.run_bind, h]
  exact h'

/-- Two steps, and what comes after them. -/
lemma Ends.next {γ : Type} {x : Tool α} {f : α → Tool β} {g : β → Tool γ} {b : β} {c : γ}
    (h : Ends rs free out (x >>= f) l b l') (h' : Ends rs free out (g b) l' c l'') :
    Ends rs free out (x >>= fun a => f a >>= g) l c l'' := by
  unfold Ends at h h' ⊢
  rw [ExceptT.run_bind, Program.run_bind] at h ⊢
  cases hx : (x.run.run (serve rs free out) l).1 with
  | error e =>
    rw [hx] at h
    cases h
  | ok a =>
    rw [hx] at h
    dsimp only at h ⊢
    rw [ExceptT.run_bind, Program.run_bind, h]
    exact h'

lemma ends_pure (a : α) : Ends rs free out (pure a) l a l := rfl

lemma ends_raised {x : Except Error α} {a : α} (h : x = .ok a) :
    Ends rs free out (raised x) l a l := by
  subst h
  rfl

lemma ends_require {p : Prop} [Decidable p] {why : String} (h : p) :
    Ends rs free out (raised (require p why)) l () l := ends_raised (require_ok.mpr h)

lemma ends_ask (c : Call) : Ends rs free out (ask c) l (serve rs free out c l).1
    (serve rs free out c l).2 := rfl

lemma ends_fault (point : String) : Ends rs free out (fault point) l () l :=
  (ends_ask (.fault point)).bind (ends_raised rfl)

lemma disk_head (p : Place) (e : Entry) (l : Entries) : Entries.disk ((p, e) :: l) p = some e := by
  rw [disk_cons, Function.update_self]

/-- A new file, where there is no file above it. -/
lemma ends_create (hr : Relative path)
    (hp : ∀ p ∈ parents out path, l.disk p = none ∨ l.disk p = some .directory)
    (hn : l.disk (place out path) = none) :
    Ends rs free out (create path) l ()
      ((place out path, .file [] false false) :: l.mkdir (parents out path)) := by
  have h1 : ¬ ∃ p ∈ parents out path, l.disk p ≠ none ∧ l.disk p ≠ some .directory := by
    rintro ⟨p, h, h1, h2⟩
    exact (hp p h).elim h1 h2
  have h2 : (l.mkdir (parents out path)).disk (place out path) = none := by
    rw [disk_mkdir, if_neg fun h => (mem_parents h.1).2.2.2 rfl, hn]
  have h3 : l.create out path = (.ok true,
      (place out path, .file [] false false) :: l.mkdir (parents out path)) := by
    rw [Entries.create, if_neg h1, if_pos h2]
  refine (ends_raised (relative_ok.mpr ⟨hr, rfl⟩)).bind ((ends_ask (.create path)).bind ?_)
  change Ends rs free out _ (l.create out path).2 () _
  rw [show (serve rs free out (.create path) l).1 = (l.create out path).1 from rfl, h3]
  exact (ends_raised rfl).bind (ends_raised rfl)

/-- A file is written to. -/
lemma ends_write {b : Bytes} {synced named : Bool} (data : Bytes)
    (h : l.disk (place out path) = some (.file b synced named)) :
    Ends rs free out (do raised (answer (← ask (.write path data)))) l ()
      ((place out path, .file (b ++ data) false named) :: l) := by
  refine (ends_ask (.write path data)).bind ?_
  have : (serve rs free out (.write path data) l).2
      = (place out path, .file (b ++ data) false named) :: l := by
    simp [serve, Entries.change, h]
  rw [this]
  exact ends_raised rfl

lemma ends_fsync {b : Bytes} {synced named : Bool}
    (h : l.disk (place out path) = some (.file b synced named)) :
    Ends rs free out (do raised (answer (← ask (.fsync path)))) l ()
      ((place out path, .file b true named) :: l) := by
  refine (ends_ask (.fsync path)).bind ?_
  have : (serve rs free out (.fsync path) l).2 = (place out path, .file b true named) :: l := by
    simp [serve, Entries.change, h]
  rw [this]
  exact ends_raised rfl

lemma ends_fsyncParent {b : Bytes} {synced named : Bool}
    (h : l.disk (place out path) = some (.file b synced named)) :
    Ends rs free out (do raised (answer (← ask (.fsyncParent path)))) l ()
      ((place out path, .file b synced true) :: l) := by
  refine (ends_ask (.fsyncParent path)).bind ?_
  have : (serve rs free out (.fsyncParent path) l).2
      = (place out path, .file b synced true) :: l := by
    simp [serve, Entries.change, h]
  rw [this]
  exact ends_raised rfl

/-- A file that is written in one go. -/
lemma ends_writeNew (rs : List Replica) (free : ℕ) (b : Bytes) (hr : Relative path)
    (hp : ∀ p ∈ parents out path, l.disk p = none ∨ l.disk p = some .directory)
    (hn : l.disk (place out path) = none) :
    ∃ l', Ends rs free out (writeNew path b) l () l'
      ∧ l'.disk = Function.update (l.mkdir (parents out path)).disk (place out path)
          (some (.file b true true)) := by
  refine ⟨_, (ends_create hr hp hn).bind ((ends_write b (disk_head _ _ _)).next
    ((ends_fsync (disk_head _ _ _)).next (ends_fsyncParent (disk_head _ _ _)))), ?_⟩
  simp only [disk_cons, Function.update_idem, List.nil_append]

lemma place_name {name : Text} (h : '/' ∉ name) (out : Place) : place out name = out ++ [name] := by
  rw [place, List.splitOn_eq_singleton h]

/-- A file in the directory itself. -/
lemma ends_writeNew_name (rs : List Replica) (free : ℕ) (name : String) (b : Bytes)
    (hr : Relative name.toList) (hs : '/' ∉ name.toList)
    (hn : l.disk (out ++ [name.toList]) = none) :
    ∃ l', Ends rs free out (writeNew name.toList b) l () l'
      ∧ l'.disk = Function.update l.disk (out ++ [name.toList]) (some (.file b true true)) := by
  have hp : parents out name.toList = [] := by
    rw [parents, List.splitOn_eq_singleton hs]
    rfl
  obtain ⟨l', h1, h2⟩ := ends_writeNew rs free b hr (by rw [hp]; nofun)
    ((place_name hs out).symm ▸ hn)
  rw [hp, place_name hs] at h2
  exact ⟨l', h1, h2⟩

/-- A good copy is taken as it is. -/
lemma ends_copies {r : Replica} {chunk : Text} {size : ℕ} {b : Bytes} (bad : Findings)
    (h : r.copy chunk = .ok b) (hg : Good chunk size b) :
    Ends [r] free out ((List.range 1).foldlM (copyStep true chunk size) (none, bad)) l
      (some b, bad) l := by
  refine Ends.bind (a := (some b, bad)) ?_ (ends_pure _)
  have hread : read (objectPath chunk) CHUNK
      (serve [r] free out (.read 0 (objectPath chunk)) l).1 = .ok b := h
  refine (ends_ask (.read 0 (objectPath chunk))).bind ?_
  rw [hread]
  have : ¬ (b.length ≠ size ∨ sha b ≠ chunk) := fun hn => hn.elim (· hg.1) (· hg.2)
  dsimp only
  rw [if_neg this]
  exact ends_pure _

/-- The pieces of a file that the replica holds are put together. -/
lemma ends_chunkLoop (free : ℕ) (r : Replica) (i : Item) {data : Bytes} (count number : ℕ)
    (content : Bytes) (bad : Findings) (l : Entries)
    (h : ∀ k, number ≤ k → k < number + count →
      r.copy (sha (piece data k)) = .ok (piece data k) ∧ (piece data k).length = i.chunkSize k)
    (hl : l.disk (place out (payloadPath i.path)) = some (.file content false false)) :
    ∃ l', Ends [r] free out (chunkLoop true 1 i number
          ((List.range' number count).map fun k => sha (piece data k)) content bad) l
        (true, content ++ ((List.range' number count).map (piece data)).flatten, bad) l'
      ∧ l'.disk = Function.update l.disk (place out (payloadPath i.path))
          (some (.file (content ++ ((List.range' number count).map (piece data)).flatten)
            false false)) := by
  induction count generalizing number content l with
  | zero =>
    refine ⟨l, ?_, ?_⟩
    · simp only [List.range'_zero, List.map_nil, List.flatten_nil, List.append_nil]
      exact ends_pure _
    · simpa using (Function.update_eq_self_iff.mpr hl.symm).symm
  | succ count ih =>
    obtain ⟨h1, h2⟩ := h number (Nat.le_refl _) (by omega)
    obtain ⟨l', h3, h4⟩ := ih (number + 1) (content ++ piece data number) _
      (fun k h1 h2 => h k (by omega) (by omega)) (disk_head _ _ l)
    refine ⟨l', ?_, ?_⟩
    · simp only [List.range'_succ, List.map_cons, List.flatten_cons, ← List.append_assoc]
      exact (ends_copies bad h1 ⟨h2, rfl⟩).bind ((ends_write _ hl).next ((ends_fault _).bind h3))
    · rw [h4, disk_cons, Function.update_idem]
      simp only [List.range'_succ, List.map_cons, List.flatten_cons, ← List.append_assoc]

end Host

/-! ### Objects -/

/-- The directory that has been exported to, as a replica. -/
def Files.replica (files : Files) (dir : Place) : Replica where
  path := dir
  files p :=
    match files.lookup p with
    | some b => fileHost b
    | none => { stat := .error "FileNotFoundError" }

section Objects

variable {t : Tree} {files : Files} {dir : Place} {free : ℕ} {i : Item} {data : Bytes}
  {l : Entries} {m : Manifest}

lemma length_piece (data : Bytes) (k : ℕ) :
    (piece data k).length = min CHUNK (data.length - k * CHUNK) := by
  simp [piece]

lemma copy_of_has {b : Bytes} (h : files.Has b) (hb : b.length ≤ CHUNK) :
    (files.replica dir).copy (sha b) = .ok b := by
  unfold Replica.copy Files.replica
  dsimp only
  rw [h.2]
  exact read_fileHost.mpr ⟨h.1, hb, rfl⟩

/-- **One object** is put together. -/
lemma ends_objectStep (dir : Place) (free : ℕ) (h : Archived t files i data)
    (hr : Relative (payloadPath i.path))
    (hp : ∀ p ∈ parents out (payloadPath i.path), l.disk p = none ∨ l.disk p = some .directory)
    (hn : l.disk (place out (payloadPath i.path)) = none) (rep : Report) :
    ∃ l', Ends [files.replica dir] free out (objectStep true 1 rep i) l
        { rep with objects := rep.objects ++ [(i.path, true)] } l'
      ∧ l'.disk = Function.update (l.mkdir (parents out (payloadPath i.path))).disk
          (place out (payloadPath i.path)) (some (.file data true true)) := by
  obtain ⟨l', h1, h2⟩ := ends_chunkLoop free (files.replica dir) i (chunkCount data) 0 [] rep.bad _
    (fun k _ hk => by
      have hlen := length_piece data k
      refine ⟨copy_of_has (h.pieces k (by omega)) (by omega), ?_⟩
      rw [hlen, Item.chunkSize, h.size])
    (disk_head _ (.file [] false false) (l.mkdir (parents out (payloadPath i.path))))
  rw [← List.range_eq_range', ← h.chunks, pieces_flatten, take_chunkCount, List.nil_append] at h1
  rw [← List.range_eq_range', pieces_flatten, take_chunkCount, List.nil_append] at h2
  have h3 := h2 ▸ Function.update_self (place out (payloadPath i.path)) _ _
  refine ⟨(place out (payloadPath i.path), .file data true true)
      :: (place out (payloadPath i.path), .file data true false) :: l',
    (ends_create hr hp hn).bind (h1.bind ((ends_fsync h3).next
      ((ends_fsyncParent (disk_head _ _ _)).next ((ends_fault _).bind ?_)))), ?_⟩
  · have hg : (true && decide (data.length = i.size ∧ sha data = i.sha256)) = true := by
      simp [h.size, h.sha256]
    rw [hg, Bool.and_true]
    exact ends_pure _
  · simp only [disk_cons, h2, Function.update_idem]

/-- What there is in the directory when the objects `done` have been put together. -/
structure Laid (out : Place) (t : Tree) (files : Files) (done : List Item) (l : Entries) :
    Prop where
  found : ∀ p e, out <+: p → p ≠ out → l.disk p = some e →
    (∃ name ∈ ["intent.json", "manifest.json", "anchor.json"], p = out ++ [String.toList name])
      ∨ (∃ j ∈ done, p = place out (payloadPath j.path))
      ∨ (e = .directory ∧ ∃ j ∈ done, p ∈ parents out (payloadPath j.path))
  restored : ∀ j ∈ done, ∃ data, Archived t files j data
    ∧ Durable out (payloadPath j.path) data l.disk

/-- Neither the file of the next object nor a file above it is there. -/
lemma Laid.room {done rest : List Item} (hl : Laid out t files done l) (hs : Sound m)
    (hm : done ++ i :: rest = m.objects) :
    l.disk (place out (payloadPath i.path)) = none
      ∧ ∀ p ∈ parents out (payloadPath i.path),
        l.disk p = none ∨ l.disk p = some .directory := by
  have hi : i ∈ m.objects := hm ▸ by simp
  have hj : ∀ j ∈ done, j ∈ m.objects := fun j hj => hm ▸ List.mem_append_left _ hj
  have hne : ∀ j ∈ done, j.path ≠ i.path := by
    have := hs.paths
    rw [← hm, List.map_append, List.nodup_append] at this
    exact fun j hj => this.2.2 _ (List.mem_map_of_mem hj) _ (by simp)
  have below : ∀ q : Text, out <+: place out q ∧ place out q ≠ out := fun q =>
    ⟨List.prefix_append _ _, fun h =>
      List.splitOn_ne_nil _ _ (List.append_right_eq_self.mp h)⟩
  -- A file on the way to one that is put together would have a path above the other one's.
  have apart : ∀ j ∈ m.objects, ∀ k ∈ m.objects, place out (payloadPath j.path)
      ∉ parents out (payloadPath k.path) := by
    intro j hj k hk h
    rcases mem_parents_payload.mp h with h | ⟨a, ha, h⟩
    · rw [place_payload, List.append_cancel_left_eq, List.cons.injEq] at h
      exact List.splitOn_ne_nil _ _ h.2
    · exact hs.apart k hk j hj (place_payload_inj h ▸ ha)
  constructor
  · by_contra hn
    obtain ⟨e, he⟩ := Option.ne_none_iff_exists'.mp hn
    obtain ⟨h1, h2⟩ := below (payloadPath i.path)
    rcases hl.found _ e h1 h2 he with ⟨name, -, h⟩ | ⟨j, hjd, h⟩ | ⟨-, j, hjd, h⟩
    · rw [place_payload, List.append_cancel_left_eq, List.cons.injEq] at h
      exact List.splitOn_ne_nil _ _ h.2
    · exact hne j hjd (place_payload_inj h).symm
    · exact apart i hi j (hj j hjd) h
  · intro p hp
    cases he : l.disk p with
    | none => exact .inl rfl
    | some e =>
      obtain ⟨h1, h2, -, -⟩ := mem_parents hp
      rcases hl.found p e h1 h2 he with ⟨name, hname, h⟩ | ⟨j, hjd, h⟩ | ⟨rfl, -⟩
      · exfalso
        rcases mem_parents_payload.mp hp with h' | ⟨a, -, h'⟩
        · rw [h, List.append_cancel_left_eq, List.cons.injEq] at h'
          have : ∀ name ∈ ["intent.json", "manifest.json", "anchor.json"],
              String.toList name ≠ "payload".toList := by decide
          exact this name hname h'.1
        · rw [h, place_payload, List.append_cancel_left_eq, List.cons.injEq] at h'
          exact List.splitOn_ne_nil _ _ h'.2.symm
      · exact absurd (h ▸ hp) (apart j (hj j hjd) i hi)
      · exact .inr rfl

lemma Laid.step {done rest : List Item} {l' : Entries} (hl : Laid out t files done l)
    (hs : Sound m) (hm : done ++ i :: rest = m.objects) (h : Archived t files i data)
    (hd : l'.disk = Function.update (l.mkdir (parents out (payloadPath i.path))).disk
      (place out (payloadPath i.path)) (some (.file data true true))) :
    Laid out t files (done ++ [i]) l' := by
  obtain ⟨hn, -⟩ := hl.room hs hm
  constructor
  · intro p e h1 h2 he
    by_cases hp : p = place out (payloadPath i.path)
    · exact .inr (.inl ⟨i, by simp, hp⟩)
    · rw [hd, Function.update_of_ne hp, disk_mkdir] at he
      split at he
      · rename_i hpar
        exact .inr (.inr ⟨(Option.some.inj he).symm, i, by simp, hpar.1⟩)
      · rcases hl.found p e h1 h2 he with h | ⟨j, hj, h⟩ | ⟨h, j, hj, h'⟩
        · exact .inl h
        · exact .inr (.inl ⟨j, List.mem_append_left _ hj, h⟩)
        · exact .inr (.inr ⟨h, j, List.mem_append_left _ hj, h'⟩)
  · intro j hj
    rcases List.mem_append.mp hj with hj | hj
    · obtain ⟨data', h1, h2⟩ := hl.restored j hj
      refine ⟨data', h1, ?_⟩
      have hne : place out (payloadPath j.path) ≠ place out (payloadPath i.path) := by
        intro he
        rw [Durable, he, hn] at h2
        cases h2
      rw [Durable] at h2
      rw [Durable, hd, Function.update_of_ne hne, disk_mkdir, if_neg (by simp [h2]), h2]
    · rw [List.mem_singleton.mp hj]
      exact ⟨data, h, by rw [Durable, hd, Function.update_self]⟩

/-- The loop over the objects. -/
lemma ends_objects (dir : Place) (free : ℕ) (hs : Sound m)
    (ha : ∀ i ∈ m.objects, ∃ data, Archived t files i data)
    (hr : ∀ i ∈ m.objects, Relative (payloadPath i.path)) (rest done : List Item) (rep : Report)
    (l : Entries) (hm : done ++ rest = m.objects) (hl : Laid out t files done l) :
    ∃ l', Ends [files.replica dir] free out (rest.foldlM (objectStep true 1) rep) l
        { rep with objects := rep.objects ++ rest.map fun i => (i.path, true) } l'
      ∧ Laid out t files m.objects l' := by
  induction rest generalizing done rep l with
  | nil =>
    rw [List.append_nil] at hm
    refine ⟨l, ?_, hm ▸ hl⟩
    rw [List.map_nil, List.append_nil]
    exact ends_pure rep
  | cons i rest ih =>
    have hi : i ∈ m.objects := hm ▸ by simp
    obtain ⟨data, hd⟩ := ha i hi
    obtain ⟨hn, hp⟩ := hl.room hs hm
    obtain ⟨l₁, h1, h2⟩ := ends_objectStep dir free hd (hr i hi) hp hn rep
    obtain ⟨l₂, h3, h4⟩ := ih (done ++ [i])
      { rep with objects := rep.objects ++ [(i.path, true)] } l₁ (by rw [← hm]; simp)
      (hl.step hs hm hd h2)
    refine ⟨l₂, ?_, h4⟩
    rw [List.foldlM_cons]
    refine h1.bind ?_
    simpa using h3

/-- Nothing else has been made in the directory itself. -/
lemma Laid.absent {done : List Item} (hl : Laid out t files done l) (name : String)
    (hname : name.toList ∉ ["intent.json".toList, "manifest.json".toList, "anchor.json".toList,
      "payload".toList]) : l.disk (out ++ [name.toList]) = none := by
  by_contra hn
  obtain ⟨e, he⟩ := Option.ne_none_iff_exists'.mp hn
  have single : ∀ q : Text, out ++ [name.toList] ≠ place out (payloadPath q) := by
    intro q h
    rw [place_payload, List.append_cancel_left_eq, List.cons.injEq] at h
    exact List.splitOn_ne_nil _ _ h.2.symm
  rcases hl.found _ e (List.prefix_append _ _) (by simp) he with
    ⟨name', h, h'⟩ | ⟨j, -, h⟩ | ⟨-, j, -, h⟩
  · rw [List.append_cancel_left_eq, List.cons.injEq] at h'
    refine hname ?_
    rw [h'.1]
    simp only [List.mem_cons, List.not_mem_nil, or_false] at h ⊢
    rcases h with rfl | rfl | rfl <;> simp
  · exact single _ h
  · rcases mem_parents_payload.mp h with h | ⟨a, -, h⟩
    · rw [List.append_cancel_left_eq, List.cons.injEq] at h
      exact hname (by simp [h.1])
    · exact single _ h

/-! ### The whole of it -/

variable {L : Library} {mraw eraw : Bytes} {trust : Value} {expected : Text} {now : ℤ}

lemma ends_prepare (L : Library) (mraw eraw : Bytes) (expected : Text) (t : Tree) (files : Files)
    (r : Replica) (ho : ¬ Overlap out r.path) (hv : Vacant out l.disk) {total : ℕ}
    (hf : total + 4 * LIMIT ≤ free) :
    ∃ l', Ends [r] free out (prepare L mraw eraw expected total [r.path] out) l () l'
      ∧ Laid out t files [] l' := by
  have vacant : ∀ name : Text, l.disk (out ++ [name]) = none := fun name =>
    hv _ (List.prefix_append _ _) (by simp)
  obtain ⟨l₁, h1, d1⟩ := ends_writeNew_name [r] free "intent.json" (L.dumps (intent expected))
    (by decide) (by decide) (vacant _)
  obtain ⟨l₂, h2, d2⟩ := ends_writeNew_name [r] free "manifest.json" mraw (by decide) (by decide)
    (show l₁.disk _ = none by rw [d1, Function.update_of_ne (by simp), vacant])
  obtain ⟨l₃, h3, d3⟩ := ends_writeNew_name [r] free "anchor.json" eraw (by decide) (by decide)
    (show l₂.disk _ = none by
      rw [d2, Function.update_of_ne (by simp), d1, Function.update_of_ne (by simp), vacant])
  refine ⟨l₃, ?_, ?_, by simp⟩
  · refine (ends_require (by simpa using ho)).bind ?_
    have listdir : Ends [r] free out (do raised (answer (← ask .listdir))) l false l := by
      refine (ends_ask .listdir).bind (ends_raised ?_)
      exact congrArg _ (congrArg _ (vacant_iff.mpr hv))
    have space : Ends [r] free out (do raised (answer (← ask .fstatvfs))) l free l :=
      (ends_ask .fstatvfs).bind (ends_raised rfl)
    refine listdir.next ((ends_require rfl).bind (space.next ?_))
    exact (ends_require hf).bind (h1.bind ((ends_fault _).bind (h2.bind h3)))
  · intro p e hp hne he
    rw [d3, d2, d1] at he
    by_cases e3 : p = out ++ ["anchor.json".toList]
    · exact .inl ⟨"anchor.json", by simp, e3⟩
    by_cases e2 : p = out ++ ["manifest.json".toList]
    · exact .inl ⟨"manifest.json", by simp, e2⟩
    by_cases e1 : p = out ++ ["intent.json".toList]
    · exact .inl ⟨"intent.json", by simp, e1⟩
    rw [Function.update_of_ne e3, Function.update_of_ne e2, Function.update_of_ne e1,
      hv p hp hne] at he
    cases he

lemma ends_conclude (L : Library) (r : Replica) (free : ℕ) {done : List Item}
    (hl : Laid out t files done l) (rep : Report) (hc : rep.complete = true) :
    ∃ l', Ends [r] free out (conclude L rep) l () l'
      ∧ ∀ j ∈ done, ∃ data, Archived t files j data
        ∧ Durable out (payloadPath j.path) data l'.disk := by
  obtain ⟨l₁, h1, d1⟩ := ends_writeNew_name [r] free "report.json" (L.dumps rep.value)
    (by decide) (by decide) (hl.absent "report.json" (by decide))
  obtain ⟨l₂, h2, d2⟩ := ends_writeNew_name [r] free "candidate-ready.json"
    (L.dumps (ready rep.anchor (sha (L.dumps rep.value)))) (by decide) (by decide)
    (show l₁.disk _ = none by
      rw [d1, Function.update_of_ne (by simp), hl.absent "candidate-ready.json" (by decide)])
  refine ⟨l₂, h1.bind ((ends_fault _).bind ?_), fun j hj => ?_⟩
  · rw [if_pos hc]
    exact h2.bind (ends_fault _)
  · obtain ⟨data, h3, h4⟩ := hl.restored j hj
    refine ⟨data, h3, ?_⟩
    have hne : ∀ name, place out (payloadPath j.path) ≠ out ++ [name] := by
      intro name h
      rw [place_payload, List.append_cancel_left_eq, List.cons.injEq] at h
      exact List.splitOn_ne_nil _ _ h.2
    rw [Durable, d2, Function.update_of_ne (hne _), d1, Function.update_of_ne (hne _)]
    exact h4

variable {a : Anchor}

/-- **What has been exported is put together again**, if the paths below the candidate are paths. -/
lemma ends_reconstruct (ha : authenticate L mraw eraw trust expected now = .ok (m, a))
    (hs : Sound m) (hd : ∀ i ∈ m.objects, ∃ data, Archived t files i data)
    (ho : ¬ Overlap out dir) (hv : Vacant out l.disk) (hf : m.total + 4 * LIMIT ≤ free)
    (hr : ∀ i ∈ m.objects, Relative (payloadPath i.path)) :
    ∃ rep l', Ends [files.replica dir] free out
        (reconstruct L mraw eraw trust expected now [dir] (some out)) l rep l'
      ∧ rep.complete = true
      ∧ ∀ i ∈ m.objects, ∃ f, t.file i.path = some f
        ∧ Durable out (payloadPath i.path) f.data l'.disk := by
  obtain ⟨l₁, h1, hl⟩ := ends_prepare L mraw eraw expected t files (files.replica dir) ho hv hf
  obtain ⟨l₂, h2, hl₂⟩ := ends_objects dir free hs hd hr m.objects [] (.start expected m) l₁ rfl hl
  obtain ⟨l₃, h3, h4⟩ := ends_conclude L (files.replica dir) free hl₂
    { Report.start expected m with objects := m.objects.map fun i => (i.path, true) } rfl
  refine ⟨_, l₃, (ends_raised ha).bind ((ends_require (by simp)).bind (h1.bind (h2.bind
    (h3.bind (ends_pure _))))), rfl, fun i hi => ?_⟩
  obtain ⟨data, ⟨⟨f, hf, rfl⟩, -, -, -, -⟩, hd'⟩ := h4 i hi
  exact ⟨f, hf, hd'⟩

/-- Nothing comes of a path that is none below the candidate. -/
lemma relative_of_ends {rs : List Replica} {rep : Report} {l' : Entries} {replicas : List Place}
    (ha : authenticate L mraw eraw trust expected now = .ok (m, a))
    (h : Ends rs free out (reconstruct L mraw eraw trust expected now replicas (some out)) l rep
      l') :
    ∀ i ∈ m.objects, Relative (payloadPath i.path) := by
  have step : ∀ (rep : Report) (i : Item) (s : Entries),
      Program.Keeps (fun _ _ _ _ => True) Program.anything
        (objectStep true replicas.length rep i) (fun _ _ => Relative (payloadPath i.path)) s := by
    intro rep i s
    refine Program.Keeps.bind (P := fun _ _ => Relative (payloadPath i.path)) ?_
      fun _ _ h => Program.keeps_anything h _
    exact Program.Keeps.bind (P := fun _ _ => Relative (payloadPath i.path))
      (Program.keeps_mk fun _ h => (relative_ok.mp h).1) fun _ _ h => Program.keeps_anything h _
  have keeps : Program.Keeps (fun _ _ _ _ => True) Program.anything
      (reconstruct L mraw eraw trust expected now replicas (some out))
      (fun _ _ => ∀ i ∈ m.objects, Relative (payloadPath i.path)) l := by
    unfold reconstruct
    refine Program.Keeps.bind (P := fun x _ => x = (m, a)) (Program.keeps_mk fun x hx => ?_) ?_
    · rw [ha] at hx
      exact (Except.ok.inj hx).symm
    rintro _ s rfl
    refine (Program.keeps_anything trivial _).bind fun _ s _ => ?_
    refine (Program.keeps_anything trivial _).bind fun _ s _ => ?_
    refine Program.Keeps.bind (P := fun _ _ => ∀ i ∈ m.objects, Relative (payloadPath i.path)) ?_
      fun _ _ h => Program.keeps_anything h _
    refine Program.keeps_foldlM (I := fun done _ _ => ∀ i ∈ done, Relative (payloadPath i.path))
      (fun done i rep s _ hdone => (step rep i s).mono fun _ _ hi j hj => ?_) (by simp)
    rcases List.mem_append.mp hj with hj | hj
    · exact hdone j hj
    · exact List.mem_singleton.mp hj ▸ hi
  exact keeps.run trivial (fun _ _ => trivial) h

/-- A path has room for the name of the directory that the files go to. -/
def Fits (p : Text) : Prop := p.length ≤ 1016 ∧ (p.splitOn '/').length ≤ 31

instance (p : Text) : Decidable (Fits p) := by unfold Fits; infer_instance

lemma relative_payload (h : Relative q) : Relative (payloadPath q) ↔ Fits q := by
  obtain ⟨⟨-, -, h1, h2⟩, -, h3⟩ := h
  have hlen : (payloadPath q).length = 8 + q.length := by
    have h1 : (payloadPath q).length = "payload/".toList.length + q.length := List.length_append
    have h2 : "payload/".toList.length = 8 := by decide
    rw [h2] at h1
    exact h1
  have hparts : ((payloadPath q).splitOn '/').length = 1 + (q.splitOn '/').length := by
    rw [splitOn_payload, List.length_cons, Nat.add_comm]
  have hno : ∀ c, c ∉ "payload/".toList → c ∉ q → c ∉ payloadPath q := fun c h h' hc =>
    (List.mem_append.mp hc).elim h h'
  constructor
  · rintro ⟨⟨-, h4, -⟩, h5, -⟩
    exact ⟨by omega, by omega⟩
  · rintro ⟨h4, h5⟩
    refine ⟨⟨?_, by omega, hno _ (by decide) h1, hno _ (by decide) h2⟩, by omega, ?_⟩
    · intro hn
      rw [hn] at hlen
      exact absurd hlen (by simp only [List.length_nil]; omega)
    · rw [splitOn_payload]
      exact List.forall_mem_cons.mpr ⟨by decide, h3⟩

end Objects

/-! ### Two cohorts -/

def canonical (v : Value) : Bytes := ascii (render v)

def someFile (data : Bytes) : Node := .file ⟨0o600, 0, 0, [], data⟩

/-- A file below `depth` directories. -/
def nested (data : Bytes) : ℕ → Node
  | 0 => someFile data
  | depth + 1 => .directory 0o700 0 0 [] [(['a'], nested data depth)]

/-- A directory in which the catalog is below `depth` directories. -/
def someTree (depth : ℕ) : Tree where
  path := ["s".toList]
  mode := 0o700
  uid := 0
  gid := 0
  xattrs := []
  children := [(['a'], nested someCatalog depth), ("checkpoint.bin".toList, someFile []),
    ("journal.bin".toList, someFile someJournal)]

def catalogPath (depth : ℕ) : Text := ['/'].intercalate (List.replicate (depth + 1) ['a'])

def someWanted (path : Text) (kind : String) : Value := .dict
  [("kind".toList, someText kind), ("mode".toList, .int 0o600), ("path".toList, .text path)]

def someSpec (depth : ℕ) : Value := .dict
  [("catalog_path".toList, .text (catalogPath depth)),
    ("checkpoint_path".toList, someText "checkpoint.bin"),
    ("cohort".toList, .text (List.replicate 64 'c')), ("generation".toList, .int 9),
    ("node".toList, someText "node1"),
    ("objects".toList, .list [someWanted (catalogPath depth) "catalog",
      someWanted "checkpoint.bin".toList "checkpoint", someWanted "journal.bin".toList "journal"]),
    ("pending".toList, .list [someText "req1"]), ("trust_epoch".toList, .int 4)]

def someExport (depth : ℕ) : Except Error (Value × Files) :=
  exportCohort canonical (someTree depth) (someSpec depth) ["d".toList] []

/-- An anchor of a manifest and of the pending requests with these digests. -/
def anchorValue (manifestSha256 pendingSha256 : Text) : Value := .dict
  [("expires".toList, .int 500), ("format".toList, someText "nia-recovery-anchor-v1"),
    ("generation".toList, .int 9), ("issued".toList, .int 100),
    ("manifest_sha256".toList, .text manifestSha256), ("node".toList, someText "node1"),
    ("nonce".toList, someText "recovery1"), ("pending_sha256".toList, .text pendingSha256),
    ("trust_epoch".toList, .int 4)]

def anchorOf (v : Value) : Value :=
  anchorValue (sha (canonical v)) (sha (canonical (.list [someText "req1"])))

/-- The signatures of the two keys. -/
def signed (signatures : ℕ × ℕ) : List Value :=
  [.dict [("key".toList, someText "k0"), ("signature".toList, .text (hex (be 64 signatures.1)))],
    .dict [("key".toList, someText "k1"), ("signature".toList, .text (hex (be 64 signatures.2)))]]

def envelopeOf (anchor : Value) (signatures : ℕ × ℕ) : Value := .dict
  [("anchor".toList, anchor), ("signatures".toList, .list (signed signatures))]

/-- The libraries, as they answer to what is read of the cohort with the manifest `v`. -/
def libraryOf (v : Value) (signatures : ℕ × ℕ) : Library where
  loads b :=
    if b = canonical v then .ok v
    else if b = canonical (envelopeOf (anchorOf v) signatures) then
      .ok (envelopeOf (anchorOf v) signatures)
    else .error (.invalid "JSON")
  dumps := canonical
  verify key signature message :=
    decide (message = DOMAIN ++ canonical (anchorOf v))
      && [(recoveryKey, signatures.1), (witnessKey, signatures.2)].any fun x =>
        decide (key = be 32 x.1 ∧ signature = be 64 x.2)

/-- The signatures of the two keys over the anchors of two such cohorts. -/
def flatSignatures : ℕ × ℕ :=
  (0xa7b63b296b930381b2a384d4f63391b42daf18119c0d0a99b666ba5db1261a59adb90b4e0a225cb0954cf3e6acbac1ffd005a771cd606e4f8813c1e93d814a05,
    0x017462c771161551b44049341c5f229f358c8350e618a47dff0405192d49bc2fcb7cf6e30a4c04dbc662afa1b9ddeb17aea220436f7568d559c648ee8ed37b06)

def deepSignatures : ℕ × ℕ :=
  (0x8eba04fc890254439512528283a0df560ea4f3bba3106297ae1a94919153cb63fd2e4b8b29a62a1be822864ece53d9343093f83752f11818cd557b0013f02c05,
    0x9b42bcd977474f5c19972ab9bf7811c51764ce078610a99420a14d4d73b40a2457011550fd6d9a2db55878acce6408c8dcb108393e4051014e49f01f776f590d)

/-- What `authenticate` says of such a cohort. -/
def someAuthentication (v : Value) (signatures : ℕ × ℕ) : Except Error (Manifest × Anchor) :=
  authenticate (libraryOf v signatures) (canonical v)
    (canonical (envelopeOf (anchorOf v) signatures)) someTrust (sha (canonical (anchorOf v))) 200

/-- A candidate is made of what has been exported. -/
def someRoundTrip (v : Value) (signatures : ℕ × ℕ) : Tool Report :=
  reconstruct (libraryOf v signatures) (canonical v)
    (canonical (envelopeOf (anchorOf v) signatures)) someTrust (sha (canonical (anchorOf v))) 200
    [["d".toList]] (some ["c".toList])

/-! ### Their anchors are accepted -/

/-- What the policy of the two keys says. -/
def someTrusted : Trust where
  node := "node1".toList
  trustEpoch := 4
  minGeneration := 9
  threshold := 2
  maxAnchorLifetime := 1000
  keys := [⟨"k0".toList, "d0".toList, .recovery, hex (be 32 recoveryKey), false⟩,
    ⟨"k1".toList, "d1".toList, .witness, hex (be 32 witnessKey), false⟩]

/-- What the anchor of the manifest `v` says. -/
def committedOf (v : Value) : Anchor where
  node := "node1".toList
  generation := 9
  trustEpoch := 4
  manifestSha256 := sha (canonical v)
  pendingSha256 := sha (canonical (.list [someText "req1"]))
  issued := 100
  expires := 500
  nonce := "recovery1".toList

lemma isHex_hexDigit {n : ℕ} (h : n < 16) : isHex (hexDigit n) = true := by
  revert n
  decide

lemma length_hex (b : Bytes) : (hex b).length = 2 * b.length := by
  induction b with
  | nil => rfl
  | cons x b ih =>
    simp only [hex, List.flatMap_cons, List.length_append, List.length_cons, List.length_nil] at *
    omega

lemma isHex_hex (b : Bytes) : (hex b).all isHex = true := by
  induction b with
  | nil => rfl
  | cons x b ih =>
    have hx := x.isLt
    simp only [hex, List.flatMap_cons, List.all_append, List.all_cons, List.all_nil] at *
    rw [ih, isHex_hexDigit (by omega), isHex_hexDigit (by omega)]
    rfl

lemma digest_sha (b : Bytes) : digest (.text (sha b)) = .ok (sha b) := by
  have hl : (sha b).length = 64 := by rw [sha, length_hex, Block.length_bytes]
  have h : fullmatch isHex 64 64 (sha b) := ⟨hl.ge, hl.le, isHex_hex _⟩
  simp only [digest, require, if_pos h]
  rfl

lemma validateAnchor_anchorOf (v : Value) : validateAnchor (anchorOf v) = .ok (committedOf v) := by
  change (do
    let manifestSha256 ← digest (.text (sha (canonical v)))
    let pendingSha256 ← digest (.text (sha (canonical (.list [someText "req1"]))))
    return Anchor.mk "node1".toList 9 4 manifestSha256 pendingSha256 100 500 "recovery1".toList) = _
  rw [digest_sha, digest_sha]
  rfl

/-- The anchor and the signatures are not longer than what is read at once. -/
lemma length_envelope (v : Value) (signatures : ℕ × ℕ) :
    (canonical (envelopeOf (anchorOf v) signatures)).length ≤ LIMIT := by
  have hx : ∀ b, (sha b).length = 64 := fun b => by rw [sha, length_hex, Block.length_bytes]
  have hs : ∀ n, (hex (be 64 n)).length = 128 := fun n => by rw [length_hex, length_be]
  have h : (canonical (envelopeOf (anchorOf v) signatures)).length
      = (canonical (envelopeOf (anchorValue (hex (be 32 0)) (hex (be 32 0))) (0, 0))).length := by
    simp only [canonical, ascii, envelopeOf, anchorOf, anchorValue, signed, render, renderDict,
      renderEntry, renderList, List.length_map, List.length_append, List.length_cons, hx, hs,
      length_hex, length_be]
  rw [h]
  decide +kernel

/-- What is verified depends on the keys and the signatures only. -/
lemma signatures_congr {L L' : Library} {t : Trust} {raw raw' : Bytes} (l : List Value)
    (h : ∀ k s, L.verify k s (DOMAIN ++ raw) = L'.verify k s (DOMAIN ++ raw')) :
    signatures L t raw l = signatures L' t raw' l := by
  have hs : signatureStep L t raw = signatureStep L' t raw' := by
    funext s v
    unfold signatureStep
    simp only [h]
  unfold signatures
  rw [hs]

/-- A library that verifies two signatures, over anything. -/
def verifier (signatures : ℕ × ℕ) : Library where
  loads _ := .error .value
  dumps _ := []
  verify key signature _ := [(recoveryKey, signatures.1), (witnessKey, signatures.2)].any fun x =>
    decide (key = be 32 x.1 ∧ signature = be 64 x.2)

variable {v : Value} {m : Manifest}

lemma loads_libraryOf (v : Value) (signatures : ℕ × ℕ) :
    (libraryOf v signatures).loads ((libraryOf v signatures).dumps v) = .ok v := if_pos rfl

/-- The anchor of such a cohort is accepted. -/
lemma authenticate_someExport {depth n : ℕ} {files : Files} {s : ℕ × ℕ}
    (hx : someExport depth = .ok (v, files)) (hm : validateManifest v = .ok (m, n))
    (hc : m.node = "node1".toList ∧ m.generation = 9 ∧ m.trustEpoch = 4
      ∧ m.pending = ["req1".toList])
    (hs : signatures (verifier s) someTrusted [] (signed s) = .ok ()) :
    someAuthentication v s = .ok (m, committedOf v) := by
  obtain ⟨h1, h2, h3, h4⟩ := hc
  have manifest : decode (libraryOf v s) (canonical v) = .ok v :=
    bind_ok.mpr ⟨(), require_ok.mpr (exportCohort_size hx), loads_libraryOf v s⟩
  have other : canonical (envelopeOf (anchorOf v) s) ≠ canonical v := by
    obtain ⟨d, root, dirs, ws, l, rfl, -, -⟩ := exportCohort_ok hx
    intro h
    have h3 := congrArg (List.take 3) h
    exact absurd (show ascii "\x7b\"a".toList = ascii "\x7b\"c".toList from h3) (by decide +kernel)
  have envelope : decode (libraryOf v s) (canonical (envelopeOf (anchorOf v) s))
      = .ok (envelopeOf (anchorOf v) s) :=
    bind_ok.mpr ⟨(), require_ok.mpr (length_envelope v s), by
      rw [libraryOf]
      dsimp only
      rw [if_neg other, if_pos rfl]⟩
  have accepted : signatures (libraryOf v s) someTrusted (canonical (anchorOf v)) (signed s)
      = .ok () := by
    rw [← hs]
    refine signatures_congr _ fun k x => ?_
    simp only [libraryOf, verifier, decide_true, Bool.true_and]
  simp only [someAuthentication, authenticate, bind_ok, require_ok]
  refine ⟨someTrusted, by decide +kernel, _, digest_sha _, 200, rfl, v, manifest, (m, n), hm,
    (), rfl, _, envelope, _, rfl, _, validateAnchor_anchorOf v, (), rfl, (), ?_, (), ?_, (), ?_,
    _, rfl, (), accepted, rfl⟩
  · exact ⟨rfl, h1.symm, h2.symm, Nat.le_refl 9, rfl, h3.symm⟩
  · exact ⟨show (100 : ℕ) ≤ 200 by decide, show (200 : ℕ) < 500 by decide,
      show (500 - 100 : ℕ) ≤ 1000 by decide⟩
  · rw [h4]
    exact ⟨rfl, rfl⟩

lemma vacant_nil (out : Place) : Vacant out (Entries.disk []) := fun _ _ _ => rfl

/-! ### The result -/

/-- **What has been exported can be put together again** if and only if every path leaves room for
the name of the directory that the files go to. -/
theorem export_reconstructs {L : Library} {t : Tree} {files : Files} {dir out : Place} {free : ℕ}
    {l : Entries} {m : Manifest} {a : Anchor} {eraw : Bytes} {trust : Value} {expected : Text}
    {now : ℤ} {spec v : Value} {listing : List Text}
    (hx : exportCohort L.dumps t spec dir listing = .ok (v, files))
    (hj : L.loads (L.dumps v) = .ok v)
    (ha : authenticate L (L.dumps v) eraw trust expected now = .ok (m, a))
    (ho : ¬ Overlap out dir) (hv : Vacant out l.disk) (hf : m.total + 4 * LIMIT ≤ free) :
    (∃ rep l', Ends [files.replica dir] free out
        (reconstruct L (L.dumps v) eraw trust expected now [dir] (some out)) l rep l'
      ∧ rep.complete = true
      ∧ ∀ i ∈ m.objects, ∃ f, t.file i.path = some f
        ∧ Durable out (payloadPath i.path) f.data l'.disk)
    ↔ ∀ w, Wants spec w → Fits w.path := by
  obtain ⟨hs, hd, hp⟩ := exported hx hj ha
  constructor
  · rintro ⟨rep, l', h, -⟩ w hw
    obtain ⟨i, hi, he⟩ := (hp w.path).mpr ⟨w, hw, rfl⟩
    exact he ▸ (relative_payload (hs.relative i hi)).mp (relative_of_ends ha h i hi)
  · intro h
    refine ends_reconstruct ha hs hd ho hv hf fun i hi => ?_
    obtain ⟨w, hw, he⟩ := (hp i.path).mp ⟨i, hi, rfl⟩
    exact (relative_payload (hs.relative i hi)).mpr (he ▸ h w hw)

lemma ok_of_toOption {α : Type} {x : Except Error α} {a : α} (h : x.toOption = some a) :
    x = .ok a := by
  cases x with
  | error e => cases h
  | ok b => exact congrArg _ (Option.some.inj h)

/-- The cohort is exported, and what its manifest says is as its anchor says. -/
def Exportable (depth : ℕ) : Prop :=
  ((someExport depth).toOption.any fun x => (validateManifest x.1).toOption.any fun y =>
    decide (y.1.node = "node1".toList ∧ y.1.generation = 9 ∧ y.1.trustEpoch = 4
      ∧ y.1.pending = ["req1".toList] ∧ y.1.total + 4 * LIMIT ≤ 2 ^ 30)) = true

instance (depth : ℕ) : Decidable (Exportable depth) := by unfold Exportable; infer_instance

lemma Exportable.authenticated {depth : ℕ} {s : ℕ × ℕ} (h : Exportable depth)
    (hs : signatures (verifier s) someTrusted [] (signed s) = .ok ()) :
    ∃ v files m, someExport depth = .ok (v, files)
      ∧ someAuthentication v s = .ok (m, committedOf v) ∧ m.total + 4 * LIMIT ≤ 2 ^ 30 := by
  simp only [Exportable, Option.any_eq_true, decide_eq_true_eq] at h
  obtain ⟨⟨v, files⟩, hx, ⟨m, n⟩, hm, h1, h2, h3, h4, hf⟩ := h
  replace hx := ok_of_toOption hx
  exact ⟨v, files, m, hx,
    authenticate_someExport hx (ok_of_toOption hm) ⟨h1, h2, h3, h4⟩ hs, hf⟩

theorem export_reconstructs_flat : ∃ v files m, someExport 0 = .ok (v, files)
    ∧ someAuthentication v flatSignatures = .ok (m, committedOf v)
    ∧ ∃ rep l', Ends [files.replica ["d".toList]] (2 ^ 30) ["c".toList]
        (someRoundTrip v flatSignatures) [] rep l'
      ∧ rep.complete = true
      ∧ ∀ i ∈ m.objects, ∃ f, (someTree 0).file i.path = some f
        ∧ Durable ["c".toList] (payloadPath i.path) f.data l'.disk := by
  obtain ⟨v, files, m, hx, ha, hf⟩ := Exportable.authenticated (s := flatSignatures)
    (show Exportable 0 by decide +kernel) (by decide +kernel)
  refine ⟨v, files, m, hx, ha, (export_reconstructs (L := libraryOf v flatSignatures) hx
    (loads_libraryOf _ _) ha (by decide) (vacant_nil _) hf).mpr ?_⟩
  rintro w ⟨d, l, hd, hl, x, hx, hw⟩
  cases hd
  cases hl
  have key : ∀ x ∈ [someWanted (catalogPath 0) "catalog",
      someWanted "checkpoint.bin".toList "checkpoint", someWanted "journal.bin".toList "journal"],
      (wanted x).toOption.all (fun w => decide (Fits w.path)) = true := by
    decide +kernel
  have h := key x hx
  rw [hw] at h
  exact of_decide_eq_true h

/-- **A path of 32 names**: it is exported, and its manifest is accepted, but nothing comes of it
where it is put together. -/
theorem deep_path_fails : ∃ v files m, someExport 31 = .ok (v, files)
    ∧ someAuthentication v deepSignatures = .ok (m, committedOf v)
    ∧ m.total + 4 * LIMIT ≤ 2 ^ 30 ∧ Vacant ["c".toList] (Entries.disk [])
    ∧ ¬ ∃ rep l', Ends [files.replica ["d".toList]] (2 ^ 30) ["c".toList]
        (someRoundTrip v deepSignatures) [] rep l' := by
  obtain ⟨v, files, m, hx, ha, hf⟩ := Exportable.authenticated (s := deepSignatures)
    (show Exportable 31 by decide +kernel) (by decide +kernel)
  refine ⟨v, files, m, hx, ha, hf, vacant_nil _, ?_⟩
  rintro ⟨rep, l', h⟩
  obtain ⟨hs, -, hp⟩ := exported (L := libraryOf v deepSignatures) hx (loads_libraryOf _ _) ha
  obtain ⟨i, hi, he⟩ := (hp (catalogPath 31)).mpr ⟨⟨catalogPath 31, "catalog".toList, 0o600⟩,
    ⟨_, _, rfl, rfl, _, List.mem_cons_self, by decide +kernel⟩, rfl⟩
  have := (relative_payload (hs.relative i hi)).mp (relative_of_ends ha h i hi)
  rw [he] at this
  exact absurd this (by decide +kernel)

end NiayanAssurance.Recovery
