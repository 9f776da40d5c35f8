import NiayanAssurance.Inventory

/-!
`inspect_original`: a directory that nobody changes is compared with an authenticated manifest.

As nothing changes, what the source compares with what it was before is left out, as for the
export. The system may fail, and may give less than what a read asks for.
-/

namespace NiayanAssurance.Recovery

open NiayanAssurance.Lib NiayanAssurance.Types NiayanAssurance.RecoveryIo

/-! ### What the inspection does -/

/-- An extended attribute as a manifest has it. -/
def xattr (x : Text × Bytes) : Xattr := ⟨x.1, hex x.2⟩

/-- `read_xattrs`, as a manifest has them. -/
def listXattrs (l : List (Text × Bytes)) : Except Error (List Xattr) := do
  require (l.length ≤ 256) "xattr count"
  require ((l.map fun x => x.2.length).sum ≤ 131072) "xattr bytes"
  validateXattrs (.list (l.map xattrValue))

def listAttributes (mode uid gid : ℕ) (xattrs : List (Text × Bytes)) : Except Error Attributes := do
  let attrs ← listXattrs xattrs
  return ⟨mode, uid, gid, attrs⟩

/-- `directory_attributes` of the directory itself, as a manifest has them. -/
def Tree.attributes (t : Tree) : Except Error Attributes :=
  listAttributes t.mode t.uid t.gid t.xattrs

/-- `directory_attributes`, as a manifest has them. -/
def Tree.attributesOf (t : Tree) (path : Text) : Except Error Attributes := do
  let path ← relative path
  let node ← openNode t.children (path.splitOn '/')
  match node with
  | .directory mode uid gid xattrs _ => listAttributes mode uid gid xattrs
  | .mount => .error (.invalid "directory mount changed")
  | _ => .error (.os "NotADirectoryError")

/-- What the system does in each part of the inspection. A failure is the name of an `OSError`. -/
structure InspectHost where
  /-- How much a read of the file gives, at most. -/
  reads : Text → ℕ → ℕ := fun _ _ => CHUNK
  inventoryBefore : Option String := none
  object : Text → Option String := fun _ => none
  inventoryAfter : Option String := none
  attributes : Option String := none

/-- `OSError` and `Invalid`. -/
def caught : Error → Bool
  | .invalid _ | .incomplete _ | .os _ => true
  | .value => false

/-- `try` what comes to `x` unless the system fails, `except (OSError, Invalid)`. -/
def tried {α : Type} (failure : Option String) (x : Except Error α) : Except Error (Option α) :=
  match failure with
  | some _ => .ok none
  | none =>
    match x with
    | .ok a => .ok (some a)
    | .error e => if caught e then .ok none else .error e

inductive Inspected | matched | mismatch | missingUnreadableOrUnsafe
  deriving DecidableEq

/-- `consistent`, of a file that is read. -/
def consistent (t : Tree) (h : InspectHost) (i : Item) : Except Error Bool := do
  let f ← openFile t i.path i.size
  let content ← readLoop { fileHost f.data with reads := fun n => .ok (h.reads i.path n) }
    i.size (i.size + 2) 0 []
  if content.length = i.size ∧ sha content = i.sha256 ∧ f.mode = i.mode ∧ f.uid = i.uid
      ∧ f.gid = i.gid then
    let attrs ← listXattrs f.xattrs
    return decide (attrs = i.xattrs)
  else
    return false

/-- One turn of the loop over the objects. -/
def inspectObject (t : Tree) (h : InspectHost) (i : Item) : Except Error (Text × Inspected) := do
  let x ← tried (h.object i.path) (consistent t h i)
  return (i.path,
    match x with
    | some true => .matched
    | some false => .mismatch
    | none => .missingUnreadableOrUnsafe)

/-- `attrs_exact`, of directories that are read. -/
def attributesExact (t : Tree) (m : Manifest) : Except Error Bool := do
  let root ← t.attributes
  if root = m.rootAttributes then
    m.directories.allM fun d => do
      let attrs ← t.attributesOf d.path
      return decide (attrs = d.attributes)
  else
    return false

structure Inspection where
  objects : List (Text × Inspected)
  complete : Bool
  inventoryExact : Bool
  executionPermit : Bool := false
  inventoryScopeOnly : Bool := true

/-- The files and the directories that a manifest has. -/
def Manifest.inventory (m : Manifest) : List Text × List Text :=
  (m.objects.map Item.path, m.directories.map DirectoryEntry.path)

/-- `inspect_original`. -/
def inspectOriginal (L : Library) (mraw eraw : Bytes) (trust : Value) (expected : Text) (now : ℤ)
    (t : Tree) (h : InspectHost) : Except Error Inspection := do
  let (m, _) ← authenticate L mraw eraw trust expected now
  let before ← tried h.inventoryBefore (closedInventory t)
  let objects ← m.objects.mapM (inspectObject t h)
  let after ← tried h.inventoryAfter (closedInventory t)
  let attrsExact ← tried h.attributes (attributesExact t m)
  let exact := decide (before = after ∧ after = some m.inventory) && attrsExact.getD false
  return {
    objects
    complete := exact && objects.all fun x => x.2 = .matched
    inventoryExact := exact
  }

/-! ### Extended attributes -/

/-- What `validate_xattrs` asks of attributes. -/
structure Legible (l : List Xattr) : Prop where
  count : l.length ≤ 256
  names : ∀ x ∈ l, fullmatch (fun c => isAlnum c || "_.-".toList.contains c) 1 255 x.name
  values : ∀ x ∈ l, x.value.length % 2 = 0 ∧ x.value.all isHex = true
  bytes : (l.map fun x => x.value.length / 2).sum ≤ 131072
  canonical : Canonical (l.map Xattr.name)

/-- The entry `v` is the attribute `x`. -/
def XattrEntry (v : Value) (x : Xattr) : Prop :=
  ∃ d, fields v ["name", "value"] = .ok d ∧ d.get "name" = .text x.name
    ∧ d.get "value" = .text x.value

lemma xattrStep_ok {s s' : List Xattr × ℕ} {v : Value} : xattrStep s v = .ok s' ↔
    ∃ x, XattrEntry v x ∧ fullmatch (fun c => isAlnum c || "_.-".toList.contains c) 1 255 x.name
      ∧ (x.value.length % 2 = 0 ∧ x.value.all isHex = true)
      ∧ s.2 + x.value.length / 2 ≤ 131072 ∧ s' = (s.1 ++ [x], s.2 + x.value.length / 2) := by
  simp only [xattrStep, bind_ok, require_ok, pure_ok, text_ok, XattrEntry]
  constructor
  · rintro ⟨d, hd, name, hn, _, h1, value, hv, _, h2, _, h3, rfl⟩
    exact ⟨⟨name, value⟩, ⟨d, hd, hn, hv⟩, h1, h2, h3, rfl⟩
  · rintro ⟨⟨name, value⟩, ⟨d, hd, hn, hv⟩, h1, h2, h3, rfl⟩
    exact ⟨d, hd, name, hn, (), h1, value, hv, (), h2, (), h3, rfl⟩

/-- The loop of `validate_xattrs`. -/
lemma xattrs_fold {l : List Value} {s s' : List Xattr × ℕ} (hs : s.2 ≤ 131072) :
    l.foldlM xattrStep s = .ok s' ↔ ∃ xs : List Xattr, List.Forall₂ XattrEntry l xs
      ∧ (∀ x ∈ xs, fullmatch (fun c => isAlnum c || "_.-".toList.contains c) 1 255 x.name)
      ∧ (∀ x ∈ xs, x.value.length % 2 = 0 ∧ x.value.all isHex = true)
      ∧ s.2 + (xs.map fun x => x.value.length / 2).sum ≤ 131072
      ∧ s' = (s.1 ++ xs, s.2 + (xs.map fun x => x.value.length / 2).sum) := by
  induction l generalizing s with
  | nil =>
    simp only [List.foldlM_nil, pure_ok, List.forall₂_nil_left_iff]
    constructor
    · rintro rfl
      exact ⟨[], rfl, by simp, by simp, by simpa using hs, by simp⟩
    · rintro ⟨xs, rfl, -, -, -, rfl⟩
      simp
  | cons v l ih =>
    simp only [foldlM_cons_ok, List.forall₂_cons_left_iff]
    constructor
    · rintro ⟨r, hr, h⟩
      obtain ⟨x, h1, h2, h3, h4, rfl⟩ := xattrStep_ok.mp hr
      obtain ⟨xs, h5, h6, h7, h8, rfl⟩ := (ih h4).mp h
      refine ⟨x :: xs, ⟨x, xs, h1, h5, rfl⟩, List.forall_mem_cons.mpr ⟨h2, h6⟩,
        List.forall_mem_cons.mpr ⟨h3, h7⟩, ?_, ?_⟩
      · simpa [Nat.add_assoc] using h8
      · simp [Nat.add_assoc]
    · rintro ⟨_, ⟨x, xs, h1, h5, rfl⟩, h2, h3, h4, rfl⟩
      obtain ⟨h2, h6⟩ := List.forall_mem_cons.mp h2
      obtain ⟨h3, h7⟩ := List.forall_mem_cons.mp h3
      simp only [List.map_cons, List.sum_cons, ← Nat.add_assoc] at h4
      have hx : s.2 + x.value.length / 2 ≤ 131072 := by omega
      refine ⟨_, xattrStep_ok.mpr ⟨x, h1, h2, h3, hx, rfl⟩, (ih hx).mpr ⟨xs, h5, h6, h7, h4, ?_⟩⟩
      simp [Nat.add_assoc]

lemma validateXattrs_ok {v : Value} {xs : List Xattr} : validateXattrs v = .ok xs ↔
    ∃ l, v = .list l ∧ List.Forall₂ XattrEntry l xs ∧ Legible xs := by
  have fold (l : List Value) (r : List Xattr × ℕ) := @xattrs_fold l ([], 0) r (Nat.zero_le _)
  simp only [validateXattrs, bind_ok, require_ok, pure_ok, fold]
  constructor
  · rintro ⟨l, hl, _, hc, _, ⟨xs, h1, h2, h3, h4, rfl⟩, _, h5, rfl⟩
    refine ⟨l, items_ok hl, h1, h1.length_eq ▸ hc, h2, h3, by simpa using h4, h5⟩
  · rintro ⟨l, rfl, h1, h⟩
    exact ⟨l, rfl, (), h1.length_eq ▸ h.count, _, ⟨xs, h1, h.names, h.values,
      by simpa using h.bytes, rfl⟩, (), h.canonical, rfl⟩

lemma entry_xattrValue {x : Text × Bytes} {y : Xattr} :
    XattrEntry (xattrValue x) y ↔ y = xattr x := by
  have hd : fields (xattrValue x) ["name", "value"]
      = .ok [("name".toList, .text x.1), ("value".toList, .text (hex x.2))] := rfl
  simp only [XattrEntry, hd, Except.ok.injEq, exists_eq_left']
  have h1 : Dict.get [("name".toList, .text x.1), ("value".toList, .text (hex x.2))] "name"
      = .text x.1 := rfl
  have h2 : Dict.get [("name".toList, .text x.1), ("value".toList, .text (hex x.2))] "value"
      = .text (hex x.2) := rfl
  rw [h1, h2, Value.text.injEq, Value.text.injEq]
  constructor
  · rintro ⟨h3, h4⟩
    rw [xattr, h3, h4]
  · rintro rfl
    exact ⟨rfl, rfl⟩

lemma entries_xattrValue {l : List (Text × Bytes)} {xs : List Xattr} :
    List.Forall₂ XattrEntry (l.map xattrValue) xs ↔ xs = l.map xattr := by
  rw [List.forall₂_map_left_iff]
  simp only [entry_xattrValue]
  rw [← List.forall₂_map_left_iff (f := xattr) (R := fun a b => b = a), ← List.forall₂_eq_eq_eq]
  constructor
  · exact fun h => h.flip
  · exact fun h => h.flip

/-- **The attributes of a file** are read if they can be written into a manifest. -/
lemma listXattrs_ok {l : List (Text × Bytes)} {xs : List Xattr} :
    listXattrs l = .ok xs ↔ xs = l.map xattr ∧ Legible xs := by
  have bytes : ((l.map xattr).map fun x => x.value.length / 2).sum
      = (l.map fun x => x.2.length).sum := by
    rw [List.map_map]
    congr 1
    refine List.map_congr_left fun x _ => ?_
    simp [xattr, length_hex]
  simp only [listXattrs, bind_ok, require_ok, validateXattrs_ok, Value.list.injEq, exists_eq_left',
    entries_xattrValue]
  constructor
  · rintro ⟨_, -, _, -, h⟩
    exact h
  · rintro ⟨rfl, h⟩
    exact ⟨(), by simpa using h.count, (), bytes ▸ h.bytes, rfl, h⟩

/-! ### What is raised is caught -/

section Caught

variable {α β : Type}

/-- Whatever `x` raises is caught. -/
def Caught (x : Except Error α) : Prop := ∀ e, x = .error e → caught e = true

lemma caught_ok (a : α) : Caught (.ok a) := nofun

lemma caught_pure (a : α) : Caught (pure a) := nofun

lemma caught_invalid (why : String) : Caught (.error (.invalid why) : Except Error α) := by
  rintro _ ⟨⟩
  rfl

lemma caught_os (name : String) : Caught (.error (.os name) : Except Error α) := by
  rintro _ ⟨⟩
  rfl

lemma Caught.bind {x : Except Error α} {f : α → Except Error β} (h : Caught x)
    (h' : ∀ a, Caught (f a)) : Caught (x >>= f) := by
  cases x with
  | error e =>
    rintro _ ⟨⟩
    exact h e rfl
  | ok a => exact h' a

lemma caught_require (p : Prop) [Decidable p] (why : String) : Caught (require p why) := by
  unfold require
  split
  · exact caught_ok _
  · exact caught_invalid _

lemma caught_foldlM {f : β → α → Except Error β} (h : ∀ b a, Caught (f b a)) (l : List α) (b : β) :
    Caught (l.foldlM f b) := by
  induction l generalizing b with
  | nil => exact caught_pure _
  | cons a l ih =>
    rw [List.foldlM_cons]
    exact (h b a).bind ih

lemma caught_allM {p : α → Except Error Bool} (h : ∀ a, Caught (p a)) (l : List α) :
    Caught (l.allM p) := by
  induction l with
  | nil => exact caught_pure _
  | cons a l ih =>
    rw [List.allM]
    refine (h a).bind fun b => ?_
    cases b
    · exact caught_pure _
    · exact ih

lemma caught_relative (s : Text) : Caught (relative s) :=
  (caught_require _ _).bind fun _ => (caught_require _ _).bind fun _ => caught_pure _

lemma caught_text (v : Value) (why : String) : Caught (text v why) := by
  cases v <;> first | exact caught_ok _ | exact caught_invalid _

lemma caught_items (v : Value) (why : String) : Caught (items v why) := by
  cases v <;> first | exact caught_ok _ | exact caught_invalid _

lemma caught_fields (v : Value) (names : List String) : Caught (fields v names) := by
  cases v <;>
    first | exact caught_invalid _ | exact (caught_require _ _).bind fun _ => caught_pure _

lemma caught_xattrStep (s : List Xattr × ℕ) (v : Value) : Caught (xattrStep s v) := by
  unfold xattrStep
  refine (caught_fields _ _).bind fun d => (caught_text _ _).bind fun name => ?_
  refine (caught_require _ _).bind fun _ => (caught_text _ _).bind fun value => ?_
  exact (caught_require _ _).bind fun _ => (caught_require _ _).bind fun _ => caught_pure _

lemma caught_listXattrs (l : List (Text × Bytes)) : Caught (listXattrs l) := by
  unfold listXattrs validateXattrs
  refine (caught_require _ _).bind fun _ => (caught_require _ _).bind fun _ => ?_
  refine (caught_items _ _).bind fun _ => (caught_require _ _).bind fun _ => ?_
  exact (caught_foldlM caught_xattrStep _ _).bind fun _ =>
    (caught_require _ _).bind fun _ => caught_pure _

lemma caught_openNode (names : List Text) (l : List (Text × Node)) : Caught (openNode l names) := by
  induction names generalizing l with
  | nil =>
    rw [openNode]
    exact caught_os _
  | cons name names ih =>
    rw [openNode]
    split
    · exact caught_os _
    · split_ifs
      · exact caught_ok _
      · split
        · exact ih _
        · exact caught_invalid _
        · exact caught_os _

lemma caught_openFile (t : Tree) (path : Text) (limit : ℕ) : Caught (openFile t path limit) := by
  unfold openFile
  refine (caught_relative _).bind fun p => (caught_openNode _ _).bind fun node => ?_
  cases node with
  | file f => exact (caught_require _ _).bind fun _ => caught_pure _
  | directory | mount | special => exact caught_invalid _

mutual

lemma caught_walk (before : Text) (depth : ℕ) :
    ∀ (l : List (Text × Node)) (s : Inventory), Caught (walk before depth l s)
  | [], s => by
    rw [walk]
    exact caught_ok _
  | x :: l, s => by
    rw [walk]
    exact (caught_walkEntry before depth x s).bind fun s => caught_walk before depth l s

lemma caught_walkEntry (before : Text) (depth : ℕ) :
    ∀ (x : Text × Node) (s : Inventory), Caught (walkEntry before depth x s)
  | (name, node), s => by
    rw [walkEntry]
    exact (caught_require _ _).bind fun _ => (caught_relative _).bind fun path =>
      caught_walkNode path depth node _

lemma caught_walkNode (path : Text) (depth : ℕ) :
    ∀ (node : Node) (s : Inventory), Caught (walkNode path depth node s)
  | .file _, s | .special, s => by
    rw [walkNode]
    exact caught_ok _
  | .mount, s => by
    rw [walkNode]
    exact caught_invalid _
  | .directory _ _ _ _ children, s => by
    rw [walkNode]
    exact (caught_require _ _).bind fun _ => caught_walk _ _ children _

end

lemma caught_closedInventory (t : Tree) : Caught (closedInventory t) := by
  unfold closedInventory
  exact (caught_walk _ _ _ _).bind fun _ => caught_pure _

lemma caught_listAttributes (mode uid gid : ℕ) (xattrs : List (Text × Bytes)) :
    Caught (listAttributes mode uid gid xattrs) :=
  (caught_listXattrs xattrs).bind fun _ => caught_pure _

lemma caught_attributesOf (t : Tree) (path : Text) : Caught (t.attributesOf path) := by
  unfold Tree.attributesOf
  refine (caught_relative _).bind fun p => (caught_openNode _ _).bind fun node => ?_
  cases node with
  | directory => exact caught_listAttributes _ _ _ _
  | mount => exact caught_invalid _
  | file | special => exact caught_os _

lemma caught_attributesExact (t : Tree) (m : Manifest) : Caught (attributesExact t m) := by
  unfold attributesExact
  refine (caught_listAttributes _ _ _ _).bind fun root => ?_
  split_ifs
  · exact caught_allM (fun d : DirectoryEntry =>
      (caught_attributesOf t d.path).bind fun _ => caught_pure _) _
  · exact caught_pure _

lemma openFile_length {t : Tree} {path : Text} {limit : ℕ} {f : SourceFile}
    (h : openFile t path limit = .ok f) : f.data.length ≤ limit := by
  simp only [openFile, bind_ok] at h
  obtain ⟨_, -, node, -, h⟩ := h
  cases node with
  | file g =>
    obtain ⟨_, hl, h⟩ := bind_ok.mp h
    cases h
    exact require_ok.mp hl
  | directory | mount | special => cases h

lemma caught_consistent (t : Tree) (h : InspectHost) (i : Item) : Caught (consistent t h i) := by
  intro e he
  cases hf : openFile t i.path i.size with
  | error e' =>
    rw [consistent, hf] at he
    cases he
    exact caught_openFile _ _ _ _ hf
  | ok f =>
    have hc : readLoop { fileHost f.data with reads := fun n => .ok (h.reads i.path n) } i.size
        (i.size + 2) 0 [] = .ok f.data :=
      readLoop_content (h := { fileHost f.data with reads := fun n => .ok (h.reads i.path n) })
        (fun n => ⟨_, rfl⟩) (openFile_length hf) List.nil_prefix (by simp)
    rw [consistent, hf] at he
    change (readLoop { fileHost f.data with reads := fun n => .ok (h.reads i.path n) } i.size
        (i.size + 2) 0 [] >>= _) = _ at he
    rw [hc] at he
    change (if _ then _ else _) = _ at he
    split_ifs at he
    · exact (caught_listXattrs f.xattrs).bind (fun _ => caught_pure _) e he
    · cases he

/-- What comes of a part of the inspection. -/
lemma tried_ok {failure : Option String} {x : Except Error α} (h : Caught x) :
    tried failure x = .ok (if failure = none then x.toOption else none) := by
  cases failure with
  | some name => rfl
  | none =>
    cases x with
    | ok a => rfl
    | error e =>
      simp only [tried, h e rfl]
      rfl

end Caught

/-! ### What a manifest lists -/

/-- What is known of the lists of a manifest that has been validated. -/
structure Listing (m : Manifest) : Prop where
  paths : Canonical m.inventory.1
  directories : Canonical m.inventory.2
  few : m.inventory.1.length ≤ MAX_OBJECTS ∧ m.inventory.2.length ≤ MAX_OBJECTS
  relative : ∀ p ∈ m.inventory.1 ++ m.inventory.2, Relative p
  objectXattrs : ∀ i ∈ m.objects, Legible i.xattrs
  directoryXattrs : ∀ d ∈ m.directories, Legible d.attributes.xattrs
  rootXattrs : Legible m.rootAttributes.xattrs

lemma validateXattrs_legible {v : Value} {xs : List Xattr} (h : validateXattrs v = .ok xs) :
    Legible xs :=
  let ⟨_, _, _, h⟩ := validateXattrs_ok.mp h
  h

lemma validateDirectoryAttributes_legible {v : Value} {a : Attributes}
    (h : validateDirectoryAttributes v = .ok a) : Legible a.xattrs := by
  simp only [validateDirectoryAttributes, bind_ok, pure_ok] at h
  obtain ⟨_, -, _, -, _, -, _, -, xattrs, hx, rfl⟩ := h
  exact validateXattrs_legible hx

lemma validateDirectory_ok {v : Value} {d : DirectoryEntry} (h : validateDirectory v = .ok d) :
    Relative d.path ∧ Legible d.attributes.xattrs := by
  simp only [validateDirectory, bind_ok, pure_ok] at h
  obtain ⟨_, -, p, hp, attributes, ha, rfl⟩ := h
  exact ⟨(path_ok hp).2, validateDirectoryAttributes_legible ha⟩

lemma Reads.legible {v : Value} {i : Item} (h : Reads v i) :
    Relative i.path ∧ Legible i.xattrs := by
  obtain ⟨seen, h⟩ := h
  simp only [validateItem, bind_ok, pure_ok] at h
  obtain ⟨_, -, p, hp, _, -, _, -, _, -, _, -, _, -, _, -, xattrs, hx, _, -, _, -, _, -, _, -, _, -,
    rfl⟩ := h
  exact ⟨(path_ok hp).2, validateXattrs_legible hx⟩

lemma validateManifest_listing {v : Value} {m : Manifest} {n : ℕ}
    (h : validateManifest v = .ok (m, n)) : Listing m := by
  obtain ⟨d, objects, directories, -, hm⟩ := validateManifest_validated h
  have object : ∀ i ∈ m.objects, Relative i.path ∧ Legible i.xattrs := fun i hi =>
    let ⟨_, _, h⟩ := forall₂_right hm.entries hi
    h.legible
  have directory : ∀ d ∈ m.directories, Relative d.path ∧ Legible d.attributes.xattrs :=
    fun d hd =>
      let ⟨_, _, h⟩ := forall₂_right hm.validated hd
      validateDirectory_ok h
  refine ⟨hm.paths, hm.dirs, ⟨?_, ?_⟩, fun p hp => ?_, fun i hi => (object i hi).2,
    fun d hd => (directory d hd).2, validateDirectoryAttributes_legible hm.root⟩
  · rw [Manifest.inventory, List.length_map, ← hm.entries.length_eq]
    exact hm.count.2
  · rw [Manifest.inventory, List.length_map, ← hm.validated.length_eq]
    exact hm.few
  · rcases List.mem_append.mp hp with hp | hp
    · obtain ⟨i, hi, rfl⟩ := List.mem_map.mp hp
      exact (object i hi).1
    · obtain ⟨d, hd, rfl⟩ := List.mem_map.mp hp
      exact (directory d hd).1

/-! ### What is found -/

section Found

variable {t : Tree} {m : Manifest}

/-- The file is as the manifest says. -/
structure Item.Agrees (i : Item) (f : SourceFile) : Prop where
  size : f.data.length = i.size
  sha256 : sha f.data = i.sha256
  mode : f.mode = i.mode
  uid : f.uid = i.uid
  gid : f.gid = i.gid
  xattrs : f.xattrs.map xattr = i.xattrs

/-- There are exactly the files and the directories of the manifest in the directory, and all is as
the manifest says. -/
structure Exact (m : Manifest) (t : Tree) : Prop where
  nothingElse : ∀ x ∈ t.nodes, joined x.1 ∈ m.inventory.1 ++ m.inventory.2
  files : ∀ i ∈ m.objects, ∃ f, (i.path.splitOn '/', .file f) ∈ t.nodes ∧ i.Agrees f
  directories : ∀ d ∈ m.directories, ∃ mode uid gid xattrs children,
    (d.path.splitOn '/', .directory mode uid gid xattrs children) ∈ t.nodes
      ∧ d.attributes = ⟨mode, uid, gid, xattrs.map xattr⟩
  root : m.rootAttributes = ⟨t.mode, t.uid, t.gid, t.xattrs.map xattr⟩

lemma listAttributes_ok {mode uid gid : ℕ} {xattrs : List (Text × Bytes)} {a : Attributes} :
    listAttributes mode uid gid xattrs = .ok a ↔
      a = ⟨mode, uid, gid, xattrs.map xattr⟩ ∧ Legible a.xattrs := by
  simp only [listAttributes, bind_ok, pure_ok, listXattrs_ok]
  constructor
  · rintro ⟨_, ⟨rfl, h⟩, rfl⟩
    exact ⟨rfl, h⟩
  · rintro ⟨rfl, h⟩
    exact ⟨_, ⟨rfl, h⟩, rfl⟩

lemma openNode_iff (hw : t.WellFormed) {q : List Text} {node : Node} :
    openNode t.children q = .ok node ↔ (q, node) ∈ t.nodes := openNode_ok hw.nodup

lemma openFile_ok (hw : t.WellFormed) {path : Text} {limit : ℕ} {f : SourceFile} :
    openFile t path limit = .ok f ↔
      Relative path ∧ (path.splitOn '/', .file f) ∈ t.nodes ∧ f.data.length ≤ limit := by
  simp only [openFile, bind_ok, relative_ok, ← openNode_iff hw]
  constructor
  · rintro ⟨p, ⟨hr, rfl⟩, node, hn, h⟩
    cases node with
    | file g =>
      simp only [bind_ok, require_ok, pure_ok] at h
      obtain ⟨_, hl, rfl⟩ := h
      exact ⟨hr, hn, hl⟩
    | directory | mount | special => cases h
  · rintro ⟨hr, hn, hl⟩
    exact ⟨path, ⟨hr, rfl⟩, _, hn, bind_ok.mpr ⟨(), require_ok.mpr hl, rfl⟩⟩

lemma attributesOf_ok (hw : t.WellFormed) {path : Text} {a : Attributes} :
    t.attributesOf path = .ok a ↔ Relative path ∧ Legible a.xattrs
      ∧ ∃ mode uid gid xattrs children,
        (path.splitOn '/', .directory mode uid gid xattrs children) ∈ t.nodes
          ∧ a = ⟨mode, uid, gid, xattrs.map xattr⟩ := by
  simp only [Tree.attributesOf, bind_ok, relative_ok, ← openNode_iff hw]
  constructor
  · rintro ⟨p, ⟨hr, rfl⟩, node, hn, h⟩
    cases node with
    | directory mode uid gid xattrs children =>
      obtain ⟨h1, h2⟩ := listAttributes_ok.mp h
      exact ⟨hr, h2, mode, uid, gid, xattrs, children, hn, h1⟩
    | file | mount | special => cases h
  · rintro ⟨hr, h2, mode, uid, gid, xattrs, children, hn, h1⟩
    exact ⟨path, ⟨hr, rfl⟩, _, hn, listAttributes_ok.mpr ⟨h1, h2⟩⟩

/-- A file is found as the manifest has it. -/
lemma consistent_ok (hw : t.WellFormed) {h : InspectHost} {i : Item} (hr : Relative i.path)
    (hx : Legible i.xattrs) : consistent t h i = .ok true ↔
      ∃ f, (i.path.splitOn '/', .file f) ∈ t.nodes ∧ i.Agrees f := by
  have loop : ∀ f : SourceFile, f.data.length ≤ i.size →
      readLoop { fileHost f.data with reads := fun n => .ok (h.reads i.path n) } i.size
        (i.size + 2) 0 [] = .ok f.data := fun f hf =>
    readLoop_content (h := { fileHost f.data with reads := fun n => .ok (h.reads i.path n) })
      (fun n => ⟨_, rfl⟩) hf List.nil_prefix (by simp)
  simp only [consistent, bind_ok, openFile_ok hw]
  constructor
  · rintro ⟨f, ⟨-, hf, hl⟩, content, hc, h⟩
    rw [loop f hl] at hc
    cases hc
    split_ifs at h with hs
    · obtain ⟨h1, h2, h3, h4, h5⟩ := hs
      obtain ⟨attrs, ha, h⟩ := bind_ok.mp h
      have he : attrs = i.xattrs := of_decide_eq_true (pure_ok.mp h)
      exact ⟨f, hf, h1, h2, h3, h4, h5, he ▸ (listXattrs_ok.mp ha).1.symm⟩
    · cases h
  · rintro ⟨f, hf, ha⟩
    refine ⟨f, ⟨hr, hf, ha.size.le⟩, _, loop f ha.size.le, ?_⟩
    rw [if_pos ⟨ha.size, ha.sha256, ha.mode, ha.uid, ha.gid⟩]
    exact bind_ok.mpr ⟨i.xattrs, listXattrs_ok.mpr ⟨ha.xattrs.symm, hx⟩, pure_ok.mpr (by simp)⟩

lemma allM_ok {α : Type} {p : α → Except Error Bool} {l : List α} :
    l.allM p = .ok true ↔ ∀ a ∈ l, p a = .ok true := by
  induction l with
  | nil => exact iff_of_true rfl nofun
  | cons a l ih =>
    rw [List.allM, bind_ok, List.forall_mem_cons, ← ih]
    constructor
    · rintro ⟨b, hb, h⟩
      cases b with
      | true => exact ⟨hb, h⟩
      | false => cases h
    · rintro ⟨hb, h⟩
      exact ⟨true, hb, h⟩

lemma attributesExact_ok (hw : t.WellFormed) (hm : Listing m) :
    attributesExact t m = .ok true ↔
      m.rootAttributes = ⟨t.mode, t.uid, t.gid, t.xattrs.map xattr⟩
        ∧ ∀ d ∈ m.directories, ∃ mode uid gid xattrs children,
          (d.path.splitOn '/', .directory mode uid gid xattrs children) ∈ t.nodes
            ∧ d.attributes = ⟨mode, uid, gid, xattrs.map xattr⟩ := by
  have directory : ∀ d ∈ m.directories,
      ((do let attrs ← t.attributesOf d.path
           return decide (attrs = d.attributes)) = (.ok true : Except Error Bool)
        ↔ ∃ mode uid gid xattrs children,
          (d.path.splitOn '/', .directory mode uid gid xattrs children) ∈ t.nodes
            ∧ d.attributes = ⟨mode, uid, gid, xattrs.map xattr⟩) := by
    intro d hd
    have hr : Relative d.path := hm.relative _ (List.mem_append_right _ (List.mem_map_of_mem hd))
    simp only [bind_ok, pure_ok, decide_eq_true_eq, exists_eq_right, attributesOf_ok hw]
    exact ⟨fun h => h.2.2, fun h => ⟨hr, hm.directoryXattrs d hd, h⟩⟩
  simp only [attributesExact, bind_ok, Tree.attributes, listAttributes_ok]
  constructor
  · rintro ⟨root, ⟨h1, -⟩, h⟩
    split_ifs at h with hroot
    · exact ⟨hroot ▸ h1, fun d hd => (directory d hd).mp (allM_ok.mp h d hd)⟩
    · cases h
  · rintro ⟨h1, h2⟩
    refine ⟨m.rootAttributes, ⟨h1, hm.rootXattrs⟩, ?_⟩
    rw [if_pos rfl]
    exact allM_ok.mpr fun d hd => (directory d hd).mpr (h2 d hd)

lemma splitOn_joined (hw : t.WellFormed) {x : List Text × Node} (hx : x ∈ t.nodes) :
    (joined x.1).splitOn '/' = x.1 :=
  List.splitOn_intercalate '/' (hw.names x hx) fun h => by
    obtain ⟨q, node⟩ := x
    subst h
    exact nil_notMem_nodes hx

/-- One node has these names. -/
lemma node_unique (hw : t.WellFormed) {q : List Text} {node node' : Node}
    (h : (q, node) ∈ t.nodes) (h' : (q, node') ∈ t.nodes) : node = node' := by
  rw [← openNode_iff hw] at h h'
  exact Except.ok.inj (h.symm.trans h')

lemma nodup_joined (hw : t.WellFormed) : (t.nodes.map fun x => joined x.1).Nodup := by
  refine List.Nodup.of_map (fun p => p.splitOn '/') ?_
  have h : (t.nodes.map fun x => joined x.1).map (fun p => p.splitOn '/')
      = t.nodes.map Prod.fst := by
    rw [List.map_map]
    exact List.map_congr_left fun x hx => splitOn_joined hw hx
  exact h ▸ hw.nodup

lemma Canonical.nodup {l : List Text} (h : Canonical l) : l.Nodup := by
  refine List.Pairwise.imp (fun {p q} hlt he => ?_) h
  subst he
  exact List.lt_irrefl p hlt

/-- A list that is canonical is what is sorted, if the texts in it are the same. -/
lemma eq_sorted_iff {l r : List Text} (hl : l.Nodup) (hr : Canonical r) :
    r = sorted l ↔ ∀ p, p ∈ r ↔ p ∈ l := by
  constructor
  · rintro rfl p
    exact List.mem_insertionSort _
  · intro h
    have perm : r.Perm (sorted l) :=
      ((List.perm_ext_iff_of_nodup hr.nodup hl).mpr h).trans (List.perm_insertionSort _ l).symm
    exact perm.eq_of_pairwise (fun _ _ _ _ => le_antisymm)
      (List.Pairwise.imp le_of_lt hr) (List.pairwise_insertionSort _ l)

/-- The inventory of a manifest is found, if every node is one of the files or the directories of
the manifest, and there are no others. -/
lemma inventory_ok (hw : t.WellFormed) (hm : Listing m) : closedInventory t = .ok m.inventory ↔
    (∀ x ∈ t.nodes, x.2 ≠ .mount)
      ∧ (∀ p, p ∈ m.inventory.1 ↔ ∃ x ∈ t.nodes, x.2.isDirectory = false ∧ joined x.1 = p)
      ∧ ∀ p, p ∈ m.inventory.2 ↔ ∃ x ∈ t.nodes, x.2.isDirectory = true ∧ joined x.1 = p := by
  have nodup : ∀ f : List Text × Node → Bool,
      ((t.nodes.filter f).map fun x => joined x.1).Nodup := fun f =>
    (List.filter_sublist.map _).nodup (nodup_joined hw)
  rw [show m.inventory = (m.inventory.1, m.inventory.2) from rfl, closedInventory_ok,
    eq_sorted_iff (nodup _) hm.paths, eq_sorted_iff (nodup _) hm.directories]
  simp only [List.mem_map, List.mem_filter, Bool.not_eq_true', and_assoc]
  constructor
  · rintro ⟨hp, -, h⟩
    exact ⟨fun x hx => (hp x hx).notMount, h⟩
  · rintro ⟨hn, hf, hd⟩
    have listed : ∀ x ∈ t.nodes, joined x.1 ∈ m.inventory.1 ++ m.inventory.2 := by
      intro x hx
      cases hk : x.2.isDirectory with
      | false => exact List.mem_append_left _ ((hf _).mpr ⟨x, hx, hk, rfl⟩)
      | true => exact List.mem_append_right _ ((hd _).mpr ⟨x, hx, hk, rfl⟩)
    refine ⟨fun x hx => ⟨hm.relative _ (listed x hx), hn x hx, fun _ => ?_⟩, ?_, hf, hd⟩
    · have h := (hm.relative _ (listed x hx)).2.1
      rwa [splitOn_joined hw hx] at h
    · have h := ((nodup_joined hw).subperm fun p hp =>
        let ⟨x, hx, he⟩ := List.mem_map.mp hp
        he ▸ listed x hx).length_le
      obtain ⟨h1, h2⟩ := hm.few
      rw [List.length_map, List.length_append] at h
      omega

/-- **The parts of the inspection** all come out well if and only if the directory is as the
manifest says. -/
lemma exact_iff (hw : t.WellFormed) (hm : Listing m) (h : InspectHost) : Exact m t ↔
    closedInventory t = .ok m.inventory ∧ attributesExact t m = .ok true
      ∧ ∀ i ∈ m.objects, consistent t h i = .ok true := by
  have object : ∀ i ∈ m.objects, (consistent t h i = .ok true ↔
      ∃ f, (i.path.splitOn '/', .file f) ∈ t.nodes ∧ i.Agrees f) := fun i hi =>
    consistent_ok hw (hm.relative _ (List.mem_append_left _ (List.mem_map_of_mem hi)))
      (hm.objectXattrs i hi)
  have joins : ∀ p : Text, joined (p.splitOn '/') = p := fun p => List.intercalate_splitOn '/'
  rw [attributesExact_ok hw hm, inventory_ok hw hm]
  constructor
  · intro hx
    -- The kind of a node is that of the entry with its path.
    have kind : ∀ x ∈ t.nodes, (∃ i ∈ m.objects, joined x.1 = i.path ∧ ∃ f, x.2 = .file f)
        ∨ ∃ d ∈ m.directories, joined x.1 = d.path ∧ x.2.isDirectory = true := by
      intro x hx'
      have hs := splitOn_joined hw hx'
      rcases List.mem_append.mp (hx.nothingElse x hx') with hp | hp
      · obtain ⟨i, hi, he⟩ := List.mem_map.mp hp
        obtain ⟨f, hf, -⟩ := hx.files i hi
        rw [he, hs] at hf
        exact .inl ⟨i, hi, he.symm, f, node_unique hw hx' hf⟩
      · obtain ⟨d, hd, he⟩ := List.mem_map.mp hp
        obtain ⟨mode, uid, gid, xattrs, children, hf, -⟩ := hx.directories d hd
        rw [he, hs] at hf
        exact .inr ⟨d, hd, he.symm, node_unique hw hx' hf ▸ rfl⟩
    refine ⟨⟨fun x hx' => ?_, fun p => ⟨fun hp => ?_, ?_⟩, fun p => ⟨fun hp => ?_, ?_⟩⟩,
      ⟨hx.root, hx.directories⟩, fun i hi => (object i hi).mpr (hx.files i hi)⟩
    · rcases kind x hx' with ⟨-, -, -, f, hf⟩ | ⟨-, -, -, hd⟩
      · rw [hf]
        rintro ⟨⟩
      · intro h
        rw [h] at hd
        cases hd
    · obtain ⟨i, hi, rfl⟩ := List.mem_map.mp hp
      obtain ⟨f, hf, -⟩ := hx.files i hi
      exact ⟨_, hf, rfl, joins _⟩
    · rintro ⟨x, hx', hk, rfl⟩
      rcases kind x hx' with ⟨i, hi, he, -⟩ | ⟨-, -, -, hd⟩
      · exact he ▸ List.mem_map_of_mem hi
      · rw [hk] at hd
        cases hd
    · obtain ⟨d, hd, rfl⟩ := List.mem_map.mp hp
      obtain ⟨mode, uid, gid, xattrs, children, hf, -⟩ := hx.directories d hd
      exact ⟨_, hf, rfl, joins _⟩
    · rintro ⟨x, hx', hk, rfl⟩
      rcases kind x hx' with ⟨-, -, -, f, hf⟩ | ⟨d, hd, he, -⟩
      · rw [hf] at hk
        cases hk
      · exact he ▸ List.mem_map_of_mem hd
  · rintro ⟨⟨-, hf, hd⟩, ⟨hr, ha⟩, ho⟩
    refine ⟨fun x hx => ?_, fun i hi => (object i hi).mp (ho i hi), ha, hr⟩
    cases hk : x.2.isDirectory with
    | false => exact List.mem_append_left _ ((hf _).mpr ⟨x, hx, hk, rfl⟩)
    | true => exact List.mem_append_right _ ((hd _).mpr ⟨x, hx, hk, rfl⟩)

/-! ### The inspection is exact -/

/-- The system does not fail in an inspection against `m`. -/
structure InspectHost.Answers (h : InspectHost) (m : Manifest) : Prop where
  inventoryBefore : h.inventoryBefore = none
  object : ∀ i ∈ m.objects, h.object i.path = none
  inventoryAfter : h.inventoryAfter = none
  attributes : h.attributes = none

lemma tried_some {α : Type} {failure : Option String} {x : Except Error α} {a : α} :
    (if failure = none then x.toOption else none) = some a ↔ failure = none ∧ x = .ok a := by
  cases x <;> simp [Except.toOption]

/-- Every object is looked at, and what is found of it is told. -/
lemma inspectObjects_ok (t : Tree) (h : InspectHost) (l : List Item) :
    ∃ r, l.mapM (inspectObject t h) = .ok r ∧ ((r.all fun x => x.2 = .matched) = true ↔
      ∀ i ∈ l, h.object i.path = none ∧ consistent t h i = .ok true) := by
  induction l with
  | nil => exact ⟨[], rfl, by simp⟩
  | cons i l ih =>
    obtain ⟨r, hr, hall⟩ := ih
    have hx : inspectObject t h i = .ok (i.path,
        match if h.object i.path = none then (consistent t h i).toOption else none with
        | some true => .matched
        | some false => .mismatch
        | none => .missingUnreadableOrUnsafe) := by
      rw [inspectObject, tried_ok (caught_consistent t h i)]
      rfl
    refine ⟨_, by rw [List.mapM_cons, hx, hr]; rfl, ?_⟩
    rw [List.all_cons, Bool.and_eq_true, hall, List.forall_mem_cons, ← tried_some]
    refine and_congr_left fun _ => ?_
    rw [decide_eq_true_eq]
    split <;> simp_all

/-- **The report** says that all is complete if and only if every part of the inspection has come
out well. -/
lemma inspectOriginal_ok {L : Library} {mraw eraw : Bytes} {trust : Value} {expected : Text}
    {now : ℤ} {a : Anchor} (ha : authenticate L mraw eraw trust expected now = .ok (m, a))
    (t : Tree) (h : InspectHost) : ∃ rep,
      inspectOriginal L mraw eraw trust expected now t h = .ok rep
      ∧ (rep.complete = true ↔ (closedInventory t = .ok m.inventory
          ∧ attributesExact t m = .ok true ∧ ∀ i ∈ m.objects, consistent t h i = .ok true)
        ∧ h.Answers m) := by
  obtain ⟨r, hr, hall⟩ := inspectObjects_ok t h m.objects
  refine ⟨_, bind_ok.mpr ⟨_, ha, bind_ok.mpr ⟨_, tried_ok (caught_closedInventory t),
    bind_ok.mpr ⟨r, hr, bind_ok.mpr ⟨_, tried_ok (caught_closedInventory t),
      bind_ok.mpr ⟨_, tried_ok (caught_attributesExact t m), rfl⟩⟩⟩⟩⟩, ?_⟩
  have attrs : ∀ x : Option Bool, x.getD false = true ↔ x = some true := by
    rintro (_ | _) <;> simp
  have same : ∀ (before after : Option (List Text × List Text)),
      before = after ∧ after = some m.inventory
        ↔ before = some m.inventory ∧ after = some m.inventory := by
    rintro before after
    constructor <;> rintro ⟨rfl, rfl⟩ <;> exact ⟨rfl, rfl⟩
  simp only [Bool.and_eq_true, decide_eq_true_eq, hall, attrs, same]
  simp only [tried_some]
  constructor
  · rintro ⟨⟨⟨⟨h1, h2⟩, h3, -⟩, h4, h5⟩, h6⟩
    exact ⟨⟨h2, h5, fun i hi => (h6 i hi).2⟩, h1, fun i hi => (h6 i hi).1, h3, h4⟩
  · rintro ⟨⟨h1, h2, h3⟩, h4⟩
    exact ⟨⟨⟨⟨h4.inventoryBefore, h1⟩, h4.inventoryAfter, h1⟩, h4.attributes, h2⟩,
      fun i hi => ⟨h4.object i hi, h3 i hi⟩⟩

end Found

/-! ### What has been exported -/

section Exported

variable {t : Tree} {v : Value} {m : Manifest}

/-- Attributes as the manifest has them, in the words of the export. -/
def attributesEntry (mode uid gid : ℕ) (xattrs : List (Text × Bytes)) : Value :=
  attributesValue mode uid gid (.list (xattrs.map xattrValue))

/-- The export reads the attributes that the inspection reads. -/
lemma readXattrs_ok {l : List (Text × Bytes)} :
    readXattrs l = .ok v ↔ v = .list (l.map xattrValue) ∧ ∃ xs, listXattrs l = .ok xs := by
  simp only [readXattrs, listXattrs, bind_ok, pure_ok]
  constructor
  · rintro ⟨_, h1, _, h2, xs, h3, rfl⟩
    exact ⟨rfl, xs, (), h1, (), h2, h3⟩
  · rintro ⟨rfl, xs, _, h1, _, h2, h3⟩
    exact ⟨(), h1, (), h2, xs, h3, rfl⟩

lemma validateXattrs_map {l : List (Text × Bytes)} {xs : List Xattr}
    (h : validateXattrs (.list (l.map xattrValue)) = .ok xs) : xs = l.map xattr := by
  obtain ⟨_, hl, h, -⟩ := validateXattrs_ok.mp h
  cases hl
  exact entries_xattrValue.mp h

lemma rootAttributes_ok (h : rootAttributes t = .ok v) :
    v = attributesEntry t.mode t.uid t.gid t.xattrs := by
  simp only [rootAttributes, bind_ok, pure_ok] at h
  obtain ⟨attrs, ha, rfl⟩ := h
  rw [(readXattrs_ok.mp ha).1, attributesEntry]

lemma directoryAttributes_ok (hw : t.WellFormed) {path : Text}
    (h : directoryAttributes t path = .ok v) : ∃ mode uid gid xattrs children,
      (path.splitOn '/', .directory mode uid gid xattrs children) ∈ t.nodes
        ∧ v = attributesEntry mode uid gid xattrs := by
  simp only [directoryAttributes, bind_ok, relative_ok] at h
  obtain ⟨p, ⟨-, rfl⟩, node, hn, h⟩ := h
  cases node with
  | directory mode uid gid xattrs children =>
    simp only [bind_ok, pure_ok] at h
    obtain ⟨attrs, ha, rfl⟩ := h
    exact ⟨mode, uid, gid, xattrs, children, (openNode_iff hw).mp hn, by
      rw [(readXattrs_ok.mp ha).1, attributesEntry]⟩
  | file | mount | special => cases h

/-- What the export has written is what is read. -/
lemma validate_attributesEntry {mode uid gid : ℕ} {xattrs : List (Text × Bytes)} {a : Attributes}
    (h : validateDirectoryAttributes (attributesEntry mode uid gid xattrs) = .ok a) :
    a = ⟨mode, uid, gid, xattrs.map xattr⟩ := by
  simp only [validateDirectoryAttributes, bind_ok, pure_ok] at h
  obtain ⟨d, hd, mode', h1, uid', h2, gid', h3, xs, h4, rfl⟩ := h
  cases fields_ok hd
  have e1 : (.int mode : Value) = .int mode' := integer_ok h1
  have e2 : (.int uid : Value) = .int uid' := integer_ok h2
  have e3 : (.int gid : Value) = .int gid' := integer_ok h3
  have e4 : xs = xattrs.map xattr := validateXattrs_map h4
  cases e1
  cases e2
  cases e3
  rw [e4]

/-- `v` is the entry of a file that has been found, with the mode that it is to have. -/
def Recorded (t : Tree) (w : Wanted) (v : Value) : Prop :=
  ∃ f chunks, (w.path.splitOn '/', .file f) ∈ t.nodes ∧ f.mode = w.mode
    ∧ v = itemValue w f (.list (f.xattrs.map xattrValue)) chunks

lemma exportObject_recorded (hw : t.WellFormed) {s s' : Exported} {w : Wanted}
    {done : List Wanted} (h : exportObject t s w = .ok s')
    (hs : List.Forall₂ (Recorded t) done s.items) :
    List.Forall₂ (Recorded t) (done ++ [w]) s'.items := by
  simp only [exportObject, bind_ok, require_ok, pure_ok] at h
  obtain ⟨f, hf, _, hm, attrs, ha, x, -, rfl⟩ := h
  obtain ⟨rfl, -⟩ := readXattrs_ok.mp ha
  exact List.rel_append hs (.cons ⟨f, _, ((openFile_ok hw).mp hf).2.1, hm, rfl⟩ .nil)

lemma Recorded.agrees {w : Wanted} {i : Item} (h : Recorded t w v) (hv : Reads v i) :
    i.path = w.path ∧ ∃ f, (i.path.splitOn '/', .file f) ∈ t.nodes ∧ i.Agrees f := by
  obtain ⟨f, chunks, hf, hm, rfl⟩ := h
  obtain ⟨seen, hv⟩ := hv
  obtain ⟨hp, hsize, hsha, -⟩ := validateItem_value hv
  simp only [validateItem, bind_ok, pure_ok] at hv
  obtain ⟨d, hd, p, -, _, -, _, -, _, -, mode, h1, uid, h2, gid, h3, xs, h4, _, -, _, -, _, -, _, -,
    _, -, rfl⟩ := hv
  cases fields_ok hd
  have e1 : (.int w.mode : Value) = .int mode := integer_ok h1
  have e2 : (.int f.uid : Value) = .int uid := integer_ok h2
  have e3 : (.int f.gid : Value) = .int gid := integer_ok h3
  have e4 : xs = f.xattrs.map xattr := validateXattrs_map h4
  exact ⟨hp, f, hp ▸ hf, hsize.symm, hsha.symm, hm.trans (by simpa using e1), by simpa using e2,
    by simpa using e3, e4.symm⟩

/-- What the export has found. -/
lemma exportCohort_found (hw : t.WellFormed) {dumps : Value → Bytes} {spec : Value} {dir : Place}
    {listing : List Text} {files : Files}
    (hx : exportCohort dumps t spec dir listing = .ok (v, files)) :
    ∃ d root ws dirs attributes l, v = manifestValue d root (dirs.zip attributes) l
      ∧ closedInventory t = .ok (ws.map Wanted.path, dirs) ∧ rootAttributes t = .ok root
      ∧ List.Forall₂ (fun p v => directoryAttributes t p = .ok v) dirs attributes
      ∧ List.Forall₂ (Recorded t) ws l := by
  simp only [exportCohort, bind_ok, require_ok, relative_ok] at hx
  obtain ⟨_, -, _, -, d, -, _, -, _, -, _, -, _, -, objects, -, _, -, ws, -, _, -, ⟨paths, dirs⟩,
    hi, _, -, root, hroot, attributes, hattrs, s, hs, _, -, _, hpaths, _, -, _, -, h⟩ := hx
  cases h
  have recorded := foldlM_invariant (I := fun done (s : Exported) =>
    List.Forall₂ (Recorded t) done s.items) hs .nil fun done w s s' _ hs h =>
      exportObject_recorded hw h hs
  exact ⟨d, root, _, dirs, attributes, s.items, rfl,
    (show paths = _ from hpaths) ▸ hi, hroot, mapM_ok.mp hattrs, recorded⟩

lemma validateManifest_directories {d : Dict} {l : List Value} {n : ℕ}
    (hd : d.get "directories" = .list l) (h : validateManifest (.dict d) = .ok (m, n)) :
    List.Forall₂ (fun v d => validateDirectory v = .ok d) l m.directories
      ∧ validateDirectoryAttributes (d.get "root_attributes") = .ok m.rootAttributes := by
  obtain ⟨d', objects, directories, hv, hm⟩ := validateManifest_validated h
  cases hv
  cases hd.symm.trans hm.directories
  exact ⟨hm.validated, hm.root⟩

/-- A directory is recorded under its path. -/
lemma validateDirectory_found (hw : t.WellFormed) {p : Text} {d : DirectoryEntry}
    (hv : directoryAttributes t p = .ok v) (h : validateDirectory
      (.dict [("attributes".toList, v), ("path".toList, .text p)]) = .ok d) :
    d.path = p ∧ ∃ mode uid gid xattrs children,
      (d.path.splitOn '/', .directory mode uid gid xattrs children) ∈ t.nodes
        ∧ d.attributes = ⟨mode, uid, gid, xattrs.map xattr⟩ := by
  obtain ⟨mode, uid, gid, xattrs, children, hn, rfl⟩ := directoryAttributes_ok hw hv
  simp only [validateDirectory, bind_ok, pure_ok] at h
  obtain ⟨d', hd', p', hp', a, ha, rfl⟩ := h
  cases fields_ok hd'
  have e : (.text p : Value) = .text p' := (path_ok hp').1
  cases e
  exact ⟨rfl, mode, uid, gid, xattrs, children, hn, validate_attributesEntry ha⟩

/-- Every node is found. -/
lemma mem_closedInventory {paths dirs : List Text} (h : closedInventory t = .ok (paths, dirs))
    {x : List Text × Node} (hx : x ∈ t.nodes) : joined x.1 ∈ paths ∨ joined x.1 ∈ dirs := by
  obtain ⟨-, -, rfl, rfl⟩ := closedInventory_ok.mp h
  simp only [sorted, List.mem_insertionSort, List.mem_map, List.mem_filter]
  cases hk : x.2.isDirectory with
  | false => exact .inl ⟨x, ⟨hx, by rw [hk]; rfl⟩, rfl⟩
  | true => exact .inr ⟨x, ⟨hx, hk⟩, rfl⟩

/-- **An exported directory** is as its manifest says. -/
lemma exact_of_export (hw : t.WellFormed) {dumps : Value → Bytes} {spec : Value} {dir : Place}
    {listing : List Text} {files : Files} {n : ℕ}
    (hx : exportCohort dumps t spec dir listing = .ok (v, files))
    (hm : validateManifest v = .ok (m, n)) : Exact m t := by
  obtain ⟨d, root, ws, dirs, attributes, l, rfl, hi, hroot, hattrs, recorded⟩ :=
    exportCohort_found hw hx
  obtain ⟨-, reads⟩ := validateManifest_ok (l := l) rfl hm
  obtain ⟨hd, hr⟩ := validateManifest_directories rfl hm
  have directories := forall₂_zip hattrs (List.forall₂_map_left_iff.mp hd)
  refine ⟨fun x hx => ?_, fun i hi' => ?_, fun e he => ?_, ?_⟩
  · rcases mem_closedInventory hi hx with hp | hp
    · obtain ⟨w, hw', he⟩ := List.mem_map.mp hp
      obtain ⟨y, hy, hr⟩ := forall₂_left recorded hw'
      obtain ⟨i, hi', hv⟩ := forall₂_left reads hy
      exact List.mem_append_left _ (List.mem_map.mpr ⟨i, hi', (hr.agrees hv).1.trans he⟩)
    · obtain ⟨e, he, v, hv, h⟩ := forall₂_left directories hp
      exact List.mem_append_right _
        (List.mem_map.mpr ⟨e, he, (validateDirectory_found hw hv h).1⟩)
  · obtain ⟨y, hy, hv⟩ := forall₂_right reads hi'
    obtain ⟨w, -, hr⟩ := forall₂_right recorded hy
    exact (hr.agrees hv).2
  · obtain ⟨p, -, v, hv, h⟩ := forall₂_right directories he
    exact (validateDirectory_found hw hv h).2
  · rw [rootAttributes_ok hroot] at hr
    exact validate_attributesEntry hr

end Exported

/-! ### The result -/

/-- A directory as the system lists it. -/
structure StateTree extends Tree where
  wellFormed : toTree.WellFormed

/-- **Inspection is exact**: all is complete if and only if there is in the directory what the
manifest has, and nothing else, and the system has not failed. It is complete for a directory that
has been exported, and its own manifest. -/
theorem inspect_exact {L : Library} {mraw eraw : Bytes} {trust : Value} {expected : Text} {now : ℤ}
    {m : Manifest} {a : Anchor} (t : StateTree) (h : InspectHost)
    (ha : authenticate L mraw eraw trust expected now = .ok (m, a)) :
    ∃ rep, inspectOriginal L mraw eraw trust expected now t.toTree h = .ok rep
      ∧ (rep.complete = true ↔ Exact m t.toTree ∧ h.Answers m)
      ∧ ∀ spec v dir listing files,
        exportCohort L.dumps t.toTree spec dir listing = .ok (v, files) → mraw = L.dumps v →
          L.loads mraw = .ok v → (rep.complete = true ↔ h.Answers m) := by
  obtain ⟨v, n, hv, hm⟩ := authenticate_manifest ha
  obtain ⟨rep, hrep, hc⟩ := inspectOriginal_ok ha t.toTree h
  rw [← exact_iff t.wellFormed (validateManifest_listing hm) h] at hc
  refine ⟨rep, hrep, hc, fun spec v' dir listing files hx _ hj => ?_⟩
  rw [hv] at hj
  cases hj
  rw [hc]
  exact and_iff_right (exact_of_export t.wellFormed hx hm)

def someState : StateTree := ⟨someTree 0, ⟨by decide, by decide⟩⟩

theorem inspect_exact_flat : ∃ v files m, someExport 0 = .ok (v, files)
    ∧ someAuthentication v flatSignatures = .ok (m, committedOf v)
    ∧ ∃ rep, inspectOriginal (libraryOf v flatSignatures) (canonical v)
        (canonical (envelopeOf (anchorOf v) flatSignatures)) someTrust
        (sha (canonical (anchorOf v))) 200 (someTree 0) {} = .ok rep
      ∧ rep.complete = true := by
  obtain ⟨v, files, m, hx, ha, -⟩ := Exportable.authenticated (s := flatSignatures)
    (show Exportable 0 by decide +kernel) (by decide +kernel)
  obtain ⟨rep, hrep, -, h⟩ := inspect_exact (L := libraryOf v flatSignatures) someState {} ha
  exact ⟨v, files, m, hx, ha, rep, hrep, (h _ v _ _ files hx rfl (loads_libraryOf _ _)).mpr
    ⟨rfl, fun _ _ => rfl, rfl, rfl⟩⟩

end NiayanAssurance.Recovery
