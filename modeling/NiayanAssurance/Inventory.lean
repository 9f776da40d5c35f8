import NiayanAssurance.RoundTrip

/-!
What is in a directory, and what the walk through it finds.

A node is told by the names that lead to it. The walk, and the way along a path, are both read
off the list of all nodes.
-/

namespace NiayanAssurance.Recovery

open NiayanAssurance.Lib NiayanAssurance.Types NiayanAssurance.RecoveryIo

/-! ### The nodes of a tree -/

mutual

/-- What is below the nodes of a directory, and they themselves, by their names. -/
def nodes : List (Text × Node) → List (List Text × Node)
  | [] => []
  | x :: l => entryNodes x ++ nodes l

def entryNodes : Text × Node → List (List Text × Node)
  | (name, node) => ([name], node) :: (nodesBelow node).map fun x => (name :: x.1, x.2)

def nodesBelow : Node → List (List Text × Node)
  | .directory _ _ _ _ children => nodes children
  | .file _ | .mount | .special => []

end

def Tree.nodes (t : Tree) : List (List Text × Node) := Recovery.nodes t.children

def Node.isDirectory : Node → Bool
  | .directory .. => true
  | .file _ | .mount | .special => false

/-- The path of a node. -/
def joined (names : List Text) : Text := ['/'].intercalate names

/-- No two nodes have the same names, and no name has a separator in it. -/
structure Tree.WellFormed (t : Tree) : Prop where
  nodup : (t.nodes.map Prod.fst).Nodup
  names : ∀ x ∈ t.nodes, ∀ name ∈ x.1, '/' ∉ name

section Nodes

variable {l : List (Text × Node)} {q : List Text} {name : Text} {node : Node}

lemma nodes_eq_flatMap (l : List (Text × Node)) : nodes l = l.flatMap entryNodes := by
  induction l with
  | nil => rfl
  | cons x l ih => rw [nodes, ih, List.flatMap_cons]

lemma nil_notMem_nodes : ([], node) ∉ nodes l := by
  rw [nodes_eq_flatMap, List.mem_flatMap]
  rintro ⟨⟨name, child⟩, -, h⟩
  simp [entryNodes] at h

/-- One name further. -/
lemma cons_mem_nodes : (name :: q, node) ∈ nodes l ↔
    ∃ child, (name, child) ∈ l ∧ (q = [] ∧ node = child ∨ (q, node) ∈ nodesBelow child) := by
  rw [nodes_eq_flatMap, List.mem_flatMap]
  constructor
  · rintro ⟨⟨name', child⟩, hc, h⟩
    simp only [entryNodes, List.mem_cons, List.mem_map, Prod.mk.injEq, List.cons.injEq,
      Prod.exists] at h
    obtain ⟨⟨rfl, rfl⟩, rfl⟩ | ⟨q', node', h, ⟨rfl, rfl⟩, rfl⟩ := h
    · exact ⟨_, hc, .inl ⟨rfl, rfl⟩⟩
    · exact ⟨_, hc, .inr h⟩
  · rintro ⟨child, hc, ⟨rfl, rfl⟩ | h⟩
    · exact ⟨_, hc, List.mem_cons_self⟩
    · exact ⟨_, hc, List.mem_cons_of_mem _ (List.mem_map.mpr ⟨_, h, rfl⟩)⟩

lemma names_sublist (l : List (Text × Node)) :
    (l.map fun x => [x.1]).Sublist ((nodes l).map Prod.fst) := by
  induction l with
  | nil => exact .slnil
  | cons x l ih =>
    rw [nodes, List.map_append, List.map_cons]
    obtain ⟨name, node⟩ := x
    rw [entryNodes, List.map_cons, List.cons_append]
    exact (ih.trans (List.sublist_append_right _ _)).cons_cons _

lemma nodup_names (h : ((nodes l).map Prod.fst).Nodup) : (l.map Prod.fst).Nodup := by
  have h1 := (names_sublist l).nodup h
  rw [show (l.map fun x => [x.1]) = (l.map Prod.fst).map ([·]) by rw [List.map_map]; rfl] at h1
  exact h1.of_map

lemma nodup_below (h : ((nodes l).map Prod.fst).Nodup) (hc : (name, node) ∈ l) :
    ((nodesBelow node).map Prod.fst).Nodup := by
  have h1 : ((entryNodes (name, node)).map Prod.fst).Sublist ((nodes l).map Prod.fst) := by
    rw [nodes_eq_flatMap]
    exact (List.sublist_flatten_of_mem (List.mem_map_of_mem hc)).map _
  have h2 := h1.nodup h
  rw [entryNodes, List.map_cons, List.map_map, List.nodup_cons] at h2
  have h3 : ((nodesBelow node).map Prod.fst).map (name :: ·)
      = (nodesBelow node).map (Prod.fst ∘ fun x => (name :: x.1, x.2)) := by
    rw [List.map_map]
    rfl
  exact (h3 ▸ h2.2).of_map

/-- What is found under a name that nothing else has. -/
lemma lookup_iff_mem (h : (l.map Prod.fst).Nodup) :
    l.lookup name = some node ↔ (name, node) ∈ l := by
  induction l with
  | nil => simp
  | cons x l ih =>
    obtain ⟨name', node'⟩ := x
    rw [List.map_cons, List.nodup_cons] at h
    rw [List.lookup_cons, List.mem_cons, ← ih h.2]
    by_cases hn : name = name'
    · subst hn
      have hl : l.lookup name ≠ some node := fun hl =>
        h.1 (List.mem_map.mpr ⟨_, (ih h.2).mp hl, rfl⟩)
      simp [hl, eq_comm]
    · have hb : (name == name') = false := by simpa using hn
      simp [hb, hn]

/-- **The way along a path** leads to the node with its names. -/
lemma openNode_ok (h : ((nodes l).map Prod.fst).Nodup) :
    openNode l q = .ok node ↔ (q, node) ∈ nodes l := by
  induction q generalizing l with
  | nil => exact iff_of_false (by rw [openNode]; exact nofun) nil_notMem_nodes
  | cons name q ih =>
    rw [openNode, cons_mem_nodes]
    cases hl : l.lookup name with
    | none =>
      refine iff_of_false nofun ?_
      rintro ⟨child, hc, -⟩
      rw [(lookup_iff_mem (nodup_names h)).mpr hc] at hl
      cases hl
    | some child =>
      have hc := (lookup_iff_mem (nodup_names h)).mp hl
      have hu : ∀ c, (name, c) ∈ l → c = child := fun c hc' => by
        rw [(lookup_iff_mem (nodup_names h)).mpr hc'] at hl
        exact Option.some.inj hl
      have hex : (∃ c, (name, c) ∈ l ∧ (q = [] ∧ node = c ∨ (q, node) ∈ nodesBelow c))
          ↔ q = [] ∧ node = child ∨ (q, node) ∈ nodesBelow child :=
        ⟨fun ⟨c, hc', hx⟩ => hu c hc' ▸ hx, fun hx => ⟨child, hc, hx⟩⟩
      rw [hex]
      dsimp only
      by_cases hq : q = []
      · subst hq
        have hb : ([], node) ∉ nodesBelow child := by
          cases child <;> first | exact nil_notMem_nodes | exact List.not_mem_nil
        simp [hb, eq_comm]
      · rw [if_neg hq]
        simp only [hq, false_and, false_or]
        cases child with
        | directory mode uid gid xattrs children => exact ih (nodup_below h hc)
        | file | mount | special => exact iff_of_false nofun List.not_mem_nil

end Nodes

/-! ### The walk -/

section Walk

/-- What is put before the names in a directory. -/
def stem (names : List Text) : Text := names.flatMap (· ++ ['/'])

lemma joined_snoc (b : List Text) (name : Text) : joined (b ++ [name]) = stem b ++ name := by
  induction b with
  | nil => simp [joined, stem]
  | cons n b ih =>
    rw [joined, List.cons_append, List.intercalate_cons_of_ne_nil (by simp), ← joined, ih]
    simp [stem]

lemma stem_snoc (b : List Text) (name : Text) :
    stem (b ++ [name]) = joined (b ++ [name]) ++ ['/'] := by
  rw [joined_snoc]
  simp [stem]

/-- What the walk asks of a node. -/
structure Passes (x : List Text × Node) : Prop where
  relative : Relative (joined x.1)
  notMount : x.2 ≠ .mount
  depth : x.2.isDirectory = true → x.1.length ≤ 32

/-- What the walk keeps of a node. -/
def Inventory.add (s : Inventory) (x : List Text × Node) : Inventory where
  count := s.count + 1
  files := if x.2.isDirectory then s.files else s.files ++ [joined x.1]
  directories := if x.2.isDirectory then s.directories ++ [joined x.1] else s.directories

/-- The nodes `l` all pass, there is room for them after `s`, and `s'` is what they make of it. -/
structure Walked (l : List (List Text × Node)) (s s' : Inventory) : Prop where
  passes : ∀ x ∈ l, Passes x
  room : s.count + l.length ≤ 2 * MAX_OBJECTS
  result : s' = l.foldl Inventory.add s

/-- The names `b` before all of these. -/
def below (b : List Text) (l : List (List Text × Node)) : List (List Text × Node) :=
  l.map fun x => (b ++ x.1, x.2)

lemma foldl_count (l : List (List Text × Node)) (s : Inventory) :
    (l.foldl Inventory.add s).count = s.count + l.length := by
  induction l generalizing s with
  | nil => rfl
  | cons x l ih =>
    rw [List.foldl_cons, ih, List.length_cons, Inventory.add]
    dsimp only
    omega

lemma walked_append {l u : List (List Text × Node)} {s s' : Inventory} :
    Walked (l ++ u) s s' ↔ ∃ r, Walked l s r ∧ Walked u r s' := by
  constructor
  · rintro ⟨hp, hr, rfl⟩
    rw [List.length_append] at hr
    refine ⟨_, ⟨fun x hx => hp x (List.mem_append_left _ hx), by omega, rfl⟩,
      fun x hx => hp x (List.mem_append_right _ hx), ?_, List.foldl_append⟩
    rw [foldl_count]
    omega
  · rintro ⟨r, ⟨hp, -, rfl⟩, hp', hr', rfl⟩
    rw [foldl_count] at hr'
    refine ⟨fun x hx => ?_, by rw [List.length_append]; omega, List.foldl_append.symm⟩
    exact (List.mem_append.mp hx).elim (hp x) (hp' x)

lemma walked_nil {s s' : Inventory} (h : s.count ≤ 2 * MAX_OBJECTS) : Walked [] s s' ↔ s' = s :=
  ⟨fun h => h.result, fun h' => ⟨nofun, h, h'⟩⟩

lemma walked_cons {x : List Text × Node} {l : List (List Text × Node)} {s s' : Inventory} :
    Walked (x :: l) s s' ↔ Passes x ∧ s.count + 1 ≤ 2 * MAX_OBJECTS ∧ Walked l (s.add x) s' := by
  constructor
  · rintro ⟨hp, hr, rfl⟩
    rw [List.length_cons] at hr
    refine ⟨hp x List.mem_cons_self, by omega, fun y hy => hp y (List.mem_cons_of_mem _ hy), ?_,
      rfl⟩
    rw [Inventory.add]
    dsimp only
    omega
  · rintro ⟨hx, -, hp, hr, rfl⟩
    rw [Inventory.add] at hr
    dsimp only at hr
    refine ⟨fun y hy => ?_, by rw [List.length_cons]; omega, rfl⟩
    exact (List.mem_cons.mp hy).elim (fun h => h ▸ hx) (hp y)

/-- A node that is not a directory. -/
lemma walkNode_leaf {q : List Text} {node : Node} {s s' : Inventory}
    (hd : node.isDirectory = false) (hm : node ≠ .mount) (hb : nodesBelow node = [])
    (hs : s.count + 1 ≤ 2 * MAX_OBJECTS) (hr : Relative (joined q)) :
    (Except.ok { s with count := s.count + 1, files := s.files ++ [joined q] }
      : Except Error Inventory) = .ok s' ↔
      Walked ((q, node) :: below q (nodesBelow node)) s s' := by
  rw [walked_cons, hb, below, List.map_nil, walked_nil (by rw [Inventory.add]; exact hs)]
  have hp : Passes (q, node) := ⟨hr, hm, fun h => by rw [hd] at h; cases h⟩
  simp [hp, hs, Inventory.add, hd, eq_comm]

mutual

lemma walk_ok (b : List Text) : ∀ (l : List (Text × Node)) (s s' : Inventory),
    s.count ≤ 2 * MAX_OBJECTS →
      (walk (stem b) b.length l s = .ok s' ↔ Walked (below b (nodes l)) s s')
  | [], s, s', hs => by
    rw [walk, nodes, below, List.map_nil, walked_nil hs, Except.ok.injEq, eq_comm]
  | x :: l, s, s', hs => by
    rw [walk, nodes, below, List.map_append, walked_append, bind_ok]
    refine exists_congr fun r => ?_
    rw [walkEntry_ok b x s r hs]
    refine and_congr_right fun hr => walk_ok b l r s' ?_
    rw [hr.result, foldl_count]
    exact hr.room

lemma walkEntry_ok (b : List Text) : ∀ (x : Text × Node) (s s' : Inventory),
    s.count ≤ 2 * MAX_OBJECTS →
      (walkEntry (stem b) b.length x s = .ok s' ↔ Walked (below b (entryNodes x)) s s')
  | (name, node), s, s', hs => by
    have hb : below b (entryNodes (name, node))
        = (b ++ [name], node) :: below (b ++ [name]) (nodesBelow node) := by
      simp [below, entryNodes, List.map_map, Function.comp_def]
    have hw : walkEntry (stem b) b.length (name, node) s = .ok s' ↔
        s.count + 1 ≤ 2 * MAX_OBJECTS ∧ Relative (joined (b ++ [name]))
          ∧ walkNode (joined (b ++ [name])) b.length node { s with count := s.count + 1 }
            = .ok s' := by
      simp only [walkEntry, bind_ok, require_ok, relative_ok, ← joined_snoc]
      constructor
      · rintro ⟨_, h1, _, ⟨h2, rfl⟩, h3⟩
        exact ⟨h1, h2, h3⟩
      · rintro ⟨h1, h2, h3⟩
        exact ⟨(), h1, _, ⟨h2, rfl⟩, h3⟩
    rw [hw, hb]
    -- What the first node of the list must satisfy is what was asked before the cases.
    have hx : Walked ((b ++ [name], node) :: below (b ++ [name]) (nodesBelow node)) s s' →
        s.count + 1 ≤ 2 * MAX_OBJECTS ∧ Relative (joined (b ++ [name])) := fun h =>
      ⟨(walked_cons.mp h).2.1, (walked_cons.mp h).1.relative⟩
    rw [← and_assoc]
    refine Iff.trans (and_congr_right fun hr => ?_) (and_iff_right_of_imp hx)
    cases node with
    | file f =>
      rw [walkNode]
      exact walkNode_leaf rfl nofun rfl hr.1 hr.2
    | special =>
      rw [walkNode]
      exact walkNode_leaf rfl nofun rfl hr.1 hr.2
    | mount => exact iff_of_false nofun fun h => (walked_cons.mp h).1.notMount rfl
    | directory mode uid gid xattrs children =>
      have hd : (b ++ [name]).length = b.length + 1 := by simp
      rw [walkNode, bind_ok, walked_cons, ← stem_snoc, ← hd]
      have ih := walk_ok (b ++ [name]) children
        (s.add (b ++ [name], .directory mode uid gid xattrs children)) s' hr.1
      constructor
      · rintro ⟨_, h1, h2⟩
        exact ⟨⟨hr.2, nofun, fun _ => require_ok.mp h1⟩, hr.1, ih.mp h2⟩
      · rintro ⟨h1, -, h2⟩
        exact ⟨(), require_ok.mpr (h1.depth rfl), ih.mpr h2⟩

end

/-- What `closed_inventory` finds. -/
lemma closedInventory_ok {t : Tree} {files directories : List Text} :
    closedInventory t = .ok (files, directories) ↔
      (∀ x ∈ t.nodes, Passes x) ∧ t.nodes.length ≤ 2 * MAX_OBJECTS
        ∧ files = sorted ((t.nodes.filter fun x => !x.2.isDirectory).map fun x => joined x.1)
        ∧ directories = sorted ((t.nodes.filter fun x => x.2.isDirectory).map fun x => joined x.1)
    := by
  have hb : below [] t.nodes = t.nodes := by simp [below]
  have hadd : ∀ (l : List (List Text × Node)) (s : Inventory), l.foldl Inventory.add s =
      ⟨s.count + l.length,
        s.files ++ (l.filter fun x => !x.2.isDirectory).map fun x => joined x.1,
        s.directories ++ (l.filter fun x => x.2.isDirectory).map fun x => joined x.1⟩ := by
    intro l
    induction l with
    | nil => simp
    | cons x l ih =>
      intro s
      rw [List.foldl_cons, ih, Inventory.add]
      cases hx : x.2.isDirectory <;> simp [hx] <;> omega
  have hw : ∀ s, walk [] 0 t.children {} = .ok s ↔ Walked t.nodes {} s := fun s => by
    rw [← hb]
    exact walk_ok [] t.children {} s (Nat.zero_le _)
  simp only [closedInventory, bind_ok, pure_ok, hw, Prod.mk.injEq]
  constructor
  · rintro ⟨s, ⟨hp, hr, rfl⟩, rfl, rfl⟩
    rw [hadd]
    exact ⟨hp, by simpa using hr, by simp, by simp⟩
  · rintro ⟨hp, hr, rfl, rfl⟩
    refine ⟨_, ⟨hp, by simpa using hr, rfl⟩, ?_⟩
    rw [hadd]
    simp

end Walk

end NiayanAssurance.Recovery
