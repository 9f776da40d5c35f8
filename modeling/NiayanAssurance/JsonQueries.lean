import NiayanAssurance.JsonParse

/-!
The queries on a document agree with the tree that was read, and end on any document whatever.
-/

namespace NiayanAssurance.Json

open NiayanAssurance.Lib NiayanAssurance.Types Attempt
open NiayanAssurance.Numbers

/-! ### Where values stand in a tree -/

def Value.kind : Value → Kind
  | .string _ => .stringNode
  | .number _ => .numberNode
  | .literal l => l.kind
  | .empty form _ => form.kind
  | .filled form _ _ => form.kind

/-- The node of a value: its first and last byte, its container, and the last of the nodes of the
value. -/
def Value.node (v : Value) (n p parent : ℕ) : Node :=
  ⟨v.kind, p, p + v.text.length - 1, parent, n + v.size - 1⟩

/-- A member or element: the key, with the byte where it starts, and the value, with its node and
the byte where it starts. -/
structure Entry where
  key : Option (List Letter)
  start : ℕ
  index : ℕ
  first : ℕ
  value : Value

/-- The bytes of the key. -/
def Entry.name (e : Entry) : Option Bytes := e.key.map lettersValue

/-- An item from node `m` and byte `p` on. -/
def Item.entry : Item → ℕ → ℕ → Entry
  | .mk none value _, m, p => ⟨none, p, m, p, value⟩
  | .mk (some k) value _, m, p => ⟨some k.letters, p, m + 1, p + k.text.length, value⟩

def Items.entries : Items → ℕ → ℕ → List Entry
  | .last i, m, p => [i.entry m p]
  | .cons i gap rest, m, p =>
    i.entry m p :: rest.entries (m + i.size) (p + i.text.length + gap.length + 1)

/-- The members or elements of a value that is node `n` at the byte `p`. -/
def Value.entries : Value → ℕ → ℕ → List Entry
  | .filled _ gap items, n, p => items.entries (n + 1) (p + gap.length + 1)
  | _, _, _ => []

/-- `Located root p u n q parent`: where the value `root` is node 1 at the byte `p`, the value `u`
in it is node `n` at the byte `q`, in the container `parent`. Keys are located as strings. -/
inductive Located (root : Value) (p : ℕ) : Value → ℕ → ℕ → ℕ → Prop
  | root : Located root p root 1 p 0
  | value {u : Value} {n q parent : ℕ} {e : Entry} : Located root p u n q parent →
      e ∈ u.entries n q → Located root p e.value e.index e.first n
  | key {u : Value} {n q parent : ℕ} {e : Entry} {ls : List Letter} :
      Located root p u n q parent → e ∈ u.entries n q → e.key = some ls →
      Located root p (.string ls) (e.index - 1) e.start n

/-- The value `u` is node `n` of the document and stands at the byte `p` of the text. -/
structure Placed (data : Bytes) (d : Document) (u : Value) (n p parent : ℕ) : Prop
    extends Stretch data d (u.nodes n p parent) u.text n p where
  wellFormed : u.WellFormed

variable {data : Bytes} {d : Document} {u v root : Value} {n m p q k parent : ℕ} {form : Form}
  {items : Items} {i : Item} {e : Entry}

lemma Value.nodes_eq (v : Value) (n p q : ℕ) : ∃ t, v.nodes n p q = v.node n p q :: t := by
  cases v with
  | string ls =>
    refine ⟨[], ?_⟩
    simp [Value.nodes, Value.node, Value.kind, Value.text, Value.size, stringNode]
    omega
  | number ds => exact ⟨[], rfl⟩
  | literal l => exact ⟨[], rfl⟩
  | empty form gap =>
    refine ⟨[], ?_⟩
    simp [Value.nodes, Value.node, Value.kind, Value.text, Value.size]
    omega
  | filled form gap items =>
    refine ⟨items.nodes (n + 1) (p + gap.length + 1) n, ?_⟩
    rw [Value.nodes, Value.node, Value.text, Value.size]
    simp [Value.kind]
    omega

lemma Placed.node (h : Placed data d u n p parent) : d.node n = some (u.node n p parent) := by
  obtain ⟨l, l', hl, rfl⟩ := h.nodes
  obtain ⟨t, ht⟩ := u.nodes_eq (l.length + 1) p parent
  rw [ht, List.append_assoc, List.cons_append] at hl
  exact Document.node_of_list hl

lemma Placed.le (h : Placed data d u n p parent) : 1 ≤ n ∧ n + u.size ≤ d.count + 1 := by
  obtain ⟨l, l', hl, rfl⟩ := h.nodes
  have hc := d.length_list
  rw [hl, List.length_append, List.length_append, u.length_nodes] at hc
  omega

/-- The items of a container are in it. -/
lemma Placed.contents {gap : Bytes} (h : Placed data d (.filled form gap items) n p parent) :
    Stretch data d (items.nodes (n + 1) (p + gap.length + 1) n) items.text (n + 1)
      (p + gap.length + 1) :=
  h.toStretch.sub (a := [_]) (c := []) (x := form.openByte :: gap) (z := [form.closeByte])
    (by rw [Value.nodes, List.append_nil]; rfl) (by simp [Value.text]) rfl (by simp; omega)

/-- The value of an item is in it. -/
lemma Stretch.value (h : Stretch data d (i.nodes m p n) i.text m p) (hi : i.WellFormed form) :
    Placed data d (i.entry m p).value (i.entry m p).index (i.entry m p).first n := by
  obtain ⟨key, v, trail⟩ := i
  obtain ⟨-, -, hv, -⟩ := hi
  cases key with
  | none =>
    exact ⟨h.sub (a := []) (c := []) (x := []) (z := trail) (by simp [Item.nodes, Item.entry])
      (by simp [Item.text, Item.entry]) rfl rfl, hv⟩
  | some k =>
    exact ⟨h.sub (a := [stringNode k.letters m p n]) (c := []) (x := k.text) (z := trail)
      (by simp [Item.nodes, Item.entry]) (by simp [Item.text, Item.entry]) rfl rfl, hv⟩

/-- The key of an item is in it, as a string. -/
lemma Stretch.key {ls : List Letter} (h : Stretch data d (i.nodes m p n) i.text m p)
    (hi : i.WellFormed form) (hk : (i.entry m p).key = some ls) :
    Placed data d (.string ls) ((i.entry m p).index - 1) (i.entry m p).start n := by
  obtain ⟨_ | ⟨ls', before, after⟩, v, trail⟩ := i
  · cases hk
  · obtain ⟨-, hq, -, -⟩ := hi
    obtain rfl : ls' = ls := Option.some.inj hk
    exact ⟨h.sub (a := []) (c := v.nodes (m + 1) (p + (Key.mk ls' before after).text.length) n)
      (x := []) (z := before ++ 58#8 :: after ++ v.text ++ trail)
      (by simp [Item.nodes, Item.entry, Value.nodes])
      (by simp [Item.text, Key.text, Value.text]) rfl rfl, (hq _ rfl).1⟩

lemma Stretch.first {gap : Bytes}
    (h : Stretch data d ((Items.cons i gap items).nodes m p n) (Items.cons i gap items).text m p) :
    Stretch data d (i.nodes m p n) i.text m p :=
  h.sub (a := []) (c := items.nodes _ _ n) (x := []) (z := 44#8 :: gap ++ items.text)
    (by rw [Items.nodes]; rfl) (by simp [Items.text]) rfl rfl

lemma Stretch.rest {gap : Bytes}
    (h : Stretch data d ((Items.cons i gap items).nodes m p n) (Items.cons i gap items).text m p) :
    Stretch data d (items.nodes (m + i.size) (p + i.text.length + gap.length + 1) n) items.text
      (m + i.size) (p + i.text.length + gap.length + 1) :=
  h.sub (a := i.nodes m p n) (c := []) (x := i.text ++ 44#8 :: gap) (z := [])
    (by simp [Items.nodes]) (by simp [Items.text]) (by rw [i.length_nodes]) (by simp; omega)

/-- Every entry is an item in its place. -/
lemma entry_item : ∀ (items : Items) {m p : ℕ},
    Stretch data d (items.nodes m p n) items.text m p → items.WellFormed form →
    e ∈ items.entries m p → ∃ (i : Item) (m p : ℕ), e = i.entry m p ∧ i.WellFormed form ∧
      Stretch data d (i.nodes m p n) i.text m p
  | .last i, m, p, h, hw, he => ⟨i, m, p, List.mem_singleton.1 he, hw, h⟩
  | .cons i gap rest, m, p, h, hw, he => by
    rcases List.mem_cons.1 he with rfl | he
    · exact ⟨i, m, p, rfl, hw.1, h.first⟩
    · exact entry_item rest h.rest hw.2.2 he

/-- Everything in a placed value is placed. -/
lemma Placed.entries (h : Placed data d u n p parent) (he : e ∈ u.entries n p) :
    Placed data d e.value e.index e.first n ∧
      ∀ ls, e.key = some ls → Placed data d (.string ls) (e.index - 1) e.start n := by
  cases u with
  | filled form gap items =>
    obtain ⟨i, m, p, rfl, hi, hs⟩ := entry_item items h.contents h.wellFormed.2.1 he
    exact ⟨hs.value hi, fun ls hk => hs.key hi hk⟩
  | _ => simp [Value.entries] at he

lemma Located.placed (h : Located root p u n q parent) (hr : Placed data d root 1 p 0) :
    Placed data d u n q parent := by
  induction h with
  | root => exact hr
  | value _ he ih => exact (ih.entries he).1
  | key _ he hk ih => exact (ih.entries he).2 _ hk

/-! ### Every node is located -/

/-- The nodes from `n` up to `k` are located in the tree. -/
def Covers (root : Value) (p n k : ℕ) : Prop :=
  ∀ m, n ≤ m → m < k → ∃ u q parent, Located root p u m q parent

lemma Covers.append (h : Covers root p n m) (h' : Covers root p m k) : Covers root p n k := by
  intro j hn hk
  rcases Nat.lt_or_ge j m with hj | hj
  · exact h j hn hj
  · exact h' j hj hk

mutual

lemma Value.covers (v : Value) {n q parent : ℕ} (h : Located root p v n q parent) :
    Covers root p n (n + v.size) := by
  have hself : Covers root p n (n + 1) := fun m hn hm => by
    obtain rfl : n = m := by omega
    exact ⟨v, q, parent, h⟩
  match v with
  | .string _ | .number _ | .literal _ | .empty _ _ => exact hself
  | .filled form gap items =>
    have hitems : Covers root p (n + 1) (n + 1 + items.size) :=
      items.covers (q := q + gap.length + 1) (fun e he => .value h he)
        fun e he ls hk => .key h he hk
    rw [Value.size, ← Nat.add_assoc, Nat.add_right_comm]
    exact hself.append hitems

lemma Items.covers (items : Items) {n m q : ℕ}
    (hv : ∀ e ∈ items.entries m q, Located root p e.value e.index e.first n)
    (hk : ∀ e ∈ items.entries m q, ∀ ls, e.key = some ls →
      Located root p (.string ls) (e.index - 1) e.start n) :
    Covers root p m (m + items.size) := by
  match items with
  | .last i => exact i.covers (hv _ (List.mem_singleton_self _)) (hk _ (List.mem_singleton_self _))
  | .cons i gap rest =>
    have h1 := i.covers (hv _ (List.mem_cons_self ..)) (hk _ (List.mem_cons_self ..))
    have h2 := rest.covers (fun e he => hv e (List.mem_cons_of_mem _ he))
      (fun e he => hk e (List.mem_cons_of_mem _ he))
    rw [Items.size, ← Nat.add_assoc]
    exact h1.append h2

lemma Item.covers (i : Item) {n m q : ℕ}
    (hv : Located root p (i.entry m q).value (i.entry m q).index (i.entry m q).first n)
    (hk : ∀ ls, (i.entry m q).key = some ls →
      Located root p (.string ls) ((i.entry m q).index - 1) (i.entry m q).start n) :
    Covers root p m (m + i.size) := by
  match i with
  | .mk none v trail =>
    have h := v.covers hv
    simpa [Item.size, Item.entry] using h
  | .mk (some k) v trail =>
    have hkey : Covers root p m (m + 1) := fun j hn hj => by
      obtain rfl : m = j := by omega
      exact ⟨_, _, _, hk k.letters rfl⟩
    have h := hkey.append (v.covers hv)
    simpa [Item.size, Item.entry, Nat.add_assoc] using h

end

/-! ### Members -/

lemma Item.key_entry (i : Item) (m p : ℕ) : i.key = (i.entry m p).name := by
  obtain ⟨_ | k, v, trail⟩ := i <;> rfl

lemma item_name (h : i.WellFormed .object) (m p : ℕ) : (i.entry m p).name.isSome := by
  obtain ⟨key, v, trail⟩ := i
  obtain ⟨q, rfl⟩ := Option.isSome_iff_exists.1 (h.1.2 rfl)
  rfl

lemma item_pair (h : Stretch data d (i.nodes m p n) i.text m p) (hi : i.WellFormed .object)
    (hlen : ∀ key ∈ i.key, key.length ≤ 256) :
    Pair data d n m (m + i.size) ((i.entry m p).name.getD []) ∧ (i.entry m p).index = m + 1 := by
  obtain ⟨key, v, trail⟩ := i
  obtain ⟨hkey, hq, -, -⟩ := hi
  obtain ⟨q, rfl⟩ := Option.isSome_iff_exists.1 (hkey.2 rfl)
  rw [Item.nodes, Item.text, List.append_assoc] at h
  have hpair := Pair.of_nodes (hq q rfl) (by simpa [Item.key, lettersValue] using hlen) h
  exact ⟨by simpa [Item.size, Item.entry, Entry.name, Nat.add_comm 1] using hpair, rfl⟩

/-- The pairs of an object are its entries. -/
lemma pairs_items : ∀ (items : Items) {m p : ℕ},
    Stretch data d (items.nodes m p n) items.text m p → items.WellFormed .object →
    (∀ key ∈ items.keys, key.length ≤ 256) →
    Pairs data d n m (m + items.size)
      ((items.entries m p).map fun e => (e.name.getD [], e.index))
  | .last i, m, p, h, hw, hlen => by
    obtain ⟨h1, h2⟩ := item_pair h hw (by simpa [Items.keys_last] using hlen)
    show Pairs data d n m (m + i.size) [((i.entry m p).name.getD [], (i.entry m p).index)]
    rw [h2]
    exact .cons h1 (.nil _)
  | .cons i gap rest, m, p, h, hw, hlen => by
    rw [Items.keys_cons] at hlen
    obtain ⟨h1, h2⟩ := item_pair h.first hw.1
      fun key hk => hlen key (List.mem_append_left _ (Option.mem_toList.2 hk))
    have h3 := pairs_items rest h.rest hw.2.2 fun key hk => hlen key (List.mem_append_right _ hk)
    rw [Items.entries, List.map_cons, h2, Items.size, ← Nat.add_assoc]
    exact .cons h1 h3

/-- The loop of `Member` over the pairs of an object. -/
lemma memberFrom_pairs {ps : List (Bytes × ℕ)} {x : Node} {i : ℕ} {key : Bytes}
    (h : Pairs data d n i k ps) (hx : x.endIndex + 1 = k) (hc : k ≤ d.count + 1) {fuel : ℕ}
    (hf : k < fuel + i) :
    memberFrom data d n x key fuel i = some ((ps.find? (·.1 = key)).elim 0 (·.2)) := by
  induction h generalizing fuel with
  | nil k =>
    obtain ⟨f, rfl⟩ := Nat.exists_eq_succ_of_ne_zero (n := fuel) (by omega)
    rw [memberFrom, if_pos (by omega)]
    rfl
  | @cons i next k other ps h hs ih =>
    have hlt := h.lt
    have hle := hs.le
    obtain ⟨y, hy, hparent⟩ := h.parent
    obtain ⟨v, hv, hvp, hend⟩ := h.value
    obtain ⟨f, rfl⟩ := Nat.exists_eq_succ_of_ne_zero (n := fuel) (by omega)
    rw [memberFrom, if_neg (by omega), if_neg (by omega), hy]
    simp only [Option.bind_eq_bind, Option.bind_some, hparent, hv, hvp, h.key]
    rw [if_neg (by simp), if_neg (by omega)]
    simp only [ne_eq, not_true_eq_false, if_false, hend]
    by_cases hkey : other = key
    · rw [if_pos hkey, List.find?_cons_of_pos (by simpa using hkey)]
      rfl
    · rw [if_neg hkey, List.find?_cons_of_neg (by simpa using hkey)]
      exact ih hx hc (by omega)

lemma find_pair {ps : List (Bytes × ℕ)} {key : Bytes} {j : ℕ} (hnd : (ps.map (·.1)).Nodup)
    (h : (key, j) ∈ ps) : ps.find? (·.1 = key) = some (key, j) := by
  induction ps with
  | nil => cases h
  | cons a ps ih =>
    rw [List.map_cons, List.nodup_cons] at hnd
    rcases List.mem_cons.1 h with rfl | h
    · simp
    · have hne : a.1 ≠ key := fun he =>
        hnd.1 (List.mem_map.2 ⟨(key, j), h, he.symm⟩)
      rw [List.find?_cons_of_neg (by simpa using hne)]
      exact ih hnd.2 h

/-- The keys of an object are the names of its entries. -/
lemma names_entries : ∀ (items : Items) {m p : ℕ}, items.WellFormed .object →
    items.keys.map some = (items.entries m p).map Entry.name
  | .last i, m, p, h => by
    obtain ⟨key, hkey⟩ := Option.isSome_iff_exists.1 (item_name h m p)
    simp [Items.keys_last, Items.entries, i.key_entry m p, hkey]
  | .cons i gap rest, m, p, h => by
    obtain ⟨key, hkey⟩ := Option.isSome_iff_exists.1 (item_name h.1 m p)
    have ih := names_entries rest (m := m + i.size) (p := p + i.text.length + gap.length + 1) h.2.2
    simp [Items.keys_cons, Items.entries, i.key_entry m p, hkey, ih]

/-- What is known of the entries of an object. -/
lemma Placed.object (h : Placed data d u n p parent) (hk : u.kind = .objectNode) :
    Pairs data d n (n + 1) (n + u.size)
        ((u.entries n p).map fun e => (e.name.getD [], e.index)) ∧
      ((u.entries n p).map Entry.name).Nodup ∧ ∀ e ∈ u.entries n p, e.name.isSome := by
  cases u with
  | literal l => cases l <;> cases hk
  | string ls => cases hk
  | number ds => cases hk
  | empty form gap => exact ⟨.nil _, List.nodup_nil, by simp [Value.entries]⟩
  | filled form gap items =>
    obtain rfl : form = .object := by cases form <;> trivial
    obtain ⟨-, hw, hlen, hnd⟩ := h.wellFormed
    have hnames := names_entries items (m := n + 1) (p := p + gap.length + 1) hw
    refine ⟨?_, ?_, fun e he => ?_⟩
    · have hps := pairs_items items h.contents hw hlen
      rwa [Nat.add_right_comm, Nat.add_assoc] at hps
    · rw [Value.entries, ← hnames]
      exact hnd.map (Option.some_injective _)
    · obtain ⟨key, -, hkey⟩ := List.mem_map.1
        (hnames ▸ List.mem_map_of_mem (f := Entry.name) he)
      rw [← hkey]
      rfl

lemma member_eq (h : Placed data d u n p parent) (hk : u.kind = .objectNode) (key : Bytes) :
    member data d n key = some ((((u.entries n p).map fun e => (e.name.getD [], e.index)).find?
      (·.1 = key)).elim 0 (·.2)) := by
  obtain ⟨hps, -, -⟩ := h.object hk
  obtain ⟨h1, h2⟩ := h.le
  have hpos := u.size_pos
  have hc := d.count.isLt
  have hend : (u.node n p parent).endIndex + 1 = n + u.size := by
    show n + u.size - 1 + 1 = _
    omega
  unfold member
  rw [if_neg (by omega), h.node]
  simp only [Option.bind_eq_bind, Option.bind_some]
  rw [if_neg (by simpa [Value.node] using hk), if_neg (by omega)]
  exact memberFrom_pairs hps hend h2 (by omega)

/-- **`Member` finds the value of a key**, and nothing for any other key. -/
theorem member_placed (h : Placed data d u n p parent) (hk : u.kind = .objectNode) :
    (∀ e ∈ u.entries n p, ∃ key, e.name = some key ∧ member data d n key = some e.index) ∧
      ∀ key, (∀ e ∈ u.entries n p, e.name ≠ some key) → member data d n key = some 0 := by
  obtain ⟨hps, hnd, hname⟩ := h.object hk
  have hsome : ∀ e ∈ u.entries n p, e.name = some (e.name.getD []) := fun e he => by
    obtain ⟨key, hkey⟩ := Option.isSome_iff_exists.1 (hname e he)
    rw [hkey]
    rfl
  constructor
  · intro e he
    refine ⟨e.name.getD [], hsome e he, ?_⟩
    rw [member_eq h hk, find_pair (j := e.index) ?_ (List.mem_map.2 ⟨e, he, rfl⟩)]
    · rfl
    · rw [List.map_map]
      refine List.Nodup.of_map some ?_
      rw [List.map_map]
      convert hnd using 1
      exact List.map_congr_left fun e he => (hsome e he).symm
  · intro key hne
    rw [member_eq h hk, List.find?_eq_none.2]
    · rfl
    · intro a ha
      obtain ⟨e, he, rfl⟩ := List.mem_map.1 ha
      simp only [decide_eq_true_eq]
      exact fun hkey => hne e he (hkey ▸ hsome e he)

/-! ### Elements -/

/-- One turn of the loop of `Element`. -/
lemma elementFrom_item {x : Node} (fuel position k : ℕ) (hi : i.WellFormed .array)
    (h : Stretch data d (i.nodes m p n) i.text m p) (hx : m + i.size ≤ x.endIndex + 1) :
    (i.entry m p).index = m ∧ elementFrom d n x position (fuel + 1) m k =
      if k = position then some m else elementFrom d n x position fuel (m + i.size) (k + 1) := by
  obtain ⟨key, v, trail⟩ := i
  have hv := h.value hi
  have hpos := v.size_pos
  cases key with
  | some q => cases hi.1.1 rfl
  | none =>
    have hsize : (Item.mk none v trail).size = v.size := by simp [Item.size]
    rw [hsize] at hx ⊢
    have hnode : d.node m = some (v.node m p n) := hv.node
    have hend : (v.node m p n).endIndex = m + v.size - 1 := rfl
    have hnext : (v.node m p n).endIndex + 1 = m + v.size := by omega
    refine ⟨rfl, ?_⟩
    rw [elementFrom, if_neg (by omega), hnode]
    simp only [Option.bind_eq_bind, Option.bind_some]
    rw [if_neg (by rintro (h | h | h) <;> [exact h rfl; omega; omega]), hnext]
    rfl

lemma elementFrom_items {x : Node} {position : ℕ} : ∀ (items : Items) {m p k fuel : ℕ},
    Stretch data d (items.nodes m p n) items.text m p → items.WellFormed .array →
    x.endIndex + 1 = m + items.size → k ≤ position → items.size < fuel →
    elementFrom d n x position fuel m k =
      some (((items.entries m p)[position - k]?).elim 0 Entry.index)
  | .last i, m, p, k, fuel, h, hw, hx, hk, hf => by
    simp only [Items.size] at hx hf
    obtain ⟨f, rfl⟩ := Nat.exists_eq_succ_of_ne_zero (n := fuel) (by omega)
    obtain ⟨h1, h2⟩ := elementFrom_item f position k hw h hx.ge
    rw [h2]
    split_ifs with hkp
    · subst hkp
      simp [Items.entries, h1]
    · have hsize : 0 < i.size := by
        obtain ⟨_ | q, v, trail⟩ := i <;> simp [Item.size, v.size_pos]
      obtain ⟨f, rfl⟩ := Nat.exists_eq_succ_of_ne_zero (n := f) (by omega)
      rw [elementFrom, if_pos (by omega), List.getElem?_eq_none (by simp [Items.entries]; omega)]
      rfl
  | .cons i gap rest, m, p, k, fuel, h, hw, hx, hk, hf => by
    simp only [Items.size] at hx hf
    obtain ⟨f, rfl⟩ := Nat.exists_eq_succ_of_ne_zero (n := fuel) (by omega)
    obtain ⟨h1, h2⟩ := elementFrom_item f position k hw.1 h.first
      (show m + i.size ≤ x.endIndex + 1 by omega)
    rw [h2]
    split_ifs with hkp
    · subst hkp
      simp [Items.entries, h1]
    · have hsize : 0 < i.size := by
        obtain ⟨_ | q, v, trail⟩ := i <;> simp [Item.size, v.size_pos]
      rw [elementFrom_items rest h.rest hw.2.2 (by omega) (by omega) (by omega), Items.entries,
        show position - k = position - (k + 1) + 1 by omega, List.getElem?_cons_succ]

/-- **`Element` finds the element of a position**, and nothing past the last one. -/
theorem element_placed (h : Placed data d u n p parent) (hk : u.kind = .arrayNode) {position : ℕ}
    (hp : 0 < position) :
    element d n position = some (((u.entries n p)[position - 1]?).elim 0 Entry.index) := by
  obtain ⟨h1, h2⟩ := h.le
  have hpos := u.size_pos
  have hc := d.count.isLt
  have hend : (u.node n p parent).endIndex + 1 = n + u.size := by
    show n + u.size - 1 + 1 = _
    omega
  unfold element
  rw [if_neg (by omega), h.node]
  simp only [Option.bind_eq_bind, Option.bind_some]
  rw [if_neg (by simpa [Value.node] using hk), if_neg (by omega)]
  cases u with
  | literal l => cases l <;> cases hk
  | string ls => cases hk
  | number ds => cases hk
  | empty form gap =>
    rw [elementFrom, if_pos (by simp only [Value.size] at hend; omega)]
    rfl
  | filled form gap items =>
    obtain rfl : form = .array := by cases form <;> trivial
    simp only [Value.size] at hend h2
    exact elementFrom_items items h.contents h.wellFormed.2.1 (by omega) hp (by omega)

/-! ### Strings and numbers -/

/-- **`String_Bytes` returns the bytes of the string**, where they fit. -/
theorem stringBytes_placed {ls : List Letter} (h : Placed data d (.string ls) n p parent)
    (capacity : ℕ) :
    stringBytes data d n capacity = some (if ls.length ≤ capacity then (lettersValue ls, .ok)
      else ((lettersValue ls).take capacity, .exhausted)) := by
  obtain ⟨h1, h2⟩ := h.le
  obtain ⟨pre, post, hd, rfl⟩ := h.text
  have hnode : d.node n = some (stringNode ls n (pre.length + 1) parent) := by
    rw [h.node, Value.node]
    simp [stringNode, Value.kind, Value.text, Value.size]
    omega
  exact stringBytes_node h.wellFormed hd (by omega) (by simp only [Value.size] at h2; omega) hnode _

/-- What a value spells: the bytes of a string, or the digits of a number. -/
def Value.spelling : Value → Option Bytes
  | .string ls => some (lettersValue ls)
  | .number ds => some ds
  | _ => none

lemma naturalNumber_string {ls : List Letter} (h : Placed data d (.string ls) n p parent) :
    naturalNumber data d n = some (if ls.length ≤ 20 then numbersParse (lettersValue ls)
      else (0, .exhausted)) := by
  have h1 := h.le
  simp only [Value.size] at h1
  unfold naturalNumber
  rw [if_neg (by omega), h.node]
  simp only [Option.bind_eq_bind, Option.bind_some]
  rw [if_pos (show ((Value.string ls).node n p parent).nodeKind = .stringNode from rfl),
    stringBytes_placed h]
  split_ifs
  · exact parse_eq _
  · rfl

lemma naturalNumber_number {ds : Bytes} (h : Placed data d (.number ds) n p parent) :
    naturalNumber data d n = some (numbersParse ds) := by
  have h1 := h.le
  simp only [Value.size] at h1
  obtain ⟨hne, -, hlen, -⟩ : Digits ds := h.wellFormed
  obtain ⟨pre, post, hd, rfl⟩ := h.text
  have hpos : 0 < ds.length := List.length_pos_iff.2 hne
  have hdlen : data.length = pre.length + ds.length + post.length := by
    rw [hd]
    simp [Value.text, Nat.add_assoc]
  have hrange : range data (pre.length + 1) (pre.length + 1 + ds.length - 1) = ds := by
    rw [hd, List.append_assoc, range_right (by omega),
      show pre.length + 1 - pre.length = 1 by omega,
      show pre.length + 1 + ds.length - 1 - pre.length = ds.length by omega]
    exact range_head rfl
  unfold naturalNumber
  rw [if_neg (by omega), h.node]
  simp only [Option.bind_eq_bind, Option.bind_some]
  rw [if_neg (by simp [Value.node, Value.kind]),
    if_pos (show ((Value.number ds).node n _ parent).nodeKind = .numberNode from rfl)]
  refine (if_neg ?_).trans ((congrArg Numbers.parse hrange).trans (parse_eq ds))
  simp only [Value.node, Value.text]
  omega

/-- **`Natural_Number` returns the number that a string or a number spells**, and fails on
everything else. -/
theorem naturalNumber_placed (h : Placed data d u n p parent) :
    ∃ c o, naturalNumber data d n = some (c, o) ∧ (o = .ok ↔ ∃ b, u.spelling = some b ∧
      Decimal b ∧ decimalValue b ≤ Counter.last ∧ (c : ℕ) = decimalValue b) := by
  have hspell : ∀ b, ((numbersParse b).2 = .ok ↔ ∃ b', some b = some b' ∧ Decimal b' ∧
      decimalValue b' ≤ Counter.last ∧ ((numbersParse b).1 : ℕ) = decimalValue b') := fun b => by
    rw [numbersParse_ok]
    refine ⟨fun h => ⟨b, rfl, h⟩, ?_⟩
    rintro ⟨b', hb, h⟩
    cases hb
    exact h
  have hother : u.kind ≠ .stringNode → u.kind ≠ .numberNode →
      naturalNumber data d n = some (0, .invalidInput) := fun hs hn => by
    have h1 := h.le
    have hpos := u.size_pos
    unfold naturalNumber
    rw [if_neg (by omega), h.node]
    simp only [Option.bind_eq_bind, Option.bind_some]
    rw [if_neg (by simpa [Value.node] using hs), if_neg (by simpa [Value.node] using hn)]
    rfl
  cases u with
  | string ls =>
    have hn := naturalNumber_string h
    by_cases hlen : ls.length ≤ 20
    · exact ⟨_, _, hn.trans (by rw [if_pos hlen]), hspell _⟩
    · -- more bytes than a number in range has
      refine ⟨0, .exhausted, hn.trans (by rw [if_neg hlen]), fun h => (by cases h), ?_⟩
      rintro ⟨b, hb, hd, hle, -⟩
      have := decimal_length hd hle
      obtain rfl : lettersValue ls = b := Option.some.inj hb
      rw [lettersValue, List.length_map] at this
      omega
  | number ds => exact ⟨_, _, naturalNumber_number h, hspell ds⟩
  | literal l =>
    refine ⟨_, _, hother ?_ ?_, fun h => (by cases h), by rintro ⟨b, ⟨⟩, _⟩⟩
    all_goals cases l <;> decide
  | empty form gap =>
    refine ⟨_, _, hother ?_ ?_, fun h => (by cases h), by rintro ⟨b, ⟨⟩, _⟩⟩
    all_goals cases form <;> rintro ⟨⟩
  | filled form gap items =>
    refine ⟨_, _, hother ?_ ?_, fun h => (by cases h), by rintro ⟨b, ⟨⟩, _⟩⟩
    all_goals cases form <;> rintro ⟨⟩

/-! ### Any document -/

lemma node_some (d : Document) {i : ℕ} (h0 : 0 < i) (hi : i ≤ maximumNodes) :
    ∃ x, d.node i = some x := by
  obtain ⟨i, rfl⟩ := Nat.exists_eq_succ_of_ne_zero (n := i) (by omega)
  exact ⟨d.nodes[i], Vector.getElem?_eq_getElem (by omega)⟩

lemma stringBytes_some (data : Bytes) (d : Document) (n capacity : ℕ) :
    ∃ r, stringBytes data d n capacity = some r := by
  unfold stringBytes
  split_ifs with h
  · exact ⟨_, rfl⟩
  · have hc := d.count.isLt
    obtain ⟨x, hx⟩ := node_some d (i := n) (by omega) (by omega)
    rw [hx]
    exact ⟨_, rfl⟩

/-- The loop of `Member` ends, since every turn goes on at a later node. -/
lemma memberFrom_ends (data : Bytes) {d : Document} (object : ℕ) {x : Node} (key : Bytes)
    {fuel i : ℕ} (h0 : 0 < i) (hfuel : 0 < fuel) (hf : x.endIndex + 1 < fuel + i) :
    ∃ j, memberFrom data d object x key fuel i = some j := by
  induction fuel generalizing i with
  | zero => omega
  | succ fuel ih =>
    have hc := d.count.isLt
    rw [memberFrom]
    by_cases h1 : x.endIndex < i
    · exact ⟨0, by rw [if_pos h1]; rfl⟩
    by_cases h2 : (d.count : ℕ) ≤ i ∨ x.endIndex ≤ i
    · exact ⟨0, by rw [if_neg h1, if_pos h2]; rfl⟩
    obtain ⟨y, hy⟩ := node_some d h0 (by omega)
    obtain ⟨v, hv⟩ := node_some d (i := i + 1) (by omega) (by omega)
    obtain ⟨⟨b, s⟩, hb⟩ := stringBytes_some data d i 256
    rw [if_neg h1, if_neg h2, hy, hv, hb]
    simp only [Option.bind_eq_bind, Option.bind_some]
    split_ifs with h3 h4 h5 h6
    iterate 4 exact ⟨_, rfl⟩
    rw [not_or, not_or] at h4
    exact ih (by omega) (by omega) (by omega)

/-- The loop of `Element` ends, since every turn goes on at a later node. -/
lemma elementFrom_ends {d : Document} (array : ℕ) {x : Node} (position : ℕ)
    (hx : x.endIndex ≤ d.count) {fuel i p : ℕ} (h0 : 0 < i) (hfuel : 0 < fuel)
    (hf : x.endIndex + 1 < fuel + i) :
    ∃ j, elementFrom d array x position fuel i p = some j := by
  induction fuel generalizing i p with
  | zero => omega
  | succ fuel ih =>
    have hc := d.count.isLt
    rw [elementFrom]
    by_cases h1 : x.endIndex < i
    · exact ⟨0, by rw [if_pos h1]; rfl⟩
    obtain ⟨v, hv⟩ := node_some d h0 (by omega)
    rw [if_neg h1, hv]
    simp only [Option.bind_eq_bind, Option.bind_some]
    split_ifs with h2 h3
    iterate 2 exact ⟨_, rfl⟩
    rw [not_or, not_or] at h2
    exact ih (by omega) (by omega) (by omega)

/-- **`Member` ends on any document**, and no index is out of its range. -/
theorem member_returns (data : Bytes) (d : Document) (object : ℕ) (key : Bytes) :
    ∃ i, member data d object key = some i := by
  unfold member
  by_cases h1 : object = 0 ∨ (d.count : ℕ) < object
  · exact ⟨0, by rw [if_pos h1]; rfl⟩
  have hc := d.count.isLt
  obtain ⟨x, hx⟩ := node_some d (i := object) (by omega) (by omega)
  rw [if_neg h1, hx]
  simp only [Option.bind_eq_bind, Option.bind_some]
  split_ifs with h2 h3
  iterate 2 exact ⟨_, rfl⟩
  exact memberFrom_ends data object key (by omega) (by omega) (by omega)

/-- **`Element` ends on any document**, and no index is out of its range. -/
theorem element_returns (d : Document) (array position : ℕ) :
    ∃ i, element d array position = some i := by
  unfold element
  by_cases h1 : array = 0 ∨ (d.count : ℕ) < array
  · exact ⟨0, by rw [if_pos h1]; rfl⟩
  have hc := d.count.isLt
  obtain ⟨x, hx⟩ := node_some d (i := array) (by omega) (by omega)
  rw [if_neg h1, hx]
  simp only [Option.bind_eq_bind, Option.bind_some]
  split_ifs with h2 h3
  iterate 2 exact ⟨_, rfl⟩
  exact elementFrom_ends array position (by omega) (by omega) (by omega) (by omega)

/-! ### The whole document -/

/-- The document of a text agrees with the tree that the text spells. -/
structure Agrees (data : Bytes) (d : Document) (lead : Bytes) (v : Value) : Prop where
  /-- The nodes are the preorder of the tree. -/
  preorder : d.list = v.nodes 1 (lead.length + 1) 0
  /-- Every node is that of a value of the tree, or of a key. -/
  located : ∀ n, 1 ≤ n → n ≤ d.count → ∃ u p parent, Located v (lead.length + 1) u n p parent
  /-- It has the container of the value, the bytes it is written with, and its last node. -/
  node : ∀ u n p parent, Located v (lead.length + 1) u n p parent →
    d.node n = some (u.node n p parent) ∧ range data p (p + u.text.length - 1) = u.text
  /-- The keys of an object are unique, and lead to their values. -/
  member : ∀ u n p parent, Located v (lead.length + 1) u n p parent → u.kind = .objectNode →
    ((u.entries n p).map Entry.name).Nodup ∧
    (∀ e ∈ u.entries n p, e.index ≠ 0 ∧
      ∃ key, e.name = some key ∧ member data d n key = some e.index) ∧
    ∀ key, (∀ e ∈ u.entries n p, e.name ≠ some key) → member data d n key = some 0
  /-- The elements of an array are found by their positions. -/
  element : ∀ u n p parent, Located v (lead.length + 1) u n p parent → u.kind = .arrayNode →
    (∀ e ∈ u.entries n p, e.index ≠ 0) ∧ ∀ position, 0 < position →
      element d n position = some (((u.entries n p)[position - 1]?).elim 0 Entry.index)
  string : ∀ ls n p parent, Located v (lead.length + 1) (.string ls) n p parent → ∀ capacity,
    stringBytes data d n capacity = some (if ls.length ≤ capacity then (lettersValue ls, .ok)
      else ((lettersValue ls).take capacity, .exhausted))
  number : ∀ u n p parent, Located v (lead.length + 1) u n p parent →
    ∃ c o, naturalNumber data d n = some (c, o) ∧ (o = .ok ↔ ∃ b, u.spelling = some b ∧
      Decimal b ∧ decimalValue b ≤ Counter.last ∧ (c : ℕ) = decimalValue b)

lemma agrees_of {lead trail : Bytes} (h : Spells data lead v trail)
    (hd : d.list = v.nodes 1 (lead.length + 1) 0) : Agrees data d lead v := by
  have hroot : Placed data d v 1 (lead.length + 1) 0 :=
    ⟨⟨⟨[], [], by simp [hd], rfl⟩, lead, trail, h.text, rfl⟩, h.value⟩
  have hindex : ∀ {u n p parent}, Located v (lead.length + 1) u n p parent →
      ∀ e ∈ u.entries n p, e.index ≠ 0 := fun hu e he => by
    have := ((hu.placed hroot).entries he).1.le
    omega
  have hcount : v.size = d.count := by rw [← d.length_list, hd, v.length_nodes]
  refine ⟨hd, fun n h1 h2 => ?_, fun u n p parent hu => ?_, fun u n p parent hu hk => ?_,
    fun u n p parent hu hk => ?_, fun ls n p parent hu => ?_, fun u n p parent hu => ?_⟩
  · exact Value.covers v .root n h1 (by omega)
  · have hp := hu.placed hroot
    refine ⟨hp.node, ?_⟩
    obtain ⟨pre, post, hdata, rfl⟩ := hp.text
    obtain ⟨b, t, hb, -⟩ := u.head_text hp.wellFormed
    have hpos : 0 < u.text.length := by simp [hb]
    rw [hdata, List.append_assoc, range_right (by omega),
      show pre.length + 1 - pre.length = 1 by omega,
      show pre.length + 1 + u.text.length - 1 - pre.length = u.text.length by omega]
    exact range_head rfl
  · have hp := hu.placed hroot
    obtain ⟨h1, h2⟩ := member_placed hp hk
    exact ⟨(hp.object hk).2.1, fun e he => ⟨hindex hu e he, h1 e he⟩, h2⟩
  · exact ⟨hindex hu, fun position hpos => element_placed (hu.placed hroot) hk hpos⟩
  · exact stringBytes_placed (hu.placed hroot)
  · exact naturalNumber_placed (hu.placed hroot)

/-- **The queries agree with the document.** A text that is accepted spells a tree whose nodes are
those of the document, and every query on it answers what the tree says; on any document at all
the two searches end, with no index out of its range. -/
theorem queries_agree (data : Bytes) :
    (∀ d, parse data = some (d, .ok) →
      ∃ lead v trail, Spells data lead v trail ∧ Agrees data d lead v) ∧
    ∀ d, (∀ object key, ∃ i, member data d object key = some i) ∧
      ∀ array position, ∃ i, element d array position = some i := by
  refine ⟨fun d h => ?_, fun d => ⟨member_returns data d, element_returns d⟩⟩
  obtain ⟨lead, v, trail, hs, hd⟩ := parse_spells h
  exact ⟨lead, v, trail, hs, agrees_of hs hd⟩

end NiayanAssurance.Json
