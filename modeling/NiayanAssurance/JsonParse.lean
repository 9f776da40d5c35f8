import NiayanAssurance.JsonReading

/-!
The parser reads exactly the grammar, and the nodes of a document are those of the tree read.
-/

namespace NiayanAssurance.Json

open NiayanAssurance.Lib NiayanAssurance.Types Attempt
open NiayanAssurance.Numbers (isDigit)

/-! ### Trees -/

mutual

lemma Value.length_nodes (v : Value) (n p q : ℕ) : (v.nodes n p q).length = v.size := by
  match v with
  | .string _ | .number _ | .literal _ | .empty _ _ => rfl
  | .filled form gap items => simp [Value.nodes, Value.size, items.length_nodes]

lemma Item.length_nodes (i : Item) (m p n : ℕ) : (i.nodes m p n).length = i.size := by
  match i with
  | .mk none v _ => simp [Item.nodes, Item.size, v.length_nodes]
  | .mk (some _) v _ => simp [Item.nodes, Item.size, v.length_nodes, Nat.add_comm]

lemma Items.length_nodes (items : Items) (m p n : ℕ) :
    (items.nodes m p n).length = items.size := by
  match items with
  | .last i => simp [Items.nodes, Items.size, i.length_nodes]
  | .cons i _ rest => simp [Items.nodes, Items.size, i.length_nodes, rest.length_nodes]

end

lemma Value.size_pos (v : Value) : 0 < v.size := by
  cases v <;> simp [Value.size]

/-- The first node of a value is in its container, and ends with the value. -/
lemma Value.nodes_head (v : Value) (n p q : ℕ) : ∃ x t, v.nodes n p q = x :: t
    ∧ x.parent = q ∧ x.endIndex + 1 = n + v.size := by
  cases v with
  | filled form gap items => exact ⟨_, _, by rw [Value.nodes], rfl, by simp [Value.size]; omega⟩
  | _ => exact ⟨_, _, by rw [Value.nodes], rfl, rfl⟩

/-- A value does not start like whitespace or like the end of a container. -/
lemma Value.head_text {v : Value} (h : v.WellFormed) : ∃ b t, v.text = b :: t
    ∧ isSpace b = false ∧ b ≠ 93#8 ∧ b ≠ 125#8 := by
  cases v with
  | string ls => exact ⟨34#8, _, by rw [Value.text]; rfl, by decide⟩
  | number ds =>
    obtain ⟨hne, hd, -, -⟩ : Digits ds := by rwa [Value.WellFormed] at h
    obtain ⟨b, t, rfl⟩ := List.exists_cons_of_ne_nil hne
    refine ⟨b, t, by rw [Value.text], ?_⟩
    have hb := hd b (List.mem_cons_self ..)
    simp only [isDigit, isSpace, Bool.decide_and, Bool.and_eq_true, decide_eq_true_eq] at hb ⊢
    simp only [decide_eq_false_iff_not]
    bv_omega
  | literal l => cases l <;> exact ⟨_, _, by rw [Value.text]; rfl, by decide⟩
  | empty form gap => cases form <;> exact ⟨_, _, by rw [Value.text]; rfl, by decide⟩
  | filled form gap items => cases form <;> exact ⟨_, _, by rw [Value.text]; rfl, by decide⟩

/-! ### Keys of an object -/

/-- The nodes `i` and `i + 1` are a key of the object `n` and its value, which ends before the
node `next`. -/
structure Pair (data : Bytes) (d : Document) (n i next : ℕ) (key : Bytes) : Prop where
  key : stringBytes data d i 256 = some (key, .ok)
  parent : ∃ x, d.node i = some x ∧ x.parent = n
  value : ∃ x, d.node (i + 1) = some x ∧ x.parent = n ∧ x.endIndex + 1 = next
  lt : i + 1 < next

/-- The nodes from `i` up to `k` are pairs, with these keys and value nodes. -/
inductive Pairs (data : Bytes) (d : Document) (n : ℕ) : ℕ → ℕ → List (Bytes × ℕ) → Prop
  | nil (k : ℕ) : Pairs data d n k k []
  | cons {i next k : ℕ} {key : Bytes} {ps : List (Bytes × ℕ)} :
      Pair data d n i next key → Pairs data d n next k ps →
      Pairs data d n i k ((key, i + 1) :: ps)

variable {data pre rest t : Bytes} {d d' : Document} {s s' : Parser} {l l' : List Node}
  {n i k next : ℕ} {key : Bytes} {ps : List (Bytes × ℕ)} {form : Form}

lemma Pairs.le (h : Pairs data d n i k ps) : i ≤ k := by
  induction h with
  | nil => exact le_rfl
  | cons h _ ih =>
    have := h.lt
    omega

/-- Nodes that are added later do not matter. -/
lemma Pairs.congr (h : Pairs data d n i k ps) (hd : ∀ j < k, d.node j = d'.node j)
    (hk : k ≤ d.count + 1) (hk' : k ≤ d'.count + 1) : Pairs data d' n i k ps := by
  induction h with
  | nil k => exact .nil k
  | @cons i next k key ps h hs ih =>
    have hlt := h.lt
    have hle := hs.le
    refine .cons ⟨?_, ?_, ?_, hlt⟩ (ih hd hk hk')
    · rw [← h.key]
      exact (stringBytes_congr (hd i (by omega)) (by omega) (by omega)).symm
    · rw [← hd i (by omega)]
      exact h.parent
    · rw [← hd (i + 1) (by omega)]
      exact h.value

lemma Pairs.snoc (h : Pairs data d n i k ps) (hp : Pair data d n k next key) :
    Pairs data d n i next (ps ++ [(key, k + 1)]) := by
  induction h with
  | nil k => exact .cons hp (.nil next)
  | cons h _ ih => exact .cons h (ih hp)

/-- The nodes of one state are nodes of the states after it. -/
lemma Stands.node_eq {pre' rest' : Bytes} (h : Stands data s l pre rest)
    (h' : Stands data s' (l ++ l') pre' rest') : ∀ j < l.length + 1, s.d.node j = s'.d.node j
  | 0, _ => rfl
  | j + 1, hj => by
    have hj : j < l.length := by omega
    rw [Document.node_list (by rw [h.list]; exact hj),
      Document.node_list (by rw [h'.list, List.length_append]; omega), h.list, h'.list,
      List.getElem?_append_left hj]

lemma Pairs.stands {pre' rest' : Bytes} (hp : Pairs data s.d n i (l.length + 1) ps)
    (h : Stands data s l pre rest) (h' : Stands data s' (l ++ l') pre' rest') :
    Pairs data s'.d n i (l.length + 1) ps :=
  hp.congr (h.node_eq h') (by rw [h.count])
    (by rw [h'.count, List.length_append]; omega)

/-- `distinct` compares with every key. -/
lemma distinct_done (h : Pairs data s.d n i k ps) (hk : ∀ p ∈ ps, p.1 ≠ key) {fuel : ℕ}
    (hf : k < fuel + i) : (distinct data key k fuel i).run s = .done () s := by
  induction h generalizing fuel with
  | nil k =>
    obtain ⟨f, rfl⟩ := Nat.exists_eq_succ_of_ne_zero (n := fuel) (by omega)
    rw [distinct, if_neg (by omega)]
    rfl
  | @cons i next k other ps h hs ih =>
    obtain ⟨x, hx, -, rfl⟩ := h.value
    have hlt := h.lt
    have hle := hs.le
    obtain ⟨f, rfl⟩ := Nat.exists_eq_succ_of_ne_zero (n := fuel) (by omega)
    rw [distinct, if_pos (by omega)]
    refine done_bind get_done ?_
    dsimp only
    rw [h.key, hx]
    have hne : key ≠ other := (hk (other, i + 1) (by simp)).symm
    exact done_bind (lift_done _) <| done_bind (require_done ⟨rfl, hne⟩) <|
      done_bind (lift_done _) <| ih (fun p hp => hk p (by simp [hp])) (by omega)

lemma ensures_distinct (h : Pairs data s.d n i k ps) {fuel : ℕ} (hf : k < fuel + i) :
    Ensures (distinct data key k fuel i) s fun _ s' => s' = s ∧ ∀ p ∈ ps, p.1 ≠ key := by
  by_cases hk : ∀ p ∈ ps, p.1 ≠ key
  · exact .of_done (distinct_done h hk hf) ⟨rfl, hk⟩
  induction h generalizing fuel with
  | nil k => simp at hk
  | @cons i next k other ps h hs ih =>
    obtain ⟨x, hx, -, rfl⟩ := h.value
    have hlt := h.lt
    have hle := hs.le
    obtain ⟨f, rfl⟩ := Nat.exists_eq_succ_of_ne_zero (n := fuel) (by omega)
    rw [distinct, if_pos (by omega)]
    refine .of_done_bind get_done ?_
    dsimp only
    rw [h.key, hx]
    refine .of_done_bind (lift_done _) <| ensures_require fun hne => .of_done_bind (lift_done _) ?_
    have hrest : ¬ ∀ p ∈ ps, p.1 ≠ key := fun hps => hk fun p hp => by
      rcases List.mem_cons.1 hp with rfl | hp
      · exact hne.2.symm
      · exact hps p hp
    exact (ih (by omega) hrest).mono fun _ s' ⟨hs, hk⟩ => absurd hk hrest

/-- The text of a key, up to its colon. -/
def Key.head (k : Key) : Bytes :=
  34#8 :: lettersText k.letters ++ 34#8 :: (k.before ++ [58#8])

lemma Key.head_append (k : Key) : k.head ++ k.after = k.text := by
  simp [Key.head, Key.text]

lemma keyRead_done {q : Key} (hq : q.WellFormed) (hlen : q.letters.length ≤ 256)
    (hs : Stands data s l pre (q.head ++ t)) (hp : Pairs data s.d n (n + 1) (l.length + 1) ps)
    (hk : ∀ p ∈ ps, p.1 ≠ lettersValue q.letters) (hl : l.length < maximumNodes) :
    ∃ s', (keyRead data n).run s = .done () s' ∧
      Stands data s' (l ++ [stringNode q.letters (l.length + 1) (pre.length + 1) n])
        (pre ++ q.head) t := by
  obtain ⟨hw, hb, -⟩ := hq
  obtain ⟨s₁, h1, hs1⟩ := stringNodeRead_done (t := q.before ++ 58#8 :: t) n hw
    (by simpa [Key.head] using hs) hl
  have hbytes := stringBytes_node hw hs1.split (Nat.succ_ne_zero l.length)
    (by rw [hs1.count]; simp) (Document.node_of_list hs1.list) 256
  rw [if_pos hlen] at hbytes
  obtain ⟨h2, hs2⟩ := space_done hs1 ⟨rfl, hb, by simp [isSpace]⟩
  have hs3 := hs2.advance (k := 1) (a := [58#8]) rfl rfl
  refine ⟨_, done_bind h1 <| done_bind get_done ?_, hs3.congr rfl (by simp [Key.head])⟩
  rw [hbytes]
  exact done_bind (lift_done _) <| done_bind (require_done rfl) <|
    done_bind (distinct_done (hp.stands hs hs1) hk (by omega)) <| done_bind h2 <|
    done_bind (peek_done hs2) <| done_bind (require_done rfl) modify_done

lemma ensures_keyRead (hs : Stands data s l pre rest)
    (hp : Pairs data s.d n (n + 1) (l.length + 1) ps) :
    Ensures (keyRead data n) s fun _ s' => ∃ (q : Key) (t : Bytes),
      (∀ a ∈ q.letters, a.WellFormed) ∧ Gap q.before ∧ q.letters.length ≤ 256 ∧
      (∀ p ∈ ps, p.1 ≠ lettersValue q.letters) ∧ rest = q.head ++ t ∧
      Stands data s' (l ++ [stringNode q.letters (l.length + 1) (pre.length + 1) n])
        (pre ++ q.head) t := by
  refine (ensures_stringNodeRead n hs).bind ?_
  rintro k s₁ ⟨ls, t, hw, rfl, rfl, hs1⟩
  have hbytes := stringBytes_node hw hs1.split (Nat.succ_ne_zero l.length)
    (by rw [hs1.count]; simp) (Document.node_of_list hs1.list) 256
  refine .of_done_bind get_done ?_
  by_cases hlen : ls.length ≤ 256
  swap
  · rw [hbytes, if_neg hlen]
    exact .of_done_bind (lift_done _) <| ensures_require fun hok => by cases hok
  have hc := s₁.d.count.isLt
  rw [hs1.count, List.length_append] at hc
  rw [hbytes, if_pos hlen]
  refine .of_done_bind (lift_done _) <| ensures_require fun _ => ?_
  refine (ensures_distinct (hp.stands hs hs1) (by omega)).bind ?_
  rintro - s₂ ⟨he, hk⟩
  rw [he]
  obtain ⟨gap, t', hrun⟩ := exists_run isSpace t
  obtain ⟨h2, hs2⟩ := space_done hs1 hrun
  refine .of_done_bind h2 <| .of_done_bind (peek_done hs2) <| ensures_require fun hcolon => ?_
  obtain ⟨t', rfl⟩ := List.head?_eq_some_iff.1 hcolon
  have hs3 := hs2.advance (k := 1) (a := [58#8]) rfl rfl
  refine .of_done modify_done ⟨⟨ls, gap, []⟩, t', hw, hrun.all, hlen, hk, ?_,
    hs3.congr rfl (by simp [Key.head])⟩
  rw [hrun.split]
  simp [Key.head]

/-! ### Items of a container -/

/-- `read` reads the values that are nested less than `levels` deep, and nothing else. -/
structure ReadsValues (data : Bytes) (read : ℕ → Attempt Parser ℕ) (levels : ℕ) : Prop where
  done : ∀ {v : Value} {s l pre gap t} (parent : ℕ), v.WellFormed → v.height < levels →
    Gap gap → (∀ b ∈ t.head?, isDigit b = false) → l.length + v.size ≤ maximumNodes →
    Stands data s l pre (gap ++ v.text ++ t) →
    ∃ s', (read parent).run s = .done (l.length + 1) s' ∧
      Stands data s' (l ++ v.nodes (l.length + 1) (pre.length + gap.length + 1) parent)
        (pre ++ gap ++ v.text) t
  ensures : ∀ {s l pre rest} (parent : ℕ), Stands data s l pre rest →
    Ensures (read parent) s fun n s' => ∃ gap v t, Gap gap ∧ Value.WellFormed v ∧
      v.height < levels ∧ rest = gap ++ v.text ++ t ∧ n = l.length + 1 ∧
      Stands data s' (l ++ v.nodes (l.length + 1) (pre.length + gap.length + 1) parent)
        (pre ++ gap ++ v.text) t

variable {read : ℕ → Attempt Parser ℕ} {levels : ℕ}

/-- The nodes of a key and of a value after it are a pair. -/
lemma Pair.of_nodes {v : Value} {q : Key} {m p r : ℕ} {z : Bytes} (hq : q.WellFormed)
    (hlen : q.letters.length ≤ 256) (h : Stretch data d
      (stringNode q.letters m p n :: v.nodes (m + 1) r n) (q.text ++ z) m p) :
    Pair data d n m (m + (v.size + 1)) (lettersValue q.letters) := by
  obtain ⟨⟨l, l', hl, rfl⟩, pre, post, hd, rfl⟩ := h
  obtain ⟨x, xs, hx, hpar, hend⟩ := v.nodes_head (l.length + 1 + 1) r n
  have hpos := v.size_pos
  have hc := d.length_list
  rw [List.append_assoc, List.cons_append] at hl
  have hkey := Document.node_of_list hl
  refine ⟨?_, ⟨_, hkey, rfl⟩, ⟨x, ?_, hpar, by omega⟩, by omega⟩
  · rw [stringBytes_node (t := q.before ++ 58#8 :: q.after ++ z ++ post) hq.1
      (by rw [hd]; simp [Key.text]) (Nat.succ_ne_zero _) ?_ hkey, if_pos hlen]
    rw [← hc, hl]
    simp
  · rw [hx, List.cons_append, List.append_cons] at hl
    have hv := Document.node_of_list hl
    rwa [List.length_append] at hv

/-- What is known where an item is read in the container `n`: `ps` are the members before it. -/
structure Within (data : Bytes) (form : Form) (n : ℕ) (ps : List (Bytes × ℕ)) (s : Parser)
    (l : List Node) (pre rest : Bytes) : Prop extends Stands data s l pre rest where
  pairs : form = .object → Pairs data s.d n (n + 1) (l.length + 1) ps

/-- The members after an item. -/
def pairsAfter (ps : List (Bytes × ℕ)) (k : ℕ) (i : Item) : List (Bytes × ℕ) :=
  ps ++ i.key.toList.map fun key => (key, k + 2)

lemma Within.item {i : Item} (h : Within data form n ps s l pre rest)
    (hi : i.WellFormed form) (hlen : ∀ key ∈ i.key, key.length ≤ 256)
    (hs : Stands data s' (l ++ i.nodes (l.length + 1) (pre.length + 1) n) (pre ++ i.text) t) :
    Within data form n (pairsAfter ps l.length i) s'
      (l ++ i.nodes (l.length + 1) (pre.length + 1) n) (pre ++ i.text) t where
  toStands := hs
  pairs hform := by
    obtain ⟨key, v, trail⟩ := i
    obtain ⟨hkey, hq, -, -⟩ := hi
    obtain ⟨q, rfl⟩ := Option.isSome_iff_exists.1 (hkey.2 hform)
    rw [Item.nodes, Item.text] at hs
    have hpair := Pair.of_nodes (z := v.text ++ trail) (hq q rfl)
      (by simpa [Item.key, lettersValue] using hlen) (hs.congr rfl (by simp)).stretch
    have hps := ((h.pairs hform).stands h.toStands hs).snoc hpair
    rw [Item.nodes, List.length_append, List.length_cons, v.length_nodes,
      Nat.add_right_comm l.length]
    exact hps

lemma itemRead_done (hr : ReadsValues data read levels) {i : Item} (hi : i.WellFormed form)
    (hh : i.height < levels) (hlen : ∀ key ∈ i.key, key.length ≤ 256)
    (hps : ∀ key ∈ i.key, ∀ p ∈ ps, p.1 ≠ key)
    (ht : ∀ b ∈ t.head?, isDigit b = false ∧ isSpace b = false)
    (hl : l.length + i.size ≤ maximumNodes)
    (h : Within data form n ps s l pre (i.text ++ t)) :
    ∃ s', (itemRead data read form n).run s = .done () s' ∧
      Stands data s' (l ++ i.nodes (l.length + 1) (pre.length + 1) n) (pre ++ i.text) t := by
  obtain ⟨key, v, trail⟩ := i
  obtain ⟨hkey, hq, hv, htrail⟩ := hi
  have hdigit : ∀ b ∈ (trail ++ t).head?, isDigit b = false := by
    intro b hb
    cases trail with
    | nil => exact (ht b hb).1
    | cons c trail =>
      obtain rfl : c = b := by simpa using hb
      have hc := htrail c (by simp)
      simp only [isSpace, isDigit, decide_eq_true_eq, decide_eq_false_iff_not] at hc ⊢
      bv_omega
  have hstop : ∀ b ∈ t.head?, isSpace b = false := fun b hb => (ht b hb).2
  have hnz : ∀ k : ℕ, k + 1 ≠ 0 := Nat.succ_ne_zero
  have hpos := v.size_pos
  cases key with
  | none =>
    have hform : form ≠ .object := fun hf => by simpa using hkey.2 hf
    obtain ⟨s₁, h1, hs1⟩ := hr.done (t := trail ++ t) n hv hh (show Gap [] by simp [Gap])
      hdigit (by simpa [Item.size] using hl) (by simpa [Item.text] using h.toStands)
    obtain ⟨h2, hs2⟩ := space_done hs1 ⟨rfl, htrail, hstop⟩
    refine ⟨_, ?_, hs2.congr (by simp [Item.nodes]) (by simp [Item.text])⟩
    unfold itemRead
    rw [if_neg hform]
    exact done_bind h1 <| done_bind (require_done (hnz _)) h2
  | some q =>
    have hform : form = .object := hkey.1 rfl
    have hsize : l.length + (1 + v.size) ≤ maximumNodes := by simpa [Item.size] using hl
    obtain ⟨s₁, h1, hs1⟩ := keyRead_done (t := q.after ++ v.text ++ (trail ++ t)) (hq q rfl)
      (by simpa [Item.key, lettersValue] using hlen)
      (by simpa [Item.text, ← Key.head_append] using h.toStands) (h.pairs hform)
      (hps _ rfl) (by omega)
    obtain ⟨s₂, h2, hs2⟩ := hr.done n hv hh (hq q rfl).2.2 hdigit
      (by rw [List.length_append, List.length_singleton]; omega) hs1
    obtain ⟨h3, hs3⟩ := space_done hs2 ⟨rfl, htrail, hstop⟩
    refine ⟨_, ?_, hs3.congr ?_ (by simp [Item.text, ← Key.head_append])⟩
    · unfold itemRead
      rw [if_pos hform]
      exact done_bind h1 <| done_bind h2 <| done_bind (require_done (hnz _)) h3
    · simp [Item.nodes, ← Key.head_append]
      congr 1
      omega

lemma ensures_itemRead (hr : ReadsValues data read levels)
    (hns : ∀ b ∈ rest.head?, isSpace b = false) (h : Within data form n ps s l pre rest) :
    Ensures (itemRead data read form n) s fun _ s' => ∃ (i : Item) (t : Bytes),
      i.WellFormed form ∧ i.height < levels ∧ (∀ key ∈ i.key, key.length ≤ 256) ∧
      (∀ key ∈ i.key, ∀ p ∈ ps, p.1 ≠ key) ∧ rest = i.text ++ t ∧
      Stands data s' (l ++ i.nodes (l.length + 1) (pre.length + 1) n) (pre ++ i.text) t := by
  unfold itemRead
  by_cases hform : form = .object
  · rw [if_pos hform]
    refine (ensures_keyRead h.toStands (h.pairs hform)).bind ?_
    rintro - s₁ ⟨⟨ls, before, after⟩, t, hw, hb, hlen, hps, rfl, hs1⟩
    refine (hr.ensures n hs1).bind ?_
    rintro v s₂ ⟨gap, v, t, hgap, hv, hh, rfl, rfl, hs2⟩
    refine ensures_require fun _ => ?_
    obtain ⟨trail, t, hrun⟩ := exists_run isSpace t
    obtain ⟨h3, hs3⟩ := space_done hs2 hrun
    refine .of_done h3 ⟨.mk (some ⟨ls, before, gap⟩) v trail, t,
      ⟨by simp [hform], ?_, hv, hrun.all⟩, hh, by simpa [Item.key, lettersValue] using hlen, ?_, ?_,
      hs3.congr ?_ ?_⟩
    · rintro q ⟨⟩
      exact ⟨hw, hb, hgap⟩
    · rintro key ⟨⟩
      exact hps
    · rw [hrun.split]
      simp [Item.text, Key.text, Key.head]
    · simp [Item.nodes, Key.text, Key.head]
      congr 1
      omega
    · simp [Item.text, Key.text, Key.head]
  · rw [if_neg hform]
    refine (hr.ensures n h.toStands).bind ?_
    rintro v s₂ ⟨gap, v, t, hgap, hv, hh, rfl, rfl, hs2⟩
    refine ensures_require fun _ => ?_
    obtain ⟨trail, t, hrun⟩ := exists_run isSpace t
    obtain ⟨h3, hs3⟩ := space_done hs2 hrun
    -- there is no whitespace left before an element
    obtain rfl : gap = [] := by
      cases gap with
      | nil => rfl
      | cons b gap => simp [hgap b (by simp)] at hns
    refine .of_done h3 ⟨.mk none v trail, t, ⟨by simp [hform], by simp, hv, hrun.all⟩, hh,
      by simp [Item.key], by simp [Item.key], ?_, hs3.congr (by simp [Item.nodes])
      (by simp [Item.text])⟩
    rw [hrun.split]
    simp [Item.text]

variable {x : Node} {kids : List Node} {items : Items}

/-- The end of the last turn of the loop. -/
lemma close_done (hs : Stands data s (l ++ x :: kids) pre (form.closeByte :: t)) :
    ∃ s', (do
        let s ← Attempt.get
        update (l.length + 1) (.closed s.pos s.d.count)
        modify (Parser.advance 1) : Attempt Parser Unit).run s = .done () s' ∧
      Stands data s' (l ++ x.closed (pre.length + 1) (l ++ x :: kids).length :: kids)
        (pre ++ [form.closeByte]) t := by
  obtain ⟨h1, hs1⟩ := update_done hs (.closed (pre.length + 1) (l ++ x :: kids).length)
  refine ⟨_, done_bind get_done ?_, hs1.advance (k := 1) rfl rfl⟩
  rw [hs.pos, hs.count]
  exact done_bind h1 modify_done

/-- The state in which the next item is read. -/
lemma Within.comma {gap : Bytes} (h : Within data form n ps s l pre (44#8 :: t))
    (hrun : Run isSpace t gap rest) :
    (space data).run (s.advance 1) = .done () ((s.advance 1).advance gap.length) ∧
      Within data form n ps ((s.advance 1).advance gap.length) l (pre ++ 44#8 :: gap) rest := by
  have hs1 := h.toStands.advance (k := 1) (a := [44#8]) rfl rfl
  obtain ⟨h2, hs2⟩ := space_done hs1 hrun
  exact ⟨h2, hs2.congr rfl (by simp), h.pairs⟩

lemma Items.keys_last (i : Item) : (Items.last i).keys = i.key.toList := rfl

lemma Items.keys_cons (i : Item) (gap : Bytes) (rest : Items) :
    (Items.cons i gap rest).keys = i.key.toList ++ rest.keys := rfl

/-- The first byte of an item is no whitespace. -/
lemma Items.head_text (h : items.WellFormed form) :
    ∃ b t, items.text = b :: t ∧ isSpace b = false ∧ b ≠ form.closeByte := by
  have hitem : ∀ i : Item, i.WellFormed form →
      ∃ b t, i.text = b :: t ∧ isSpace b = false ∧ b ≠ form.closeByte := by
    rintro ⟨_ | q, v, trail⟩ ⟨-, -, hv, -⟩
    · obtain ⟨b, t, hb, h1, h2, h3⟩ := v.head_text hv
      refine ⟨b, t ++ trail, by simp [Item.text, hb], h1, ?_⟩
      cases form
      · exact h3
      · exact h2
    · exact ⟨34#8, _, by rw [Item.text]; rfl, by cases form <;> decide⟩
  cases items with
  | last i => exact hitem i h
  | cons i gap rest =>
    obtain ⟨b, t, hb, h1⟩ := hitem i h.1
    exact ⟨b, _, by rw [Items.text, hb]; rfl, h1⟩

lemma closed_congr {kids' : List Node} {a a' b b' : ℕ} (ha : a = a') (hb : b = b')
    (hk : kids = kids') : l ++ x.closed a b :: kids = l ++ x.closed a' b' :: kids' := by
  rw [ha, hb, hk]

/-- The nodes of a container whose first item is `i`. -/
lemma cons_closed (i : Item) (items : Items) {gap : Bytes} :
    l ++ x.closed ((pre ++ i.text ++ 44#8 :: gap).length + items.text.length + 1)
        ((l ++ x :: (kids ++
          i.nodes ((l ++ x :: kids).length + 1) (pre.length + 1) (l.length + 1))).length +
          items.size) ::
        (kids ++ i.nodes ((l ++ x :: kids).length + 1) (pre.length + 1) (l.length + 1) ++
          items.nodes ((l ++ x :: (kids ++
            i.nodes ((l ++ x :: kids).length + 1) (pre.length + 1) (l.length + 1))).length + 1)
            ((pre ++ i.text ++ 44#8 :: gap).length + 1) (l.length + 1)) =
      l ++ x.closed (pre.length + (Items.cons i gap items).text.length + 1)
        ((l ++ x :: kids).length + (Items.cons i gap items).size) ::
        (kids ++ (Items.cons i gap items).nodes ((l ++ x :: kids).length + 1) (pre.length + 1)
          (l.length + 1)) := by
  refine closed_congr (by simp [Items.text]; omega)
    (by simp [Items.size, i.length_nodes]; omega) ?_
  rw [Items.nodes, List.append_assoc]
  congr 2
  congr 1
  · simp [i.length_nodes]
    omega
  · simp
    omega

lemma itemsRead_done (hr : ReadsValues data read levels) :
    ∀ (items : Items) {fuel : ℕ} {s : Parser} {x : Node} {kids : List Node} {pre t : Bytes}
      {ps : List (Bytes × ℕ)}, items.WellFormed form → items.height < levels →
      (∀ key ∈ items.keys, key.length ≤ 256) → items.keys.Nodup →
      (∀ key ∈ items.keys, ∀ p ∈ ps, p.1 ≠ key) →
      (l ++ x :: kids).length + items.size ≤ maximumNodes → items.text.length < fuel →
      Within data form (l.length + 1) ps s (l ++ x :: kids) pre
        (items.text ++ form.closeByte :: t) →
      ∃ s', (itemsRead data read form (l.length + 1) fuel).run s = .done () s' ∧
        Stands data s' (l ++ x.closed (pre.length + items.text.length + 1)
          ((l ++ x :: kids).length + items.size) :: (kids ++
            items.nodes ((l ++ x :: kids).length + 1) (pre.length + 1) (l.length + 1)))
          (pre ++ items.text ++ [form.closeByte]) t
  | .last i, fuel + 1, s, x, kids, pre, t, ps, hi, hh, hlen, hnd, hps, hl, hf, h => by
    obtain ⟨s₁, h1, hs1⟩ := itemRead_done hr hi hh (by simpa [Items.keys_last] using hlen)
      (by simpa [Items.keys_last] using hps)
      (fun b hb => by cases form <;> cases hb <;> decide) hl h
    rw [List.append_assoc, List.cons_append] at hs1
    obtain ⟨s₂, h2, hs2⟩ := close_done hs1
    refine ⟨s₂, done_bind h1 <| done_bind (peek_done hs1) ?_, hs2.congr ?_ rfl⟩
    · rw [List.head?_cons, if_pos rfl]
      exact h2
    exact closed_congr (by simp [Items.text]) (by simp [Items.size, i.length_nodes]; omega) rfl
  | .cons i gap rest, fuel + 1, s, x, kids, pre, t, ps, hi, hh, hlen, hnd, hps, hl, hf, h => by
    obtain ⟨hi, hgap, hrest⟩ := hi
    simp only [Items.height, Items.size, Items.text, max_lt_iff, List.length_append,
      List.length_cons] at hh hl hf
    rw [Items.keys_cons] at hlen hnd hps
    obtain ⟨-, hnd', hdis⟩ := List.nodup_append.1 hnd
    have hile : ∀ key ∈ i.key, key.length ≤ 256 := fun k hk =>
      hlen k (List.mem_append_left _ (Option.mem_toList.2 hk))
    have htext : (Items.cons i gap rest).text ++ form.closeByte :: t
        = i.text ++ 44#8 :: (gap ++ (rest.text ++ form.closeByte :: t)) := by simp [Items.text]
    rw [htext] at h
    -- the item, the comma, and the items after it
    obtain ⟨s₁, h1, hs1⟩ := itemRead_done hr hi hh.1 hile
      (fun k hk => hps k (List.mem_append_left _ (Option.mem_toList.2 hk)))
      (fun b hb => by cases hb; decide)
      (by simp only [List.length_append, List.length_cons]; omega) h
    obtain ⟨b, t', hb, hsp, -⟩ := rest.head_text hrest
    obtain ⟨h2, hw2⟩ := (h.item hi hile hs1).comma
      (show Run isSpace _ gap _ from ⟨rfl, hgap, by simp [hb, hsp]⟩)
    rw [List.append_assoc, List.cons_append] at hw2
    obtain ⟨s₃, h3, hs3⟩ := itemsRead_done hr rest hrest hh.2
      (fun k hk => hlen k (by simp [hk])) hnd'
      (fun k hk p hp => by
        rcases List.mem_append.1 hp with hp | hp
        · exact hps k (by simp [hk]) p hp
        · obtain ⟨key, hkey, rfl⟩ := List.mem_map.1 hp
          exact hdis key hkey k hk)
      (by simp only [List.length_append, List.length_cons, i.length_nodes]; omega)
      (show rest.text.length < fuel by omega) hw2
    have hne : (44#8 : Byte) ≠ form.closeByte := by cases form <;> decide
    refine ⟨s₃, done_bind h1 <| done_bind (peek_done hs1) ?_, hs3.congr ?_ ?_⟩
    · rw [List.head?_cons, if_neg (by simpa using hne)]
      exact done_bind (require_done rfl) <| done_bind modify_done <| done_bind h2 h3
    · exact cons_closed i rest
    · simp [Items.text]

lemma ensures_itemsRead (hr : ReadsValues data read levels) {fuel : ℕ}
    (hns : ∀ b ∈ rest.head?, isSpace b = false) (hf : rest.length < fuel)
    (h : Within data form (l.length + 1) ps s (l ++ x :: kids) pre rest) :
    Ensures (itemsRead data read form (l.length + 1) fuel) s fun _ s' =>
      ∃ (items : Items) (t : Bytes), items.WellFormed form ∧ items.height < levels ∧
        (∀ key ∈ items.keys, key.length ≤ 256) ∧ items.keys.Nodup ∧
        (∀ key ∈ items.keys, ∀ p ∈ ps, p.1 ≠ key) ∧
        rest = items.text ++ form.closeByte :: t ∧
        Stands data s' (l ++ x.closed (pre.length + items.text.length + 1)
          ((l ++ x :: kids).length + items.size) :: (kids ++
            items.nodes ((l ++ x :: kids).length + 1) (pre.length + 1) (l.length + 1)))
          (pre ++ items.text ++ [form.closeByte]) t := by
  induction fuel generalizing s kids pre rest ps with
  | zero => omega
  | succ fuel ih =>
    refine (ensures_itemRead hr hns h).bind ?_
    rintro - s₁ ⟨i, t, hi, hh, hlen, hps, rfl, hs1⟩
    have hnd : i.key.toList.Nodup := by cases i.key <;> simp
    refine .of_done_bind (peek_done hs1) ?_
    by_cases hb : t.head? = some form.closeByte
    · -- the container is closed
      obtain ⟨t, rfl⟩ := List.head?_eq_some_iff.1 hb
      rw [List.append_assoc, List.cons_append] at hs1
      obtain ⟨s₂, h2, hs2⟩ := close_done hs1
      rw [if_pos hb]
      refine .of_done h2 ⟨.last i, t, hi, hh, by simpa [Items.keys_last] using hlen,
        by rw [Items.keys_last]; exact hnd, by simpa [Items.keys_last] using hps, rfl,
        hs2.congr ?_ rfl⟩
      exact closed_congr (by simp [Items.text]) (by simp [Items.size, i.length_nodes]; omega) rfl
    · rw [if_neg hb]
      refine ensures_require fun hcomma => ?_
      obtain ⟨t, rfl⟩ := List.head?_eq_some_iff.1 hcomma
      obtain ⟨gap, t', hrun⟩ := exists_run isSpace t
      obtain ⟨h2, hw2⟩ := (h.item hi hlen hs1).comma hrun
      rw [List.append_assoc, List.cons_append] at hw2
      have hlt := congrArg List.length hrun.split
      simp only [List.length_append, List.length_cons] at hf hlt
      refine .of_done_bind modify_done <| .of_done_bind h2 <|
        (ih hrun.stop (by omega) hw2).mono ?_
      rintro - s₃ ⟨items, t, hitems, hh', hlen', hnd', hps', rfl, hs3⟩
      have hdis : ∀ key ∈ i.key, ∀ key' ∈ items.keys, key ≠ key' := fun key hk key' hk' =>
        hps' key' hk' (key, _) (List.mem_append_right _
          (List.mem_map.2 ⟨key, Option.mem_toList.2 hk, rfl⟩))
      refine ⟨.cons i gap items, t, ⟨hi, hrun.all, hitems⟩, max_lt hh hh', ?_, ?_, ?_, ?_,
        hs3.congr (cons_closed i items) (by simp [Items.text])⟩
      · rw [Items.keys_cons]
        rintro key hk
        rcases List.mem_append.1 hk with hk | hk
        · exact hlen key (Option.mem_toList.1 hk)
        · exact hlen' key hk
      · rw [Items.keys_cons]
        exact List.nodup_append.2 ⟨hnd, hnd', fun key hk => hdis key (Option.mem_toList.1 hk)⟩
      · rw [Items.keys_cons]
        rintro key hk p hp
        rcases List.mem_append.1 hk with hk | hk
        · exact hps key (Option.mem_toList.1 hk) p hp
        · exact hps' key hk p (List.mem_append_left _ hp)
      · rw [hrun.split]
        simp [Items.text]

/-! ### Values -/

/-- Where an item could start, there is no member yet. -/
lemma Within.start {n parent : ℕ} {k : Kind}
    (hs : Stands data s (l ++ [fresh k (l.length + 1) n parent]) pre rest) :
    Within data form (l.length + 1) [] s (l ++ [fresh k (l.length + 1) n parent]) pre rest where
  toStands := hs
  pairs _ := by
    rw [List.length_append, List.length_singleton]
    exact .nil _

lemma containerRead_empty (read : ℕ → Attempt Parser ℕ) {gap : Bytes} (parent : ℕ) (hgap : Gap gap)
    (hs : Stands data s l pre ((Value.empty form gap).text ++ t)) (hl : l.length < maximumNodes) :
    ∃ s', (containerRead data read form parent).run s = .done (l.length + 1) s' ∧
      Stands data s' (l ++ (Value.empty form gap).nodes (l.length + 1) (pre.length + 1) parent)
        (pre ++ (Value.empty form gap).text) t := by
  obtain ⟨s₁, h1, hs1⟩ := add_done form.kind parent hs hl
  have hs2 := hs1.advance (k := 1) (a := [form.openByte]) (t := gap ++ form.closeByte :: t)
    (by simp [Value.text]) rfl
  have hne : isSpace form.closeByte = false := by cases form <;> decide
  obtain ⟨h3, hs3⟩ := space_done hs2 ⟨rfl, hgap, by simp [hne]⟩
  obtain ⟨h4, hs4⟩ := update_done hs3 (.upTo (pre.length + 1 + gap.length + 1))
  have hpos : ((s₁.advance 1).advance gap.length).pos = pre.length + 1 + gap.length + 1 := by
    rw [hs3.pos]
    simp
    omega
  refine ⟨_, done_bind h1 <| done_bind modify_done <| done_bind h3 <|
    done_bind (peek_done hs3) ?_, (hs4.advance (k := 1) (a := [form.closeByte]) rfl rfl).congr rfl
      (by simp [Value.text])⟩
  rw [List.head?_cons, if_pos rfl]
  refine done_bind get_done ?_
  rw [hpos]
  exact done_bind h4 <| done_bind modify_done rfl

lemma filled_nodes (gap : Bytes) (parent : ℕ) :
    l ++ (fresh form.kind (l.length + 1) (pre.length + 1) parent).closed
        ((pre ++ [form.openByte] ++ gap).length + items.text.length + 1)
        ((l ++ [fresh form.kind (l.length + 1) (pre.length + 1) parent]).length + items.size) ::
        ([] ++ items.nodes
          ((l ++ [fresh form.kind (l.length + 1) (pre.length + 1) parent]).length + 1)
          ((pre ++ [form.openByte] ++ gap).length + 1) (l.length + 1)) =
      l ++ (Value.filled form gap items).nodes (l.length + 1) (pre.length + 1) parent := by
  simp only [List.length_append, List.length_singleton, List.nil_append, Value.nodes, Node.closed,
    fresh, Nat.add_right_comm _ gap.length 1]

lemma containerRead_filled (hr : ReadsValues data read levels) {gap : Bytes} (parent : ℕ)
    (hv : (Value.filled form gap items).WellFormed) (hh : items.height < levels)
    (hs : Stands data s l pre ((Value.filled form gap items).text ++ t))
    (hl : l.length + (items.size + 1) ≤ maximumNodes) :
    ∃ s', (containerRead data read form parent).run s = .done (l.length + 1) s' ∧
      Stands data s'
        (l ++ (Value.filled form gap items).nodes (l.length + 1) (pre.length + 1) parent)
        (pre ++ (Value.filled form gap items).text) t := by
  obtain ⟨hgap, hitems, hlen, hnd⟩ := hv
  obtain ⟨s₁, h1, hs1⟩ := add_done form.kind parent hs (by omega)
  have hs2 := hs1.advance (k := 1) (a := [form.openByte])
    (t := gap ++ (items.text ++ form.closeByte :: t)) (by simp [Value.text]) rfl
  obtain ⟨b, t', hb, hsp, hne⟩ := items.head_text hitems
  obtain ⟨h3, hs3⟩ := space_done hs2 ⟨rfl, hgap, by simp [hb, hsp]⟩
  have hfuel : items.text.length < data.length + 1 := by
    rw [hs3.split]
    simp
    omega
  obtain ⟨s₄, h4, hs4⟩ := itemsRead_done hr items hitems hh hlen hnd
    (by simp) (by simp; omega) hfuel (Within.start hs3)
  refine ⟨s₄, done_bind h1 <| done_bind modify_done <| done_bind h3 <|
    done_bind (peek_done hs3) ?_, hs4.congr ?_ (by simp [Value.text])⟩
  · rw [hb, List.cons_append, List.head?_cons, if_neg (by simpa using hne)]
    exact done_bind h4 rfl
  · exact filled_nodes gap parent

lemma ensures_containerRead (hr : ReadsValues data read levels) (parent : ℕ)
    (hs : Stands data s l pre (form.openByte :: rest)) :
    Ensures (containerRead data read form parent) s fun n s' => ∃ (v : Value) (t : Bytes),
      v.WellFormed ∧ v.height < levels + 1 ∧ form.openByte :: rest = v.text ++ t ∧
      n = l.length + 1 ∧
      Stands data s' (l ++ v.nodes (l.length + 1) (pre.length + 1) parent) (pre ++ v.text) t := by
  obtain ⟨gap, t, hrun⟩ := exists_run isSpace rest
  obtain rfl := hrun.split
  -- an empty container is read as such; of any other the items are read
  by_cases hex : l.length < maximumNodes ∧ t.head? = some form.closeByte
  · obtain ⟨hl, hb⟩ := hex
    obtain ⟨t, rfl⟩ := List.head?_eq_some_iff.1 hb
    have htext : form.openByte :: (gap ++ form.closeByte :: t)
        = (Value.empty form gap).text ++ t := by
      simp [Value.text]
    obtain ⟨s', h1, h2⟩ := containerRead_empty read parent hrun.all (htext ▸ hs) hl
    exact .of_done h1 ⟨.empty form gap, t, hrun.all, Nat.succ_pos _, htext, rfl, h2⟩
  · refine (ensures_add form.kind parent hs).bind ?_
    rintro n s₁ ⟨rfl, hl, hs1⟩
    have hs2 := hs1.advance (k := 1) (a := [form.openByte]) rfl rfl
    obtain ⟨h3, hs3⟩ := space_done hs2 hrun
    refine .of_done_bind modify_done <| .of_done_bind h3 <| .of_done_bind (peek_done hs3) ?_
    rw [if_neg fun hb => hex ⟨hl, hb⟩]
    have hfuel : t.length < data.length + 1 := by
      rw [hs3.split]
      simp
      omega
    refine (ensures_itemsRead hr hrun.stop hfuel (Within.start hs3)).bind ?_
    rintro - s₄ ⟨items, t, hitems, hh, hlen, hnd, -, rfl, hs4⟩
    exact ensures_pure ⟨.filled form gap items, t, ⟨hrun.all, hitems, hlen, hnd⟩,
      Nat.succ_lt_succ hh, by simp [Value.text], rfl,
      hs4.congr (filled_nodes gap parent) (by simp [Value.text])⟩

lemma valueStart_done (hr : ReadsValues data read levels) {v : Value} {b : Byte} {t' : Bytes}
    (parent : ℕ) (hv : v.WellFormed) (hh : v.height < levels + 1) (hb : v.text = b :: t')
    (ht : ∀ b ∈ t.head?, isDigit b = false) (hl : l.length + v.size ≤ maximumNodes)
    (hs : Stands data s l pre (v.text ++ t)) :
    ∃ s', (valueStart data read parent b).run s = .done (l.length + 1) s' ∧
      Stands data s' (l ++ v.nodes (l.length + 1) (pre.length + 1) parent) (pre ++ v.text) t := by
  have hlt : l.length < maximumNodes := by
    have := v.size_pos
    omega
  cases v with
  | string ls =>
    obtain rfl : 34#8 = b := (List.cons.inj hb).1
    exact stringNodeRead_done parent hv (by simpa [Value.text] using hs) hlt
  | number ds =>
    have hd : isDigit b = true := hv.2.1 b (by
      rw [show ds = b :: t' from hb]
      exact List.mem_cons_self ..)
    have hne : b ≠ 34#8 ∧ b ≠ 123#8 ∧ b ≠ 91#8 := by
      simp only [isDigit, decide_eq_true_eq] at hd
      bv_omega
    rw [valueStart, if_neg hne.1, if_neg hne.2.1, if_neg hne.2.2, if_pos hd]
    exact numberRead_done parent hv hs ht hlt
  | literal lit =>
    obtain rfl : Literal.ofByte b = lit := by cases lit <;> cases hb <;> rfl
    have hne : b ≠ 34#8 ∧ b ≠ 123#8 ∧ b ≠ 91#8 ∧ ¬ isDigit b = true := by
      revert hb
      generalize Literal.ofByte b = lit
      cases lit <;> rintro ⟨⟩ <;> decide
    rw [valueStart, if_neg hne.1, if_neg hne.2.1, if_neg hne.2.2.1, if_neg hne.2.2.2]
    exact literalRead_done _ parent hs hlt
  | empty form gap =>
    have h := containerRead_empty read parent hv hs hlt
    cases form <;> cases hb <;> exact h
  | filled form gap items =>
    have h := containerRead_filled hr parent hv (Nat.lt_of_succ_lt_succ hh) hs hl
    cases form <;> cases hb <;> exact h

lemma ensures_valueStart (hr : ReadsValues data read levels) {b : Byte} (parent : ℕ)
    (hs : Stands data s l pre (b :: rest)) :
    Ensures (valueStart data read parent b) s fun n s' => ∃ (v : Value) (t : Bytes),
      v.WellFormed ∧ v.height < levels + 1 ∧ b :: rest = v.text ++ t ∧ n = l.length + 1 ∧
      Stands data s' (l ++ v.nodes (l.length + 1) (pre.length + 1) parent) (pre ++ v.text) t := by
  unfold valueStart
  split_ifs with h1 h2 h3 h4
  · refine (ensures_stringNodeRead parent hs).mono ?_
    rintro n s' ⟨ls, t, hls, hrest, hn, hs'⟩
    exact ⟨.string ls, t, hls, Nat.succ_pos _, by rw [hrest]; simp [Value.text], hn, hs'⟩
  · subst h2
    exact ensures_containerRead hr parent hs
  · subst h3
    exact ensures_containerRead hr parent hs
  · refine (ensures_numberRead parent hs ⟨b, rfl, h4⟩).mono ?_
    rintro n s' ⟨ds, t, hds, hrest, hn, hs'⟩
    exact ⟨.number ds, t, hds, Nat.succ_pos _, hrest, hn, hs'⟩
  · refine (ensures_literalRead (.ofByte b) parent hs).mono ?_
    rintro n s' ⟨t, hrest, hn, hs'⟩
    exact ⟨.literal (.ofByte b), t, trivial, Nat.succ_pos _, hrest, hn, hs'⟩

/-- **The parser reads values and nothing else**, up to the depth that it allows. -/
theorem valueRead_reads (data : Bytes) : ∀ levels, ReadsValues data (valueRead data levels) levels
  | 0 => ⟨fun _ _ hh => absurd hh (Nat.not_lt_zero _), fun parent hs => by
      obtain ⟨gap, t, hrun⟩ := exists_run isSpace _
      exact .of_done_bind (space_done hs hrun).1 ensures_refuse⟩
  | levels + 1 => by
    have hr := valueRead_reads data levels
    constructor
    · intro v s l pre gap t parent hv hh hgap ht hl hs
      obtain ⟨b, t', hb, hsp, -⟩ := v.head_text hv
      obtain ⟨h1, hs1⟩ := space_done hs (a := gap) (t := v.text ++ t)
        ⟨by rw [List.append_assoc], hgap, by simp [hb, hsp]⟩
      obtain ⟨s', h2, hs2⟩ := valueStart_done hr parent hv hh hb ht hl hs1
      refine ⟨s', done_bind h1 <| done_bind (peek_done hs1) ?_, hs2.congr ?_ rfl⟩
      · rw [hb]
        exact h2
      · rw [List.length_append]
    · intro s l pre rest parent hs
      obtain ⟨gap, t, hrun⟩ := exists_run isSpace rest
      obtain ⟨h1, hs1⟩ := space_done hs hrun
      obtain rfl := hrun.split
      refine .of_done_bind h1 <| .of_done_bind (peek_done hs1) ?_
      cases t with
      | nil => exact ensures_refuse
      | cons b t =>
        refine (ensures_valueStart hr parent hs1).mono ?_
        rintro n s' ⟨v, t, hv, hh, hrest, hn, hs'⟩
        exact ⟨gap, v, t, hrun.all, hv, hh, by rw [hrest, List.append_assoc], hn,
          hs'.congr (by rw [List.length_append]) rfl⟩

/-! ### The whole text -/

lemma stands_start (data : Bytes) : Stands data { pos := 1, d := {} } [] [] data :=
  ⟨rfl, rfl, by simp [Document.list]⟩

/-- A text that the grammar spells is read to its end. -/
lemma parseRead_done {lead trail : Bytes} {v : Value} (h : Spells data lead v trail) :
    ∃ s', (parseRead data).run { pos := 1, d := {} } = .done 1 s' ∧
      Stands data s' (v.nodes 1 (lead.length + 1) 0) data [] := by
  have hdigit : ∀ b ∈ trail.head?, isDigit b = false := by
    intro b hb
    have hsp := h.trail b (List.mem_of_mem_head? hb)
    simp only [isSpace, isDigit, decide_eq_true_eq, decide_eq_false_iff_not] at hsp ⊢
    bv_omega
  have hs : Stands data { pos := 1, d := {} } [] [] (lead ++ v.text ++ trail) := by
    rw [← h.text]
    exact stands_start data
  obtain ⟨s₁, h1, hs1⟩ := (valueRead_reads data 25).done 0 h.value (Nat.lt_succ_of_le h.height)
    h.lead hdigit (by simpa using h.size) hs
  obtain ⟨h2, hs2⟩ := space_done hs1 (a := trail) (t := [])
    ⟨(List.append_nil _).symm, h.trail, by simp⟩
  exact ⟨_, done_bind h1 <| done_bind h2 rfl, hs2.congr (by simp) (by simp [h.text])⟩

lemma ensures_parseRead (data : Bytes) :
    Ensures (parseRead data) { pos := 1, d := {} } fun n s' => ∃ lead v trail t,
      Gap lead ∧ Gap trail ∧ Value.WellFormed v ∧ v.height ≤ 24 ∧ n = 1 ∧
      Stands data s' (v.nodes 1 (lead.length + 1) 0) (lead ++ v.text ++ trail) t := by
  refine ((valueRead_reads data 25).ensures 0 (stands_start data)).bind ?_
  rintro n s₁ ⟨lead, v, t, hlead, hv, hh, -, rfl, hs1⟩
  obtain ⟨trail, t, hrun⟩ := exists_run isSpace t
  obtain ⟨h2, hs2⟩ := space_done hs1 hrun
  exact .of_done_bind h2 <| ensures_pure ⟨lead, v, trail, t, hlead, hrun.all, hv,
    Nat.le_of_lt_succ hh, rfl, hs2.congr (by simp) (by simp)⟩

/-- What the grammar spells is accepted. -/
theorem parse_done {lead trail : Bytes} {v : Value} (h : Spells data lead v trail) :
    ∃ d, parse data = some (d, .ok) ∧ d.list = v.nodes 1 (lead.length + 1) 0 := by
  obtain ⟨s', h1, hs⟩ := parseRead_done h
  refine ⟨s'.d, ?_, hs.list⟩
  have hlen := h.length
  rw [parse, if_neg (by omega), h1]
  dsimp only
  rw [if_pos ⟨hs.pos, rfl⟩]

/-- What is accepted is spelt by the grammar. -/
theorem parse_spells {d : Document} (h : parse data = some (d, .ok)) :
    ∃ lead v trail, Spells data lead v trail ∧ d.list = v.nodes 1 (lead.length + 1) 0 := by
  have hens := ensures_parseRead data
  by_cases hlen : data.length = 0 ∨ 262144 < data.length
  · rw [parse, if_pos hlen] at h
    cases h
  rw [parse, if_neg hlen] at h
  cases hrun : (parseRead data).run { pos := 1, d := {} } with
  | refused s => simp [hrun] at h
  | raised => simp [hrun] at h
  | done n s =>
    obtain ⟨lead, v, trail, t, hlead, htrail, hv, hh, rfl, hs⟩ := hens.done hrun
    simp only [hrun, Option.some.injEq, Prod.mk.injEq] at h
    obtain ⟨rfl, hok⟩ := h
    have hpos : s.pos = data.length + 1 := by
      by_contra hne
      simp [hne] at hok
    -- nothing is left after the value
    obtain rfl : t = [] := by
      have hsplit := congrArg List.length hs.split
      rw [hs.pos] at hpos
      rw [List.length_append] at hsplit
      exact List.length_eq_zero_iff.1 (by omega)
    have hsize := s.d.count.isLt
    rw [hs.count, v.length_nodes] at hsize
    exact ⟨lead, v, trail, ⟨by simpa using hs.split, by omega, hlead, htrail, hv, hh, by omega⟩,
      hs.list⟩

/-- `Parse` never raises. -/
theorem parse_returns (data : Bytes) : ∃ d o, parse data = some (d, o) := by
  have hne := (ensures_parseRead data).not_raised
  unfold parse
  split_ifs
  · exact ⟨_, _, rfl⟩
  · cases hrun : (parseRead data).run { pos := 1, d := {} } with
    | done n s => exact ⟨_, _, rfl⟩
    | refused s => exact ⟨_, _, rfl⟩
    | raised => exact absurd hrun hne

/-- **`Parse` accepts exactly the grammar**: it always returns, and with `OK` just where the text
is one value between optional whitespace within the bounds. -/
theorem parse_accepts (data : Bytes) : (∃ d o, parse data = some (d, o)) ∧
    ((∃ d, parse data = some (d, .ok)) ↔ ∃ lead v trail, Spells data lead v trail) := by
  refine ⟨parse_returns data, fun ⟨d, h⟩ => ?_, fun ⟨lead, v, trail, h⟩ => ?_⟩
  · obtain ⟨lead, v, trail, hs, -⟩ := parse_spells h
    exact ⟨lead, v, trail, hs⟩
  · obtain ⟨d, hd, -⟩ := parse_done h
    exact ⟨d, hd⟩

end NiayanAssurance.Json
