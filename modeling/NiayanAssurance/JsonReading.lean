import NiayanAssurance.JsonGrammar
import Mathlib.Data.List.TakeWhile
import Mathlib.Tactic.Set

/-!
What the parser reads, tree by tree: the leaves of the grammar, and the nodes it adds for them.
-/

namespace NiayanAssurance.Json

open NiayanAssurance.Lib NiayanAssurance.Types Attempt
open NiayanAssurance.Numbers (isDigit)

/-! ### The nodes of a document -/

/-- The nodes that are in use. -/
def Document.list (d : Document) : List Node := d.nodes.toList.take d.count

variable {d d' : Document}

@[simp] lemma Document.length_list (d : Document) : d.list.length = d.count := by
  have h := d.count.isLt
  simp [Document.list]
  omega

lemma Document.node_list {i : ℕ} (h : i < d.list.length) : d.node (i + 1) = d.list[i]? := by
  rw [d.length_list] at h
  show d.nodes[i]? = _
  rw [Document.list, List.getElem?_take_of_lt h, Vector.getElem?_toList]

lemma Document.node_of_list {l l' : List Node} {x : Node} (h : d.list = l ++ x :: l') :
    d.node (l.length + 1) = some x := by
  rw [Document.node_list (by simp [h]), h, List.getElem?_append_right le_rfl]
  simp

/-- The parser stands between `pre` and `rest`, and has added the nodes `l`. -/
structure Stands (data : Bytes) (s : Parser) (l : List Node) (pre rest : Bytes) : Prop where
  split : data = pre ++ rest
  pos : s.pos = pre.length + 1
  list : s.d.list = l

variable {data pre rest : Bytes} {s : Parser} {l l' : List Node} {x : Node}

namespace Stands

lemma rest_eq (h : Stands data s l pre rest) : s.rest data = rest := by
  rw [Parser.rest, h.pos, Nat.add_sub_cancel, h.split, List.drop_left]

lemma count (h : Stands data s l pre rest) : (s.d.count : ℕ) = l.length := by
  rw [← Document.length_list, h.list]

lemma advance {a t : Bytes} (h : Stands data s l pre rest) {k : ℕ} (hr : rest = a ++ t)
    (hk : k = a.length) : Stands data (s.advance k) l (pre ++ a) t where
  split := by rw [h.split, hr, List.append_assoc]
  pos := by
    show s.pos + k = _
    rw [h.pos, hk, List.length_append]
    omega
  list := h.list

lemma congr {pre' : Bytes} (h : Stands data s l pre rest) (hl : l = l') (hp : pre = pre') :
    Stands data s l' pre' rest := hl ▸ hp ▸ h

end Stands

/-- The nodes `ns` are in the document from node `n` on, and `text` is in the text from the byte
`p` on. -/
structure Stretch (data : Bytes) (d : Document) (ns : List Node) (text : Bytes) (n p : ℕ) :
    Prop where
  nodes : ∃ l l', d.list = l ++ ns ++ l' ∧ n = l.length + 1
  text : ∃ pre post, data = pre ++ text ++ post ∧ p = pre.length + 1

lemma Stretch.sub {ns a b c : List Node} {text x y z : Bytes} {n m p q : ℕ}
    (h : Stretch data d ns text n p)
    (hn : ns = a ++ b ++ c) (ht : text = x ++ y ++ z) (hm : m = n + a.length)
    (hq : q = p + x.length) : Stretch data d b y m q := by
  obtain ⟨⟨l, l', hl, hn'⟩, pre, post, hd, hp⟩ := h
  subst hn ht hm hq
  exact ⟨⟨l ++ a, c ++ l', by simp [hl], by simp; omega⟩,
    pre ++ x, z ++ post, by simp [hd], by simp; omega⟩

lemma Stands.stretch {ns : List Node} {text : Bytes}
    (h : Stands data s (l ++ ns) (pre ++ text) rest) :
    Stretch data s.d ns text (l.length + 1) (pre.length + 1) :=
  ⟨⟨l, [], by simp [h.list], rfl⟩, pre, rest, h.split, rfl⟩

/-! ### Runs of bytes -/

/-- `rest` starts with the run `a` of bytes of a class, and goes on with `t`. -/
structure Run (p : Byte → Bool) (rest a t : Bytes) : Prop where
  split : rest = a ++ t
  all : ∀ b ∈ a, p b = true
  stop : ∀ b ∈ t.head?, p b = false

variable {p : Byte → Bool} {a t : Bytes}

lemma exists_run (p : Byte → Bool) (rest : Bytes) : ∃ a t, Run p rest a t := by
  induction rest with
  | nil => exact ⟨[], [], rfl, by simp, by simp⟩
  | cons b rest ih =>
    by_cases hb : p b = true
    · obtain ⟨a, t, h⟩ := ih
      exact ⟨b :: a, t, by rw [h.split]; rfl, by simpa [hb] using h.all, h.stop⟩
    · exact ⟨[], b :: rest, rfl, by simp, by simpa using hb⟩

lemma Run.takeWhile_eq (h : Run p rest a t) : rest.takeWhile p = a := by
  rw [h.split, List.takeWhile_append_of_pos h.all]
  cases ht : t with
  | nil => simp
  | cons b t =>
    have hb : p b = false := h.stop b (by simp [ht])
    simp [hb]

/-! ### Steps that do not fail -/

lemma peek_done (h : Stands data s l pre rest) : (peek data).run s = .done rest.head? s := by
  show Ending.done (s.rest data).head? s = _
  rw [h.rest_eq]

lemma space_done (h : Stands data s l pre rest) (hr : Run isSpace rest a t) :
    (space data).run s = .done () (s.advance a.length)
      ∧ Stands data (s.advance a.length) l (pre ++ a) t := by
  constructor
  · show Ending.done () (s.advance ((s.rest data).takeWhile isSpace).length) = _
    rw [h.rest_eq, hr.takeWhile_eq]
  · exact h.advance hr.split rfl

/-- The nodes after a change to one of them. -/
lemma update_done (h : Stands data s (l ++ x :: l') pre rest) (f : Node → Node) :
    (update (l.length + 1) f).run s = .done () (s.setNode (l.length + 1) (f x))
      ∧ Stands data (s.setNode (l.length + 1) (f x)) (l ++ f x :: l') pre rest := by
  refine ⟨?_, h.split, h.pos, ?_⟩
  · refine done_bind get_done (done_bind ?_ modify_done)
    rw [Document.node_of_list h.list, lift_done]
  · have hl := h.list
    unfold Document.list at hl
    show ((s.d.nodes.setIfInBounds l.length (f x)).toList.take s.d.count) = _
    rw [Vector.toList_setIfInBounds, List.take_set, hl, List.set_append_right _ _ le_rfl]
    simp

/-- The node that is added for a value that starts at the byte `p`. -/
def fresh (k : Kind) (n p parent : ℕ) : Node := ⟨k, p, p, parent, n⟩

lemma add_done (k : Kind) (parent : ℕ) (h : Stands data s l pre rest)
    (hl : l.length < maximumNodes) :
    ∃ s', (add k parent).run s = .done (l.length + 1) s' ∧
      Stands data s' (l ++ [fresh k (l.length + 1) (pre.length + 1) parent]) pre rest := by
  have hc := h.count
  have hn : ((s.d.count + 1 : Fin (maximumNodes + 1)) : ℕ) = l.length + 1 := by
    rw [Fin.val_add_one_of_lt (Fin.lt_def.2 (by rw [hc]; exact hl)), hc]
  have hadd : (add k parent).run s = .done (l.length + 1)
      (Parser.setNode (l.length + 1) ⟨k, s.pos, s.pos, parent, l.length + 1⟩
        { s with d := { s.d with count := s.d.count + 1 } }) := by
    refine done_bind get_done (done_bind (require_done (by omega)) ?_)
    dsimp only
    rw [hn]
    rfl
  refine ⟨_, hadd, h.split, h.pos, ?_⟩
  have hlist : s.d.nodes.toList.take l.length = l := by
    rw [← hc]
    exact h.list
  show (s.d.nodes.setIfInBounds l.length _).toList.take (s.d.count + 1 : Fin _) = _
  rw [Vector.toList_setIfInBounds, List.take_set, hn, h.pos,
    List.take_succ_eq_append_getElem (by simpa using hl), hlist,
    List.set_append_right _ _ le_rfl, Nat.sub_self]
  rfl

/-- `Add` gives up where there is no room, and else adds one node. -/
lemma ensures_add (k : Kind) (parent : ℕ) (h : Stands data s l pre rest) :
    Ensures (add k parent) s fun n s' => n = l.length + 1 ∧ l.length < maximumNodes ∧
      Stands data s' (l ++ [fresh k (l.length + 1) (pre.length + 1) parent]) pre rest := by
  have hc := s.d.count.isLt
  refine .of_done_bind get_done (ensures_require fun hne => ?_)
  have hl : l.length < maximumNodes := by
    rw [h.count] at hc hne
    omega
  obtain ⟨s', h1, h2⟩ := add_done k parent h hl
  refine .of_done (Eq.trans (Eq.symm ?_) h1) ⟨rfl, hl, h2⟩
  exact done_bind get_done (done_bind (require_done hne) rfl)

/-! ### Strings -/

variable {ls : List Letter}

@[simp] lemma lettersText_nil : lettersText [] = [] := rfl

@[simp] lemma lettersText_cons (a : Letter) (ls : List Letter) :
    lettersText (a :: ls) = a.text ++ lettersText ls := rfl

lemma stringLength_text (h : ∀ a ∈ ls, a.WellFormed) (t : Bytes) :
    stringLength false (lettersText ls ++ 34#8 :: t) = some ((lettersText ls).length + 1) := by
  induction ls with
  | nil => simp [stringLength]
  | cons a ls ih =>
    have hs := ih fun b hb => h b (List.mem_cons_of_mem _ hb)
    have ha := h a (List.mem_cons_self ..)
    cases a with
    | plain b =>
      obtain ⟨h1, h2, h3, h4⟩ := ha
      simp [stringLength, Letter.text, hs, h3, h4, BitVec.not_lt.2 h1, BitVec.not_lt.2 h2]
    | escaped c =>
      have hc : (escape c).isSome = true := ha
      simp [stringLength, Letter.text, hs, hc]

/-- What the loop over a string accepts is written with letters. -/
lemma exists_letters : ∀ {rest : Bytes} {k : ℕ}, stringLength false rest = some k →
    ∃ ls t, (∀ a ∈ ls, Letter.WellFormed a) ∧ rest = lettersText ls ++ 34#8 :: t
      ∧ k = (lettersText ls).length + 1
  | [], _, h => by simp [stringLength] at h
  | b :: rest, k, h => by
    rw [stringLength] at h
    split_ifs at h with h1 h2 h3
    · -- a backslash, and the byte after it
      match rest with
      | [] => simp [stringLength] at h
      | c :: rest =>
        rw [stringLength] at h
        split_ifs at h with hc
        · obtain ⟨j, hj, rfl⟩ : ∃ j, stringLength false rest = some j ∧ k = j + 1 + 1 := by
            simpa [eq_comm] using h
          obtain ⟨ls, t, hls, rfl, rfl⟩ := exists_letters hj
          exact ⟨.escaped c :: ls, t, by simpa [Letter.WellFormed, hc] using hls,
            by simp [Letter.text, h1], by simp [Letter.text]⟩
        · cases h
    · exact ⟨[], rest, by simp, by simp [h2], by simpa [eq_comm] using h⟩
    · obtain ⟨j, hj, rfl⟩ : ∃ j, stringLength false rest = some j ∧ k = j + 1 := by
        simpa [eq_comm] using h
      obtain ⟨ls, t, hls, rfl, rfl⟩ := exists_letters hj
      rw [not_or, BitVec.not_lt, BitVec.not_lt] at h3
      exact ⟨.plain b :: ls, t, by simpa [Letter.WellFormed, h1, h2, h3] using hls,
        by simp [Letter.text], by simp [Letter.text]⟩

lemma stringNodeRead_done (parent : ℕ) (h : ∀ a ∈ ls, a.WellFormed)
    (hs : Stands data s l pre (34#8 :: lettersText ls ++ 34#8 :: t))
    (hl : l.length < maximumNodes) :
    ∃ s', (stringNodeRead data parent).run s = .done (l.length + 1) s' ∧
      Stands data s' (l ++ [stringNode ls (l.length + 1) (pre.length + 1) parent])
        (pre ++ (34#8 :: lettersText ls ++ [34#8])) t := by
  obtain ⟨s₁, h1, hs1⟩ := add_done .stringNode parent hs hl
  have hs2 := hs1.advance (k := 1) (a := [34#8]) (t := lettersText ls ++ 34#8 :: t) rfl rfl
  have hlast : (s₁.advance 1).pos + ((lettersText ls).length + 1) - 1
      = pre.length + 1 + (lettersText ls).length + 1 := by
    rw [hs2.pos, List.length_append, List.length_singleton]
    omega
  obtain ⟨h3, hs3⟩ := update_done hs2 (.upTo (pre.length + 1 + (lettersText ls).length + 1))
  have hs4 := hs3.advance (k := (lettersText ls).length + 1) (a := lettersText ls ++ [34#8])
    (t := t) (by simp) (by simp)
  refine ⟨_, done_bind h1 <| done_bind (peek_done hs1) <| done_bind (require_done rfl) <|
    done_bind modify_done <| done_bind get_done ?_, hs4.congr rfl (by simp)⟩
  rw [hs2.rest_eq, stringLength_text h]
  dsimp only
  rw [hlast]
  exact done_bind h3 (done_bind modify_done rfl)

lemma ensures_stringNodeRead (parent : ℕ) (hs : Stands data s l pre rest) :
    Ensures (stringNodeRead data parent) s fun n s' => ∃ ls t, (∀ a ∈ ls, Letter.WellFormed a)
      ∧ rest = 34#8 :: lettersText ls ++ 34#8 :: t ∧ n = l.length + 1
      ∧ Stands data s' (l ++ [stringNode ls (l.length + 1) (pre.length + 1) parent])
        (pre ++ (34#8 :: lettersText ls ++ [34#8])) t := by
  by_cases hex : l.length < maximumNodes ∧ ∃ ls t, (∀ a ∈ ls, Letter.WellFormed a)
      ∧ rest = 34#8 :: lettersText ls ++ 34#8 :: t
  · obtain ⟨hl, ls, t, hls, rfl⟩ := hex
    obtain ⟨s', h1, h2⟩ := stringNodeRead_done parent hls hs hl
    exact .of_done h1 ⟨ls, t, hls, rfl, rfl, h2⟩
  -- where the text is no string, the procedure gives up on the way
  refine (ensures_add .stringNode parent hs).bind fun n s₁ ⟨_, hl, hs1⟩ =>
    .of_done_bind (peek_done hs1) <| ensures_require fun hb => .of_done_bind modify_done <|
    .of_done_bind get_done ?_
  obtain ⟨rest', rfl⟩ := List.head?_eq_some_iff.1 hb
  rw [(hs1.advance (k := 1) (a := [34#8]) (t := rest') rfl rfl).rest_eq]
  cases hk : stringLength false rest' with
  | none => exact ensures_refuse
  | some k =>
    obtain ⟨ls, t, hls, rfl, -⟩ := exists_letters hk
    exact absurd ⟨hl, ls, t, hls, rfl⟩ hex

lemma unescape_text (h : ∀ a ∈ ls, a.WellFormed) {capacity : ℕ} {value : Bytes}
    (hv : value.length ≤ capacity) :
    unescape capacity (lettersText ls) value =
      if value.length + ls.length ≤ capacity then (value ++ lettersValue ls, .ok)
      else ((value ++ lettersValue ls).take capacity, .exhausted) := by
  induction ls generalizing value with
  | nil => simp [unescape, lettersValue, hv]
  | cons a ls ih =>
    have hs : ∀ b ∈ ls, b.WellFormed := fun b hb => h b (List.mem_cons_of_mem _ hb)
    -- either kind of letter takes one more byte of the buffer, or finds it full
    have hstep : unescape capacity (a.text ++ lettersText ls) value =
        if value.length = capacity then (value, .exhausted)
        else unescape capacity (lettersText ls) (value ++ [a.value]) := by
      have ha := h a (List.mem_cons_self ..)
      cases a with
      | plain b =>
        obtain ⟨h1, h2, h3, h4⟩ := ha
        rw [unescape.eq_def]
        simp [Letter.text, Letter.value, h3, h4, BitVec.not_lt.2 h1, BitVec.not_lt.2 h2]
      | escaped c =>
        obtain ⟨b, hb⟩ := Option.isSome_iff_exists.1 (show (escape c).isSome = true from ha)
        simp [unescape, Letter.text, Letter.value, hb]
    rw [lettersText_cons, hstep]
    split_ifs with h1 h2 h2
    · simp [← h1] at h2
    · simp [← h1]
    · rw [ih hs (by simp; omega)]
      simp [lettersValue] at h2 ⊢
      omega
    · rw [ih hs (by simp; omega), if_neg (by simp at h2 ⊢; omega)]
      simp [lettersValue]

/-- What `String_Bytes` tells of the node of a string. -/
lemma stringBytes_node {n parent : ℕ} (h : ∀ a ∈ ls, a.WellFormed)
    (hd : data = pre ++ (34#8 :: lettersText ls ++ [34#8]) ++ t) (hn : n ≠ 0)
    (hc : n ≤ d.count) (hx : d.node n = some (stringNode ls n (pre.length + 1) parent))
    (capacity : ℕ) :
    stringBytes data d n capacity = some
      (if ls.length ≤ capacity then (lettersValue ls, .ok)
        else ((lettersValue ls).take capacity, .exhausted)) := by
  have hl : data.length = pre.length + ((lettersText ls).length + 2) + t.length := by
    rw [hd]
    simp
    omega
  have h1 : data[pre.length]? = some 34#8 := by
    rw [hd, List.append_assoc, List.getElem?_append_right le_rfl]
    simp
  have h2 : data[pre.length + 1 + (lettersText ls).length]? = some 34#8 := by
    rw [hd, List.append_assoc, List.getElem?_append_right (by omega),
      List.getElem?_append_left (by simp; omega)]
    simp [show pre.length + 1 + (lettersText ls).length - pre.length
      = (lettersText ls).length + 1 by omega]
  have h3 : range data (pre.length + 1 + 1) (pre.length + 1 + (lettersText ls).length)
      = lettersText ls := by
    have e : data = (pre ++ [34#8]) ++ (lettersText ls ++ 34#8 :: t) := by
      rw [hd]
      simp
    rw [e, range_right (by simp), List.length_append, List.length_singleton,
      show pre.length + 1 + 1 - (pre.length + 1) = 1 by omega, Nat.add_sub_cancel_left,
      range_head rfl]
  unfold stringBytes
  rw [if_neg (by omega), hx]
  refine congrArg some ((if_neg ?_).trans ((if_neg ?_).trans ?_))
  · rintro (h | h | h | h)
    · exact h rfl
    all_goals dsimp only [stringNode] at h; omega
  · rintro (h | h)
    · exact h h1
    · exact h h2
  · dsimp only [stringNode]
    rw [Nat.add_sub_cancel, h3, unescape_text h (by simp)]
    simp

/-- `String_Bytes` looks at one node only. -/
lemma stringBytes_congr {i capacity : ℕ} (h : d.node i = d'.node i) (hi : i ≤ d.count)
    (hi' : i ≤ d'.count) :
    stringBytes data d i capacity = stringBytes data d' i capacity := by
  unfold stringBytes
  rw [h]
  simp only [not_lt.2 hi, not_lt.2 hi', or_false]

/-! ### Numbers and literals -/

lemma numberRead_done {ds : Bytes} (parent : ℕ) (h : Digits ds)
    (hs : Stands data s l pre (ds ++ t)) (ht : ∀ b ∈ t.head?, isDigit b = false)
    (hl : l.length < maximumNodes) :
    ∃ s', (numberRead data parent).run s = .done (l.length + 1) s' ∧
      Stands data s' (l ++ (Value.number ds).nodes (l.length + 1) (pre.length + 1) parent)
        (pre ++ ds) t := by
  obtain ⟨hne, hd, h20, h0⟩ := h
  have hpos : 0 < ds.length := List.length_pos_iff.2 hne
  obtain ⟨s₁, h1, hs1⟩ := add_done .numberNode parent hs hl
  have hs2 := hs1.advance (a := ds) rfl rfl
  obtain ⟨h3, hs3⟩ := update_done hs2 (.upTo (pre.length + 1 + ds.length - 1))
  refine ⟨_, done_bind h1 <| done_bind get_done <| ?_, hs3⟩
  have hrun : Run isDigit (ds ++ t) ds t := ⟨rfl, hd, ht⟩
  rw [hs1.rest_eq, hrun.takeWhile_eq, hs1.pos]
  refine done_bind modify_done <| done_bind h3 <| done_bind (require_done ?_) rfl
  rintro (h | ⟨h1, h2⟩)
  · omega
  · exact h0 h1 h2

lemma ensures_numberRead (parent : ℕ) (hs : Stands data s l pre rest)
    (hd : ∃ b ∈ rest.head?, isDigit b = true) :
    Ensures (numberRead data parent) s fun n s' => ∃ ds t, Digits ds ∧ rest = ds ++ t
      ∧ n = l.length + 1
      ∧ Stands data s' (l ++ (Value.number ds).nodes (l.length + 1) (pre.length + 1) parent)
        (pre ++ ds) t := by
  obtain ⟨ds, t, hrun⟩ := exists_run isDigit rest
  obtain rfl := hrun.split
  by_cases hex : l.length < maximumNodes ∧ Digits ds
  · obtain ⟨s', h1, h2⟩ := numberRead_done parent hex.2 hs hrun.stop hex.1
    exact .of_done h1 ⟨ds, t, hex.2, rfl, rfl, h2⟩
  -- a number that is too long or has a leading zero is refused at the end
  have hne : ds ≠ [] := by
    rintro rfl
    obtain ⟨b, hb, hd⟩ := hd
    have := hrun.stop b hb
    simp_all
  refine (ensures_add .numberNode parent hs).bind fun n s₁ ⟨hn, hl, hs1⟩ =>
    .of_done_bind get_done ?_
  rw [hs1.rest_eq, hrun.takeWhile_eq, hn]
  refine .of_done_bind modify_done <|
    .of_done_bind (update_done (hs1.advance (a := ds) rfl rfl) _).1 <|
    ensures_require fun hdigits => ?_
  rw [not_or, not_lt, not_and] at hdigits
  exact absurd ⟨hl, hne, hrun.all, hdigits.1, hdigits.2⟩ hex

lemma literalRead_done (lit : Literal) (parent : ℕ) (hs : Stands data s l pre (lit.text ++ t))
    (hl : l.length < maximumNodes) :
    ∃ s', (literalRead data lit parent).run s = .done (l.length + 1) s' ∧
      Stands data s' (l ++ (Value.literal lit).nodes (l.length + 1) (pre.length + 1) parent)
        (pre ++ lit.text) t := by
  obtain ⟨s₁, h1, hs1⟩ := add_done lit.kind parent hs hl
  have hs2 := hs1.advance (a := lit.text) rfl rfl
  obtain ⟨h3, hs3⟩ := update_done hs2 (.upTo (pre.length + 1 + lit.text.length - 1))
  refine ⟨_, done_bind h1 <| done_bind get_done <| ?_, hs3⟩
  rw [hs1.rest_eq, hs1.pos]
  exact done_bind (require_done (List.prefix_append ..)) <| done_bind modify_done <|
    done_bind h3 rfl

lemma ensures_literalRead (lit : Literal) (parent : ℕ) (hs : Stands data s l pre rest) :
    Ensures (literalRead data lit parent) s fun n s' => ∃ t, rest = lit.text ++ t
      ∧ n = l.length + 1
      ∧ Stands data s' (l ++ (Value.literal lit).nodes (l.length + 1) (pre.length + 1) parent)
        (pre ++ lit.text) t := by
  by_cases hex : l.length < maximumNodes ∧ lit.text <+: rest
  · obtain ⟨hl, t, rfl⟩ := hex
    obtain ⟨s', h1, h2⟩ := literalRead_done lit parent hs hl
    exact .of_done h1 ⟨t, rfl, rfl, h2⟩
  refine (ensures_add lit.kind parent hs).bind fun n s₁ ⟨_, hl, hs1⟩ => .of_done_bind get_done ?_
  rw [hs1.rest_eq]
  exact ensures_require fun hp => absurd ⟨hl, hp⟩ hex

end NiayanAssurance.Json
