import NiayanAssurance.Lib.Bytes

/-!
Frames: byte strings in which fields of fixed widths follow one another.

`cut` takes a frame apart along its widths. To read what has been written, and to write what
has been read, are then two facts about lists of fields.
-/

namespace NiayanAssurance.Lib

/-! ### Cutting a frame -/

/-- The parts of `b` with the widths `ws`, from byte `lo` on. -/
def cutFrom (lo : ℕ) : List ℕ → Bytes → List Bytes
  | [], _ => []
  | w :: ws, b => range b lo (lo + w - 1) :: cutFrom (lo + w) ws b

/-- The parts of `b` with the widths `ws`. -/
def cut (ws : List ℕ) (b : Bytes) : List Bytes := cutFrom 1 ws b

lemma range_append_of_lt {a b : Bytes} {lo hi : ℕ} (h : 0 < lo) :
    range (a ++ b) (a.length + lo) (a.length + hi) = range b lo hi := by
  rw [range_right (by omega), Nat.add_sub_cancel_left, Nat.add_sub_cancel_left]

lemma range_nil {b : Bytes} {lo hi : ℕ} (h : hi < lo) : range b lo hi = [] := by
  rw [range, List.drop_eq_nil_iff, List.length_take]
  omega

lemma cutFrom_append (a b : Bytes) (ws : List ℕ) {lo : ℕ} (h : 0 < lo) :
    cutFrom (a.length + lo) ws (a ++ b) = cutFrom lo ws b := by
  induction ws generalizing lo with
  | nil => rfl
  | cons w ws ih =>
    have h1 : a.length + lo + w - 1 = a.length + (lo + w - 1) := by omega
    rw [cutFrom, cutFrom, h1, range_append_of_lt h, Nat.add_assoc, ih (by omega)]

/-- **Reading what has been written.** -/
theorem cut_flatten {l : List Bytes} {w : List ℕ} (h : l.map List.length = w) :
    cut w l.flatten = l := by
  subst h
  unfold cut
  induction l with
  | nil => rfl
  | cons a l ih =>
    have h1 := cutFrom_append a l.flatten (l.map List.length) Nat.one_pos
    rw [List.map_cons, cutFrom, List.flatten_cons, Nat.add_comm 1 a.length, h1, ih,
      Nat.add_sub_cancel, range_head rfl]

lemma flatten_cutFrom (ws : List ℕ) (b : Bytes) (lo : ℕ) (h : 0 < lo) :
    (cutFrom lo ws b).flatten = range b lo (lo + ws.sum - 1) := by
  induction ws generalizing lo with
  | nil => rw [List.sum_nil, Nat.add_zero, range_nil (by omega)]; rfl
  | cons w ws ih =>
    have h1 : lo + w = lo + w - 1 + 1 := by omega
    have h2 : lo + w + ws.sum - 1 = lo + (w + ws.sum) - 1 := by omega
    rw [cutFrom, List.flatten_cons, ih _ (by omega), List.sum_cons, h2]
    nth_rewrite 2 [h1]
    exact range_append_range (by omega) (by omega)

/-- **Writing what has been read.** -/
theorem flatten_cut {b : Bytes} {w : List ℕ} (h : w.sum = b.length) :
    (cut w b).flatten = b := by
  rw [cut, flatten_cutFrom w b 1 Nat.one_pos, Nat.add_sub_cancel_left, range_all h.symm]

/-! ### Rows -/

/-- A range of one row of a table. -/
theorem range_flatMap {α : Type*} {l : List α} {f : α → Bytes} {w : ℕ}
    (hf : ∀ x ∈ l, (f x).length = w) {i : ℕ} {x : α} (hx : l[i]? = some x) {lo hi : ℕ}
    (hlo : 0 < lo) (hhi : hi ≤ w) :
    range (l.flatMap f) (w * i + lo) (w * i + hi) = range (f x) lo hi := by
  induction l generalizing i with
  | nil => simp at hx
  | cons y l ih =>
    have hy : (f y).length = w := hf y List.mem_cons_self
    rw [List.flatMap_cons]
    cases i with
    | zero =>
      obtain rfl : y = x := by simpa using hx
      rw [Nat.mul_zero, Nat.zero_add, Nat.zero_add]
      exact range_left (hhi.trans hy.ge)
    | succ i =>
      have h1 : ∀ n, w * (i + 1) + n = (f y).length + (w * i + n) := fun n => by
        rw [hy, Nat.mul_succ]
        omega
      rw [h1, h1, range_append_of_lt (by omega)]
      exact ih (fun z hz => hf z (List.mem_cons_of_mem _ hz)) hx

lemma length_flatMap {α : Type*} {l : List α} {f : α → Bytes} {w : ℕ}
    (hf : ∀ x ∈ l, (f x).length = w) : (l.flatMap f).length = w * l.length := by
  induction l with
  | nil => rfl
  | cons x l ih =>
    rw [List.flatMap_cons, List.length_append, hf x List.mem_cons_self,
      ih fun y hy => hf y (List.mem_cons_of_mem _ hy), List.length_cons, Nat.mul_succ]
    omega

/-- A range of one row of a table that other fields stand around. -/
theorem range_table {α : Type*} {l : List α} {f : α → Bytes} {w : ℕ}
    (hf : ∀ x ∈ l, (f x).length = w) {i : ℕ} {x : α} (hx : l[i]? = some x) {lo hi : ℕ}
    (hlo : 0 < lo) (hhi : hi ≤ w) (a c : Bytes) :
    range (a ++ (l.flatMap f ++ c)) (a.length + (w * i + lo)) (a.length + (w * i + hi))
      = range (f x) lo hi := by
  have hi' : i < l.length := (List.getElem?_eq_some_iff.mp hx).1
  have hle : w * i + hi ≤ (l.flatMap f).length := by
    rw [length_flatMap hf]
    exact (Nat.add_le_add_left hhi _).trans (Nat.mul_le_mul_left w hi')
  rw [range_append_of_lt (by omega), range_left hle, range_flatMap hf hx hlo hhi]

/-- The frame `b` has a table of rows of `w` bytes that begins at byte `o`. -/
structure Rows {α : Type*} (l : List α) (f : α → Bytes) (o w : ℕ) (b : Bytes) : Prop where
  width : ∀ x ∈ l, (f x).length = w
  frame : ∃ a c, a.length + 1 = o ∧ b = a ++ (l.flatMap f ++ c)

section Rows

variable {α : Type*} {l : List α} {f : α → Bytes} {o w : ℕ} {b : Bytes}

/-- A range of row `i`, from its byte 0 on. -/
lemma Rows.range (h : Rows l f o w b) {i : ℕ} {x : α} (hx : l[i]? = some x) {lo hi : ℕ}
    (hhi : hi < w) :
    Lib.range b (o + i * w + lo) (o + i * w + hi) = Lib.range (f x) (lo + 1) (hi + 1) := by
  obtain ⟨a, c, rfl, rfl⟩ := h.frame
  rw [← range_table h.width hx (Nat.succ_pos lo) (Nat.succ_le_of_lt hhi) a c, Nat.mul_comm i w]
  congr 1 <;> omega

lemma Rows.range_from (h : Rows l f o w b) {i : ℕ} {x : α} (hx : l[i]? = some x) (hi : ℕ)
    (hhi : hi < w) : Lib.range b (o + i * w) (o + i * w + hi) = Lib.range (f x) 1 (hi + 1) := by
  have h0 : Lib.range b (o + i * w + 0) (o + i * w + hi) = _ := h.range hx hhi
  rwa [Nat.add_zero] at h0

/-- A table is read as it was. -/
lemma rows_read {g : Bytes → ℕ → α} (h : ∀ i x, l[i]? = some x → g b (o + i * w) = x) {n : ℕ}
    (hn : n = l.length) : (List.range n).map (fun i => g b (o + i * w)) = l := by
  subst hn
  refine List.ext_getElem? fun i => ?_
  rw [List.getElem?_map]
  rcases Nat.lt_or_ge i l.length with hi | hi
  · rw [List.getElem?_range hi, Option.map_some, h i l[i] (List.getElem?_eq_getElem hi),
      List.getElem?_eq_getElem hi]
  · rw [List.getElem?_eq_none (by simpa), List.getElem?_eq_none hi]
    rfl

end Rows

/-! ### Sets of bits -/

section Bits

variable {α : Type*} {pos : α → ℕ} {f : α → Bool} {l : List α}

/-- The number with the bits of those in the list that `f` holds of. -/
def bitSet (pos : α → ℕ) (f : α → Bool) (l : List α) : ℕ :=
  l.foldl (fun n k => if f k then n ||| 2 ^ pos k else n) 0

lemma testBit_bitSet (j : ℕ) :
    (bitSet pos f l).testBit j = true ↔ ∃ k ∈ l, f k = true ∧ pos k = j := by
  unfold bitSet
  induction l using List.reverseRecOn with
  | nil => simp
  | append_singleton l a ih =>
    rw [List.foldl_append, List.foldl_cons, List.foldl_nil]
    have ha : (∃ k ∈ l ++ [a], f k = true ∧ pos k = j)
        ↔ (∃ k ∈ l, f k = true ∧ pos k = j) ∨ f a = true ∧ pos a = j := by
      simp [or_and_right, exists_or]
    rw [ha, ← ih]
    split_ifs with hf <;> simp [hf, Nat.testBit_or, Nat.testBit_two_pow]

/-- A bit of a set of bits. -/
lemma testBit_bitSet_pos (hpos : pos.Injective) {k : α} (hk : k ∈ l) :
    (bitSet pos f l).testBit (pos k) = f k := by
  rw [Bool.eq_iff_iff, testBit_bitSet]
  constructor
  · rintro ⟨k', -, hf, he⟩
    exact hpos he ▸ hf
  · exact fun hf => ⟨k, hk, hf, rfl⟩

lemma bitSet_lt {w : ℕ} (h : ∀ k ∈ l, pos k < w) : bitSet pos f l < 2 ^ w := by
  refine Nat.lt_pow_two_of_testBit _ fun j hj => ?_
  rw [← Bool.not_eq_true, testBit_bitSet]
  rintro ⟨k, hk, -, rfl⟩
  exact absurd (h k hk) (Nat.not_lt.mpr hj)

/-- The set of the bits of a number. -/
lemma bitSet_testBit {n w : ℕ} (hn : n < 2 ^ w) (hw : ∀ j < w, ∃ k ∈ l, pos k = j) :
    bitSet pos (fun k => n.testBit (pos k)) l = n := by
  refine Nat.eq_of_testBit_eq fun j => ?_
  rw [Bool.eq_iff_iff, testBit_bitSet]
  constructor
  · rintro ⟨k, -, hf, rfl⟩
    exact hf
  · intro hj
    have hlt : j < w := by
      by_contra hle
      have h2 : 2 ^ w ≤ 2 ^ j := Nat.pow_le_pow_right (by decide) (Nat.not_lt.mp hle)
      rw [Nat.testBit_lt_two_pow (hn.trans_le h2)] at hj
      cases hj
    obtain ⟨k, hk, rfl⟩ := hw j hlt
    exact ⟨k, hk, hj, rfl⟩

end Bits

/-! ### Codecs -/

/-- **A canonical codec**: a frame is accepted exactly when it is the encoding of an admissible
value, and then as that value. -/
def Canonical {α ε : Type*} (encode : α → Bytes) (decode : Bytes → Except ε α)
    (Admissible : α → Prop) : Prop :=
  ∀ b x, decode b = .ok x ↔ encode x = b ∧ Admissible x

variable {α ε : Type*} {encode : α → Bytes} {decode : Bytes → Except ε α}
  {Admissible : α → Prop}

/-- The codec of a decoder that ends with a comparison of the frame and of what it encodes. -/
theorem Canonical.of_decode (h : ∀ b x, decode b = .ok x → encode x = b ∧ Admissible x)
    (h' : ∀ x, Admissible x → decode (encode x) = .ok x) : Canonical encode decode Admissible :=
  fun b x => ⟨h b x, fun hx => hx.1 ▸ h' x hx.2⟩

theorem Canonical.decode_encode (h : Canonical encode decode Admissible) {x : α}
    (hx : Admissible x) : decode (encode x) = .ok x := (h _ _).mpr ⟨rfl, hx⟩

/-- No two frames are accepted as one value. -/
theorem Canonical.injective (h : Canonical encode decode Admissible) {b b' : Bytes} {x : α}
    (hb : decode b = .ok x) (hb' : decode b' = .ok x) : b = b' :=
  ((h _ _).mp hb).1.symm.trans ((h _ _).mp hb').1

/-! ### Decoders with an out parameter -/

/-- A decoder that fills its out parameter before it has accepted the frame: with the value
that the frame spells, if it spells one, and with the default otherwise. -/
structure Fills {φ : Type*} (decode : φ → α × ε) (ok : ε) (default : α)
    (Spells Accepts : φ → α → Prop) : Prop where
  value : ∀ b x, Spells b x → (decode b).1 = x
  status : ∀ b x, Spells b x → ((decode b).2 = ok ↔ Accepts b x)
  rest : ∀ b, (∀ x, ¬ Spells b x) → (decode b).1 = default

/-- **What a refused frame leaves**: the default, just when it spells no other value that is
not accepted. -/
theorem Fills.default_iff {φ : Type*} {decode : φ → α × ε} {ok : ε} {default : α}
    {Spells Accepts : φ → α → Prop} (h : Fills decode ok default Spells Accepts) (b : φ) :
    ((decode b).2 ≠ ok → (decode b).1 = default)
      ↔ ∀ x, Spells b x → Accepts b x ∨ x = default := by
  constructor
  · intro hd x hx
    by_cases ha : Accepts b x
    · exact .inl ha
    · have hne : (decode b).2 ≠ ok := fun he => ha ((h.status b x hx).mp he)
      exact .inr ((h.value b x hx).symm.trans (hd hne))
  · intro hx hne
    by_cases hs : ∃ x, Spells b x
    · obtain ⟨x, hs⟩ := hs
      rcases hx x hs with ha | hd
      · exact absurd ((h.status b x hs).mpr ha) hne
      · exact (h.value b x hs).trans hd
    · exact h.rest b (not_exists.mp hs)

end NiayanAssurance.Lib
