import NiayanAssurance.Text
import NiayanAssurance.Lib.Checked
import NiayanAssurance.Lib.Split

/-!
Files of properties: lines `key=value`, each ended by a line feed.
-/

namespace NiayanAssurance.Properties

open NiayanAssurance.Lib NiayanAssurance.Types NiayanAssurance.Text

abbrev maximum : ℕ := 64

structure Property where
  key : Value
  value : Value
  deriving DecidableEq

@[ext] structure Document where
  items : List Property := []
  count_le : items.length ≤ maximum := by decide
  deriving DecidableEq

def Document.keys (d : Document) : List Bytes := d.items.map (·.key.image)

def Document.pairs (d : Document) : List (Bytes × Bytes) :=
  d.items.map fun x => (x.key.image, x.value.image)

/-- Where the loop of `Parse` stands: `line` is `Data (Start .. I - 1)`, and `split` the number of
its bytes before `Split`. -/
structure Scan where
  doc : Document := {}
  line : Bytes := []
  split : Option ℕ := none

/-- The document with one more property. -/
def Document.add (d : Document) (x : Property) (h : d.items.length < maximum) : Document where
  items := d.items ++ [x]
  count_le := by
    rw [List.length_append, List.length_singleton]
    omega

lemma Document.count_lt (d : Document) {line : Bytes} {split : ℕ}
    (h : ¬ (split = 0 ∨ line.length = split + 1 ∨ 4159 < line.length
      ∨ d.items.length = maximum)) : d.items.length < maximum := by
  have := d.count_le
  omega

/-- What is made of a line with its `=` at `split`; an error is the document that is left. -/
def endLine (d : Document) (line : Bytes) (split : ℕ) : Except Document Document :=
  if h : split = 0 ∨ line.length = split + 1 ∨ 4159 < line.length ∨ d.items.length = maximum then
    .error d
  else
    let key := line.take split
    let value := line.drop (split + 1)
    if 63 < key.length ∨ identifier key = false then .error d
    else if ∃ x ∈ d.items, x.key.image = key then .error d
    else
      have hd : d.items.length < maximum := d.count_lt h
      match Text.set key with
      | none => .error (d.add ⟨empty, empty⟩ hd)
      | some k =>
        match Text.set value with
        | none => .error (d.add ⟨k, empty⟩ hd)
        | some v => .ok (d.add ⟨k, v⟩ hd)

/-- One turn of the loop. -/
def turn (s : Scan) (c : Byte) : Except Document Scan :=
  if c = 61 ∧ s.split = none then
    .ok { s with line := s.line ++ [c], split := some s.line.length }
  else if c = 10 then
    match s.split with
    | none => .error s.doc
    | some split => (endLine s.doc s.line split).map fun d => { doc := d }
  else if c.toNat < 32 ∨ 126 < c.toNat then .error s.doc
  else .ok { s with line := s.line ++ [c] }

/-- `Parse`, of bytes whose first index is `first`. -/
def parse (first : ℕ) (data : Bytes) : Document × Outcome :=
  if data = [] ∨ maximum * 4160 < data.length ∨ first + data.length - 1 = integerLast then
    ({}, .invalidInput)
  else
    match data.foldlM turn {} with
    | .error d => (d, .invalidInput)
    | .ok s => (s.doc, if s.line = [] ∧ 0 < s.doc.items.length then .ok else .invalidInput)

def get (d : Document) (key : Bytes) : Value × Outcome :=
  match d.items.find? (·.key.image = key) with
  | none => (empty, .invalidInput)
  | some x => (x.value, .ok)

/-- Where the loop of `Has_Exactly` stands: `word` is `Keys (Start .. I - 1)`. -/
structure Match where
  word : Bytes := []
  seen : List ℕ := []
  n : ℕ := 0

/-- One turn of the loop; none ends it with `False`. -/
def matchTurn (d : Document) (s : Match) (c : Byte) : Option Match :=
  if c = 44 then
    if s.word = [] then none
    else
      match d.items.findIdx? (·.key.image = s.word) with
      | none => none
      | some j =>
        if j ∈ s.seen then none
        else if s.n = maximum then none
        else some { seen := s.seen ++ [j], n := s.n + 1 }
  else some { s with word := s.word ++ [c] }

/-- `Has_Exactly`, of a list whose first index is `first`. Its end is taken for a comma. -/
def hasExactly (first : ℕ) (d : Document) (keys : Bytes) : Bool :=
  if keys = [] ∨ maximum * 64 < keys.length ∨ integerLast - 1 ≤ first + keys.length - 1 then false
  else
    match (keys ++ [44]).foldlM (matchTurn d) {} with
    | none => false
    | some s => s.n = d.items.length

/-! ### What a file says -/

/-- A line without its line feed. -/
structure Record (x : Bytes × Bytes) : Prop where
  identifier : identifier x.1 = true
  key : x.1.length ≤ 63
  value : 1 ≤ x.2.length ∧ x.2.length ≤ 4096
  printable : Printable x.2
  length : (x.1 ++ 61 :: x.2).length ≤ 4159

def Record.line (x : Bytes × Bytes) : Bytes := x.1 ++ 61 :: x.2

def lines (pairs : List (Bytes × Bytes)) : Bytes := pairs.flatMap fun x => Record.line x ++ [10]

structure IsFile (data : Bytes) (pairs : List (Bytes × Bytes)) : Prop where
  records : ∀ x ∈ pairs, Record x
  count : 1 ≤ pairs.length ∧ pairs.length ≤ maximum
  nodup : (pairs.map Prod.fst).Nodup
  data : data = lines pairs

variable {d d' : Document} {s s' : Scan} {c : Byte} {key value line data : Bytes}
  {pairs : List (Bytes × Bytes)}

lemma pairs_inj (h : d.pairs = d'.pairs) : d = d' := by
  refine Document.ext (List.map_injective_iff.2 (fun x y hxy => ?_) h)
  obtain ⟨h1, h2⟩ := Prod.mk.inj hxy
  cases x
  cases y
  rw [Property.mk.injEq]
  exact ⟨Value.ext h1, Value.ext h2⟩

lemma keys_eq (d : Document) : d.keys = d.pairs.map Prod.fst := by
  simp [Document.keys, Document.pairs]

lemma length_pairs (d : Document) : d.pairs.length = d.items.length := List.length_map _

lemma Record.ne_split (h : Record (key, value)) : (61 : Byte) ∉ key := fun h' =>
  (identifierCharacter_ne ((identifier_all h.identifier).2 _ h')).2.2 rfl

/-- **The end of a line** is accepted if the line is a record with a new key. -/
lemma endLine_ok : endLine d (key ++ 61 :: value) key.length = .ok d' ↔
    Record (key, value) ∧ key ∉ d.keys ∧ d'.pairs = d.pairs ++ [(key, value)] := by
  have htake : (key ++ 61 :: value).take key.length = key := List.take_left
  have hdrop : (key ++ 61 :: value).drop (key.length + 1) = value := by simp
  have hmem : (∃ x ∈ d.items, x.key.image = key) ↔ key ∈ d.keys := by simp [Document.keys]
  unfold endLine
  constructor
  · intro h
    split_ifs at h with h1
    rw [htake, hdrop] at h
    dsimp only at h
    split_ifs at h with h2 h3
    push Not at h1 h2
    cases hk : Text.set key with
    | none => rw [hk] at h; cases h
    | some k =>
      rw [hk] at h
      dsimp only at h
      cases hv : Text.set value with
      | none => rw [hv] at h; cases h
      | some v =>
        rw [hv] at h
        obtain rfl := set_some.1 hk
        obtain rfl := set_some.1 hv
        have hlen : v.image.length ≠ 0 := fun h0 => h1.2.1 (by simp [h0])
        refine ⟨⟨by simpa using h2.2, h2.1, ⟨Nat.pos_of_ne_zero hlen, v.length_le⟩, v.printable,
          h1.2.2.1⟩, fun hin => h3 (hmem.2 hin), ?_⟩
        rw [← Except.ok.inj h]
        simp [Document.pairs, Document.add]
  · rintro ⟨hr, hn, hp⟩
    have hid := identifier_all hr.identifier
    have hl : d.items.length < maximum := by
      have h1 := congrArg List.length hp
      have h2 := d'.count_le
      rw [length_pairs, List.length_append, length_pairs, List.length_singleton] at h1
      omega
    have hk : Text.set key = some ⟨key, le_trans hr.key (by decide),
        fun c hc => identifierCharacter_range (hid.2 c hc)⟩ := set_some.2 rfl
    have hv : Text.set value = some ⟨value, hr.value.2, hr.printable⟩ := set_some.2 rfl
    rw [dif_neg, htake, hdrop]
    · dsimp only
      rw [hk, hv, if_neg, if_neg fun h => hn (hmem.1 h)]
      · refine congrArg Except.ok (pairs_inj (Eq.trans ?_ hp.symm))
        simp [Document.pairs, Document.add]
      · rintro (h | h)
        · exact absurd hr.key (by simpa using h)
        · exact absurd (hr.identifier.symm.trans h) (by rintro ⟨⟩)
    · have h1 : key.length ≠ 0 := fun h0 => hid.1 (List.length_eq_zero_iff.1 h0)
      have h2 := hr.value.1
      have h3 := hr.length
      simp only [List.length_append, List.length_cons] at h2 h3 ⊢
      omega

/-! ### Lines -/

/-- The first `=` of the line, and nothing else, is noted. -/
def Clean (s : Scan) : Prop :=
  s.split = none ∧ (61 : Byte) ∉ s.line ∨
    ∃ key value, (61 : Byte) ∉ key ∧ s.line = key ++ 61 :: value ∧ s.split = some key.length

lemma clean_start (d : Document) : Clean { doc := d } := .inl ⟨rfl, nofun⟩

/-- A byte that is not a line feed becomes part of the line. -/
lemma turn_byte (hs : Clean s) (h : 32 ≤ c.toNat ∧ c.toNat ≤ 126) :
    ∃ split, turn s c = .ok ⟨s.doc, s.line ++ [c], split⟩ ∧
      Clean ⟨s.doc, s.line ++ [c], split⟩ := by
  have h10 : c ≠ 10 := by
    rintro rfl
    exact absurd h.1 (by decide)
  have hr : ¬ (c.toNat < 32 ∨ 126 < c.toNat) := by omega
  unfold turn
  rcases hs with ⟨h1, h2⟩ | ⟨key, value, h1, h2, h3⟩
  · by_cases hc : c = 61
    · rw [if_pos ⟨hc, h1⟩]
      exact ⟨_, rfl, .inr ⟨s.line, [], h2, by rw [hc], rfl⟩⟩
    · rw [if_neg fun h => hc h.1, if_neg h10, if_neg hr]
      refine ⟨_, rfl, .inl ⟨h1, fun h => ?_⟩⟩
      rcases List.mem_append.1 h with h | h
      · exact h2 h
      · exact hc (List.mem_singleton.1 h).symm
  · rw [if_neg fun h => by rw [h3] at h; exact absurd h.2 nofun, if_neg h10, if_neg hr]
    exact ⟨_, rfl, .inr ⟨key, value ++ [c], h1, by simp [h2], h3⟩⟩

/-- A line feed ends a record with a new key, or the parsing. -/
lemma turn_feed (hs : Clean s) : turn s 10 = .ok s' ↔ ∃ key value, s.line = key ++ 61 :: value
    ∧ Record (key, value) ∧ key ∉ s.doc.keys ∧ s'.doc.pairs = s.doc.pairs ++ [(key, value)]
    ∧ s' = { doc := s'.doc } := by
  unfold turn
  rw [if_neg (by simp), if_pos rfl]
  rcases hs with ⟨h1, h2⟩ | ⟨key, value, h1, h2, h3⟩
  · rw [h1]
    refine ⟨nofun, ?_⟩
    rintro ⟨key, value, hl, -⟩
    exact absurd (by rw [hl]; simp) h2
  · rw [h3, h2]
    dsimp only
    constructor
    · intro h
      cases he : endLine s.doc (key ++ 61 :: value) key.length with
      | error d => rw [he] at h; cases h
      | ok d =>
        rw [he] at h
        obtain rfl := Except.ok.inj h
        obtain ⟨h4, h5, h6⟩ := endLine_ok.1 he
        exact ⟨key, value, rfl, h4, h5, h6, rfl⟩
    · rintro ⟨k, v, hl, h4, h5, h6, h7⟩
      obtain ⟨rfl, rfl⟩ := append_cons_inj h1 h4.ne_split hl
      rw [endLine_ok.2 ⟨h4, h5, h6⟩, h7]
      rfl

lemma lines_append (pairs pairs' : List (Bytes × Bytes)) :
    lines (pairs ++ pairs') = lines pairs ++ lines pairs' := List.flatMap_append

lemma lines_singleton (x : Bytes × Bytes) : lines [x] = Record.line x ++ [10] :=
  List.append_nil _

/-- What has been read when `s` is reached: the lines of its document, and its line. -/
structure Seen (read : Bytes) (s : Scan) : Prop where
  data : read = lines s.doc.pairs ++ s.line
  records : ∀ x ∈ s.doc.pairs, Record x
  nodup : s.doc.keys.Nodup
  clean : Clean s

lemma Seen.turn {read : Bytes} (h : Seen read s) (ht : turn s c = .ok s') :
    Seen (read ++ [c]) s' := by
  obtain ⟨h1, h2, h3, h4⟩ := h
  by_cases hc : c = 10
  · subst hc
    obtain ⟨key, value, h5, h6, h7, h8, h9⟩ := (turn_feed h4).1 ht
    rw [h9]
    refine ⟨?_, ?_, ?_, clean_start _⟩ <;> dsimp only
    · rw [h8, lines_append, lines_singleton, Record.line, h1, h5]
      simp
    · rw [h8]
      intro x hx
      rcases List.mem_append.1 hx with hx | hx
      · exact h2 x hx
      · rwa [List.mem_singleton.1 hx]
    · rw [keys_eq, h8, List.map_append, ← keys_eq, List.map_singleton, List.nodup_append]
      refine ⟨h3, List.nodup_singleton _, fun a ha b hb => ?_⟩
      rw [List.mem_singleton.1 hb]
      rintro rfl
      exact h7 ha
  · by_cases hr : 32 ≤ c.toNat ∧ c.toNat ≤ 126
    · obtain ⟨split, h5, h6⟩ := turn_byte h4 hr
      obtain rfl := Except.ok.inj (h5.symm.trans ht)
      exact ⟨by rw [h1, List.append_assoc], h2, h3, h6⟩
    · unfold Properties.turn at ht
      rw [if_neg, if_neg hc, if_pos (by omega)] at ht
      · cases ht
      · rintro ⟨rfl, -⟩
        exact hr (by decide)

/-- The bytes of a line become the line. -/
lemma fold_line (hs : Clean s) {more : Bytes}
    (h : ∀ c ∈ more, 32 ≤ c.toNat ∧ c.toNat ≤ 126) :
    ∃ split, more.foldlM turn s = .ok ⟨s.doc, s.line ++ more, split⟩
      ∧ Clean ⟨s.doc, s.line ++ more, split⟩ := by
  induction more generalizing s with
  | nil => exact ⟨s.split, by rw [List.append_nil]; rfl, by rw [List.append_nil]; exact hs⟩
  | cons c more ih =>
    obtain ⟨split, h1, h2⟩ := turn_byte hs (h c List.mem_cons_self)
    obtain ⟨split', h3, h4⟩ := ih h2 fun c hc => h c (List.mem_cons_of_mem _ hc)
    dsimp only at h3 h4
    rw [List.append_assoc] at h3 h4
    exact ⟨split', foldlM_cons_ok.2 ⟨_, h1, h3⟩, h4⟩

lemma Record.bytes {x : Bytes × Bytes} (h : Record x) :
    ∀ c ∈ Record.line x, 32 ≤ c.toNat ∧ c.toNat ≤ 126 := by
  intro c hc
  rcases List.mem_append.1 hc with hc | hc
  · exact identifierCharacter_range ((identifier_all h.identifier).2 c hc)
  · rcases List.mem_cons.1 hc with rfl | hc
    · decide
    · exact h.printable c hc

lemma foldlM_append_ok {f : Scan → Byte → Except Document Scan} {a b : Bytes} {t : Scan}
    (h : a.foldlM f s = .ok t) (h' : b.foldlM f t = .ok s') : (a ++ b).foldlM f s = .ok s' := by
  rw [List.foldlM_append, h]
  exact h'

/-- The lines of records with new keys are added to the document. -/
lemma fold_lines (hr : ∀ x ∈ pairs, Record x) (hd : (d.keys ++ pairs.map Prod.fst).Nodup)
    (hl : d.items.length + pairs.length ≤ maximum) :
    ∃ d' : Document, (lines pairs).foldlM turn { doc := d } = .ok { doc := d' }
      ∧ d'.pairs = d.pairs ++ pairs := by
  induction pairs generalizing d with
  | nil => exact ⟨d, rfl, (List.append_nil _).symm⟩
  | cons x pairs ih =>
    obtain ⟨key, value⟩ := x
    have hx : Record (key, value) := hr _ List.mem_cons_self
    rw [List.length_cons] at hl
    rw [List.map_cons] at hd
    have hnew : key ∉ d.keys := fun hk =>
      (List.nodup_append.1 hd).2.2 key hk key List.mem_cons_self rfl
    obtain ⟨split, h1, h2⟩ := fold_line (clean_start d) hx.bytes
    -- The document with the record: its texts are those that the line feed makes.
    have hk : key.length ≤ maxLength := le_trans hx.key (by decide)
    let y : Property := ⟨⟨key, hk, fun c hc =>
      identifierCharacter_range ((identifier_all hx.identifier).2 c hc)⟩,
      ⟨value, hx.value.2, hx.printable⟩⟩
    let d₁ : Document := d.add y (by omega)
    have hp : d₁.pairs = d.pairs ++ [(key, value)] := by simp [d₁, y, Document.pairs, Document.add]
    have h3 : turn ⟨d, Record.line (key, value), split⟩ 10 = .ok { doc := d₁ } :=
      (turn_feed h2).2 ⟨key, value, rfl, hx, hnew, hp, rfl⟩
    have hkeys : d₁.keys = d.keys ++ [key] := by
      rw [keys_eq, hp, List.map_append, ← keys_eq]
      rfl
    have hlen : d₁.items.length = d.items.length + 1 := by simp [d₁, Document.add]
    obtain ⟨d', h4, h5⟩ := ih (d := d₁) (fun x hx => hr x (List.mem_cons_of_mem _ hx))
      (by rw [hkeys, List.append_assoc]; exact hd) (by omega)
    refine ⟨d', ?_, by rw [h5, hp, List.append_assoc]; rfl⟩
    show (Record.line (key, value) ++ [10] ++ lines pairs).foldlM turn _ = _
    refine foldlM_append_ok (foldlM_append_ok h1 ?_) h4
    exact foldlM_cons_ok.2 ⟨_, h3, rfl⟩

lemma length_lines (hr : ∀ x ∈ pairs, Record x) : (lines pairs).length ≤ 4160 * pairs.length := by
  induction pairs with
  | nil => exact le_rfl
  | cons x pairs ih =>
    have h1 := ih fun x hx => hr x (List.mem_cons_of_mem _ hx)
    have h2 := (hr x List.mem_cons_self).length
    show (Record.line x ++ [10] ++ lines pairs).length ≤ _
    unfold Record.line
    rw [List.length_append, List.length_append, List.length_singleton, List.length_cons]
    omega

/-- **What is parsed** is a file, and its pairs in order. -/
theorem parse_ok {first : ℕ} (hf : first + data.length - 1 < integerLast) :
    parse first data = (d, .ok) ↔ IsFile data d.pairs := by
  unfold parse
  constructor
  · intro h
    split_ifs at h with h1
    · cases h
    cases hs : data.foldlM turn {} with
    | error d => rw [hs] at h; cases h
    | ok s =>
      rw [hs] at h
      obtain ⟨rfl, h3⟩ := Prod.mk.inj h
      split_ifs at h3 with h4
      have hseen : Seen data s := by
        refine foldlM_invariant (I := Seen) hs ⟨rfl, nofun, List.nodup_nil, clean_start _⟩ ?_
        exact fun _ _ _ _ _ h ht => h.turn ht
      obtain ⟨h5, h6, h7, -⟩ := hseen
      rw [h4.1, List.append_nil] at h5
      refine ⟨h6, ?_, by rwa [← keys_eq], h5⟩
      rw [length_pairs]
      exact ⟨h4.2, s.doc.count_le⟩
  · rintro ⟨h1, h2, h3, h4⟩
    have hlen := length_lines h1
    rw [← h4] at hlen
    have hne : data ≠ [] := by
      rintro rfl
      cases hp : d.pairs with
      | nil => simp [hp] at h2
      | cons x pairs => simp [hp, lines] at h4
    have hmax : ¬ maximum * 4160 < data.length := by
      have := h2.2
      unfold maximum at this ⊢
      omega
    rw [if_neg (by rintro (h | h | h) <;> [exact hne h; exact hmax h; omega])]
    obtain ⟨d', h5, h6⟩ := fold_lines (d := {}) h1 (by simpa [Document.keys] using h3)
      (by simpa using h2.2)
    rw [← h4] at h5
    obtain rfl : d' = d := pairs_inj h6
    have h7 : 0 < d'.items.length := by
      rw [← length_pairs]
      exact h2.1
    have h8 : data.foldlM turn {} = .ok { doc := d' } := h5
    rw [h8]
    dsimp only
    rw [if_pos ⟨rfl, h7⟩]

/-! ### Looking up keys -/

lemma mem_keys {word : Bytes} : word ∈ d.keys ↔ ∃ x ∈ d.items, x.key.image = word := by
  simp [Document.keys]

lemma get_present (hd : d.keys.Nodup) (h : (key, value) ∈ d.pairs) :
    (get d key).2 = .ok ∧ (get d key).1.image = value := by
  obtain ⟨x, hx, he⟩ := List.mem_map.1 h
  obtain ⟨rfl, rfl⟩ := Prod.mk.inj he
  unfold get
  cases hf : d.items.find? (·.key.image = x.key.image) with
  | none => simpa using List.find?_eq_none.1 hf x hx
  | some y =>
    have hy := List.mem_of_find?_eq_some hf
    have hk : y.key.image = x.key.image := by simpa using List.find?_some hf
    rw [List.inj_on_of_nodup_map hd hy hx hk]
    exact ⟨rfl, rfl⟩

lemma get_absent (h : key ∉ d.keys) : (get d key).2 ≠ .ok := by
  unfold get
  cases hf : d.items.find? (·.key.image = key) with
  | none => exact nofun
  | some y =>
    refine absurd (mem_keys.2 ⟨y, List.mem_of_find?_eq_some hf, ?_⟩) h
    simpa using List.find?_some hf

/-! ### Lists of keys -/

/-- The place of a key. -/
def placeOf (d : Document) (word : Bytes) : Option ℕ :=
  d.items.findIdx? (·.key.image = word)

variable {w w' : Bytes} {j : ℕ} {ws : List Bytes} {m m' : Match}

lemma exists_placeOf : (∃ j, placeOf d w = some j) ↔ w ∈ d.keys := by
  rw [mem_keys, placeOf, ← Option.isSome_iff_exists, List.findIdx?_isSome]
  simp

lemma placeOf_inj (h : placeOf d w = some j) (h' : placeOf d w' = some j) : w = w' := by
  obtain ⟨hj, h1, -⟩ := List.findIdx?_eq_some_iff_getElem.1 h
  obtain ⟨_, h2, -⟩ := List.findIdx?_eq_some_iff_getElem.1 h'
  simp only [decide_eq_true_eq] at h1 h2
  rw [← h1, h2]

/-- The words of a list, each with a comma after it. -/
def joined (ws : List Bytes) : Bytes := ws.flatMap (· ++ [44])

/-- What has been read when `m` is reached: different keys, and a word without a comma. -/
structure Matched (d : Document) (ws : List Bytes) (m : Match) : Prop where
  nodup : ws.Nodup
  keys : ∀ w ∈ ws, w ∈ d.keys
  commas : ∀ w ∈ ws, (44 : Byte) ∉ w
  word : (44 : Byte) ∉ m.word
  seen : ∀ j, j ∈ m.seen ↔ ∃ w ∈ ws, placeOf d w = some j
  n : m.n = ws.length

/-- **A comma** ends a key that has not been seen before, or the matching. -/
lemma comma_some (h : Matched d ws m) : matchTurn d m 44 = some m' ↔
    m.word ≠ [] ∧ m.word ∈ d.keys ∧ m.word ∉ ws ∧ ws.length < maximum ∧ m'.word = []
      ∧ m'.n = m.n + 1 ∧ ∃ j, placeOf d m.word = some j ∧ m'.seen = m.seen ++ [j] := by
  have hseen : ∀ j, placeOf d m.word = some j → (j ∈ m.seen ↔ m.word ∈ ws) := by
    intro j hj
    rw [h.seen]
    exact ⟨fun ⟨w, hw, hwj⟩ => placeOf_inj hj hwj ▸ hw, fun hw => ⟨_, hw, hj⟩⟩
  unfold matchTurn
  rw [if_pos rfl]
  constructor
  · intro h1
    by_cases h2 : m.word = []
    · rw [if_pos h2] at h1; cases h1
    rw [if_neg h2] at h1
    cases hj : d.items.findIdx? (·.key.image = m.word) with
    | none => rw [hj] at h1; cases h1
    | some j =>
      rw [hj] at h1
      dsimp only at h1
      split_ifs at h1 with h3 h4
      have hlen : ws.length ≤ maximum := by
        have h5 := List.Nodup.subperm h.nodup h.keys
        have h6 := h5.length_le
        have h7 := d.count_le
        rw [Document.keys, List.length_map] at h6
        omega
      have hn := h.n
      obtain rfl := Option.some.inj h1
      exact ⟨h2, exists_placeOf.1 ⟨j, hj⟩, fun hw => h3 ((hseen j hj).2 hw), by omega, rfl, rfl,
        j, hj, rfl⟩
  · rintro ⟨h1, -, h3, h4, h5, h6, j, h7, h8⟩
    have hj : d.items.findIdx? (·.key.image = m.word) = some j := h7
    have hn := h.n
    rw [if_neg h1, hj]
    dsimp only
    rw [if_neg fun hs => h3 ((hseen j h7).1 hs), if_neg (by omega)]
    cases m'
    rw [← h5, ← h6, ← h8]

lemma Matched.comma (h : Matched d ws m) (ht : matchTurn d m 44 = some m') :
    Matched d (ws ++ [m.word]) m' ∧ m'.word = [] := by
  obtain ⟨h1, h2, h3, h4, h5, h6, j, h7, h8⟩ := (comma_some h).1 ht
  refine ⟨⟨?_, ?_, ?_, by rw [h5]; exact nofun, fun i => ?_, ?_⟩, h5⟩
  · refine List.nodup_append.2 ⟨h.nodup, List.nodup_singleton _, fun a ha b hb => ?_⟩
    rw [List.mem_singleton.1 hb]
    rintro rfl
    exact h3 ha
  · intro w hw
    rcases List.mem_append.1 hw with hw | hw
    · exact h.keys w hw
    · rwa [List.mem_singleton.1 hw]
  · intro w hw
    rcases List.mem_append.1 hw with hw | hw
    · exact h.commas w hw
    · rw [List.mem_singleton.1 hw]
      exact h.word
  · rw [h8, List.mem_append, List.mem_singleton, h.seen]
    simp only [List.mem_append, List.mem_singleton, or_and_right, exists_or, exists_eq_left, h7,
      Option.some.injEq]
    exact or_congr_right eq_comm
  · rw [h6, h.n, List.length_append, List.length_singleton]

/-- A byte that is not a comma becomes part of the word. -/
lemma matchTurn_byte (h : c ≠ 44) (m : Match) :
    matchTurn d m c = some { m with word := m.word ++ [c] } := by
  unfold matchTurn
  rw [if_neg h]

lemma joined_append (ws ws' : List Bytes) : joined (ws ++ ws') = joined ws ++ joined ws' :=
  List.flatMap_append

/-- What is known of the words of a list as far as it has been gone through. -/
lemma fold_sound {read more : Bytes} (hw : Matched d ws m) (hr : read = joined ws ++ m.word)
    (h : more.foldlM (matchTurn d) m = some m') :
    ∃ ws', read ++ more = joined ws' ++ m'.word ∧ Matched d ws' m' := by
  induction more generalizing read ws m with
  | nil =>
    obtain rfl : m = m' := Option.some.inj h
    exact ⟨ws, by rw [List.append_nil, hr], hw⟩
  | cons c more ih =>
    rw [List.foldlM_cons, Option.bind_eq_bind, Option.bind_eq_some_iff] at h
    obtain ⟨m₁, h1, h2⟩ := h
    rw [List.append_cons]
    by_cases hc : c = 44
    · subst hc
      obtain ⟨h3, h4⟩ := hw.comma h1
      refine ih h3 ?_ h2
      rw [h4, hr, joined_append]
      simp [joined]
    · rw [matchTurn_byte hc, Option.some.injEq] at h1
      obtain ⟨h3, h4, h5, h6, h7, h8⟩ := hw
      have h9 : (44 : Byte) ∉ m.word ++ [c] := fun hin => by
        rcases List.mem_append.1 hin with hin | hin
        · exact h6 hin
        · exact hc (List.mem_singleton.1 hin).symm
      subst h1
      exact ih (m := { m with word := m.word ++ [c] }) ⟨h3, h4, h5, h9, h7, h8⟩
        (by rw [hr, List.append_assoc]) h2

lemma fold_word (h : (44 : Byte) ∉ w) (m : Match) :
    w.foldlM (matchTurn d) m = some { m with word := m.word ++ w } := by
  induction w generalizing m with
  | nil => rw [List.append_nil]; rfl
  | cons c w ih =>
    have hc : c ≠ 44 := fun he => h (he ▸ List.mem_cons_self)
    rw [List.foldlM_cons, matchTurn_byte hc, Option.bind_eq_bind, Option.bind_some,
      ih fun hin => h (List.mem_cons_of_mem _ hin)]
    rw [List.append_assoc]
    rfl

/-- A list of different keys is matched. -/
lemma fold_complete {ks : List Bytes} (hw : Matched d ws m) (hm : m.word = [])
    (hk : ∀ k ∈ ks, k ∈ d.keys ∧ k ≠ [] ∧ (44 : Byte) ∉ k) (hd : (ws ++ ks).Nodup)
    (hl : (ws ++ ks).length ≤ maximum) :
    ∃ m', (joined ks).foldlM (matchTurn d) m = some m' ∧ Matched d (ws ++ ks) m' := by
  induction ks generalizing ws m with
  | nil => exact ⟨m, rfl, by rwa [List.append_nil]⟩
  | cons k ks ih =>
    obtain ⟨h1, h2, h3⟩ := hk k List.mem_cons_self
    have h4 := fold_word (d := d) h3 m
    rw [hm, List.nil_append] at h4
    obtain ⟨j, hj⟩ := exists_placeOf.2 h1
    have hw' : Matched d ws { m with word := k } :=
      ⟨hw.nodup, hw.keys, hw.commas, h3, hw.seen, hw.n⟩
    have hnew : k ∉ ws := fun hin => (List.nodup_append.1 hd).2.2 k hin k List.mem_cons_self rfl
    rw [List.length_append, List.length_cons] at hl
    have h5 : matchTurn d { m with word := k } 44 = some ⟨[], m.seen ++ [j], m.n + 1⟩ :=
      (comma_some hw').2 ⟨h2, h1, hnew, by omega, rfl, rfl, j, hj, rfl⟩
    obtain ⟨h6, h7⟩ := hw'.comma h5
    rw [List.append_cons] at hd
    obtain ⟨m', h8, h9⟩ := ih h6 h7 (fun k hk' => hk k (List.mem_cons_of_mem _ hk')) hd (by
      rw [List.length_append, List.length_append, List.length_singleton]
      omega)
    rw [← List.append_cons] at h9
    refine ⟨m', ?_, h9⟩
    show (k ++ [44] ++ joined ks).foldlM (matchTurn d) m = some m'
    rw [List.foldlM_append, List.foldlM_append, h4]
    simp only [Option.bind_eq_bind, Option.bind_some, List.foldlM_cons, List.foldlM_nil, h5,
      Option.pure_def, h8]

lemma length_joined (ks : List Bytes) (h : ∀ k ∈ ks, k.length ≤ 63) :
    (joined ks).length ≤ 64 * ks.length := by
  induction ks with
  | nil => exact le_rfl
  | cons k ks ih =>
    have h1 := h k List.mem_cons_self
    have h2 := ih fun k hk => h k (List.mem_cons_of_mem _ hk)
    show (k ++ [44] ++ joined ks).length ≤ _
    simp only [List.length_append, List.length_cons, List.length_nil]
    omega

/-- **The list names exactly the keys**, each of them once. -/
theorem hasExactly_iff {first : ℕ} (hr : ∀ x ∈ d.pairs, Record x) (hd : d.keys.Nodup) {keys : Bytes}
    (hf : first + keys.length - 1 < integerLast - 1) :
    hasExactly first d keys = true ↔ (keys.splitOn 44).Perm d.keys := by
  have hkeys : ∀ k ∈ d.keys, k ≠ [] ∧ k.length ≤ 63 ∧ (44 : Byte) ∉ k := by
    intro k hk
    rw [keys_eq] at hk
    obtain ⟨x, hx, rfl⟩ := List.mem_map.1 hk
    have h1 := identifier_all (hr x hx).identifier
    exact ⟨h1.1, (hr x hx).key, fun h => (identifierCharacter_ne (h1.2 _ h)).1 rfl⟩
  have hcount : d.keys.length = d.items.length := List.length_map _
  have hstart : Matched d [] {} := ⟨List.nodup_nil, nofun, nofun, nofun, by simp, rfl⟩
  have hne : keys.splitOn 44 ≠ [] := List.splitOn_ne_nil _ _
  have hjoin : keys ++ [44] = joined (keys.splitOn 44) := by
    rw [joined, flatMap_sep hne, List.intercalate_splitOn]
  unfold hasExactly
  constructor
  · intro h
    split_ifs at h
    cases hs : (keys ++ [44]).foldlM (matchTurn d) {} with
    | none => rw [hs] at h; cases h
    | some s =>
      rw [hs] at h
      have hn : s.n = d.items.length := by simpa using h
      rw [List.foldlM_append, Option.bind_eq_bind, Option.bind_eq_some_iff] at hs
      obtain ⟨m, h1, h2⟩ := hs
      obtain ⟨ws, h3, h4⟩ := fold_sound hstart (rfl : ([] : Bytes) = joined [] ++ []) h1
      have h5 : matchTurn d m 44 = some s := by simpa using h2
      obtain ⟨h6, -⟩ := h4.comma h5
      -- The words that have been read are those of the list.
      have hws : keys.splitOn 44 = ws ++ [m.word] := by
        have h7 : keys ++ [44] = joined (ws ++ [m.word]) := by
          rw [← List.nil_append keys, h3, joined_append]
          simp [joined]
        rw [joined, flatMap_sep (by simp)] at h7
        rw [List.append_cancel_right h7]
        exact List.splitOn_intercalate 44 h6.commas (by simp)
      rw [hws]
      refine (List.Nodup.subperm h6.nodup h6.keys).perm_of_length_le ?_
      rw [hcount, ← hn, h6.n]
  · intro h
    have hlen := length_joined (keys.splitOn 44) fun k hk => (hkeys k (h.mem_iff.1 hk)).2.1
    have hc := d.count_le
    rw [h.length_eq, hcount, ← hjoin, List.length_append, List.length_singleton] at hlen
    have hnil : keys ≠ [] := by
      rintro rfl
      exact (hkeys [] (h.mem_iff.1 (by simp))).1 rfl
    have hmax : ¬ maximum * 64 < keys.length := by
      unfold maximum at hc ⊢
      omega
    have hwords : ∀ k ∈ keys.splitOn 44, k ∈ d.keys ∧ k ≠ [] ∧ (44 : Byte) ∉ k := fun k hk => by
      obtain ⟨h3, -, h4⟩ := hkeys k (h.mem_iff.1 hk)
      exact ⟨h.mem_iff.1 hk, h3, h4⟩
    obtain ⟨m, h1, h2⟩ := fold_complete hstart rfl hwords (h.nodup_iff.2 hd)
      (by rw [List.nil_append, h.length_eq, hcount]; exact hc)
    rw [if_neg (by rintro (h | h | h) <;> [exact hnil h; exact hmax h; omega]), hjoin, h1]
    have h3 := h2.n
    rw [List.nil_append, h.length_eq, hcount] at h3
    simpa using h3

/-- **Property files.** What is parsed is a file, and its pairs in order; a key that is there has
its value and one that is not has none; and a list names exactly the keys if it is a permutation
of them. -/
theorem parse_spec {first : ℕ} (hf : first + data.length - 1 < integerLast) :
    ((parse first data).2 = .ok ↔ ∃ pairs, IsFile data pairs) ∧
    ∀ d, parse first data = (d, .ok) → IsFile data d.pairs ∧
      (∀ key value, (key, value) ∈ d.pairs →
        (get d key).2 = .ok ∧ (get d key).1.image = value) ∧
      (∀ key, key ∉ d.keys → (get d key).2 ≠ .ok) ∧
      ∀ first' keys, first' + keys.length - 1 < integerLast - 1 →
        (hasExactly first' d keys = true ↔ (keys.splitOn 44).Perm d.keys) := by
  refine ⟨⟨fun h => ⟨_, (parse_ok hf).1 (Prod.ext rfl h)⟩, ?_⟩, fun d h => ?_⟩
  · rintro ⟨pairs, h⟩
    obtain ⟨d, -, h2⟩ := fold_lines (d := {}) h.records (by simpa [Document.keys] using h.nodup)
      (by simpa using h.count.2)
    have hp : d.pairs = pairs := h2
    rw [(parse_ok (d := d) hf).2 (hp ▸ h)]
  · have hd := (parse_ok hf).1 h
    have hn : d.keys.Nodup := by
      rw [keys_eq]
      exact hd.nodup
    exact ⟨hd, fun _ _ => get_present hn, fun _ => get_absent,
      fun _ _ => hasExactly_iff hd.records hn⟩

/-- `a=b` -/
def someFile : Bytes := [97, 61, 98, 10]

lemma someFile_isFile : IsFile someFile [([97], [98])] := by
  refine ⟨fun x hx => ?_, by decide, by decide, by decide⟩
  rw [List.mem_singleton.1 hx]
  exact ⟨by decide, by decide, by decide, by decide, by decide⟩

theorem parse_spec_someFile : (parse 1 someFile).2 = .ok :=
  (parse_spec (show 1 + someFile.length - 1 < integerLast by decide)).1.2 ⟨_, someFile_isFile⟩

/-- A file in an array that ends at the last index there is. -/
theorem parse_at_last : ¬ ∀ (first : ℕ) (data : Bytes) (pairs : List (Bytes × Bytes)),
    first + data.length - 1 ≤ integerLast → IsFile data pairs → (parse first data).2 = .ok :=
  fun h => absurd (h (integerLast - 3) someFile _ (by decide) someFile_isFile) (by decide +kernel)

end NiayanAssurance.Properties
