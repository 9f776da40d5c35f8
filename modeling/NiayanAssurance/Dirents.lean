import NiayanAssurance.Text
import NiayanAssurance.Lib.Sorting
import Mathlib.Data.List.GetD

/-!
The names in a directory, read from the records of `getdents64`.
-/

namespace NiayanAssurance.Dirents

open NiayanAssurance.Lib NiayanAssurance.Types NiayanAssurance.Text

abbrev maxNames : ℕ := 512

/-- A name, by its image. -/
@[ext] structure Name where
  image : Bytes
  length_le : image.length ≤ 255

instance : DecidableEq Name := fun _ _ => decidable_of_iff _ Name.ext_iff.symm

@[ext] structure Listing where
  names : List Name := []
  count_le : names.length ≤ maxNames := by decide
  deriving DecidableEq

def Listing.images (l : Listing) : List Bytes := l.names.map (·.image)

/-- `.` and `..` -/
def dots (name : Bytes) : Prop := name = [46] ∨ name = [46, 46]

instance (name : Bytes) : Decidable (dots name) := by unfold dots; infer_instance

/-- The length that a record says it has. -/
def recordLength (rest : Bytes) : ℕ := (rest.getD 16 0).toNat + (rest.getD 17 0).toNat * 256

/-- The bytes of a record from its name on, and those before the first zero. -/
def tailOf (rest : Bytes) : Bytes := (rest.take (recordLength rest)).drop 19

def nameOf (rest : Bytes) : Bytes := (tailOf rest).takeWhile (· ≠ 0)

/-- One turn of the loop of `Append_Linux64_LE`, on what is left of the buffer. -/
def turn (rest : Bytes) (w : Listing) : Except Outcome Listing :=
  if rest.length < 20 then .error .corrupt
  else if recordLength rest < 20 ∨ rest.length < recordLength rest then .error .corrupt
  else if h : (nameOf rest).length = (tailOf rest).length ∨ nameOf rest = []
      ∨ 255 < (nameOf rest).length then .error .corrupt
  else if 47 ∈ nameOf rest then .error .corrupt
  else if dots (nameOf rest) then .ok w
  else if ∃ n ∈ w.names, n.image = nameOf rest then .error .corrupt
  else if hc : w.names.length = maxNames then .error .exhausted
  else
    .ok ⟨w.names ++ [⟨nameOf rest, by omega⟩], by
      have := w.count_le
      simp only [List.length_append, List.length_singleton]
      omega⟩

/-- The loop, with at most `fuel` turns; every record takes a byte at least. -/
def records : (fuel : ℕ) → Bytes → Listing → Except Outcome Listing
  | _, [], w => .ok w
  | 0, _ :: _, _ => .error .corrupt
  | fuel + 1, x :: rest, w =>
    match turn (x :: rest) w with
    | .error o => .error o
    | .ok w => records fuel ((x :: rest).drop (recordLength (x :: rest))) w

/-- `Append_Linux64_LE`, of a buffer whose first index is `first`. -/
def appendLinux64LE (first : ℕ) (data : Bytes) (l : Listing) : Listing × Outcome :=
  if data = [] then (l, .ok)
  else if first + data.length - 1 = integerLast then (l, .corrupt)
  else
    match records data.length data l with
    | .error o => (l, o)
    | .ok w => (w, .ok)

def Listing.sort (l : Listing) : Listing where
  names := insertionSort (fun a b => Before a.image b.image) l.names
  count_le := by
    rw [length_insertionSort]
    exact l.count_le

/-! ### What a buffer says -/

/-- A record of the kernel, with the name it holds. -/
structure WellFormed (r name : Bytes) : Prop where
  long : 20 ≤ r.length
  length : recordLength r = r.length
  terminated : ∃ rest, r.drop 19 = name ++ 0 :: rest
  noNul : (0 : Byte) ∉ name
  noSlash : (47 : Byte) ∉ name
  size : 1 ≤ name.length ∧ name.length ≤ 255

/-- A buffer that is a row of records, and their names. -/
inductive Reads : Bytes → List Bytes → Prop
  | nil : Reads [] []
  | cons {r name rest : Bytes} {names : List Bytes} (h : WellFormed r name)
      (hr : Reads rest names) : Reads (r ++ rest) (name :: names)

/-- The names that are listed. -/
def listed (names : List Bytes) : List Bytes := names.filter (¬ dots ·)

variable {r name rest b : Bytes} {names : List Bytes} {w w' l : Listing}

lemma recordLength_append (h : 20 ≤ r.length) : recordLength (r ++ rest) = recordLength r := by
  unfold recordLength
  rw [List.getD_append _ _ _ _ (by omega), List.getD_append _ _ _ _ (by omega)]

lemma takeWhile_terminated (h : (0 : Byte) ∉ name) (rest : Bytes) :
    (name ++ 0 :: rest).takeWhile (· ≠ 0) = name := by
  rw [List.takeWhile_append_of_pos fun x hx => by simpa using fun h0 : x = 0 => h (h0 ▸ hx)]
  simp

/-- What is found of a record that more bytes follow. -/
lemma WellFormed.found (h : WellFormed r name) (rest : Bytes) :
    recordLength (r ++ rest) = r.length ∧ tailOf (r ++ rest) = r.drop 19
      ∧ nameOf (r ++ rest) = name := by
  have h1 : recordLength (r ++ rest) = r.length := by
    rw [recordLength_append h.long, h.length]
  have h2 : tailOf (r ++ rest) = r.drop 19 := by
    rw [tailOf, h1, List.take_left]
  obtain ⟨t, ht⟩ := h.terminated
  exact ⟨h1, h2, by rw [nameOf, h2, ht, takeWhile_terminated h.noNul]⟩

/-- **One turn** takes a record that is well formed, and lists its name if it is a new one. -/
lemma turn_ok : turn b w = .ok w' ↔ ∃ r rest name, b = r ++ rest ∧ WellFormed r name ∧
    (dots name ∧ w' = w ∨ ¬ dots name ∧ name ∉ w.images ∧ w'.images = w.images ++ [name]) := by
  have hmem : ∀ n, (∃ m ∈ w.names, m.image = n) ↔ n ∈ w.images := fun n => by
    simp [Listing.images]
  constructor
  · intro h
    unfold turn at h
    split_ifs at h with h1 h2 h3 h4 h5 h6 h7
    all_goals
      push Not at h1 h2 h3
      have hr : (b.take (recordLength b)).length = recordLength b := by
        rw [List.length_take]
        omega
      have hw : WellFormed (b.take (recordLength b)) (nameOf b) := by
        refine ⟨by omega, ?_, ?_, ?_, h4, ?_, h3.2.2⟩
        · rw [hr]
          conv_rhs => rw [← List.take_append_drop (recordLength b) b]
          rw [recordLength_append (by omega)]
        · refine ⟨(tailOf b).drop ((nameOf b).length + 1), ?_⟩
          show tailOf b = _
          have hs : nameOf b ++ (tailOf b).dropWhile (· ≠ 0) = tailOf b :=
            List.takeWhile_append_dropWhile
          cases hd : (tailOf b).dropWhile (· ≠ 0) with
          | nil =>
            rw [hd, List.append_nil] at hs
            exact absurd (congrArg List.length hs) h3.1
          | cons x t =>
            have hx : x = 0 := by
              have := List.head?_dropWhile_not (· ≠ (0 : Byte)) (tailOf b)
              rw [hd] at this
              simpa using this
            rw [hd, hx] at hs
            have hdrop : (tailOf b).drop ((nameOf b).length + 1) = t := by
              rw [← hs]
              simp
            rw [hdrop, hs]
        · intro h0
          have := List.mem_takeWhile_imp h0
          simp at this
        · exact List.length_pos_iff.2 h3.2.1
      refine ⟨_, b.drop (recordLength b), _, (List.take_append_drop _ _).symm, hw, ?_⟩
    · exact .inl ⟨h5, (Except.ok.inj h).symm⟩
    · refine .inr ⟨h5, fun hn => h6 ((hmem _).2 hn), ?_⟩
      rw [← Except.ok.inj h]
      simp [Listing.images]
  · rintro ⟨r, rest, name, rfl, hw, h⟩
    obtain ⟨h1, h2, h3⟩ := hw.found rest
    obtain ⟨t, ht⟩ := hw.terminated
    have hl := hw.long
    have hsz := hw.size
    unfold turn
    rw [if_neg (by rw [List.length_append]; omega),
      if_neg (by rw [h1, List.length_append]; omega), dif_neg,
      if_neg (by rw [h3]; exact hw.noSlash)]
    · rcases h with ⟨h4, rfl⟩ | ⟨h4, h5, h6⟩
      · rw [if_pos (by rw [h3]; exact h4)]
      · have h7 : ¬ ∃ n ∈ w.names, n.image = nameOf (r ++ rest) := by
          rw [hmem, h3]
          exact h5
        have h8 : w.names.length ≠ maxNames := by
          have h9 := congrArg List.length h6
          have h10 := w'.count_le
          simp only [Listing.images, List.length_map, List.length_append,
            List.length_singleton] at h9
          omega
        rw [if_neg (by rw [h3]; exact h4), if_neg h7, dif_neg h8]
        congr 1
        ext1
        refine List.map_injective_iff.2 (fun a b h => Name.ext h) ?_
        refine Eq.trans ?_ h6.symm
        simp [Listing.images, h3]
    · rw [h2, h3, ht]
      simp only [List.length_append, List.length_cons]
      rintro (h | rfl | h)
      · omega
      · simp at hsz
      · omega

lemma WellFormed.pos (h : WellFormed r name) : r ≠ [] := by
  have := h.long
  rintro rfl
  simp at this

/-- A buffer begins with one record at most. -/
lemma WellFormed.unique {r' name' rest' : Bytes} (h : WellFormed r name)
    (h' : WellFormed r' name') (he : r ++ rest = r' ++ rest') :
    r = r' ∧ name = name' ∧ rest = rest' := by
  obtain ⟨h1, -, h3⟩ := h.found rest
  obtain ⟨h1', -, h3'⟩ := h'.found rest'
  rw [he] at h1 h3
  have hl : r.length = r'.length := h1.symm.trans h1'
  obtain ⟨e1, e2⟩ := List.append_inj he hl
  exact ⟨e1, h3.symm.trans h3', e2⟩

lemma reads_append {b₁ b₂ : Bytes} {names₁ : List Bytes} (h₁ : Reads b₁ names₁) :
    Reads (b₁ ++ b₂) names ↔ ∃ names₂, names = names₁ ++ names₂ ∧ Reads b₂ names₂ := by
  induction h₁ generalizing names with
  | nil => simp
  | @cons r name rest names' hw _ ih =>
    rw [List.append_assoc]
    constructor
    · intro h
      generalize hb : r ++ (rest ++ b₂) = b at h
      cases h with
      | nil => exact absurd (List.append_eq_nil_iff.1 hb).1 hw.pos
      | cons hw' hr =>
        obtain ⟨rfl, rfl, rfl⟩ := hw.unique hw' hb
        obtain ⟨names₂, rfl, h2⟩ := ih.1 hr
        exact ⟨names₂, rfl, h2⟩
    · rintro ⟨names₂, rfl, h2⟩
      exact .cons hw (ih.2 ⟨names₂, rfl, h2⟩)

lemma images_le (l : Listing) : l.images.length ≤ maxNames := by
  rw [Listing.images, List.length_map]
  exact l.count_le

lemma images_inj (h : w.images = w'.images) : w = w' :=
  Listing.ext (List.map_injective_iff.2 (fun _ _ h => Name.ext h) h)

/-- The listing with these images, of names that are read. -/
lemma exists_listing (h : w.images.length + 1 ≤ maxNames) (hn : name.length ≤ 255) :
    ∃ w' : Listing, w'.images = w.images ++ [name] := by
  rw [Listing.images, List.length_map] at h
  exact ⟨⟨w.names ++ [⟨name, hn⟩], by simpa using h⟩, by simp [Listing.images]⟩

lemma listed_cons (name : Bytes) (names : List Bytes) :
    listed (name :: names) = if dots name then listed names else name :: listed names := by
  unfold listed
  by_cases h : dots name <;> simp [h]

lemma reads_nil : Reads [] names ↔ names = [] := by
  constructor
  · intro h
    generalize hb : ([] : Bytes) = b at h
    cases h with
    | nil => rfl
    | cons hw _ => exact absurd (List.append_eq_nil_iff.1 hb.symm).1 hw.pos
  · rintro rfl
    exact .nil

lemma reads_cons (hb : b ≠ []) (h : Reads b names) : ∃ r rest name names', b = r ++ rest
    ∧ WellFormed r name ∧ Reads rest names' ∧ names = name :: names' := by
  cases h with
  | nil => exact absurd rfl hb
  | cons hw hr => exact ⟨_, _, _, _, rfl, hw, hr, rfl⟩

lemma nodup_snoc (hw : w.images.Nodup) (hn : name ∉ w.images) : (w.images ++ [name]).Nodup := by
  refine List.nodup_append.2 ⟨hw, List.nodup_singleton _, fun a ha c hc => ?_⟩
  rw [List.mem_singleton.1 hc]
  rintro rfl
  exact hn ha

lemma records_nil {fuel : ℕ} (hw : w.images.Nodup) :
    records fuel [] w = .ok w' ↔ ∃ names, Reads [] names ∧ (w.images ++ listed names).Nodup
      ∧ w'.images = w.images ++ listed names := by
  have h : records fuel [] w = .ok w := by cases fuel <;> rfl
  rw [h, Except.ok.injEq]
  simp only [reads_nil, exists_eq_left, listed, List.filter_nil, List.append_nil]
  exact ⟨fun h => ⟨hw, by rw [h]⟩, fun h => images_inj h.2.symm⟩

/-- **The loop** reads a row of records, and lists their names if they are new and there is room
for them. -/
lemma records_ok {fuel : ℕ} (hf : b.length ≤ fuel) (hw : w.images.Nodup) :
    records fuel b w = .ok w' ↔ ∃ names, Reads b names ∧ (w.images ++ listed names).Nodup
      ∧ w'.images = w.images ++ listed names := by
  induction fuel generalizing b w with
  | zero =>
    obtain rfl : b = [] := List.length_eq_zero_iff.1 (by omega)
    exact records_nil hw
  | succ fuel ih =>
    cases b with
    | nil => exact records_nil hw
    | cons x b =>
      have hne : x :: b ≠ [] := nofun
      rw [records]
      generalize x :: b = b at hf hne
      -- A record at the head of the buffer leaves what follows it.
      have hnext : ∀ {r rest name}, b = r ++ rest → WellFormed r name →
          b.drop (recordLength b) = rest ∧ rest.length ≤ fuel := by
        rintro r rest name rfl hw
        have hl := hw.long
        rw [List.length_append] at hf
        rw [(hw.found rest).1, List.drop_left]
        exact ⟨rfl, by omega⟩
      constructor
      · intro h
        cases ht : turn b w with
        | error o => rw [ht] at h; cases h
        | ok w₁ =>
          rw [ht] at h
          obtain ⟨r, rest, name, hb, hwf, h1⟩ := turn_ok.1 ht
          obtain ⟨h2, h3⟩ := hnext hb hwf
          dsimp only at h
          rw [h2] at h
          rcases h1 with ⟨h4, rfl⟩ | ⟨h4, h5, h6⟩
          · obtain ⟨names, h7, h8, h9⟩ := (ih h3 hw).1 h
            refine ⟨name :: names, hb ▸ .cons hwf h7, ?_⟩
            rw [listed_cons, if_pos h4]
            exact ⟨h8, h9⟩
          · have hw₁ : w₁.images.Nodup := h6 ▸ nodup_snoc hw h5
            obtain ⟨names, h7, h8, h9⟩ := (ih h3 hw₁).1 h
            refine ⟨name :: names, hb ▸ .cons hwf h7, ?_⟩
            rw [h6, List.append_assoc] at h8 h9
            rw [listed_cons, if_neg h4]
            exact ⟨h8, h9⟩
      · rintro ⟨names, hr, hd, hi⟩
        obtain ⟨r, rest, name, names, hb, hwf, hr', rfl⟩ := reads_cons hne hr
        obtain ⟨h2, h3⟩ := hnext hb hwf
        rw [listed_cons] at hd hi
        by_cases h4 : dots name
        · rw [if_pos h4] at hd hi
          rw [turn_ok.2 ⟨r, rest, name, hb, hwf, .inl ⟨h4, rfl⟩⟩]
          dsimp only
          rw [h2]
          exact (ih h3 hw).2 ⟨names, hr', hd, hi⟩
        · rw [if_neg h4] at hd hi
          have hroom : w.images.length + 1 ≤ maxNames := by
            have h5 := images_le w'
            rw [hi, List.length_append, List.length_cons] at h5
            omega
          obtain ⟨w₁, h6⟩ := exists_listing hroom hwf.size.2
          have h7 : name ∉ w.images := fun h7 =>
            (List.nodup_append.1 hd).2.2 name h7 name List.mem_cons_self rfl
          rw [turn_ok.2 ⟨r, rest, name, hb, hwf, .inr ⟨h4, h7, h6⟩⟩]
          dsimp only
          rw [h2]
          refine (ih h3 (h6 ▸ nodup_snoc hw h7)).2 ⟨names, hr', ?_, ?_⟩ <;>
            rw [h6, List.append_assoc]
          · exact hd
          · exact hi

/-! ### Buffers -/

lemma append_cases (first : ℕ) (b : Bytes) (l : Listing) :
    (appendLinux64LE first b l).2 = .ok ∨ (appendLinux64LE first b l).1 = l := by
  unfold appendLinux64LE
  split
  · exact .inl rfl
  split
  · exact .inr rfl
  cases records b.length b l with
  | error o => exact .inr rfl
  | ok w => exact .inl rfl

/-- A failed record leaves with a status that is not `OK`. -/
lemma records_error {fuel : ℕ} {o : Outcome} (h : records fuel b w = .error o) : o ≠ .ok := by
  induction fuel generalizing b w with
  | zero =>
    cases b with
    | nil => cases h
    | cons x b => cases h; decide
  | succ fuel ih =>
    cases b with
    | nil => cases h
    | cons x b =>
      rw [records] at h
      cases ht : turn (x :: b) w with
      | ok w₁ => rw [ht] at h; exact ih h
      | error o' =>
        rw [ht] at h
        cases h
        unfold turn at ht
        split_ifs at ht <;> cases ht <;> decide

/-- **What is appended**: the names of a row of records, if they are new and there is room. -/
theorem append_ok (first : ℕ) (hd : l.images.Nodup) (hl : first + b.length - 1 < integerLast) :
    appendLinux64LE first b l = (w', .ok) ↔ ∃ names, Reads b names
      ∧ (l.images ++ listed names).Nodup ∧ w'.images = l.images ++ listed names := by
  rw [← records_ok le_rfl hd]
  unfold appendLinux64LE
  by_cases hb : b = []
  · subst hb
    have h : records ([] : Bytes).length [] l = .ok l := rfl
    rw [if_pos rfl, h, Prod.mk.injEq, and_iff_left rfl, Except.ok.injEq]
  rw [if_neg hb, if_neg (by omega)]
  cases hr : records b.length b l with
  | error o =>
    refine ⟨fun h => ?_, nofun⟩
    exact absurd (Prod.mk.inj h).2 (records_error hr)
  | ok w => rw [Prod.mk.injEq, and_iff_left rfl, Except.ok.injEq]

lemma reads_size (h : Reads b names) : ∀ n ∈ names, n.length ≤ 255 := by
  induction h with
  | nil => exact nofun
  | cons hw _ ih =>
    intro n hn
    rcases List.mem_cons.1 hn with rfl | hn
    · exact hw.size.2
    · exact ih n hn

lemma exists_images {m : List Bytes} (hn : ∀ n ∈ m, n.length ≤ 255)
    (hc : (l.images ++ m).length ≤ maxNames) : ∃ w' : Listing, w'.images = l.images ++ m := by
  refine ⟨⟨l.names ++ m.pmap Name.mk hn, ?_⟩, ?_⟩
  · simpa [Listing.images] using hc
  · simp [Listing.images, List.map_pmap]

lemma reads_unique {names' : List Bytes} (h : Reads b names) (h' : Reads b names') :
    names = names' := by
  rw [← List.append_nil b] at h'
  obtain ⟨names₂, rfl, h2⟩ := (reads_append h).1 h'
  rw [reads_nil.1 h2, List.append_nil]

lemma listed_append (names names' : List Bytes) :
    listed (names ++ names') = listed names ++ listed names' := List.filter_append _ _

/-- Reading a buffer at once is reading its two parts, one after the other. -/
lemma append_split {b₁ b₂ : Bytes} {names₁ : List Bytes} {first f₁ f₂ : ℕ}
    (hd : l.images.Nodup) (hr : Reads b₁ names₁)
    (h : first + (b₁ ++ b₂).length - 1 < integerLast) (h1 : f₁ + b₁.length - 1 < integerLast)
    (h2 : f₂ + b₂.length - 1 < integerLast) :
    appendLinux64LE first (b₁ ++ b₂) l = (w', .ok) ↔
      ∃ l₁, appendLinux64LE f₁ b₁ l = (l₁, .ok) ∧ appendLinux64LE f₂ b₂ l₁ = (w', .ok) := by
  rw [append_ok first hd h]
  constructor
  · rintro ⟨names, hn, h3, h4⟩
    obtain ⟨names₂, rfl, hr₂⟩ := (reads_append hr).1 hn
    rw [listed_append, ← List.append_assoc] at h3 h4
    have h5 : (l.images ++ listed names₁).Nodup := h3.sublist (List.sublist_append_left _ _)
    obtain ⟨l₁, h6⟩ := exists_images (l := l) (m := listed names₁)
      (fun n hn => reads_size hr n (List.mem_filter.1 hn).1) (by
        have h7 := images_le w'
        rw [h4, List.length_append] at h7
        omega)
    refine ⟨l₁, (append_ok f₁ hd h1).2 ⟨names₁, hr, h5, h6⟩, ?_⟩
    rw [append_ok f₂ (h6 ▸ h5) h2, h6]
    exact ⟨names₂, hr₂, h3, h4⟩
  · rintro ⟨l₁, h3, h4⟩
    obtain ⟨names, h5, h6, h7⟩ := (append_ok f₁ hd h1).1 h3
    rw [append_ok f₂ (h7 ▸ h6) h2, h7] at h4
    obtain ⟨names₂, h8, h9, h10⟩ := h4
    refine ⟨names ++ names₂, (reads_append h5).2 ⟨names₂, rfl, h8⟩, ?_⟩
    rw [listed_append, ← List.append_assoc]
    exact ⟨h9, h10⟩

instance : IsTrans Name fun a b => Before a.image b.image := ⟨fun _ _ _ => Before.trans⟩

instance : Std.Trichotomous fun a b : Name => Before a.image b.image :=
  ⟨fun _ _ h h' => Name.ext (Std.Trichotomous.trichotomous _ _ h h')⟩

lemma sort_spec (hd : l.images.Nodup) :
    l.sort.images.Perm l.images ∧ l.sort.images.Pairwise Before := by
  obtain ⟨h1, h2⟩ := insertionSort_spec (r := fun a b : Name => Before a.image b.image)
    (List.Nodup.of_map _ hd)
  exact ⟨h1.map _, List.pairwise_map.2 h2⟩

/-- **Directory records.** A buffer is accepted if it is a row of well formed records, whose names
are new and for which there is room; they are then listed in its order. A refused buffer changes
nothing. A buffer that is cut at the end of a record is accepted in one call if and only if its
parts are in two, with the same listing. Sorting puts the names into order. -/
theorem append_sort {first : ℕ} (hd : l.images.Nodup)
    (hl : first + b.length - 1 < integerLast) :
    ((appendLinux64LE first b l).2 = .ok ↔ ∃ names, Reads b names
      ∧ (l.images ++ listed names).Nodup ∧ (l.images ++ listed names).length ≤ maxNames) ∧
    (∀ names, Reads b names → (appendLinux64LE first b l).2 = .ok →
      (appendLinux64LE first b l).1.images = l.images ++ listed names) ∧
    ((appendLinux64LE first b l).2 ≠ .ok → (appendLinux64LE first b l).1 = l) ∧
    (∀ b₁ b₂ names₁ f₁ f₂, b = b₁ ++ b₂ → Reads b₁ names₁ → f₁ + b₁.length - 1 < integerLast →
      f₂ + b₂.length - 1 < integerLast → ∀ l', appendLinux64LE first b l = (l', .ok) ↔
        ∃ l₁, appendLinux64LE f₁ b₁ l = (l₁, .ok) ∧ appendLinux64LE f₂ b₂ l₁ = (l', .ok)) ∧
    l.sort.images.Perm l.images ∧ l.sort.images.Pairwise Before := by
  refine ⟨⟨fun h => ?_, ?_⟩, fun names hr h => ?_, fun h => (append_cases first b l).resolve_left h,
    ?_, sort_spec hd⟩
  · obtain ⟨names, h1, h2, h3⟩ := (append_ok first hd hl).1 (Prod.ext rfl h)
    exact ⟨names, h1, h2, h3 ▸ images_le _⟩
  · rintro ⟨names, h1, h2, h3⟩
    obtain ⟨l', h4⟩ := exists_images (fun n hn => reads_size h1 n (List.mem_filter.1 hn).1) h3
    rw [(append_ok first hd hl).2 ⟨names, h1, h2, h4⟩]
  · obtain ⟨names', h1, -, h3⟩ := (append_ok first hd hl).1 (Prod.ext rfl h)
    rw [h3, reads_unique hr h1]
  · rintro b₁ b₂ names₁ f₁ f₂ rfl hr h1 h2 l'
    exact append_split hd hr hl h1 h2

/-- The record of a file with the name `a`. -/
def someRecord : Bytes := List.replicate 16 0 ++ [24, 0, 8, 97, 0, 0, 0, 0]

lemma someRecord_reads : Reads someRecord [[97]] := by
  have h : WellFormed someRecord [97] :=
    ⟨by decide, by decide, ⟨[0, 0, 0], by decide⟩, by decide, by decide, by decide⟩
  simpa using Reads.cons h .nil

theorem append_sort_someRecord :
    (appendLinux64LE 1 someRecord {}).2 = .ok ∧
    (appendLinux64LE 1 someRecord {}).1.images = [[97]] := by
  have h1 : 1 + someRecord.length - 1 < integerLast := by decide
  have h := append_sort (l := {}) (by decide) h1
  have hok : (appendLinux64LE 1 someRecord {}).2 = .ok :=
    h.1.2 ⟨_, someRecord_reads, by decide, by decide⟩
  exact ⟨hok, (h.2.1 _ someRecord_reads hok).trans (by decide)⟩

/-- A name that is repeated across the cut: the first of two calls is accepted. -/
theorem append_twice_differs :
    ¬ ∀ (l : Listing) (b₁ b₂ : Bytes) (names₁ : List Bytes), l.images.Nodup → Reads b₁ names₁ →
      (appendLinux64LE 1 (b₁ ++ b₂) l).1
        = (appendLinux64LE 1 b₂ (appendLinux64LE 1 b₁ l).1).1 := by
  intro h
  have h1 := h {} someRecord someRecord [[97]] (by decide) someRecord_reads
  exact absurd h1 (by decide +kernel)

end NiayanAssurance.Dirents
