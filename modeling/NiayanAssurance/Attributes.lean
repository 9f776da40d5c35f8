import NiayanAssurance.Text
import NiayanAssurance.Lib.Sorting
import Mathlib.Logic.Function.Basic

/-!
The extended attributes of a file, read into one blob and restored from it.

A blob has the number of the attributes and a record for each, in the order of the names.
-/

namespace NiayanAssurance.Attributes

open NiayanAssurance.Lib NiayanAssurance.Types NiayanAssurance.Text

/-! ### The kernel -/

/-- A name that the kernel accepts. -/
@[ext] structure Name where
  image : Bytes
  length_pos : image ≠ []
  length_le : image.length ≤ 255
  zero_notMem : 0 ∉ image
  deriving DecidableEq

/-- The attributes of a file, by their names. -/
abbrev Map := Name → Option Bytes

/-- A file, with its names in the order in which the kernel lists them. -/
structure File where
  attributes : Map
  listing : List Name
  nodup : listing.Nodup
  mem_listing : ∀ n, n ∈ listing ↔ attributes n ≠ none

inductive Operation
  | list
  | size (n : Name)
  | get (n : Name)
  | set (n : Name)
  | remove (n : Name)
  deriving DecidableEq

/-- The calls that fail, whatever the reason. -/
abbrev Failures := Operation → Bool

def never : Failures := fun _ => false

/-- The name that a string is for the kernel: it ends at the first zero. -/
def cName (s : Bytes) : Option Name :=
  let t := s.takeWhile (· ≠ 0)
  if h : t ≠ [] ∧ t.length ≤ 255 then
    some ⟨t, h.1, h.2, fun h0 => by simpa using List.mem_takeWhile_imp h0⟩
  else none

/-- `X_List`; none is a negative answer. -/
def xList (fails : Failures) (f : File) (size : ℕ) : Option Bytes :=
  let names := f.listing.flatMap fun n => n.image ++ [0]
  if fails .list = true ∨ size < names.length then none else some names

/-- `X_Get` without a buffer. -/
def xSize (fails : Failures) (a : Map) (s : Bytes) : Option ℕ :=
  (cName s).bind fun n => if fails (.size n) then none else (a n).map List.length

/-- `X_Get` -/
def xGet (fails : Failures) (a : Map) (s : Bytes) (size : ℕ) : Option Bytes :=
  (cName s).bind fun n =>
    if fails (.get n) then none else (a n).filter fun v => v.length ≤ size

/-- `X_Set` -/
def xSet (fails : Failures) (a : Map) (s value : Bytes) : Option Map :=
  (cName s).bind fun n =>
    if fails (.set n) then none else some (Function.update a n (some value))

/-- `X_Remove` -/
def xRemove (fails : Failures) (a : Map) (s : Bytes) : Option Map :=
  (cName s).bind fun n =>
    if fails (.remove n) = true ∨ a n = none then none else some (Function.update a n none)

/-! ### Reading -/

abbrev maxXattrBytes : ℕ := 131072

/-- The names in the buffer of `X_List`; `name` is what has been read of the next one. -/
def scan : (name : Bytes) → List Value → Bytes → Except Outcome (List Value)
  | name, list, [] => if name = [] then .ok list else .error .corrupt
  | name, list, c :: rest =>
    if c = 0 then
      if name = [] ∨ list.length = 64 then .error .exhausted
      else
        match Text.set name with
        | none => .error .invalidInput
        | some v => scan [] (list ++ [v]) rest
    else scan (name ++ [c]) list rest

/-- `MC_Text.Image (V) < MC_Text.Image (W)` -/
def Less (v w : Value) : Prop := Before v.image w.image

instance : IsTrans Value Less := ⟨fun _ _ _ h h' => Before.trans h h'⟩

instance : Std.Asymm Less := ⟨fun _ _ h h' => Std.Asymm.asymm (r := Before) _ _ h h'⟩

instance : Std.Trichotomous Less :=
  ⟨fun _ _ h h' => Value.ext (Std.Trichotomous.trichotomous (r := Before) _ _ h h')⟩

instance : DecidableRel Less := fun v w => inferInstanceAs (Decidable (Before v.image w.image))

def record (name value : Bytes) : Bytes := be 2 name.length ++ be 4 value.length ++ name ++ value

/-- The records of the names, after the bytes `data` that are there; `len` is `Data'Length`. -/
def write (fails : Failures) (a : Map) (len : ℕ) :
    List Value → (data : Bytes) → Except Outcome Bytes
  | [], data => .ok data
  | v :: list, data =>
    match xSize fails a v.image with
    | none => .error .exhausted
    | some l =>
      if 65536 < l then .error .exhausted
      else if len < data.length + 6 + v.image.length + l then .error .exhausted
      else
        match if 0 < l then xGet fails a v.image l else some [] with
        | none => .error .conflict
        | some value =>
          if value.length ≠ l then .error .conflict
          else write fails a len list (data ++ record v.image value)

/-- `Get_Attributes`, which returns `Data (1 .. Used)`, for an array that starts at index 1; any
other is refused at once. -/
def getAttributes (fails : Failures) (f : File) (descriptor : ℤ) (len : ℕ) :
    Except Outcome Bytes :=
  if descriptor < 0 ∨ len < 2 then .error .invalidInput
  else
    match xList fails f 8192 with
    | none => .error .ioError
    | some names =>
      match scan [] [] names with
      | .error o => .error o
      | .ok list => write fails f.attributes len (exchangeSort Less list) (be 2 list.length)

/-! ### Restoring -/

/-- The positions of the characters. -/
def positions (s : String) : Bytes := s.toList.map fun c => BitVec.ofNat 8 c.toNat

def capability : Bytes := positions "security.capability"

def selinux : Bytes := positions "security.selinux"

structure Attr where
  name : Value
  value : Bytes
  deriving DecidableEq

/-- The first loop of `Set_Attributes`, with `n` records to go and `rest` what is left of the
data. An error is what `Status` is when the loop returns: a record that is too short returns with
the `status` that the record before it has set. -/
def parse : (n : ℕ) → (status : Outcome) → (previous : Option Value) → Bytes →
    Except Outcome (List Attr)
  | 0, _, _, rest => if rest = [] then .ok [] else .error .invalidInput
  | n + 1, status, previous, rest =>
    if rest.length < 6 then .error status
    else
      let nl := u16 rest 1
      let vl := u32 rest 3
      let body := rest.drop 6
      if 65536 < vl then .error status
      else if nl = 0 ∨ 255 < nl ∨ body.length < nl + vl then .error status
      else
        match Text.set (body.take nl) with
        | none => .error .invalidInput
        | some name =>
          if body.take nl = capability then .error .unsupported
          else if ∃ p ∈ previous, ¬ Less p name then .error .invalidInput
          else
            match parse n .ok (some name) (body.drop (nl + vl)) with
            | .error o => .error o
            | .ok desired => .ok (⟨name, (body.drop nl).take vl⟩ :: desired)

/-- The second loop, with `n` of the existing records to go: what is not desired is removed. -/
def removeOthers (fails : Failures) (desired : List Attr) :
    (n : ℕ) → (existing : Bytes) → Map → Outcome × Map
  | 0, _, a => (.ok, a)
  | n + 1, existing, a =>
    let nl := u16 existing 1
    let vl := u32 existing 3
    let name := (existing.drop 6).take nl
    let rest := existing.drop (6 + nl + vl)
    if ∃ d ∈ desired, d.name.image = name then removeOthers fails desired n rest a
    else if name = selinux then (.denied, a)
    else
      match xRemove fails a name with
      | none => (.ioError, a)
      | some a => removeOthers fails desired n rest a

/-- The third loop. -/
def setAll (fails : Failures) : List Attr → Map → Outcome × Map
  | [], a => (.ok, a)
  | d :: desired, a =>
    match xSet fails a d.name.image d.value with
    | none => (.ioError, a)
    | some a => setAll fails desired a

/-- `Set_Attributes`, for an array that starts at index 1 (any other is refused at once): the
status, and the attributes that the file has then. -/
def setAttributes (fails : Failures) (f : File) (descriptor : ℤ) (data : Bytes) :
    Outcome × Map :=
  if descriptor < 0 ∨ data.length < 2 then (.invalidInput, f.attributes)
  else if 64 < u16 data 1 then (.invalidInput, f.attributes)
  else
    match parse (u16 data 1) .invalidInput none (data.drop 2) with
    | .error o => (o, f.attributes)
    | .ok desired =>
      match getAttributes fails f descriptor maxXattrBytes with
      | .error o => (o, f.attributes)
      | .ok existing =>
        match removeOthers fails desired (u16 existing 1) (existing.drop 2) f.attributes with
        | (.ok, a) => setAll fails desired a
        | r => r

/-! ### Names -/

lemma zero_notMem_image (v : Value) : 0 ∉ v.image := fun h => by
  have := (v.printable 0 h).1
  simp at this

lemma takeWhile_ne {s : Bytes} (h : 0 ∉ s) : s.takeWhile (· ≠ 0) = s := by
  rw [List.takeWhile_eq_self_iff]
  rintro c hc
  simpa using fun h0 : c = 0 => h (h0 ▸ hc)

lemma cName_eq {s : Bytes} {n : Name} (h : 0 ∉ s) : cName s = some n ↔ n.image = s := by
  unfold cName
  simp only [takeWhile_ne h]
  constructor
  · intro hn
    split at hn
    · cases hn; rfl
    · cases hn
  · rintro rfl
    rw [dif_pos ⟨n.length_pos, n.length_le⟩]

lemma cName_value {v : Value} {n : Name} : cName v.image = some n ↔ n.image = v.image :=
  cName_eq (zero_notMem_image v)

/-! ### What is read -/

lemma scan_append {name t rest : Bytes} {list : List Value} (h : 0 ∉ t) :
    scan name list (t ++ rest) = scan (name ++ t) list rest := by
  induction t generalizing name with
  | nil => rw [List.nil_append, List.append_nil]
  | cons c t ih =>
    obtain ⟨hc, ht⟩ : ¬ 0 = c ∧ 0 ∉ t := by simpa using h
    rw [List.cons_append, scan, if_neg (Ne.symm hc), ih ht, List.append_assoc,
      List.singleton_append]

/-- The scan finds the names that the kernel lists, if there are few enough and all of them are
texts. -/
lemma scan_ok {names : List Name} {list found : List Value} (h : list.length ≤ 64) :
    scan [] list (names.flatMap fun n => n.image ++ [0]) = .ok found ↔
      found.length ≤ 64 ∧ ∃ vs, found = list ++ vs ∧ vs.map (·.image) = names.map (·.image) := by
  induction names generalizing list with
  | nil =>
    simp only [List.flatMap_nil, scan, if_true, Except.ok.injEq, List.map_nil, List.map_eq_nil_iff]
    exact ⟨fun he => he ▸ ⟨h, [], by simp, rfl⟩, fun ⟨_, vs, h1, h2⟩ => by simp [h1, h2]⟩
  | cons n names ih =>
    rw [List.flatMap_cons, List.append_assoc, List.singleton_append, scan_append n.zero_notMem,
      List.nil_append, scan, if_pos rfl]
    by_cases hc : list.length = 64
    · rw [if_pos (.inr hc)]
      refine ⟨by rintro ⟨⟩, fun ⟨h1, vs, h2, h3⟩ => ?_⟩
      have := congrArg List.length h3
      simp only [List.length_map, List.length_cons] at this
      rw [h2, List.length_append] at h1
      omega
    · rw [if_neg (by simpa [n.length_pos] using hc)]
      cases hs : Text.set n.image with
      | none =>
        refine ⟨by rintro ⟨⟩, fun ⟨_, vs, _, h3⟩ => ?_⟩
        obtain ⟨v, vs, rfl⟩ : ∃ v w, vs = v :: w := by
          cases vs with
          | nil => cases h3
          | cons v vs => exact ⟨v, vs, rfl⟩
        have h4 : v.image = n.image := (List.cons.inj h3).1
        rw [← h4, set_some.2 rfl] at hs
        cases hs
      | some v =>
        have hv := set_some.1 hs
        have hl : (list ++ [v]).length ≤ 64 := by
          rw [List.length_append, List.length_singleton]
          omega
        show scan [] (list ++ [v]) _ = _ ↔ _
        rw [ih hl]
        refine and_congr_right fun _ => ⟨?_, ?_⟩
        · rintro ⟨vs, rfl, h2⟩
          exact ⟨v :: vs, by simp, by simp [h2, hv]⟩
        · rintro ⟨vs, rfl, h2⟩
          cases vs with
          | nil => cases h2
          | cons w vs =>
            obtain ⟨h3, h4⟩ := List.cons.inj h2
            obtain rfl : w = v := Value.ext (h3.trans hv.symm)
            exact ⟨vs, by simp, h4⟩

/-- The record of an attribute. -/
def Attr.record (d : Attr) : Bytes := Attributes.record d.name.image d.value

/-- The kernel hands out the attribute. -/
structure Handed (fails : Failures) (a : Map) (d : Attr) : Prop where
  size : xSize fails a d.name.image = some d.value.length
  length_le : d.value.length ≤ 65536
  get : d.value ≠ [] → xGet fails a d.name.image d.value.length = some d.value

lemma length_record (d : Attr) : d.record.length = 6 + d.name.image.length + d.value.length := by
  simp only [Attr.record, record, List.length_append, length_be]

/-- One name: what it takes for its record to be written. -/
lemma write_cons {fails : Failures} {a : Map} {len : ℕ} {v : Value} {list : List Value}
    {data b : Bytes} : write fails a len (v :: list) data = .ok b ↔
      ∃ value, Handed fails a ⟨v, value⟩ ∧ (data ++ Attr.record ⟨v, value⟩).length ≤ len ∧
        write fails a len list (data ++ Attr.record ⟨v, value⟩) = .ok b := by
  rw [write]
  constructor
  · intro h
    cases hs : xSize fails a v.image with
    | none => rw [hs] at h; cases h
    | some l =>
      simp only [hs] at h
      split at h
      · cases h
      rename_i hl
      split at h
      · cases h
      rename_i hroom
      cases hg : if 0 < l then xGet fails a v.image l else some [] with
      | none => rw [hg] at h; cases h
      | some value =>
        simp only [hg] at h
        split at h
        · cases h
        rename_i hlen
        have hlen' : value.length = l := not_not.1 hlen
        subst hlen'
        refine ⟨value, ⟨hs, by simpa using hl, fun hne => ?_⟩, ?_, h⟩
        · rwa [if_pos (List.length_pos_iff.2 hne)] at hg
        · rw [List.length_append, length_record]
          show _ + (6 + v.image.length + value.length) ≤ len
          omega
  · rintro ⟨value, h, hroom, hw⟩
    rw [List.length_append, length_record] at hroom
    have hroom' : data.length + (6 + v.image.length + value.length) ≤ len := hroom
    have hg : (if 0 < value.length then xGet fails a v.image value.length else some []) =
        some value := by
      split
      · rename_i hpos
        exact h.get (List.length_pos_iff.1 hpos)
      · rename_i hpos
        rw [List.length_eq_zero_iff.1 (by omega : value.length = 0)]
    have h1 : xSize fails a v.image = some value.length := h.size
    have h2 : value.length ≤ 65536 := h.length_le
    simp only [h1, hg]
    rw [if_neg (by omega), if_neg (by omega), if_neg (by simp)]
    exact hw

lemma write_ok {fails : Failures} {a : Map} {len : ℕ} {vs : List Value} {data b : Bytes}
    (h : data.length ≤ len) : write fails a len vs data = .ok b ↔
      ∃ l : List Attr, l.map (·.name) = vs ∧ (∀ d ∈ l, Handed fails a d) ∧
        b = data ++ l.flatMap Attr.record ∧ b.length ≤ len := by
  induction vs generalizing data with
  | nil =>
    simp only [write, Except.ok.injEq, List.map_eq_nil_iff]
    constructor
    · rintro rfl
      exact ⟨[], rfl, by simp, by simp, h⟩
    · rintro ⟨l, rfl, -, rfl, -⟩
      simp
  | cons v vs ih =>
    rw [write_cons]
    constructor
    · rintro ⟨value, hv, hroom, hw⟩
      obtain ⟨l, rfl, hl, rfl, hb⟩ := (ih hroom).1 hw
      refine ⟨⟨v, value⟩ :: l, rfl, ?_, by simp, hb⟩
      rintro d hd
      rcases List.mem_cons.1 hd with rfl | hd
      · exact hv
      · exact hl d hd
    · rintro ⟨l, hvs, hl, rfl, hb⟩
      cases l with
      | nil => cases hvs
      | cons d l =>
        obtain ⟨rfl, rfl⟩ := List.cons.inj hvs
        have he : data ++ (d :: l).flatMap Attr.record =
            data ++ d.record ++ l.flatMap Attr.record := by
          rw [List.flatMap_cons, List.append_assoc]
        have hroom : (data ++ d.record).length ≤ len := by
          rw [he, List.length_append] at hb
          omega
        exact ⟨d.value, hl d List.mem_cons_self, hroom, (ih hroom).2
          ⟨l, rfl, fun e he => hl e (List.mem_cons_of_mem _ he), he, hb⟩⟩

/-! ### Blobs -/

/-- The attributes of a blob come in the order of their names. -/
def Attr.Less (d e : Attr) : Prop := Before d.name.image e.name.image

instance : Std.Asymm Attr.Less := ⟨fun _ _ h h' => Std.Asymm.asymm (r := Before) _ _ h h'⟩

/-- An attribute that fits into a record. -/
structure Attr.Fits (d : Attr) : Prop where
  name_pos : d.name.image ≠ []
  name_le : d.name.image.length ≤ 255
  value_le : d.value.length ≤ 65536

/-- The attributes that a blob can have. -/
structure Canonical (l : List Attr) : Prop where
  count_le : l.length ≤ 64
  fits : ∀ d ∈ l, d.Fits
  ordered : l.Pairwise Attr.Less

/-- The blob of `l`. -/
def encode (l : List Attr) : Bytes := be 2 l.length ++ l.flatMap Attr.record

/-- `l` are the attributes `a`. -/
def Lists (l : List Attr) (a : Map) : Prop :=
  ∀ n v, a n = some v ↔ ∃ d ∈ l, d.name.image = n.image ∧ d.value = v

/-- The length of the names in the buffer of `X_List`. -/
def listLength (names : List Bytes) : ℕ := (names.map fun n => n.length + 1).sum

/-- No call fails that reads the attributes of `f`. -/
structure Answers (fails : Failures) (f : File) : Prop where
  list : fails .list = false
  size : ∀ n ∈ f.listing, fails (.size n) = false
  get : ∀ n ∈ f.listing, f.attributes n ≠ some [] → fails (.get n) = false

/-- The attributes of `f` are those of `l`, and can be read into `len` bytes. -/
structure Readable (fails : Failures) (f : File) (len : ℕ) (l : List Attr) : Prop where
  canonical : Canonical l
  lists : Lists l f.attributes
  room : (encode l).length ≤ len
  listRoom : listLength (f.listing.map (·.image)) ≤ 8192
  answers : Answers fails f

/-- The name of an attribute that fits, for the kernel. -/
def Attr.key (d : Attr) (h : d.Fits) : Name :=
  ⟨d.name.image, h.name_pos, h.name_le, zero_notMem_image d.name⟩

lemma handed_iff {fails : Failures} {a : Map} {d : Attr} : Handed fails a d ↔
    ∃ n : Name, n.image = d.name.image ∧ a n = some d.value ∧ d.value.length ≤ 65536 ∧
      fails (.size n) = false ∧ (d.value ≠ [] → fails (.get n) = false) := by
  constructor
  · rintro ⟨hs, hl, hg⟩
    obtain ⟨n, hn, hs⟩ := Option.bind_eq_some_iff.1 hs
    have hsize : fails (.size n) = false := by
      by_contra hc
      rw [if_pos (by simpa using hc)] at hs
      cases hs
    rw [hsize, if_neg (by decide)] at hs
    obtain ⟨v, hv, hlen⟩ := Option.map_eq_some_iff.1 hs
    refine ⟨n, cName_value.1 hn, ?_, hl, hsize, fun hne => ?_⟩
    · by_cases hne : d.value = []
      · rw [hne, List.length_nil, List.length_eq_zero_iff] at hlen
        rw [hv, hlen, hne]
      · obtain ⟨m, hm, hg⟩ := Option.bind_eq_some_iff.1 (hg hne)
        obtain rfl : n = m := by rw [hn] at hm; exact Option.some.inj hm
        split at hg
        · cases hg
        · exact (Option.filter_eq_some_iff.1 hg).1
    · obtain ⟨m, hm, hg⟩ := Option.bind_eq_some_iff.1 (hg hne)
      obtain rfl : n = m := by rw [hn] at hm; exact Option.some.inj hm
      split at hg
      · cases hg
      · rename_i h
        simpa using h
  · rintro ⟨n, hn, hv, hl, hs, hg⟩
    have hc := cName_value.2 hn
    refine ⟨?_, hl, fun hne => ?_⟩
    · rw [xSize, hc, Option.bind_some, hs, if_neg (by decide), hv]
      rfl
    · rw [xGet, hc, Option.bind_some, hg hne, if_neg (by decide), hv]
      simp

lemma xList_some {fails : Failures} {f : File} {names : Bytes} : xList fails f 8192 = some names ↔
    fails .list = false ∧ listLength (f.listing.map (·.image)) ≤ 8192 ∧
      names = f.listing.flatMap fun n => n.image ++ [0] := by
  have hlen : (f.listing.flatMap fun n => n.image ++ [0]).length =
      listLength (f.listing.map (·.image)) := by
    simp [listLength, List.length_flatMap, Function.comp_def]
  simp only [xList, hlen]
  split
  · rename_i h
    refine ⟨by rintro ⟨⟩, fun ⟨h1, h2, _⟩ => ?_⟩
    rcases h with h | h
    · rw [h1] at h; cases h
    · omega
  · rename_i h
    obtain ⟨h1, h2⟩ := not_or.1 h
    simp only [Option.some.injEq]
    exact ⟨fun he => ⟨by simpa using h1, by omega, he.symm⟩, fun he => he.2.2.symm⟩

/-- The names that are found are different, and can be put into order. -/
lemma sorted_found {f : File} {list : List Value}
    (h : list.map (·.image) = f.listing.map (·.image)) :
    (exchangeSort Less list).Perm list ∧ (exchangeSort Less list).Pairwise Less ∧
      ∀ v, v ∈ list ↔ ∃ n ∈ f.listing, n.image = v.image := by
  have hd : list.Nodup :=
    List.Nodup.of_map (·.image) (h ▸ f.nodup.map fun n m hnm => Name.ext hnm)
  obtain ⟨hp, hs⟩ := exchangeSort_spec (r := Less) hd
  refine ⟨hp, hs, fun v => ?_⟩
  rw [← List.mem_map (f := fun n : Name => n.image), ← h, List.mem_map]
  exact ⟨fun hv => ⟨v, hv, rfl⟩, fun ⟨w, hw, he⟩ => Value.ext he ▸ hw⟩

lemma length_encode (l : List Attr) : (encode l).length = 2 + (l.flatMap Attr.record).length := by
  rw [encode, List.length_append, length_be]

/-- What has been read are the attributes of the file. -/
lemma readable_of_get {fails : Failures} {f : File} {descriptor : ℤ} {len : ℕ} {b : Bytes}
    (h : getAttributes fails f descriptor len = .ok b) :
    0 ≤ descriptor ∧ ∃ l, Readable fails f len l ∧ b = encode l := by
  unfold getAttributes at h
  split at h
  · cases h
  rename_i hpre
  cases hx : xList fails f 8192 with
  | none => rw [hx] at h; cases h
  | some names =>
    obtain ⟨hlist, hroom, rfl⟩ := xList_some.1 hx
    simp only [hx] at h
    cases hsc : scan [] [] (f.listing.flatMap fun n => n.image ++ [0]) with
    | error o => rw [hsc] at h; cases h
    | ok list =>
      simp only [hsc] at h
      obtain ⟨hc, list', he, himage⟩ := (scan_ok (by simp)).1 hsc
      obtain rfl : list = list' := by rw [he, List.nil_append]
      obtain ⟨hperm, hsorted, hmem⟩ := sorted_found himage
      obtain ⟨l, hl, hh, rfl, hb⟩ := (write_ok (by rw [length_be]; omega)).1 h
      have hlen : l.length = list.length := by
        rw [← List.length_map (f := (·.name)), hl, hperm.length_eq]
      have hname : ∀ d ∈ l, ∃ n ∈ f.listing, n.image = d.name.image := fun d hd =>
        (hmem d.name).1 (hperm.mem_iff.1 (hl ▸ List.mem_map_of_mem hd))
      have hof : ∀ n ∈ f.listing, ∃ d ∈ l, d.name.image = n.image := by
        intro n hn
        have h1 : n.image ∈ list.map (·.image) := himage ▸ List.mem_map_of_mem hn
        obtain ⟨v, hv, hvn⟩ := List.mem_map.1 h1
        rw [← hperm.mem_iff, ← hl] at hv
        obtain ⟨d, hd, rfl⟩ := List.mem_map.1 hv
        exact ⟨d, hd, hvn⟩
      have hread : ∀ d ∈ l, ∀ n : Name, n.image = d.name.image →
          f.attributes n = some d.value ∧ d.value.length ≤ 65536 ∧
            fails (.size n) = false ∧ (d.value ≠ [] → fails (.get n) = false) := by
        intro d hd n hn
        obtain ⟨m, hm, hr⟩ := handed_iff.1 (hh d hd)
        obtain rfl : n = m := Name.ext (hn.trans hm.symm)
        exact hr
      refine ⟨by omega, l, ⟨⟨by omega, fun d hd => ?_, ?_⟩, fun n x => ⟨fun hx => ?_, ?_⟩, ?_,
        hroom, ⟨hlist, fun n hn => ?_, fun n hn hne => ?_⟩⟩, by rw [encode, hlen]⟩
      · obtain ⟨n, -, hn⟩ := hname d hd
        exact ⟨hn ▸ n.length_pos, hn ▸ n.length_le, (hread d hd n hn).2.1⟩
      · rw [← hl] at hsorted
        exact (List.pairwise_map (R := Less)).1 hsorted
      · obtain ⟨d, hd, hn⟩ := hof n ((f.mem_listing n).2 (by rw [hx]; rintro ⟨⟩))
        refine ⟨d, hd, hn, ?_⟩
        rw [(hread d hd n hn.symm).1] at hx
        exact Option.some.inj hx
      · rintro ⟨d, hd, hn, rfl⟩
        exact (hread d hd n hn.symm).1
      · rwa [encode, hlen]
      · obtain ⟨d, hd, hdn⟩ := hof n hn
        exact (hread d hd n hdn.symm).2.2.1
      · obtain ⟨d, hd, hdn⟩ := hof n hn
        obtain ⟨h1, -, -, h2⟩ := hread d hd n hdn.symm
        exact h2 fun h0 => hne (by rw [h1, h0])

/-- Attributes that can be read are read. -/
lemma get_of_readable {fails : Failures} {f : File} {descriptor : ℤ} {len : ℕ} {l : List Attr}
    (hdesc : 0 ≤ descriptor) (h : Readable fails f len l) :
    getAttributes fails f descriptor len = .ok (encode l) := by
  have hof : ∀ n ∈ f.listing, ∃ d ∈ l, d.name.image = n.image := by
    intro n hn
    obtain ⟨x, hx⟩ := Option.ne_none_iff_exists'.1 ((f.mem_listing n).1 hn)
    obtain ⟨d, hd, h1, -⟩ := (h.lists n x).1 hx
    exact ⟨d, hd, h1⟩
  have hkey : ∀ d (hd : d ∈ l), f.attributes (d.key (h.canonical.fits d hd)) = some d.value :=
    fun d hd => (h.lists _ _).2 ⟨d, hd, rfl, rfl⟩
  have hin : ∀ d (hd : d ∈ l), d.key (h.canonical.fits d hd) ∈ f.listing := fun d hd =>
    (f.mem_listing _).2 (by rw [hkey d hd]; rintro ⟨⟩)
  obtain ⟨list, himage⟩ : ∃ list : List Value, list.map (·.image) = f.listing.map (·.image) := by
    have hr : f.listing.map (·.image) ∈ Set.range (List.map fun v : Value => v.image) := by
      rw [Set.range_list_map]
      intro x hx
      obtain ⟨n, hn, rfl⟩ := List.mem_map.1 hx
      obtain ⟨d, -, hd⟩ := hof n hn
      exact ⟨d.name, hd⟩
    exact hr
  obtain ⟨hperm, hsorted, hmem⟩ := sorted_found himage
  have hl : exchangeSort Less list = l.map (·.name) := by
    refine eq_of_pairwise hsorted (List.pairwise_map.2 h.canonical.ordered) fun v => ?_
    rw [hperm.mem_iff, hmem, List.mem_map]
    constructor
    · rintro ⟨n, hn, he⟩
      obtain ⟨d, hd, hdn⟩ := hof n hn
      exact ⟨d, hd, Value.ext (hdn.trans he)⟩
    · rintro ⟨d, hd, rfl⟩
      exact ⟨_, hin d hd, rfl⟩
  have hlen : list.length = l.length := by
    rw [← hperm.length_eq, hl, List.length_map]
  have hlen2 := length_encode l
  have hroom := h.room
  have hsc : scan [] [] (f.listing.flatMap fun n => n.image ++ [0]) = .ok list :=
    (scan_ok (by simp)).2 ⟨hlen ▸ h.canonical.count_le, list, rfl, himage⟩
  rw [getAttributes, if_neg (by omega), xList_some.2 ⟨h.answers.list, h.listRoom, rfl⟩]
  simp only [hsc]
  refine (write_ok (by rw [length_be]; omega)).2 ⟨l, hl.symm, fun d hd => ?_, ?_, h.room⟩
  · refine handed_iff.2 ⟨_, rfl, hkey d hd, (h.canonical.fits d hd).value_le,
      h.answers.size _ (hin d hd), fun hne => h.answers.get _ (hin d hd) ?_⟩
    rw [hkey d hd]
    simpa using hne
  · rw [hlen, encode]

/-- **Reading.** -/
theorem getAttributes_ok {fails : Failures} {f : File} {descriptor : ℤ} {len : ℕ} {b : Bytes} :
    getAttributes fails f descriptor len = .ok b ↔
      0 ≤ descriptor ∧ ∃ l, Readable fails f len l ∧ b = encode l := by
  refine ⟨readable_of_get, ?_⟩
  rintro ⟨hdesc, l, h, rfl⟩
  exact get_of_readable hdesc h

/-! ### What is parsed -/

/-- A record at the beginning of what is left. -/
lemma record_fields (d : Attr) (h : d.Fits) (rest : Bytes) :
    u16 (d.record ++ rest) 1 = d.name.image.length ∧
    u32 (d.record ++ rest) 3 = d.value.length ∧
    (d.record ++ rest).drop 6 = d.name.image ++ (d.value ++ rest) := by
  have h1 := h.name_le
  have h2 := h.value_le
  have he : d.record ++ rest = be 2 d.name.image.length ++ (be 4 d.value.length ++
      (d.name.image ++ (d.value ++ rest))) := by
    simp only [Attr.record, record, List.append_assoc]
  rw [he]
  refine ⟨?_, ?_, ?_⟩
  · rw [u16, range_head (length_be _ _), unbe_be, Nat.mod_eq_of_lt (by omega)]
  · rw [u32, range_right (by rw [length_be]; omega), length_be, range_head (length_be _ _), unbe_be,
      Nat.mod_eq_of_lt (by omega)]
  · rw [← List.append_assoc, List.drop_left' (by simp)]

/-- What is left, when its fields are in range, begins with a record. -/
lemma record_of_fields {rest : Bytes} {name : Value} (h6 : 6 ≤ rest.length)
    (hlen : u16 rest 1 + u32 rest 3 ≤ (rest.drop 6).length)
    (hname : name.image = (rest.drop 6).take (u16 rest 1)) :
    rest = Attr.record ⟨name, ((rest.drop 6).drop (u16 rest 1)).take (u32 rest 3)⟩ ++
      (rest.drop 6).drop (u16 rest 1 + u32 rest 3) := by
  have h1 : be 2 (u16 rest 1) = range rest 1 2 := be_range 2 1 2 (by omega) rfl
  have h2 : be 4 (u32 rest 3) = range rest 3 6 := be_range 4 3 6 h6 rfl
  have h3 : range rest 1 2 ++ range rest 3 6 = rest.take 6 :=
    (range_append_range (by omega) (by omega)).trans (by rw [range, Nat.sub_self, List.drop_zero])
  have h4 : name.image.length = u16 rest 1 := by
    rw [hname, List.length_take]
    omega
  have h5 : (((rest.drop 6).drop (u16 rest 1)).take (u32 rest 3)).length = u32 rest 3 := by
    rw [List.length_take, List.length_drop]
    omega
  rw [Attr.record, record, h4, h5, h1, h2, h3, hname, List.append_assoc, List.append_assoc]
  conv_lhs => rw [← List.take_append_drop 6 rest,
    ← List.take_append_drop (u16 rest 1) (rest.drop 6),
    ← List.take_append_drop (u32 rest 3) ((rest.drop 6).drop (u16 rest 1))]
  simp only [List.drop_drop, Nat.add_assoc]

/-- The attributes of a blob that is accepted. -/
structure Accepted (l : List Attr) : Prop extends Canonical l where
  noCapability : ∀ d ∈ l, d.name.image ≠ capability

/-- One record that is in order. -/
lemma parse_record {n : ℕ} {status : Outcome} {previous : Option Value} {d : Attr} (hf : d.Fits)
    (hp : ∀ p ∈ previous, Less p d.name) (rest : Bytes) :
    parse (n + 1) status previous (d.record ++ rest) =
      if d.name.image = capability then .error .unsupported
      else
        match parse n .ok (some d.name) rest with
        | .error o => .error o
        | .ok desired => .ok (d :: desired) := by
  obtain ⟨f1, f2, f3⟩ := record_fields d hf rest
  have hlen : (d.record ++ rest).length =
      6 + d.name.image.length + d.value.length + rest.length := by
    rw [List.length_append, length_record]
  have hpos := List.length_pos_iff.2 hf.name_pos
  have := hf.name_le
  have := hf.value_le
  have ht : Text.set d.name.image = some d.name := set_some.2 rfl
  rw [parse, if_neg (by omega)]
  simp only [f1, f2, f3]
  rw [if_neg (by omega), if_neg (by simp only [List.length_append]; omega), List.take_left]
  simp only [ht]
  split
  · rfl
  · rw [if_neg (by simpa using hp), ← List.drop_drop, List.drop_left, List.drop_left,
      List.take_left]

/-- What is accepted begins with a record that fits, and goes on after it. -/
lemma record_of_parse {n : ℕ} {status : Outcome} {previous : Option Value} {rest : Bytes}
    {l : List Attr} (h : parse (n + 1) status previous rest = .ok l) :
    ∃ d rest' l', l = d :: l' ∧ rest = d.record ++ rest' ∧ d.Fits ∧ d.name.image ≠ capability ∧
      (∀ p ∈ previous, Less p d.name) ∧ parse n .ok (some d.name) rest' = .ok l' := by
  rw [parse] at h
  split at h
  · cases h
  rename_i h6
  dsimp only at h
  split at h
  · cases h
  rename_i hv
  split at h
  · cases h
  rename_i hn
  obtain ⟨hn0, hn1, hlen⟩ : u16 rest 1 ≠ 0 ∧ u16 rest 1 ≤ 255 ∧
      u16 rest 1 + u32 rest 3 ≤ (rest.drop 6).length := by omega
  split at h
  · cases h
  rename_i name hname
  have hname := set_some.1 hname
  split at h
  · cases h
  rename_i hcap
  split at h
  · cases h
  rename_i hless
  split at h
  · cases h
  rename_i l' hp
  cases h
  refine ⟨_, _, l', rfl, record_of_fields (by omega) hlen hname, ?_, by rwa [hname], ?_, hp⟩
  · have hl : name.image.length = u16 rest 1 := by
      rw [hname, List.length_take]
      omega
    refine ⟨?_, ?_, ?_⟩
    · rw [← List.length_pos_iff]
      show 0 < name.image.length
      omega
    · show name.image.length ≤ 255
      omega
    · rw [List.length_take]
      omega
  · intro p hp
    by_contra hc
    exact hless ⟨p, hp, hc⟩

/-- The records that are accepted are in the order of their names, so each of them has only to be
compared with the one before it. -/
lemma parse_ok {n : ℕ} {status : Outcome} {previous : Option Value} {rest : Bytes}
    {l : List Attr} : parse n status previous rest = .ok l ↔
      l.length = n ∧ rest = l.flatMap Attr.record ∧
      (∀ d ∈ l, d.Fits ∧ d.name.image ≠ capability ∧ ∀ p ∈ previous, Less p d.name) ∧
      l.Pairwise Attr.Less := by
  induction n generalizing status previous rest l with
  | zero =>
    rw [parse]
    constructor
    · intro h
      split at h
      · rename_i hr
        cases h
        exact ⟨rfl, hr, by simp, .nil⟩
      · cases h
    · rintro ⟨h1, h2, -, -⟩
      rw [List.length_eq_zero_iff] at h1
      subst h1
      exact if_pos h2
  | succ n ih =>
    constructor
    · intro h
      obtain ⟨d, rest', l, rfl, rfl, hfits, hcap, hprev, hp⟩ := record_of_parse h
      obtain ⟨h1, rfl, h3, h4⟩ := ih.1 hp
      refine ⟨by rw [List.length_cons, h1], rfl, ?_, ?_⟩
      · intro e he
        rcases List.mem_cons.1 he with rfl | he
        · exact ⟨hfits, hcap, hprev⟩
        · obtain ⟨hf, hc, hl⟩ := h3 e he
          exact ⟨hf, hc, fun p hp => Trans.trans (hprev p hp) (hl d.name rfl)⟩
      · exact List.pairwise_cons.2 ⟨fun e he => (h3 e he).2.2 d.name rfl, h4⟩
    · rintro ⟨h1, rfl, h3, h4⟩
      obtain ⟨d, l, rfl⟩ := List.exists_cons_of_length_eq_add_one h1
      obtain ⟨hd, h4⟩ := List.pairwise_cons.1 h4
      obtain ⟨hf, hc, hp⟩ := h3 d List.mem_cons_self
      -- every other record comes after the first, which is what is compared with next
      have hl : parse n .ok (some d.name) (l.flatMap Attr.record) = .ok l := by
        refine ih.2 ⟨Nat.succ.inj h1, rfl, fun e he => ?_, h4⟩
        obtain ⟨hf, hc, -⟩ := h3 e (List.mem_cons_of_mem _ he)
        refine ⟨hf, hc, fun p hp => ?_⟩
        cases hp
        exact hd e he
      rw [List.flatMap_cons, parse_record hf hp, if_neg hc, hl]

lemma encode_fields {l : List Attr} (h : l.length ≤ 64) :
    2 ≤ (encode l).length ∧ u16 (encode l) 1 = l.length ∧
      (encode l).drop 2 = l.flatMap Attr.record := by
  refine ⟨by rw [length_encode]; omega, ?_, ?_⟩
  · rw [u16, encode, range_head (length_be _ _), unbe_be, Nat.mod_eq_of_lt (by omega)]
  · rw [encode, List.drop_left' (length_be _ _)]

/-- What the first loop accepts. -/
lemma parse_encode {data : Bytes} {l : List Attr} (h2 : 2 ≤ data.length) (hc : u16 data 1 ≤ 64) :
    parse (u16 data 1) .invalidInput none (data.drop 2) = .ok l ↔
      Accepted l ∧ data = encode l := by
  rw [parse_ok]
  constructor
  · rintro ⟨h3, h4, h5, h6⟩
    refine ⟨⟨⟨by omega, fun d hd => (h5 d hd).1, h6⟩, fun d hd => (h5 d hd).2.1⟩, ?_⟩
    have h7 : be 2 (u16 data 1) = range data 1 2 := be_range 2 1 2 h2 rfl
    rw [encode, h3, h7, ← h4, range, Nat.sub_self, List.drop_zero, List.take_append_drop]
  · rintro ⟨h, rfl⟩
    obtain ⟨-, h3, h4⟩ := encode_fields h.count_le
    exact ⟨h3.symm, h4, fun d hd => ⟨h.fits d hd, h.noCapability d hd, by simp⟩, h.ordered⟩

end NiayanAssurance.Attributes
