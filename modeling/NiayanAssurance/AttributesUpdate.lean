import NiayanAssurance.Attributes

/-!
What an update of the extended attributes leaves of them: when it is refused, and when it is done.
-/

namespace NiayanAssurance.Attributes

open NiayanAssurance.Lib NiayanAssurance.Types NiayanAssurance.Text

/-! ### What is removed -/

/-- The attribute is to go. -/
def Undesired (desired : List Attr) (s : Bytes) : Prop := ¬ ∃ d ∈ desired, d.name.image = s

section Removal

variable {fails : Failures} {desired l : List Attr} {a : Map}

/-- `removeOthers`, on the records of `l`. -/
def removed (fails : Failures) (desired l : List Attr) (a : Map) : Outcome × Map :=
  removeOthers fails desired l.length (l.flatMap Attr.record) a

/-- The attributes of `l` are there. -/
def Present (l : List Attr) (a : Map) : Prop :=
  ∀ d ∈ l, ∀ n : Name, n.image = d.name.image → a n ≠ none

/-- The loop only ever removes. -/
lemma removeOthers_frame (fails : Failures) (desired : List Attr) (k : ℕ) (e : Bytes) (a : Map)
    (n : Name) : (removeOthers fails desired k e a).2 n = a n ∨
      (removeOthers fails desired k e a).2 n = none := by
  induction k generalizing e a with
  | zero => exact .inl rfl
  | succ k ih =>
    rw [removeOthers]
    split
    · exact ih _ _
    split
    · exact .inl rfl
    cases hx : xRemove fails a ((e.drop 6).take (u16 e 1)) with
    | none => exact .inl rfl
    | some a' =>
      obtain ⟨m, -, hm⟩ := Option.bind_eq_some_iff.1 hx
      split at hm
      · cases hm
      cases hm
      rcases ih (e.drop (6 + u16 e 1 + u32 e 3)) (Function.update a m none) with h | h
      · by_cases hn : n = m
        · subst hn
          rw [Function.update_self] at h
          exact .inr h
        · rw [Function.update_of_ne hn] at h
          exact .inl h
      · exact .inr h

/-- One record. -/
lemma removed_cons {d : Attr} (hd : d.Fits) (hp : a (d.key hd) ≠ none) :
    removed fails desired (d :: l) a =
      if ∃ e ∈ desired, e.name.image = d.name.image then removed fails desired l a
      else if d.name.image = selinux then (.denied, a)
      else if fails (.remove (d.key hd)) then (.ioError, a)
      else removed fails desired l (Function.update a (d.key hd) none) := by
  obtain ⟨f1, f2, f3⟩ := record_fields d hd (l.flatMap Attr.record)
  have hn : cName d.name.image = some (d.key hd) := cName_value.2 rfl
  have hdrop : (d.record ++ l.flatMap Attr.record).drop
      (6 + d.name.image.length + d.value.length) = l.flatMap Attr.record :=
    List.drop_left' (length_record d)
  have hx : xRemove fails a d.name.image =
      if fails (.remove (d.key hd)) then none else some (Function.update a (d.key hd) none) := by
    simp [xRemove, hn, hp]
  rw [removed, List.flatMap_cons, List.length_cons, removeOthers]
  simp only [f1, f2, f3, List.take_left, hdrop, hx]
  split_ifs <;> rfl

lemma present_cons {d : Attr} (hd : d.Fits) (hp : Present (d :: l) a)
    (hl : (d :: l).Pairwise Attr.Less) :
    a (d.key hd) ≠ none ∧ Present l a ∧ Present l (Function.update a (d.key hd) none) := by
  have hp' : Present l a := fun e he => hp e (List.mem_cons_of_mem _ he)
  refine ⟨hp d List.mem_cons_self _ rfl, hp', fun e he n hn => ?_⟩
  rw [Function.update_of_ne]
  · exact hp' e he n hn
  · rintro rfl
    have hlt : Before d.name.image e.name.image := (List.pairwise_cons.1 hl).1 e he
    rw [← hn] at hlt
    exact Std.Asymm.asymm (r := Before) _ _ hlt hlt

/-- **When the label would be dropped.** -/
lemma removed_denied (hf : ∀ d ∈ l, d.Fits) (hl : l.Pairwise Attr.Less) (hp : Present l a) :
    (removed fails desired l a).1 = .denied ↔
      (∃ d ∈ l, d.name.image = selinux ∧ Undesired desired d.name.image) ∧
      ∀ d ∈ l, Undesired desired d.name.image → Before d.name.image selinux →
        ∀ n : Name, n.image = d.name.image → fails (.remove n) = false := by
  induction l generalizing a with
  | nil => simp [removed, removeOthers]
  | cons d l ih =>
    have hd := hf d List.mem_cons_self
    obtain ⟨h1, h2, h3⟩ := present_cons hd hp hl
    obtain ⟨hless, hl⟩ := List.pairwise_cons.1 hl
    have hf' : ∀ e ∈ l, e.Fits := fun e he => hf e (List.mem_cons_of_mem _ he)
    rw [removed_cons hd h1]
    split_ifs with hu hs hr
    · -- It is desired.
      rw [ih hf' hl h2]
      simp [Undesired, hu]
    · -- It is the label; those that follow come after it.
      refine iff_of_true rfl ⟨⟨d, List.mem_cons_self, hs, hu⟩, fun e he _ hb => ?_⟩
      rcases List.mem_cons.1 he with rfl | he
      · exact absurd (hs ▸ hb) fun h => Std.Asymm.asymm (r := Before) _ _ h h
      · have hb' : Before d.name.image e.name.image := hless e he
        rw [hs] at hb'
        exact absurd hb (Std.Asymm.asymm _ _ hb')
    · -- It cannot be removed.
      refine ⟨by rintro ⟨⟩, ?_⟩
      rintro ⟨⟨e, he, hes, -⟩, hok⟩
      rcases List.mem_cons.1 he with rfl | he
      · exact absurd hes hs
      · have hb : Before d.name.image e.name.image := hless e he
        rw [hok d List.mem_cons_self hu (hes ▸ hb) _ rfl] at hr
        cases hr
    · rw [ih hf' hl h3]
      have hr' : ∀ n : Name, n.image = d.name.image → fails (.remove n) = false := by
        intro n hn
        obtain rfl : n = d.key hd := Name.ext hn
        simpa using hr
      simp only [List.exists_mem_cons_iff, List.forall_mem_cons, hs, false_and, false_or]
      exact and_congr_right fun _ => ⟨fun h => ⟨fun _ _ => hr', h⟩, And.right⟩

/-- **What is gone then.** -/
lemma removed_unchanged (hf : ∀ d ∈ l, d.Fits) (hl : l.Pairwise Attr.Less) (hp : Present l a)
    (h : (removed fails desired l a).1 = .denied) :
    (removed fails desired l a).2 = a ↔
      ∀ d ∈ l, Undesired desired d.name.image → ¬ Before d.name.image selinux := by
  induction l generalizing a with
  | nil => exact iff_of_true rfl (by simp)
  | cons d l ih =>
    have hden := h
    rw [removed_denied hf hl hp] at hden
    have hd := hf d List.mem_cons_self
    obtain ⟨h1, h2, h3⟩ := present_cons hd hp hl
    obtain ⟨hless, hl⟩ := List.pairwise_cons.1 hl
    have hf' : ∀ e ∈ l, e.Fits := fun e he => hf e (List.mem_cons_of_mem _ he)
    rw [removed_cons hd h1] at h ⊢
    split_ifs at h ⊢ with hu hs hr
    · rw [ih hf' hl h2 h]
      simp [Undesired, hu]
    · refine iff_of_true rfl fun e he _ hb => ?_
      rcases List.mem_cons.1 he with rfl | he
      · exact absurd (hs ▸ hb) fun h => Std.Asymm.asymm (r := Before) _ _ h h
      · have hb' : Before d.name.image e.name.image := hless e he
        rw [hs] at hb'
        exact absurd hb (Std.Asymm.asymm _ _ hb')
    · obtain ⟨⟨e, he, hes, -⟩, -⟩ := hden
      have hb : Before d.name.image e.name.image := by
        rcases List.mem_cons.1 he with rfl | he
        · exact absurd hes hs
        · exact hless e he
      refine iff_of_false (fun heq => h1 ?_) fun hn => hn d List.mem_cons_self hu (hes ▸ hb)
      have hfr := removeOthers_frame fails desired l.length (l.flatMap Attr.record)
        (Function.update a (d.key hd) none) (d.key hd)
      rw [Function.update_self, or_self] at hfr
      exact (congrFun heq _).symm.trans hfr

/-- What is left when the loop ends. -/
lemma removed_ok (hf : ∀ d ∈ l, d.Fits) (hl : l.Pairwise Attr.Less) (hp : Present l a)
    (h : (removed fails desired l a).1 = .ok) (n : Name) :
    (removed fails desired l a).2 n =
      if (∃ d ∈ l, d.name.image = n.image) ∧ ¬ ∃ d ∈ desired, d.name.image = n.image then none
      else a n := by
  induction l generalizing a with
  | nil => exact (if_neg fun h => by simp at h).symm
  | cons d l ih =>
    have hd := hf d List.mem_cons_self
    obtain ⟨h1, h2, h3⟩ := present_cons hd hp hl
    have hl := (List.pairwise_cons.1 hl).2
    have hf' : ∀ e ∈ l, e.Fits := fun e he => hf e (List.mem_cons_of_mem _ he)
    rw [removed_cons hd h1] at h ⊢
    by_cases hu : ∃ e ∈ desired, e.name.image = d.name.image
    · rw [if_pos hu] at h ⊢
      rw [ih hf' hl h2 h]
      by_cases hn : d.name.image = n.image
      · rw [if_neg fun h => h.2 (hn ▸ hu), if_neg fun h => h.2 (hn ▸ hu)]
      · simp only [List.exists_mem_cons_iff, hn, false_or]
    · rw [if_neg hu] at h ⊢
      by_cases hs : d.name.image = selinux
      · rw [if_pos hs] at h
        cases h
      rw [if_neg hs] at h ⊢
      by_cases hr : fails (.remove (d.key hd)) = true
      · rw [if_pos hr] at h
        cases h
      rw [if_neg hr] at h ⊢
      rw [ih hf' hl h3 h]
      by_cases hn : d.name.image = n.image
      · obtain rfl : n = d.key hd := Name.ext hn.symm
        rw [Function.update_self, ite_self, if_pos ⟨⟨d, List.mem_cons_self, hn⟩, hn ▸ hu⟩]
      · rw [Function.update_of_ne fun h => hn (by rw [h]; rfl)]
        simp only [List.exists_mem_cons_iff, hn, false_or]

/-- Without failures, the loop goes on to its end or to the label. -/
lemma removed_never (hf : ∀ d ∈ l, d.Fits) (hl : l.Pairwise Attr.Less) (hp : Present l a)
    (h : (removed never desired l a).1 ≠ .denied) : (removed never desired l a).1 = .ok := by
  induction l generalizing a with
  | nil => rfl
  | cons d l ih =>
    have hd := hf d List.mem_cons_self
    obtain ⟨h1, h2, h3⟩ := present_cons hd hp hl
    have hl := (List.pairwise_cons.1 hl).2
    have hf' : ∀ e ∈ l, e.Fits := fun e he => hf e (List.mem_cons_of_mem _ he)
    rw [removed_cons hd h1] at h ⊢
    split_ifs at h ⊢ with hu hs hr
    · exact ih hf' hl h2 h
    · exact absurd rfl h
    · cases hr
    · exact ih hf' hl h3 h

end Removal

/-! ### What is set -/

lemma setAll_status (fails : Failures) (l : List Attr) (a : Map) :
    (setAll fails l a).1 = .ok ∨ (setAll fails l a).1 = .ioError := by
  induction l generalizing a with
  | nil => exact .inl rfl
  | cons d l ih =>
    rw [setAll]
    split
    · exact .inr rfl
    · exact ih _

lemma setAll_ok {fails : Failures} {l : List Attr} {a : Map} (hf : ∀ d ∈ l, d.Fits)
    (hl : l.Pairwise Attr.Less) (h : (setAll fails l a).1 = .ok) (n : Name) :
    (∀ d ∈ l, d.name.image = n.image → (setAll fails l a).2 n = some d.value) ∧
    ((¬ ∃ d ∈ l, d.name.image = n.image) → (setAll fails l a).2 n = a n) := by
  induction l generalizing a with
  | nil => exact ⟨by simp, fun _ => rfl⟩
  | cons d l ih =>
    have hn : cName d.name.image = some (d.key (hf d List.mem_cons_self)) := cName_value.2 rfl
    obtain ⟨hless, hl⟩ := List.pairwise_cons.1 hl
    rw [setAll, xSet, hn, Option.bind_some] at h ⊢
    by_cases hs : fails (.set (d.key (hf d List.mem_cons_self))) = true
    · rw [if_pos hs] at h
      cases h
    rw [if_neg hs] at h ⊢
    dsimp only at h ⊢
    obtain ⟨h1, h2⟩ := ih (fun e he => hf e (List.mem_cons_of_mem _ he)) hl h
    refine ⟨fun e he hen => ?_, fun hno => ?_⟩
    · rcases List.mem_cons.1 he with rfl | he
      · rw [h2]
        · obtain rfl : n = e.key (hf e he) := Name.ext hen.symm
          exact Function.update_self _ _ _
        · rintro ⟨x, hx, hxn⟩
          have hlt : Before e.name.image x.name.image := hless x hx
          rw [hen, ← hxn] at hlt
          exact Std.Asymm.asymm (r := Before) _ _ hlt hlt
      · exact h1 e he hen
    · rw [h2 fun ⟨x, hx, hxn⟩ => hno ⟨x, List.mem_cons_of_mem _ hx, hxn⟩]
      refine Function.update_of_ne (fun heq => hno ⟨d, List.mem_cons_self, ?_⟩) _ _
      rw [heq]
      rfl

lemma setAll_never {l : List Attr} (hf : ∀ d ∈ l, d.Fits) (a : Map) :
    (setAll never l a).1 = .ok := by
  induction l generalizing a with
  | nil => rfl
  | cons d l ih =>
    have hn : cName d.name.image = some (d.key (hf d List.mem_cons_self)) := cName_value.2 rfl
    rw [setAll, xSet, hn, Option.bind_some, if_neg (by simp [never])]
    exact ih (fun e he => hf e (List.mem_cons_of_mem _ he)) _

/-! ### The update -/

/-- The blob is accepted and the attributes of the file can be read. -/
structure Updating (fails : Failures) (f : File) (descriptor : ℤ) (data : Bytes)
    (desired l : List Attr) : Prop where
  opened : 0 ≤ descriptor
  accepted : Accepted desired
  encoded : data = encode desired
  readable : Readable fails f maxXattrBytes l

/-- What follows the removal. -/
def finish (fails : Failures) (desired : List Attr) : Outcome × Map → Outcome × Map
  | (.ok, a) => setAll fails desired a
  | r => r

/-- **The update**, when both loops are run. -/
lemma updating_eq {fails : Failures} {f : File} {descriptor : ℤ} {data : Bytes}
    {desired l : List Attr} (h : Updating fails f descriptor data desired l) :
    setAttributes fails f descriptor data =
      finish fails desired (removed fails desired l f.attributes) := by
  obtain ⟨h1, h2, -⟩ := encode_fields h.accepted.count_le
  obtain ⟨-, h3, h4⟩ := encode_fields h.readable.canonical.count_le
  have hc := h.accepted.count_le
  have h0 := h.opened
  have hg := getAttributes_ok.2 ⟨h0, l, h.readable, rfl⟩
  rw [← h.encoded] at h1 h2
  have hp := (parse_encode h1 (by omega)).2 ⟨h.accepted, h.encoded⟩
  have hpre : ¬ (descriptor < 0 ∨ data.length < 2) := by omega
  have hcount : ¬ 64 < u16 data 1 := by omega
  simp only [setAttributes, if_neg hpre, if_neg hcount, hp, hg, h3, h4]
  rfl

/-- Otherwise nothing is changed. -/
lemma not_updating {fails : Failures} {f : File} {descriptor : ℤ} {data : Bytes}
    (h : ¬ ∃ desired l, Updating fails f descriptor data desired l) :
    (setAttributes fails f descriptor data).2 = f.attributes := by
  unfold setAttributes
  split
  · rfl
  rename_i hpre
  split
  · rfl
  rename_i hcount
  split
  · rfl
  rename_i desired hp
  split
  · rfl
  rename_i existing hg
  obtain ⟨hacc, henc⟩ := (parse_encode (by omega) (by omega)).1 hp
  obtain ⟨hdesc, l, hl, -⟩ := getAttributes_ok.1 hg
  exact absurd ⟨desired, l, hdesc, hacc, henc, hl⟩ h

lemma Readable.present {fails : Failures} {f : File} {len : ℕ} {l : List Attr}
    (h : Readable fails f len l) : Present l f.attributes := by
  intro d hd n hn
  rw [(h.lists n d.value).2 ⟨d, hd, hn.symm, rfl⟩]
  rintro ⟨⟩

/-! ### Refusals -/

def Refused (o : Outcome) : Prop := o = .denied ∨ o = .invalidInput ∨ o = .unsupported

/-- `n` is an attribute of the file and none of the blob. -/
def Dropped (f : File) (desired : List Attr) (n : Name) : Prop :=
  f.attributes n ≠ none ∧ Undesired desired n.image

/-- The update that loses attributes and is then refused: the blob and the attributes of the file
are in order, the label is to go, and so are attributes before it, which can be removed. -/
def Stripped (fails : Failures) (f : File) (descriptor : ℤ) (data : Bytes) : Prop :=
  ∃ desired l, Updating fails f descriptor data desired l ∧
    (∃ n, n.image = selinux ∧ Dropped f desired n) ∧
    (∃ n, Dropped f desired n ∧ Before n.image selinux) ∧
    ∀ n, Dropped f desired n → Before n.image selinux → fails (.remove n) = false

/-- The attributes to go, as those of the file and as those of the list. -/
lemma dropped_iff {fails : Failures} {f : File} {len : ℕ} {l desired : List Attr}
    (h : Readable fails f len l) (p : Bytes → Prop) :
    (∃ n, p n.image ∧ Dropped f desired n) ↔
      ∃ d ∈ l, p d.name.image ∧ Undesired desired d.name.image := by
  constructor
  · rintro ⟨n, hn, hd, hu⟩
    obtain ⟨x, hx⟩ := Option.ne_none_iff_exists'.1 hd
    obtain ⟨d, hdl, he, -⟩ := (h.lists n x).1 hx
    exact ⟨d, hdl, he ▸ hn, he ▸ hu⟩
  · rintro ⟨d, hd, hn, hu⟩
    exact ⟨d.key (h.canonical.fits d hd), hn, h.present d hd _ rfl, hu⟩

lemma removeOthers_status (fails : Failures) (desired : List Attr) (k : ℕ) (e : Bytes) (a : Map) :
    (removeOthers fails desired k e a).1 = .ok ∨ (removeOthers fails desired k e a).1 = .denied ∨
      (removeOthers fails desired k e a).1 = .ioError := by
  induction k generalizing e a with
  | zero => exact .inl rfl
  | succ k ih =>
    rw [removeOthers]
    split
    · exact ih _ _
    split
    · exact .inr (.inl rfl)
    split
    · exact .inr (.inr rfl)
    · exact ih _ _

lemma finish_refused (fails : Failures) (desired l : List Attr) (a : Map) :
    Refused (finish fails desired (removed fails desired l a)).1 ↔
      (removed fails desired l a).1 = .denied := by
  have h := removeOthers_status fails desired l.length (l.flatMap Attr.record) a
  rw [← removed] at h
  generalize removed fails desired l a = r at h ⊢
  obtain ⟨o, a'⟩ := r
  rcases h with h | h | h <;> obtain rfl : o = _ := h
  · rcases setAll_status fails desired a' with h | h <;> simp [finish, Refused, h]
  · simp [finish, Refused]
  · simp [finish, Refused]

lemma finish_denied {fails : Failures} {desired : List Attr} {r : Outcome × Map}
    (h : r.1 = .denied) : finish fails desired r = r := by
  obtain ⟨o, a⟩ := r
  obtain rfl : o = .denied := h
  rfl

/-- **Refusals.** A refused update leaves the attributes as they were, unless the refusal is that
of dropping the label and attributes before the label have been removed by then. -/
theorem refused_unchanged (fails : Failures) (f : File) (descriptor : ℤ) (data : Bytes) :
    (Refused (setAttributes fails f descriptor data).1 →
      (setAttributes fails f descriptor data).2 = f.attributes) ↔
    ¬ Stripped fails f descriptor data := by
  constructor
  · rintro hp ⟨desired, l, hu, hlabel, hbefore, hok⟩
    have hr := hu.readable
    have hden : (removed fails desired l f.attributes).1 = .denied := by
      refine (removed_denied hr.canonical.fits hr.canonical.ordered hr.present).2
        ⟨(dropped_iff hr (· = selinux)).1 hlabel, fun d hd hud hb n hn =>
          hok n ⟨hr.present d hd n hn, ?_⟩ ?_⟩
      · rwa [hn]
      · rwa [hn]
    rw [updating_eq hu, finish_refused, finish_denied hden] at hp
    rw [removed_unchanged hr.canonical.fits hr.canonical.ordered hr.present hden] at hp
    obtain ⟨n, hn, hb⟩ := hbefore
    obtain ⟨d, hd, hdb, hdu⟩ := (dropped_iff hr fun s => Before s selinux).1 ⟨n, hb, hn⟩
    exact hp hden d hd hdu hdb
  · intro hno hrefused
    by_cases hu : ∃ desired l, Updating fails f descriptor data desired l
    · obtain ⟨desired, l, hu⟩ := hu
      have hr := hu.readable
      rw [updating_eq hu] at hrefused ⊢
      have hden := (finish_refused _ _ _ _).1 hrefused
      rw [finish_denied hden,
        removed_unchanged hr.canonical.fits hr.canonical.ordered hr.present hden]
      intro d hd hdu hb
      obtain ⟨hlabel, hok⟩ :=
        (removed_denied hr.canonical.fits hr.canonical.ordered hr.present).1 hden
      refine hno ⟨desired, l, hu, (dropped_iff hr (· = selinux)).2 hlabel, ?_, fun n hn hnb => ?_⟩
      · obtain ⟨n, hn, hnd⟩ := (dropped_iff hr fun s => Before s selinux).2 ⟨d, hd, hb, hdu⟩
        exact ⟨n, hnd, hn⟩
      · obtain ⟨e, he, ⟨hen, heb⟩, heu⟩ :=
          (dropped_iff hr fun s => s = n.image ∧ Before s selinux).1 ⟨n, ⟨rfl, hnb⟩, hn⟩
        exact hok e he heu heb n hen.symm
    · exact not_updating hu

/-! ### A label that comes last -/

/-- A name of printable characters. -/
def nameOf (s : String) (h : positions s ≠ [] ∧ (positions s).length ≤ 255 ∧ 0 ∉ positions s) :
    Name := ⟨positions s, h.1, h.2.1, h.2.2⟩

def ima : Name := nameOf "security.ima" (by decide)

def label : Name := nameOf "security.selinux" (by decide)

/-- The file whose attributes are `a`, for the two names. -/
def twoNames (x y : Bytes) : File where
  attributes n := if n = ima then some x else if n = label then some y else none
  listing := [label, ima]
  nodup := by decide
  mem_listing n := by
    have h0 : label ≠ ima := by decide
    by_cases h1 : n = ima <;> by_cases h2 : n = label <;> simp [h0, h1, h2]

/-- A blob without attributes is refused, and one attribute is lost. -/
theorem refused_stripped : ¬ ∀ fails f descriptor data,
    Refused (setAttributes fails f descriptor data).1 →
      (setAttributes fails f descriptor data).2 = f.attributes := by
  intro h
  have h1 := congrFun (h never (twoNames [1] [2]) 0 [0, 0] (.inl (by decide))) ima
  have h2 : (setAttributes never (twoNames [1] [2]) 0 [0, 0]).2 ima = none := by decide
  rw [h2] at h1
  exact absurd h1 (by decide)

/-! ### Restoring what was read -/

lemma lists_ext {l : List Attr} {a b : Map} (ha : Lists l a) (hb : Lists l b) : a = b :=
  funext fun n => Option.ext fun v => (ha n v).trans (hb n v).symm

/-- **What an update leaves** are the attributes of the blob. -/
lemma lists_update {fails : Failures} {f : File} {descriptor : ℤ} {data : Bytes}
    {desired l : List Attr} (h : Updating fails f descriptor data desired l)
    (hok : (setAttributes fails f descriptor data).1 = .ok) :
    Lists desired (setAttributes fails f descriptor data).2 := by
  rw [updating_eq h] at hok ⊢
  have hr := h.readable
  have hrem : (removed fails desired l f.attributes).1 = .ok → _ :=
    removed_ok hr.canonical.fits hr.canonical.ordered hr.present
  generalize hR : removed fails desired l f.attributes = r at hok hrem ⊢
  obtain ⟨o, a⟩ := r
  cases o <;> try cases hok
  obtain hset := setAll_ok h.accepted.fits h.accepted.ordered hok
  intro n v
  show (setAll fails desired a).2 n = some v ↔ _
  constructor
  · intro hv
    by_cases hd : ∃ d ∈ desired, d.name.image = n.image
    · obtain ⟨d, hd, hn⟩ := hd
      rw [(hset n).1 d hd hn] at hv
      exact ⟨d, hd, hn, Option.some.inj hv⟩
    · rw [(hset n).2 hd] at hv
      have hn : a n = _ := hrem rfl n
      rw [hv] at hn
      split_ifs at hn with hc
      obtain ⟨e, he, hen, -⟩ := (hr.lists n v).1 hn.symm
      exact absurd ⟨⟨e, he, hen⟩, hd⟩ hc
  · rintro ⟨d, hd, hn, rfl⟩
    exact (hset n).1 d hd hn

lemma names_nodup {l : List Attr} (h : Canonical l) : (l.map (·.name.image)).Nodup := by
  refine (List.pairwise_map (R := Before).2 h.ordered).imp fun {x y} hxy => ?_
  rintro rfl
  exact Std.Asymm.asymm (r := Before) _ _ hxy hxy

/-- The file with the attributes of `l`. -/
def fileOf (l : List Attr) (a : Map) (hl : Canonical l) (h : Lists l a) : File where
  attributes := a
  listing := l.attach.map fun d => d.1.key (hl.fits d.1 d.2)
  nodup := by
    refine List.Nodup.of_map (·.image) ?_
    have he : (l.attach.map fun d => d.1.key (hl.fits d.1 d.2)).map (·.image) =
        l.map (·.name.image) := by
      rw [List.map_map]
      show l.attach.map ((fun d : Attr => d.name.image) ∘ Subtype.val) = _
      rw [← List.map_map, List.attach_map_subtype_val]
    rw [he]
    exact names_nodup hl
  mem_listing n := by
    rw [List.mem_map]
    constructor
    · rintro ⟨⟨d, hd⟩, -, rfl⟩
      rw [(h _ d.value).2 ⟨d, hd, rfl, rfl⟩]
      nofun
    · intro hn
      obtain ⟨v, hv⟩ := Option.ne_none_iff_exists'.1 hn
      obtain ⟨d, hd, he, -⟩ := (h n v).1 hv
      exact ⟨⟨d, hd⟩, List.mem_attach _ _, Name.ext he⟩

/-- The names that the kernel lists take as much room as those of the attributes. -/
lemma listLength_eq {l : List Attr} {f : File} (hl : Canonical l) (h : Lists l f.attributes) :
    listLength (f.listing.map (·.image)) = listLength (l.map (·.name.image)) := by
  have hp : (f.listing.map (·.image)).Perm (l.map (·.name.image)) := by
    refine (List.perm_ext_iff_of_nodup (f.nodup.map fun n m hnm => Name.ext hnm)
      (names_nodup hl)).2 fun s => ?_
    simp only [List.mem_map]
    constructor
    · rintro ⟨n, hn, rfl⟩
      obtain ⟨v, hv⟩ := Option.ne_none_iff_exists'.1 ((f.mem_listing n).1 hn)
      obtain ⟨d, hd, he, -⟩ := (h n v).1 hv
      exact ⟨d, hd, he⟩
    · rintro ⟨d, hd, rfl⟩
      refine ⟨d.key (hl.fits d hd), (f.mem_listing _).2 ?_, rfl⟩
      rw [(h _ d.value).2 ⟨d, hd, rfl, rfl⟩]
      rintro ⟨⟩
  exact (hp.map _).sum_nat

lemma answers_never (f : File) : Answers never f := ⟨rfl, fun _ _ => rfl, fun _ _ _ => rfl⟩

/-- The blob is that of attributes whose names fit into the buffer of `X_List`. -/
def Restorable (data : Bytes) : Prop :=
  ∃ l, Canonical l ∧ data = encode l ∧ listLength (l.map (·.name.image)) ≤ 8192

/-- The first loop on records that are in order. -/
lemma parse_records {n : ℕ} {status : Outcome} {previous : Option Value} {l : List Attr}
    (hn : l.length = n) (hf : ∀ d ∈ l, d.Fits ∧ ∀ p ∈ previous, Less p d.name)
    (hl : l.Pairwise Attr.Less) :
    parse n status previous (l.flatMap Attr.record) = .ok l ∨
      parse n status previous (l.flatMap Attr.record) = .error .unsupported := by
  induction l generalizing n status previous with
  | nil =>
    subst hn
    exact .inl rfl
  | cons d l ih =>
    subst hn
    obtain ⟨hd, hp⟩ := hf d List.mem_cons_self
    obtain ⟨hless, hl⟩ := List.pairwise_cons.1 hl
    rw [List.flatMap_cons, List.length_cons, parse_record hd hp]
    split
    · exact .inr rfl
    · have hf' : ∀ e ∈ l, e.Fits ∧ ∀ p ∈ some d.name, Less p e.name := fun e he =>
        ⟨(hf e (List.mem_cons_of_mem _ he)).1, fun p hp => by cases hp; exact hless e he⟩
      have h : parse l.length .ok (some d.name) (l.flatMap Attr.record) = .ok l ∨
          parse l.length .ok (some d.name) (l.flatMap Attr.record) = .error .unsupported :=
        ih rfl hf' hl
      rcases h with h | h
      · exact .inl (by rw [h])
      · exact .inr (by rw [h])

lemma parse_canonical {l : List Attr} (h : Canonical l) :
    parse l.length .invalidInput none (l.flatMap Attr.record) = .ok l ∨
      parse l.length .invalidInput none (l.flatMap Attr.record) = .error .unsupported :=
  parse_records rfl (fun d hd => ⟨h.fits d hd, fun p hp => by cases hp⟩) h.ordered

lemma scan_error {name b : Bytes} {list : List Value} {o : Outcome}
    (h : scan name list b = .error o) : o ≠ .ok := by
  induction b generalizing name list with
  | nil =>
    rw [scan] at h
    split at h <;> cases h
    rintro ⟨⟩
  | cons c b ih =>
    rw [scan] at h
    split at h
    · split at h
      · cases h
        rintro ⟨⟩
      split at h
      · cases h
        rintro ⟨⟩
      · exact ih h
    · exact ih h

lemma write_error {fails : Failures} {a : Map} {len : ℕ} {vs : List Value} {b : Bytes}
    {o : Outcome} (h : write fails a len vs b = .error o) : o ≠ .ok := by
  induction vs generalizing b with
  | nil => cases h
  | cons v vs ih =>
    rw [write] at h
    split at h
    · cases h
      rintro ⟨⟩
    split at h
    · cases h
      rintro ⟨⟩
    split at h
    · cases h
      rintro ⟨⟩
    split at h
    · cases h
      rintro ⟨⟩
    split at h
    · cases h
      rintro ⟨⟩
    · exact ih h

/-- Reading that gives up says so. -/
lemma getAttributes_error {fails : Failures} {f : File} {descriptor : ℤ} {len : ℕ} {o : Outcome}
    (h : getAttributes fails f descriptor len = .error o) : o ≠ .ok := by
  unfold getAttributes at h
  split at h
  · cases h
    rintro ⟨⟩
  split at h
  · cases h
    rintro ⟨⟩
  split at h
  · rename_i hs
    cases h
    exact scan_error hs
  · exact write_error h

/-- An accepted update whose blob is in order has been run. -/
lemma updating_of_ok {fails : Failures} {f : File} {descriptor : ℤ} {l : List Attr}
    (h : (setAttributes fails f descriptor (encode l)).1 = .ok) (hl : Canonical l) :
    ∃ l', Updating fails f descriptor (encode l) l l' := by
  obtain ⟨h1, h2, h3⟩ := encode_fields hl.count_le
  unfold setAttributes at h
  split at h
  · cases h
  rename_i hpre
  rw [h2, h3] at h
  split at h
  · cases h
  split at h
  · rename_i o hp
    rcases parse_canonical hl with hc | hc
    · rw [hp] at hc
      cases hc
    · rw [hp] at hc
      cases hc
      cases h
  rename_i desired hp
  obtain ⟨hlen, hd⟩ : desired = l ∧ Accepted l := by
    have hp' := hp
    rcases parse_canonical hl with hc | hc
    · rw [hp] at hc
      cases hc
      rw [← h3, ← h2] at hp
      exact ⟨rfl, ((parse_encode h1 (by rw [h2]; exact hl.count_le)).1 hp).1⟩
    · rw [hp] at hc
      cases hc
  split at h
  · rename_i o hg
    exact absurd h (getAttributes_error hg)
  · rename_i existing hg
    obtain ⟨hdesc, l', hl', -⟩ := getAttributes_ok.1 hg
    exact ⟨l', hdesc, hd, rfl, hl'⟩

/-- **The blob of an accepted update is read back** if it is in order, and only then. -/
lemma restored_iff {fails : Failures} {f : File} {descriptor : ℤ} {data : Bytes}
    (h : (setAttributes fails f descriptor data).1 = .ok) :
    (∀ g : File, g.attributes = (setAttributes fails f descriptor data).2 →
      ∀ len, data.length ≤ len → getAttributes never g descriptor len = .ok data) ↔
    Restorable data := by
  constructor
  · intro hget
    obtain ⟨g, hg⟩ : ∃ g : File, g.attributes = (setAttributes fails f descriptor data).2 := by
      by_cases hu : ∃ desired l, Updating fails f descriptor data desired l
      · obtain ⟨desired, l, hu⟩ := hu
        exact ⟨fileOf desired _ hu.accepted.toCanonical (lists_update hu h), rfl⟩
      · exact ⟨f, (not_updating hu).symm⟩
    obtain ⟨-, l, hl, rfl⟩ := getAttributes_ok.1 (hget g hg _ le_rfl)
    exact ⟨l, hl.canonical, rfl, listLength_eq hl.canonical hl.lists ▸ hl.listRoom⟩
  · rintro ⟨l, hl, rfl, hroom⟩ g hg len hlen
    obtain ⟨l', hu⟩ := updating_of_ok h hl
    have hlists : Lists l g.attributes := hg ▸ lists_update hu h
    exact getAttributes_ok.2 ⟨hu.opened, l, ⟨hl, hlists, hlen,
      (listLength_eq hl hlists).trans_le hroom, answers_never g⟩, rfl⟩

/-- **The attributes of one file are restored on another** if those that it has can be read, and
only then. -/
lemma copied_iff {f f' : File} {descriptor descriptor' : ℤ} {len : ℕ} {data : Bytes}
    (h : getAttributes never f descriptor len = .ok data)
    (hcap : ∀ n, n.image = capability → f.attributes n = none)
    (hden : (setAttributes never f' descriptor' data).1 ≠ .denied) :
    (setAttributes never f' descriptor' data).2 = f.attributes ↔
      (0 ≤ descriptor' ∧ ∃ l, Readable never f' maxXattrBytes l) ∨
        f'.attributes = f.attributes := by
  obtain ⟨-, l, hl, rfl⟩ := getAttributes_ok.1 h
  have hacc : Accepted l := ⟨hl.canonical, fun d hd hc =>
    hl.present d hd (d.key (hl.canonical.fits d hd)) rfl (hcap _ hc)⟩
  by_cases hr : 0 ≤ descriptor' ∧ ∃ l, Readable never f' maxXattrBytes l
  · obtain ⟨hdesc, l', hl'⟩ := hr
    have hu : Updating never f' descriptor' (encode l) l l' := ⟨hdesc, hacc, rfl, hl'⟩
    refine iff_of_true ?_ (.inl ⟨hdesc, l', hl'⟩)
    have hok : (setAttributes never f' descriptor' (encode l)).1 = .ok := by
      rw [updating_eq hu] at hden ⊢
      have hrem : (removed never l l' f'.attributes).1 = .ok := by
        refine removed_never hl'.canonical.fits hl'.canonical.ordered hl'.present fun hd => ?_
        rw [finish_denied hd] at hden
        exact hden hd
      generalize removed never l l' f'.attributes = r at hrem ⊢
      obtain ⟨o, a⟩ := r
      obtain rfl : o = .ok := hrem
      exact setAll_never hl.canonical.fits a
    exact lists_ext (lists_update hu hok) hl.lists
  · rw [not_updating fun ⟨_, l', hu⟩ => hr ⟨hu.opened, l', hu.readable⟩]
    exact (or_iff_right hr).symm

/-- **Restoring.** The blob of an accepted update is read back if and only if it is in order and
its names fit into the buffer of the list. What is read of one file is restored on another, unless
that is denied, if and only if the attributes of the other can be read. -/
theorem attributes_restored (fails : Failures) (f f' : File) (descriptor descriptor' : ℤ)
    (data : Bytes) (len : ℕ) :
    ((setAttributes fails f descriptor data).1 = .ok →
      ((∀ g : File, g.attributes = (setAttributes fails f descriptor data).2 →
        ∀ len, data.length ≤ len → getAttributes never g descriptor len = .ok data) ↔
      Restorable data)) ∧
    (getAttributes never f descriptor len = .ok data →
      (∀ n, n.image = capability → f.attributes n = none) →
      (setAttributes never f' descriptor' data).1 ≠ .denied →
      ((setAttributes never f' descriptor' data).2 = f.attributes ↔
        (0 ≤ descriptor' ∧ ∃ l, Readable never f' maxXattrBytes l) ∨
          f'.attributes = f.attributes)) :=
  ⟨restored_iff, copied_iff⟩

/-- The blob of `twoNames x y`. -/
def someBlob (x y : Bytes) : Bytes :=
  [0, 2] ++ record (positions "security.ima") x ++ record (positions "security.selinux") y

theorem attributes_restored_someBlob :
    (∀ g : File, g.attributes = (setAttributes never (twoNames [3] [4]) 0 (someBlob [1] [2])).2 →
      getAttributes never g 0 100 = .ok (someBlob [1] [2])) ∧
    (setAttributes never (twoNames [3] [4]) 0 (someBlob [1] [2])).2 =
      (twoNames [1] [2]).attributes := by
  have hget : getAttributes never (twoNames [1] [2]) 0 100 = .ok (someBlob [1] [2]) := by decide
  have hget' : getAttributes never (twoNames [3] [4]) 0 maxXattrBytes = .ok (someBlob [3] [4]) := by
    decide
  have hok : (setAttributes never (twoNames [3] [4]) 0 (someBlob [1] [2])).1 = .ok := by decide
  have hcap : ∀ n, n.image = capability → (twoNames [1] [2]).attributes n = none := by
    intro n hn
    have h1 : n ≠ ima := by
      rintro rfl
      exact absurd hn (by decide)
    have h2 : n ≠ label := by
      rintro rfl
      exact absurd hn (by decide)
    simp [twoNames, h1, h2]
  obtain ⟨-, l, hl, he⟩ := getAttributes_ok.1 hget
  obtain ⟨h0, l', hl', -⟩ := getAttributes_ok.1 hget'
  have hroom := (listLength_eq hl.canonical hl.lists).ge.trans hl.listRoom
  have h := attributes_restored never (twoNames [3] [4]) (twoNames [3] [4]) 0 0 (someBlob [1] [2])
  have h' := attributes_restored never (twoNames [1] [2]) (twoNames [3] [4]) 0 0
    (someBlob [1] [2]) 100
  exact ⟨fun g hg => ((h 0).1 hok).2 ⟨l, hl.canonical, he, hroom⟩ g hg 100 (by decide),
    (h'.2 hget hcap (by rw [hok]; nofun)).2 (.inl ⟨h0, l', hl'⟩)⟩

/-- A blob of two attributes that ends after the first one is accepted, and nothing is done. -/
theorem attributes_not_restored : ¬ ∀ fails f descriptor data,
    (setAttributes fails f descriptor data).1 = .ok →
    ∀ g : File, g.attributes = (setAttributes fails f descriptor data).2 →
      ∀ len, data.length ≤ len → getAttributes never g descriptor len = .ok data := by
  intro h
  have h1 := h never (twoNames [1] [2]) 0 ([0, 2] ++ record (positions "user.a") [7]) (by decide)
    (twoNames [1] [2]) rfl 100 (by decide)
  exact absurd h1 (by decide)

end NiayanAssurance.Attributes
