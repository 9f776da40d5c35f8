import NiayanAssurance.FileSystem
import NiayanAssurance.Text
import NiayanAssurance.Lib.Split
import NiayanAssurance.Lib.Trace

/-!
Relative paths: which are safe, and how the directory of one is opened.

A safe path is made of names only, so that it leads nowhere but below the directory that it is
taken in. `Parent` opens the directories on the way one by one, each in the one before it.
-/

namespace NiayanAssurance.Paths

open NiayanAssurance.Lib NiayanAssurance.Types NiayanAssurance.Text
open NiayanAssurance.FileSystem (Kind)

abbrev slash : Byte := 47

def safeCharacter (c : Byte) : Bool :=
  letterOrDigit c ∨ c = 95 ∨ c = 45 ∨ c = 46 ∨ c = 43 ∨ c = 64

def safeComponent (value : Bytes) : Bool :=
  if value.length = 0 ∨ 255 < value.length ∨ value = [46] ∨ value = [46, 46] then false
  else value.all safeCharacter

/-- One turn of the loop of `Safe_Relative`: `component` is `Value (Start .. J - 1)`. None ends the
loop with `False`. -/
def turn (component : Bytes) (c : Byte) : Option Bytes :=
  if c = slash then
    if component = [] ∨ safeComponent component = false then none else some []
  else some (component ++ [c])

/-- `Safe_Relative`, of a string whose first index is `first`. -/
def safeRelative (first : ℕ) (value : Bytes) : Bool :=
  if value.length = 0 ∨ 4096 < value.length ∨ value.head? = some slash
      ∨ value.getLast? = some slash ∨ first + value.length - 1 = integerLast then false
  else
    match value.foldlM turn [] with
    | none => false
    | some component => safeComponent component

/-! ### What a path is -/

/-- The characters of names. -/
def alphabet : Bytes :=
  "ABCDEFGHIJKLMNOPQRSTUVWXYZabcdefghijklmnopqrstuvwxyz0123456789_.+@-".toList.map
    fun c => BitVec.ofNat 8 c.toNat

/-- A name, and neither that of the directory it is in nor that of the one above. -/
structure Component (w : Bytes) : Prop where
  length : 1 ≤ w.length ∧ w.length ≤ 255
  characters : ∀ c ∈ w, c ∈ alphabet
  not_dot : w ≠ [46]
  not_dotdot : w ≠ [46, 46]

/-- Names with slashes between them. -/
structure Relative (value : Bytes) : Prop where
  length : 1 ≤ value.length ∧ value.length ≤ 4096
  names : ∃ l : List Bytes, l ≠ [] ∧ (∀ w ∈ l, Component w) ∧ value = [slash].intercalate l

/-- Where a walk from a directory is after one more part of a path: the names below the directory.
A part may be empty, `.` or `..`; none is outside of the directory. -/
def enter (here : List Bytes) (w : Bytes) : Option (List Bytes) :=
  if w = [] ∨ w = [46] then some here
  else if w = [46, 46] then if here = [] then none else some here.dropLast
  else some (here ++ [w])

variable {first : ℕ} {value w : Bytes}

lemma safeCharacter_iff (c : Byte) : safeCharacter c = true ↔ c ∈ alphabet := by
  have key : ∀ c : Byte, safeCharacter c = true ↔ c ∈ alphabet := by decide +kernel
  exact key c

lemma slash_notMem_alphabet : slash ∉ alphabet := by decide

lemma safeComponent_iff (w : Bytes) : safeComponent w = true ↔ Component w := by
  unfold safeComponent
  split_ifs with h
  · refine iff_of_false (by simp) fun hw => ?_
    obtain ⟨h1, h2⟩ := hw.length
    rcases h with h | h | h | h
    · omega
    · omega
    · exact hw.not_dot h
    · exact hw.not_dotdot h
  · push Not at h
    rw [List.all_eq_true]
    simp only [safeCharacter_iff]
    exact ⟨fun hc => ⟨⟨by omega, h.2.1⟩, hc, h.2.2.1, h.2.2.2⟩, Component.characters⟩

lemma Component.slash_notMem (h : Component w) : slash ∉ w := fun hs =>
  slash_notMem_alphabet (h.characters _ hs)

lemma not_component_nil : ¬ Component [] := fun h => absurd h.length.1 (by simp)

/-- A path is one of names with slashes between them when splitting it gives names. -/
lemma relative_iff : Relative value ↔ (1 ≤ value.length ∧ value.length ≤ 4096)
    ∧ ∀ w ∈ value.splitOn slash, Component w := by
  constructor
  · rintro ⟨hlen, l, hne, hl, rfl⟩
    rw [List.splitOn_intercalate _ (fun w hw => (hl w hw).slash_notMem) hne]
    exact ⟨hlen, hl⟩
  · rintro ⟨hlen, hl⟩
    exact ⟨hlen, _, List.splitOn_ne_nil _ _, hl, (List.intercalate_splitOn slash).symm⟩

/-! ### The loop -/

/-- The loop looks at every name but the last, which is looked at after it. -/
lemma scan_iff (component value : Bytes) (hc : slash ∉ component) :
    (∃ last, value.foldlM turn component = some last ∧ safeComponent last = true) ↔
      ∀ w ∈ (component ++ value).splitOn slash, Component w := by
  induction value generalizing component with
  | nil =>
    rw [List.append_nil, List.splitOn_eq_singleton hc, List.forall_mem_singleton,
      ← safeComponent_iff]
    exact ⟨fun ⟨last, h, hs⟩ => Option.some.inj h ▸ hs, fun h => ⟨component, rfl, h⟩⟩
  | cons c value ih =>
    rw [List.foldlM_cons, turn]
    by_cases hslash : c = slash
    · subst hslash
      rw [if_pos rfl, List.splitOn_append_cons_self, List.splitOn_eq_singleton hc,
        List.singleton_append, List.forall_mem_cons, ← safeComponent_iff]
      by_cases hs : safeComponent component = true
      · have hne : component ≠ [] := by
          rintro rfl
          exact not_component_nil ((safeComponent_iff _).1 hs)
        rw [if_neg (by simp [hne, hs]), ← List.nil_append value, ← ih [] List.not_mem_nil]
        simp [hs]
      · rw [if_pos (.inr (by simpa using hs))]
        simp [hs]
    · have hc' : slash ∉ component ++ [c] := fun h =>
        (List.mem_append.1 h).elim hc fun h => hslash (List.mem_singleton.1 h).symm
      rw [if_neg hslash, List.append_cons component c value, ← ih _ hc']
      rfl

/-- A path that begins or ends with a slash has an empty part there. -/
lemma nil_mem_splitOn (h : value.head? = some slash ∨ value.getLast? = some slash) :
    [] ∈ value.splitOn slash := by
  rcases h with h | h
  · obtain ⟨value, rfl⟩ := List.head?_eq_some_iff.1 h
    rw [← List.nil_append (slash :: value), List.splitOn_append_cons_self, List.splitOn_nil]
    exact List.mem_append_left _ List.mem_cons_self
  · obtain ⟨value, rfl⟩ := List.getLast?_eq_some_iff.1 h
    rw [List.splitOn_append_cons_self, List.splitOn_nil]
    exact List.mem_append_right _ List.mem_cons_self

lemma safeRelative_iff (first : ℕ) (value : Bytes) : safeRelative first value = true ↔
    Relative value ∧ first + value.length - 1 ≠ integerLast := by
  have hscan := scan_iff [] value List.not_mem_nil
  rw [List.nil_append] at hscan
  rw [relative_iff, ← hscan, safeRelative]
  split_ifs with h
  · refine iff_of_false (by simp) ?_
    rintro ⟨⟨hlen, hs⟩, hlast⟩
    have hslash : ¬ (value.head? = some slash ∨ value.getLast? = some slash) := fun h' =>
      not_component_nil (hscan.1 hs _ (nil_mem_splitOn h'))
    rcases h with h | h | h | h | h
    · omega
    · omega
    · exact hslash (.inl h)
    · exact hslash (.inr h)
    · exact hlast h
  · push Not at h
    obtain ⟨h1, h2, -, -, h5⟩ := h
    cases value.foldlM turn [] with
    | none => simp
    | some last => simp [h5]; omega

lemma safeRelative_components (h : safeRelative first value = true) :
    ∀ w ∈ value.splitOn slash, Component w :=
  (relative_iff.1 ((safeRelative_iff _ _).1 h).1).2

/-- Names lead below. -/
lemma walk_names {l : List Bytes} (hl : ∀ w ∈ l, Component w) (here : List Bytes) :
    l.foldlM enter here = some (here ++ l) := by
  induction l generalizing here with
  | nil => rw [List.append_nil]; rfl
  | cons w l ih =>
    have hw := hl w List.mem_cons_self
    have hne : w ≠ [] := by
      rintro rfl
      exact not_component_nil hw
    rw [List.foldlM_cons, enter, if_neg (not_or.2 ⟨hne, hw.not_dot⟩), if_neg hw.not_dotdot,
      Option.bind_eq_bind, Option.bind_some, ih fun w hw => hl w (List.mem_cons_of_mem _ hw),
      List.append_assoc, List.singleton_append]

/-- Safe paths joined by a slash. -/
lemma safeRelative_join {p q : Bytes} {i j k : ℕ} (hp : safeRelative i p = true)
    (hq : safeRelative j q = true) (hlen : (p ++ slash :: q).length ≤ 4096)
    (hlast : k + (p ++ slash :: q).length - 1 ≠ integerLast) :
    safeRelative k (p ++ slash :: q) = true := by
  rw [safeRelative_iff, relative_iff, List.splitOn_append_cons_self]
  have hpos : 1 ≤ (p ++ slash :: q).length := by
    rw [List.length_append, List.length_cons]
    omega
  refine ⟨⟨⟨hpos, hlen⟩, fun w hw => ?_⟩, hlast⟩
  rcases List.mem_append.1 hw with hw | hw
  · exact safeRelative_components hp w hw
  · exact safeRelative_components hq w hw

/-! ### The directory of a path -/

/-- `Root`, without what `Parent` does not look at. -/
structure Root where
  handle : ℤ := -1
  mountId : ℕ := 0

/-- `Entry_Info`, without what `Parent` does not look at. -/
structure Info where
  kind : Kind := .absent
  mode : ℕ := 0
  uid : ℕ := 0
  mountId : ℕ := 0

/-- What is asked of the system, which may answer anything. -/
inductive Call
  | dup (d : ℤ)
  | openBeneath (d : ℤ) (name : Bytes)
  | close (d : ℤ)
  | errno
  | euid
  | statFd (d : ℤ)

abbrev Answer : Call → Type
  | .dup _ | .openBeneath _ _ | .errno => ℤ
  | .close _ => Unit
  | .euid => ℕ
  | .statFd _ => Info × Outcome

abbrev Prog := Program Call Answer

/-- `ENOENT`. -/
def enoent : ℤ := 2

/-- `Drop`. -/
def drop (d : ℤ) : Prog Unit := if 0 ≤ d then Program.ask (Call.close d) else pure ()

/-- What `Parent` refuses of a directory on the way. -/
def refuses (root : Root) (v : Info) : Prog Bool :=
  if v.kind ≠ .directory ∨ Nat.land v.mode 0o22 ≠ 0 then pure true
  else if v.uid = 0 then pure (v.mountId ≠ root.mountId)
  else do
    let euid : ℕ ← Program.ask Call.euid
    pure (v.uid ≠ euid ∨ v.mountId ≠ root.mountId)

/-- The loop of `Parent`: `component` is `Path (Start .. J - 1)`. The result is the directory, what
is left of the path, and the outcome. -/
def walk (root : Root) : Bytes → Bytes → ℤ → Prog (ℤ × Bytes × Outcome)
  | [], component, d => pure (d, component, .ok)
  | c :: rest, component, d =>
    if c = slash then do
      let next : ℤ ← Program.ask (Call.openBeneath d component)
      drop d
      if next < 0 then do
        let errno : ℤ ← Program.ask Call.errno
        pure (next, [], if errno = enoent then .stale else .ioError)
      else do
        let (v, status) : Info × Outcome ← Program.ask (Call.statFd next)
        if status ≠ .ok then do
          drop next
          pure (-1, [], status)
        else do
          let refused ← refuses root v
          if refused then do
            drop next
            pure (-1, [], .denied)
          else walk root rest [] next
    else walk root rest (component ++ [c]) d

/-- `Parent`, of a path whose first index is `first`: the directory, the name in it, and the
outcome. -/
def parent (root : Root) (first : ℕ) (path : Bytes) : Prog (ℤ × Value × Outcome) :=
  if root.handle < 0 ∨ safeRelative first path = false then pure (-1, empty, .invalidInput)
  else do
    let d : ℤ ← Program.ask (Call.dup root.handle)
    if d < 0 then pure (d, empty, .ioError)
    else do
      let (d, component, status) ← walk root path [] d
      if status ≠ .ok then pure (d, empty, status)
      else
        match Text.set component with
        | none => do
          drop d
          pure (-1, empty, .invalidInput)
        | some name => pure (d, name, .ok)

/-! ### What is opened on the way -/

/-- A directory that a name was looked up in, the name, and what came of it. -/
abbrev Opening := ℤ × Bytes × ℤ

def opened (t : Trace Call Answer) : List Opening :=
  t.filterMap fun
    | ⟨.openBeneath d name, next⟩ => some (d, name, next)
    | _ => none

def names (l : List Opening) : List Bytes := l.map fun x => x.2.1

/-- From `start` every name was looked up in what the one before it led to, the last one leading
to `d`. -/
inductive Leads (start : ℤ) : List Opening → ℤ → Prop
  | here : Leads start [] start
  | into {l : List Opening} {d : ℤ} (name : Bytes) (next : ℤ) :
      Leads start l d → Leads start (l ++ [(d, name, next)]) next

@[simp] lemma opened_append (t u : Trace Call Answer) : opened (t ++ u) = opened t ++ opened u :=
  List.filterMap_append

@[simp] lemma names_append (l : List Opening) (x : Opening) :
    names (l ++ [x]) = names l ++ [x.2.1] := by
  simp [names]

/-- Calls by which nothing is opened. -/
def Quiet (c : Call) : Prop := ∀ d name, c ≠ .openBeneath d name

lemma drop_quiet (d : ℤ) : (drop d).Uses Quiet := by
  unfold drop
  split_ifs
  · exact Program.uses_ask nofun
  · exact trivial

lemma refuses_quiet (root : Root) (v : Info) : (refuses root v).Uses Quiet := by
  unfold refuses
  split_ifs
  · exact trivial
  · exact trivial
  · exact ⟨nofun, fun _ => trivial⟩

lemma opened_quiet {α : Type} {p : Prog α} {t : Trace Call Answer} (h : p.Uses Quiet) :
    p.Always (fun _ t' => opened t' = opened t) t := by
  refine (Program.Uses.always h).mono fun a t' ⟨u, ht, hu⟩ => ?_
  have hnil : opened u = [] := by
    refine List.filterMap_eq_nil_iff.2 fun ⟨c, r⟩ hx => ?_
    cases c <;> first | rfl | exact absurd rfl (hu _ hx _ _)
  rw [ht, opened_append, hnil, List.append_nil]

/-- **The rule for calls by which nothing is opened.** -/
lemma always_quiet {α β : Type} {p : Prog α} {f : α → Prog β} {t : Trace Call Answer}
    {Q : β → Trace Call Answer → Prop} (h : p.Uses Quiet)
    (hf : ∀ a t', opened t' = opened t → (f a).Always Q t') : (p >>= f).Always Q t :=
  (opened_quiet h).bind hf

/-- What has been opened on the way along `parts` from `start`, and what the walk ends with. -/
def Walked (start : ℤ) (parts : List Bytes) (r : ℤ × Bytes × Outcome) (l : List Opening) : Prop :=
  ∃ d, Leads start l d ∧ names l <+: parts.dropLast
    ∧ (r.2.2 = .ok → r.1 = d ∧ parts = names l ++ [r.2.1])

/-- A walk that ends before its end. -/
lemma Walked.refused {start d : ℤ} {parts rest : List Bytes} {l : List Opening}
    {r : ℤ × Bytes × Outcome} (h : Leads start l d) (hp : parts = names l ++ rest)
    (hne : rest ≠ []) (hr : r.2.2 ≠ .ok) : Walked start parts r l := by
  refine ⟨d, h, ?_, fun h' => absurd h' hr⟩
  rw [hp, List.dropLast_append_of_ne_nil hne]
  exact List.prefix_append _ _

/-- Every part but the last is opened in what the one before it led to. -/
lemma walk_always (root : Root) {start : ℤ} {parts : List Bytes} (rest component : Bytes) (d : ℤ)
    {t : Trace Call Answer} (hc : slash ∉ component) (h : Leads start (opened t) d)
    (hp : parts = names (opened t) ++ (component ++ rest).splitOn slash) :
    (walk root rest component d).Always (fun r t' => Walked start parts r (opened t')) t := by
  induction rest generalizing component d t with
  | nil =>
    rw [List.append_nil, List.splitOn_eq_singleton hc] at hp
    refine ⟨d, h, ?_, fun _ => ⟨rfl, hp⟩⟩
    rw [hp, List.dropLast_concat]
  | cons c rest ih =>
    rw [walk]
    by_cases hslash : c = slash
    · subst hslash
      rw [if_pos rfl]
      rw [List.splitOn_append_cons_self, List.splitOn_eq_singleton hc, ← List.append_assoc] at hp
      refine Program.always_ask fun next => ?_
      have hl : Leads start (opened (t ++ [⟨.openBeneath d component, next⟩])) next := by
        rw [opened_append]
        exact h.into component next
      have hp' : parts = names (opened (t ++ [⟨.openBeneath d component, next⟩]))
          ++ rest.splitOn slash := by
        rw [hp, opened_append]
        exact congrArg (· ++ _) (names_append _ (d, component, next)).symm
      have hne := List.splitOn_ne_nil slash rest
      -- From here on nothing is opened but by the rest of the walk.
      refine always_quiet (drop_quiet d) fun _ t₁ h₁ => ?_
      by_cases hnext : next < 0
      · rw [if_pos hnext]
        refine always_quiet (Program.uses_ask nofun) fun errno t₂ h₂ => ?_
        refine Program.always_pure ?_
        rw [h₂, h₁]
        exact .refused hl hp' hne (by dsimp only; split_ifs <;> nofun)
      rw [if_neg hnext]
      refine always_quiet (Program.uses_ask nofun) fun ⟨v, status⟩ t₂ h₂ => ?_
      dsimp only
      by_cases hs : status ≠ .ok
      · rw [if_pos hs]
        refine always_quiet (drop_quiet next) fun _ t₃ h₃ => Program.always_pure ?_
        rw [h₃, h₂, h₁]
        exact .refused hl hp' hne hs
      rw [if_neg hs]
      refine always_quiet (refuses_quiet root v) fun refused t₃ h₃ => ?_
      cases refused with
      | true =>
        refine always_quiet (drop_quiet next) fun _ t₄ h₄ => Program.always_pure ?_
        rw [h₄, h₃, h₂, h₁]
        exact .refused hl hp' hne nofun
      | false =>
        rw [← h₁, ← h₂, ← h₃] at hl hp'
        exact ih [] next List.not_mem_nil hl hp'
    · have hc' : slash ∉ component ++ [c] := fun h =>
        (List.mem_append.1 h).elim hc fun h => hslash (List.mem_singleton.1 h).symm
      rw [if_neg hslash]
      rw [List.append_cons] at hp
      exact ih _ d hc' h hp

/-- What `Parent` has done when it ends. -/
structure Opened (root : Root) (first : ℕ) (path : Bytes) (r : ℤ × Value × Outcome)
    (t : Trace Call Answer) : Prop where
  /-- Nothing is opened for a path that is not safe. -/
  safe : opened t ≠ [] ∨ r.2.2 = .ok → safeRelative first path = true
  /-- The names are those of the path, looked up in order from the root on, and none of the last. -/
  beneath : ∃ start d, (⟨.dup root.handle, start⟩ ∈ t ∨ opened t = []) ∧ Leads start (opened t) d
    ∧ names (opened t) <+: (path.splitOn slash).dropLast
    ∧ (r.2.2 = .ok → r.1 = d ∧ path.splitOn slash = names (opened t) ++ [r.2.1.image])
  /-- Every name that is looked up is one. -/
  components : ∀ w ∈ names (opened t), Component w

lemma Opened.nothing (root : Root) (first : ℕ) (path : Bytes) {r : ℤ × Value × Outcome}
    {t : Trace Call Answer} (hr : r.2.2 ≠ .ok) (ht : opened t = []) :
    Opened root first path r t where
  safe h := h.elim (absurd ht) fun h => absurd h hr
  beneath := ⟨0, 0, .inr ht, ht ▸ .here, by rw [ht]; exact List.nil_prefix, fun h => absurd h hr⟩
  components := by rw [ht]; nofun

lemma parent_always (root : Root) (first : ℕ) (path : Bytes) :
    (parent root first path).Always (fun r t => Opened root first path r t) [] := by
  unfold parent
  by_cases h : root.handle < 0 ∨ safeRelative first path = false
  · rw [if_pos h]
    exact Program.always_pure (.nothing _ _ _ nofun rfl)
  rw [if_neg h]
  have hsafe : safeRelative first path = true := by simpa using (not_or.1 h).2
  refine Program.always_ask fun start => ?_
  by_cases hstart : start < 0
  · rw [if_pos hstart]
    exact Program.always_pure (.nothing _ _ _ nofun rfl)
  rw [if_neg hstart]
  have hwalk := (@walk_always root start (path.splitOn slash) path [] start
    [⟨.dup root.handle, start⟩] List.not_mem_nil .here rfl).extends
  refine hwalk.bind fun ⟨d, component, status⟩ t ⟨⟨e, hl, hp, hok⟩, ht⟩ => ?_
  have hdup : ⟨.dup root.handle, start⟩ ∈ t := ht.subset List.mem_cons_self
  have hnames : ∀ w ∈ names (opened t), Component w := fun w hw =>
    safeRelative_components hsafe w (List.mem_of_mem_dropLast (hp.subset hw))
  dsimp only
  by_cases hs : status ≠ .ok
  · rw [if_pos hs]
    exact ⟨fun _ => hsafe, ⟨start, e, .inl hdup, hl, hp, fun h => absurd h hs⟩, hnames⟩
  rw [if_neg hs]
  obtain ⟨rfl, hparts⟩ := hok (not_not.1 hs)
  cases hset : Text.set component with
  | none =>
    refine (Program.Always.extends (opened_quiet (drop_quiet d))).bind fun _ t' ⟨h', ht'⟩ => ?_
    refine Program.always_pure ⟨fun _ => hsafe, ⟨start, d, .inl (ht'.subset hdup), ?_⟩, ?_⟩
    · rw [h']
      exact ⟨hl, hp, nofun⟩
    · rw [h']
      exact hnames
  | some name =>
    refine ⟨fun _ => hsafe, ⟨start, d, .inl hdup, hl, hp, fun _ => ⟨rfl, ?_⟩⟩, hnames⟩
    rw [Text.set_some.1 hset]
    exact hparts

/-! ### Safe paths -/

/-- **The safe paths** are those of 1 to 4096 characters that are names with slashes between them,
but for a string that ends at the last index there is. None is absolute, none has an empty part,
and wherever along the way a walk stops, it is below where it began. Joined by a slash they are
safe again. `Parent`, whatever it is answered, looks up nothing but the names of a safe path, each
in what the one before it led to, and is left with the last one. -/
theorem safe_relative :
    (∀ (first : ℕ) (value : Bytes), safeRelative first value = true ↔
      Relative value ∧ first + value.length - 1 ≠ integerLast)
    ∧ (∀ (first : ℕ) (value : Bytes), safeRelative first value = true →
      value.head? ≠ some slash ∧ [] ∉ value.splitOn slash
      ∧ ∀ k, ((value.splitOn slash).take k).foldlM enter [] = some ((value.splitOn slash).take k))
    ∧ (∀ (i j k : ℕ) (p q : Bytes), safeRelative i p = true → safeRelative j q = true →
      (p ++ slash :: q).length ≤ 4096 → k + (p ++ slash :: q).length - 1 ≠ integerLast →
      safeRelative k (p ++ slash :: q) = true)
    ∧ ∀ (root : Root) (first : ℕ) (path : Bytes),
      (parent root first path).Always (fun r t => Opened root first path r t) [] := by
  refine ⟨safeRelative_iff, fun first value h => ?_, fun i j k p q => safeRelative_join,
    parent_always⟩
  have hnil : [] ∉ value.splitOn slash := fun h' =>
    not_component_nil (safeRelative_components h _ h')
  refine ⟨fun h' => hnil (nil_mem_splitOn (.inl h')), hnil, fun k => ?_⟩
  rw [walk_names fun w hw => safeRelative_components h w (List.mem_of_mem_take hw),
    List.nil_append]

/-- A string at the end of the index range, with nothing else against it. -/
theorem safeRelative_at_last : ¬ ∀ (first : ℕ) (value : Bytes),
    first + value.length - 1 ≤ integerLast →
    (safeRelative first value = true ↔ Relative value) := by
  intro h
  have hr : Relative [97] := by
    refine relative_iff.2 ⟨by decide, ?_⟩
    rw [List.splitOn_eq_singleton (by decide), List.forall_mem_singleton, ← safeComponent_iff]
    decide
  have hlast : integerLast + ([97] : Bytes).length - 1 = integerLast := rfl
  exact ((safeRelative_iff _ _).1 ((h integerLast [97] hlast.le).2 hr)).2 hlast

end NiayanAssurance.Paths
