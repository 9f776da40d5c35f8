import NiayanAssurance.WitnessAdmin
import NiayanAssurance.Lib.Run

/-!
The directory in which a request is handed over: the operator places the envelope, the observers
place their witnesses, and the receiver loads what is there, with crashes at any time.

An envelope is placed once; a witness may be replaced by a later one of the same fact.
-/

namespace NiayanAssurance.RequestSpool

open NiayanAssurance.Lib NiayanAssurance.Types NiayanAssurance.Requests
open NiayanAssurance.Ingress NiayanAssurance.SitePolicy NiayanAssurance.Atomic
open NiayanAssurance.RequestAdmin NiayanAssurance.WitnessAdmin
open NiayanAssurance.Gate (WitnessSet Submission)

/-- The files of the directory. -/
inductive Name
  | envelope
  | witness (f : Fact)
  deriving DecidableEq

/-! ### Placing -/

/-- What the host answers to `Open_Root`, and to the calls that write the file. -/
structure PutHost where
  root : Outcome := .ok
  place : PlaceHost := {}

/-- `make-request`. -/
def putRequest (sign : Sign) (data : Bytes) (host : PutHost) (d : Directory Name) :
    Directory Name × Outcome :=
  match makeRequest sign data with
  | .error o => (d, o)
  | .ok e => if host.root ≠ .ok then (d, host.root) else write d .envelope e true host.place

/-- `sign-witness`. -/
def putWitness (sign : Sign) (data : Bytes) (host : PutHost) (d : Directory Name) :
    Directory Name × Outcome :=
  match makeWitness sign data with
  | .error o => (d, o)
  | .ok (f, b) =>
    if host.root ≠ .ok then (d, host.root) else write d (.witness f) b false host.place

/-! ### Loading -/

/-- What the host answers to `Open_Root`, and to the calls that inspect and read the files. -/
structure LoadHost where
  root : Outcome := .ok
  read : Outcome := .ok
  stat : Fact → Outcome := fun _ => .ok
  readWitness : Fact → Outcome := fun _ => .ok

/-- One turn of the loop over the facts. -/
def loadTurn (d : Directory Name) (host : LoadHost) (w : WitnessSet) (f : Fact) :
    Except Outcome WitnessSet :=
  if host.stat f ≠ .ok then .error (host.stat f)
  else if d.cached (.witness f) = none then .ok w
  else
    match Atomic.read d (.witness f) 288 (host.readWitness f) with
    | .error o => .error o
    | .ok b => if b.length ≠ 288 then .error .invalidInput else .ok (handIn w (f, b))

/-- `MC_Request_Files.Load`. -/
def load (d : Directory Name) (host : LoadHost) : Except Outcome Submission :=
  if host.root ≠ .ok then .error host.root
  else
    match Atomic.read d .envelope 416 host.read with
    | .error o => .error o
    | .ok b =>
      if b.length ≠ 416 then .error .invalidInput
      else (Fact.all.foldlM (loadTurn d host) {}).map fun w =>
        { header := range b 1 160, body := range b 161 352
          signature := Block.ofBytes 64 (range b 353 416), witnesses := w }

/-! ### Runs -/

inductive Event
  | request (sign : Sign) (data : Bytes) (host : PutHost)
  | witness (sign : Sign) (data : Bytes) (host : PutHost)
  | crash (keep : Name → Bool)

def step (d : Directory Name) : Event → Directory Name × Option Outcome
  | .request sign data host =>
    let r := putRequest sign data host d
    (r.1, some r.2)
  | .witness sign data host =>
    let r := putWitness sign data host d
    (r.1, some r.2)
  | .crash keep => (d.crash keep, none)

abbrev History := List (Event × Option Outcome)

/-- Everything that happened to a directory that was empty at first, and what is left. -/
def life (events : List Event) : History × Directory Name := exec step .empty events

/-! ### What is loaded -/

section Load

variable {d : Directory Name} {host : LoadHost} {w w' : WitnessSet} {f : Fact} {x : Submission}

/-- The file of a witness. -/
def fileOf (w : WitnessSet) (f : Fact) : Bytes := (w.statements f).bytes ++ (w.signatures f).bytes

/-- There is a witness of `f` if there is one in the directory, and it is that one. -/
structure Holds (d : Directory Name) (w : WitnessSet) (f : Fact) : Prop where
  present : w.present f = true → d.cached (.witness f) = some (fileOf w f)
  absent : w.present f = false → d.cached (.witness f) = none

/-- Nothing is changed of the witness of `f`. -/
def Same (w w' : WitnessSet) (f : Fact) : Prop :=
  w'.present f = w.present f ∧ w'.statements f = w.statements f
    ∧ w'.signatures f = w.signatures f

lemma Holds.of_same {k : Fact} (h : Holds d w k) (hs : Same w w' k) : Holds d w' k := by
  obtain ⟨h1, h2, h3⟩ := hs
  have hf : fileOf w' k = fileOf w k := by rw [fileOf, fileOf, h2, h3]
  exact ⟨fun h' => hf ▸ h.present (h1 ▸ h'), fun h' => h.absent (h1 ▸ h')⟩

lemma fileOf_handIn {b : Bytes} (hl : b.length = 288) : fileOf (handIn w (f, b)) f = b := by
  have h1 : (range b 1 224).length = 224 := length_range (by omega)
  have h2 : (range b 225 288).length = 64 := length_range (by omega)
  simp only [fileOf, handIn, Function.update_self, Block.bytes_ofBytes h1, Block.bytes_ofBytes h2]
  rw [range_append_range (by omega) (by omega), range_all hl]

lemma loadTurn_ok (h : loadTurn d host w f = .ok w') :
    (w.present f = false → Holds d w' f) ∧ ∀ k, k ≠ f → Same w w' k := by
  unfold loadTurn at h
  split at h
  · cases h
  split at h
  · rename_i hn
    cases h
    exact ⟨fun hp => ⟨fun h' => by simp [hp] at h', fun _ => hn⟩, fun k _ => ⟨rfl, rfl, rfl⟩⟩
  split at h
  · cases h
  rename_i b hr
  split at h
  · cases h
  rename_i hl
  obtain rfl := Except.ok.inj h
  rw [not_not] at hl
  refine ⟨fun _ => ⟨fun _ => ?_, fun h' => ?_⟩, fun k hk => ?_⟩
  · rw [fileOf_handIn hl]
    exact read_ok hr
  · simp [handIn] at h'
  · simp [Same, handIn, hk]

lemma fold_ok {l : List Fact} (hl : l.Nodup) (hw : ∀ f ∈ l, w.present f = false)
    (h : l.foldlM (loadTurn d host) w = .ok w') :
    (∀ f ∈ l, Holds d w' f) ∧ ∀ f, f ∉ l → Same w w' f := by
  induction l generalizing w with
  | nil =>
    obtain rfl := pure_ok.1 h
    exact ⟨by simp, fun f _ => ⟨rfl, rfl, rfl⟩⟩
  | cons f l ih =>
    obtain ⟨w₁, h1, h2⟩ := foldlM_cons_ok.1 h
    obtain ⟨hf, hl⟩ := List.nodup_cons.1 hl
    obtain ⟨hw, hws⟩ := List.forall_mem_cons.1 hw
    obtain ⟨h3, h4⟩ := loadTurn_ok h1
    obtain ⟨h5, h6⟩ := ih hl (fun k hk => by
      rw [(h4 k fun he => hf (he ▸ hk)).1]
      exact hws k hk) h2
    refine ⟨List.forall_mem_cons.2 ⟨(h3 hw).of_same (h6 f hf), h5⟩, fun k hk => ?_⟩
    rw [List.mem_cons, not_or] at hk
    obtain ⟨a1, a2, a3⟩ := h4 k hk.1
    obtain ⟨b1, b2, b3⟩ := h6 k hk.2
    exact ⟨b1.trans a1, b2.trans a2, b3.trans a3⟩

lemma mem_facts (f : Fact) : f ∈ Fact.all := by cases f <;> decide

/-- **What is loaded** is what is in the directory. -/
theorem load_ok (h : load d host = .ok x) : d.cached .envelope = some x.envelope
    ∧ ∀ f, Holds d x.witnesses f := by
  unfold load at h
  split at h
  · cases h
  split at h
  · cases h
  rename_i b hr
  split at h
  · cases h
  rename_i hl
  rw [not_not] at hl
  cases hf : Fact.all.foldlM (loadTurn d host) {} with
  | error o => rw [hf] at h; cases h
  | ok w =>
    rw [hf] at h
    obtain rfl := Except.ok.inj h
    refine ⟨?_, fun f => (fold_ok (by decide) (by simp) hf).1 f (mem_facts f)⟩
    have h1 : (range b 353 416).length = 64 := length_range (by omega)
    rw [Submission.envelope, Block.bytes_ofBytes h1, range_append_range (by omega) (by omega),
      range_append_range (by omega) (by omega), range_all hl]
    exact read_ok hr

/-- Files of the right sizes are loaded. -/
lemma load_of {e : Bytes} (he : d.cached .envelope = some e) (hl : e.length = 416)
    (hw : ∀ f b, d.cached (.witness f) = some b → b.length = 288) : ∃ x, load d {} = .ok x := by
  have fold : ∀ (l : List Fact) (w : WitnessSet), ∃ w', l.foldlM (loadTurn d {}) w = .ok w' := by
    intro l
    induction l with
    | nil => exact fun w => ⟨w, rfl⟩
    | cons f l ih =>
      intro w
      cases hc : d.cached (.witness f) with
      | none =>
        obtain ⟨w', h⟩ := ih w
        exact ⟨w', foldlM_cons_ok.2 ⟨w, by simp [loadTurn, hc], h⟩⟩
      | some b =>
        obtain ⟨w', h⟩ := ih (handIn w (f, b))
        have hb := hw f b hc
        exact ⟨w', foldlM_cons_ok.2 ⟨_, by simp [loadTurn, hc, read_some hc hb.le, hb], h⟩⟩
  obtain ⟨w, h⟩ := fold Fact.all {}
  refine ⟨⟨range e 1 160, range e 161 352, Block.ofBytes 64 (range e 353 416), w⟩, ?_⟩
  simp [load, read_some he hl.le, hl, h, Except.map]

end Load

/-! ### Every run -/

/-- The event is to place the file `b` under `n`. -/
def Places : Event → Name → Bytes → Prop
  | .request sign data _, n, b => n = .envelope ∧ makeRequest sign data = .ok b
  | .witness sign data _, n, b => ∃ f, n = .witness f ∧ makeWitness sign data = .ok (f, b)
  | .crash _, _, _ => False

/-- What an event does. -/
inductive Steps (d : Directory Name) (ev : Event) : Directory Name → Option Outcome → Prop
  | kept {o : Outcome} (ho : ∀ n b, Places ev n b → o ≠ .ok) : Steps d ev d (some o)
  | placed {n : Name} {b : Bytes} (hp : Places ev n b) (hn : n = .envelope → d.cached n = none) :
      Steps d ev (d.place n b) (some .indeterminate)
  | synced {n : Name} {b : Bytes} (hp : Places ev n b) (hn : n = .envelope → d.cached n = none) :
      Steps d ev (d.place n b).sync (some .ok)
  | crash (keep : Name → Bool) (he : ev = .crash keep) : Steps d ev (d.crash keep) none

section Step

variable {d d' : Directory Name} {ev : Event} {a : Option Outcome} {l : History}

lemma steps_write {n : Name} {b : Bytes} {new : Bool} {host : PlaceHost} (hp : Places ev n b)
    (hn : n = .envelope → new = true) :
    Steps d ev (write d n b new host).1 (some (write d n b new host).2) := by
  rcases write_cases d n b new host with ⟨h1, h2⟩ | ⟨h1, h2 | h2⟩
  · rw [h1]
    exact .kept fun _ _ _ => h2
  · rw [h2]
    exact .synced hp fun h => h1 (hn h)
  · rw [h2]
    exact .placed hp fun h => h1 (hn h)

lemma step_cases (d : Directory Name) (ev : Event) : Steps d ev (step d ev).1 (step d ev).2 := by
  cases ev with
  | crash keep => exact .crash keep rfl
  | request sign data host =>
    dsimp only [step, putRequest]
    cases hm : makeRequest sign data with
    | error o => exact .kept fun n b h => by cases hm.symm.trans h.2
    | ok e =>
      dsimp only
      split
      · exact .kept fun _ _ _ => by assumption
      · exact steps_write ⟨rfl, hm⟩ fun _ => rfl
  | witness sign data host =>
    dsimp only [step, putWitness]
    rcases hm : makeWitness sign data with o | ⟨f, b⟩
    · refine .kept fun n b h => ?_
      obtain ⟨f, -, h⟩ := h
      cases hm.symm.trans h
    · dsimp only
      split
      · exact .kept fun _ _ _ => by assumption
      · exact steps_write ⟨f, rfl, hm⟩ (by simp)

/-- `c` is the file `b`, or one that an event of `l` was to place under the same name. -/
def Later (l : History) (n : Name) (b c : Bytes) : Prop :=
  c = b ∨ ∃ ev a, (ev, a) ∈ l ∧ Places ev n c

/-- The files were placed by events. What was acknowledged is on the medium, and is seen, unless
something later has taken its place; of the envelope it is the same file. -/
structure Inv (l : History) (d : Directory Name) : Prop where
  source : d.Every fun n b => ∃ ev a, (ev, a) ∈ l ∧ Places ev n b
  acknowledged : ∀ l₁ l₂ ev n b, l = l₁ ++ (ev, some .ok) :: l₂ → Places ev n b →
    ∀ x ∈ [d.stable n, d.cached n], ∃ c, x = some c ∧ Later l₂ n b c
  envelope : ∀ ev b, (ev, some .ok) ∈ l → Places ev .envelope b → d.stable .envelope = some b
  fixed : ∀ e, d.stable .envelope = some e → d.cached .envelope = some e

lemma places_unique {n n' : Name} {b b' : Bytes} (h : Places ev n b) (h' : Places ev n' b') :
    n = n' ∧ b = b' := by
  cases ev with
  | crash keep => cases h
  | request sign data host =>
    obtain ⟨rfl, h1⟩ := h
    obtain ⟨rfl, h2⟩ := h'
    exact ⟨rfl, Except.ok.inj (h1.symm.trans h2)⟩
  | witness sign data host =>
    obtain ⟨f, rfl, h1⟩ := h
    obtain ⟨f', rfl, h2⟩ := h'
    obtain ⟨h3, h4⟩ := Prod.mk.inj (Except.ok.inj (h1.symm.trans h2))
    exact ⟨by rw [h3], h4⟩

/-- What is under a name was there before, or the event has placed it. -/
def From (d : Directory Name) (ev : Event) (n : Name) (x : Option Bytes) : Prop :=
  x ∈ [d.stable n, d.cached n] ∨ ∃ b, Places ev n b ∧ x = some b

lemma steps_from (hs : Steps d ev d' a) (n : Name) :
    ∀ x ∈ [d'.stable n, d'.cached n], From d ev n x := by
  have old : ∀ x ∈ [d.stable n, d.cached n], From d ev n x := fun x hx => .inl hx
  simp only [List.mem_cons, List.not_mem_nil, or_false, forall_eq_or_imp, forall_eq] at old ⊢
  have put : ∀ {n' b}, Places ev n' b → From d ev n ((d.place n' b).cached n) := fun {n'} b hp => by
    by_cases hn : n = n'
    · subst hn
      exact .inr ⟨b, hp, by simp [Directory.place]⟩
    · simpa [Directory.place, hn] using old.2
  cases hs with
  | kept => exact old
  | placed hp => exact ⟨old.1, put hp⟩
  | synced hp => exact ⟨put hp, put hp⟩
  | crash keep => cases hk : keep n <;> simp [Directory.crash, hk, old]

/-- An event that is acknowledged has placed its file. -/
lemma steps_acknowledged {n : Name} {b : Bytes} (hs : Steps d ev d' (some .ok))
    (hp : Places ev n b) : d'.stable n = some b ∧ d'.cached n = some b := by
  cases hs with
  | kept ho => exact absurd rfl (ho n b hp)
  | synced hp' =>
    obtain ⟨rfl, rfl⟩ := places_unique hp hp'
    simp [Directory.place, Directory.sync]

/-- An envelope that is on the medium stays there, and is seen. -/
lemma steps_fixed (hf : ∀ e, d.stable .envelope = some e → d.cached .envelope = some e)
    (hs : Steps d ev d' a) :
    (∀ e, d.stable .envelope = some e → d'.stable .envelope = some e) ∧
      ∀ e, d'.stable .envelope = some e → d'.cached .envelope = some e := by
  have other : ∀ {n : Name} {e}, (n = .envelope → d.cached n = none) →
      d.cached .envelope = some e → Name.envelope ≠ n := fun hn he h => by
    subst h
    cases (hn rfl).symm.trans he
  cases hs with
  | kept => exact ⟨fun _ h => h, hf⟩
  | placed _ hn =>
    exact ⟨fun _ h => h, fun e h => by simpa [Directory.place, other hn (hf e h)] using hf e h⟩
  | synced _ hn =>
    exact ⟨fun e h => by simpa [Directory.place, Directory.sync, other hn (hf e h)] using hf e h,
      fun _ h => h⟩
  | crash keep =>
    refine ⟨fun e h => ?_, fun _ h => h⟩
    cases hk : keep .envelope <;> simp [Directory.crash, hk, h, hf e h]

lemma Later.snoc {n : Name} {b c : Bytes} (h : Later l n b c) (x : Event × Option Outcome) :
    Later (l ++ [x]) n b c := by
  rcases h with h | ⟨ev, a, hm, hp⟩
  · exact .inl h
  · exact .inr ⟨ev, a, List.mem_append_left _ hm, hp⟩

/-- **The step of the invariant.** -/
theorem inv_step (h : Inv l d) (hs : Steps d ev d' a) : Inv (l ++ [(ev, a)]) d' := by
  have hnew : (ev, a) ∈ l ++ [(ev, a)] := List.mem_append_right _ (List.mem_singleton_self _)
  obtain ⟨hstays, hfixed⟩ := steps_fixed h.fixed hs
  refine ⟨fun n b hb => ?_, ?_, ?_, hfixed⟩
  · have hx : some b ∈ [d'.stable n, d'.cached n] := by
      rcases hb with hb | hb <;> simp [hb]
    rcases steps_from hs n _ hx with hx | ⟨b', hp, hb'⟩
    · obtain ⟨ev', a', hm, hp⟩ := h.source n b (by simpa [eq_comm, or_comm] using hx)
      exact ⟨ev', a', List.mem_append_left _ hm, hp⟩
    · obtain rfl := Option.some.inj hb'
      exact ⟨ev, a, hnew, hp⟩
  · intro l₁ l₂ ev' n b hl hp x hx
    rcases List.eq_nil_or_concat l₂ with rfl | ⟨l₂, y, rfl⟩
    · -- The acknowledged event is the last one.
      obtain ⟨-, he⟩ := List.append_inj' hl rfl
      obtain ⟨rfl, rfl⟩ := Prod.mk.inj (List.singleton_inj.1 he)
      obtain ⟨h1, h2⟩ := steps_acknowledged hs hp
      rw [h1, h2] at hx
      exact ⟨b, by simpa using hx, .inl rfl⟩
    · rw [List.concat_eq_append, ← List.cons_append, ← List.append_assoc] at hl
      obtain ⟨rfl, he⟩ := List.append_inj' hl rfl
      obtain rfl := List.singleton_inj.1 he
      rw [List.concat_eq_append]
      rcases steps_from hs n x hx with hx | ⟨c, hp', rfl⟩
      · obtain ⟨c, rfl, hc⟩ := h.acknowledged l₁ l₂ ev' n b rfl hp x hx
        exact ⟨c, rfl, hc.snoc _⟩
      · exact ⟨c, rfl, .inr ⟨ev, a, List.mem_append_right _ (List.mem_singleton_self _), hp'⟩⟩
  · intro ev' b hm hp
    rcases List.mem_append.1 hm with hm | hm
    · exact hstays b (h.envelope ev' b hm hp)
    · obtain ⟨rfl, rfl⟩ := Prod.mk.inj (List.mem_singleton.1 hm)
      exact (steps_acknowledged hs hp).1

theorem inv_life (events : List Event) : Inv (life events).1 (life events).2 := by
  induction events using List.reverseRecOn with
  | nil => exact ⟨Directory.every_empty, by simp [life], by simp [life],
      by simp [life, Directory.empty]⟩
  | append_singleton events ev ih =>
    rw [life, exec_snoc]
    exact inv_step ih (step_cases _ _)

end Step

/-- What a receiver finds, at any time. -/
structure Spooled (l : History) (d : Directory Name) : Prop where
  /-- What is loaded was made by the operator, and by the observers, for these facts. -/
  made : ∀ host x, load d host = .ok x →
    (∃ sign data put a, (Event.request sign data put, a) ∈ l
      ∧ makeRequest sign data = .ok x.envelope)
    ∧ ∀ f, x.witnesses.present f = true → ∃ sign data put a,
      (Event.witness sign data put, a) ∈ l
        ∧ makeWitness sign data = .ok (f, fileOf x.witnesses f)
  /-- A request that was acknowledged can be loaded, and no other is. -/
  request : ∀ sign data put e, (Event.request sign data put, some .ok) ∈ l →
    makeRequest sign data = .ok e →
      (∃ x, load d {} = .ok x) ∧ ∀ host x, load d host = .ok x → x.envelope = e
  /-- A witness that was acknowledged is loaded, or one of the same fact that was made later. -/
  witness : ∀ l₁ l₂ sign data put f b, l = l₁ ++ (Event.witness sign data put, some .ok) :: l₂ →
    makeWitness sign data = .ok (f, b) → ∀ host x, load d host = .ok x →
      x.witnesses.present f = true ∧ (fileOf x.witnesses f = b ∨ ∃ sign' data' put' a,
        (Event.witness sign' data' put', a) ∈ l₂
          ∧ makeWitness sign' data' = .ok (f, fileOf x.witnesses f))

lemma length_envelope {sign : Sign} {data e : Bytes} (h : makeRequest sign data = .ok e) :
    e.length = 416 := by
  obtain ⟨hdr, r, sig, -, -, -, he⟩ := makeRequest_ok.1 h
  have h1 : (Protocol.encode hdr).length = 160 := by simp [Protocol.encode, Protocol.magic]
  have h2 : (Requests.encode r).length = 192 := (Layouts.request_frame r).1.length
  rw [he, List.length_append, List.length_append, h1, h2, Block.length_bytes]

lemma length_witness {sign : Sign} {data b : Bytes} {f : Fact}
    (h : makeWitness sign data = .ok (f, b)) : b.length = 288 := by
  obtain ⟨t, sig, -, -, -, hb⟩ := makeWitness_ok.1 h
  have h1 : (Witness.encode t).length = 224 := by simp [Witness.encode, pad, Witness.magic]
  rw [hb, List.length_append, h1, Block.length_bytes]

/-- **A request is handed over whole.** Whenever the receiver loads a request, it is one that was
made, with witnesses that were made; one that was acknowledged can be loaded ever after, and is not
replaced, and a witness that was acknowledged gives way to later ones only. -/
theorem spooled (events : List Event) : Spooled (life events).1 (life events).2 := by
  have h := inv_life events
  generalize (life events).1 = l at h ⊢
  generalize (life events).2 = d at h ⊢
  -- what places a witness is to place one
  have witness : ∀ {ev f b}, Places ev (.witness f) b → ∃ sign data put,
      ev = .witness sign data put ∧ makeWitness sign data = .ok (f, b) := by
    intro ev f b hp
    cases ev with
    | request sign data put => cases hp.1
    | witness sign data put =>
      obtain ⟨f', hf, hb⟩ := hp
      cases hf
      exact ⟨sign, data, put, rfl, hb⟩
    | crash keep => cases hp
  refine ⟨fun host x hx => ?_, fun sign data put e hm he => ?_,
    fun l₁ l₂ sign data put f b hl hb host x hx => ?_⟩
  · obtain ⟨h1, h2⟩ := load_ok hx
    constructor
    · obtain ⟨ev, a, hm, hp⟩ := h.source _ _ (.inl h1)
      cases ev with
      | request sign data put => exact ⟨sign, data, put, a, hm, hp.2⟩
      | witness sign data put => obtain ⟨f, hf, -⟩ := hp; cases hf
      | crash keep => cases hp
    · intro f hf
      obtain ⟨ev, a, hm, hp⟩ := h.source _ _ (.inl ((h2 f).present hf))
      obtain ⟨sign, data, put, rfl, hb⟩ := witness hp
      exact ⟨sign, data, put, a, hm, hb⟩
  · have hs := h.envelope _ _ hm ⟨rfl, he⟩
    have hc := h.fixed e hs
    refine ⟨load_of hc (length_envelope he) fun f b hb => ?_, fun host x hx => ?_⟩
    · obtain ⟨ev, a, hm, hp⟩ := h.source _ _ (.inl hb)
      obtain ⟨sign, data, put, -, hb⟩ := witness hp
      exact length_witness hb
    · exact (Option.some.inj (hc.symm.trans (load_ok hx).1)).symm
  · obtain ⟨c, hc, hlater⟩ := h.acknowledged l₁ l₂ _ _ b hl ⟨f, rfl, hb⟩ (d.cached (.witness f))
      (by simp)
    have hx := (load_ok hx).2 f
    have hpresent : x.witnesses.present f = true := by
      cases hp : x.witnesses.present f with
      | true => rfl
      | false => cases (hx.absent hp).symm.trans hc
    obtain rfl : fileOf x.witnesses f = c := Option.some.inj ((hx.present hpresent).symm.trans hc)
    refine ⟨hpresent, hlater.imp_right ?_⟩
    rintro ⟨ev, a, hm, hp⟩
    obtain ⟨sign', data', put', rfl, hb'⟩ := witness hp
    exact ⟨sign', data', put', a, hm, hb'⟩

end NiayanAssurance.RequestSpool
