import NiayanAssurance.ObjectStoreRuns

/-!
The store is sound over every run of any number of workers, wherever they are stopped.
-/

namespace NiayanAssurance.ObjectStore

open NiayanAssurance.Lib NiayanAssurance.Types NiayanAssurance.FileSystem

variable {τ : Type} {S : Store} {works : Prop}

variable (S τ) in
/-- A worker owns the files that it made for its writer, and those that it made for one call. -/
abbrev discipline :
    Machine.Discipline τ Operation Writer (Digest × Outcome) (Files Path (τ × Bool)) where
  inv := Inv S.user
  rely t := Keeps fun o => o.1 = t
  guar t k := Guar (t, k.onWriter) k
  knows t := Knows (t, true)
  result _ k _ b s := Result k b s
  rely_refl _ := Keeps.refl _
  rely_trans _ _ _ _ := Keeps.trans

lemma Knows.keeps {ω : Type} {t : ω} {w : Writer} {s s' : Files Path ω} (h : Knows t w s)
    {who : ω → Prop} (hk : Keeps who s s') (ht : who t) : Knows t w s' := by
  unfold Knows at h ⊢
  split_ifs at h ⊢
  · obtain ⟨h1, h2, i, x, h3, h4, h5, h6⟩ := h
    exact ⟨h1, h2, i, x, h3, h4, h5.keeps (hk.weaken fun _ e => e ▸ ht), h6⟩
  · exact h

/-- What is proved for an owner is proved of its worker. -/
lemma Spec.lift {α : Type} {p : Prog α} {Q : α → Files Path (τ × Bool) → Prop} {t : τ}
    {k : Operation} {w : Writer} {s : Files Path (τ × Bool)}
    (h : Spec S (t, k.onWriter) k w works p Q s) :
    p.Meets (act S.user (t, k.onWriter) works) ((discipline τ S).contract t k w) Q s :=
  h.weaken (fun _ h => h)
    (fun s s' (hr : Keeps (fun o : τ × Bool => o.1 = t) s s') =>
      hr.weaken fun o (e : o = _) => by rw [e])
    fun _ _ _ hg hi => ⟨hg, hi⟩

/-- An operation that is not on the writer leaves it as it was. -/
lemma Spec.beside {α : Type} {p : Prog α} {Q : α → Files Path (τ × Bool) → Prop} {t : τ}
    {k : Operation} {w : Writer} {s : Files Path (τ × Bool)} (hk : k.onWriter = false)
    (h : Spec S (t, k.onWriter) k w works p Q s) (h0 : Knows (t, true) w s) :
    p.Meets (act S.user (t, k.onWriter) works) ((discipline τ S).contract t k w)
      (fun a s => Q a s ∧ Knows (t, true) w s) s :=
  h.lift.frame
    (fun s s' (hr : Keeps (fun o : τ × Bool => o.1 = t) s s') hw => hw.keeps hr rfl)
    (fun _ _ _ (hg : Guar _ _ _ _ _) _ hw => hw.keeps hg.keeps (by simp [hk])) h0

lemma body_spec (t : τ) (k : Operation) (w : Writer) (s : Files Path (τ × Bool))
    (hi : Inv S.user s) (h : Knows (t, true) w s) :
    (body S k w).Meets (act S.user (t, k.onWriter) works) ((discipline τ S).contract t k w)
      ((discipline τ S).post t k w) s := by
  cases k with
  | put data => exact (put_spec.beside rfl h).bind fun _ _ h => ⟨h.2, h.1⟩
  | importFile limit => exact (importFile_spec.beside rfl h).bind fun _ _ h => ⟨h.2, h.1⟩
  | pin id d => exact ((pin_spec hi).beside rfl h).bind fun _ _ h => ⟨h.2, h.1.1⟩
  | beginWrite expected size => exact (beginWrite_spec h).lift.bind fun _ _ h => ⟨h, trivial⟩
  | writeChunk data => exact (writeChunk_spec h).lift.bind fun _ _ h => ⟨h, trivial⟩
  | finishWrite => exact (finishWrite_spec h).lift.bind fun _ _ h => ⟨h, trivial⟩
  | abortWrite => exact ⟨rfl, trivial⟩

/-- What is published is durable. -/
lemma inv_crash {s s' : Files Path τ} (hi : Inv S.user s) (hc : Crash s s') :
    Inv S.user s' ∧ ∀ p, p.Final → ∀ x, s.bytesAt p = some x → s'.bytesAt p = some x := by
  obtain ⟨hl, hn, hd⟩ := hc
  have same : ∀ i, (s.inode i).synced = true → s'.inode i = s.inode i := by
    intro i hs
    obtain ⟨data, h1, h2⟩ := hd i
    rw [h1, h2 hs]
  refine ⟨⟨?_, ?_, ?_, ?_, ?_⟩, ?_⟩
  · rw [hl, hn]
    exact hi.exist
  · rw [hl]
    exact hi.one
  · intro d i h
    rw [hl] at h
    have h1 := hi.object d i h
    rw [same i h1.2.synced]
    exact h1
  · intro id i h
    rw [hl] at h ⊢
    have h1 := hi.pin id i h
    rw [same i h1.2.1]
    exact h1
  · rw [hl]
    exact hi.zero
  · intro p hp x hx
    obtain ⟨i, h1, h2⟩ := Option.map_eq_some_iff.mp hx
    have h3 : (s.inode i).synced = true := by
      cases p with
      | object d => exact (hi.object d i h1).2.synced
      | pin id => exact (hi.pin id i h1).2.1
      | incoming name => exact hp.elim
      | shard b => exact hp.elim
    rw [Files.bytesAt, hl, h1, Option.map_some, same i h3, h2]

variable (S τ works) in
theorem machine_sound : (machine S τ works).Sound (discipline τ S) where
  body t k w s hi h := body_spec t k w s hi h
  guar t t' k w s s' _ _ hg ht := by
    show Keeps (fun o : τ × Bool => o.1 = t') s s'
    refine Keeps.weaken hg.keeps fun o e h => ht ?_
    rw [← e, h]
  others _ _ _ h := h.elim
  halt t s s' hi h := by
    obtain rfl : s' = s := h
    exact ⟨hi, rfl, fun t' _ => Keeps.refl (fun o : τ × Bool => o.1 = t') _⟩
  crash s s' hi h := ⟨(inv_crash hi h).1, fun _ => rfl⟩
  knows t w s s' hr h := by
    have hk : Keeps (fun o : τ × Bool => o.1 = t) s s' := hr
    exact Knows.keeps h hk rfl
  result t k w b s s' hr h := by
    obtain ⟨d, o⟩ := b
    have hk : Keeps (fun o : τ × Bool => o.1 = t) s s' := hr
    cases k with
    | put data => exact fun e => ⟨(h e).1, keeps_visible (published_object d) hk (h e).2⟩
    | importFile limit => exact fun e => keeps_visible (published_object d) hk (h e)
    | pin id d => exact fun e => keeps_bytesAt (published_pin id) hk (h e)
    | beginWrite | writeChunk | finishWrite | abortWrite => trivial

/-! ### What holds of every run -/

variable (S) in
/-- An operation of the owner `t` among the others, who keep what is published and what `t` has
staged, and keep the store sound. -/
abbrev beside {ω : Type} (t : ω) (k : Operation) (w : Writer) : Contract (Files Path ω) where
  inv := Inv S.user
  rely s s' := Keeps (· = t) s s' ∧ (Inv S.user s → Inv S.user s')
  guar := Guar t k w
  rely_refl s := ⟨.refl _ s, id⟩
  rely_trans _ _ _ h h' := ⟨h.1.trans h'.1, h'.2 ∘ h.2⟩

lemma bytesAt_isSome {ω : Type} {s : Files Path ω} {p : Path} :
    (s.bytesAt p).isSome ↔ (s.link p).isSome := by
  simp [Files.bytesAt]

lemma bytesAt_none {ω : Type} {s : Files Path ω} {p : Path} :
    s.bytesAt p = none ↔ s.link p = none := by
  simp [Files.bytesAt]

/-- With the object there and nothing failing, another manifest is a conflict. -/
lemma pin_conflict {t : τ} {s : Files Path (τ × Bool)} (hi : Inv S.user s) (ho : S.opened = true)
    {id : Identity} {d : Digest} {x : Bytes} (hx : s.bytesAt (.pin id) = some x)
    (hne : x ≠ d.bytes) (hd : d ≠ zeroDigest) (hv : (s.bytesAt (.object d)).isSome) {w : Writer}
    {o : Outcome} {s' : Files Path (τ × Bool)}
    (hs : Program.Steps (act S.user (t, false) True) (beside S (t, false) (.pin id d) w)
      (ObjectStore.pin S id d) s (.done o) s') : o = .conflict := by
  have h1 : Spec S (t, false) (.pin id d) w True (ObjectStore.pin S id d)
      (fun o _ => o = .conflict) s :=
    (pin_spec hi).mono fun o _ h => h.2 trivial ho hd (bytesAt_isSome.mp hv) x hx hne
  have h2 := h1.weaken (D := beside S (t, false) (.pin id d) w) (fun _ h => h)
    (fun _ _ h => h.1) fun _ _ _ hg hi => ⟨hg, hi⟩
  exact (h2.steps (fun _ _ _ _ h => h) (fun _ _ h => h.2) hi hs).2

section Runs

variable [DecidableEq τ]

variable (S τ works) in
/-- What holds of a state `m` that is reached, and of what can follow it. -/
structure Integrity (m : Machine.State τ Operation Writer (Digest × Outcome) (Call Path) Answer
    (Files Path (τ × Bool))) : Prop where
  /-- What is visible as the object `d` has the digest `d`. -/
  object : ∀ d x, m.world.bytesAt (.object d) = some x → Sha256.hash x = d
  /-- What a pin holds is the digest of an object that is visible. -/
  pin : ∀ id x, m.world.bytesAt (.pin id) = some x →
    ∃ d : Digest, x = d.bytes ∧ ∃ y, m.world.bytesAt (.object d) = some y ∧ Sha256.hash y = d
  /-- An object or a pin that is visible stays as it is, for good. -/
  kept : ∀ ls m', Run (machine S τ works).Step m ls m' → ∀ p, p.Final → ∀ x,
    m.world.bytesAt p = some x → m'.world.bytesAt p = some x
  /-- `Finish_Write` makes an object visible only of the bytes that its writer has written and
  digested: as many as were announced, and of the digest that was. -/
  finish : ∀ t q m', m.running t = some (.finishWrite, q) →
    (machine S τ works).Step m (.call t) m' →
    ∀ d x, m'.world.bytesAt (.object d) = some x → m.world.bytesAt (.object d) = none →
      d = (m.memory t).expected ∧ Sha256.hash x = d ∧ x.length = (m.memory t).size ∧
        (m.memory t).hash = Sha256.update Sha256.init x
  /-- A pin becomes visible only by `Pin`, while the object it names is visible and has its
  digest. -/
  published : ∀ l m', (machine S τ works).Step m l m' → ∀ id x,
    m'.world.bytesAt (.pin id) = some x → m.world.bytesAt (.pin id) = none →
      ∃ t d q y, l = .call t ∧ m.running t = some (.pin id d, q) ∧ x = d.bytes ∧
        m.world.bytesAt (.object d) = some y ∧ Sha256.hash y = d
  /-- No call of the system in a `Pin` of an identity with another manifest changes an object or
  a pin. -/
  unchanged : ∀ t id d q m' x, m.running t = some (.pin id d, q) →
    (machine S τ works).Step m (.call t) m' → m.world.bytesAt (.pin id) = some x → x ≠ d.bytes →
      ∀ p, p.Final → m'.world.bytesAt p = m.world.bytesAt p
  /-- Nor is such a `Pin` ever done. -/
  refused : ∀ t id d m' b x, m.world.bytesAt (.pin id) = some x → x ≠ d.bytes →
    ¬ (machine S τ works).Step m (.finish t (.pin id d) (b, .ok)) m'
  /-- Where the object it names is visible and no call of the system fails, it is a conflict,
  whatever the other workers do meanwhile. -/
  conflict : S.opened = true → ∀ (t : τ) id d x, m.world.bytesAt (.pin id) = some x →
    x ≠ d.bytes → d ≠ zeroDigest → (m.world.bytesAt (.object d)).isSome →
      ∀ w o s, Program.Steps (act S.user (t, false) True) (beside S (t, false) (.pin id d) w)
        (ObjectStore.pin S id d) m.world (.done o) s → o = .conflict
  /-- What the other workers do meanwhile. -/
  others : ∀ (t t' : τ) m', (machine S τ works).Step m (.call t') m' → t' ≠ t → ∀ k w,
    (beside S (t, false) k w).rely m.world m'.world

lemma Inv.object_bytes {ω : Type} {u : User} {s : Files Path ω} (h : Inv u s) {d : Digest}
    (hd : (s.link (.object d)).isSome) :
    ∃ y, s.bytesAt (.object d) = some y ∧ Sha256.hash y = d := by
  obtain ⟨i, hi⟩ := Option.isSome_iff_exists.mp hd
  exact ⟨_, by rw [Files.bytesAt, hi, Option.map_some], (h.object d i hi).1⟩

section Kept

variable {m m' : Machine.State τ Operation Writer (Digest × Outcome) (Call Path) Answer
    (Files Path (τ × Bool))} {t : τ} {k : Operation}
  {q : Program (Call Path) Answer ((Digest × Outcome) × Writer)}

lemma call_guar (hm : (machine S τ works).Kept (discipline τ S) m)
    (h : m.running t = some (k, q)) (hs : (machine S τ works).Step m (.call t) m') :
    Guar (t, k.onWriter) k (m.memory t) m.world m'.world ∧ Inv S.user m'.world := by
  cases hs with
  | call _ ht ha =>
    obtain ⟨rfl, rfl⟩ := Prod.mk.inj (Option.some.inj (h.symm.trans ht))
    obtain ⟨hg, hi, -⟩ := hm.call ht ha
    exact ⟨hg, hi⟩

/-- A step at which a path comes to be visible is a call of the system in an operation. -/
lemma new_is_call (hm : (machine S τ works).Kept (discipline τ S) m) {l} {p : Path} {i : ℕ}
    (hs : (machine S τ works).Step m l m') (h1 : m'.world.link p = some i)
    (h0 : m.world.link p = none) :
    ∃ t k q, l = .call t ∧ m.running t = some (k, q) ∧
      Guar (t, k.onWriter) k (m.memory t) m.world m'.world := by
  cases hs with
  | start | finish => exact nomatch h0.symm.trans h1
  | @call t k c f r w ht ha => exact ⟨t, k, _, rfl, ht, (hm.call ht ha).1⟩
  | halt t hw =>
    obtain rfl := hw
    exact nomatch h0.symm.trans h1
  | crash hw =>
    rw [hw.1] at h1
    exact nomatch h0.symm.trans h1
  | others hw => exact hw.elim

lemma finish_sound (hm : (machine S τ works).Kept (discipline τ S) m)
    (h : m.running t = some (.finishWrite, q)) (hs : (machine S τ works).Step m (.call t) m')
    {d : Digest} {x : Bytes} (h1 : m'.world.bytesAt (.object d) = some x)
    (h0 : m.world.bytesAt (.object d) = none) :
    d = (m.memory t).expected ∧ Sha256.hash x = d ∧ x.length = (m.memory t).size ∧
      (m.memory t).hash = Sha256.update Sha256.init x := by
  obtain ⟨hg, hi⟩ := call_guar hm h hs
  obtain ⟨i, hl, rfl⟩ := Option.map_eq_some_iff.mp h1
  obtain ⟨h2, h3, h4⟩ := hg.object d i hl (bytesAt_none.mp h0)
  exact ⟨h2, (hi.object d i hl).1, h3, h4⟩

lemma pin_published (hm : (machine S τ works).Kept (discipline τ S) m) {l} {id : Identity}
    {x : Bytes} (hs : (machine S τ works).Step m l m') (h1 : m'.world.bytesAt (.pin id) = some x)
    (h0 : m.world.bytesAt (.pin id) = none) :
    ∃ t d q y, l = .call t ∧ m.running t = some (.pin id d, q) ∧ x = d.bytes ∧
      m.world.bytesAt (.object d) = some y ∧ Sha256.hash y = d := by
  obtain ⟨i, hl, rfl⟩ := Option.map_eq_some_iff.mp h1
  obtain ⟨t, k, q, rfl, ht, hg⟩ := new_is_call hm hs hl (bytesAt_none.mp h0)
  obtain ⟨-, d, rfl, hd, hv⟩ := hg.pin id i hl (bytesAt_none.mp h0)
  obtain ⟨y, hy, hh⟩ := Inv.object_bytes hm.inv hv
  exact ⟨t, d, q, y, rfl, ht, hd, hy, hh⟩

lemma pin_unchanged (hm : (machine S τ works).Kept (discipline τ S) m) {id : Identity} {d : Digest}
    {x : Bytes} (h : m.running t = some (.pin id d, q))
    (hs : (machine S τ works).Step m (.call t) m') (hx : m.world.bytesAt (.pin id) = some x)
    {p : Path} (hp : p.Final) : m'.world.bytesAt p = m.world.bytesAt p := by
  obtain ⟨hg, hi⟩ := call_guar hm h hs
  cases h0 : m.world.bytesAt p with
  | some y => exact keeps_bytesAt hp.published hg.keeps h0
  | none =>
    by_contra hne
    obtain ⟨y, hy⟩ := Option.ne_none_iff_exists'.mp hne
    obtain ⟨i, hl, -⟩ := Option.map_eq_some_iff.mp hy
    cases p with
    | object d' => exact hg.object d' i hl (bytesAt_none.mp h0)
    | pin id' =>
      obtain ⟨-, d', e, -⟩ := hg.pin id' i hl (bytesAt_none.mp h0)
      cases e
      exact nomatch h0.symm.trans hx
    | incoming name => exact hp.elim
    | shard b => exact hp.elim

lemma others_beside (hm : (machine S τ works).Kept (discipline τ S) m) {t' : τ} (ht : t' ≠ t)
    (hs : (machine S τ works).Step m (.call t') m') (w : Writer) :
    (beside S (t, false) k w).rely m.world m'.world := by
  cases hs with
  | call _ hr ha =>
    obtain ⟨hg, hi, -⟩ := hm.call hr ha
    exact ⟨Keeps.weaken hg.keeps fun o (e : o = _) h =>
        ht (by rw [e] at h; exact (congrArg Prod.fst h).symm),
      fun _ => hi⟩

end Kept

/-- **The store is sound**: whatever any number of workers do, and wherever they are stopped,
what is visible as an object has its digest, and is never replaced; a pin names an object that
was visible when the pin became so, and is never replaced. -/
theorem integrity {w₀ : Files Path (τ × Bool)}
    {ls : List (Machine.Label τ Operation (Digest × Outcome))}
    {m : Machine.State τ Operation Writer (Digest × Outcome) (Call Path) Answer
      (Files Path (τ × Bool))} (h0 : ∀ p, w₀.link p = none)
    (hr : Run (machine S τ works).Step ((machine S τ works).init w₀) ls m) :
    Integrity τ S works m := by
  have hw : Inv S.user w₀ :=
    ⟨fun p i h => (nomatch (h0 p).symm.trans h), fun p q i h => (nomatch (h0 p).symm.trans h),
      fun d i h => (nomatch (h0 _).symm.trans h), fun id i h => (nomatch (h0 _).symm.trans h),
      h0 _⟩
  have hs := machine_sound τ S works
  have hm := hs.kept hw (fun _ => rfl) hr
  have hi : Inv S.user m.world := hm.inv
  refine ⟨?_, ?_, ?_, fun t q m' h h' d x => finish_sound hm h h', fun l m' h id x =>
    pin_published hm h, fun t id d q m' x h h' hx _ p hp => pin_unchanged hm h h' hx hp, ?_,
    fun ho t id d x hx hne hd hv w o s => pin_conflict hi ho hx hne hd hv,
    fun t t' m' h ht k w => others_beside hm ht h w⟩
  · intro d x h
    obtain ⟨i, hl, rfl⟩ := Option.map_eq_some_iff.mp h
    exact (hi.object d i hl).1
  · intro id x h
    obtain ⟨i, hl, rfl⟩ := Option.map_eq_some_iff.mp h
    obtain ⟨-, -, d, hd, hv⟩ := hi.pin id i hl
    exact ⟨d, hd, hi.object_bytes hv⟩
  · intro ls' m' hr' p hp
    exact hs.rel (R := fun s s' : Files Path (τ × Bool) => ∀ x, s.bytesAt p = some x →
      s'.bytesAt p = some x) hw (fun _ => rfl) (fun _ _ h => h)
      (fun s s' s'' h h' x hx => h' x (h x hx))
      (fun t k v s s' _ _ hg x hx => keeps_bytesAt hp.published hg.keeps hx)
      (fun _ _ _ h => h.elim) (fun t s s' _ h => by obtain rfl := h; exact fun _ h => h)
      (fun s s' h h' => (inv_crash h h').2 p hp) hr hr'
  · intro t id d m' b x hx hne hst
    cases hst with
    | finish _ ht =>
      have h1 := (hm.done ht).2 rfl
      exact hne (Option.some.inj (hx.symm.trans h1))

end Runs

/-! ### A pin with a manifest that is not stored -/

section Example

/-- An empty directory. -/
def emptyFiles : Files Path (Unit × Bool) :=
  ⟨fun _ => none, fun _ => ⟨[], 0, 0, 0, 0, 0, true, ((), false)⟩, 0⟩

def someStore : Store := ⟨true, ⟨1000, 1000⟩⟩

/-- The operation is made by the one worker, with nothing failing. -/
def made (k : Operation) (s : Files Path (Unit × Bool)) :
    ((Digest × Outcome) × Writer) × Files Path (Unit × Bool) :=
  (body someStore k {}).run (serve someStore.user ((), k.onWriter) (Block.fill 16 7)) s

def stored : Files Path (Unit × Bool) := (made (.put []) emptyFiles).2

def pinned : Files Path (Unit × Bool) :=
  (made (.pin (Block.fill 16 1) (Sha256.hash [])) stored).2

lemma made_writer {k : Operation} (hk : k.onWriter = false) (s : Files Path (Unit × Bool)) :
    (made k s).1.2 = {} := by
  cases k with
  | put | importFile | pin =>
    unfold made body
    rw [Program.run_bind]
    rfl
  | beginWrite | writeChunk | finishWrite | abortWrite => cases hk

lemma made_runs {k : Operation} (hk : k.onWriter = false) {m : Machine.State Unit Operation Writer
    (Digest × Outcome) (Call Path) Answer (Files Path (Unit × Bool))} (hr : m.running () = none)
    (hm : m.memory () = {}) :
    ∃ ls, Run (machine someStore Unit False).Step m
      (.start () k :: ls ++ [.finish () k (made k m.world).1.1])
      { m with world := (made k m.world).2 } := by
  obtain ⟨ls, h⟩ := Machine.run_whole_call (M := machine someStore Unit False) k
    (f := serve someStore.user ((), k.onWriter) (Block.fill 16 7)) (fun c s => serve_act _ _ _ c s)
    hr
  refine ⟨ls, ?_⟩
  have h1 : ((machine someStore Unit False).body k (m.memory ())).run
      (serve someStore.user ((), k.onWriter) (Block.fill 16 7)) m.world = made k m.world := by
    rw [hm]
    rfl
  rw [h1, made_writer hk, ← hm, Function.update_eq_self] at h
  exact h

/-- A store that holds one object, which is pinned. -/
def afterPin : Machine.State Unit Operation Writer (Digest × Outcome) (Call Path) Answer
    (Files Path (Unit × Bool)) := ⟨pinned, fun _ => {}, fun _ => none⟩

lemma afterPin_reached : ∃ ls, Run (machine someStore Unit False).Step
    ((machine someStore Unit False).init emptyFiles) ls afterPin := by
  obtain ⟨ls, h1⟩ := made_runs (k := .put []) rfl
    (m := (machine someStore Unit False).init emptyFiles) rfl rfl
  obtain ⟨ls', h2⟩ := made_runs (k := .pin (Block.fill 16 1) (Sha256.hash [])) rfl
    (m := ⟨stored, fun _ => {}, fun _ => none⟩) rfl rfl
  exact ⟨_, h1.append h2⟩

set_option maxRecDepth 100000 in
lemma pinned_pin :
    pinned.bytesAt (.pin (Block.fill 16 1)) = some (Sha256.hash []).bytes := by
  decide +kernel

set_option maxRecDepth 100000 in
lemma other_pin :
    (made (.pin (Block.fill 16 1) (Block.fill 32 1)) pinned).1.1 = (zeroDigest, .ioError) := by
  decide +kernel

/-- The pin is kept, over every run from there. -/
theorem integrity_afterPin : Integrity Unit someStore False afterPin ∧
    afterPin.world.bytesAt (.pin (Block.fill 16 1)) = some (Sha256.hash []).bytes := by
  obtain ⟨ls, h⟩ := afterPin_reached
  exact ⟨integrity (fun _ => rfl) h, pinned_pin⟩

/-- A pin of the same identity with a manifest that is not stored is not a conflict. -/
theorem absent_manifest : ∃ ls m m', Run (machine someStore Unit False).Step
      ((machine someStore Unit False).init emptyFiles) ls m ∧
    m.world.bytesAt (.pin (Block.fill 16 1)) = some (Sha256.hash []).bytes ∧
    Block.fill 32 1 ≠ Sha256.hash [] ∧
    ∃ ls', Run (machine someStore Unit False).Step m
      (.start () (.pin (Block.fill 16 1) (Block.fill 32 1)) :: ls' ++
        [.finish () (.pin (Block.fill 16 1) (Block.fill 32 1)) (zeroDigest, .ioError)]) m' := by
  obtain ⟨ls, h⟩ := afterPin_reached
  obtain ⟨ls', h'⟩ := made_runs (k := .pin (Block.fill 16 1) (Block.fill 32 1)) rfl
    (m := afterPin) rfl rfl
  rw [show (made (.pin (Block.fill 16 1) (Block.fill 32 1)) afterPin.world).1.1 = _ from
    other_pin] at h'
  exact ⟨ls, afterPin, _, h, pinned_pin, by decide +kernel, ls', h'⟩

end Example

end NiayanAssurance.ObjectStore
