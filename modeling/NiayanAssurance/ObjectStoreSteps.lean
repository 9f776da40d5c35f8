import NiayanAssurance.ObjectStore

/-!
What every step of every worker keeps of a store.

A call changes only files that its owner `t` has staged. The steps of `t` therefore keep all
that is published, and all that the others have staged.
-/

namespace NiayanAssurance.ObjectStore

open NiayanAssurance.Lib NiayanAssurance.Types NiayanAssurance.FileSystem Program

variable {τ : Type}

/-- The path is not that of a staged file. -/
def Published (p : Path) : Prop := ∀ name, p ≠ .incoming name

/-- The paths that files are published at. -/
def Path.Final : Path → Prop
  | .object _ | .pin _ => True
  | .incoming _ | .shard _ => False

lemma published_object (d : Digest) : Published (.object d) := fun _ => nofun

lemma published_pin (id : Identity) : Published (.pin id) := fun _ => nofun

lemma Path.Final.published {p : Path} (h : p.Final) : Published p := by
  cases p with
  | object d => exact published_object d
  | pin id => exact published_pin id
  | incoming name => exact h.elim
  | shard b => exact h.elim

/-- What is published stays as it is, and so does what is staged by those of `who`. -/
def Keeps (who : τ → Prop) (s s' : Files Path τ) : Prop :=
  ∀ p i, s.link p = some i → Published p ∨ who (s.inode i).owner →
    s'.link p = some i ∧ s'.inode i = s.inode i

lemma Keeps.refl (who : τ → Prop) (s : Files Path τ) : Keeps who s s := fun _ _ h _ => ⟨h, rfl⟩

lemma Keeps.trans {who : τ → Prop} {s s' s'' : Files Path τ} (h : Keeps who s s')
    (h' : Keeps who s' s'') : Keeps who s s'' := by
  intro p i hp hw
  obtain ⟨h1, h2⟩ := h p i hp hw
  obtain ⟨h3, h4⟩ := h' p i h1 (h2 ▸ hw)
  exact ⟨h3, h4.trans h2⟩

lemma Keeps.weaken {who who' : τ → Prop} {s s' : Files Path τ} (h : Keeps who s s')
    (hw : ∀ t, who' t → who t) : Keeps who' s s' :=
  fun p i hp h' => h p i hp (h'.imp_right (hw _))

/-- What is published of a file whose bytes are objects' bytes. -/
structure Sealed (u : User) (n : Inode τ) : Prop where
  mode : n.mode = 0o400
  uid : n.uid = u.uid
  links : n.links = 1
  size : n.data.length ≤ maxObjectSize
  synced : n.synced = true

/-- The state of a store. -/
structure Inv (u : User) (s : Files Path τ) : Prop where
  exist : ∀ p i, s.link p = some i → i < s.next
  one : ∀ p q i, s.link p = some i → s.link q = some i → p = q
  object : ∀ d i, s.link (.object d) = some i →
    Sha256.hash (s.inode i).data = d ∧ Sealed u (s.inode i)
  pin : ∀ id i, s.link (.pin id) = some i → (s.inode i).links = 1 ∧ (s.inode i).synced = true ∧
    ∃ d : Digest, (s.inode i).data = d.bytes ∧ (s.link (.object d)).isSome
  zero : s.link (.pin zeroIdentity) = none

/-- What may come to be the bytes `x` of the object `d` by a call. -/
def Operation.MayPublish : Operation → Writer → Digest → Bytes → Prop
  | .put data, _, _, x => x = data
  | .importFile limit, _, _, x => x.length ≤ limit
  | .finishWrite, w, d, x => d = w.expected ∧ x.length = w.size ∧
      w.hash = Sha256.update Sha256.init x
  | _, _, _, _ => False

/-- What a call of the system may do for owner `t` in the operation `k` with the writer `w`. -/
structure Guar (t : τ) (k : Operation) (w : Writer) (s s' : Files Path τ) : Prop where
  keeps : Keeps (· ≠ t) s s'
  object : ∀ d i, s'.link (.object d) = some i → s.link (.object d) = none →
    k.MayPublish w d (s'.inode i).data
  pin : ∀ id i, s'.link (.pin id) = some i → s.link (.pin id) = none →
    id ≠ zeroIdentity ∧
      ∃ d : Digest, k = .pin id d ∧ (s'.inode i).data = d.bytes ∧ (s.link (.object d)).isSome

/-- Owner `t` has staged the file `i`, of which `φ` holds, under `name`. -/
def Staged (t : τ) (name : Identity) (i : ℕ) (φ : Inode τ → Prop) (s : Files Path τ) : Prop :=
  s.link (.incoming name) = some i ∧ (s.inode i).owner = t ∧ φ (s.inode i)

/-- What is known of a writer whose files `t` owns: the file is staged; unless it is poisoned it
holds the bytes that were written, and if it is, then they are too few. -/
def Knows (t : τ) (w : Writer) (s : Files Path τ) : Prop :=
  if w.active then w.size ≤ maxObjectSize ∧ w.written ≤ w.size ∧
    ∃ i x, w.f.handle = some i ∧ w.f.writable = true ∧
      Staged t w.name i (fun n => n.links = 1 ∧ (w.f.poisoned = false → n.data = x)) s ∧
      (w.f.poisoned = false → w.hash = Sha256.update Sha256.init x ∧ w.written = x.length) ∧
      (w.f.poisoned = true → w.written < w.size)
  else w.f.handle = none

/-- What holds when an operation is done. -/
def Result : Operation → (Digest × Outcome) → Files Path τ → Prop
  | .put data, (d, o), s => o = .ok → d = Sha256.hash data ∧ (s.link (.object d)).isSome
  | .importFile _, (d, o), s => o = .ok → (s.link (.object d)).isSome
  | .pin id d, (_, o), s => o = .ok → s.bytesAt (.pin id) = some d.bytes
  | _, _, _ => True

variable (S : Store)

/-- What holds between owner `t`, in the operation `k` with the writer `w`, and the others. -/
abbrev contract (t : τ) (k : Operation) (w : Writer) : Contract (Files Path τ) where
  inv := Inv S.user
  rely := Keeps (· = t)
  guar := Guar t k w
  rely_refl := Keeps.refl _
  rely_trans _ _ _ := Keeps.trans

variable {S} {t : τ} {k : Operation} {w : Writer} {works : Prop} {s s' : Files Path τ}
  {name : Identity} {i : ℕ} {φ ψ : Inode τ → Prop}

/-! ### Steps -/

lemma Staged.keeps (h : Staged t name i φ s) (hk : Keeps (· = t) s s') : Staged t name i φ s' := by
  obtain ⟨h1, h2, h3⟩ := h
  obtain ⟨h4, h5⟩ := hk _ _ h1 (.inr h2)
  exact ⟨h4, h5 ▸ h2, h5 ▸ h3⟩

lemma Staged.imp (h : Staged t name i φ s) (hf : ∀ n, φ n → ψ n) : Staged t name i ψ s :=
  ⟨h.1, h.2.1, hf _ h.2.2⟩

/-- What is staged is not published, under any path. -/
lemma Staged.not_published (h : Staged t name i φ s) (hi : Inv S.user s) {p : Path} {j : ℕ}
    (hp : s.link p = some j) (hj : p ≠ .incoming name) : j ≠ i := by
  rintro rfl
  exact hj (hi.one _ _ _ hp h.1)

lemma guar_refl (s : Files Path τ) : Guar t k w s s where
  keeps := .refl _ _
  object d i h h' := by rw [h'] at h; cases h
  pin id i h h' := by rw [h'] at h; cases h

/-- A staged file is changed. -/
lemma guar_change (hi : Inv S.user s) (h : Staged t name i φ s) (n : Inode τ) :
    Guar t k w s (s.change i n) ∧ Inv S.user (s.change i n) := by
  have hne : ∀ p j, s.link p = some j → p ≠ .incoming name → (s.change i n).inode j = s.inode j :=
    fun p j hp hj => Function.update_of_ne (h.not_published hi hp hj) _ _
  refine ⟨⟨?_, ?_, ?_⟩, ⟨hi.exist, hi.one, ?_, ?_, hi.zero⟩⟩
  · intro p j hp hw
    refine ⟨hp, hne p j hp ?_⟩
    rintro rfl
    rcases hw with hw | hw
    · exact hw _ rfl
    · obtain rfl := Option.some.inj (hp.symm.trans h.1)
      exact hw h.2.1
  · intro d j h1 h2
    exact nomatch h2.symm.trans h1
  · intro id j h1 h2
    exact nomatch h2.symm.trans h1
  · intro d j hd
    rw [hne _ _ hd nofun]
    exact hi.object d j hd
  · intro id j hd
    rw [hne _ _ hd nofun]
    exact hi.pin id j hd

lemma staged_change (h : Staged t name i φ s) {n : Inode τ} (hn : n.owner = t) (hp : ψ n) :
    Staged t name i ψ (s.change i n) := by
  refine ⟨h.1, ?_, ?_⟩
  · simpa [Files.change] using hn
  · simpa [Files.change] using hp

/-- A path that led nowhere is staged, with a new file. -/
lemma guar_create (hi : Inv S.user s) {n : Inode τ} (hn : s.link (.incoming name) = none)
    (ho : n.owner = t) (hp : ψ n) :
    Guar t k w s (s.create (.incoming name) n) ∧ Inv S.user (s.create (.incoming name) n) ∧
      Staged t name s.next ψ (s.create (.incoming name) n) := by
  have hlink : ∀ p, p ≠ .incoming name → (s.create (.incoming name) n).link p = s.link p :=
    fun p hp => Function.update_of_ne hp _ _
  have hnew : (s.create (.incoming name) n).link (.incoming name) = some s.next :=
    Function.update_self _ _ _
  have hnode : ∀ j, j < s.next → (s.create (.incoming name) n).inode j = s.inode j :=
    fun j hj => Function.update_of_ne hj.ne _ _
  have hself : (s.create (.incoming name) n).inode s.next = n := Function.update_self _ _ _
  have hne : ∀ p j, s.link p = some j → p ≠ .incoming name := by
    rintro p j hp rfl
    exact nomatch hn.symm.trans hp
  refine ⟨⟨?_, ?_, ?_⟩, ⟨?_, ?_, ?_, ?_, ?_⟩, hnew,
    by rwa [hself], by rwa [hself]⟩
  · intro p j hp _
    exact ⟨(hlink p (hne p j hp)).trans hp, hnode j (hi.exist p j hp)⟩
  · intro d j h1 h2
    rw [hlink _ (published_object _ _), h2] at h1
    cases h1
  · intro id j h1 h2
    rw [hlink _ (published_pin _ _), h2] at h1
    cases h1
  · intro p j hp
    show j < s.next + 1
    by_cases e : p = .incoming name
    · rw [e, hnew] at hp
      cases hp
      omega
    · rw [hlink p e] at hp
      have := hi.exist p j hp
      omega
  · intro p q j hp hq
    by_cases e : p = .incoming name <;> by_cases e' : q = .incoming name
    · rw [e, e']
    · rw [e, hnew] at hp
      rw [hlink q e'] at hq
      cases hp
      exact absurd (hi.exist q _ hq) (lt_irrefl _)
    · rw [e', hnew] at hq
      rw [hlink p e] at hp
      cases hq
      exact absurd (hi.exist p _ hp) (lt_irrefl _)
    · rw [hlink p e] at hp
      rw [hlink q e'] at hq
      exact hi.one p q j hp hq
  · intro d j hd
    rw [hlink _ (published_object _ _)] at hd
    rw [hnode j (hi.exist _ _ hd)]
    exact hi.object d j hd
  · intro id j hd
    rw [hlink _ (published_pin _ _)] at hd
    rw [hnode j (hi.exist _ _ hd)]
    obtain ⟨h1, h2, d, h3, h4⟩ := hi.pin id j hd
    exact ⟨h1, h2, d, h3, by rwa [hlink _ (published_object _ _)]⟩
  · rw [hlink _ (published_pin _ _)]
    exact hi.zero

/-- What is needed for a staged file to be published at `q`. -/
structure Publishable (u : User) (k : Operation) (w : Writer) (q : Path) (s : Files Path τ)
    (n : Inode τ) : Prop where
  object : ∀ d, q = .object d →
    k.MayPublish w d n.data ∧ Sha256.hash n.data = d ∧ Sealed u n
  pin : ∀ id, q = .pin id → id ≠ zeroIdentity ∧ n.links = 1 ∧ n.synced = true ∧
    ∃ d : Digest, k = .pin id d ∧ n.data = d.bytes ∧ (s.link (.object d)).isSome

/-! ### A staged file is published at a path that led nowhere -/

section Move

variable {q : Path}

lemma move_self (h : Staged t name i φ s) (hq : s.link q = none) :
    (s.move (.incoming name) q).link q = some i := by
  have hne : q ≠ .incoming name := by
    rintro rfl
    exact nomatch hq.symm.trans h.1
  simp [Files.move, hne, h.1]

lemma move_other {p : Path} (h1 : p ≠ .incoming name) (h2 : p ≠ q) :
    (s.move (.incoming name) q).link p = s.link p := by
  simp [Files.move, h1, h2]

/-- A path that leads somewhere is the new one, or it led there before. -/
lemma move_some (h : Staged t name i φ s) (hq : s.link q = none) {p : Path} {j : ℕ}
    (hp : (s.move (.incoming name) q).link p = some j) :
    p = q ∧ j = i ∨ p ≠ .incoming name ∧ s.link p = some j := by
  by_cases e : p = q
  · rw [e, move_self h hq] at hp
    exact .inl ⟨e, (Option.some.inj hp).symm⟩
  · have e' : p ≠ .incoming name := by
      rintro rfl
      simp [Files.move] at hp
    exact .inr ⟨e', (move_other e' e).symm.trans hp⟩

lemma move_published (hq : s.link q = none) {p : Path} (hp : Published p)
    (hv : (s.link p).isSome) : (s.move (.incoming name) q).link p = s.link p := by
  refine move_other (hp _) ?_
  rintro rfl
  rw [hq] at hv
  cases hv

lemma guar_move (h : Staged t name i φ s) (hq : s.link q = none)
    (hp : Publishable S.user k w q s (s.inode i)) :
    Guar t k w s (s.move (.incoming name) q) := by
  refine ⟨fun p j hl hw => ⟨(move_other ?_ ?_).trans hl, rfl⟩, fun d j h1 h2 => ?_,
    fun id j h1 h2 => ?_⟩
  · -- a staged name is its owner's, so nobody else has been promised that it stays
    rintro rfl
    rcases hw with hw | hw
    · exact hw _ rfl
    · obtain rfl := Option.some.inj (hl.symm.trans h.1)
      exact hw h.2.1
  · rintro rfl
    exact nomatch hq.symm.trans hl
  · obtain ⟨e, rfl⟩ | ⟨-, h3⟩ := move_some h hq h1
    · exact (hp.object d e.symm).1
    · exact nomatch h2.symm.trans h3
  · obtain ⟨e, rfl⟩ | ⟨-, h3⟩ := move_some h hq h1
    · obtain ⟨h3, -, -, h4⟩ := hp.pin id e.symm
      exact ⟨h3, h4⟩
    · exact nomatch h2.symm.trans h3

lemma inv_move (hi : Inv S.user s) (h : Staged t name i φ s) (hq : s.link q = none)
    (hp : Publishable S.user k w q s (s.inode i)) : Inv S.user (s.move (.incoming name) q) := by
  refine ⟨fun p j hj => ?_, fun p p' j h1 h2 => ?_, fun d j hd => ?_, fun id j hd => ?_, ?_⟩
  · obtain ⟨-, rfl⟩ | ⟨-, hj⟩ := move_some h hq hj
    · exact hi.exist _ _ h.1
    · exact hi.exist _ _ hj
  · obtain ⟨e, e'⟩ | ⟨h3, h4⟩ := move_some h hq h1 <;>
      obtain ⟨f, f'⟩ | ⟨h5, h6⟩ := move_some h hq h2
    · exact e.trans f.symm
    · exact absurd e' (h.not_published hi h6 h5)
    · exact absurd f' (h.not_published hi h4 h3)
    · exact hi.one p p' j h4 h6
  · obtain ⟨e, rfl⟩ | ⟨-, hd⟩ := move_some h hq hd
    · exact (hp.object d e.symm).2
    · exact hi.object d j hd
  · -- the object that a pin names is published, and stays where it is
    obtain ⟨e, rfl⟩ | ⟨-, hd⟩ := move_some h hq hd
    · obtain ⟨-, h1, h2, d, -, h3, h4⟩ := hp.pin id e.symm
      exact ⟨h1, h2, d, h3, by rwa [move_published hq (published_object d) h4]⟩
    · obtain ⟨h1, h2, d, h3, h4⟩ := hi.pin id j hd
      exact ⟨h1, h2, d, h3, by rwa [move_published hq (published_object d) h4]⟩
  · have hne : Path.pin zeroIdentity ≠ q := fun e => (hp.pin _ e.symm).1 rfl
    rw [move_other (published_pin _ _) hne]
    exact hi.zero

end Move

/-- A staged file is removed. -/
lemma guar_unlink (hi : Inv S.user s) (h : Staged t name i φ s) :
    Guar t k w s (s.unlink (.incoming name) i) ∧ Inv S.user (s.unlink (.incoming name) i) := by
  obtain ⟨hg, hc⟩ := guar_change (k := k) (w := w) hi h { s.inode i with links := 0 }
  have hlink : ∀ p, p ≠ .incoming name → (s.unlink (.incoming name) i).link p = s.link p :=
    fun p hp => Function.update_of_ne hp _ _
  have hold : (s.unlink (.incoming name) i).link (.incoming name) = none :=
    Function.update_self _ _ _
  have key : ∀ p j, (s.unlink (.incoming name) i).link p = some j → s.link p = some j := by
    intro p j hp
    by_cases e : p = .incoming name
    · rw [e, hold] at hp
      cases hp
    · rwa [hlink p e] at hp
  refine ⟨⟨?_, ?_, ?_⟩, ⟨fun p j hp => hi.exist p j (key p j hp),
    fun p q j h1 h2 => hi.one p q j (key p j h1) (key q j h2),
    fun d j hd => hc.object d j (key _ j hd), ?_, ?_⟩⟩
  · intro p j hp hw
    refine ⟨(hlink p ?_).trans hp, (hg.keeps p j hp hw).2⟩
    rintro rfl
    rcases hw with hw | hw
    · exact hw _ rfl
    · obtain rfl := Option.some.inj (hp.symm.trans h.1)
      exact hw h.2.1
  · intro d j h1 h2
    exact nomatch h2.symm.trans (key _ j h1)
  · intro id j h1 h2
    exact nomatch h2.symm.trans (key _ j h1)
  · intro id j hd
    obtain ⟨h1, h2, d, h3, h4⟩ := hc.pin id j (key _ j hd)
    exact ⟨h1, h2, d, h3, by rw [hlink _ (published_object _ _)]; exact h4⟩
  · rw [hlink _ (published_pin _ _)]
    exact hi.zero

end NiayanAssurance.ObjectStore
