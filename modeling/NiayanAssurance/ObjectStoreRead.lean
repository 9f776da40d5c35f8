import NiayanAssurance.ObjectStoreSpec
import NiayanAssurance.Text

/-!
Reading objects while other workers go on: an object is digested as it is opened, and once more
when its bytes have been read.
-/

namespace NiayanAssurance.ObjectStore

open NiayanAssurance.Lib NiayanAssurance.Types NiayanAssurance.FileSystem Program
open NiayanAssurance.Text (integerLast)

/-- `Read_Object`, into a buffer of `capacity` bytes from the index `first` on; `Read_At` fills no
larger ones. -/
def readObject (S : Store) (d : Digest) (first capacity : ℕ) : Prog (Bytes × Outcome) := do
  let (f, status) ← openObject S d {}
  if status ≠ .ok then return ([], status)
  else
    let (v, status) ← info f
    let status := if status = .ok ∧ capacity < v.size then .exhausted else status
    let (data, status) ← whenOk status [] do
      if 16777216 < capacity then return ([], .invalidInput)
      else readAt f 0 capacity
    let (after, status) ← whenOk status {} (info f)
    let status :=
      if status ≠ .ok then status
      else if data.length ≠ v.size ∨ v ≠ after then .corrupt
      -- `Data'First + Used` is out of range, and the handler answers.
      else if integerLast < first + data.length then .ioError
      else if Sha256.hash data ≠ d then .corrupt
      else .ok
    return (if status ≠ .ok then [] else data, status)

/-! ### One read -/

/-- What a read of the object `x` returns where nothing fails. A buffer that it fills up to the
last index there is has no room for it. -/
def served (first capacity : ℕ) (x : Bytes) : Bytes × Outcome :=
  if capacity < x.length then ([], .exhausted)
  else if 16777216 < capacity then ([], .invalidInput)
  else if integerLast < first + x.length then ([], .ioError)
  else (x, .ok)

section Spec

variable {τ : Type} {S : Store} {works : Prop} {t : τ} {k : Operation} {w : Writer}
  {s : Files Path τ} {d : Digest} {first capacity j : ℕ} {n : Inode τ} {status : Outcome}

/-- What is opened is the object. -/
lemma openObject_handle :
    Spec S t k w works (openObject S d {}) (fun r s =>
      r.2 = .ok → ∃ j, r.1 = { handle := some j } ∧ s.link (.object d) = some j) s := by
  unfold openObject
  split_ifs with h0
  · rintro ⟨⟩
  refine (openRead_spec (p := .object d) trivial).bind ?_
  rintro ⟨f, status⟩ s₁ ⟨h1, -⟩
  dsimp only at h1 ⊢
  split_ifs with h2
  · exact fun e => absurd e h2
  obtain ⟨j, rfl, hj⟩ := h1 (not_not.mp h2)
  have kept : ∀ s s' : Files Path τ, Keeps (· = t) s s' → s.link (.object d) = some j →
      s'.link (.object d) = some j := fun _ _ hk h => keeps_linked (published_object d) hk h
  refine (spec_quiet (info_quiet _) kept hj).bind fun r s₂ h3 => ?_
  refine (spec_quiet (whenOk_quiet (hash_quiet _ _)) kept h3).bind fun r' s₃ h4 => ?_
  refine (spec_quiet (whenOk_quiet (info_quiet _)) kept h4).bind fun r'' s₄ h5 => ?_
  generalize (if r''.2 = .ok ∧ (r'.1.1 ≠ d ∨ r.1 ≠ r''.1) then Outcome.corrupt else r''.2) = o
  intro (e : o = .ok)
  exact ⟨j, if_neg (not_not.mpr e), h5⟩

/-- The open file is the object, whose bytes are those of `n`. -/
structure Open (t : τ) (d : Digest) (j : ℕ) (n : Inode τ) (s : Files Path τ) : Prop where
  seen : Seen t j n s
  there : s.bytesAt (.object d) = some n.data

lemma Open.keeps {s s' : Files Path τ} (h : Open t d j n s) (hk : Keeps (· = t) s s') :
    Open t d j n s' :=
  ⟨h.seen.keeps hk, keeps_bytesAt (published_object d) hk h.there⟩

/-- Nothing but reads has been done to it meanwhile. -/
lemma Open.quiet {α : Type} {p : Prog α} {Q : α → Prop} (h : Open t d j n s) (hp : p.Uses Quiet)
    (hs : Spec S t k w works p (fun r _ => Q r) s) :
    Spec S t k w works p (fun r s => Open t d j n s ∧ Q r) s :=
  ((spec_quiet hp (fun _ _ hk h => h.keeps hk) h).and hs).mono fun _ _ h => h

/-- Opening finds the object, if there is one. -/
lemma openObject_open (hi : Inv S.user s) :
    Spec S t k w works (openObject S d {}) (fun r s₁ =>
      (r.2 = .ok → ∃ j n, r.1 = { handle := some j } ∧ Open t d j n s₁ ∧ Sha256.hash n.data = d ∧
        ∀ x, s.bytesAt (.object d) = some x → x = n.data) ∧
      (works → S.opened = true → d ≠ zeroDigest → ∀ x, s.bytesAt (.object d) = some x →
        r.2 = .ok)) s := by
  have hpub := published_object d
  refine ((spec_frame ((openObject_spec hi d).and openObject_handle)
    (K := fun s₁ => ∀ x, s.bytesAt (.object d) = some x → s₁.bytesAt (.object d) = some x)
    (fun _ _ _ hk h x hx => keeps_bytesAt hpub hk (h x hx)) fun _ h => h).inv hi).mono ?_
  rintro ⟨f, status⟩ s₁ ⟨⟨⟨⟨-, h1⟩, h2⟩, h3⟩, hi₁⟩
  refine ⟨fun e => ?_, fun hw ho hd x hx => h1 hw ho hd (bytesAt_isSome.1 (by rw [hx]; rfl))⟩
  obtain ⟨j, hf, hj⟩ := h2 e
  have there : s₁.bytesAt (.object d) = some (s₁.inode j).data := by rw [Files.bytesAt, hj]; rfl
  exact ⟨j, _, hf, ⟨⟨_, hj, .inl hpub, rfl⟩, there⟩, (hi₁.object d j hj).1, fun x hx =>
    Option.some.inj ((h3 x hx).symm.trans there)⟩

/-- The bytes are read, if the buffer is not too large. -/
lemma readAt_open (h : Open t d j n s) :
    Spec S t k w works (whenOk status [] do
        if 16777216 < capacity then return ([], .invalidInput)
        else readAt { handle := some j } 0 capacity)
      (fun r s => Open t d j n s ∧
        (r.2 = .ok → status = .ok ∧ r.1 = n.data.take capacity) ∧
        (works → r = if status ≠ .ok then ([], status)
          else if 16777216 < capacity then ([], .invalidInput)
          else (n.data.take capacity, .ok))) s := by
  unfold whenOk
  refine Meets.ite (fun e => ?_) fun e => ⟨h, fun h => absurd h e, fun _ => (if_pos e).symm⟩
  refine Meets.ite (fun hc => ⟨h, nofun, fun _ => ?_⟩) fun hc => ?_
  · rw [if_neg (not_not.mpr e), if_pos hc]
  · refine (h.quiet (readAt_quiet _ _ _) (readAt_spec rfl rfl h.seen 0 capacity)).mono ?_
    rintro r s₁ ⟨h1, h2, h3⟩
    refine ⟨h1, fun hr => ⟨e, h2 hr⟩, fun hw => ?_⟩
    rw [if_neg (not_not.mpr e), if_neg hc]
    exact Prod.ext (h2 (h3 hw)) (h3 hw)

/-- It is described once more. -/
lemma after_open (h : Open t d j n s) :
    Spec S t k w works (whenOk status {} (info { handle := some j }))
      (fun r s => Open t d j n s ∧ (r.2 = .ok → status = .ok) ∧
        (works → r.2 = status ∧ (status = .ok → r.1 = n.info))) s := by
  unfold whenOk
  refine Meets.ite (fun e => ?_) fun e => ⟨h, fun h => h, fun _ => ⟨rfl, fun h => absurd h e⟩⟩
  refine (h.quiet (info_quiet _) (info_spec rfl rfl h.seen)).mono ?_
  rintro r s₁ ⟨h1, h2, h3⟩
  exact ⟨h1, fun _ => e, fun hw => ⟨(h3 hw).trans e.symm, fun _ => h2 (h3 hw)⟩⟩

/-- **What is read** is the object, as a whole; where nothing fails, that is what `served`
says. -/
theorem readObject_spec (hi : Inv S.user s) :
    Spec S t k w works (readObject S d first capacity) (fun r s' =>
      (r.2 = .ok → s'.bytesAt (.object d) = some r.1 ∧ Sha256.hash r.1 = d
        ∧ r.1.length ≤ capacity) ∧
      (r.2 ≠ .ok → r.1 = []) ∧
      (works → S.opened = true → d ≠ zeroDigest →
        ∀ x, s.bytesAt (.object d) = some x → r = served first capacity x)) s := by
  unfold readObject
  refine (openObject_open hi).bind ?_
  rintro ⟨f, status⟩ s₁ ⟨h1, h2⟩
  dsimp only at h1 h2 ⊢
  refine Meets.ite (fun e => ⟨fun h => absurd h e, fun _ => rfl, fun hw ho hd x hx =>
    absurd (h2 hw ho hd x hx) e⟩) fun e => ?_
  obtain ⟨j, n, rfl, hopen, hd, hold⟩ := h1 (not_not.mp e)
  refine (hopen.quiet (info_quiet _) (info_spec rfl rfl hopen.seen)).bind ?_
  rintro ⟨v, status₁⟩ s₂ ⟨h3, h4, h5⟩
  refine (readAt_open h3).bind ?_
  rintro ⟨data, status₂⟩ s₃ ⟨h6, h7, h8⟩
  refine (after_open h6).bind ?_
  rintro ⟨after, status₃⟩ s₄ ⟨h9, h10, h11⟩
  dsimp only at h4 h5 h7 h8 h10 h11 ⊢
  refine ⟨fun h => ?_, fun h => if_pos h, fun hw _ _ x hx => ?_⟩
  · -- An answer of `OK` means that every step was one.
    dsimp only at h ⊢
    rw [if_neg (not_not.mpr h)]
    split_ifs at h with e3 e4 e5 e6
    · exact absurd h e3
    · obtain ⟨e2, hdata⟩ := h7 (h10 (not_not.mp e3))
      split_ifs at e2 with e1
      have hv := h4 e2
      push Not at e4 e1
      have hle : n.data.length ≤ capacity := by
        have := e1 e2
        rw [hv] at this
        exact this
      rw [List.take_of_length_le hle] at hdata
      exact hdata ▸ ⟨h9.there, hd, hle⟩
  · obtain rfl := hold x hx
    obtain rfl := h4 (h5 hw)
    obtain ⟨rfl, h12⟩ := h11 hw
    have h13 := h8 hw
    have hsize : n.info.size = n.data.length := rfl
    rw [h5 hw, hsize] at h13
    unfold served
    by_cases hlong : capacity < n.data.length
    · rw [show (if Outcome.ok = Outcome.ok ∧ capacity < n.data.length then Outcome.exhausted
        else .ok) = .exhausted from if_pos ⟨rfl, hlong⟩, if_pos (by decide)] at h13
      cases h13
      rw [if_pos hlong]
      rfl
    rw [show (if Outcome.ok = Outcome.ok ∧ capacity < n.data.length then Outcome.exhausted
      else .ok) = .ok from if_neg fun h => hlong h.2, if_neg (by decide)] at h13
    rw [if_neg hlong]
    by_cases hlarge : 16777216 < capacity
    · rw [if_pos hlarge] at h13
      cases h13
      rw [if_pos hlarge]
      rfl
    rw [if_neg hlarge, List.take_of_length_le (not_lt.1 hlong)] at h13
    cases h13
    obtain rfl := h12 rfl
    rw [if_neg hlarge]
    by_cases hlast : integerLast < first + n.data.length <;> simp [hlast, hd, hsize]

end Spec

/-! ### Workers that read as well -/

/-- What a worker may ask of a store. -/
inductive Access
  | operation (k : Operation)
  | read (d : Digest) (first capacity : ℕ)

/-- What it is told. -/
structure Reply where
  data : Bytes := []
  digest : Digest := zeroDigest
  status : Outcome

def Access.onWriter : Access → Bool
  | .operation k => k.onWriter
  | .read _ _ _ => false

def access (S : Store) : Access → Writer → Prog (Reply × Writer)
  | .operation k, w => do
    let ((digest, status), w) ← body S k w
    return ({ digest, status }, w)
  | .read d first capacity, w => do
    let (data, status) ← readObject S d first capacity
    return ({ data, status }, w)

/-- Any number of workers on one store, as in `machine`, each of which may read as well. -/
def shared (S : Store) (τ : Type) (works : Prop) :
    Machine τ Access Writer Reply (Call Path) Answer (Files Path (τ × Bool)) where
  body := access S
  fresh := {}
  act t k := act S.user (t, k.onWriter) works
  others _ _ := False
  halt _ s s' := s' = s
  crash := Crash

variable {τ : Type} {S : Store} {works : Prop}

/-- What a read has found: the object, as a whole, or nothing. -/
structure Found (d : Digest) (capacity : ℕ) (b : Reply) (s : Files Path τ) : Prop where
  ok : b.status = .ok →
    s.bytesAt (.object d) = some b.data ∧ Sha256.hash b.data = d ∧ b.data.length ≤ capacity
  refused : b.status ≠ .ok → b.data = []

/-- A read publishes no more than a call that ends a writer. -/
def Access.guar (t : τ) : Access → Writer → Files Path (τ × Bool) → Files Path (τ × Bool) → Prop
  | .operation k => Guar (t, k.onWriter) k
  | .read _ _ _ => Guar (t, false) .abortWrite

def Access.result : Access → Reply → Files Path τ → Prop
  | .operation k, b, s => Result k (b.digest, b.status) s
  | .read d _ capacity, b, s => Found d capacity b s

lemma still_refl (t : τ) (s : Files Path (τ × Bool)) : Keeps (fun o => o.1 = t) s s :=
  Keeps.refl _ _

lemma still_trans (t : τ) (s s' s'' : Files Path (τ × Bool)) (h : Keeps (fun o => o.1 = t) s s')
    (h' : Keeps (fun o => o.1 = t) s' s'') : Keeps (fun o => o.1 = t) s s'' := h.trans h'

variable (S τ) in
abbrev sharing : Machine.Discipline τ Access Writer Reply (Files Path (τ × Bool)) where
  inv := Inv S.user
  rely t := Keeps fun o => o.1 = t
  guar t k := k.guar t
  knows t := Knows (t, true)
  result _ k _ b s := k.result b s
  rely_refl := still_refl
  rely_trans := still_trans

lemma Access.guar.keeps {t : τ} {k : Access} {w : Writer} {s s' : Files Path (τ × Bool)}
    (h : k.guar t w s s') : Keeps (· ≠ (t, k.onWriter)) s s' := by
  cases k with
  | operation k => exact Guar.keeps h
  | read => exact Guar.keeps h

lemma Found.keeps {d : Digest} {capacity : ℕ} {b : Reply} {s s' : Files Path τ} {who : τ → Prop}
    (h : Found d capacity b s) (hk : Keeps who s s') : Found d capacity b s' :=
  ⟨fun e => ⟨keeps_bytesAt (published_object d) hk (h.ok e).1, (h.ok e).2⟩, h.refused⟩

lemma access_spec (t : τ) (k : Access) (w : Writer) (s : Files Path (τ × Bool))
    (hi : Inv S.user s) (h : Knows (t, true) w s) :
    (access S k w).Meets (act S.user (t, k.onWriter) works) ((sharing τ S).contract t k w)
      ((sharing τ S).post t k w) s := by
  cases k with
  | operation k => exact (body_spec t k w s hi h).bind fun _ _ h => h
  | read d first capacity =>
    have hs : Spec S (t, false) .abortWrite w works (readObject S d first capacity) _ s :=
      readObject_spec hi
    have hw := hs.weaken (D := (sharing τ S).contract t (.read d first capacity) w) (fun _ h => h)
      (fun s s' (hr : Keeps (fun o : τ × Bool => o.1 = t) s s') =>
        hr.weaken fun o (e : o = _) => by rw [e])
      fun _ _ _ hg hi => ⟨hg, hi⟩
    refine (hw.frame (fun s s' (hr : Keeps (fun o : τ × Bool => o.1 = t) s s') hw =>
      hw.keeps hr rfl) (fun _ _ _ (hg : Guar _ _ _ _ _) _ hw =>
        hw.keeps hg.keeps (by simp)) h).bind ?_
    exact fun r s₁ h => ⟨h.2, h.1.1, h.1.2.1⟩

variable (S τ works) in
theorem shared_sound : (shared S τ works).Sound (sharing τ S) where
  body t k w s hi h := access_spec t k w s hi h
  guar t t' k w s s' _ _ hg ht := by
    show Keeps (fun o : τ × Bool => o.1 = t') s s'
    refine (Access.guar.keeps hg).weaken fun o e h => ht ?_
    rw [← e, h]
  others _ _ _ h := h.elim
  halt t s s' hi h := by
    obtain rfl : s' = s := h
    exact ⟨hi, rfl, fun t' _ => Keeps.refl (fun o : τ × Bool => o.1 = t') _⟩
  crash s s' hi h := ⟨(inv_crash hi h).1, fun _ => rfl⟩
  knows t w s s' hr h := by
    have hk : Keeps (fun o : τ × Bool => o.1 = t) s s' := hr
    exact Knows.keeps h hk rfl
  result t k w b s s' hr h := by
    have hk : Keeps (fun o : τ × Bool => o.1 = t) s s' := hr
    cases k with
    | operation k => exact (machine_sound τ S works).result t k w _ s s' hr h
    | read => exact Found.keeps h hk

/-! ### What is read back -/

section Runs

variable [DecidableEq τ]

variable (S) in
/-- A read that no call of the system fails has ended with `r`, whatever the other workers did
meanwhile. -/
def Reads (t : τ) (d : Digest) (first n : ℕ) (m : Files Path (τ × Bool)) (r : Bytes × Outcome) :
    Prop :=
  ∃ w s, Program.Steps (act S.user (t, false) True) (beside S (t, false) .abortWrite w)
    (readObject S d first n) m (.done r) s

variable (S τ works) in
/-- What the readers of a store may count on in a state `m` that is reached. -/
structure ReadBack (m : Machine.State τ Access Writer Reply (Call Path) Answer
    (Files Path (τ × Bool))) : Prop where
  /-- A read that is done has found the object as a whole, or hands nothing over. -/
  found : ∀ t d i n b m', (shared S τ works).Step m (.finish t (.read d i n) b) m' →
    Found d n b m.world
  /-- Two reads of one digest find the same bytes, whatever is done between them. -/
  same : ∀ t t' d i i' n n' b b' m₁ m₂ m₃ ls,
    (shared S τ works).Step m (.finish t (.read d i n) b) m₁ → b.status = .ok →
      Run (shared S τ works).Step m₁ ls m₂ →
        (shared S τ works).Step m₂ (.finish t' (.read d i' n') b') m₃ → b'.status = .ok →
          b'.data = b.data
  /-- An object that is there is read, if it fits and no call of the system fails. -/
  served : S.opened = true → ∀ (t : τ) d x, d ≠ zeroDigest →
    m.world.bytesAt (.object d) = some x → ∀ i n r, Reads S t d i n m.world r → r = served i n x
  /-- What the other workers do meanwhile. -/
  others : ∀ (t t' : τ) m', (shared S τ works).Step m (.call t') m' → t' ≠ t → ∀ w,
    (beside S (t, false) .abortWrite w).rely m.world m'.world
  /-- What has been put is read back, wherever all of them have been stopped since, unless what
  is there has the same digest and is not the same. -/
  stored : ∀ t data b m₁ ls m₂,
    (shared S τ works).Step m (.finish t (.operation (.put data)) b) m₁ → b.status = .ok →
      Run (shared S τ works).Step m₁ ls m₂ →
        ∃ x, m₂.world.bytesAt (.object (Sha256.hash data)) = some x ∧
          Sha256.hash x = Sha256.hash data ∧
          (Sha256.CollisionFree [data, x] → S.opened = true → Sha256.hash data ≠ zeroDigest →
            ∀ (t' : τ) i n r, Reads S t' (Sha256.hash data) i n m₂.world r →
              r = ObjectStore.served i n data)

section Kept

variable {m m' : Machine.State τ Access Writer Reply (Call Path) Answer
    (Files Path (τ × Bool))} {t : τ} {d : Digest} {x : Bytes} {i n : ℕ}

omit [DecidableEq τ] in
lemma read_served {s : Files Path (τ × Bool)} (hi : Inv S.user s) (ho : S.opened = true)
    (hd : d ≠ zeroDigest) (hx : s.bytesAt (.object d) = some x) {r : Bytes × Outcome}
    (hs : Reads S t d i n s r) : r = served i n x := by
  obtain ⟨w, s', hs⟩ := hs
  have h1 : Spec S (t, false) .abortWrite w True (readObject S d i n)
      (fun r _ => r = served i n x) s :=
    (readObject_spec hi).mono fun r _ h => h.2.2 trivial ho hd x hx
  have h2 := h1.weaken (D := beside S (t, false) .abortWrite w) (fun _ h => h)
    (fun _ _ h => h.1) fun _ _ _ hg hi => ⟨hg, hi⟩
  exact (h2.steps (fun _ _ _ _ h => h) (fun _ _ h => h.2) hi hs).2

lemma found_of_finish (hm : (shared S τ works).Kept (sharing τ S) m) {b : Reply}
    (hs : (shared S τ works).Step m (.finish t (.read d i n) b) m') : Found d n b m.world := by
  cases hs with
  | finish _ ht => exact (hm.done ht).2

lemma put_of_finish (hm : (shared S τ works).Kept (sharing τ S) m) {data : Bytes} {b : Reply}
    (hs : (shared S τ works).Step m (.finish t (.operation (.put data)) b) m')
    (hb : b.status = .ok) : (m.world.bytesAt (.object (Sha256.hash data))).isSome := by
  cases hs with
  | finish _ ht =>
    obtain ⟨h1, h2⟩ := (hm.done ht).2 hb
    rw [bytesAt_isSome, ← h1]
    exact h2

end Kept

/-- **What is stored is read back**: whatever any number of workers do, and wherever they are
stopped, a read that is done has found the bytes that were published under the digest, which are
the same for every reader; and where nothing fails, it finds what is there. -/
theorem read_back {w₀ : Files Path (τ × Bool)} {ls : List (Machine.Label τ Access Reply)}
    {m : Machine.State τ Access Writer Reply (Call Path) Answer (Files Path (τ × Bool))}
    (h0 : ∀ p, w₀.link p = none)
    (hr : Run (shared S τ works).Step ((shared S τ works).init w₀) ls m) :
    ReadBack τ S works m := by
  have hw : Inv S.user w₀ :=
    ⟨fun p i h => (nomatch (h0 p).symm.trans h), fun p q i h => (nomatch (h0 p).symm.trans h),
      fun d i h => (nomatch (h0 _).symm.trans h), fun id i h => (nomatch (h0 _).symm.trans h),
      h0 _⟩
  have hs := shared_sound τ S works
  have kept : ∀ {ls m}, Run (shared S τ works).Step ((shared S τ works).init w₀) ls m →
      (shared S τ works).Kept (sharing τ S) m := fun hr => hs.kept hw (fun _ => rfl) hr
  have stays : ∀ {ls m ls' m'}, Run (shared S τ works).Step ((shared S τ works).init w₀) ls m →
      Run (shared S τ works).Step m ls' m' → ∀ d x, m.world.bytesAt (.object d) = some x →
        m'.world.bytesAt (.object d) = some x := fun hr hr' d =>
    hs.rel (R := fun s s' : Files Path (τ × Bool) => ∀ x, s.bytesAt (.object d) = some x →
      s'.bytesAt (.object d) = some x) hw (fun _ => rfl) (fun _ _ h => h)
      (fun s s' s'' h h' x hx => h' x (h x hx))
      (fun t k v s s' _ _ hg x hx =>
        keeps_bytesAt (published_object d) (Access.guar.keeps hg) hx)
      (fun _ _ _ h => h.elim) (fun t s s' _ h => by obtain rfl := h; exact fun _ h => h)
      (fun s s' h h' => (inv_crash h h').2 (.object d) trivial) hr hr'
  refine ⟨fun t d i n b m' h => found_of_finish (kept hr) h, ?_, fun ho t d x hd hx i n r h =>
    read_served (kept hr).inv ho hd hx h, ?_, ?_⟩
  · intro t t' d i i' n n' b b' m₁ m₂ m₃ ls' h1 hb h2 h3 hb'
    have h4 := (Run.single h1).append h2
    have h5 := stays hr h4 d _ ((found_of_finish (kept hr) h1).ok hb).1
    have h6 := ((found_of_finish (kept (hr.append h4)) h3).ok hb').1
    exact Option.some.inj (h6.symm.trans h5)
  · intro t t' m' h ht w
    cases h with
    | call _ hrun ha =>
      obtain ⟨hg, hi, -⟩ := (kept hr).call hrun ha
      exact ⟨(Access.guar.keeps hg).weaken fun o (e : o = _) h =>
        ht (by rw [e] at h; exact (congrArg Prod.fst h).symm), fun _ => hi⟩
  · intro t data b m₁ ls' m₂ h1 hb h2
    have h4 := (Run.single h1).append h2
    obtain ⟨x, hx⟩ := Option.isSome_iff_exists.1 (put_of_finish (kept hr) h1 hb)
    have h5 := stays hr h4 _ _ hx
    obtain ⟨i, hi, rfl⟩ := Option.map_eq_some_iff.mp h5
    have hk := kept (hr.append h4)
    have hd := (Inv.object hk.inv _ i hi).1
    refine ⟨_, h5, hd, fun hcf ho hz t' first n r h => ?_⟩
    have he := hcf _ (by simp) _ (by simp) hd
    rw [← he]
    exact read_served hk.inv ho hz h5 h

end Runs

/-! ### An object that is put and read -/

def someObject : Bytes := [1, 2, 3]

/-- What the one worker answers each call with, nothing failing. -/
def answers : (c : Call Path) → Files Path (Unit × Bool) → Answer c × Files Path (Unit × Bool) :=
  serve someStore.user ((), false) (Block.fill 16 7)

def written : Files Path (Unit × Bool) := (made (.put someObject) emptyFiles).2

lemma put_written (w : Writer) :
    ((access someStore (.operation (.put someObject)) w).run answers emptyFiles).2 = written := by
  unfold written made access body
  rw [Program.run_bind, Program.run_bind, Program.run_bind]
  rfl

lemma read_reply (d : Digest) (i n : ℕ) (w : Writer) (s : Files Path (Unit × Bool)) :
    ((access someStore (.read d i n) w).run answers s).1.1 =
      { data := ((readObject someStore d i n).run answers s).1.1
        status := ((readObject someStore d i n).run answers s).1.2 } := by
  unfold access
  rw [Program.run_bind]
  rfl

set_option maxRecDepth 100000 in
lemma read_written : ((readObject someStore (Sha256.hash someObject) 1 8).run answers written).1 =
    (someObject, .ok) := by
  decide +kernel

lemma put_run : ∃ ls m, Run (shared someStore Unit False).Step
    ((shared someStore Unit False).init emptyFiles) ls m ∧
      m.world = written ∧ m.running () = none := by
  obtain ⟨ls, h⟩ := Machine.run_whole_call (M := shared someStore Unit False) (t := ())
    (m := (shared someStore Unit False).init emptyFiles) (.operation (.put someObject))
    (f := answers) (fun c s => serve_act _ _ _ c s) rfl
  exact ⟨_, _, h, put_written {}, rfl⟩

/-- The one worker puts an object, and reads it back. -/
theorem read_back_written : ∃ ls ls' m m', Run (shared someStore Unit False).Step
      ((shared someStore Unit False).init emptyFiles) ls m ∧
    Run (shared someStore Unit False).Step m (.start () (.read (Sha256.hash someObject) 1 8)
      :: ls' ++ [.finish () (.read (Sha256.hash someObject) 1 8)
        { data := someObject, status := .ok }]) m' ∧
    ReadBack Unit someStore False m' := by
  obtain ⟨ls, m, h, hw, hm⟩ := put_run
  obtain ⟨ls', h'⟩ := Machine.run_whole_call (M := shared someStore Unit False)
    (.read (Sha256.hash someObject) 1 8) (f := answers) (fun c s => serve_act _ _ _ c s) hm
  have hr : (((shared someStore Unit False).body (.read (Sha256.hash someObject) 1 8)
      (m.memory ())).run answers m.world).1.1 = { data := someObject, status := .ok } := by
    rw [hw]
    refine (read_reply _ _ _ _ _).trans ?_
    rw [read_written]
  rw [hr] at h'
  exact ⟨ls, ls', m, _, h, h', read_back (fun _ => rfl) (h.append h')⟩

end NiayanAssurance.ObjectStore
