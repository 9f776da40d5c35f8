import NiayanAssurance.Reconstruct
import NiayanAssurance.Lib.Checked

/-!
Whether a cohort can be put together: what `reconstruct` says of replicas that do not change,
when there is no candidate to write to.

Of a chunk it takes the first good copy. The verdict is that of a statement that knows neither of
an order of the replicas nor of a copy that is bad.
-/

namespace NiayanAssurance.Recovery

open NiayanAssurance.Lib NiayanAssurance.Types NiayanAssurance.RecoveryIo

/-! ### Digests that are written differently differ -/

lemma hexDigit_inj {m n : ℕ} (hm : m < 16) (hn : n < 16) (h : hexDigit m = hexDigit n) : m = n := by
  have key : ∀ m n : Fin 16, hexDigit m = hexDigit n → m = n := by decide
  exact congrArg Fin.val (key ⟨m, hm⟩ ⟨n, hn⟩ h)

lemma hex_inj {b c : Bytes} (h : hex b = hex c) : b = c := by
  induction b generalizing c with
  | nil =>
    cases c with
    | nil => rfl
    | cons y c => simp [hex] at h
  | cons x b ih =>
    cases c with
    | nil => simp [hex] at h
    | cons y c =>
      simp only [hex, List.flatMap_cons, List.cons_append, List.nil_append, List.cons.injEq] at h
      obtain ⟨h1, h2, h3⟩ := h
      have hx := x.isLt
      have hy := y.isLt
      have e1 := hexDigit_inj (by omega) (by omega) h1
      have e2 := hexDigit_inj (by omega) (by omega) h2
      rw [BitVec.eq_of_toNat_eq (x := x) (y := y) (by omega), ih h3]

lemma hash_of_sha {b c : Bytes} (h : sha b = sha c) : Sha256.hash b = Sha256.hash c :=
  Block.ext (hex_inj h)

/-! ### Replicas that do not change -/

/-- A directory, and what the host answers while one of its files is read. -/
structure Replica where
  path : List Text
  files : Text → ReadHost

/-- What is read of a chunk. -/
def Replica.copy (r : Replica) (chunk : Text) : Except Error Bytes :=
  read (objectPath chunk) CHUNK (r.files (objectPath chunk))

/-- The copy of a chunk, if it is good. -/
def Replica.good (r : Replica) (chunk : Text) (size : ℕ) : Option Bytes :=
  (r.copy chunk).toOption.filter fun b => b.length = size ∧ sha b = chunk

/-- All good copies of a chunk. -/
def goods (rs : List Replica) (chunk : Text) (size : ℕ) : List Bytes :=
  rs.filterMap fun r => r.good chunk size

/-- `b` is what some replica holds of the chunk, readable, as long as it has to be and with its
digest. -/
def Holds (rs : List Replica) (chunk : Text) (size : ℕ) (b : Bytes) : Prop :=
  ∃ r ∈ rs, r.copy chunk = .ok b ∧ b.length = size ∧ sha b = chunk

/-- Every chunk of `i` is held by some replica, and together they are `i`. -/
def Recoverable (rs : List Replica) (i : Item) : Prop :=
  ∃ pieces : List Bytes,
    List.Forall₂ (fun c b => Holds rs c.1 (i.chunkSize c.2) b) i.chunks.zipIdx pieces
    ∧ pieces.flatten.length = i.size ∧ sha pieces.flatten = i.sha256

/-- All good copies of the chunks of an object. -/
def Item.copies (i : Item) (rs : List Replica) : List Bytes :=
  i.chunks.zipIdx.flatMap fun c => goods rs c.1 (i.chunkSize c.2)

def Manifest.copies (m : Manifest) (rs : List Replica) : List Bytes :=
  m.objects.flatMap fun i => i.copies rs

lemma mem_goods {rs : List Replica} {chunk : Text} {n : ℕ} {b : Bytes} :
    b ∈ goods rs chunk n ↔ Holds rs chunk n b := by
  simp only [goods, Holds, Replica.good, List.mem_filterMap, Option.filter_eq_some_iff,
    decide_eq_true_eq]
  refine exists_congr fun r => and_congr_right fun _ => and_congr_left fun _ => ?_
  cases r.copy chunk with
  | error e => simp [Except.toOption]
  | ok x => simp [Except.toOption]

/-! ### The host -/

/-- It answers what the replicas hold. There is no candidate, about which it might be asked. -/
def host (rs : List Replica) : (c : Call) → Unit → Answer c × Unit
  | .read replica path, _ => ((rs[replica]?.map fun r => r.files path).getD {}, ())
  | .listdir, _ => (.ok false, ())
  | .fstatvfs, _ => (.ok 0, ())
  | .create _, _ => (.ok true, ())
  | .write _ _, _ => (.ok (), ())
  | .fsync _, _ => (.ok (), ())
  | .fsyncParent _, _ => (.ok (), ())
  | .readBack _, _ => ({}, ())
  | .fault _, _ => (.ok (), ())

variable {rs : List Replica} {α β : Type}

def eval (rs : List Replica) (x : Tool α) : Except Error α := (x.run.run (host rs) ()).1

@[simp] lemma eval_pure (a : α) : eval rs (pure a) = .ok a := rfl

@[simp] lemma eval_raised (x : Except Error α) : eval rs (raised x) = x := rfl

@[simp] lemma eval_ask (c : Call) : eval rs (ask c) = .ok (host rs c ()).1 := rfl

@[simp] lemma eval_bind (x : Tool α) (f : α → Tool β) :
    eval rs (x >>= f) = eval rs x >>= fun a => eval rs (f a) := by
  unfold eval
  rw [ExceptT.run_bind, Program.run_bind]
  cases (x.run.run (host rs) ()).1 with
  | error e => rfl
  | ok a => rfl

lemma eval_foldlM (f : β → α → Tool β) (l : List α) (b : β) :
    eval rs (l.foldlM f b) = l.foldlM (fun b a => eval rs (f b a)) b := by
  induction l generalizing b with
  | nil => rfl
  | cons a l ih => simp only [List.foldlM_cons, eval_bind, ih]

/-! ### Chunks -/

variable {chunk : Text} {n : ℕ} {i : Item}

/-- One replica: its copy is selected if it is the first that is good. -/
lemma eval_copyStep (chunk : Text) (n : ℕ) {k : ℕ} {r : Replica} (hr : rs[k]? = some r)
    (selected : Option Bytes) (bad : Findings) :
    ∃ bad', eval rs (copyStep false chunk n (selected, bad) k)
      = .ok (selected.or (r.good chunk n), bad') := by
  have hc : read (objectPath chunk) CHUNK (host rs (.read k (objectPath chunk)) ()).1
      = r.copy chunk := by simp [host, hr, Replica.copy]
  unfold copyStep
  rw [eval_bind, eval_ask]
  show ∃ bad', eval rs _ = _
  rw [hc]
  unfold Replica.good
  cases r.copy chunk with
  | error e => exact ⟨_, by simp [Except.toOption]; rfl⟩
  | ok b =>
    by_cases hb : b.length = n ∧ sha b = chunk
    · refine ⟨bad, ?_⟩
      cases selected <;> simp [Except.toOption, Option.filter_some, hb]
    · have h1 : b.length ≠ n ∨ sha b ≠ chunk := by tauto
      refine ⟨bad.note k chunk "digest-or-length", ?_⟩
      simp only [if_pos h1, Bool.false_eq_true, if_false]
      simp [Except.toOption, Option.filter_some, hb]

lemma head_goods {k : ℕ} (hk : k < rs.length) :
    (goods (rs.take (k + 1)) chunk n).head?
      = (goods (rs.take k) chunk n).head?.or (rs[k].good chunk n) := by
  rw [← List.take_append_getElem hk, goods, List.filterMap_append, List.head?_append, goods]
  congr 1
  cases h : rs[k].good chunk n with
  | none => simp [h]
  | some b => simp [h]

/-- All of them: the first good copy is selected. -/
lemma eval_copies (chunk : Text) (n : ℕ) (bad : Findings) {k : ℕ} (hk : k ≤ rs.length) :
    ∃ bad', eval rs ((List.range k).foldlM (copyStep false chunk n) (none, bad))
      = .ok ((goods (rs.take k) chunk n).head?, bad') := by
  induction k with
  | zero => exact ⟨bad, rfl⟩
  | succ k ih =>
    obtain ⟨bad', h1⟩ := ih (by omega)
    obtain ⟨bad'', h2⟩ := eval_copyStep chunk n
      (List.getElem?_eq_getElem (show k < rs.length by omega))
      (goods (rs.take k) chunk n).head? bad'
    refine ⟨bad'', ?_⟩
    rw [eval_foldlM] at h1 ⊢
    rw [List.range_succ, List.foldlM_append, h1, head_goods (by omega), ← h2]
    simp only [List.foldlM_cons, List.foldlM_nil, bind_pure]
    rfl

/-- The first good copies of the chunks from `number` on. -/
def firsts (rs : List Replica) (i : Item) (number : ℕ) (chunks : List Text) :
    Option (List Bytes) :=
  (chunks.zipIdx number).mapM fun c => (goods rs c.1 (i.chunkSize c.2)).head?

/-- The loop over the chunks puts the first good copies together. -/
lemma eval_chunkLoop (rs : List Replica) (i : Item) (chunks : List Text) (number : ℕ)
    (content : Bytes) (bad : Findings) :
    ∃ content' bad', eval rs (chunkLoop false rs.length i number chunks content bad)
        = .ok ((firsts rs i number chunks).isSome, content', bad')
      ∧ ∀ pieces, firsts rs i number chunks = some pieces →
        content' = content ++ pieces.flatten := by
  induction chunks generalizing number content bad with
  | nil =>
    refine ⟨content, bad, rfl, ?_⟩
    intro pieces h
    cases h
    simp
  | cons chunk chunks ih =>
    obtain ⟨bad', h1⟩ := eval_copies chunk (i.chunkSize number) bad
      (Nat.le_refl rs.length)
    rw [List.take_length] at h1
    unfold chunkLoop
    rw [eval_bind, h1]
    cases hg : (goods rs chunk (i.chunkSize number)).head? with
    | none =>
      have h2 : firsts rs i number (chunk :: chunks) = none := by simp [firsts, hg]
      exact ⟨content, bad', by rw [h2]; rfl, by simp [h2]⟩
    | some b =>
      obtain ⟨content', bad'', h2, h3⟩ := ih (number + 1) (content ++ b) bad'
      have h4 : firsts rs i number (chunk :: chunks)
          = (firsts rs i (number + 1) chunks).map (b :: ·) := by
        rw [firsts, List.zipIdx_cons, List.mapM_cons, hg, Option.map_eq_bind]
        rfl
      refine ⟨content', bad'', ?_, ?_⟩
      · rw [h4, Option.isSome_map, ← h2]
        rfl
      · intro pieces hp
        rw [h4] at hp
        obtain ⟨l, hl, rfl⟩ := Option.map_eq_some_iff.mp hp
        rw [h3 l hl, List.flatten_cons, List.append_assoc]

/-! ### Objects -/

/-- Whether the first good copies of the chunks of `i` are `i`. -/
def verdict (rs : List Replica) (i : Item) : Bool :=
  (firsts rs i 0 i.chunks).any fun pieces =>
    decide (pieces.flatten.length = i.size ∧ sha pieces.flatten = i.sha256)

lemma eval_objectStep (rs : List Replica) (r : Report) (i : Item) :
    ∃ bad, eval rs (objectStep false rs.length r i) = .ok { r with
      objects := r.objects ++ [(i.path, verdict rs i)]
      complete := r.complete && verdict rs i
      bad } := by
  obtain ⟨content, bad, h1, h2⟩ := eval_chunkLoop rs i i.chunks 0 [] r.bad
  refine ⟨bad, ?_⟩
  have h3 : ((firsts rs i 0 i.chunks).isSome
      && decide (content.length = i.size ∧ sha content = i.sha256)) = verdict rs i := by
    unfold verdict
    cases hf : firsts rs i 0 i.chunks with
    | none => rfl
    | some pieces => rw [h2 pieces hf]; rfl
  unfold objectStep
  simp only [Bool.false_eq_true, if_false, eval_bind, eval_pure, h1]
  rw [← h3]
  rfl

lemma eval_objects (rs : List Replica) (l : List Item) (r : Report) :
    ∃ bad, eval rs (l.foldlM (objectStep false rs.length) r) = .ok { r with
      objects := r.objects ++ l.map fun i => (i.path, verdict rs i)
      complete := r.complete && l.all (verdict rs)
      bad } := by
  induction l generalizing r with
  | nil => exact ⟨r.bad, by simp⟩
  | cons i l ih =>
    obtain ⟨bad, h1⟩ := eval_objectStep rs r i
    obtain ⟨bad', h2⟩ := ih { r with
      objects := r.objects ++ [(i.path, verdict rs i)]
      complete := r.complete && verdict rs i
      bad }
    refine ⟨bad', ?_⟩
    rw [List.foldlM_cons, eval_bind, h1]
    simpa [Bool.and_assoc] using h2

/-- If no two good copies of a chunk differ, the first one is any of them. -/
lemma head_goods_of_holds (hcf : Sha256.CollisionFree (i.copies rs)) {c : Text × ℕ}
    (hc : c ∈ i.chunks.zipIdx) {b : Bytes} (h : Holds rs c.1 (i.chunkSize c.2) b) :
    (goods rs c.1 (i.chunkSize c.2)).head? = some b := by
  have hb := mem_goods.mpr h
  cases hg : (goods rs c.1 (i.chunkSize c.2)).head? with
  | none => rw [List.head?_eq_none_iff.mp hg] at hb; cases hb
  | some x =>
    have hx := List.mem_of_head? hg
    obtain ⟨_, _, _, _, hxs⟩ := mem_goods.mp hx
    obtain ⟨_, _, _, _, hbs⟩ := h
    rw [hcf x (List.mem_flatMap.mpr ⟨c, hc, hx⟩) b (List.mem_flatMap.mpr ⟨c, hc, hb⟩)
      (hash_of_sha (hxs.trans hbs.symm))]

/-- **The order does not count**: the first good copies are as good as any. -/
lemma verdict_iff (hcf : Sha256.CollisionFree (i.copies rs)) :
    verdict rs i = true ↔ Recoverable rs i := by
  have key : ∀ pieces, firsts rs i 0 i.chunks = some pieces ↔
      List.Forall₂ (fun c b => Holds rs c.1 (i.chunkSize c.2) b) i.chunks.zipIdx pieces := by
    intro pieces
    refine mapM_some.trans ⟨fun h => h.imp fun c b hb => mem_goods.mp (List.mem_of_head? hb),
      fun h => ?_⟩
    refine ((List.forall₂_and_left _ _).mpr ⟨fun c hc => hc, h⟩).imp fun c b hb => ?_
    exact head_goods_of_holds hcf hb.1 hb.2
  simp only [verdict, Option.any_eq_true, decide_eq_true_eq, Recoverable, key]

/-! ### What the verdicts depend on -/

variable {rs' : List Replica}

lemma collisionFree_of_subset {s t : List Bytes} (h : Sha256.CollisionFree t) (hs : s ⊆ t) :
    Sha256.CollisionFree s := fun x hx y hy => h x (hs hx) y (hs hy)

lemma goods_subset (h : rs ⊆ rs') : goods rs chunk n ⊆ goods rs' chunk n := by
  intro b hb
  obtain ⟨r, hr, hrb⟩ := List.mem_filterMap.mp hb
  exact List.mem_filterMap.mpr ⟨r, h hr, hrb⟩

lemma itemCopies_subset (h : rs ⊆ rs') : i.copies rs ⊆ i.copies rs' := by
  intro b hb
  obtain ⟨c, hc, hb⟩ := List.mem_flatMap.mp hb
  exact List.mem_flatMap.mpr ⟨c, hc, goods_subset h hb⟩

lemma manifestCopies_subset {m : Manifest} (h : rs ⊆ rs') : m.copies rs ⊆ m.copies rs' := by
  intro b hb
  obtain ⟨i, hi, hb⟩ := List.mem_flatMap.mp hb
  exact List.mem_flatMap.mpr ⟨i, hi, itemCopies_subset h hb⟩

lemma copies_subset {m : Manifest} (hi : i ∈ m.objects) : i.copies rs ⊆ m.copies rs :=
  fun _ hb => List.mem_flatMap.mpr ⟨i, hi, hb⟩

/-- Some replica holds a good copy of the chunk. -/
def Available (rs : List Replica) (chunk : Text) (size : ℕ) : Prop :=
  ∃ b, Holds rs chunk size b

/-- What can be recovered depends on nothing but which chunks are available. -/
lemma recoverable_of_available (hcf : Sha256.CollisionFree (i.copies (rs ++ rs')))
    (h : ∀ c ∈ i.chunks.zipIdx, Available rs c.1 (i.chunkSize c.2) →
      Available rs' c.1 (i.chunkSize c.2)) (hr : Recoverable rs i) : Recoverable rs' i := by
  obtain ⟨pieces, hp, hd⟩ := hr
  refine ⟨pieces, ((List.forall₂_and_left _ _).mpr ⟨fun c hc => hc, hp⟩).imp ?_, hd⟩
  rintro c b ⟨hc, hb⟩
  obtain ⟨b', hb'⟩ := h c hc ⟨b, hb⟩
  have mem : ∀ {x : Bytes} {l : List Replica}, l ⊆ rs ++ rs' → Holds l c.1 (i.chunkSize c.2) x →
      x ∈ i.copies (rs ++ rs') := fun hl hx =>
    List.mem_flatMap.mpr ⟨c, hc, goods_subset hl (mem_goods.mpr hx)⟩
  obtain ⟨_, _, _, _, hbs⟩ := id hb
  obtain ⟨_, _, _, _, hbs'⟩ := id hb'
  rw [hcf b (mem (List.subset_append_left _ _) hb) b' (mem (List.subset_append_right _ _) hb')
    (hash_of_sha (hbs.trans hbs'.symm))]
  exact hb'

/-- The verdicts are the same where the same chunks are available. -/
lemma verdict_eq (hcf : Sha256.CollisionFree (i.copies (rs ++ rs')))
    (h : ∀ c ∈ i.chunks.zipIdx,
      (Available rs c.1 (i.chunkSize c.2) ↔ Available rs' c.1 (i.chunkSize c.2))) :
    verdict rs' i = verdict rs i := by
  have hcf' : Sha256.CollisionFree (i.copies (rs' ++ rs)) :=
    collisionFree_of_subset hcf (itemCopies_subset (by simp))
  have hl := collisionFree_of_subset hcf (itemCopies_subset (List.subset_append_left rs rs'))
  have hr := collisionFree_of_subset hcf (itemCopies_subset (List.subset_append_right rs rs'))
  rw [Bool.eq_iff_iff, verdict_iff hl, verdict_iff hr]
  exact ⟨recoverable_of_available hcf' fun c hc => (h c hc).mpr,
    recoverable_of_available hcf fun c hc => (h c hc).mp⟩

lemma available_subset (h : rs ⊆ rs') (ha : Available rs chunk n) : Available rs' chunk n := by
  obtain ⟨b, r, hr, hb⟩ := ha
  exact ⟨b, r, h hr, hb⟩

/-! ### The whole of it -/

variable {L : Library} {mraw eraw : Bytes} {trust : Value} {expected : Text} {now : ℤ}
  {m : Manifest} {a : Anchor}

/-- `reconstruct`, without a candidate. -/
def verify (L : Library) (mraw eraw : Bytes) (trust : Value) (expected : Text) (now : ℤ)
    (rs : List Replica) : Except Error Report :=
  eval rs (reconstruct L mraw eraw trust expected now (rs.map Replica.path) none)

lemma verify_eq (ha : authenticate L mraw eraw trust expected now = .ok (m, a))
    (hn : 1 ≤ rs.length) (hn' : rs.length ≤ 16) :
    ∃ bad, verify L mraw eraw trust expected now rs = .ok
      { anchor := expected, node := m.node, generation := m.generation, pending := m.pending
        objects := m.objects.map fun i => (i.path, verdict rs i)
        complete := m.objects.all (verdict rs)
        bad } := by
  obtain ⟨bad, h⟩ := eval_objects rs m.objects
    { anchor := expected, node := m.node, generation := m.generation, pending := m.pending }
  refine ⟨bad, ?_⟩
  unfold verify reconstruct
  simp only [eval_bind, eval_raised, ha, List.length_map, require, hn, hn', and_self, if_true]
  simpa using h

/-- **Any replica may be bad.** A cohort is complete if and only if every chunk of every object is
held by some replica, and the chunks are the objects. Neither the verdict on an object nor that
on all of them depends on anything but which chunks are available: not on the order of the
replicas, and not on what else they hold. -/
theorem verify_any_replica (rs : List Replica)
    (ha : authenticate L mraw eraw trust expected now = .ok (m, a))
    (hn : 1 ≤ rs.length) (hn' : rs.length ≤ 16) (hcf : Sha256.CollisionFree (m.copies rs)) :
    ∃ r, verify L mraw eraw trust expected now rs = .ok r
      ∧ (r.complete = true ↔ ∀ i ∈ m.objects, Recoverable rs i)
      ∧ List.Forall₂ (fun i v => v.1 = i.path ∧ (v.2 = true ↔ Recoverable rs i))
          m.objects r.objects
      ∧ (∀ rs', rs'.Perm rs →
          ∃ r', verify L mraw eraw trust expected now rs' = .ok r'
            ∧ r'.complete = r.complete ∧ r'.objects = r.objects)
      ∧ ∀ rs', 1 ≤ rs'.length → rs'.length ≤ 16 →
          Sha256.CollisionFree (m.copies (rs ++ rs')) →
          (∀ i ∈ m.objects, ∀ c ∈ i.chunks.zipIdx,
            (Available rs c.1 (i.chunkSize c.2) ↔ Available rs' c.1 (i.chunkSize c.2))) →
          ∃ r', verify L mraw eraw trust expected now rs' = .ok r'
            ∧ r'.complete = r.complete ∧ r'.objects = r.objects := by
  obtain ⟨bad, hr⟩ := verify_eq ha hn hn'
  have hv : ∀ i ∈ m.objects, (verdict rs i = true ↔ Recoverable rs i) := fun i hi =>
    verdict_iff (collisionFree_of_subset hcf (copies_subset hi))
  have same : ∀ rs', 1 ≤ rs'.length → rs'.length ≤ 16 →
      Sha256.CollisionFree (m.copies (rs ++ rs')) →
      (∀ i ∈ m.objects, ∀ c ∈ i.chunks.zipIdx,
        (Available rs c.1 (i.chunkSize c.2) ↔ Available rs' c.1 (i.chunkSize c.2))) →
      ∃ r', verify L mraw eraw trust expected now rs' = .ok r'
        ∧ r'.complete = m.objects.all (verdict rs)
        ∧ r'.objects = m.objects.map fun i => (i.path, verdict rs i) := by
    intro rs' h1 h2 hcf' hav
    obtain ⟨bad', hr'⟩ := verify_eq ha h1 h2
    have he : ∀ i ∈ m.objects, verdict rs' i = verdict rs i := fun i hi =>
      verdict_eq (collisionFree_of_subset hcf' (copies_subset hi)) (hav i hi)
    refine ⟨_, hr', ?_, List.map_congr_left fun i hi => by rw [he i hi]⟩
    rw [Bool.eq_iff_iff, List.all_eq_true, List.all_eq_true]
    exact forall₂_congr fun i hi => by rw [he i hi]
  refine ⟨_, hr, ?_, ?_, ?_, same⟩
  · rw [List.all_eq_true]
    exact forall₂_congr hv
  · rw [List.forall₂_map_right_iff, List.forall₂_same]
    exact fun i hi => ⟨rfl, hv i hi⟩
  · intro rs' hp
    have hs : rs ++ rs' ⊆ rs := List.append_subset.mpr ⟨fun _ h => h, hp.subset⟩
    exact same rs' (hp.length_eq ▸ hn) (hp.length_eq ▸ hn')
      (collisionFree_of_subset hcf (manifestCopies_subset hs))
      fun i _ c _ => ⟨available_subset hp.symm.subset, available_subset hp.subset⟩

/-- A replica that holds `bs` under their digests. -/
def someReplica (name : String) (bs : List (Text × Bytes)) : Replica where
  path := [name.toList]
  files path :=
    match bs.find? fun x => objectPath x.1 = path with
    | none => { stat := .error "FileNotFoundError" }
    | some x => { size := x.2.length, content := x.2 }

/-- The first one has lost one chunk, and another one is damaged. -/
def someReplicas : List Replica :=
  [someReplica "r0" [(sha someCatalog, someJournal)],
    someReplica "r1" [(sha someCatalog, someCatalog), (sha someJournal, someJournal)]]

theorem verify_any_replica_someReplicas :
    ∃ r, verify someLibrary (ascii (render someManifest)) (ascii (render someEnvelope)) someTrust
        (sha (ascii (render someAnchor))) 200 someReplicas = .ok r
      ∧ (r.complete = true ↔ ∀ i ∈ someCohort.objects, Recoverable someReplicas i) := by
  obtain ⟨r, h1, h2, -⟩ := verify_any_replica someReplicas someCohort_authentic
    (by decide) (by decide) (by decide +kernel)
  exact ⟨r, h1, h2⟩

end NiayanAssurance.Recovery
