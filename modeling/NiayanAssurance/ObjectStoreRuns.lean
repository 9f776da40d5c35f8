import NiayanAssurance.ObjectStoreSteps

/-!
What each operation of the store leaves when it is done, whatever the other workers do
meanwhile, and what it does when no call of the system fails.
-/

namespace NiayanAssurance.ObjectStore

open NiayanAssurance.Lib NiayanAssurance.Types NiayanAssurance.FileSystem Program

variable {τ : Type} {S : Store} {t : τ} {k : Operation} {w : Writer} {works : Prop}
  {s s' : Files Path τ} {name : Identity} {i : ℕ} {n : Inode τ} {f : FileSystem.File}
  {φ ψ : Inode τ → Prop}

variable (S t k w works) in
/-- `Q` holds when `p` is done for owner `t`, as a part of the operation `k` with the writer
`w`. -/
abbrev Spec {α : Type} (p : Prog α) (Q : α → Files Path τ → Prop) (s : Files Path τ) : Prop :=
  p.Meets (act S.user t works) (contract S t k w) Q s

lemma spec_quiet {α : Type} {p : Prog α} {K : Files Path τ → Prop} (hp : p.Uses Quiet)
    (hk : ∀ s s', Keeps (· = t) s s' → K s → K s') (h0 : K s) :
    Spec S t k w works p (fun _ => K) s :=
  hp.meets (fun _ _ _ _ hc ha => act_quiet hc ha) (fun s _ => guar_refl s) hk h0

lemma spec_ask {c : Call Path} {Q : Answer c → Files Path τ → Prop} (hc : Quiet c)
    (h : ∀ s₁, Keeps (· = t) s s₁ → Inv S.user s₁ → ∀ r, act S.user t works c s₁ r s₁ → Q r s₁) :
    Spec S t k w works (Program.ask c) Q s := by
  refine meets_ask fun s₁ h1 hi r s₂ h2 => ?_
  obtain rfl := act_quiet hc h2
  exact ⟨guar_refl _, hi, h _ h1 hi r h2⟩

lemma spec_keep (c : Call Path) (hc : Quiet c) {K : Files Path τ → Prop}
    (hk : ∀ s s', Keeps (· = t) s s' → K s → K s') (h0 : K s) :
    Spec S t k w works (Program.ask c) (fun _ => K) s := spec_quiet (uses_ask hc) hk h0

/-! ### Operations that only look -/

/-- The file `i` is published, or the owner's own, and is `n`. -/
def Seen (t : τ) (i : ℕ) (n : Inode τ) (s : Files Path τ) : Prop :=
  ∃ p, s.link p = some i ∧ (Published p ∨ n.owner = t) ∧ s.inode i = n

lemma Seen.keeps (h : Seen t i n s) (hk : Keeps (· = t) s s') : Seen t i n s' := by
  obtain ⟨p, h1, h2, h3⟩ := h
  obtain ⟨h4, h5⟩ := hk p i h1 (h3 ▸ h2)
  exact ⟨p, h4, h2, h5.trans h3⟩

lemma Staged.seen (h : Staged t name i φ s) : Seen t i (s.inode i) s :=
  ⟨_, h.1, .inr h.2.1, rfl⟩

lemma statFd_spec (h : Seen t i n s) :
    Spec S t k w works (statFd i)
      (fun r _ => (r.2 = .ok → r.1 = n.info) ∧ (works → r.2 = .ok)) s := by
  refine Meets.bind (P := fun r _ => (∀ v, r = .ok v → v = n.info) ∧
    (∀ o, r = .error o → o ≠ .ok ∧ ¬ works)) (spec_ask trivial ?_) ?_
  · intro s₁ h1 _ r ha
    obtain ⟨-, -, -, h3⟩ := h.keeps h1
    rcases ha with ⟨rfl, -⟩ | ⟨hw, ⟨o, ho, rfl⟩, -⟩
    · refine ⟨fun v hv => ?_, by rintro _ ⟨⟩⟩
      rw [← Except.ok.inj hv, h3]
    · refine ⟨by rintro _ ⟨⟩, fun o' ho' => ?_⟩
      rw [← Except.error.inj ho']
      exact ⟨ho, hw⟩
  · rintro (o | v) s₁ ⟨h1, h2⟩
    · exact ⟨fun e => absurd e (h2 o rfl).1, fun e => absurd e (h2 o rfl).2⟩
    · exact ⟨fun _ => h1 v rfl, fun _ => rfl⟩

lemma info_spec (hf : f.handle = some i) (hp : f.poisoned = false) (h : Seen t i n s) :
    Spec S t k w works (info f)
      (fun r _ => (r.2 = .ok → r.1 = n.info) ∧ (works → r.2 = .ok)) s := by
  unfold info
  rw [hf]
  simp only [hp]
  exact statFd_spec h

/-- What was read, and what is left of the file after it. -/
lemma append_drop_length {b l : Bytes} {m : ℕ} (hb : b = l.take m) : b ++ l.drop b.length = l := by
  obtain ⟨r, hr⟩ := List.take_prefix m l
  rw [← hb] at hr
  rw [← hr, List.drop_left]

lemma append_take_drop {b l : Bytes} {m wanted : ℕ} (hm : m ≤ wanted) (hb : b = l.take m) :
    b ++ (l.drop b.length).take (wanted - b.length) = l.take wanted := by
  have hlen : b.length ≤ wanted := by
    rw [hb, List.length_take]
    omega
  conv_rhs => rw [← append_drop_length hb, List.take_append, List.take_of_length_le hlen]

lemma readLoop_spec (h : Seen t i n s) {fuel offset wanted : ℕ} (hw : wanted ≤ fuel) :
    Spec S t k w works (readLoop i fuel offset wanted)
      (fun r _ => (r.2 = .ok → r.1 = (n.data.drop offset).take wanted) ∧ (works → r.2 = .ok))
      s := by
  induction fuel generalizing offset wanted s with
  | zero =>
    obtain rfl : wanted = 0 := by omega
    exact ⟨fun _ => by simp, fun _ => rfl⟩
  | succ fuel ih =>
    unfold readLoop
    by_cases h0 : wanted = 0
    · rw [if_pos h0]
      exact ⟨fun _ => by simp [h0], fun _ => rfl⟩
    rw [if_neg h0]
    refine Meets.bind (P := fun r s => Seen t i n s ∧ (r = none → ¬ works) ∧ ∀ b, r = some b →
      ∃ m ≤ wanted, b = (n.data.drop offset).take m ∧
        (m = 0 → wanted = 0 ∨ n.data.length ≤ offset)) (spec_ask trivial ?_) ?_
    · intro s₁ h1 _ r ha
      have hs := h.keeps h1
      obtain ⟨-, -, -, h3⟩ := id hs
      rcases ha with ⟨m, hm, rfl, hm0, -⟩ | ⟨hw, rfl, -⟩
      · refine ⟨hs, by rintro ⟨⟩, fun b hb => ?_⟩
        cases hb
        exact ⟨m, hm, by rw [h3], h3 ▸ hm0⟩
      · exact ⟨hs, fun _ => hw, by rintro _ ⟨⟩⟩
    · rintro (_ | b) s₁ ⟨hs, h1, h2⟩
      · exact ⟨by rintro ⟨⟩, fun e => absurd e (h1 rfl)⟩
      obtain ⟨m, hm, hb, hm0⟩ := h2 b rfl
      have hlen : b.length ≤ wanted := by
        rw [hb, List.length_take]
        omega
      dsimp only
      by_cases hnil : b = []
      · rw [if_pos hnil]
        refine ⟨fun _ => ?_, fun _ => rfl⟩
        have : n.data.length ≤ offset := by
          by_contra hlt
          have h4 := congrArg List.length (hnil.symm.trans hb)
          simp only [List.length_nil, List.length_take, List.length_drop] at h4
          have := hm0 (by omega)
          omega
        simp [List.drop_eq_nil_of_le this]
      · have hpos : 0 < b.length := List.length_pos_iff.mpr hnil
        rw [if_neg hnil, if_neg (by omega)]
        refine (ih hs (by omega)).bind fun r s₂ h5 => ?_
        obtain ⟨h5, h6⟩ := h5
        refine ⟨fun e => ?_, h6⟩
        rw [h5 e, ← List.drop_drop]
        exact append_take_drop hm hb

lemma readAt_spec (hf : f.handle = some i) (hp : f.poisoned = false) (h : Seen t i n s)
    (offset wanted : ℕ) :
    Spec S t k w works (readAt f offset wanted)
      (fun r _ => (r.2 = .ok → r.1 = (n.data.drop offset).take wanted) ∧ (works → r.2 = .ok))
      s := by
  unfold readAt
  rw [hf]
  simp only [hp]
  exact readLoop_spec h le_rfl

lemma hashLoop_spec (hf : f.handle = some i) (hp : f.poisoned = false) (h : Seen t i n s)
    {limit fuel offset : ℕ} {c : Sha256.Context} (hl : n.data.length ≤ limit)
    (ho : offset ≤ n.data.length) (hn : n.data.length - offset < fuel) :
    Spec S t k w works (hashLoop f limit fuel c offset)
      (fun r _ => works →
        r = ((Sha256.update c (n.data.drop offset), n.data.length), .ok)) s := by
  induction fuel generalizing offset c s with
  | zero => omega
  | succ fuel ih =>
    refine ((readAt_spec hf hp h offset 65536).and
      (spec_quiet (readAt_quiet _ _ _) (fun _ _ hk hs => Seen.keeps hs hk) h)).bind ?_
    rintro ⟨b, status⟩ s₁ ⟨⟨h1, h2⟩, hs⟩
    dsimp only at h1 h2 ⊢
    split_ifs with h3 h4 h5
    · exact fun e => absurd (h2 e) h3
    · intro _
      have := congrArg List.length ((h1 (not_not.mp h3)).symm.trans h4)
      simp only [List.length_nil, List.length_take, List.length_drop] at this
      obtain rfl : offset = n.data.length := by omega
      simp [Sha256.update]
    · have := congrArg List.length (h1 (not_not.mp h3))
      simp only [List.length_take, List.length_drop] at this
      omega
    · have hb := h1 (not_not.mp h3)
      have hlen := congrArg List.length hb
      simp only [List.length_take, List.length_drop] at hlen
      have hpos : 0 < b.length := List.length_pos_iff.mpr h4
      refine (ih hs (by omega) (by omega)).mono fun r s₂ h6 hw => ?_
      rw [h6 hw]
      have h7 : b ++ n.data.drop (offset + b.length) = n.data.drop offset := by
        rw [← List.drop_drop]
        exact append_drop_length hb
      rw [← h7]
      simp [Sha256.update, List.foldl_append]

lemma hash_spec (hf : f.handle = some i) (hp : f.poisoned = false) (h : Seen t i n s)
    {limit : ℕ} (hl : n.data.length ≤ limit) :
    Spec S t k w works (hash f limit)
      (fun r _ => works → r = ((Sha256.hash n.data, n.data.length), .ok)) s := by
  refine ((info_spec hf hp h).and
    (spec_quiet (info_quiet _) (fun _ _ hk hs => Seen.keeps hs hk) h)).bind ?_
  rintro ⟨v, status⟩ s₁ ⟨⟨h1, h2⟩, hs⟩
  dsimp only at h1 h2 ⊢
  split_ifs with h3 h4
  · exact fun e => absurd (h2 e) h3
  · rw [h1 (not_not.mp h3)] at h4
    rcases h4 with h4 | h4
    · exact absurd rfl h4
    · exact absurd hl (not_le.mpr h4)
  refine ((hashLoop_spec hf hp hs hl (Nat.zero_le _) (by omega)).and
    (spec_quiet (hashLoop_quiet _ _ _ _ _) (fun _ _ hk hs => Seen.keeps hs hk) hs)).bind ?_
  rintro ⟨⟨c, offset⟩, status'⟩ s₂ ⟨h5, hs⟩
  dsimp only at h5 ⊢
  split_ifs with h6
  · exact fun e => absurd (congrArg Prod.snd (h5 e)) h6
  refine (info_spec hf hp hs).bind ?_
  rintro ⟨v', status''⟩ s₃ ⟨h7, h8⟩
  dsimp only at h7 h8 ⊢
  split_ifs with h9 h10
  · exact fun e => absurd (h8 e) h9
  · intro e
    cases h5 e
    rw [h1 (not_not.mp h3), h7 (not_not.mp h9)] at h10
    simp [Inode.info] at h10
  · intro e
    cases h5 e
    unfold Sha256.hash
    rfl

/-! ### What is published -/

/-- The file that `p` leads to, once published, is there for good. -/
lemma keeps_linked {who : τ → Prop} {p : Path} (hp : Published p) (hk : Keeps who s s')
    (h : s.link p = some i) : s'.link p = some i := (hk p i h (.inl hp)).1

lemma keeps_visible {who : τ → Prop} {p : Path} (hp : Published p) (hk : Keeps who s s')
    (h : (s.link p).isSome) : (s'.link p).isSome := by
  obtain ⟨i, hi⟩ := Option.isSome_iff_exists.mp h
  rw [keeps_linked hp hk hi]
  rfl

lemma keeps_bytesAt {who : τ → Prop} {p : Path} (hp : Published p) (hk : Keeps who s s')
    {x : Bytes} (h : s.bytesAt p = some x) : s'.bytesAt p = some x := by
  unfold Files.bytesAt at h ⊢
  obtain ⟨i, hi, hx⟩ := Option.map_eq_some_iff.mp h
  obtain ⟨h1, h2⟩ := hk p i hi (.inl hp)
  rw [h1, Option.map_some, h2, hx]

lemma Inv.links {u : User} (h : Inv u s) {p : Path} (hp : p.Final) (hl : s.link p = some i) :
    (s.inode i).links = 1 := by
  cases p with
  | object d => exact (h.object d i hl).2.links
  | pin id => exact (h.pin id i hl).1
  | incoming name => exact hp.elim
  | shard b => exact hp.elim

lemma openRead_quiet (p : Path) (f : FileSystem.File) : (openRead p f).Uses Quiet := by
  unfold openRead
  split_ifs
  · trivial
  refine .bind (uses_ask trivial) fun r => ?_
  cases r with
  | none => trivial
  | some i =>
    refine .bind (statFd_quiet i) fun v => ?_
    dsimp only
    split_ifs <;> trivial

/-- An object or a pin is opened if it is there. -/
lemma openRead_spec {p : Path} (hp : p.Final) :
    Spec S t k w works (openRead p {}) (fun r s' =>
      (r.2 = .ok → ∃ j, r.1 = { handle := some j } ∧ s'.link p = some j) ∧
      (works → (s.link p).isSome → r.2 = .ok)) s := by
  unfold openRead
  simp only [Option.isSome_none, Bool.false_eq_true, if_false]
  have hpub := hp.published
  refine Meets.bind (P := fun r s' => (∀ j, r = some j → s'.link p = some j ∧
    Seen t j (s'.inode j) s' ∧ (s'.inode j).links = 1) ∧
    (works → (s.link p).isSome → r ≠ none)) (spec_ask trivial ?_) ?_
  · intro s₁ h1 hi r ha
    rcases ha with ⟨rfl, -⟩ | ⟨hw, rfl, -⟩
    · refine ⟨fun j hj => ⟨hj, ⟨p, hj, .inl hpub, rfl⟩, hi.links hp hj⟩, fun _ hv => ?_⟩
      obtain ⟨j, hj⟩ := Option.isSome_iff_exists.mp hv
      rw [keeps_linked hpub h1 hj]
      rintro ⟨⟩
    · exact ⟨by rintro _ ⟨⟩, fun e => absurd e hw⟩
  · rintro (_ | j) s₁ ⟨h1, h2⟩
    · exact ⟨by rintro ⟨⟩, fun e hv => absurd rfl (h2 e hv)⟩
    obtain ⟨hj, hs, hl⟩ := h1 j rfl
    refine ((statFd_spec hs).and (spec_quiet (statFd_quiet j)
      (fun _ _ hk h => keeps_linked hpub hk h) hj)).bind ?_
    rintro ⟨v, status⟩ s₂ ⟨⟨h3, h4⟩, h5⟩
    dsimp only at h3 h4 ⊢
    have hst : (if status = .ok ∧ (v.kind ≠ .regular ∧ v.kind ≠ .directory ∨
        v.kind = .regular ∧ v.links ≠ 1) then .unsupported else status) = status := by
      refine if_neg fun h => ?_
      have hv := h.2
      rw [h3 h.1] at hv
      simp [Inode.info, hl] at hv
    simp only [hst]
    split_ifs with e
    · exact ⟨fun _ => ⟨j, rfl, h5⟩, fun _ _ => e⟩
    · exact ⟨fun h => absurd h e, fun hw => absurd (h4 hw) e⟩

/-- `Check_Pin` of a pin whose bytes are `x`. -/
lemma checkPin_spec {id : Identity} {d : Digest} (hn : Seen t i n s)
    (h : s.link (.pin id) = some i) (hlen : n.data.length = 32) :
    Spec S t k w works (checkPin id d) (fun o _ => (o = .ok → n.data = d.bytes) ∧
      (works → n.data ≠ d.bytes → o = .conflict)) s := by
  unfold checkPin
  refine ((openRead_spec (p := .pin id) trivial).and (spec_quiet (openRead_quiet _ _)
    (fun _ _ hk (h : Seen t i n _ ∧ _) =>
      ⟨h.1.keeps hk, keeps_linked (published_pin id) hk h.2⟩) ⟨hn, h⟩)).bind ?_
  rintro ⟨f, status⟩ s₁ ⟨⟨h1, h2⟩, hs, hl⟩
  dsimp only at h1 h2 ⊢
  unfold whenOk
  split_ifs with e
  · obtain ⟨j, rfl, hj⟩ := h1 e
    obtain rfl := Option.some.inj (hj.symm.trans hl)
    refine (readAt_spec rfl rfl hs 0 33).bind ?_
    rintro ⟨b, status'⟩ s₂ ⟨h3, h4⟩
    dsimp only at h3 h4 ⊢
    have hb : status' = .ok → b = n.data := by
      intro e'
      rw [h3 e', List.drop_zero, List.take_of_length_le (by omega)]
    split_ifs with h5
    · exact ⟨by rintro ⟨⟩, fun _ _ => rfl⟩
    · refine ⟨fun e' => ?_, fun hw hx => ?_⟩
      · rw [← hb e']
        exact not_not.mp fun hx => h5 ⟨e', hx⟩
      · exact absurd ⟨h4 hw, fun hx' => hx ((hb (h4 hw)).symm.trans hx')⟩ h5
  · rw [pure_bind, if_neg (fun h => e h.1)]
    exact ⟨fun h => absurd h e, fun hw _ => absurd (h2 hw (by rw [h]; rfl)) e⟩

lemma checkPin_quiet (id : Identity) (d : Digest) : (checkPin id d).Uses Quiet :=
  .bind (openRead_quiet _ _) fun _ => .bind (whenOk_quiet (readAt_quiet _ _ _)) fun _ => trivial

/-- `Open_Object` is done only if the object is there; if it is there, that is all it needs. -/
lemma openObject_spec (hi : Inv S.user s) (d : Digest) :
    Spec S t k w works (openObject S d {}) (fun r s' =>
      (r.2 = .ok → (s'.link (.object d)).isSome) ∧
      (works → S.opened = true → d ≠ zeroDigest → (s.link (.object d)).isSome → r.2 = .ok)) s := by
  have hpub := published_object d
  unfold openObject
  split_ifs with h0
  · refine ⟨by rintro ⟨⟩, fun _ ho hd => ?_⟩
    simp [ho, hd] at h0
  refine ((openRead_spec (p := .object d) trivial).inv hi).bind ?_
  rintro ⟨f, status⟩ s₁ ⟨⟨h1, h2⟩, hi₁⟩
  dsimp only at h1 h2 ⊢
  split_ifs with h3
  · exact ⟨fun e => absurd e h3, fun hw _ _ hv => absurd (h2 hw hv) h3⟩
  obtain ⟨j, rfl, hj⟩ := h1 (not_not.mp h3)
  obtain ⟨hd, hs⟩ := hi₁.object d j hj
  have seen : Seen t j (s₁.inode j) s₁ := ⟨_, hj, .inl hpub, rfl⟩
  generalize hn : s₁.inode j = n at hd hs seen
  have kept : ∀ s s', Keeps (· = t) s s' → Seen t j n s ∧ s.link (.object d) = some j →
      Seen t j n s' ∧ s'.link (.object d) = some j := fun _ _ hk h =>
    ⟨h.1.keeps hk, keeps_linked hpub hk h.2⟩
  refine ((info_spec rfl rfl seen).and (spec_quiet (info_quiet _) kept ⟨seen, hj⟩)).bind ?_
  rintro ⟨v, status⟩ s₂ ⟨⟨h4, h5⟩, h6⟩
  dsimp only at h4 h5 ⊢
  have hst : (if status = .ok ∧ (v.mode ≠ 0o400 ∨ v.uid ≠ S.user.uid) then .denied
      else status) = status := by
    refine if_neg fun h => ?_
    have hv := h.2
    rw [h4 h.1] at hv
    simp [Inode.info, hs.mode, hs.uid] at hv
  simp only [hst]
  refine Meets.bind (P := fun r s => (Seen t j n s ∧ s.link (.object d) = some j) ∧
    (works → r.2 = .ok) ∧ (r.2 = .ok → status = .ok) ∧
    (works → r = ((Sha256.hash n.data, n.data.length), .ok))) ?_ ?_
  · unfold whenOk
    split_ifs with e
    · refine ((hash_spec rfl rfl h6.1 hs.size).and (spec_quiet (hash_quiet _ _) kept h6)).mono ?_
      rintro r _ ⟨h7, h8⟩
      exact ⟨h8, fun hw => by rw [h7 hw], fun _ => e, h7⟩
    · exact ⟨h6, fun hw => absurd (h5 hw) e, fun h => absurd h e, fun hw => absurd (h5 hw) e⟩
  rintro ⟨⟨found, size⟩, status'⟩ s₃ ⟨h7, h8, h9, h10⟩
  dsimp only at h8 h9 h10 ⊢
  refine Meets.bind (P := fun r s => s.link (.object d) = some j ∧ (works → r = (n.info, .ok)))
    ?_ ?_
  · unfold whenOk
    split_ifs with e
    · refine ((info_spec rfl rfl h7.1).and (spec_quiet (info_quiet _) kept h7)).mono ?_
      rintro r _ ⟨h11, h12⟩
      exact ⟨h12.2, fun hw => Prod.ext (h11.1 (h11.2 hw)) (h11.2 hw)⟩
    · exact ⟨h7.2, fun hw => absurd (h8 hw) e⟩
  rintro ⟨after, status''⟩ s₄ ⟨h11, h12⟩
  refine ⟨fun _ => by rw [h11]; rfl, fun hw _ _ _ => ?_⟩
  have hv : v = n.info := h4 (h5 hw)
  cases h12 hw
  cases h10 hw
  simp [hd, hv]

/-! ### What is staged -/

/-- A new staged file, as `Create_New` leaves it. -/
structure Empty (u : User) (n : Inode τ) : Prop where
  data : n.data = []
  links : n.links = 1
  mode : n.mode = 0o600
  uid : n.uid = u.uid

/-- A file that can be written. -/
structure Writable (f : FileSystem.File) (i : ℕ) : Prop where
  handle : f.handle = some i
  writable : f.writable = true
  poisoned : f.poisoned = false

lemma spec_parent (p : Path) :
    Spec S t k w works (Program.ask (Call.parent p)) (fun o _ =>
      (works → o = .ok) ∧ o ≠ .conflict) s := by
  refine spec_ask trivial fun s₁ _ _ r ha => ?_
  rcases ha with ⟨rfl, -⟩ | ⟨hf, -, hc, -⟩
  · exact ⟨fun _ => rfl, by rintro ⟨⟩⟩
  · exact ⟨fun hw => absurd hw hf, hc⟩

lemma spec_fsyncParent (p : Path) :
    Spec S t k w works (Program.ask (Call.fsyncParent p)) (fun o _ => works → o = true) s := by
  refine spec_ask trivial fun s₁ _ _ r ha hw => ?_
  rcases ha with ⟨rfl, -⟩ | ⟨hf, -⟩
  · rfl
  · exact absurd hw hf

lemma spec_openNew (name : Identity) :
    Spec S t k w works (Program.ask (Call.openNew (.incoming name))) (fun r s =>
      (∀ i, r = Made.made i → Staged t name i (Empty S.user) s) ∧
      (works → r ≠ Made.failed)) s := by
  refine meets_ask fun s₁ _ hi r s₂ ha => ?_
  rcases ha with ha | ⟨hf, rfl, rfl⟩
  · dsimp only [Answers] at ha
    cases hl : s₁.link (.incoming name) with
    | some j =>
      rw [hl] at ha
      obtain ⟨rfl, rfl⟩ := ha
      exact ⟨guar_refl _, hi, by rintro _ ⟨⟩, fun _ => by rintro ⟨⟩⟩
    | none =>
      rw [hl] at ha
      obtain ⟨rfl, stamp, rfl⟩ := ha
      obtain ⟨hg, hi', hs⟩ := guar_create (S := S) (k := k) (w := w) (t := t)
        (n := ⟨[], 0o600, S.user.uid, S.user.gid, 1, stamp, false, t⟩) (ψ := Empty S.user)
        hi hl rfl ⟨rfl, rfl, rfl, rfl⟩
      refine ⟨hg, hi', fun i e => ?_, fun _ => by rintro ⟨⟩⟩
      cases e
      exact hs
  · exact ⟨guar_refl _, hi, by rintro _ ⟨⟩, fun hw => absurd hw hf⟩

lemma createNew_spec (hf : f.handle = none) :
    Spec S t k w works (createNew S.user (.incoming name) f) (fun r s =>
      (r.2 = .ok → ∃ i, Writable r.1 i ∧ Staged t name i (Empty S.user) s) ∧
      (r.2 ≠ .ok → r.1 = f) ∧ (works → r.2 = .ok ∨ r.2 = .conflict)) s := by
  unfold createNew
  simp only [hf, Option.isSome_none, Bool.false_eq_true, if_false]
  refine (spec_parent _).bind fun o s₁ h1 => ?_
  split_ifs with e
  · exact ⟨fun h => absurd h e, fun _ => rfl, fun hw => absurd (h1.1 hw) e⟩
  refine (spec_openNew name).bind ?_
  rintro (i | _ | _) s₂ ⟨h2, h3⟩
  · refine ((statFd_spec (h2 i rfl).seen).and (spec_quiet (statFd_quiet i)
      (fun _ _ hk (h : Staged t name i (fun n => n = s₂.inode i ∧ Empty S.user n) _) =>
        h.keeps hk) ⟨(h2 i rfl).1, (h2 i rfl).2.1, rfl, (h2 i rfl).2.2⟩)).bind ?_
    rintro ⟨v, status⟩ s₃ ⟨⟨h4, h5⟩, h6⟩
    dsimp only at h4 h5
    have hst : (if status = .ok ∧ (v.kind ≠ .regular ∨ v.uid ≠ S.user.uid ∨ v.links ≠ 1 ∨
        v.mode ≠ 0o600) then .denied else status) = status := by
      refine if_neg fun h => ?_
      have hv := h.2
      rw [h4 h.1, ← h6.2.2.1] at hv
      have hn := h6.2.2.2
      simp [Inode.info, hn.uid, hn.links, hn.mode] at hv
    simp only [hst]
    have h7 : Staged t name i (Empty S.user) s₃ := h6.imp fun _ h => h.2
    refine Meets.bind (P := fun r s => Staged t name i (Empty S.user) s ∧ (works → r.2 = .ok))
      ?_ ?_
    · unfold whenOk
      split_ifs with e'
      · refine ((spec_fsyncParent _).and (spec_keep (.fsyncParent _) trivial
          (fun _ _ hk h => Staged.keeps h hk) h7)).bind fun b s₄ h8 => ?_
        exact ⟨h8.2, fun hw => by rw [h8.1 hw]; rfl⟩
      · exact ⟨h7, fun hw => absurd (h5 hw) e'⟩
    · rintro ⟨_, status'⟩ s₄ ⟨h8, h9⟩
      dsimp only at h9 ⊢
      split_ifs with e'
      · exact ⟨fun h => absurd h e', fun _ => rfl, fun hw => absurd (h9 hw) e'⟩
      · exact ⟨fun _ => ⟨i, ⟨rfl, rfl, rfl⟩, h8⟩, fun h => absurd h e',
          fun _ => .inl (not_not.mp e')⟩
  · exact ⟨by rintro ⟨⟩, fun _ => rfl, fun _ => .inr rfl⟩
  · exact ⟨by rintro ⟨⟩, fun _ => rfl, fun hw => absurd rfl (h3 hw)⟩

lemma beginObject_spec (hf : f.handle = none) :
    Spec S t k w works (beginObject S f) (fun r s =>
      (r.2 = .ok → ∃ i, Writable r.1.1 i ∧ Staged t r.1.2 i (Empty S.user) s) ∧
      (r.2 ≠ .ok → r.1.1 = f) ∧
      (works → S.opened = true → r.2 = .ok ∨ r.2 = .conflict)) s := by
  unfold beginObject
  split_ifs with h0
  · exact ⟨by rintro ⟨⟩, fun _ => rfl, fun _ ho => by simp [ho] at h0⟩
  refine Meets.bind (P := fun _ _ => True) (spec_ask trivial fun _ _ _ _ _ => trivial) ?_
  intro name s₁ _
  refine (createNew_spec hf).bind ?_
  rintro ⟨f', status⟩ s₂ ⟨h1, h2, h3⟩
  exact ⟨h1, h2, fun hw _ => h3 hw⟩

lemma spec_write {x data : Bytes} (h : Staged t name i (fun n => n.links = 1 ∧ n.data = x) s) :
    Spec S t k w works (Program.ask (Call.write i data)) (fun r s =>
      (∃ y, Staged t name i (fun n => n.links = 1 ∧ n.data = y) s) ∧
      (∀ m, r = some m → 0 < m → m ≤ data.length →
        Staged t name i (fun n => n.links = 1 ∧ n.data = x ++ data.take m) s) ∧
      (works → ∃ m, r = some m ∧ 0 < m ∧ m ≤ data.length)) s := by
  refine meets_ask fun s₁ h1 hi r s₂ ha => ?_
  have hs := h.keeps h1
  obtain ⟨-, ho, hl, hx⟩ := id hs
  have key : ∀ m stamp, Guar t k w s₁ (s₁.change i { s₁.inode i with
        data := (s₁.inode i).data ++ data.take m, stamp := stamp, synced := false }) ∧
      Inv S.user (s₁.change i { s₁.inode i with
        data := (s₁.inode i).data ++ data.take m, stamp := stamp, synced := false }) ∧
      Staged t name i (fun n => n.links = 1 ∧ n.data = x ++ data.take m)
        (s₁.change i { s₁.inode i with
          data := (s₁.inode i).data ++ data.take m, stamp := stamp, synced := false }) :=
    fun m stamp => ⟨(guar_change hi hs _).1, (guar_change (k := k) (w := w) hi hs _).2,
      staged_change hs ho ⟨hl, by rw [hx]⟩⟩
  rcases ha with ⟨m, stamp, rfl, hm, hle, rfl⟩ | ⟨hf, hr, m, stamp, rfl⟩
  · obtain ⟨hg, hi', hst⟩ := key m stamp
    refine ⟨hg, hi', ⟨_, hst⟩, fun m' e _ _ => ?_, fun _ => ⟨m, rfl, hm, hle⟩⟩
    cases e
    exact hst
  · obtain ⟨hg, hi', hst⟩ := key m stamp
    refine ⟨hg, hi', ⟨_, hst⟩, fun m' e h1 h2 => ?_, fun hw => absurd hw hf⟩
    rcases hr m' e with h3 | h3 <;> omega

/-- What `Write_All` leaves of a file that can be written. -/
def Written (t : τ) (name : Identity) (f : FileSystem.File) (i : ℕ) (x data : Bytes)
    (r : FileSystem.File × Outcome) (s : Files Path τ) : Prop :=
  (r.2 = .ok → r.1 = f ∧ Staged t name i (fun n => n.links = 1 ∧ n.data = x ++ data) s) ∧
  (r.2 ≠ .ok → r.1 = { f with poisoned := true } ∧ data ≠ [] ∧
    ∃ y, Staged t name i (fun n => n.links = 1 ∧ n.data = y) s)

lemma writeLoop_spec {x data : Bytes} {fuel : ℕ} (hn : data.length ≤ fuel)
    (h : Staged t name i (fun n => n.links = 1 ∧ n.data = x) s) :
    Spec S t k w works (writeLoop f i fuel data) (fun r s =>
      Written t name f i x data r s ∧ (works → r.2 = .ok)) s := by
  induction fuel generalizing x data s with
  | zero =>
    obtain rfl : data = [] := List.length_eq_zero_iff.mp (by omega)
    exact ⟨⟨fun _ => ⟨rfl, by simpa using h⟩, fun e => absurd rfl e⟩, fun _ => rfl⟩
  | succ fuel ih =>
    unfold writeLoop
    split_ifs with h0
    · subst h0
      exact ⟨⟨fun _ => ⟨rfl, by simpa using h⟩, fun e => absurd rfl e⟩, fun _ => rfl⟩
    refine (spec_write h).bind ?_
    rintro (_ | m) s₁ ⟨h1, h2, h3⟩
    · refine ⟨⟨by rintro ⟨⟩, fun _ => ⟨rfl, h0, h1⟩⟩, fun hw => ?_⟩
      obtain ⟨m, hm, -⟩ := h3 hw
      cases hm
    dsimp only
    split_ifs with h4
    · refine ⟨⟨by rintro ⟨⟩, fun _ => ⟨rfl, h0, h1⟩⟩, fun hw => ?_⟩
      obtain ⟨m', e, h5, h6⟩ := h3 hw
      cases e
      omega
    · have hst := h2 m rfl (by omega) (by omega)
      refine (ih (by rw [List.length_drop]; omega) hst).mono ?_
      rintro r s₂ ⟨⟨h5, h6⟩, h7⟩
      refine ⟨⟨fun e => ?_, fun e => ⟨(h6 e).1, h0, (h6 e).2.2⟩⟩, h7⟩
      obtain ⟨h8, h9⟩ := h5 e
      exact ⟨h8, by simpa using h9⟩

lemma writeAll_spec {x : Bytes} (hf : Writable f i)
    (h : Staged t name i (fun n => n.links = 1 ∧ n.data = x) s) (data : Bytes) :
    Spec S t k w works (writeAll f data) (fun r s =>
      Written t name f i x data r s ∧ (works → r.2 = .ok)) s := by
  unfold writeAll
  rw [hf.handle]
  simp only [hf.writable, hf.poisoned]
  exact writeLoop_spec le_rfl h

/-- The rule for a call that changes a staged file as a whole, or fails and changes nothing. -/
lemma spec_touch {c : Call Path} {p : Answer c → Prop} {g : ℕ → Inode τ → Inode τ}
    (hc : ∀ s r s', act S.user t works c s r s' →
      (p r ∧ ∃ stamp, s' = s.change i (g stamp (s.inode i))) ∨ (¬ p r ∧ ¬ works ∧ s' = s))
    (ho : ∀ stamp n, (g stamp n).owner = n.owner) (hg : ∀ stamp n, φ n → ψ (g stamp n))
    (h : Staged t name i φ s) :
    Spec S t k w works (Program.ask c) (fun r s => (p r → Staged t name i ψ s) ∧
      (¬ p r → ¬ works ∧ Staged t name i φ s)) s := by
  refine meets_ask fun s₁ h1 hi r s₂ ha => ?_
  have hs := h.keeps h1
  rcases hc _ _ _ ha with ⟨hr, stamp, rfl⟩ | ⟨hr, hw, rfl⟩
  · obtain ⟨hg', hi'⟩ := guar_change (k := k) (w := w) hi hs (g stamp (s₁.inode i))
    exact ⟨hg', hi', fun _ => staged_change hs ((ho _ _).trans hs.2.1) (hg _ _ hs.2.2),
      fun h => absurd hr h⟩
  · exact ⟨guar_refl _, hi, fun h => absurd h hr, fun _ => ⟨hw, hs⟩⟩

lemma sync_spec (hf : f.handle = some i) (hφ : ∀ n, φ n → φ { n with synced := true })
    (h : Staged t name i φ s) :
    Spec S t k w works (sync f) (fun o s =>
      (o = .ok → Staged t name i (fun n => φ n ∧ n.synced = true) s) ∧
      (works → f.poisoned = false → o = .ok)) s := by
  unfold sync
  rw [hf]
  dsimp only
  split_ifs with h0
  · exact ⟨by rintro ⟨⟩, fun _ e => absurd (h0.symm.trans e) (by rintro ⟨⟩)⟩
  refine (spec_touch (c := .fsync i) (p := fun r => r = true)
    (g := fun _ n => { n with synced := true }) (ψ := fun n => φ n ∧ n.synced = true)
    ?_ (fun _ _ => rfl) (fun _ n hn => ⟨hφ n hn, rfl⟩) h).bind ?_
  · rintro s r s' (⟨rfl, rfl⟩ | ⟨hw, rfl, rfl⟩)
    · exact .inl ⟨rfl, 0, rfl⟩
    · exact .inr ⟨by rintro ⟨⟩, hw, rfl⟩
  · rintro (_ | _) s₁ ⟨h1, h2⟩
    · exact ⟨by rintro ⟨⟩, fun hw => absurd hw (h2 (by rintro ⟨⟩)).1⟩
    · exact ⟨fun _ => h1 rfl, fun _ _ => rfl⟩

/-- A staged file of the bytes `x` whose attributes are set, and which is durable. -/
structure Finished (u : User) (mode : ℕ) (x : Bytes) (n : Inode τ) : Prop where
  data : n.data = x
  links : n.links = 1
  mode : n.mode = mode
  uid : n.uid = u.uid
  synced : n.synced = true

lemma setMetadata_spec (hf : f.handle = some i) {v : Info} {x : Bytes} (hv : v.uid = S.user.uid)
    (h : Staged t name i (fun n => n.links = 1 ∧ n.data = x) s) :
    Spec S t k w works (setMetadata f v) (fun o s =>
      o = .ok → Staged t name i (Finished S.user v.mode x) s) s := by
  unfold setMetadata
  rw [hf]
  dsimp only
  split
  · rintro ⟨⟩
  refine (spec_touch (c := .fchown i v.uid v.gid) (p := fun r => r = true)
    (g := fun stamp n => { n with uid := v.uid, gid := v.gid, stamp := stamp })
    (ψ := fun n => n.links = 1 ∧ n.data = x ∧ n.uid = S.user.uid) ?_ (fun _ _ => rfl)
    (fun _ n hn => ⟨hn.1, hn.2, hv⟩) h).bind ?_
  · rintro s r s' (⟨rfl, stamp, rfl⟩ | ⟨hw, rfl, rfl⟩)
    · exact .inl ⟨rfl, stamp, rfl⟩
    · exact .inr ⟨by rintro ⟨⟩, hw, rfl⟩
  rintro (_ | _) s₁ ⟨h1, -⟩
  · rintro ⟨⟩
  refine (spec_touch (c := .fchmod i v.mode) (p := fun r => r = true)
    (g := fun stamp n => { n with mode := v.mode, stamp := stamp })
    (ψ := fun n => n.links = 1 ∧ n.data = x ∧ n.uid = S.user.uid ∧ n.mode = v.mode) ?_
    (fun _ _ => rfl) (fun _ n hn => ⟨hn.1, hn.2.1, hn.2.2, rfl⟩) (h1 rfl)).bind ?_
  · rintro s r s' (⟨rfl, stamp, rfl⟩ | ⟨hw, rfl, rfl⟩)
    · exact .inl ⟨rfl, stamp, rfl⟩
    · exact .inr ⟨by rintro ⟨⟩, hw, rfl⟩
  rintro (_ | _) s₂ ⟨h2, -⟩
  · rintro ⟨⟩
  have h3 := h2 rfl
  have last : ∀ {s₃ : Files Path τ}, Staged t name i (fun n => n.links = 1 ∧ n.data = x ∧
      n.uid = S.user.uid ∧ n.mode = v.mode) s₃ → Spec S t k w works (sync f) (fun o s =>
        o = .ok → Staged t name i (Finished S.user v.mode x) s) s₃ := by
    intro s₃ h4
    refine (sync_spec hf (fun n hn => hn) h4).mono fun o s₄ h5 e => (h5.1 e).imp ?_
    exact fun n ⟨⟨h6, h7, h8, h9⟩, h10⟩ => ⟨h7, h6, h9, h8, h10⟩
  simp only [Bool.not_true, Bool.false_eq_true, if_false]
  split
  · refine (spec_touch (c := .futimens i) (p := fun r => r = true)
      (g := fun stamp n => { n with stamp := stamp })
      (ψ := fun n => n.links = 1 ∧ n.data = x ∧ n.uid = S.user.uid ∧ n.mode = v.mode) ?_
      (fun _ _ => rfl) (fun _ n hn => hn) h3).bind ?_
    · rintro s r s' (⟨rfl, stamp, rfl⟩ | ⟨hw, rfl, rfl⟩)
      · exact .inl ⟨rfl, stamp, rfl⟩
      · exact .inr ⟨by rintro ⟨⟩, hw, rfl⟩
    · rintro (_ | _) s₃ ⟨h4, -⟩
      · rintro ⟨⟩
      · exact last (h4 rfl)
  · exact last h3

lemma needDirectory_quiet (p : Path) : (needDirectory S p).Uses Quiet := by
  refine .bind (stat_quiet p) fun r => ?_
  dsimp only
  split_ifs
  · trivial
  · exact makeDirectory_quiet p
  · trivial
  · trivial

/-- `q` leads to a file of which `φ` holds. -/
def Leads (q : Path) (φ : Inode τ → Prop) (s : Files Path τ) : Prop :=
  ∃ j, s.link q = some j ∧ φ (s.inode j)

lemma Leads.keeps {who : τ → Prop} {q : Path} (h : Leads q φ s) (hq : Published q)
    (hk : Keeps who s s') : Leads q φ s' := by
  obtain ⟨j, h1, h2⟩ := h
  obtain ⟨h3, h4⟩ := hk q j h1 (.inl hq)
  exact ⟨j, h3, h4 ▸ h2⟩

lemma Leads.visible {q : Path} (h : Leads q φ s) : (s.link q).isSome := by
  obtain ⟨j, h1, -⟩ := h
  rw [h1]
  rfl

lemma spec_rename {q : Path} (hq : q.Final)
    (hp : ∀ s', Keeps (· = t) s s' → ∀ n, φ n → Publishable S.user k w q s' n)
    (h : Staged t name i φ s) :
    Spec S t k w works (Program.ask (Call.renameNew (.incoming name) q)) (fun r s' =>
      (r = .done → Leads q φ s') ∧ (r = .refused → (s'.link q).isSome ∧ Staged t name i φ s') ∧
      (works → (s.link q).isSome → r = .refused)) s := by
  refine meets_ask fun s₁ h1 hi r s₂ ha => ?_
  have hs := h.keeps h1
  have moved : s₁.link q = none → Guar t k w s₁ (s₁.move (.incoming name) q) ∧
      Inv S.user (s₁.move (.incoming name) q) ∧ Leads q φ (s₁.move (.incoming name) q) := by
    intro hn
    have hpub := hp s₁ h1 _ hs.2.2
    exact ⟨guar_move hs hn hpub, inv_move hi hs hn hpub, i, move_self hs hn, hs.2.2⟩
  rcases ha with ⟨-, ha⟩ | ⟨hf, rfl, ha⟩
  · cases hl : s₁.link q with
    | some j =>
      rw [hl] at ha
      obtain ⟨rfl, rfl⟩ := ha
      exact ⟨guar_refl _, hi, by rintro ⟨⟩, fun _ => ⟨by rw [hl]; rfl, hs⟩, fun _ _ => rfl⟩
    | none =>
      rw [hl] at ha
      obtain ⟨rfl, rfl⟩ := ha
      obtain ⟨h2, h3, h4⟩ := moved hl
      refine ⟨h2, h3, fun _ => h4, by rintro ⟨⟩, fun _ hv => ?_⟩
      have hkeep : Keeps (· = t) s s₁ := h1
      have h5 := keeps_visible hq.published hkeep hv
      rw [hl] at h5
      cases h5
  · rcases ha with rfl | ⟨-, hl, rfl⟩
    · exact ⟨guar_refl _, hi, by rintro ⟨⟩, by rintro ⟨⟩, fun hw => absurd hw hf⟩
    · obtain ⟨h2, h3, -⟩ := moved hl
      exact ⟨h2, h3, by rintro ⟨⟩, by rintro ⟨⟩, fun hw => absurd hw hf⟩

/-- A staged file is published, unless the path is taken already. -/
lemma renameNew_spec {q : Path} (hq : q.Final)
    (hp : ∀ s', Keeps (· = t) s s' → ∀ n, φ n → Publishable S.user k w q s' n)
    (h : Staged t name i φ s) :
    Spec S t k w works (renameNew (.incoming name) q) (fun o s' =>
      (o = .ok → Leads q φ s') ∧ (o = .conflict → (s'.link q).isSome ∧ Staged t name i φ s') ∧
      (works → (s.link q).isSome → o = .conflict)) s := by
  have hpub := hq.published
  have kept : ∀ s₁ s₂, Keeps (· = t) s₁ s₂ → Staged t name i φ s₁ ∧ Keeps (· = t) s s₁ →
      Staged t name i φ s₂ ∧ Keeps (· = t) s s₂ := fun _ _ hk h => ⟨h.1.keeps hk, h.2.trans hk⟩
  unfold renameNew
  refine ((spec_parent _).and (spec_keep (.parent _) trivial kept ⟨h, .refl _ _⟩)).bind ?_
  rintro o s₁ ⟨h1, h2⟩
  split_ifs with e
  · exact ⟨fun h => absurd h e, fun h => absurd h h1.2, fun hw => absurd (h1.1 hw) e⟩
  refine ((spec_parent _).and (spec_keep (.parent _) trivial kept h2)).bind ?_
  rintro o s₂ ⟨h3, h4⟩
  split_ifs with e'
  · exact ⟨fun h => absurd h e', fun h => absurd h h3.2, fun hw => absurd (h3.1 hw) e'⟩
  refine (spec_rename hq (fun s' hk => hp s' (h4.2.trans hk)) h4.1).bind ?_
  have visible : (s.link q).isSome → (s₂.link q).isSome := keeps_visible hpub h4.2
  rintro (_ | _ | _) s₃ ⟨h5, h6, h7⟩
  · have led : ∀ s₁ s₂, Keeps (· = t) s₁ s₂ → Leads q φ s₁ → Leads q φ s₂ :=
      fun _ _ hk h => h.keeps hpub hk
    have never : works → ¬ (s.link q).isSome := fun hw hv => by cases h7 hw (visible hv)
    refine (spec_keep (.fsyncParent _) trivial led (h5 rfl)).bind fun b s₄ h8 => ?_
    split_ifs
    · exact ⟨by rintro ⟨⟩, by rintro ⟨⟩, fun hw hv => absurd hv (never hw)⟩
    refine (spec_keep (.fsyncParent _) trivial led h8).bind fun b s₅ h9 => ?_
    refine ⟨fun _ => h9, fun e => ?_, fun hw hv => absurd hv (never hw)⟩
    split_ifs at e
  · exact ⟨by rintro ⟨⟩, fun _ => h6 rfl, fun _ _ => rfl⟩
  · exact ⟨by rintro ⟨⟩, by rintro ⟨⟩, fun hw hv => by cases h7 hw (visible hv)⟩

/-- A staged file is removed. -/
lemma remove_spec (h : Staged t name i φ s) :
    Spec S t k w works (remove (.incoming name)) (fun _ _ => True) s := by
  unfold remove
  refine (spec_keep (.parent _) trivial (fun _ _ hk h => Staged.keeps h hk) h).bind ?_
  intro o s₁ h1
  split_ifs
  · trivial
  refine Meets.bind (P := fun _ _ => True) (meets_ask fun s₂ h2 hi r s₃ ha => ?_) ?_
  · have hs := h1.keeps h2
    have gone := guar_unlink (k := k) (w := w) hi hs
    rcases ha with ha | ⟨-, -, rfl | ⟨j, hj, rfl⟩⟩
    · dsimp only [Answers] at ha
      rw [hs.1] at ha
      obtain ⟨-, rfl⟩ := ha
      exact ⟨gone.1, gone.2, trivial⟩
    · exact ⟨guar_refl _, hi, trivial⟩
    · obtain rfl := Option.some.inj (hj.symm.trans hs.1)
      exact ⟨gone.1, gone.2, trivial⟩
  · rintro (_ | _ | _) s₂ -
    · exact (spec_keep (.fsyncParent _) trivial (K := fun _ => True) (fun _ _ _ _ => trivial)
        trivial).bind fun _ _ _ => trivial
    · trivial
    · trivial

/-- What no worker undoes is kept by every operation. -/
lemma spec_frame {α : Type} {p : Prog α} {Q : α → Files Path τ → Prop} {K : Files Path τ → Prop}
    (h : Spec S t k w works p Q s) (hk : ∀ (who : τ → Prop) s s', Keeps who s s' → K s → K s')
    (h0 : K s) : Spec S t k w works p (fun a s => Q a s ∧ K s) s :=
  h.frame (fun s s' (hr : Keeps (· = t) s s') => hk _ s s' hr)
    (fun _ _ _ hg _ => hk _ _ _ hg.keeps) h0

/-! ### Objects -/

/-- A staged file of the right bytes becomes the object, or there is one already. -/
lemma publish_spec {x : Bytes} {d : Digest} (hf : f.handle = some i)
    (h : Staged t name i (fun n => n.links = 1 ∧ n.data = x) s) (hd : Sha256.hash x = d)
    (hx : x.length ≤ maxObjectSize) (hm : k.MayPublish w d x) :
    Spec S t k w works (publish S name f d) (fun r s =>
      r.2 = .ok → (s.link (.object d)).isSome) s := by
  have hpub := published_object d
  unfold publish
  refine (spec_quiet (info_quiet f) (fun _ _ hk h => Staged.keeps h hk) h).bind ?_
  rintro ⟨v, status⟩ s₁ h1
  dsimp only
  refine Meets.ite (fun e h => absurd h e) fun e => ?_
  refine (setMetadata_spec (v := { v with mode := 0o400, uid := S.user.uid, gid := S.user.gid })
    hf rfl h1).bind fun o s₂ h2 => ?_
  refine Meets.ite (fun e₁ h => absurd h e₁) fun e₁ => ?_
  refine (spec_quiet (needDirectory_quiet _) (fun _ _ hk h => Staged.keeps h hk)
    (h2 (not_not.mp e₁))).bind fun o s₃ h3 => ?_
  refine Meets.ite (fun e₂ h => absurd h e₂) fun e₂ => ?_
  refine (renameNew_spec (q := .object d) trivial (fun _ _ n hn => ⟨?_, by rintro _ ⟨⟩⟩) h3).bind ?_
  · intro d' e'
    cases e'
    rw [hn.data]
    exact ⟨hm, hd, hn.mode, hn.uid, hn.links, hn.data ▸ hx, hn.synced⟩
  rintro o s₄ ⟨h4, h5, -⟩
  refine Meets.ite (fun e₃ => ?_) fun _ h => (h4 h).visible
  obtain ⟨h6, h7⟩ := h5 e₃
  have kept : ∀ s₁ s₂, Keeps (· = t) s₁ s₂ →
      (s₁.link (.object d)).isSome ∧ Staged t name i (Finished S.user 0o400 x) s₁ →
      (s₂.link (.object d)).isSome ∧ Staged t name i (Finished S.user 0o400 x) s₂ :=
    fun _ _ hk h => ⟨keeps_visible hpub hk h.1, h.2.keeps hk⟩
  refine (spec_quiet (openRead_quiet _ _) kept ⟨h6, h7⟩).bind fun r s₅ h8 => ?_
  refine (spec_quiet (whenOk_quiet (hash_quiet _ _)) kept h8).bind fun r' s₆ h9 => ?_
  generalize (if r'.2 = .ok ∧ r'.1.1 ≠ d then Outcome.corrupt else r'.2) = status'
  refine Meets.ite (fun _ => ?_) fun e₄ h => absurd h e₄
  exact (spec_frame (remove_spec h9.2) (fun _ _ _ hk h => keeps_visible hpub hk h)
    h9.1).bind fun _ _ h10 _ => h10.2

lemma put_spec {data : Bytes} :
    Spec S t (.put data) w works (put S data) (Result (.put data)) s := by
  unfold put
  split_ifs with h0
  · rintro ⟨⟩
  refine (beginObject_spec rfl).bind ?_
  rintro ⟨⟨f, name⟩, status⟩ s₁ ⟨h1, -⟩
  dsimp only at h1 ⊢
  split_ifs with e
  · exact fun h => absurd h e
  obtain ⟨i, hf, hs⟩ := h1 (not_not.mp e)
  refine (writeAll_spec hf (hs.imp fun n hn => ⟨hn.links, hn.data⟩) data).bind ?_
  rintro ⟨f', status'⟩ s₂ ⟨⟨h2, -⟩, -⟩
  dsimp only at h2 ⊢
  split_ifs with e'
  · obtain ⟨rfl, h3⟩ := h2 e'
    refine (publish_spec hf.handle h3 rfl ?_
      (show Operation.MayPublish (.put data) w _ _ from rfl)).bind fun r s₃ h4 => ?_
    · simp only [List.nil_append]
      unfold maxObjectSize
      omega
    · intro e₁
      rw [if_neg (not_not.mpr e₁)]
      exact ⟨rfl, h4 e₁⟩
  · exact fun h => absurd h e'

lemma importLoop_spec {limit fuel atByte : ℕ} {c : Sha256.Context} {x : Bytes}
    (hf : Writable f i) (h : Staged t name i (fun n => n.links = 1 ∧ n.data = x) s)
    (hc : c = Sha256.update Sha256.init x) (hx : x.length = atByte) (hl : atByte ≤ limit) :
    Spec S t k w works (importLoop limit fuel f c atByte) (fun r s => r.2 = .ok →
      ∃ y, r.1.1 = f ∧ Staged t name i (fun n => n.links = 1 ∧ n.data = y) s ∧
        r.1.2.1 = Sha256.update Sha256.init y ∧ y.length ≤ limit) s := by
  induction fuel generalizing x c atByte s with
  | zero => rintro ⟨⟩
  | succ fuel ih =>
    unfold importLoop
    refine (spec_quiet (p := inputRead atByte 65536) ?_ (fun _ _ hk h => Staged.keeps h hk)
      h).bind ?_
    · exact .bind (uses_ask trivial) fun r => by cases r <;> trivial
    rintro ⟨b, status⟩ s₁ h1
    dsimp only
    split_ifs with e e₁
    · exact fun _ => ⟨x, rfl, h1, hc, by omega⟩
    · rintro ⟨⟩
    refine (writeAll_spec hf h1 b).bind ?_
    rintro ⟨f', status'⟩ s₂ ⟨⟨h2, -⟩, -⟩
    dsimp only at h2 ⊢
    split_ifs with e₂
    · exact fun h => absurd h e₂
    obtain ⟨rfl, h3⟩ := h2 (not_not.mp e₂)
    refine ih h3 ?_ ?_ ?_
    · rw [hc]
      simp [Sha256.update, List.foldl_append]
    · simp [hx]
    · omega

lemma inputInfo_quiet : inputInfo.Uses Quiet :=
  .bind (uses_ask trivial) fun r => by cases r <;> trivial

lemma importFile_spec {limit : ℕ} :
    Spec S t (.importFile limit) w works (importFile S limit) (Result (.importFile limit)) s := by
  unfold importFile
  split_ifs with h0
  · rintro ⟨⟩
  refine (spec_quiet (K := fun _ => True) inputInfo_quiet (fun _ _ _ _ => trivial) trivial).bind ?_
  rintro ⟨before, status⟩ s₁ -
  dsimp only
  split_ifs with e e₁
  · exact fun h => absurd h e
  · rintro ⟨⟩
  refine (beginObject_spec rfl).bind ?_
  rintro ⟨⟨f, name⟩, status'⟩ s₂ ⟨h1, -⟩
  dsimp only at h1 ⊢
  split_ifs with e₂
  · exact fun h => absurd h e₂
  obtain ⟨i, hf, hs⟩ := h1 (not_not.mp e₂)
  refine (importLoop_spec hf (hs.imp fun n hn => ⟨hn.links, hn.data⟩) rfl rfl
    (Nat.zero_le _)).bind ?_
  rintro ⟨⟨f', c, atByte⟩, status₁⟩ s₃ h2
  dsimp only at h2 ⊢
  refine Meets.bind (P := fun r s => r.2 = .ok → ∃ y, f' = f ∧
    Staged t name i (fun n => n.links = 1 ∧ n.data = y) s ∧
    c = Sha256.update Sha256.init y ∧ y.length ≤ limit) ?_ ?_
  · unfold whenOk
    split_ifs with e₃
    · refine (spec_quiet inputInfo_quiet ?_ (h2 e₃)).mono fun _ _ h _ => h
      rintro _ _ hk ⟨y, h3, h4, h5⟩
      exact ⟨y, h3, h4.keeps hk, h5⟩
    · exact fun h => absurd h e₃
  · rintro ⟨after, status₂⟩ s₄ h3
    dsimp only at h3 ⊢
    have key : (if status₂ = .ok ∧ (before ≠ after ∨ atByte ≠ before.size) then .conflict
        else status₂) = .ok → status₂ = .ok := by
      split_ifs
      · rintro ⟨⟩
      · exact id
    generalize (if status₂ = .ok ∧ (before ≠ after ∨ atByte ≠ before.size) then Outcome.conflict
      else status₂) = status₃ at key ⊢
    split_ifs with e₄
    · obtain ⟨y, rfl, h4, rfl, h5⟩ := h3 (key e₄)
      refine (publish_spec hf.handle h4 (by unfold Sha256.hash; rfl) (by omega)
        (show Operation.MayPublish (.importFile limit) w _ _ from h5)).bind ?_
      intro r s₅ h6 e₆
      rw [if_neg (not_not.mpr e₆)]
      exact h6 e₆
    · exact fun h => absurd h e₄

/-! ### Pins -/

/-- Where the path of a pin is taken, what it leads to decides. -/
lemma pin_taken (hi : Inv S.user s) {id : Identity} {d : Digest} {x : Bytes}
    (hs : Staged t name i φ s) (hx : s.bytesAt (.pin id) = some x) :
    Spec S t k w works (do
      let status ← checkPin id d
      if status = .ok then
        let cleanup ← remove (.incoming name)
        return if cleanup ≠ .ok then cleanup else status
      else return status) (fun o s' => (o = .ok → s'.bytesAt (.pin id) = some d.bytes) ∧
        (works → x ≠ d.bytes → o = .conflict)) s := by
  have hpin := published_pin id
  obtain ⟨j, hj, rfl⟩ := Option.map_eq_some_iff.mp hx
  obtain ⟨-, -, d', hd', -⟩ := hi.pin id j hj
  refine ((checkPin_spec (d := d) ⟨_, hj, .inl hpin, rfl⟩ hj (by rw [hd']; simp)).and
    (spec_quiet (checkPin_quiet id d) (fun s₁ s₂ hk (h : Staged t name i φ s₁ ∧
      s₁.bytesAt (.pin id) = some (s.inode j).data) =>
        ⟨h.1.keeps hk, keeps_bytesAt hpin hk h.2⟩) ⟨hs, hx⟩)).bind ?_
  rintro o s₁ ⟨⟨h1, h2⟩, h3, h4⟩
  refine Meets.ite (fun e => ?_) fun e => ?_
  · refine (spec_frame (remove_spec h3) (fun _ _ _ hk h => keeps_bytesAt hpin hk h) h4).bind
      fun cleanup s₂ h5 => ⟨fun _ => ?_, fun _ hne => absurd (h1 e) hne⟩
    rw [h5.2, h1 e]
  · exact ⟨fun h => absurd h e, h2⟩

/-- A pin is done only when it is there with this manifest. Where there is one with another
manifest, and the object is there, it is a conflict. -/
lemma pin_spec (hi : Inv S.user s) {id : Identity} {d : Digest} :
    Spec S t (.pin id d) w works (pin S id d) (fun o s' =>
      (o = .ok → s'.bytesAt (.pin id) = some d.bytes) ∧
      (works → S.opened = true → d ≠ zeroDigest → (s.link (.object d)).isSome →
        ∀ x, s.bytesAt (.pin id) = some x → x ≠ d.bytes → o = .conflict)) s := by
  have hobj := published_object d
  have hpin := published_pin id
  unfold pin
  split_ifs with h0
  · refine ⟨by rintro ⟨⟩, fun _ _ _ _ x hx => ?_⟩
    rw [h0, Files.bytesAt, hi.zero] at hx
    cases hx
  -- what is published stays, so what the path of the pin leads to is known all along
  have pinned : ∀ (who : τ → Prop) s₁ s₂, Keeps who s₁ s₂ →
      (∀ x, s.bytesAt (.pin id) = some x → s₁.bytesAt (.pin id) = some x) →
      ∀ x, s.bytesAt (.pin id) = some x → s₂.bytesAt (.pin id) = some x :=
    fun _ _ _ hk h x hx => keeps_bytesAt hpin hk (h x hx)
  have kept : ∀ (who : τ → Prop) s₁ s₂, Keeps who s₁ s₂ →
      (s₁.link (.object d)).isSome ∧
        (∀ x, s.bytesAt (.pin id) = some x → s₁.bytesAt (.pin id) = some x) →
      (s₂.link (.object d)).isSome ∧
        ∀ x, s.bytesAt (.pin id) = some x → s₂.bytesAt (.pin id) = some x :=
    fun _ _ _ hk h => ⟨keeps_visible hobj hk h.1, pinned _ _ _ hk h.2⟩
  -- the object is looked at; from here on it is known to be there
  refine ((spec_frame (openObject_spec hi d) pinned fun _ h => h).inv hi).bind ?_
  rintro ⟨f, status⟩ s₁ ⟨⟨⟨h1, h2⟩, h3⟩, hi₁⟩
  dsimp only at h1 h2 ⊢
  refine Meets.ite (fun e => ⟨fun h => absurd h e, fun hw ho hd hv => absurd (h2 hw ho hd hv) e⟩)
    fun e => ?_
  -- a file is staged, written and synced
  refine ((spec_frame (beginObject_spec rfl) kept ⟨h1 (not_not.mp e), h3⟩).inv hi₁).bind ?_
  rintro ⟨⟨f, name⟩, status⟩ s₂ ⟨⟨⟨h4, -, h5⟩, h6⟩, hi₂⟩
  dsimp only at h4 h5 ⊢
  refine Meets.ite (fun e₁ => ⟨fun h => absurd h e₁,
    fun hw ho _ _ _ _ _ => (h5 hw ho).resolve_left fun h => absurd h e₁⟩) fun e₁ => ?_
  obtain ⟨i, hf, hs⟩ := h4 (not_not.mp e₁)
  refine ((spec_frame (writeAll_spec hf (hs.imp fun n hn => ⟨hn.links, hn.data⟩) d.bytes) kept
    h6).inv hi₂).bind ?_
  rintro ⟨f', status⟩ s₃ ⟨⟨⟨⟨h7, -⟩, h8⟩, h9⟩, hi₃⟩
  dsimp only at h7 h8 ⊢
  refine (Meets.inv (Q := fun r s₁ => (r.2 = .ok → Staged t name i
      (fun n => (n.links = 1 ∧ n.data = d.bytes) ∧ n.synced = true) s₁) ∧
    (works → r.2 = .ok) ∧ (s₁.link (.object d)).isSome ∧
      ∀ x, s.bytesAt (.pin id) = some x → s₁.bytesAt (.pin id) = some x) ?_ hi₃).bind ?_
  · unfold whenOk
    split_ifs with e₂
    · obtain ⟨rfl, h10⟩ := h7 e₂
      refine (spec_frame (sync_spec hf.handle (fun n hn => hn) h10) kept h9).bind ?_
      exact fun o s₄ h11 => ⟨h11.1.1, fun hw => h11.1.2 hw hf.poisoned, h11.2⟩
    · exact ⟨fun h => absurd h e₂, fun hw => absurd (h8 hw) e₂, h9⟩
  rintro ⟨_, status⟩ s₄ ⟨⟨h10, h11, h12⟩, hi₄⟩
  dsimp only at h10 h11 ⊢
  refine Meets.ite (fun e₂ => ⟨fun h => absurd h e₂, fun hw => absurd (h11 hw) e₂⟩) fun e₂ => ?_
  -- it is published, unless the path of the pin is taken
  refine ((spec_frame (renameNew_spec (q := .pin id) trivial ?_
    (h10 (not_not.mp e₂))) kept h12).inv hi₄).bind ?_
  · exact fun s' hk n hn => ⟨by rintro _ ⟨⟩, fun id' e => by
      cases e
      exact ⟨h0, hn.1.1, hn.2, d, rfl, hn.1.2, keeps_visible hobj hk h12.1⟩⟩
  rintro o s₅ ⟨⟨⟨h13, h14, h15⟩, h16⟩, hi₅⟩
  have visible : ∀ x, s.bytesAt (.pin id) = some x → (s₄.link (.pin id)).isSome := by
    intro x hx
    obtain ⟨j, hj, -⟩ := Option.map_eq_some_iff.mp (h12.2 x hx)
    rw [hj]
    rfl
  refine Meets.ite (fun e₃ => ?_) fun e₃ => ?_
  · obtain ⟨h17, h18⟩ := h14 e₃
    obtain ⟨j, hj⟩ := Option.isSome_iff_exists.mp h17
    have there : s₅.bytesAt (.pin id) = some (s₅.inode j).data := by
      rw [Files.bytesAt, hj, Option.map_some]
    refine (pin_taken hi₅ h18 there).mono fun o' s₆ h => ⟨h.1, fun hw _ _ _ x hx hne => ?_⟩
    obtain rfl := Option.some.inj (there.symm.trans (h16.2 x hx))
    exact h.2 hw hne
  · refine ⟨fun h => ?_, fun hw _ _ _ x hx _ => absurd (h15 hw (visible x hx)) e₃⟩
    obtain ⟨j, hj, hn⟩ := h13 h
    rw [Files.bytesAt, hj, Option.map_some, hn.1.2]

/-! ### Writers -/

lemma beginWrite_spec {expected : Digest} {size : ℕ} (h : Knows t w s) :
    Spec S t k w works (beginWrite S expected size w) (fun r s => Knows t r.1 s) s := by
  unfold beginWrite
  split_ifs with h0
  · exact h
  have h1 : w.active = false := by
    by_contra h1
    exact h0 (.inl (by simpa using h1))
  unfold Knows at h
  rw [if_neg (by simp [h1])] at h
  refine (beginObject_spec h).bind ?_
  rintro ⟨⟨f, name⟩, status⟩ s₁ ⟨h2, h3, -⟩
  dsimp only at h2 h3 ⊢
  split_ifs with e
  · show Knows t _ _
    unfold Knows
    rw [if_neg (by simp [h1])]
    exact (h3 e).symm ▸ h
  · obtain ⟨i, hf, hs⟩ := h2 (not_not.mp e)
    refine ⟨not_lt.mp fun h => h0 (.inr (.inr h)), Nat.zero_le _, i, [], hf.handle, hf.writable,
      ?_, ?_, ?_⟩
    · exact hs.imp fun n hn => ⟨hn.links, fun _ => hn.data⟩
    · exact fun _ => ⟨rfl, rfl⟩
    · exact fun h => absurd (hf.poisoned.symm.trans h) (by rintro ⟨⟩)

lemma writeChunk_spec {data : Bytes} (h : Knows t w s) :
    Spec S t k w works (writeChunk w data) (fun r s => Knows t r.1 s) s := by
  unfold writeChunk
  split_ifs with h0
  · exact h
  have h1 : w.active = true := by
    by_contra h1
    exact h0 (.inl (by simpa using h1))
  have h2 : data.length ≤ w.size - w.written := by
    by_contra h2
    exact h0 (.inr (by omega))
  unfold Knows at h
  rw [if_pos h1] at h
  obtain ⟨h3, h4, i, x, h5, h6, h7, h8, h9⟩ := h
  by_cases hp : w.f.poisoned = true
  · have : (writeAll w.f data : Prog (FileSystem.File × Outcome)) = pure (w.f, .invalidInput) := by
      unfold writeAll
      simp [h5, hp]
    rw [this, pure_bind]
    show Knows t _ _
    unfold Knows
    rw [if_pos h1]
    exact ⟨h3, h4, i, x, h5, h6, h7, h8, h9⟩
  have hf : Writable w.f i := ⟨h5, h6, by simpa using hp⟩
  obtain ⟨h10, h11⟩ := h8 hf.poisoned
  refine (writeAll_spec hf (h7.imp fun n hn => ⟨hn.1, hn.2 hf.poisoned⟩) data).bind ?_
  rintro ⟨f', status⟩ s₁ ⟨⟨h12, h13⟩, -⟩
  dsimp only at h12 h13 ⊢
  split_ifs with e
  · obtain ⟨rfl, h14⟩ := h12 e
    show Knows t _ _
    unfold Knows
    rw [if_pos h1]
    refine ⟨h3, by dsimp only; omega, i, x ++ data, h5, h6, h14.imp fun n hn => ⟨hn.1, fun _ =>
      hn.2⟩, fun _ => ⟨?_, ?_⟩, fun h => absurd h hp⟩
    · rw [h10]
      simp [Sha256.update, List.foldl_append]
    · simp [h11]
  · obtain ⟨rfl, h14, y, h15⟩ := h13 e
    have := List.length_pos_iff.mpr h14
    show Knows t _ _
    unfold Knows
    rw [if_pos h1]
    exact ⟨h3, h4, i, y, h5, h6, h15.imp fun n hn => ⟨hn.1, by rintro ⟨⟩⟩, by rintro ⟨⟩, fun _ => by
      dsimp only
      omega⟩

lemma finishWrite_spec (h : Knows t w s) :
    Spec S t .finishWrite w works (finishWrite S w) (fun r s => Knows t r.1 s) s := by
  unfold finishWrite
  split_ifs with h0
  · rfl
  have h1 : w.active = true := by
    by_contra h1
    exact h0 (.inl (by simpa using h1))
  have h2 : w.written = w.size := by
    by_contra h2
    exact h0 (.inr (.inl h2))
  have h3 : Sha256.finish w.hash = w.expected := by
    by_contra h3
    exact h0 (.inr (.inr h3))
  unfold Knows at h
  rw [if_pos h1] at h
  obtain ⟨h4, -, i, x, h5, -, h6, h7, h8⟩ := h
  have hp : w.f.poisoned = false := by
    by_contra hp
    have := h8 (by simpa using hp)
    omega
  obtain ⟨h9, h10⟩ := h7 hp
  refine (publish_spec h5 (h6.imp fun n hn => ⟨hn.1, hn.2 hp⟩) ?_ (by omega)
    (show Operation.MayPublish .finishWrite w _ _ from ⟨rfl, by omega, h9⟩)).bind ?_
  · rw [← h3, h9]
    unfold Sha256.hash
    rfl
  · exact fun r s₁ _ => rfl

end NiayanAssurance.ObjectStore
