import NiayanAssurance.CheckpointStore

/-!
What the store of checkpoints keeps to, whoever calls its operations and wherever they end.

While somebody has the lock nobody else changes a file; and while no swap that would change the
anchor is outstanding, nobody else changes the anchor.
-/

namespace NiayanAssurance.CheckpointStore

open NiayanAssurance.Lib NiayanAssurance.Types NiayanAssurance.Checkpoint
  NiayanAssurance.CheckpointCodec Program

variable {τ : Type} {t : τ} {s s' : World τ} {c p : Option Descriptor} {d : Descriptor}
  {q : Path} {b : Bytes}

/-! ### What is kept -/

/-- A descriptor that may be published. -/
def Proper (d : Descriptor) : Prop := Valid d ∧ d.contract = Gate.fingerprint

lemma decode_encode (h : Valid d) : decode (encode d) = .ok d := canonical.decode_encode h

lemma encode_inj {d' : Descriptor} (h : Valid d) (h' : Valid d') (he : encode d = encode d') :
    d = d' := by
  have h1 := decode_encode h
  rw [he, decode_encode h'] at h1
  exact (Except.ok.inj h1).symm

/-- What is anchored where `c` is current and nothing is on its way. -/
def head (c : Option Descriptor) : Digest := c.elim zeroDigest digest

lemma head_none : head none = zeroDigest := rfl

lemma head_some : head (some d) = digest d := rfl

/-- `d` may come after `c`. -/
def Next (c : Option Descriptor) (d : Descriptor) : Prop :=
  match c with
  | none => (d.generation : ℕ) = 1 ∧ d.previous = zeroDigest
  | some before => Follows before d (digest before)

/-- The swap would change something. -/
def Effective (x : Digest × Digest) : Prop := x.1 ≠ x.2

instance (x : Digest × Digest) : Decidable (Effective x) := inferInstanceAs (Decidable (x.1 ≠ x.2))

/-- No swap that would change something is outstanding. -/
def Quiet (s : World τ) : Prop := ∀ x ∈ s.live, ¬ Effective x

/-- `c` is current and `p` is pending. -/
structure Good (c p : Option Descriptor) (s : World τ) : Prop where
  current : s.files .current = c.map encode
  pending : s.files .pending = p.map encode
  proper : ∀ d, c = some d ∨ p = some d → Proper d
  payload : ∀ d ∈ p, ∃ b, s.files (.snapshot d.payload) = some b ∧
    b.length = d.payloadSize ∧ Sha256.hash b = d.payload
  link : ∀ d ∈ p, Next c d ∨ c = some d
  anchor : s.anchor = head c ∨ ∃ d ∈ p, s.anchor = digest d
  /-- A swap that is outstanding is from what is current to what is pending. -/
  live : ∀ x ∈ s.live, Effective x → s.anchor = head c ∧ x.1 = s.anchor ∧ ∃ d ∈ p, x.2 = digest d
  once : (s.live.filter fun x => Effective x).length ≤ 1
  lockFile : p.isSome ∨ s.holder.isSome → s.lockFile = true

/-- Where what is pending is anchored, or nothing is pending, no swap is outstanding. -/
lemma Good.quiet (h : Good c p s) (hp : ∀ d ∈ p, digest d = s.anchor) : Quiet s := by
  intro x hx he
  obtain ⟨-, h1, d, hd, h2⟩ := h.live x hx he
  exact he (by rw [h1, h2, hp d hd])

lemma filter_effective (h : Quiet s) : (s.live.filter fun x => Effective x) = [] :=
  List.filter_eq_nil_iff.2 fun x hx => by simpa using h x hx

/-- What neither touches the two descriptors nor the anchor nor takes a file away. -/
lemma Good.keep (h : Good c p s) (hc : s'.files .current = s.files .current)
    (hp : s'.files .pending = s.files .pending)
    (hs : ∀ x b, s.files (.snapshot x) = some b → s'.files (.snapshot x) = some b)
    (ha : s'.anchor = s.anchor) (hl : s'.live = s.live)
    (hf : p.isSome ∨ s'.holder.isSome → s'.lockFile = true) : Good c p s' where
  current := hc.trans h.current
  pending := hp.trans h.pending
  proper := h.proper
  payload d hd := by
    obtain ⟨b, h1, h2⟩ := h.payload d hd
    exact ⟨b, hs _ _ h1, h2⟩
  link := h.link
  anchor := ha ▸ h.anchor
  live := by
    rw [ha, hl]
    exact h.live
  once := hl ▸ h.once
  lockFile := hf

/-- **A swap of which the answer was lost** anchors what is pending, or does nothing. -/
lemma Good.lands (h : Good c p s) (hs : Lands s s') : Good c p s' := by
  obtain @⟨l₁, l₂, before, manifest, hl⟩ := hs
  have hmem : ∀ x ∈ l₁ ++ l₂, x ∈ s.live := by
    intro x hx
    rw [hl]
    rcases List.mem_append.1 hx with hx | hx
    · exact List.mem_append_left _ hx
    · exact List.mem_append_right _ (List.mem_cons_of_mem _ hx)
  have honce := h.once
  rw [hl, List.filter_append, List.filter_cons, List.length_append] at honce
  by_cases he : Effective (before, manifest)
  · obtain ⟨h1, h2, h3⟩ := h.live _ (by simp [hl]) he
    have hq : ∀ x ∈ l₁ ++ l₂, ¬ Effective x := by
      intro x hx hxe
      rw [if_pos (by simpa using he), List.length_cons] at honce
      have h4 : x ∈ (l₁ ++ l₂).filter fun x => Effective x :=
        List.mem_filter.2 ⟨hx, by simpa using hxe⟩
      have h5 := List.length_pos_of_mem h4
      rw [List.filter_append, List.length_append] at h5
      omega
    refine ⟨h.current, h.pending, h.proper, h.payload, h.link, .inr ?_,
      fun x hx hxe => absurd hxe (hq x hx), ?_, h.lockFile⟩
    · dsimp only at h2 ⊢
      rw [if_pos h2.symm]
      exact h3
    · dsimp only
      rw [List.filter_eq_nil_iff.2 fun x hx => by simpa using hq x hx]
      exact Nat.zero_le _
  · have ha : (if s.anchor = before then manifest else s.anchor) = s.anchor := by
      split
      · rename_i e
        exact (not_not.1 he).symm.trans e.symm
      · rfl
    refine ⟨h.current, h.pending, h.proper, h.payload, h.link, ?_, fun x hx hxe => ?_, ?_,
      h.lockFile⟩
    · dsimp only
      rw [ha]
      exact h.anchor
    · dsimp only
      rw [ha]
      exact h.live x (hmem x hx) hxe
    · dsimp only
      rw [if_neg (by simpa using he)] at honce
      rwa [List.filter_append, List.length_append]

/-- While nothing is outstanding, a lost answer changes nothing. -/
lemma Quiet.lands (h : Quiet s) (hs : Lands s s') : Quiet s' ∧ s'.anchor = s.anchor := by
  obtain @⟨l₁, l₂, before, manifest, hl⟩ := hs
  have he : before = manifest := not_not.1 (h (before, manifest) (by simp [hl]))
  refine ⟨fun x hx => h x ?_, ?_⟩
  · rw [hl]
    rcases List.mem_append.1 hx with hx | hx
    · exact List.mem_append_left _ hx
    · exact List.mem_append_right _ (List.mem_cons_of_mem _ hx)
  · dsimp only
    split
    · rename_i e
      rw [← he, e]
    · rfl

/-! ### What a publisher does -/

lemma put_self : (s.put q b).files q = some b := Function.update_self _ _ _

lemma put_of_ne {q' : Path} (h : q' ≠ q) : (s.put q b).files q' = s.files q' :=
  Function.update_of_ne h _ _

/-- A new snapshot, or a new manifest. -/
lemma Good.put_new (h : Good c p s) (hq : s.files q = none) (h1 : q ≠ .current)
    (h2 : q ≠ .pending) : Good c p (s.put q b) := by
  refine h.keep (put_of_ne h1.symm) (put_of_ne h2.symm) (fun x b' hx => ?_) rfl rfl h.lockFile
  rw [put_of_ne fun e => by rw [← e, hx] at hq; cases hq]
  exact hx

lemma Good.put_pending (h : Good c p s) (hq : Quiet s) (ha : s.anchor = head c) (hn : Next c d)
    (hd : Proper d) (hs : s.files (.snapshot d.payload) = some b) (hl : b.length = d.payloadSize)
    (hb : Sha256.hash b = d.payload) (hf : s.lockFile = true) :
    Good c (some d) (s.put .pending (encode d)) where
  current := (put_of_ne (by rintro ⟨⟩)).trans h.current
  pending := put_self
  proper d' hd' := by
    rcases hd' with hd' | hd'
    · exact h.proper d' (.inl hd')
    · cases hd'
      exact hd
  payload d' hd' := by
    cases hd'
    exact ⟨b, (put_of_ne (by rintro ⟨⟩)).trans hs, hl, hb⟩
  link d' hd' := by
    cases hd'
    exact .inl hn
  anchor := .inl ha
  live x hx he := absurd he (hq x hx)
  once := by
    rw [show (s.put .pending (encode d)).live = s.live from rfl, filter_effective hq]
    exact Nat.zero_le _
  lockFile _ := hf

lemma Good.advance (h : Good c (some d) s) (hq : Quiet s) :
    Good c (some d) { s with anchor := digest d } where
  current := h.current
  pending := h.pending
  proper := h.proper
  payload := h.payload
  link := h.link
  anchor := .inr ⟨d, rfl, rfl⟩
  live x hx he := absurd he (hq x hx)
  once := h.once
  lockFile := h.lockFile

/-- The answer of the anchor is lost. -/
lemma Good.unknown (h : Good c (some d) s) (hq : Quiet s) (ha : s.anchor = head c) :
    Good c (some d) { s with live := (head c, digest d) :: s.live } where
  current := h.current
  pending := h.pending
  proper := h.proper
  payload := h.payload
  link := h.link
  anchor := h.anchor
  live x hx he := by
    rcases List.mem_cons.1 hx with rfl | hx
    · exact ⟨ha, ha.symm, d, rfl, rfl⟩
    · exact absurd he (hq x hx)
  once := by
    dsimp only
    rw [List.filter_cons, filter_effective hq]
    split <;> simp
  lockFile := h.lockFile

/-- What is pending and anchored becomes current. -/
lemma Good.put_current (h : Good c (some d) s) (hq : Quiet s) (ha : s.anchor = digest d) :
    Good (some d) (some d) (s.put .current (encode d)) where
  current := put_self
  pending := (put_of_ne (by rintro ⟨⟩)).trans h.pending
  proper d' hd' := h.proper d' (.inr (hd'.elim id id))
  payload d' hd' := by
    obtain ⟨b, h1, h2⟩ := h.payload d' hd'
    exact ⟨b, (put_of_ne (by rintro ⟨⟩)).trans h1, h2⟩
  link d' hd' := .inr hd'
  anchor := .inl ha
  live x hx he := absurd he (hq x hx)
  once := by
    rw [show (s.put .current (encode d)).live = s.live from rfl, filter_effective hq]
    exact Nat.zero_le _
  lockFile _ := h.lockFile (.inl rfl)

/-! ### What is agreed on -/

def Inv (s : World τ) : Prop := ∃ c p, Good c p s

/-- The current descriptor is what it was, or the next one, which is pending and anchored. -/
def Advances (s s' : World τ) : Prop :=
  s'.files .current = s.files .current ∨
    ∃ c d, s.files .current = c.map encode ∧ s'.files .current = some (encode d) ∧ Next c d ∧
      s.files .pending = some (encode d) ∧ s.anchor = digest d ∧ s'.anchor = digest d

/-- What the others may do while `t` has the lock. -/
structure Rely (t : τ) (s s' : World τ) : Prop where
  holder : s.holder = some t ↔ s'.holder = some t
  files : s.holder = some t → s'.files = s.files
  good : s.holder = some t → ∀ c p, Good c p s → Good c p s'
  quiet : s.holder = some t → Quiet s → Quiet s' ∧ s'.anchor = s.anchor

/-- What `t` may do. -/
structure Guar (t : τ) (s s' : World τ) : Prop where
  frame : s.holder ≠ some t →
    s'.files = s.files ∧ s'.anchor = s.anchor ∧ s'.live = s.live
  holder : ∀ t', t' ≠ t → (s.holder = some t' ↔ s'.holder = some t')
  lockFile : s.lockFile = true → s'.lockFile = true
  current : Advances s s'

lemma Rely.refl (t : τ) (s : World τ) : Rely t s s :=
  ⟨.rfl, fun _ => rfl, fun _ _ _ h => h, fun _ h => ⟨h, rfl⟩⟩

lemma Rely.trans {s'' : World τ} (h : Rely t s s') (h' : Rely t s' s'') : Rely t s s'' where
  holder := h.holder.trans h'.holder
  files ht := (h'.files (h.holder.1 ht)).trans (h.files ht)
  good ht c p hg := h'.good (h.holder.1 ht) c p (h.good ht c p hg)
  quiet ht hq := by
    obtain ⟨h1, h2⟩ := h.quiet ht hq
    obtain ⟨h3, h4⟩ := h'.quiet (h.holder.1 ht) h1
    exact ⟨h3, h4.trans h2⟩

lemma Guar.refl (t : τ) (s : World τ) : Guar t s s :=
  ⟨fun _ => ⟨rfl, rfl, rfl⟩, fun _ _ => .rfl, id, .inl rfl⟩

/-- Who has the lock may change the files. -/
lemma Guar.held (ht : s.holder = some t) (hh : s'.holder = s.holder)
    (hl : s'.lockFile = s.lockFile) (ha : Advances s s') : Guar t s s' :=
  ⟨fun h => absurd ht h, fun _ _ => by rw [hh], fun h => hl.trans h, ha⟩

/-- What one may do another relies on. -/
lemma Guar.rely {t' : τ} (h : Guar t s s') (ht : t' ≠ t) : Rely t' s s' := by
  have hf : s.holder = some t' → _ :=
    fun h' => h.frame fun e => ht (Option.some.inj (h'.symm.trans e))
  refine ⟨h.holder t' ht, fun h' => (hf h').1, fun h' c p hg => ?_, fun h' hq => ?_⟩
  · obtain ⟨h1, h2, h3⟩ := hf h'
    exact hg.keep (by rw [h1]) (by rw [h1]) (fun _ _ hx => by rwa [h1]) h2 h3
      fun _ => h.lockFile (hg.lockFile (.inr (by rw [h']; rfl)))
  · obtain ⟨-, h2, h3⟩ := hf h'
    exact ⟨fun x hx => hq x (h3 ▸ hx), h2⟩

lemma Lands.rely (h : Lands s s') : Rely t s s' := by
  refine ⟨?_, fun _ => ?_, fun _ _ _ hg => hg.lands h, fun _ hq => hq.lands h⟩ <;> cases h
  · exact .rfl
  · rfl

abbrev contract (t : τ) : Contract (World τ) where
  inv := Inv
  rely := Rely t
  guar := Guar t
  rely_refl := Rely.refl t
  rely_trans _ _ _ := Rely.trans

/-! ### What a process knows that has the lock -/

structure Held (t : τ) (c p : Option Descriptor) (f : Path → Option Bytes) (s : World τ) :
    Prop where
  holder : s.holder = some t
  files : s.files = f
  good : Good c p s

/-- And that knows the anchor. -/
structure Calm (t : τ) (c p : Option Descriptor) (f : Path → Option Bytes) (a : Digest)
    (s : World τ) : Prop extends Held t c p f s where
  quiet : Quiet s
  anchor : s.anchor = a

variable {f : Path → Option Bytes} {a : Digest}

lemma Held.rely (h : Held t c p f s) (hr : Rely t s s') : Held t c p f s' :=
  ⟨hr.holder.1 h.holder, (hr.files h.holder).trans h.files, hr.good h.holder c p h.good⟩

lemma Calm.rely (h : Calm t c p f a s) (hr : Rely t s s') : Calm t c p f a s' := by
  obtain ⟨h1, h2⟩ := hr.quiet h.holder h.quiet
  exact ⟨h.toHeld.rely hr, h1, h2.trans h.anchor⟩

lemma Held.current (h : Held t c p f s) : f .current = c.map encode := h.files ▸ h.good.current

lemma Held.pending (h : Held t c p f s) : f .pending = p.map encode := h.files ▸ h.good.pending

/-- What has been read is what is there. -/
lemma map_encode {o : Option Descriptor} (ho : ∀ d ∈ o, Valid d) (hd : Valid d)
    (h : o.map encode = some (encode d)) : o = some d := by
  cases o with
  | none => cases h
  | some d' => exact congrArg some (encode_inj (ho d' rfl) hd (Option.some.inj h))

/-- With nothing pending but what is current, the anchor stays. -/
lemma Held.calm (h : Held t c p f s) (hp : ∀ d ∈ p, digest d = head c) :
    Calm t c p f (head c) s := by
  have ha : s.anchor = head c := by
    rcases h.good.anchor with ha | ⟨d, hd, ha⟩
    · exact ha
    · exact ha.trans (hp d hd)
  exact ⟨h, h.good.quiet fun d hd => (hp d hd).trans ha.symm, ha⟩

lemma Held.looked (h : Held t c p f s) {r : Bool × Outcome}
    (hr : r.2 = .ok → r.1 = (s.files q).isSome) (hok : ¬ r.2 ≠ .ok) (hn : ¬ r.1 = true) :
    f q = none := by
  rw [← h.files, ← Option.not_isSome_iff_eq_none, ← hr (not_not.1 hok)]
  exact hn

lemma Inv.unlock (h : Inv s) : Inv ({ s with holder := none } : World τ) := by
  obtain ⟨c, p, hg⟩ := h
  exact ⟨c, p, hg.keep rfl rfl (fun _ _ h => h) rfl rfl fun h =>
    hg.lockFile (h.imp_right (by rintro ⟨⟩))⟩

lemma inv_empty : Inv ({} : World τ) :=
  ⟨none, none, rfl, rfl, by simp, by simp, by simp, .inl rfl, by simp, Nat.zero_le _, by simp⟩

section Spec

variable [DecidableEq τ]

/-- `Q` holds when `x` is done, if `t` makes its calls. -/
abbrev Spec {α : Type} (t : τ) (x : Prog α) (Q : α → World τ → Prop) (s : World τ) : Prop :=
  x.Meets (act t) (contract t) Q s

/-- A call that leaves everything as it is. -/
def Looks : Call → Prop
  | .openLocked _ | .close | .write .. | .advanceAnchor .. => False
  | _ => True

lemma act_looks {x : Call} (hx : Looks x) {r : Reply x} (h : act t x s r s') : s' = s := by
  cases x <;> first | exact hx.elim | exact h | exact h.1

/-- What the others keep, such a call keeps. -/
lemma spec_look {x : Call} {K : World τ → Prop} (hk : ∀ s s', Rely t s s' → K s → K s')
    (h0 : K s) (hx : Looks x) :
    Spec t (ask x) (fun r s' => K s' ∧ act t x s' r s') s := by
  refine meets_ask fun s₁ h1 hi r s₂ h2 => ?_
  obtain rfl := act_looks hx h2
  exact ⟨.refl t _, hi, hk _ _ h1 h0, h2⟩

lemma Held.look (h : Held t c p f s) {x : Call} (hx : Looks x) :
    Spec t (ask x) (fun r s' => Held t c p f s' ∧ act t x s' r s') s :=
  spec_look (fun _ _ hr h => Held.rely h hr) h hx

lemma Calm.look (h : Calm t c p f a s) {x : Call} (hx : Looks x) :
    Spec t (ask x) (fun r s' => Calm t c p f a s' ∧ act t x s' r s') s :=
  spec_look (fun _ _ hr h => Calm.rely h hr) h hx

lemma decode_error {o : Outcome} (h : decode b = .error o) : o ≠ .ok := by
  unfold decode at h
  rintro rfl
  split_ifs at h <;> cases h

lemma readDescriptor_spec {K : World τ → Prop} (hk : ∀ s s', Rely t s s' → K s → K s')
    (h0 : K s) : Spec t (readDescriptor q) (fun r s' => K s' ∧
      (r.2 = .ok → s'.files q = some (encode r.1) ∧ Proper r.1)) s := by
  refine (spec_look hk h0 (by trivial)).bind fun ⟨b, status⟩ s₁ ⟨h1, h2⟩ => ?_
  dsimp only
  split
  · exact ⟨h1, fun e => absurd e ‹_›⟩
  rename_i hok
  split
  · exact ⟨h1, by rintro ⟨⟩⟩
  cases hd : decode b with
  | error o => exact ⟨h1, fun e => absurd e (decode_error hd)⟩
  | ok d =>
    obtain ⟨he, hv⟩ := (canonical _ _).1 hd
    refine ⟨h1, fun e => ⟨?_, hv, ?_⟩⟩
    · rw [he]
      exact (h2.2 (not_not.1 hok)).1
    · by_contra hc
      dsimp only at e
      rw [if_pos hc] at e
      cases e

lemma readPayload_spec {K : World τ → Prop} (hk : ∀ s s', Rely t s s' → K s → K s') (h0 : K s)
    {capacity : ℕ} : Spec t (readPayload d capacity) (fun _ s' => K s') s := by
  unfold readPayload
  refine .ite (fun _ => h0) fun _ => ?_
  refine (spec_look hk h0 (by trivial)).bind fun ⟨b, status⟩ s₁ ⟨h1, _⟩ => ?_
  dsimp only
  refine .ite (fun _ => h1) fun _ => ?_
  exact .ite (fun _ => h1) fun _ => (spec_look hk h1 (by trivial)).bind fun _ _ h => h.1

/-! ### Publish -/

lemma spec_put_new (h : Calm t c p f a s) (h1 : q ≠ .current) (h2 : q ≠ .pending) :
    Spec t (ask (.write q b true)) (fun o s' => Calm t c p f a s' ∧ o ≠ .ok ∨
      f q = none ∧ Calm t c p (Function.update f q (some b)) a s') s := by
  refine meets_ask fun s₁ hr _ o s₂ ha => ?_
  have h := h.rely hr
  rcases ha with ⟨rfl, ho⟩ | ⟨rfl, hn⟩
  · exact ⟨.refl t _, ⟨c, p, h.good⟩, .inl ⟨h, ho⟩⟩
  · have hg := h.good.put_new (b := b) (hn rfl) h1 h2
    refine ⟨.held h.holder rfl rfl (.inl (put_of_ne h1.symm)), ⟨c, p, hg⟩,
      .inr ⟨h.files ▸ hn rfl, ⟨h.holder, ?_, hg⟩, h.quiet, h.anchor⟩⟩
    rw [← h.files]
    rfl

/-- What is kept is there, and nothing else is changed. -/
lemma keep_spec (h : Calm t c p f a s) (h1 : q ≠ .current) (h2 : q ≠ .pending) :
    Spec t (keep q b) (fun o s' => ∃ f', Calm t c p f' a s' ∧
      (∀ q' b', f q' = some b' → f' q' = some b') ∧ (o = .ok → f' q = some b)) s := by
  have hupd : f q = none → ∀ q' b', f q' = some b' →
      Function.update f q (some b) q' = some b' := by
    intro hn q' b' hq'
    rw [Function.update_of_ne fun e => by rw [e, hn] at hq'; cases hq']
    exact hq'
  refine (spec_put_new h h1 h2).bind fun o s₁ h3 => ?_
  split
  · have h4 : ∃ f', Calm t c p f' a s₁ ∧ ∀ q' b', f q' = some b' → f' q' = some b' := by
      rcases h3 with ⟨h3, -⟩ | ⟨hn, h3⟩
      · exact ⟨f, h3, fun _ _ h => h⟩
      · exact ⟨_, h3, hupd hn⟩
    obtain ⟨f', h4, h5⟩ := h4
    refine (h4.look (by trivial)).bind
      fun ⟨saved, status⟩ s₂ ⟨h6, h7⟩ => ?_
    refine ⟨f', h6, h5, fun e => ?_⟩
    split at e
    · cases e
    rename_i hs
    rw [← h6.files, (h7.2 e).1]
    exact congrArg some (not_not.1 fun hne => hs ⟨e, hne⟩)
  · rcases h3 with ⟨h3, ho⟩ | ⟨hn, h3⟩
    · exact ⟨f, h3, fun _ _ h => h, fun e => absurd e ho⟩
    · exact ⟨_, h3, hupd hn, fun _ => Function.update_self _ _ _⟩

/-- What is anchored may be made current. -/
lemma spec_put_current (h : Calm t c (some d) f (digest d) s) (hn : Next c d) :
    Spec t (ask (.write .current (encode d) false)) (fun _ _ => True) s := by
  refine meets_ask fun s₁ hr _ o s₂ ha => ?_
  have h := h.rely hr
  rcases ha with ⟨rfl, -⟩ | ⟨rfl, -⟩
  · exact ⟨.refl t _, ⟨_, _, h.good⟩, trivial⟩
  · exact ⟨.held h.holder rfl rfl (.inr ⟨c, d, h.good.current, put_self, hn, h.good.pending,
      h.anchor, h.anchor⟩), ⟨_, _, h.good.put_current h.quiet h.anchor⟩, trivial⟩

/-- **The end of `Publish`.** -/
lemma commit_spec {before : Descriptor} (h : Calm t c p f (head c) s) (hn : Next c d)
    (hd : Proper d) (hl : b.length = d.payloadSize) (hb : Sha256.hash b = d.payload) :
    Spec t (commit (head c) before d b) (fun _ _ => True) s := by
  refine (h.look (by trivial)).bind fun _ s₁ ⟨h, _⟩ => ?_
  refine .ite (fun _ => trivial) fun _ => ?_
  refine (h.look (by trivial)).bind fun _ s₁ ⟨h, _⟩ => ?_
  refine .ite (fun _ => trivial) fun _ => ?_
  refine (keep_spec h (by rintro ⟨⟩) (by rintro ⟨⟩)).bind fun _ s₁ ⟨f₁, h, hf₁, hs⟩ => ?_
  refine .ite (fun _ => trivial) fun hok => ?_
  have hs := hs (not_not.1 hok)
  refine (keep_spec h (by rintro ⟨⟩) (by rintro ⟨⟩)).bind fun _ s₁ ⟨f₂, h, hf₂, _⟩ => ?_
  have hs := hf₂ _ _ hs
  refine .ite (fun _ => trivial) fun _ => ?_
  -- The candidate is put beside what is current.
  refine Meets.bind (P := fun o s' => o = .ok → ∃ f', Calm t c (some d) f' (head c) s')
    (meets_ask fun s₂ hr _ o s₃ ha => ?_) fun o s₂ h => ?_
  · have h := h.rely hr
    rcases ha with ⟨rfl, ho⟩ | ⟨rfl, -⟩
    · exact ⟨.refl t _, ⟨c, p, h.good⟩, fun e => absurd e ho⟩
    · have hg := h.good.put_pending h.quiet h.anchor hn hd (h.files ▸ hs) hl hb
        (h.good.lockFile (.inr (by rw [h.holder]; rfl)))
      exact ⟨.held h.holder rfl rfl (.inl (put_of_ne (by rintro ⟨⟩))), ⟨_, _, hg⟩,
        fun _ => ⟨_, ⟨h.holder, rfl, hg⟩, h.quiet, h.anchor⟩⟩
  refine .ite (fun _ => trivial) fun hok => ?_
  obtain ⟨f₃, h⟩ := h (not_not.1 hok)
  refine (h.look (by trivial)).bind fun _ s₁ ⟨h, _⟩ => ?_
  refine .ite (fun _ => trivial) fun _ => ?_
  -- The anchor is asked to go on to it.
  refine Meets.bind (P := fun o s' => o = .ok → Calm t c (some d) f₃ (digest d) s')
    (meets_ask fun s₂ hr _ o s₃ ha => ?_) fun o s₂ h => ?_
  · have h := h.rely hr
    rcases ha with ⟨-, -, rfl⟩ | ⟨ho, rfl | rfl⟩
    · have hg := h.good.advance h.quiet
      exact ⟨.held h.holder rfl rfl (.inl rfl), ⟨_, _, hg⟩,
        fun _ => ⟨⟨h.holder, h.files, hg⟩, h.quiet, rfl⟩⟩
    · exact ⟨.refl t _, ⟨_, _, h.good⟩, fun e => absurd e ho⟩
    · exact ⟨.held h.holder rfl rfl (.inl rfl), ⟨_, _, h.good.unknown h.quiet h.anchor⟩,
        fun e => absurd e ho⟩
  refine .ite (fun _ => trivial) fun hok => ?_
  have h := h (not_not.1 hok)
  refine (h.look (by trivial)).bind fun _ s₁ ⟨h, _⟩ => ?_
  exact .ite (fun _ => trivial) fun _ => (spec_put_current h hn).bind fun _ _ _ => trivial

lemma stage_spec {before : Descriptor} (h : Held t c p f s) (hn : Next c d) (hd : Proper d)
    (hl : b.length = d.payloadSize) (hb : Sha256.hash b = d.payload) :
    Spec t (stage (head c) (head c) before d b) (fun _ _ => True) s := by
  refine (h.look (by trivial)).bind fun ⟨present, status⟩ s₁ ⟨h, h1⟩ => ?_
  dsimp only
  refine .ite (fun _ => trivial) fun hok => ?_
  split
  · refine (readDescriptor_spec (fun _ _ hr h => Held.rely h hr) h).bind
      fun ⟨pending, status⟩ s₂ ⟨h, h2⟩ => ?_
    dsimp only
    refine .ite (fun _ => trivial) fun hok => ?_
    refine .ite (fun _ => trivial) fun he => ?_
    obtain ⟨h3, h4⟩ := h2 (not_not.1 hok)
    rw [h.good.pending] at h3
    obtain rfl := map_encode (fun d hd => (h.good.proper d (.inr hd)).1) h4.1 h3
    refine commit_spec (h.calm fun d hd => ?_) hn hd hl hb
    cases hd
    exact not_not.1 he
  · rename_i hnone
    have h3 := h.looked h1.2 hok hnone
    rw [h.pending] at h3
    obtain rfl := Option.map_eq_none_iff.1 h3
    exact commit_spec (h.calm (by rintro _ ⟨⟩)) hn hd hl hb

/-- The lock is asked for. -/
lemma spec_openLocked {x : Bool} : Spec t (ask (.openLocked x))
    (fun o s' => o = .ok → ∃ c p, Held t c p s'.files s') s := by
  refine meets_ask fun s₁ _ ⟨c, p, hg⟩ o s₂ ha => ?_
  rcases ha with ⟨-, hn, -, rfl⟩ | ⟨ho, rfl | ⟨-, rfl⟩⟩
  · have hg' : Good c p { s₁ with holder := some t, lockFile := true } :=
      hg.keep rfl rfl (fun _ _ h => h) rfl rfl fun _ => rfl
    refine ⟨⟨fun _ => ⟨rfl, rfl, rfl⟩, fun t' ht' => ?_, fun _ => rfl, .inl rfl⟩, ⟨c, p, hg'⟩,
      fun _ => ⟨c, p, rfl, rfl, hg'⟩⟩
    rw [hn]
    exact ⟨by rintro ⟨⟩, fun e => absurd (Option.some.inj e).symm ht'⟩
  · exact ⟨.refl t _, ⟨c, p, hg⟩, fun e => absurd e ho⟩
  · exact ⟨⟨fun _ => ⟨rfl, rfl, rfl⟩, fun _ _ => .rfl, fun _ => rfl, .inl rfl⟩,
      ⟨c, p, hg.keep rfl rfl (fun _ _ h => h) rfl rfl fun _ => rfl⟩, fun e => absurd e ho⟩

/-- **`Publish` under the lock.** -/
lemma publishLocked_spec {expected : Digest} (hd : Proper d) (hl : b.length = d.payloadSize)
    (hb : Sha256.hash b = d.payload) :
    Spec t (publishLocked expected d b) (fun _ _ => True) s := by
  refine spec_openLocked.bind fun o s₁ h => ?_
  refine .ite (fun _ => trivial) fun hok => ?_
  obtain ⟨c, p, h⟩ := h (not_not.1 hok)
  generalize s₁.files = f at h
  refine (h.look (by trivial)).bind fun ⟨present, status⟩ s₁ ⟨h, h1⟩ => ?_
  dsimp only
  refine .ite (fun _ => trivial) fun hok => ?_
  split
  · refine (readDescriptor_spec (fun _ _ hr h => Held.rely h hr) h).bind
      fun ⟨before, status⟩ s₂ ⟨h, h2⟩ => ?_
    dsimp only
    refine .ite (fun _ => trivial) fun hok => ?_
    obtain ⟨h3, h4⟩ := h2 (not_not.1 hok)
    rw [h.good.current] at h3
    obtain rfl := map_encode (fun d hd => (h.good.proper d (.inl hd)).1) h4.1 h3
    refine (h.look (by trivial)).bind fun _ s₃ ⟨h, _⟩ => ?_
    refine .ite (fun _ => trivial) fun _ => ?_
    refine .ite (fun _ => trivial) fun he => ?_
    obtain ⟨he, hf⟩ := not_or.1 he
    rw [not_not.1 he, ← head_some]
    exact stage_spec h (not_not.1 hf) hd hl hb
  · rename_i hnone
    refine .ite (fun _ => trivial) fun he => ?_
    obtain ⟨he, hp, hg⟩ := (not_or.1 he).imp_right not_or.1
    have h3 := h.looked h1.2 hok hnone
    rw [h.current] at h3
    obtain rfl := Option.map_eq_none_iff.1 h3
    rw [not_not.1 he, ← head_none]
    exact stage_spec h ⟨not_not.1 hg, not_not.1 hp⟩ hd hl hb

/-! ### Reconcile -/

/-- **`Reconcile` under the lock.** -/
lemma reconcileLocked_spec {rootId streamId : Identity} :
    Spec t (reconcileLocked rootId streamId) (fun _ _ => True) s := by
  refine spec_openLocked.bind fun o s₁ h => ?_
  refine .ite (fun _ => trivial) fun hok => ?_
  obtain ⟨c, p, h⟩ := h (not_not.1 hok)
  generalize s₁.files = f at h
  refine (readDescriptor_spec (fun _ _ hr h => Held.rely h hr) h).bind
    fun ⟨pending, status⟩ s₂ ⟨h, h2⟩ => ?_
  dsimp only
  refine .ite (fun _ => trivial) fun hok => ?_
  obtain ⟨h3, h4⟩ := h2 (not_not.1 hok)
  rw [h.good.pending] at h3
  obtain rfl := map_encode (fun d hd => (h.good.proper d (.inr hd)).1) h4.1 h3
  refine .ite (fun _ => trivial) fun _ => ?_
  refine (h.look (by trivial)).bind fun _ s₃ ⟨h, h5⟩ => ?_
  refine .ite (fun _ => trivial) fun hok => ?_
  -- What is pending is anchored, and stays so.
  have ha : s₃.anchor = digest pending := h5.2 (not_not.1 hok)
  have h : Calm t c (some pending) f (digest pending) s₃ :=
    ⟨h, h.good.quiet fun d hd => by cases hd; exact ha.symm, ha⟩
  refine (readPayload_spec (fun _ _ hr h => Calm.rely h hr) h).bind fun ⟨_, status⟩ s₄ h => ?_
  dsimp only
  refine .ite (fun _ => trivial) fun _ => ?_
  refine (h.look (by trivial)).bind fun ⟨present, status⟩ s₅ ⟨h, h6⟩ => ?_
  dsimp only
  refine .ite (fun _ => trivial) fun hok => ?_
  have hcomplete : ∀ {s} before, Calm t c (some pending) f (digest pending) s → Next c pending →
      Spec t (complete before pending) (fun _ _ => True) s := by
    intro s before h hn
    refine (h.look (by trivial)).bind fun _ s₆ ⟨h, _⟩ => ?_
    exact .ite (fun _ => trivial) fun _ => spec_put_current h hn
  split
  · refine (readDescriptor_spec (fun _ _ hr h => Calm.rely h hr) h).bind
      fun ⟨before, status⟩ s₆ ⟨h, h7⟩ => ?_
    dsimp only
    refine .ite (fun _ => trivial) fun hok => ?_
    obtain ⟨h8, h9⟩ := h7 (not_not.1 hok)
    rw [h.good.current] at h8
    obtain rfl := map_encode (fun d hd => (h.good.proper d (.inl hd)).1) h9.1 h8
    refine .ite (fun _ => trivial) fun _ => ?_
    refine .ite (fun _ => trivial) fun hf => ?_
    exact hcomplete before h (not_not.1 hf)
  · rename_i hnone
    refine .ite (fun _ => trivial) fun he => ?_
    have h8 := h.toHeld.looked h6.2 hok hnone
    rw [h.current] at h8
    obtain rfl := Option.map_eq_none_iff.1 h8
    obtain ⟨hg, hp⟩ := not_or.1 he
    exact hcomplete {} h ⟨not_not.1 hg, not_not.1 hp⟩

/-! ### All operations -/

lemma spec_close : Spec t (ask .close) (fun _ s' => s'.holder ≠ some t) s := by
  refine meets_ask fun s₁ _ ⟨c, p, hg⟩ _ s₂ ha => ?_
  obtain rfl : s₂ = s₁.release t := ha
  unfold World.release
  split
  · rename_i hh
    refine ⟨⟨fun _ => ⟨rfl, rfl, rfl⟩, fun t' ht' => ?_, id, .inl rfl⟩, ⟨c, p, ?_⟩, by rintro ⟨⟩⟩
    · rw [hh]
      exact ⟨fun e => absurd (Option.some.inj e).symm ht', by rintro ⟨⟩⟩
    · exact hg.keep rfl rfl (fun _ _ h => h) rfl rfl fun h =>
        hg.lockFile (h.imp_right (by rintro ⟨⟩))
  · rename_i hh
    exact ⟨.refl t _, ⟨c, p, hg⟩, hh⟩

omit [DecidableEq τ] in
lemma not_held : ∀ s s', Rely t s s' → s.holder ≠ some t → s'.holder ≠ some t :=
  fun _ _ hr h => h ∘ hr.holder.2

/-- **Whatever a process calls** keeps to what is agreed on, wherever it ends. -/
lemma body_spec (k : Operation) (h : s.holder ≠ some t) :
    Spec t k.body (fun _ s' => s'.holder ≠ some t) s := by
  cases k with
  | load rootId streamId capacity =>
    refine (spec_look not_held h (by trivial)).bind fun _ s₁ ⟨h, _⟩ => ?_
    refine .ite (fun _ => h) fun _ => ?_
    refine (readDescriptor_spec not_held h).bind fun ⟨d, status⟩ s₂ ⟨h, _⟩ => ?_
    dsimp only
    refine .ite (fun _ => h) fun _ => ?_
    refine .ite (fun _ => h) fun _ => ?_
    refine (spec_look not_held h (by trivial)).bind fun _ s₃ ⟨h, _⟩ => ?_
    exact .ite (fun _ => h) fun _ => (readPayload_spec not_held h).bind fun _ _ h => h
  | publish expected d payload =>
    show Spec t (publish expected d payload) _ s
    unfold publish
    refine .ite (fun _ => h) fun he => ?_
    push Not at he
    refine (spec_look not_held h (by trivial)).bind fun _ s₁ ⟨h, _⟩ => ?_
    refine .ite (fun _ => h) fun _ => ?_
    refine (publishLocked_spec ⟨he.1, he.2.1⟩ he.2.2.1.symm he.2.2.2).bind fun _ _ _ => ?_
    exact spec_close.bind fun _ _ h => h
  | reconcile rootId streamId =>
    refine (spec_look not_held h (by trivial)).bind fun _ s₁ ⟨h, _⟩ => ?_
    exact .ite (fun _ => h) fun _ =>
      reconcileLocked_spec.bind fun _ _ _ => spec_close.bind fun _ _ h => h

/-! ### All processes together -/

variable (τ) in
/-- Between two calls no process has the lock. -/
abbrev discipline : Machine.Discipline τ Operation Unit Returned (World τ) where
  inv := Inv
  rely := Rely
  guar t _ _ := Guar t
  knows t _ s := s.holder ≠ some t
  result _ _ _ _ _ := True
  rely_refl := Rely.refl
  rely_trans _ _ _ _ := Rely.trans

variable (τ) in
theorem machine_sound : (machine τ).Sound (discipline τ) where
  body t k v s _ h := (body_spec k h).bind fun _ _ h => ⟨h, trivial⟩
  guar _ _ _ _ _ _ _ _ h ht := Guar.rely h ht
  others s s' hi h := by
    obtain ⟨c, p, hg⟩ := hi
    exact ⟨⟨c, p, hg.lands h⟩, fun _ => Lands.rely h⟩
  halt t s s' hi h := by
    obtain rfl : s' = s.release t := h
    unfold World.release
    split
    · rename_i hh
      refine ⟨hi.unlock, by rintro ⟨⟩, fun t' ht' => ?_⟩
      have hne : s.holder ≠ some t' := fun e => ht' (Option.some.inj (e.symm.trans hh))
      exact ⟨⟨fun e => absurd e hne, by rintro ⟨⟩⟩, fun e => absurd e hne, fun e => absurd e hne,
        fun e => absurd e hne⟩
    · rename_i hh
      exact ⟨hi, hh, fun _ _ => .refl _ _⟩
  crash s s' hi h := by
    obtain rfl : s' = { s with holder := none } := h
    exact ⟨hi.unlock, fun _ => by rintro ⟨⟩⟩
  knows t _ s s' hr h := not_held s s' hr h
  result _ _ _ _ _ _ _ _ := trivial

end Spec

end NiayanAssurance.CheckpointStore
