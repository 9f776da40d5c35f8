import NiayanAssurance.Recovery
import NiayanAssurance.RecoveryCohort
import NiayanAssurance.Lib.Checked

/-!
The two rules by which a recovery is signed: the loop of the recovery tool over the signatures
of an anchor, and the quorum of the cohort machine. Either decides whether the signers are a
committee.
-/

namespace NiayanAssurance.RecoveryQuorum

open NiayanAssurance.Lib NiayanAssurance.Types NiayanAssurance.RecoveryIo NiayanAssurance.Recovery
open NiayanAssurance.RecoveryCohort (Witness Tally tally quorum)

/-! ### Committees -/

/-- Enough signers, but no more than 32, none of whom depends on another; some are for the
recovery and some are witnesses of it. -/
structure Committee {α : Type} (apart : α → α → Prop) (recovers : α → Bool) (needed : ℕ)
    (l : List α) : Prop where
  apart : l.Pairwise apart
  enough : needed ≤ l.length
  few : l.length ≤ 32
  recovery : ∃ x ∈ l, recovers x = true
  witness : ∃ x ∈ l, recovers x = false

/-- A committee does not depend on how its members are written down. -/
theorem committee_map {α β : Type} {apart : α → α → Prop} {apart' : β → β → Prop}
    {recovers : α → Bool} {recovers' : β → Bool} {f : α → β} {n : ℕ} {l : List α}
    (ha : ∀ x ∈ l, ∀ y ∈ l, apart' (f x) (f y) ↔ apart x y)
    (hr : ∀ x, recovers' (f x) = recovers x) :
    Committee apart' recovers' n (l.map f) ↔ Committee apart recovers n l := by
  have hp : (l.map f).Pairwise apart' ↔ l.Pairwise apart := by
    rw [List.pairwise_map]
    exact List.Pairwise.iff_of_mem fun {x y} hx hy => ha x hx y hy
  have hex : ∀ b, (∃ y ∈ l.map f, recovers' y = b) ↔ ∃ x ∈ l, recovers x = b := by
    simp [hr]
  constructor
  · rintro ⟨h1, h2, h3, h4, h5⟩
    rw [List.length_map] at h2 h3
    exact ⟨hp.mp h1, h2, h3, (hex _).mp h4, (hex _).mp h5⟩
  · rintro ⟨h1, h2, h3, h4, h5⟩
    exact ⟨hp.mpr h1, by rwa [List.length_map], by rwa [List.length_map], (hex _).mpr h4,
      (hex _).mpr h5⟩

/-! ### The quorum of the cohort machine -/

/-- A witness that counts. -/
structure Counts (expected : Digest) (x : Witness) : Prop where
  authenticated : x.authenticated = true
  current : x.current = true
  anchorHash : x.anchorHash = expected
  principal : x.principal ≠ zeroIdentity
  domainId : x.domainId ≠ zeroIdentity

/-- Two witnesses neither of whom depends on the other. -/
def Apart (x y : Witness) : Prop := x.principal ≠ y.principal ∧ x.domainId ≠ y.domainId

section Quorum

variable {expected : Digest} {before w : List Witness} {t t' : Tally} {n : ℕ}

/-- What the loop has found at its end. -/
lemma tally_iff : tally expected before t w = some t' ↔
    (∀ x ∈ w, Counts expected x) ∧ w.Pairwise Apart ∧ (∀ x ∈ w, ∀ y ∈ before, Apart y x)
      ∧ t' = ⟨t.count + w.length, t.recovery || w.any Witness.recoveryRole,
        t.independent || w.any fun x => !x.recoveryRole⟩ := by
  induction w generalizing before t with
  | nil => simp [tally, eq_comm]
  | cons x w ih =>
    rw [tally]
    split
    · rename_i h
      refine iff_of_false nofun fun ⟨h1, _⟩ => ?_
      obtain ⟨a, b, c, d, e⟩ := h1 x List.mem_cons_self
      simp_all
    rename_i hcount
    push Not at hcount
    obtain ⟨h1, h2, h3, h4, h5⟩ := hcount
    have hx : Counts expected x := ⟨by simpa using h1, by simpa using h2, h3, h4, h5⟩
    split
    · rename_i h
      refine iff_of_false nofun fun ⟨_, _, hb, _⟩ => ?_
      obtain ⟨y, hy, hd⟩ := List.any_eq_true.mp h
      obtain ⟨h6, h7⟩ := hb x List.mem_cons_self y hy
      rcases of_decide_eq_true hd with hd | hd
      · exact h6 hd.symm
      · exact h7 hd.symm
    rename_i hany
    have hbefore : ∀ y ∈ before, Apart y x := fun y hy => by
      have : ¬ (x.principal = y.principal ∨ x.domainId = y.domainId) := fun hd =>
        hany (List.any_eq_true.mpr ⟨y, hy, decide_eq_true hd⟩)
      push Not at this
      exact ⟨this.1.symm, this.2.symm⟩
    rw [ih]
    simp only [List.forall_mem_cons, List.pairwise_cons, List.mem_append, List.mem_singleton,
      List.length_cons, List.any_cons, hx, true_and, Bool.or_assoc,
      show t.count + 1 + w.length = t.count + (w.length + 1) by omega]
    constructor
    · rintro ⟨hw, hp, hb, rfl⟩
      exact ⟨hw, ⟨fun y hy => hb y hy x (.inr rfl), hp⟩,
        ⟨hbefore, fun y hy z hz => hb y hy z (.inl hz)⟩, rfl⟩
    · rintro ⟨hw, ⟨hxw, hp⟩, ⟨-, hb⟩, rfl⟩
      refine ⟨hw, hp, fun y hy z hz => ?_, rfl⟩
      rcases hz with hz | rfl
      · exact hb y hy z hz
      · exact hxw y hy

/-- **The quorum of the machine.** -/
theorem quorum_iff : quorum w expected n = true ↔ expected ≠ zeroDigest ∧ 2 ≤ n
    ∧ (∀ x ∈ w, Counts expected x) ∧ Committee Apart Witness.recoveryRole n w := by
  unfold quorum
  split
  · rename_i h
    refine iff_of_false nofun fun ⟨h1, h2, _, hc⟩ => ?_
    have := hc.few
    rcases h with h | h | h
    · exact h1 h
    · omega
    · omega
  rename_i h
  push Not at h
  obtain ⟨h1, h2, h3⟩ := h
  have ht : ∀ t', tally expected [] {} w = some t' ↔ _ := fun t' => tally_iff
  cases hw : tally expected [] {} w with
  | none =>
    refine iff_of_false nofun fun ⟨_, _, hall, hc⟩ => ?_
    have := (ht _).mpr ⟨hall, hc.apart, by simp, rfl⟩
    rw [hw] at this
    cases this
  | some t' =>
    obtain ⟨hall, hp, -, rfl⟩ := (ht t').mp hw
    simp only [Bool.and_eq_true, decide_eq_true_eq, Bool.false_or, List.any_eq_true, Nat.zero_add,
      Bool.not_eq_true']
    constructor
    · rintro ⟨⟨h4, h5⟩, h6⟩
      exact ⟨h1, h3, hall, hp, h4, h2, h5, h6⟩
    · rintro ⟨-, -, -, hc⟩
      exact ⟨⟨hc.enough, hc.recovery⟩, hc.witness⟩

end Quorum

/-! ### The signatures of an anchor -/

/-- The registered key that a signature names. -/
def named (t : Trust) (v : Value) : Option Key :=
  match fields v ["key", "signature"] with
  | .error _ => none
  | .ok d =>
    match ident (d.get "key") with
    | .error _ => none
    | .ok id => t.key id

/-- The signature is a signature of the key `k`, over the anchor `raw`. -/
def signs (L : Library) (raw : Bytes) (k : Key) (v : Value) : Bool :=
  match fields v ["key", "signature"] with
  | .error _ => false
  | .ok d =>
    match d.get "signature" with
    | .text s => decide (fullmatch isHex 128 128 s)
      && L.verify (fromhex k.publicKey) (fromhex s) (DOMAIN ++ raw)
    | _ => false

/-- The key that has signed, if it is registered and not revoked. -/
def signer (L : Library) (t : Trust) (raw : Bytes) (v : Value) : Option Key :=
  (named t v).filter fun k => !k.revoked && signs L raw k v

def KeysApart (k l : Key) : Prop := k.id ≠ l.id ∧ k.domain ≠ l.domain

def Key.recovers (k : Key) : Bool := decide (k.role = .recovery)

section Signatures

variable {L : Library} {t : Trust} {raw : Bytes} {v : Value} {s s' : Signers} {k : Key}
  {l : List Value}

lemma key_id {id : Text} (h : t.key id = some k) : k.id = id := by
  simpa using List.find?_some h

lemma key_mem {id : Text} (h : t.key id = some k) : k ∈ t.keys := List.mem_of_find?_eq_some h

lemma named_iff : named t v = some k ↔ ∃ d id, fields v ["key", "signature"] = .ok d
    ∧ ident (d.get "key") = .ok id ∧ t.key id = some k := by
  unfold named
  cases fields v ["key", "signature"] with
  | error e => simp
  | ok d => cases hi : ident (d.get "key") <;> simp [hi]

lemma signs_iff : signs L raw k v = true ↔ ∃ d x, fields v ["key", "signature"] = .ok d
    ∧ d.get "signature" = .text x ∧ fullmatch isHex 128 128 x
    ∧ L.verify (fromhex k.publicKey) (fromhex x) (DOMAIN ++ raw) = true := by
  unfold signs
  cases fields v ["key", "signature"] with
  | error e => simp
  | ok d => cases hd : d.get "signature" <;> simp [hd]

lemma signer_iff : signer L t raw v = some k ↔
    named t v = some k ∧ k.revoked = false ∧ signs L raw k v = true := by
  simp [signer, Option.filter_eq_some_iff]

/-- What one signature adds to those that were seen. -/
lemma step_iff : signatureStep L t raw s v = .ok s' ↔ ∃ k, signer L t raw v = some k
    ∧ k.id ∉ s.seen ∧ k.domain ∉ s.domains
    ∧ s' = ⟨s.seen ++ [k.id], s.domains ++ [k.domain], s.roles ++ [k.role]⟩ := by
  simp only [signer_iff, named_iff, signs_iff, signatureStep, bind_ok]
  constructor
  · rintro ⟨d, hd, id, hid, h⟩
    split at h
    · cases h
    rename_i k hk
    obtain rfl := key_id hk
    simp only [bind_ok, pure_ok, require_ok, text_ok] at h
    obtain ⟨-, hseen, -, ⟨hrev, hdom⟩, x, hx, -, hhex, -, hver, rfl⟩ := h
    exact ⟨k, ⟨⟨d, k.id, hd, hid, hk⟩, hrev, d, x, hd, hx, hhex, hver⟩, hseen, hdom, rfl⟩
  · rintro ⟨k, ⟨⟨d, id, hd, hid, hk⟩, hrev, d', x, hd', hx, hhex, hver⟩, hseen, hdom, rfl⟩
    obtain rfl := key_id hk
    obtain rfl := Except.ok.inj (hd.symm.trans hd')
    refine ⟨d, hd, k.id, hid, ?_⟩
    rw [hk]
    simp only [bind_ok, pure_ok, require_ok, text_ok]
    exact ⟨(), hseen, (), ⟨hrev, hdom⟩, x, hx, (), hhex, (), hver, trivial⟩

/-- What the loop over the signatures has seen at its end. -/
lemma fold_iff : l.foldlM (signatureStep L t raw) s = .ok s' ↔ ∃ ks : List Key,
    l.map (signer L t raw) = ks.map some ∧ ks.Pairwise KeysApart
      ∧ (∀ k ∈ ks, k.id ∉ s.seen ∧ k.domain ∉ s.domains)
      ∧ s' = ⟨s.seen ++ ks.map Key.id, s.domains ++ ks.map Key.domain,
        s.roles ++ ks.map Key.role⟩ := by
  induction l generalizing s with
  | nil =>
    rw [List.foldlM_nil, pure_ok]
    constructor
    · rintro rfl
      exact ⟨[], by simp⟩
    · rintro ⟨ks, hks, -, -, rfl⟩
      obtain rfl : ks = [] := by simpa using hks
      simp
  | cons v l ih =>
    simp only [foldlM_cons_ok, step_iff, ih]
    constructor
    · rintro ⟨_, ⟨k, hk, hseen, hdom, rfl⟩, ks, hks, hp, hout, rfl⟩
      refine ⟨k :: ks, by simp [hk, hks], List.pairwise_cons.mpr ⟨fun k' hk' => ?_, hp⟩, ?_,
        by simp⟩
      · obtain ⟨h1, h2⟩ := hout k' hk'
        exact ⟨fun h => h1 (by simp [h]), fun h => h2 (by simp [h])⟩
      · rintro k' (_ | ⟨_, hk'⟩)
        · exact ⟨hseen, hdom⟩
        · obtain ⟨h1, h2⟩ := hout k' hk'
          exact ⟨fun h => h1 (List.mem_append_left _ h), fun h => h2 (List.mem_append_left _ h)⟩
    · rintro ⟨ks, hks, hp, hout, rfl⟩
      cases ks with
      | nil => simp at hks
      | cons k ks =>
        obtain ⟨hk, hks⟩ := List.cons.inj hks
        obtain ⟨hfirst, hp⟩ := List.pairwise_cons.mp hp
        refine ⟨_, ⟨k, hk, (hout k List.mem_cons_self).1, (hout k List.mem_cons_self).2, rfl⟩, ks,
          hks, hp, fun k' hk' => ?_, by simp⟩
        obtain ⟨h1, h2⟩ := hout k' (List.mem_cons_of_mem _ hk')
        obtain ⟨h3, h4⟩ := hfirst k' hk'
        simp only [List.mem_append, List.mem_singleton]
        exact ⟨fun h => h.elim h1 fun h => h3 h.symm, fun h => h.elim h2 fun h => h4 h.symm⟩

/-- **The signatures of an anchor** are accepted when their signers are a committee. -/
theorem signatures_iff : signatures L t raw l = .ok () ↔ ∃ ks : List Key,
    l.map (signer L t raw) = ks.map some ∧ Committee KeysApart Key.recovers t.threshold ks := by
  simp only [signatures, bind_ok, require_ok, fold_iff]
  have hlen : ∀ {ks : List Key}, l.map (signer L t raw) = ks.map some → l.length = ks.length :=
    fun h => by simpa using congrArg List.length h
  have hrole : ∀ {ks : List Key} (b : Bool), (∃ k ∈ ks, Key.recovers k = b) ↔
      (if b then Role.recovery else Role.witness) ∈ ks.map Key.role := by
    intro ks b
    simp only [List.mem_map]
    refine exists_congr fun k => and_congr_right fun _ => ?_
    cases b <;> cases hk : k.role <;> simp [Key.recovers, hk]
  constructor
  · rintro ⟨-, ⟨h1, h2⟩, _, ⟨ks, hks, hp, -, rfl⟩, h3, h4⟩
    refine ⟨ks, hks, hp, hlen hks ▸ h1, hlen hks ▸ h2, (hrole true).mpr ?_, (hrole false).mpr ?_⟩
    · simpa using h3
    · simpa using h4
  · rintro ⟨ks, hks, hp, h1, h2, h3, h4⟩
    refine ⟨(), ⟨hlen hks ▸ h1, hlen hks ▸ h2⟩, _, ⟨ks, hks, hp, by simp, rfl⟩, ?_, ?_⟩
    · simpa using (hrole true).mp h3
    · simpa using (hrole false).mp h4

end Signatures

/-! ### The two rules agree -/

/-- The witness that the cohort machine is shown for a signature: that of the key it names, which
counts if the signature does. -/
def witness (L : Library) (t : Trust) (raw : Bytes) (encodeId encodeDomain : Text → Identity)
    (expected : Digest) (v : Value) : Witness :=
  match named t v with
  | none => { anchorHash := expected }
  | some k =>
    { principal := encodeId k.id
      domainId := encodeDomain k.domain
      anchorHash := expected
      authenticated := !k.revoked && signs L raw k v
      current := !k.revoked && signs L raw k v
      recoveryRole := Key.recovers k }

/-- The names of the registered keys, and of their domains, are told apart as identities, none of
which is zero. -/
structure Encodes (t : Trust) (encodeId encodeDomain : Text → Identity) : Prop where
  id : ∀ k ∈ t.keys, ∀ l ∈ t.keys, encodeId k.id = encodeId l.id → k.id = l.id
  domain : ∀ k ∈ t.keys, ∀ l ∈ t.keys, encodeDomain k.domain = encodeDomain l.domain →
    k.domain = l.domain
  id_ne : ∀ k ∈ t.keys, encodeId k.id ≠ zeroIdentity
  domain_ne : ∀ k ∈ t.keys, encodeDomain k.domain ≠ zeroIdentity

section Agree

variable {L : Library} {t : Trust} {raw : Bytes} {v : Value} {k : Key} {l : List Value}
  {encodeId encodeDomain : Text → Identity} {expected : Digest} {ks : List Key}

/-- The witness of a key that has signed. -/
def seated (encodeId encodeDomain : Text → Identity) (expected : Digest) (k : Key) : Witness :=
  ⟨encodeId k.id, encodeDomain k.domain, expected, true, true, Key.recovers k⟩

lemma signer_mem (h : signer L t raw v = some k) : k ∈ t.keys := by
  obtain ⟨d, id, -, -, hk⟩ := named_iff.mp (signer_iff.mp h).1
  exact key_mem hk

lemma witness_signer (h : signer L t raw v = some k) :
    witness L t raw encodeId encodeDomain expected v = seated encodeId encodeDomain expected k := by
  obtain ⟨hk, hr, hs⟩ := signer_iff.mp h
  simp [witness, seated, hk, hr, hs]

/-- A witness counts when its key has signed. -/
lemma counts_iff (he : Encodes t encodeId encodeDomain) :
    Counts expected (witness L t raw encodeId encodeDomain expected v) ↔
      ∃ k, signer L t raw v = some k := by
  constructor
  · intro hc
    have ha := hc.authenticated
    cases hn : named t v with
    | none => simp [witness, hn] at ha
    | some k =>
      simp only [witness, hn, Bool.and_eq_true, Bool.not_eq_true'] at ha
      exact ⟨k, signer_iff.mpr ⟨hn, ha⟩⟩
  · rintro ⟨k, hk⟩
    rw [witness_signer hk]
    exact ⟨rfl, rfl, rfl, he.id_ne k (signer_mem hk), he.domain_ne k (signer_mem hk)⟩

/-- All signatures have signers, when all of their witnesses count. -/
lemma signers_of (he : Encodes t encodeId encodeDomain)
    (h : ∀ x ∈ l.map (witness L t raw encodeId encodeDomain expected), Counts expected x) :
    ∃ ks : List Key, l.map (signer L t raw) = ks.map some := by
  induction l with
  | nil => exact ⟨[], rfl⟩
  | cons v l ih =>
    obtain ⟨k, hk⟩ := (counts_iff he).mp (h _ List.mem_cons_self)
    obtain ⟨ks, hks⟩ := ih fun x hx => h x (List.mem_cons_of_mem _ hx)
    exact ⟨k :: ks, by simp [hk, hks]⟩

lemma witnesses_eq (h : l.map (signer L t raw) = ks.map some) :
    l.map (witness L t raw encodeId encodeDomain expected) =
      ks.map (seated encodeId encodeDomain expected) := by
  induction l generalizing ks with
  | nil =>
    obtain rfl : ks = [] := by simpa using h
    rfl
  | cons v l ih =>
    cases ks with
    | nil => simp at h
    | cons k ks =>
      obtain ⟨hk, hks⟩ := List.cons.inj h
      rw [List.map_cons, List.map_cons, witness_signer hk, ih hks]

lemma signers_mem (h : l.map (signer L t raw) = ks.map some) : ∀ k ∈ ks, k ∈ t.keys := by
  intro k hk
  have hmem : some k ∈ l.map (signer L t raw) := h ▸ List.mem_map_of_mem hk
  obtain ⟨v, -, hv⟩ := List.mem_map.mp hmem
  exact signer_mem hv

/-- The signers are a committee just when their witnesses are. -/
lemma committee_seated (he : Encodes t encodeId encodeDomain) (hk : ∀ k ∈ ks, k ∈ t.keys) {n : ℕ} :
    Committee Apart Witness.recoveryRole n (ks.map (seated encodeId encodeDomain expected)) ↔
      Committee KeysApart Key.recovers n ks := by
  refine committee_map (fun x hx y hy => and_congr (not_congr ?_) (not_congr ?_)) fun x => rfl
  · exact ⟨he.id x (hk x hx) y (hk y hy), congrArg _⟩
  · exact ⟨he.domain x (hk x hx) y (hk y hy), congrArg _⟩

lemma validateTrust_threshold {trust : Value} (h : validateTrust trust = .ok t) :
    2 ≤ t.threshold := by
  simp only [validateTrust, bind_ok, pure_ok] at h
  obtain ⟨d, -, f, -, -, -, n, -, e, -, g, -, threshold, ht, -, -, -, -, -, -, ks, -, rfl⟩ := h
  unfold integer at ht
  split at ht
  · rename_i i _
    simp only [bind_ok, require_ok, pure_ok] at ht
    obtain ⟨-, ⟨hlow, -⟩, rfl⟩ := ht
    show 2 ≤ i.toNat
    omega
  · cases ht

end Agree

/-- **The two rules agree** on every anchor whose hash is not zero; of an anchor whose hash is
zero the cohort machine accepts no signatures. -/
theorem quorum_agrees (L : Library) (trust : Value) (t : Trust) (raw : Bytes) (l : List Value)
    (encodeId encodeDomain : Text → Identity) (expected : Digest)
    (ht : validateTrust trust = .ok t) (he : Encodes t encodeId encodeDomain) :
    quorum (l.map (witness L t raw encodeId encodeDomain expected)) expected t.threshold = true ↔
      expected ≠ zeroDigest ∧ signatures L t raw l = .ok () := by
  rw [quorum_iff, signatures_iff]
  refine and_congr_right fun _ => ?_
  constructor
  · rintro ⟨-, hall, hc⟩
    obtain ⟨ks, hks⟩ := signers_of he hall
    rw [witnesses_eq hks] at hc
    exact ⟨ks, hks, (committee_seated he (signers_mem hks)).mp hc⟩
  · rintro ⟨ks, hks, hc⟩
    refine ⟨validateTrust_threshold ht, fun x hx => ?_, ?_⟩
    · obtain ⟨v, hv, rfl⟩ := List.mem_map.mp hx
      have hmem : signer L t raw v ∈ ks.map some := hks ▸ List.mem_map_of_mem hv
      obtain ⟨k, -, hk⟩ := List.mem_map.mp hmem
      exact (counts_iff he).mpr ⟨k, hk.symm⟩
    · rw [witnesses_eq hks]
      exact (committee_seated he (signers_mem hks)).mpr hc

/-- The trust policy of the cohort, as it is read. -/
def somePolicy : Trust where
  node := "node1".toList
  trustEpoch := 4
  minGeneration := 9
  threshold := 2
  maxAnchorLifetime := 1000
  keys := [⟨"k0".toList, "d0".toList, .recovery, hex (be 32 recoveryKey), false⟩,
    ⟨"k1".toList, "d1".toList, .witness, hex (be 32 witnessKey), false⟩]

/-- A name as an identity. -/
def someIdentity (s : Text) : Identity := Block.ofBytes 16 (ascii s)

lemma somePolicy_valid : validateTrust someTrust = .ok somePolicy := by decide +kernel

lemma somePolicy_encodes : Encodes somePolicy someIdentity someIdentity :=
  ⟨by decide +kernel, by decide +kernel, by decide +kernel, by decide +kernel⟩

theorem quorum_agrees_someSignatures :
    quorum (someSignatures.map (witness someLibrary somePolicy (ascii (render someAnchor))
        someIdentity someIdentity (Sha256.hash (ascii (render someAnchor)))))
      (Sha256.hash (ascii (render someAnchor))) 2 = true ↔
    Sha256.hash (ascii (render someAnchor)) ≠ zeroDigest ∧
      signatures someLibrary somePolicy (ascii (render someAnchor)) someSignatures = .ok () :=
  quorum_agrees someLibrary someTrust somePolicy (ascii (render someAnchor)) someSignatures
    someIdentity someIdentity (Sha256.hash (ascii (render someAnchor))) somePolicy_valid
    somePolicy_encodes

/-- **A hash that is zero**: the tool accepts the signatures, the cohort machine does not. -/
theorem zero_hash_refused : validateTrust someTrust = .ok somePolicy
    ∧ Encodes somePolicy someIdentity someIdentity
    ∧ ¬ (quorum (someSignatures.map (witness someLibrary somePolicy (ascii (render someAnchor))
        someIdentity someIdentity zeroDigest)) zeroDigest somePolicy.threshold = true ↔
      signatures someLibrary somePolicy (ascii (render someAnchor)) someSignatures = .ok ()) := by
  refine ⟨somePolicy_valid, somePolicy_encodes, ?_⟩
  have hs : signatures someLibrary somePolicy (ascii (render someAnchor)) someSignatures
      = .ok () := by
    decide +kernel
  rw [iff_true_right hs]
  decide

end NiayanAssurance.RecoveryQuorum
