import NiayanAssurance.ControlAdmin

/-!
From a file to the latch: what is prepared with the tool is carried out just if those who have
signed it are enough for it, and it is in time.
-/

namespace NiayanAssurance.ControlCarried

open NiayanAssurance.Lib NiayanAssurance.Types NiayanAssurance.Control NiayanAssurance.Atomic
open NiayanAssurance.ControlCodec NiayanAssurance.ControlRuns NiayanAssurance.ControlIo
open NiayanAssurance.ControlAdmin
open NiayanAssurance.Ingress (VerifyDetached Signature PublicKey)

/-- A host that answers all that it is asked. -/
def calm (euid : ℕ) (boot : Identity) (now later : Counter) : SubmitHost :=
  let file : ReadHost := { owner := euid }
  { euid, authorities := file, authoritiesAgain := file, state := file, saved := file,
    boot := .ok boot, now := .ok now, later := .ok later }

/-- The submission is done, and the state has become `s`. -/
def Moves (good : VerifyDetached) (d : Directory Name) (scope : Identity) (x : Submission)
    (h : SubmitHost) (s : State) : Prop :=
  (submit good d scope x h).2 = .ok ∧ s.Valid
    ∧ (submit good d scope x h).1.cached .state = some s.encode ∧ d.cached .state ≠ some s.encode

/-- The state of the directory is `before`, under the authority `a`. -/
structure Stands (d : Directory Name) (a : Authority) (before : Option State) : Prop where
  file : d.cached .state = before.map State.encode
  governs : ∀ s, before = some s → Governs a s

/-- A file may be there only if it is the same. -/
def Fits (d : Directory Name) (n : Name) (data : Bytes) : Prop :=
  ∀ b, d.cached n = some b → b = data

/-- There is room in the archive for what stands for `s'`. -/
structure Room (d : Directory Name) (id : Identity) (x : Submission) (before : Option State)
    (s' : State) : Prop where
  old : ∀ s, before = some s → Fits d (.history (stateHash s)) s.encode
  apart : ∀ s, before = some s → stateHash s ≠ stateHash s'
  request : Fits d (.request id) x.record
  after : Fits d (.history (stateHash s')) s'.encode

/-- The signers whose signatures are there. -/
def signedBy (sigs : PublicKey → Option Signature) (a : Authority) : VerifiedSet :=
  Finset.univ.filter fun i => (i : ℕ) < a.count
    ∧ (sigs (a.key i).publicKey).getD (Block.zero 64) ≠ Block.zero 64

/-- What is left to be checked of a proposal that has been made of a wish. -/
structure Allowed (w : Wish) (a : Authority) (before : Option State) (v : VerifiedSet)
    (boot₀ : Identity) (now₀ : Counter) (boot : Identity) (now : Counter) : Prop where
  booted : boot = boot₀ ∧ boot ≠ zeroIdentity
  timely : (now₀ : ℕ) ≤ now ∧ (now : ℕ) < now₀ + w.ttl
  named : w.requestId ≠ zeroIdentity ∧ w.reason ≠ zeroDigest ∧ (w.trustEpoch : ℕ) ≠ 0
  digest : authorityHash a ≠ zeroDigest
  first : before = none → w.desired = .quarantined
  next : ∀ s, before = some s → stateHash s ≠ zeroDigest ∧ (s.revision : ℕ) ≠ Counter.last
    ∧ (s.trustEpoch : ℕ) ≤ w.trustEpoch ∧ w.requestId ≠ s.lastRequest
  /-- Enough have signed. -/
  enough : a.tightenThreshold ≤ v.card
  /-- To relax it takes more of them, of both duties and of two domains, and a new epoch. -/
  relax : ∀ s, before = some s → w.desired.pos < s.current.pos → a.resumeThreshold ≤ v.card
    ∧ (∃ i ∈ v, (a.key i).duty = .operations) ∧ (∃ i ∈ v, (a.key i).duty = .security)
    ∧ (∃ i ∈ v, ∃ j ∈ v, (a.key i).domain ≠ (a.key j).domain)
    ∧ (s.trustEpoch : ℕ) < w.trustEpoch ∧ w.recoveryReceipt ≠ zeroDigest

section Decision

variable {w : Wish} {a : Authority} {before : Option State} {v : VerifiedSet}
  {boot₀ boot : Identity} {now₀ now : Counter} {s : State}

lemma expires_proposed (h : (now₀ : ℕ) + w.ttl ≤ Counter.last) :
    ((proposed w a before boot₀ now₀).expires : ℕ) = now₀ + w.ttl := Counter.val_ofNat h

/-- **What is left to the decision**: the rest has been seen to when the proposal was made. -/
lemma accepts_proposed (hv : a.Valid) (hw : w.scope = a.scope)
    (hb : ∀ s, before = some s → Governs a s) (hk : ∀ i ∈ v, (i : ℕ) < a.count)
    (hl : 0 < (w.ttl : ℕ) ∧ (w.ttl : ℕ) ≤ 300000 ∧ (now₀ : ℕ) + w.ttl ≤ Counter.last) :
    Accepts a before ⟨proposed w a before boot₀ now₀, v, boot, now⟩ s ↔
      Allowed w a before v boot₀ now₀ boot now
        ∧ s = (proposed w a before boot₀ now₀).after a (authorityHash a) (expectedHash before) := by
  have he : ((proposed w a before boot₀ now₀).expires : ℕ) = now₀ + w.ttl :=
    expires_proposed hl.2.2
  constructor
  · rintro ⟨hp, ho, hc, -, ht, hr, rfl⟩
    obtain ⟨-, h1, -, -, -, h2, h3, h4, h5, h6, h7, -, -, h8, h9⟩ := hp
    dsimp only at h3 h6 h7 h8
    rw [he] at h7
    refine ⟨⟨⟨h3.symm, h2⟩, ⟨h6, h7⟩, ⟨h4, h5, h9⟩, h1, ?_, ?_, ht, ?_⟩, rfl⟩
    · rintro rfl
      exact (ho rfl).2.2.2
    · rintro s rfl
      obtain ⟨-, -, -, -, h10, -, -, h11, h12⟩ := hc rfl
      exact ⟨h10, h8, h11, h12⟩
    · rintro s rfl hlt
      exact hr rfl hlt
  · rintro ⟨⟨⟨h1, h2⟩, ⟨h3, h4⟩, ⟨h5, h6, h7⟩, h8, h9, h10, h11, h12⟩, rfl⟩
    refine ⟨⟨hv, h8, hw, rfl, rfl, h2, h1.symm, h5, h6, h3, ?_, ?_, ?_, ?_, h7⟩, ?_, ?_, hk, h11,
      ?_, rfl⟩
    · dsimp only
      rw [he]
      exact h4
    · dsimp only
      rw [he]
      show (now₀ : ℕ) < _
      omega
    · dsimp only
      rw [he]
      show (now₀ : ℕ) + w.ttl - now₀ ≤ 300000
      omega
    · cases before with
      | none => show (0 : ℕ) ≠ Counter.last; decide
      | some s => exact (h10 s rfl).2.1
    · intro hn
      obtain rfl : before = none := Option.isNone_iff_eq_none.1 hn
      exact ⟨rfl, rfl, rfl, h9 rfl⟩
    · intro hn
      cases before with
      | none => cases hn
      | some s =>
        obtain ⟨g1, g2, g3, g4, g5, g6⟩ := hb s rfl
        obtain ⟨h13, -, h14, h15⟩ := h10 s rfl
        exact ⟨g3, g4, g5, g6, h13, rfl, rfl, h14, h15⟩
    · intro hn hlt
      cases before with
      | none => cases hn
      | some s => exact h12 s rfl hlt

end Decision

/-! ### On a host that answers -/

section Calm

variable {good : VerifyDetached} {d : Directory Name} {scope : Identity} {x : Submission}
  {p : Proposal} {a : Authority} {v : VerifiedSet} {before : Option State} {s' : State}
  {euid : ℕ} {boot : Identity} {now later : Counter} {n : Name} {data : Bytes}

lemma preserve_calm (hf : Fits d n data) : (preserve d n data {} .ok).2 = .ok
    ∧ (preserve d n data {} .ok).1.cached = Function.update d.cached n (some data) := by
  cases hn : d.cached n with
  | none => simp [preserve, write, hn, Directory.place, Directory.sync]
  | some b =>
    obtain rfl := hf b hn
    have hr : read d n b.length .ok = .ok b := read_some hn le_rfl
    have hp : preserve d n b {} .ok = (d, .ok) := by simp [preserve, write, hn, hr]
    rw [hp, ← hn, Function.update_eq_self]
    exact ⟨rfl, rfl⟩

lemma preserve_full (hf : ¬ Fits d n data) (h : PlaceHost) (o : Outcome) :
    (preserve d n data h o).2 ≠ .ok := by
  unfold Fits at hf
  push Not at hf
  obtain ⟨b, hb, hne⟩ := hf
  exact preserve_other h o hb hne

lemma install_calm (d : Directory Name) (s' : State) :
    (install d s' (calm euid boot now later)).2 = .ok
      ∧ (install d s' (calm euid boot now later)).1.cached .state = some s'.encode := by
  have hw : write d .state s'.encode false {} = ((d.place .state s'.encode).sync, .ok) := rfl
  have hr : read (d.place .state s'.encode).sync .state 256 .ok = .ok s'.encode :=
    read_some (by simp [Directory.place, Directory.sync]) (length_state s').le
  have hi : install d s' (calm euid boot now later)
      = ((d.place .state s'.encode).sync, .ok) := by
    have hp : (calm euid boot now later).place = {}
        ∧ (calm euid boot now later).readBack = .ok := ⟨rfl, rfl⟩
    simp only [install, hp.1, hp.2, hw, hr, ne_eq, not_true_eq_false, if_false, if_true]
  rw [hi]
  exact ⟨rfl, by simp [Directory.place, Directory.sync]⟩

lemma fits_of_ne {d' : Directory Name} {m : Name} {y : Bytes} (hmn : m ≠ n)
    (hd : d'.cached = Function.update d.cached m (some y)) : Fits d' n data ↔ Fits d n data := by
  unfold Fits
  rw [hd, Function.update_of_ne hmn.symm]

/-- The archive takes all that there is room for. -/
lemma archive_calm (hne : ∀ s, before = some s → s.encode ≠ s'.encode) :
    ((archive d p x before s' (calm euid boot now later)).2 = .ok ↔
      Room d p.requestId x before s' ∧ (later : ℕ) < p.expires)
    ∧ ((archive d p x before s' (calm euid boot now later)).2 = .ok →
      (archive d p x before s' (calm euid boot now later)).1.cached .state = some s'.encode) := by
  -- what there is room for in the archive of the state before
  have hb : ((keepBefore d before {}).2 = .ok ↔
      ∀ s, before = some s → Fits d (.history (stateHash s)) s.encode)
      ∧ ((keepBefore d before {}).2 = .ok → ∀ s, before = some s →
        (keepBefore d before {}).1.cached
          = Function.update d.cached (.history (stateHash s)) (some s.encode))
      ∧ (before = none → (keepBefore d before {}).1 = d) := by
    cases before with
    | none => exact ⟨iff_of_true rfl nofun, fun _ => nofun, fun _ => rfl⟩
    | some s =>
      by_cases hf : Fits d (.history (stateHash s)) s.encode
      · obtain ⟨h1, h2⟩ := preserve_calm hf
        refine ⟨iff_of_true h1 fun r hr => ?_, fun _ r hr => ?_, nofun⟩ <;>
          obtain rfl := Option.some.inj hr
        · exact hf
        · exact h2
      · exact ⟨iff_of_false (preserve_full hf _ _) fun h => hf (h s rfl),
          fun h => absurd h (preserve_full hf _ _), nofun⟩
  have hreq : (keepBefore d before {}).2 = .ok →
      ∀ y, (Fits (keepBefore d before {}).1 (.request p.requestId) y ↔
        Fits d (.request p.requestId) y) := by
    intro hok y
    cases before with
    | none => rw [hb.2.2 rfl]
    | some s => exact fits_of_ne (by simp) (hb.2.1 hok s rfl)
  have haft : (keepBefore d before {}).2 = .ok →
      (Fits (keepBefore d before {}).1 (.history (stateHash s')) s'.encode ↔
        Fits d (.history (stateHash s')) s'.encode
          ∧ ∀ s, before = some s → stateHash s ≠ stateHash s') := by
    intro hok
    cases before with
    | none => rw [hb.2.2 rfl]; exact (and_iff_left nofun).symm
    | some s =>
      have hc := hb.2.1 hok s rfl
      by_cases hs : stateHash s = stateHash s'
      · refine iff_of_false (fun hf => hne s rfl (hf _ ?_)) fun h => h.2 s rfl hs
        rw [hc, hs, Function.update_self]
      · rw [fits_of_ne (fun e => hs (Name.history.inj e)) hc]
        refine (and_iff_left fun r hr => ?_).symm
        obtain rfl := Option.some.inj hr
        exact hs
  have hc : (calm euid boot now later).before = {} ∧ (calm euid boot now later).request = {}
      ∧ (calm euid boot now later).after = {} ∧ (calm euid boot now later).later = .ok later :=
    ⟨rfl, rfl, rfl, rfl⟩
  unfold archive
  rw [hc.1, hc.2.1, hc.2.2.1, hc.2.2.2]
  dsimp only
  by_cases h1 : (keepBefore d before {}).2 = .ok
  swap
  · rw [if_pos h1]
    exact ⟨iff_of_false h1 fun h => h1 (hb.1.2 h.1.old), fun h => absurd h h1⟩
  rw [if_neg (not_not.2 h1)]
  generalize (keepBefore d before {}).1 = d₁ at hreq haft
  by_cases h2 : Fits d₁ (.request p.requestId) x.record
  swap
  · rw [if_pos (preserve_full h2 _ _)]
    exact ⟨iff_of_false (preserve_full h2 _ _) fun h => h2 ((hreq h1 _).2 h.1.request),
      fun h => absurd h (preserve_full h2 _ _)⟩
  obtain ⟨h3, h4⟩ := preserve_calm h2
  rw [if_neg (not_not.2 h3)]
  have h5 : Fits (preserve d₁ (.request p.requestId) x.record {} .ok).1
      (.history (stateHash s')) s'.encode ↔ _ := (fits_of_ne (by simp) h4).trans (haft h1)
  generalize (preserve d₁ (.request p.requestId) x.record {} .ok).1 = d₂ at h5 ⊢
  by_cases h6 : Fits d₂ (.history (stateHash s')) s'.encode
  swap
  · rw [if_pos (preserve_full h6 _ _)]
    exact ⟨iff_of_false (preserve_full h6 _ _) fun h => h6 (h5.2 ⟨h.1.after, h.1.apart⟩),
      fun h => absurd h (preserve_full h6 _ _)⟩
  obtain ⟨h7, -⟩ := preserve_calm h6
  rw [if_neg (not_not.2 h7)]
  have hroom : Room d p.requestId x before s' :=
    ⟨hb.1.1 h1, (h5.1 h6).2, (hreq h1 _).1 h2, (h5.1 h6).1⟩
  split_ifs with h8
  · exact ⟨iff_of_false nofun fun h => absurd h.2 (not_lt.2 h8), nofun⟩
  · obtain ⟨h9, h10⟩ := @install_calm euid boot now later
      (preserve d₂ (.history (stateHash s')) s'.encode {} .ok).1 s'
    exact ⟨iff_of_true h9 ⟨hroom, not_le.1 h8⟩, fun _ => h10⟩

/-! ### The submission -/

lemma reads_calm (euid : ℕ) : ReadHost.Reads { owner := euid } euid :=
  ⟨rfl, rfl, .inr rfl, rfl, rfl⟩

lemma authority_calm (hi : Installed d a) (scope : Identity) :
    authority { euid, authorities := stored d .authorities { owner := euid } } scope
      = if a.scope = scope then .ok (a, authorityHash a) else .error .denied := by
  have hf := privateRead_ok_iff.2
    (length_authority a ▸ private_stored (reads_calm euid) hi.file)
  unfold authority
  dsimp only
  rw [hf]
  dsimp only
  rw [authority_canonical.decode_encode hi.valid]
  dsimp only
  by_cases hs : a.scope = scope
  · rw [if_neg (by simp [hs, hi.contract]), if_pos hs]
    rfl
  · rw [if_pos (.inl hs), if_neg hs]

lemma readBefore_calm (hi : Installed d a) :
    readBefore d a.scope (calm euid boot now later) = .ok before ↔ Stands d a before := by
  have hstat : ¬ (calm euid boot now later).stat ≠ .ok := not_not.2 rfl
  constructor
  · intro hr
    obtain ⟨h1, -⟩ := readBefore_ok hr
    refine ⟨h1, ?_⟩
    rintro s rfl
    unfold readBefore at hr
    rw [if_neg hstat, if_neg (by rw [h1]; nofun)] at hr
    split at hr
    · cases hr
    rename_i hs
    cases hr
    obtain ⟨⟨⟨a', h2, h3, h4, h5, h6⟩, -, h7, h8, h9⟩, -⟩ := readState_ok_iff.1 hs
    obtain rfl := hi.unique h3 (stored_private h2)
    exact ⟨hi.valid, h6 ▸ h7.2.2.1, h7, h8, h9.trans h5.symm, h6⟩
  · rintro ⟨h1, h2⟩
    cases before with
    | none => exact (if_neg hstat).trans (if_pos h1)
    | some s =>
      have hg := h2 s rfl
      have hstate : readState { euid := (calm euid boot now later).euid
                                authorities := stored d .authorities
                                  (calm euid boot now later).authoritiesAgain
                                state := stored d .state (calm euid boot now later).state } a.scope
          = .ok (s, stateHash s) :=
        readState_ok_iff.2 ⟨⟨⟨a, length_authority a ▸ private_stored (reads_calm euid) hi.file,
          hi.valid, rfl, hi.contract, hg.digest⟩,
          length_state s ▸ private_stored (reads_calm euid) h1, hg.valid, hg.scope,
          hg.contract.trans hi.contract⟩, rfl⟩
      rw [readBefore, if_neg hstat, if_neg (by rw [h1]; nofun), hstate]

lemma submit_calm (hi : Installed d a) (hb : Stands d a before)
    (hx : x.rawProposal = Proposal.encode p) (hv : verifySigners good true a x = .ok v) :
    submit good d scope x (calm euid boot now later) =
      if a.scope = scope then
        if before.any fun s => s.lastRequest = p.requestId then
          (d, retry d p x (calm euid boot now later))
        else
          match a.decide (authorityHash a) (before.getD {}) (expectedHash before) before.isNone p v
            boot now with
          | .error o => (d, o)
          | .ok after => archive d p x before after (calm euid boot now later)
      else (d, .denied) := by
  have he : examine good d scope x (calm euid boot now later)
      = if a.scope = scope then .ok (p, a, v, before) else .error .denied := by
    have hroot : ¬ (calm euid boot now later).root ≠ .ok
        ∧ ¬ (calm euid boot now later).lock ≠ .ok := ⟨not_not.2 rfl, not_not.2 rfl⟩
    have ha : authority { euid := (calm euid boot now later).euid
                          authorities := stored d .authorities
                            (calm euid boot now later).authorities } scope
        = if a.scope = scope then .ok (a, authorityHash a) else .error .denied :=
      authority_calm hi scope
    unfold examine
    rw [if_neg (by rw [hx, length_proposal]; exact not_not.2 rfl), hx,
      proposal_canonical.decode_encode trivial]
    dsimp only
    rw [if_neg hroot.1, if_neg hroot.2, ha]
    by_cases hs : a.scope = scope
    · subst hs
      rw [if_pos rfl, if_pos rfl]
      dsimp only
      rw [show (calm euid boot now later).sodium = true from rfl, hv]
      dsimp only
      rw [(readBefore_calm hi).2 hb]
    · rw [if_neg hs, if_neg hs]
  rw [submit, he]
  by_cases hs : a.scope = scope
  · rw [if_pos hs, if_pos hs]
    rfl
  · rw [if_neg hs, if_neg hs]

/-- An accepted proposal leads to another state. -/
lemma accepts_encode_ne {c : ControlRuns.Call} (hb : ∀ s, before = some s → Governs a s)
    (ha : Accepts a before c s') : ∀ s, before = some s → s.encode ≠ s'.encode := by
  rintro s rfl he
  obtain rfl := encode_inj (hb s rfl).valid (after_governs ha).valid he
  have h1 : (s.revision : ℕ) = s.revision + 1 := (accepts_revision ha).2
  omega

/-- **What moves the latch**, where the host answers. -/
lemma moves_calm (hi : Installed d a) (hb : Stands d a before)
    (hx : x.rawProposal = Proposal.encode p) (hv : verifySigners good true a x = .ok v) :
    Moves good d scope x (calm euid boot now later) s' ↔ a.scope = scope
      ∧ Accepts a before ⟨p, v, boot, now⟩ s' ∧ Room d p.requestId x before s'
      ∧ (later : ℕ) < p.expires := by
  unfold Moves
  rw [submit_calm hi hb hx hv]
  by_cases hs : a.scope = scope
  swap
  · rw [if_neg hs]
    exact iff_of_false (fun h => nomatch h.1) fun h => hs h.1
  rw [if_pos hs]
  by_cases hr : (before.any fun s => s.lastRequest = p.requestId) = true
  · rw [if_pos hr]
    refine iff_of_false (fun h => h.2.2.2 h.2.2.1) ?_
    rintro ⟨-, ha, -⟩
    cases before with
    | none => cases hr
    | some s => exact (ha.continues rfl).2.2.2.2.2.2.2.2 (of_decide_eq_true hr).symm
  rw [if_neg hr]
  cases hd : a.decide (authorityHash a) (before.getD {}) (expectedHash before) before.isNone p v
    boot now with
  | error o =>
    refine iff_of_false (fun h => h.2.2.2 h.2.2.1) ?_
    rintro ⟨-, ha, -⟩
    rw [decide_ok_iff.2 ha] at hd
    cases hd
  | ok s'' =>
    have ha : Accepts a before ⟨p, v, boot, now⟩ s'' := decide_ok_iff.1 hd
    obtain ⟨h1, h2⟩ := @archive_calm d x p before s'' euid boot now later
      (accepts_encode_ne hb.governs ha)
    constructor
    · rintro ⟨h3, h4, h5, -⟩
      obtain rfl := encode_inj h4 (after_governs ha).valid
        (Option.some.inj (h5.symm.trans (h2 h3)))
      exact ⟨hs, ha, h1.1 h3⟩
    · rintro ⟨-, ha', h3⟩
      obtain rfl : s' = s'' := ha'.result.trans ha.result.symm
      have h4 := h1.2 h3
      refine ⟨h4, (after_governs ha).valid, h2 h4, ?_⟩
      rw [hb.file]
      intro he
      obtain ⟨s, hbs, hse⟩ := Option.map_eq_some_iff.1 he
      exact accepts_encode_ne hb.governs ha s hbs hse

end Calm

/-! ### The signers -/

section Signers

variable {good : VerifyDetached} {b : Bytes} {a : Authority} {files : Directory PublicKey}
  {sigs : PublicKey → Option Signature}

lemma foldlM_insert {α ε : Type} [DecidableEq α] {f : Finset α → α → Except ε (Finset α)}
    {V : Finset α} {l : List α}
    (h : ∀ v, ∀ i ∈ l, f v i = .ok (if i ∈ V then insert i v else v)) (v : Finset α) :
    l.foldlM f v = .ok (v ∪ l.toFinset.filter (· ∈ V)) := by
  induction l generalizing v with
  | nil => simp [pure, Except.pure]
  | cons i l ih =>
    rw [List.foldlM_cons, h v i (by simp)]
    show l.foldlM f _ = _
    rw [ih fun v j hj => h v j (List.mem_cons_of_mem _ hj)]
    congr 1
    ext j
    by_cases hi : i ∈ V <;> by_cases hj : j = i <;> simp [hi, hj]

lemma slot_eq (hf : files.cached = fun key => (sigs key).map Block.bytes) (k : Signer) :
    slot files k = (sigs k.publicKey).getD (Block.zero 64) := by
  have h : files.cached k.publicKey = (sigs k.publicKey).map Block.bytes := congrFun hf _
  rw [slot, h]
  cases sigs k.publicKey with
  | none => rfl
  | some sig => exact Block.ofBytes_bytes sig

lemma signed_iff (hf : files.cached = fun key => (sigs key).map Block.bytes) :
    Signed good files b a ↔ ∀ k ∈ a.keys, ∀ sig, sigs k.publicKey = some sig →
      good sig (message b) k.publicKey = true := by
  unfold Signed
  simp only [hf, Option.map_eq_some_iff, forall_exists_index, and_imp]
  constructor
  · intro h k hk sig hs
    simpa using (h k hk _ sig hs rfl).2
  · rintro h k hk _ sig hs rfl
    exact ⟨sig.length_bytes, by simpa using h k hk sig hs⟩

/-- **Who has signed** is found out again from the bundle. -/
lemma verifySigners_bundled (hb : b.length ≤ 16777216)
    (hg : ∀ k ∈ a.keys, ∀ sig, sigs k.publicKey = some sig →
      good sig (message b) k.publicKey = true) :
    verifySigners good true a
      ⟨b, bundled (a.keys.map fun k => (sigs k.publicKey).getD (Block.zero 64))⟩
        = .ok (signedBy sigs a) := by
  have hstep : ∀ (v : VerifiedSet), ∀ i ∈ List.finRange maxSigners,
      verifySigner good true a
        ⟨b, bundled (a.keys.map fun k => (sigs k.publicKey).getD (Block.zero 64))⟩ v i
          = .ok (if i ∈ signedBy sigs a then insert i v else v) := by
    intro v i _
    have hsig := signature_bundled (b := b)
      (l := a.keys.map fun k => (sigs k.publicKey).getD (Block.zero 64)) (i := i)
      (by simpa using a.count_le) i.isLt
    unfold verifySigner
    rw [hsig]
    by_cases hi : (i : ℕ) < a.count
    · have hkey : a.key i ∈ a.keys := by
        rw [Authority.key, List.getD_eq_getElem?_getD, List.getElem?_eq_getElem hi]
        exact List.getElem_mem hi
      have hget : (a.keys.map fun k => (sigs k.publicKey).getD (Block.zero 64)).getD i
          (Block.zero 64) = (sigs (a.key i).publicKey).getD (Block.zero 64) := by
        rw [Authority.key, List.getD_eq_getElem?_getD, List.getD_eq_getElem?_getD,
          List.getElem?_map, List.getElem?_eq_getElem hi, Option.map_some, Option.getD_some,
          Option.getD_some]
      rw [hget]
      by_cases hz : (sigs (a.key i).publicKey).getD (Block.zero 64) = Block.zero 64
      · rw [if_pos ((isZero_block _).2 hz), if_neg (by simp [signedBy, hz])]
      · rw [if_neg fun h => hz ((isZero_block _).1 h), if_neg (not_le.2 hi),
          if_pos (by simp [signedBy, hi, hz])]
        obtain ⟨sig, hs⟩ : ∃ sig, sigs (a.key i).publicKey = some sig := by
          rw [← Option.ne_none_iff_exists']
          exact fun hn => hz (by rw [hn]; rfl)
        rw [hs, Option.getD_some, (authentic_ok hb).2 (hg _ hkey sig hs)]
    · have hget : (a.keys.map fun k => (sigs k.publicKey).getD (Block.zero 64)).getD i
          (Block.zero 64) = Block.zero 64 := by
        have hlen : (a.keys.map fun k => (sigs k.publicKey).getD (Block.zero 64)).length ≤ i := by
          rw [List.length_map]
          exact not_lt.1 hi
        rw [List.getD_eq_getElem?_getD, List.getElem?_eq_none hlen, Option.getD_none]
      rw [hget, if_pos ((isZero_block _).2 rfl), if_neg (by simp [signedBy, hi])]
  unfold verifySigners
  rw [foldlM_insert hstep]
  congr 1
  ext i
  simp

end Signers

/-! ### From a file to the latch -/

section Carried

variable (good : VerifyDetached) (d : Directory Name) (signs : List Sign) (data : Bytes)
  (scope : Identity) (boot₀ : Identity) (now₀ : Counter) (boot : Identity) (now later : Counter)

/-- The wish `w` of a file is carried out on the state `before`: the proposal is made at `now₀`
and submitted at `now`, and its state is put in place at `later`. -/
structure Carried (w : Wish) (a : Authority) (before : Option State) (s : State) : Prop where
  asked : Asked data w
  installed : Installed d a
  scope : w.scope = a.scope ∧ a.scope = scope
  stands : Stands d a before
  lasts : 0 < (w.ttl : ℕ) ∧ (w.ttl : ℕ) ≤ 300000 ∧ (now₀ : ℕ) + w.ttl ≤ Counter.last
  /-- Whatever has been signed with a key of the authority has been signed well. -/
  signed : ∀ k ∈ a.keys, ∀ sig,
    signature signs (message (Proposal.encode (proposed w a before boot₀ now₀))) k.publicKey
      = some sig → good sig (message (Proposal.encode (proposed w a before boot₀ now₀)))
        k.publicKey = true
  allowed : Allowed w a before (signedBy
    (signature signs (message (Proposal.encode (proposed w a before boot₀ now₀)))) a)
      boot₀ now₀ boot now
  room : Room d w.requestId ⟨Proposal.encode (proposed w a before boot₀ now₀),
    bundled (a.keys.map fun k => (signature signs
      (message (Proposal.encode (proposed w a before boot₀ now₀))) k.publicKey).getD
        (Block.zero 64))⟩ before s
  later : (later : ℕ) < now₀ + w.ttl
  result : s = (proposed w a before boot₀ now₀).after a (authorityHash a) (expectedHash before)

variable {good d signs data scope boot₀ now₀ boot now later} {euid : ℕ} {s : State}

/-- **From a file to the latch.** What `make-proposal` makes of a file, signed by any who sign and
bundled, moves the latch just if the file asks for a change of the state that is there, enough
signers of the authority have signed it, and it is still in time; and the latch is moved to what
the file asks for. No call of the host fails (`calm`), and the directory is the same from
`make-proposal` to `Submit`. -/
theorem carried_iff :
    (∃ b g, makeProposal d data (calm euid boot₀ now₀ now₀) = .ok b
      ∧ bundle good d (signatures b signs) b {} = .ok g
      ∧ Moves good d scope ⟨b, g⟩ (calm euid boot now later) s)
    ↔ ∃ w a before, Carried good d signs data scope boot₀ now₀ boot now later w a before s := by
  -- what the bundle of a proposal is, and what is found in it
  have files : ∀ {w : Wish} {a : Authority} {before : Option State}, Installed d a →
      (signatures (Proposal.encode (proposed w a before boot₀ now₀)) signs).cached = fun key =>
        (signature signs (message (Proposal.encode (proposed w a before boot₀ now₀))) key).map
          Block.bytes :=
    fun hi => funext fun key => signatures_cached (by exact hi.contract) signs key
  have short : ∀ p : Proposal, (Proposal.encode p).length ≤ 16777216 := fun p => by
    rw [length_proposal]
    decide
  have slots : ∀ {w : Wish} {a : Authority} {before : Option State}, Installed d a →
      a.keys.map (slot (signatures (Proposal.encode (proposed w a before boot₀ now₀)) signs))
        = a.keys.map fun k => (signature signs (message (Proposal.encode
          (proposed w a before boot₀ now₀))) k.publicKey).getD (Block.zero 64) :=
    fun hi => List.map_congr_left fun k _ => slot_eq (files hi) k
  have keys : ∀ (sigs : PublicKey → Option Signature) (a : Authority), ∀ i ∈ signedBy sigs a,
      (i : ℕ) < a.count := fun sigs a i hi => (Finset.mem_filter.1 hi).2.1
  constructor
  · rintro ⟨b, g, h1, h2, h3⟩
    obtain ⟨w, a, before, boot', now', hm, rfl⟩ := makeProposal_ok.1 h1
    obtain rfl : boot₀ = boot' := Except.ok.inj hm.booted
    obtain rfl : now₀ = now' := Except.ok.inj hm.timed
    have hi := hm.installed
    have hst := (readBefore_calm hi).1 hm.before
    obtain ⟨a', hi', -, -, hs, rfl⟩ := bundle_ok.1 h2
    obtain rfl := hi.unique hi'.valid hi'.file
    have hg := (signed_iff (files hi)).1 hs
    rw [slots hi, moves_calm hi hst rfl (verifySigners_bundled (short _) hg),
      accepts_proposed hi.valid hm.scope hst.governs (keys _ _) hm.lasts,
      expires_proposed hm.lasts.2.2] at h3
    obtain ⟨h4, ⟨h5, h6⟩, h7, h8⟩ := h3
    exact ⟨w, a', before, hm.asked, hi, ⟨hm.scope, h4⟩, hst, hm.lasts, hg, h5, h7, h8, h6⟩
  · rintro ⟨w, a, before, h1, hi, ⟨h2, h3⟩, hst, h4, hg, h5, h6, h7, h8⟩
    refine ⟨_, _, makeProposal_ok.2 ⟨w, a, before, boot₀, now₀,
      ⟨h1, hi, rfl, rfl, h2, (readBefore_calm hi).2 hst, rfl, rfl, h4⟩, rfl⟩,
      bundle_ok.2 ⟨a, hi, h2, rfl, (signed_iff (files hi)).2 hg, rfl⟩, ?_⟩
    rw [slots hi, moves_calm hi hst rfl (verifySigners_bundled (short _) hg),
      accepts_proposed hi.valid h2 hst.governs (keys _ _) h4, expires_proposed h4.2.2]
    exact ⟨h3, ⟨h5, h8⟩, h6, h7⟩

end Carried

end NiayanAssurance.ControlCarried
