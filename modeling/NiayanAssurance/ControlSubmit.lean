import NiayanAssurance.ControlIo
import NiayanAssurance.ControlRuns
import NiayanAssurance.Atomic
import NiayanAssurance.Lib.Checked
import NiayanAssurance.SitePolicy

/-!
How the latch of change control is moved: a proposal is verified and decided on, what it leads to
is archived, and the state is replaced last.

As with the gate, every call takes what the host answered. A crash is an answer after which
nothing more is done; it falls before or after the write of a whole file, and what was visible is
still there. Arrays start at index 1, as the first check of `Submit` asks of a proposal.
-/

namespace NiayanAssurance.ControlIo

open NiayanAssurance.Lib NiayanAssurance.Types NiayanAssurance.Control
open NiayanAssurance.ControlCodec NiayanAssurance.ControlRuns NiayanAssurance.Atomic
open NiayanAssurance.Ingress (VerifyDetached)
open NiayanAssurance.SitePolicy (authentic)

/-! ### The directory -/

/-- The files of the directory. -/
inductive Name
  | authorities
  | state
  | history (state : Digest)
  | request (id : Identity)
  deriving DecidableEq

/-- What the host answers of a file that is read, but for its bytes. -/
structure ReadHost where
  stat : Outcome := .ok
  links : ℕ := 1
  mode : ℕ := 0o600
  owner : ℕ := 0
  read : Outcome := .ok

/-- A file of the directory, as the host answers for it. -/
def stored (d : Directory Name) (n : Name) (h : ReadHost) : StoredFile :=
  match d.cached n with
  | none => { stat := h.stat, read := h.read }
  | some b =>
    { stat := h.stat
      info :=
        { kind := .regular, links := h.links, mode := h.mode, uid := h.owner, size := b.length }
      read := h.read
      data := b }

/-- `Signature_Bundle`. -/
abbrev SignatureBundle := Block 512

/-- What is submitted. -/
structure Submission where
  rawProposal : Bytes
  signatures : SignatureBundle

/-- `Record_Data`. -/
def Submission.record (x : Submission) : Bytes := x.rawProposal ++ x.signatures.bytes

/-- The signature of signer `i`. -/
def Submission.signature (x : Submission) (i : ℕ) : Block 64 :=
  Block.ofBytes 64 (range x.signatures.bytes (1 + i * 64) (64 + i * 64))

/-- What the host answers to a `Preserve`. -/
structure PreserveHost where
  place : PlaceHost := {}
  readBack : Outcome := .ok

/-- What the host answers while something is submitted. -/
structure SubmitHost where
  root : Outcome := .ok
  lock : Outcome := .ok
  euid : ℕ := 0
  authorities : ReadHost := {}
  sodium : Bool := true
  /-- Whether there is a state. -/
  stat : Outcome := .ok
  /-- The authorities, as they are read again with the state. -/
  authoritiesAgain : ReadHost := {}
  state : ReadHost := {}
  saved : ReadHost := {}
  boot : Except Outcome Identity
  now : Except Outcome Counter
  before : PreserveHost := {}
  request : PreserveHost := {}
  after : PreserveHost := {}
  /-- The time after what may have been slow. -/
  later : Except Outcome Counter
  place : PlaceHost := {}
  readBack : Outcome := .ok

/-! ### Submitting -/

/-- `MC-CONTROL-v1`. -/
def domain : Bytes := [77, 67, 45, 67, 79, 78, 84, 82, 79, 76, 45, 118, 49]

/-- One turn of the loop over the signatures. -/
def verifySigner (good : VerifyDetached) (sodium : Bool) (a : Authority) (x : Submission)
    (v : VerifiedSet) (i : Fin maxSigners) : Except Outcome VerifiedSet :=
  if isZero (x.signature i).bytes then .ok v
  else if a.count ≤ i then .error .denied
  else
    match authentic good sodium domain x.rawProposal (x.signature i) (a.key i).publicKey with
    | .ok => .ok (insert i v)
    | o => .error o

def verifySigners (good : VerifyDetached) (sodium : Bool) (a : Authority) (x : Submission) :
    Except Outcome VerifiedSet :=
  (List.finRange maxSigners).foldlM (verifySigner good sodium a x) ∅

/-- The state that is stored, if there is one. -/
def readBefore (d : Directory Name) (scope : Identity) (h : SubmitHost) :
    Except Outcome (Option State) :=
  if h.stat ≠ .ok then .error h.stat
  else if d.cached .state = none then .ok none
  else
    match readState { euid := h.euid, authorities := stored d .authorities h.authoritiesAgain,
                      state := stored d .state h.state } scope with
    | .error o => .error o
    | .ok (s, _) => .ok (some s)

/-- What is read and verified before anything is decided: the proposal, the authority, the signers
and the state before. -/
def examine (good : VerifyDetached) (d : Directory Name) (scope : Identity) (x : Submission)
    (h : SubmitHost) : Except Outcome (Proposal × Authority × VerifiedSet × Option State) :=
  if x.rawProposal.length ≠ 320 then .error .invalidInput
  else
    match Proposal.decode x.rawProposal with
    | .error o => .error o
    | .ok p =>
      if h.root ≠ .ok then .error h.root
      else if h.lock ≠ .ok then .error h.lock
      else
        match authority { euid := h.euid, authorities := stored d .authorities h.authorities }
          scope with
        | .error o => .error o
        | .ok (a, _) =>
          match verifySigners good h.sodium a x with
          | .error o => .error o
          | .ok v =>
            match readBefore d scope h with
            | .error o => .error o
            | .ok before => .ok (p, a, v, before)

/-- What comes of a request that is the last one. -/
def retry (d : Directory Name) (p : Proposal) (x : Submission) (h : SubmitHost) : Outcome :=
  match privateRead h.euid 832 (stored d (.request p.requestId) h.saved) with
  | .error o => o
  | .ok saved => if saved = x.record then .ok else .conflict

/-- The state before is archived, unless there is none. -/
def keepBefore (d : Directory Name) (before : Option State) (h : PreserveHost) :
    Directory Name × Outcome :=
  match before with
  | none => (d, .ok)
  | some s => preserve d (.history (stateHash s)) s.encode h.place h.readBack

/-- The state is replaced. -/
def install (d : Directory Name) (s : State) (h : SubmitHost) : Directory Name × Outcome :=
  let r := write d .state s.encode false h.place
  if r.2 ≠ .ok then r
  else
    match read r.1 .state 256 h.readBack with
    | .error _ => (r.1, .indeterminate)
    | .ok b => (r.1, if b = s.encode then .ok else .indeterminate)

/-- What is written, when it has been decided that `after` follows `before`. -/
def archive (d : Directory Name) (p : Proposal) (x : Submission) (before : Option State)
    (after : State) (h : SubmitHost) : Directory Name × Outcome :=
  let r := keepBefore d before h.before
  if r.2 ≠ .ok then r
  else
    let r := preserve r.1 (.request p.requestId) x.record h.request.place h.request.readBack
    if r.2 ≠ .ok then r
    else
      let r := preserve r.1 (.history (stateHash after)) after.encode h.after.place
        h.after.readBack
      if r.2 ≠ .ok then r
      else
        match h.later with
        | .error o => (r.1, o)
        | .ok now => if (p.expires : ℕ) ≤ now then (r.1, .stale) else install r.1 after h

/-- `Submit`. -/
def submit (good : VerifyDetached) (d : Directory Name) (scope : Identity) (x : Submission)
    (h : SubmitHost) : Directory Name × Outcome :=
  match examine good d scope x h with
  | .error o => (d, o)
  | .ok (p, a, v, before) =>
    if before.any fun s => s.lastRequest = p.requestId then (d, retry d p x h)
    else
      match h.boot, h.now with
      | .error o, _ => (d, o)
      | .ok _, .error o => (d, o)
      | .ok boot, .ok now =>
        match a.decide (authorityHash a) (before.getD {}) (expectedHash before) before.isNone p v
          boot now with
        | .error o => (d, o)
        | .ok after => archive d p x before after h

/-! ### What a write can do -/

section Writes

variable {d d' d'' : Directory Name} {n : Name} {b data : Bytes}

/-- Files that were not there may have been added, but neither a state nor authorities. -/
structure Grows (d d' : Directory Name) : Prop where
  keeps : ∀ n b, d.cached n = some b → d'.cached n = some b
  state : d'.cached .state = d.cached .state
  authorities : d'.cached .authorities = d.cached .authorities

lemma Grows.refl (d : Directory Name) : Grows d d := ⟨fun _ _ h => h, rfl, rfl⟩

lemma Grows.trans (h : Grows d d') (h' : Grows d' d'') : Grows d d'' :=
  ⟨fun n b hb => h'.keeps n b (h.keeps n b hb), h'.state.trans h.state,
    h'.authorities.trans h.authorities⟩

lemma grows_place (hn : d.cached n = none) (hs : n ≠ .state) (ha : n ≠ .authorities)
    (h : d'.cached = Function.update d.cached n (some data)) : Grows d d' := by
  refine ⟨fun m b hb => ?_, ?_, ?_⟩
  · rw [h, Function.update_of_ne, hb]
    rintro rfl
    rw [hn] at hb
    cases hb
  · rw [h, Function.update_of_ne hs.symm]
  · rw [h, Function.update_of_ne ha.symm]

/-- **What is preserved** is there, and nothing that was there has been changed for it. -/
lemma preserve_spec (d : Directory Name) (data : Bytes) (h : PlaceHost) (readBack : Outcome)
    (hs : n ≠ .state) (ha : n ≠ .authorities) :
    Grows d (preserve d n data h readBack).1
      ∧ ((preserve d n data h readBack).2 = .ok →
        (preserve d n data h readBack).1.cached n = some data) := by
  have hp := preserve_cases d n data h readBack
  generalize (preserve d n data h readBack).1 = d' at hp
  generalize (preserve d n data h readBack).2 = o at hp
  cases hp with
  | refused ho => exact ⟨.refl d, fun h => absurd h ho⟩
  | present hb => exact ⟨.refl d, fun _ => hb⟩
  | unsynced hb => exact ⟨grows_place hb hs ha rfl, nofun⟩
  | done hb => exact ⟨grows_place hb hs ha rfl, fun _ => Function.update_self ..⟩

/-- What is there already is not preserved in another form. -/
lemma preserve_other (h : PlaceHost) (readBack : Outcome) (hb : d.cached n = some b)
    (hne : b ≠ data) : (preserve d n data h readBack).2 ≠ .ok := by
  intro ho
  have hp := preserve_cases d n data h readBack
  rw [ho] at hp
  generalize (preserve d n data h readBack).1 = d' at hp
  cases hp with
  | refused h => exact h rfl
  | present h => exact hne (Option.some.inj (hb.symm.trans h))
  | done h => exact absurd (hb.symm.trans h) (by simp)

/-- The state is replaced, or nothing is. -/
lemma install_cases (d : Directory Name) (s : State) (h : SubmitHost) :
    (install d s h).1 = d
      ∨ (install d s h).1.cached = Function.update d.cached .state (some s.encode) := by
  have hw : (write d .state s.encode false h.place).1 = d
      ∨ (write d .state s.encode false h.place).1.cached
        = Function.update d.cached .state (some s.encode) := by
    unfold write
    split_ifs <;> first | exact .inl rfl | exact .inr rfl
  have hi : (install d s h).1 = (write d .state s.encode false h.place).1 := by
    unfold install
    dsimp only
    split
    · rfl
    · split <;> rfl
  rwa [hi]

end Writes

/-! ### What a submission can do -/

section Submit

variable {good : VerifyDetached} {d d' : Directory Name} {scope : Identity} {x : Submission}
  {h : SubmitHost} {p : Proposal} {a : Authority} {v : VerifiedSet} {before : Option State}
  {s s' : State}

/-- All that stands for `s'` has been archived. -/
structure Prepared (d : Directory Name) (p : Proposal) (x : Submission) (before : Option State)
    (s' : State) : Prop where
  before : ∀ s, before = some s → d.cached (.history (stateHash s)) = some s.encode
  request : d.cached (.request p.requestId) = some x.record
  after : d.cached (.history (stateHash s')) = some s'.encode

/-- **What is written** before the state has been archived in full: the state is replaced last. -/
lemma archive_cases (d : Directory Name) (p : Proposal) (x : Submission) (before : Option State)
    (s' : State) (h : SubmitHost) : Grows d (archive d p x before s' h).1
      ∨ ∃ d', Grows d d' ∧ Prepared d' p x before s'
        ∧ (archive d p x before s' h).1.cached
          = Function.update d'.cached .state (some s'.encode) := by
  have hb : Grows d (keepBefore d before h.before).1
      ∧ ((keepBefore d before h.before).2 = .ok → ∀ s, before = some s →
        (keepBefore d before h.before).1.cached (.history (stateHash s)) = some s.encode) := by
    cases before with
    | none => exact ⟨.refl d, fun _ => nofun⟩
    | some s =>
      obtain ⟨h1, h2⟩ := preserve_spec (n := .history (stateHash s)) d s.encode h.before.place
        h.before.readBack nofun nofun
      exact ⟨h1, fun ho r hr => Option.some.inj hr ▸ h2 ho⟩
  unfold archive
  dsimp only
  generalize keepBefore d before h.before = r at hb
  obtain ⟨h1, h2⟩ := hb
  split
  · exact .inl h1
  rename_i ho
  obtain ⟨h3, h4⟩ := preserve_spec (n := .request p.requestId) r.1 x.record h.request.place
    h.request.readBack nofun nofun
  generalize preserve r.1 (.request p.requestId) x.record h.request.place h.request.readBack = q
    at h3 h4
  split
  · exact .inl (h1.trans h3)
  rename_i ho'
  obtain ⟨h5, h6⟩ := preserve_spec (n := .history (stateHash s')) q.1 s'.encode h.after.place
    h.after.readBack nofun nofun
  generalize preserve q.1 (.history (stateHash s')) s'.encode h.after.place h.after.readBack = t
    at h5 h6
  have hg := (h1.trans h3).trans h5
  split
  · exact .inl hg
  rename_i ho''
  split
  · exact .inl hg
  split
  · exact .inl hg
  rcases install_cases t.1 s' h with hi | hi
  · rw [hi]
    exact .inl hg
  · refine .inr ⟨t.1, hg, ⟨fun s hs => ?_, h5.keeps _ _ (h4 (not_not.mp ho')),
      h6 (not_not.mp ho'')⟩, hi⟩
    exact h5.keeps _ _ (h3.keeps _ _ (h2 (not_not.mp ho) s hs))

lemma stored_private {n : Name} {r : ReadHost} {euid length : ℕ} {b : Bytes}
    (hf : PrivateFile euid length (stored d n r) b) : d.cached n = some b := by
  cases hn : d.cached n with
  | none =>
    have hk := hf.kind
    rw [stored, hn] at hk
    cases hk
  | some c =>
    have hd := hf.data
    rw [stored, hn] at hd
    exact congrArg some hd

/-- Signatures that have been verified are so wherever the library can be used. -/
lemma verifySigners_sodium {sodium : Bool} (hv : verifySigners good sodium a x = .ok v) :
    verifySigners good true a x = .ok v := by
  refine foldlM_mono (fun v i w hw => ?_) hv
  unfold verifySigner at hw ⊢
  split_ifs at hw ⊢ with h1 h2
  · exact hw
  cases sodium with
  | true => exact hw
  | false =>
    have ho : authentic good false domain x.rawProposal (x.signature i) (a.key i).publicKey
        ≠ .ok := by
      unfold authentic
      rw [if_pos (rfl : false = false)]
      split_ifs <;> decide
    generalize authentic good false domain x.rawProposal (x.signature i) (a.key i).publicKey = o
      at hw ho
    cases o <;> first | exact absurd rfl ho | cases hw

/-- What has been read and verified before anything is decided. -/
structure Examined (good : VerifyDetached) (d : Directory Name) (scope : Identity) (x : Submission)
    (p : Proposal) (a : Authority) (v : VerifiedSet) (before : Option State) : Prop where
  length : x.rawProposal.length = 320
  proposal : Proposal.decode x.rawProposal = .ok p
  authorities : d.cached .authorities = some a.encode
  contract : a.contract = Gate.fingerprint
  signers : verifySigners good true a x = .ok v
  stored : d.cached .state = before.map State.encode
  valid : ∀ s, before = some s → s.Valid

lemma readBefore_ok (hr : readBefore d scope h = .ok before) :
    d.cached .state = before.map State.encode ∧ ∀ s, before = some s → s.Valid := by
  unfold readBefore at hr
  split at hr
  · cases hr
  split at hr
  · cases hr
    rename_i hn
    exact ⟨hn, nofun⟩
  split at hr
  · cases hr
  rename_i s _ hs
  cases hr
  obtain ⟨hf, -⟩ := readState_ok_iff.mp hs
  refine ⟨stored_private hf.state, fun r hr => ?_⟩
  cases hr
  exact hf.valid

lemma examine_ok (he : examine good d scope x h = .ok (p, a, v, before)) :
    Examined good d scope x p a v before := by
  unfold examine at he
  split at he
  · cases he
  rename_i hlen
  split at he
  · cases he
  rename_i p' hp
  split at he
  · cases he
  split at he
  · cases he
  split at he
  · cases he
  rename_i a' _ ha
  split at he
  · cases he
  rename_i v' hv
  split at he
  · cases he
  rename_i before' hb
  cases he
  obtain ⟨hf, -, -, hc, -⟩ := authority_ok_iff.mp ha
  obtain ⟨h1, h2⟩ := readBefore_ok hb
  exact ⟨not_not.mp hlen, hp, stored_private hf, hc, verifySigners_sodium hv, h1, h2⟩

/-- **What a submission can do**: nothing that is there is changed but the state, and a new state
has been decided on and archived before it is put there. -/
lemma submit_cases (good : VerifyDetached) (d : Directory Name) (scope : Identity) (x : Submission)
    (h : SubmitHost) : Grows d (submit good d scope x h).1
      ∨ ∃ p a v before boot now s' d', Examined good d scope x p a v before
        ∧ Accepts a before ⟨p, v, boot, now⟩ s' ∧ Grows d d' ∧ Prepared d' p x before s'
        ∧ (submit good d scope x h).1.cached
          = Function.update d'.cached .state (some s'.encode) := by
  unfold submit
  split
  · exact .inl (.refl d)
  rename_i p a v before he
  split
  · exact .inl (.refl d)
  split
  · exact .inl (.refl d)
  · exact .inl (.refl d)
  rename_i boot now _ _
  split
  · exact .inl (.refl d)
  rename_i s' hd
  rcases archive_cases d p x before s' h with hg | ⟨d', hg, hp, hu⟩
  · exact .inl hg
  · exact .inr ⟨p, a, v, before, boot, now, s', d', examine_ok he, decide_ok_iff.mp hd, hg, hp, hu⟩

/-- A request that is there under another content moves nothing. -/
lemma submit_reused {b : Bytes} (hp : Proposal.decode x.rawProposal = .ok p)
    (hb : d.cached (.request p.requestId) = some b) (hne : b ≠ x.record) :
    (submit good d scope x h).1.cached .state = d.cached .state := by
  rcases submit_cases good d scope x h with hg | ⟨p', a, v, before, boot, now, s', d', he, -, hg,
    hr, -⟩
  · exact hg.state
  · have hpp : p' = p := Except.ok.inj (he.proposal.symm.trans hp)
    subst hpp
    exact absurd (Option.some.inj ((hg.keeps _ _ hb).symm.trans hr.request)) hne

end Submit

/-! ### The archive -/

section Archive

variable {good : VerifyDetached} {xs ys : List Submission} {d d' : Directory Name}
  {a : Authority} {before : Option State} {x : Submission} {r s s' : State}

/-- What is submitted leads from `before` to `s`, under the authority `a`. -/
def Produces (good : VerifyDetached) (a : Authority) (before : Option State) (x : Submission)
    (s : State) : Prop :=
  ∃ p v boot now, Proposal.decode x.rawProposal = .ok p ∧ verifySigners good true a x = .ok v
    ∧ Accepts a before ⟨p, v, boot, now⟩ s

/-- The state `s` is in the archive, and so is the one of the submissions that has produced it. -/
structure Filed (good : VerifyDetached) (xs : List Submission) (d : Directory Name)
    (before : Option State) (s : State) : Prop where
  history : d.cached (.history (stateHash s)) = some s.encode
  produced : ∃ x ∈ xs, d.cached (.request s.lastRequest) = some x.record
    ∧ x.rawProposal.length = 320 ∧ ∃ a, d.cached .authorities = some a.encode
      ∧ a.contract = Gate.fingerprint ∧ Produces good a before x s

/-- A state and all before it are in the archive. -/
inductive Archived (good : VerifyDetached) (xs : List Submission) (d : Directory Name) :
    State → Prop
  | first {s : State} (h : Filed good xs d none s) : Archived good xs d s
  | next {r s : State} (hr : Archived good xs d r) (h : Filed good xs d (some r) s) :
      Archived good xs d s

/-- All files but the state are still there. -/
def Keeps (d d' : Directory Name) : Prop :=
  ∀ n b, n ≠ .state → d.cached n = some b → d'.cached n = some b

lemma Filed.mono (h : Filed good xs d before s) (hx : ∀ x ∈ xs, x ∈ ys) (hd : Keeps d d') :
    Filed good ys d' before s := by
  obtain ⟨h1, x, hx', h2, h3, a, h4, h5⟩ := h
  exact ⟨hd _ _ nofun h1, x, hx x hx', hd _ _ nofun h2, h3, a, hd _ _ nofun h4, h5⟩

lemma Archived.mono (h : Archived good xs d s) (hx : ∀ x ∈ xs, x ∈ ys) (hd : Keeps d d') :
    Archived good ys d' s := by
  induction h with
  | first h => exact .first (h.mono hx hd)
  | next _ h ih => exact .next ih (h.mono hx hd)

lemma Produces.governs (h : Produces good a before x s) : Governs a s := by
  obtain ⟨p, v, boot, now, -, -, h⟩ := h
  exact after_governs h

lemma Produces.revision (h : Produces good a before x s) :
    (s.revision : ℕ) = ControlRuns.revision before + 1 ∧ s.previous = expectedHash before := by
  obtain ⟨p, v, boot, now, -, -, h⟩ := h
  exact ⟨(accepts_revision h).2, by rw [h.result]; rfl⟩

lemma Filed.valid (h : Filed good xs d before s) : s.Valid :=
  let ⟨_, _, _, _, _, _, _, hp⟩ := h.produced
  hp.governs.valid

lemma Filed.revision (h : Filed good xs d before s) :
    (s.revision : ℕ) = ControlRuns.revision before + 1 ∧ s.previous = expectedHash before :=
  let ⟨_, _, _, _, _, _, _, hp⟩ := h.produced
  hp.revision

lemma Archived.filed (h : Archived good xs d s) : ∃ before, Filed good xs d before s := by
  cases h with
  | first h => exact ⟨_, h⟩
  | next _ h => exact ⟨_, h⟩

lemma encode_inj (hr : r.Valid) (hs : s.Valid) (h : r.encode = s.encode) : r = s := by
  have h1 := state_canonical.decode_encode hr
  rw [h, state_canonical.decode_encode hs] at h1
  exact (Except.ok.inj h1).symm

/-- What holds after any submissions. -/
def Kept (good : VerifyDetached) (xs : List Submission) (d : Directory Name) : Prop :=
  ∀ b, d.cached .state = some b → ∃ s, b = s.encode ∧ Archived good xs d s

lemma Grows.keeps_files (h : Grows d d') : Keeps d d' := fun n b _ => h.keeps n b

lemma keeps_submit (good : VerifyDetached) (d : Directory Name) (scope : Identity)
    (x : Submission) (h : SubmitHost) : Keeps d (submit good d scope x h).1 := by
  rcases submit_cases good d scope x h with hg | ⟨_, _, _, _, _, _, s', d', -, -, hg, -, hu⟩
  · exact hg.keeps_files
  · intro n b hn hb
    rw [hu, Function.update_of_ne hn]
    exact hg.keeps _ _ hb

/-- **One submission** keeps the archive ahead of the state. -/
lemma kept_submit (hk : Kept good xs d) (scope : Identity) (x : Submission) (h : SubmitHost) :
    Kept good (xs ++ [x]) (submit good d scope x h).1 := by
  have more : ∀ y ∈ xs, y ∈ xs ++ [x] := fun y hy => List.mem_append_left _ hy
  have hkeeps := keeps_submit good d scope x h
  rcases submit_cases good d scope x h with hg |
    ⟨p, a, v, before, boot, now, s', d', he, ha, hg, hp, hu⟩
  · intro b hb
    rw [hg.state] at hb
    obtain ⟨s, rfl, hs⟩ := hk b hb
    exact ⟨s, rfl, hs.mono more hkeeps⟩
  · intro b hb
    rw [hu, Function.update_self] at hb
    have there : ∀ n b, n ≠ .state → d'.cached n = some b →
        (submit good d scope x h).1.cached n = some b := fun n b hn hb => by
      rw [hu, Function.update_of_ne hn]
      exact hb
    have hlast : s'.lastRequest = p.requestId := by
      rw [ha.result]
      rfl
    have hfiled : Filed good (xs ++ [x]) (submit good d scope x h).1 before s' :=
      ⟨there _ _ nofun hp.after, x, by simp, there _ _ nofun (hlast ▸ hp.request), he.length, a,
        there _ _ nofun (hg.keeps _ _ he.authorities), he.contract, p, v, boot, now, he.proposal,
        he.signers, ha⟩
    refine ⟨s', (Option.some.inj hb).symm, ?_⟩
    cases before with
    | none => exact .first hfiled
    | some r =>
      obtain ⟨r', hr', har⟩ := hk _ he.stored
      obtain ⟨_, hf⟩ := har.filed
      obtain rfl := encode_inj (he.valid r rfl) hf.valid hr'
      exact .next (har.mono more hkeeps) hfiled

/-- What is read answers. -/
structure ReadHost.Reads (r : ReadHost) (euid : ℕ) : Prop where
  stat : r.stat = .ok
  links : r.links = 1
  mode : r.mode = 0o400 ∨ r.mode = 0o600
  owner : r.owner = euid
  read : r.read = .ok

/-- The stored files can be read, and the library that verifies can be used. -/
structure SubmitHost.Reads (h : SubmitHost) : Prop where
  root : h.root = .ok
  lock : h.lock = .ok
  stat : h.stat = .ok
  sodium : h.sodium = true
  authorities : h.authorities.Reads h.euid
  authoritiesAgain : h.authoritiesAgain.Reads h.euid
  state : h.state.Reads h.euid
  saved : h.saved.Reads h.euid

lemma private_stored {n : Name} {q : ReadHost} {euid : ℕ} {b : Bytes} (h : q.Reads euid)
    (hb : d.cached n = some b) : PrivateFile euid b.length (stored d n q) b := by
  obtain ⟨h1, h2, h3, h4, h5⟩ := h
  rw [stored, hb]
  exact ⟨h1, rfl, h2, h3, h4, rfl, h5, rfl, rfl⟩

lemma length_state (s : State) : s.encode.length = 256 :=
  Sha256.length_withDigest (by simp [pad, SM])

lemma length_record (hx : x.rawProposal.length = 320) : x.record.length = 832 := by
  rw [Submission.record, List.length_append, Block.length_bytes, hx]

/-- What the last submission has been decided on is read once more. -/
lemma examine_again {scope : Identity} {h : SubmitHost} {p : Proposal} {v : VerifiedSet}
    (hr : h.Reads) (hs : d.cached .state = some s.encode) (hg : Governs a s)
    (hscope : s.scope = scope) (ha : d.cached .authorities = some a.encode)
    (hc : a.contract = Gate.fingerprint) (hx : x.rawProposal.length = 320)
    (hp : Proposal.decode x.rawProposal = .ok p) (hv : verifySigners good true a x = .ok v) :
    examine good d scope x h = .ok (p, a, v, some s) := by
  have hfile : ∀ q : ReadHost, q.Reads h.euid →
      PrivateFile h.euid 1024 (stored d .authorities q) a.encode := fun q hq =>
    length_authority a ▸ private_stored hq ha
  have hfirst : authority { euid := h.euid, authorities := stored d .authorities h.authorities }
      scope = .ok (a, authorityHash a) :=
    authority_ok_iff.mpr ⟨hfile _ hr.authorities, hg.authority, hg.scope.symm.trans hscope, hc, rfl⟩
  have hstate : readState { euid := h.euid
                            authorities := stored d .authorities h.authoritiesAgain
                            state := stored d .state h.state } scope = .ok (s, stateHash s) :=
    readState_ok_iff.mpr ⟨⟨⟨a, hfile _ hr.authoritiesAgain, hg.authority,
      hg.scope.symm.trans hscope, hc, hg.digest⟩, length_state s ▸ private_stored hr.state hs,
      hg.valid, hscope, hg.contract.trans hc⟩, rfl⟩
  have hbefore : readBefore d scope h = .ok (some s) := by
    rw [readBefore, if_neg (not_not.mpr hr.stat), if_neg (by rw [hs]; nofun), hstate]
  rw [examine, if_neg (not_not.mpr hx), hp]
  dsimp only
  rw [if_neg (not_not.mpr hr.root), if_neg (not_not.mpr hr.lock), hfirst]
  dsimp only
  rw [hr.sodium, hv, hbefore]

/-- **The last submission once more** moves nothing, and is acknowledged. -/
lemma kept_again (hk : Kept good xs d) (hsv : s.Valid) (hs : d.cached .state = some s.encode) :
    ∃ x ∈ xs, d.cached (.request s.lastRequest) = some x.record
      ∧ (∃ a before, Produces good a before x s) ∧ ∀ scope h,
        (submit good d scope x h).1 = d
          ∧ (h.Reads → s.scope = scope → (submit good d scope x h).2 = .ok) := by
  obtain ⟨s', hs', har⟩ := hk _ hs
  obtain ⟨before, hf⟩ := har.filed
  obtain rfl := encode_inj hsv hf.valid hs'
  obtain ⟨x, hx, hreq, hlen, a, ha, hc, hprod⟩ := hf.produced
  refine ⟨x, hx, hreq, ⟨a, before, hprod⟩, fun scope h => ?_⟩
  have hg := hprod.governs
  obtain ⟨p, v, boot, now, hp, hv, hacc⟩ := hprod
  have hlast : s.lastRequest = p.requestId := by
    rw [hacc.result]
    rfl
  have hretry : ∀ q a' v' before', examine good d scope x h = .ok (q, a', v', before') →
      submit good d scope x h = (d, retry d p x h) := by
    intro q a' v' before' he
    have hex := examine_ok he
    obtain rfl : q = p := Except.ok.inj (hex.proposal.symm.trans hp)
    have hst := hex.stored
    rw [hs] at hst
    cases before' with
    | none => cases hst
    | some r =>
      obtain rfl := encode_inj hsv (hex.valid r rfl) (Option.some.inj hst)
      rw [submit, he]
      exact if_pos (by simp [hlast])
  constructor
  · cases he : examine good d scope x h with
    | error o => rw [submit, he]
    | ok y =>
      obtain ⟨q, a', v', before'⟩ := y
      rw [hretry q a' v' before' he]
  · intro hr hscope
    rw [hretry _ _ _ _ (examine_again hr hs hg hscope ha hc hlen hp hv)]
    have hsaved : privateRead h.euid 832 (stored d (.request p.requestId) h.saved)
        = .ok x.record :=
      privateRead_ok_iff.mpr (length_record hlen ▸ private_stored hr.saved (hlast ▸ hreq))
    simp [retry, hsaved]

/-- The history of `s` in the archive: the state of each revision, none before the first. -/
def Complete (good : VerifyDetached) (xs : List Submission) (d : Directory Name) (s : State) :
    Prop :=
  ∃ f : ℕ → Option State, f 0 = none ∧ f s.revision = some s
    ∧ ∀ n < (s.revision : ℕ), ∃ r, f (n + 1) = some r ∧ (r.revision : ℕ) = n + 1 ∧ r.Valid
      ∧ r.previous = expectedHash (f n) ∧ Filed good xs d (f n) r

lemma Archived.complete (h : Archived good xs d s) : Complete good xs d s := by
  induction h with
  | @first s h =>
    have hrev : (s.revision : ℕ) = 1 := h.revision.1
    refine ⟨fun n => if n = 0 then none else some s, rfl, by simp [hrev], fun n hn => ?_⟩
    obtain rfl : n = 0 := by omega
    exact ⟨s, rfl, hrev, h.valid, h.revision.2, h⟩
  | @next r s hr h ih =>
    obtain ⟨f, h0, hf, hall⟩ := ih
    have hrev : (s.revision : ℕ) = r.revision + 1 := h.revision.1
    have old : ∀ n ≤ (r.revision : ℕ), Function.update f s.revision (some s) n = f n :=
      fun n hn => Function.update_of_ne (by omega) ..
    refine ⟨Function.update f s.revision (some s), (old 0 (by omega)).trans h0,
      Function.update_self .., fun n hn => ?_⟩
    rcases Nat.lt_or_ge n r.revision with hlt | hge
    · rw [old n (by omega), old (n + 1) (by omega)]
      exact hall n hlt
    · obtain rfl : n = r.revision := by omega
      rw [old _ (Nat.le_refl _), hf]
      refine ⟨s, ?_, hrev, h.valid, h.revision.2, h⟩
      rw [← hrev]
      exact Function.update_self ..

end Archive

/-! ### Runs -/

/-- One call of `Submit`. -/
structure Event where
  scope : Identity
  submission : Submission
  host : SubmitHost

/-- The directory after a sequence of calls. -/
def submitAll (good : VerifyDetached) (d : Directory Name) (l : List Event) : Directory Name :=
  l.foldl (fun d e => (submit good d e.scope e.submission e.host).1) d

section Runs

variable {good : VerifyDetached} {d : Directory Name}

lemma submitAll_snoc (l : List Event) (e : Event) : submitAll good d (l ++ [e])
    = (submit good (submitAll good d l) e.scope e.submission e.host).1 := by
  simp [submitAll]

lemma kept_submitAll (h : d.cached .state = none) (l : List Event) :
    Kept good (l.map Event.submission) (submitAll good d l) := by
  induction l using List.reverseRecOn with
  | nil =>
    intro b hb
    rw [show (submitAll good d []).cached .state = none from h] at hb
    cases hb
  | append_singleton l e ih =>
    rw [submitAll_snoc, List.map_append]
    exact kept_submit ih e.scope e.submission e.host

lemma keeps_submitAll (l : List Event) : Keeps d (submitAll good d l) := by
  induction l using List.reverseRecOn with
  | nil => exact fun _ _ _ h => h
  | append_singleton l e ih =>
    rw [submitAll_snoc]
    exact fun n b hn hb => keeps_submit good _ e.scope e.submission e.host n b hn (ih n b hn hb)

/-- What is known of the directory after the calls `l`. -/
structure HistoryComplete (good : VerifyDetached) (d : Directory Name) (l : List Event) : Prop where
  /-- The state is valid, and it and all before it are archived with what has produced them. -/
  complete : ∀ b, (submitAll good d l).cached .state = some b → ∃ s, State.decode b = .ok s
    ∧ s.Valid ∧ Complete good (l.map Event.submission) (submitAll good d l) s
  /-- What has been archived stays as it is. -/
  unchanged : ∀ more, Keeps (submitAll good d l) (submitAll good d (l ++ more))
  /-- What has produced the state may be submitted again. -/
  again : ∀ s, s.Valid → (submitAll good d l).cached .state = some s.encode →
    ∃ x ∈ l.map Event.submission,
      (submitAll good d l).cached (.request s.lastRequest) = some x.record
        ∧ (∃ a before, Produces good a before x s) ∧ ∀ scope h,
          (submit good (submitAll good d l) scope x h).1 = submitAll good d l
            ∧ (h.Reads → s.scope = scope →
              (submit good (submitAll good d l) scope x h).2 = .ok)
  /-- An identity under which something else has been archived moves nothing. -/
  reused : ∀ x p b scope h, Proposal.decode x.rawProposal = .ok p →
    (submitAll good d l).cached (.request p.requestId) = some b → b ≠ x.record →
      (submit good (submitAll good d l) scope x h).1.cached .state
        = (submitAll good d l).cached .state

/-- **The history is complete**, wherever the calls of `Submit` have been interrupted. -/
theorem history_complete (good : VerifyDetached) (d : Directory Name) (h : d.cached .state = none)
    (l : List Event) : HistoryComplete good d l where
  complete b hb := by
    obtain ⟨s, rfl, hs⟩ := kept_submitAll h l b hb
    obtain ⟨_, hf⟩ := hs.filed
    exact ⟨s, state_canonical.decode_encode hf.valid, hf.valid, hs.complete⟩
  unchanged more := by
    rw [submitAll, submitAll, List.foldl_append]
    exact keeps_submitAll more
  again _ hsv hs := kept_again (kept_submitAll h l) hsv hs
  reused _ _ _ _ _ hp hb hne := submit_reused hp hb hne

end Runs

/-! ### A first state -/

def operationsKey : ℕ := 0x8a88e3dd7409f195fd52db2d3cba5d72ca6709bf1d94121bf3748801b40f6f5c
def securityKey : ℕ := 0x8139770ea87d175f56a35466c34c7ecccb8d8a91b4ee37a25df60f5b8fc9b394

/-- An operator and a security officer, of two domains. -/
def someAuthority : Authority where
  scope := Block.fill 16 1
  contract := Gate.fingerprint
  serial := 1
  keys := [⟨Block.ofBytes 32 (be 32 operationsKey), Block.fill 16 21, 1, .operations⟩,
    ⟨Block.ofBytes 32 (be 32 securityKey), Block.fill 16 22, 2, .security⟩]
  count_le := two_keys _ _
  tighten_range := tighten_one
  resume_range := resume_two

def someProposal : Proposal :=
  { (firstProposal (authorityHash someAuthority)).proposal with contract := Gate.fingerprint }

/-- The signatures of the two keys over the proposal. -/
def operationsSignature : ℕ :=
  0x315027f724fe328cdaf07ec478dd2f2f87b991a2aa6e136713f5033c016a3920ab86e7ca3e3e4ad01c17631c2c5d2701cf44f5605ebbe2c5a419d9e069407207
def securitySignature : ℕ :=
  0xa0a18c73b2b05cafea142317ecac4acbc1e51996766717ef527d94e52f53c56998c93d5a5d9e4217817c5af1c520a2b86f1fc3e177748f1aba99b8014a9c6408

def someSubmission : Submission where
  rawProposal := Proposal.encode someProposal
  signatures := Block.ofBytes 512 (be 64 operationsSignature ++ be 64 securitySignature)

/-- The two signatures, which are Ed25519 signatures; no other is good. -/
def someSigned : VerifyDetached := fun sig message key =>
  decide (message = be 2 domain.length ++ domain ++ Proposal.encode someProposal)
    && [(operationsKey, operationsSignature), (securityKey, securitySignature)].any fun y =>
      decide (key = Block.ofBytes 32 (be 32 y.1) ∧ sig = Block.ofBytes 64 (be 64 y.2))

def someDirectory : Directory Name :=
  let files := fun n => if n = .authorities then some someAuthority.encode else none
  ⟨files, files⟩

/-- The proposal is submitted, and once more when its answer has been lost. -/
def someEvents : List Event :=
  let host : SubmitHost := { boot := .ok (Block.fill 16 9), now := .ok 200, later := .ok 300 }
  [⟨Block.fill 16 1, someSubmission, { host with place := { synced := false } }⟩,
    ⟨Block.fill 16 1, someSubmission, host⟩]

theorem history_complete_someEvents :
    ((submitAll someSigned someDirectory someEvents).cached .state).isSome = true
      ∧ HistoryComplete someSigned someDirectory someEvents :=
  ⟨by decide +kernel, history_complete someSigned someDirectory rfl someEvents⟩

end NiayanAssurance.ControlIo
