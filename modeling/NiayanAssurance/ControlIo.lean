import NiayanAssurance.ControlCodec
import NiayanAssurance.FileSystem
import NiayanAssurance.Gate

/-!
The latch of change control as it is read from its directory, and what it permits.
-/

namespace NiayanAssurance.ControlIo

open NiayanAssurance.Lib NiayanAssurance.Types NiayanAssurance.Control
open NiayanAssurance.ControlCodec

inductive Operation
  | inspect | contain | repairRecords | changeFiles | activateService | acceptState
  | joinCluster | fleetStep | restoreState
  deriving DecidableEq

/-- `MC_Control.Permits`. -/
def Permits (current : Mode) (action : Operation) : Prop :=
  match current with
  | .running => True
  | .changesHeld => action = .inspect ∨ action = .contain ∨ action = .repairRecords
  | .quarantined => action = .inspect ∨ action = .contain

instance (current : Mode) (action : Operation) : Decidable (Permits current action) := by
  unfold Permits
  cases current <;> infer_instance

/-! ### Reading -/

/-- A file as the host answers for it: to `Stat`, and to `MC_Atomic.Read` with the bytes that it
has read. -/
structure StoredFile where
  stat : Outcome := .ok
  info : FileSystem.Info := {}
  read : Outcome := .ok
  data : Bytes := []

/-- `Private_Read` of a file of `length` bytes, for the effective user `euid`. -/
def privateRead (euid length : ℕ) (f : StoredFile) : Except Outcome Bytes :=
  if f.stat ≠ .ok then .error f.stat
  else if f.info.kind ≠ .regular ∨ f.info.links ≠ 1
      ∨ ¬ (f.info.mode = 0o400 ∨ f.info.mode = 0o600) ∨ f.info.uid ≠ euid
      ∨ f.info.size ≠ length then .error .denied
  else if f.read ≠ .ok then .error f.read
  else if f.data.length ≠ length then .error .corrupt
  else .ok f.data

/-- The directory of the latch, as the host answers for it. -/
structure LatchFiles where
  euid : ℕ := 0
  /-- `control-authorities.bin`. -/
  authorities : StoredFile := {}
  /-- `control-state.bin`. -/
  state : StoredFile := {}

/-- `Authority`: the authority over a scope, and the digest of its frame. -/
def authority (d : LatchFiles) (scope : Identity) : Except Outcome (Authority × Digest) :=
  match privateRead d.euid 1024 d.authorities with
  | .error o => .error o
  | .ok b =>
    match Authority.decode b with
    | .error o => .error o
    | .ok a =>
      if a.scope ≠ scope ∨ a.contract ≠ Gate.fingerprint then .error .denied
      else .ok (a, Sha256.hash b)

/-- `Read_State`: the state of the latch, and its fingerprint. -/
def readState (d : LatchFiles) (scope : Identity) : Except Outcome (State × Digest) :=
  match authority d scope with
  | .error o => .error o
  | .ok (a, ah) =>
    match privateRead d.euid 256 d.state with
    | .error o => .error o
    | .ok b =>
      match State.decode b with
      | .error o => .error o
      | .ok s =>
        if s.scope ≠ scope ∨ s.contract ≠ a.contract ∨ s.authorityDigest ≠ ah then
          .error .denied
        else .ok (s, Sha256.hash b)

/-- `Check`. -/
def check (d : LatchFiles) (scope : Identity) (action : Operation) : Outcome :=
  match readState d scope with
  | .error o => o
  | .ok (s, _) => if Permits s.current action then .ok else .denied

/-! ### What has been read -/

/-- The file is a private one of `euid`, with these bytes. -/
structure PrivateFile (euid length : ℕ) (f : StoredFile) (b : Bytes) : Prop where
  stat : f.stat = .ok
  kind : f.info.kind = .regular
  links : f.info.links = 1
  mode : f.info.mode = 0o400 ∨ f.info.mode = 0o600
  owner : f.info.uid = euid
  size : f.info.size = length
  read : f.read = .ok
  data : f.data = b
  length : b.length = length

/-- The latch of `scope` is stored, and its state is `s`. -/
structure InForce (d : LatchFiles) (scope : Identity) (s : State) : Prop where
  authority : ∃ a, PrivateFile d.euid 1024 d.authorities a.encode ∧ a.Valid ∧ a.scope = scope
    ∧ a.contract = Gate.fingerprint ∧ s.authorityDigest = authorityHash a
  state : PrivateFile d.euid 256 d.state s.encode
  valid : s.Valid
  scope : s.scope = scope
  contract : s.contract = Gate.fingerprint

lemma privateRead_ok_iff {euid length : ℕ} {f : StoredFile} {b : Bytes} :
    privateRead euid length f = .ok b ↔ PrivateFile euid length f b := by
  unfold privateRead
  constructor
  · intro h
    split at h
    · cases h
    rename_i h1
    split at h
    · cases h
    rename_i h2
    split at h
    · cases h
    rename_i h3
    split at h
    · cases h
    rename_i h4
    cases h
    simp only [not_or, not_not] at h1 h2 h3 h4
    obtain ⟨g1, g2, g3, g4, g5⟩ := h2
    exact ⟨h1, g1, g2, by tauto, g4, g5, h3, rfl, h4⟩
  · rintro ⟨h1, g1, g2, g3, g4, g5, h3, rfl, h4⟩
    rw [if_neg (not_not.mpr h1), if_neg (by simp [g1, g2, g3, g4, g5]),
      if_neg (not_not.mpr h3), if_neg (not_not.mpr h4)]

lemma authority_ok_iff {d : LatchFiles} {scope : Identity} {a : Authority} {h : Digest} :
    authority d scope = .ok (a, h) ↔ PrivateFile d.euid 1024 d.authorities a.encode ∧ a.Valid
      ∧ a.scope = scope ∧ a.contract = Gate.fingerprint ∧ h = authorityHash a := by
  unfold authority
  constructor
  · intro hr
    split at hr
    · cases hr
    rename_i b hb
    split at hr
    · cases hr
    rename_i a' ha
    split at hr
    · cases hr
    rename_i hn
    cases hr
    simp only [not_or, not_not] at hn
    obtain ⟨rfl, hv⟩ := (authority_canonical _ _).mp ha
    exact ⟨privateRead_ok_iff.mp hb, hv, hn.1, hn.2, rfl⟩
  · rintro ⟨hf, hv, h1, h2, rfl⟩
    rw [privateRead_ok_iff.mpr hf]
    dsimp only
    rw [authority_canonical.decode_encode hv]
    dsimp only
    rw [if_neg (by simp [h1, h2])]
    rfl

lemma readState_ok_iff {d : LatchFiles} {scope : Identity} {s : State} {h : Digest} :
    readState d scope = .ok (s, h) ↔ InForce d scope s ∧ h = stateHash s := by
  unfold readState
  constructor
  · intro hr
    split at hr
    · cases hr
    rename_i a ah ha
    split at hr
    · cases hr
    rename_i b hb
    split at hr
    · cases hr
    rename_i s' hs
    split at hr
    · cases hr
    rename_i hn
    cases hr
    simp only [not_or, not_not] at hn
    obtain ⟨hf, hv, h1, h2, rfl⟩ := authority_ok_iff.mp ha
    obtain ⟨rfl, hsv⟩ := (state_canonical _ _).mp hs
    exact ⟨⟨⟨a, hf, hv, h1, h2, hn.2.2⟩, privateRead_ok_iff.mp hb, hsv, hn.1,
      hn.2.1.trans h2⟩, rfl⟩
  · rintro ⟨⟨⟨a, hf, hv, h1, h2, h3⟩, hs, hsv, h4, h5⟩, rfl⟩
    rw [authority_ok_iff.mpr ⟨hf, hv, h1, h2, rfl⟩]
    dsimp only
    rw [privateRead_ok_iff.mpr hs]
    dsimp only
    rw [state_canonical.decode_encode hsv]
    dsimp only
    rw [if_neg (by simp [h4, h5, h2, h3])]
    rfl

section Errors

variable {o : Outcome}

lemma privateRead_error {euid length : ℕ} {f : StoredFile}
    (h : privateRead euid length f = .error o) : o ≠ .ok := by
  unfold privateRead at h
  split_ifs at h with h1 h2 h3 h4 <;> cases h
  · exact h1
  · decide
  · exact h3
  · decide

lemma authority_decode_error {b : Bytes} (h : Authority.decode b = .error o) : o ≠ .ok := by
  unfold Authority.decode at h
  split_ifs at h <;> cases h <;> decide

lemma state_decode_error {b : Bytes} (h : State.decode b = .error o) : o ≠ .ok := by
  unfold State.decode at h
  split_ifs at h <;> cases h <;> decide

lemma readState_error {d : LatchFiles} {scope : Identity} (h : readState d scope = .error o) :
    o ≠ .ok := by
  unfold readState authority at h
  split at h
  · rename_i ha
    cases h
    split at ha
    · cases ha
      exact privateRead_error ‹_›
    split at ha
    · cases ha
      exact authority_decode_error ‹_›
    split at ha
    · cases ha
      decide
    · cases ha
  split at h
  · cases h
    exact privateRead_error ‹_›
  split at h
  · cases h
    exact state_decode_error ‹_›
  split at h
  · cases h
    decide
  · cases h

end Errors

/-- **What the latch lets through.** -/
theorem check_ok_iff (d : LatchFiles) (scope : Identity) (action : Operation) :
    check d scope action = .ok ↔ ∃ s, InForce d scope s ∧ Permits s.current action := by
  unfold check
  constructor
  · intro h
    split at h
    · exact absurd h (readState_error ‹_›)
    rename_i s d hs
    split at h
    · exact ⟨s, (readState_ok_iff.mp hs).1, ‹_›⟩
    · cases h
  · rintro ⟨s, hs, hp⟩
    rw [readState_ok_iff.mpr ⟨hs, rfl⟩]
    exact if_pos hp

end NiayanAssurance.ControlIo
