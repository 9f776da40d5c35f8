import NiayanAssurance.Replay
import NiayanAssurance.Requests

/-!
The checks a request passes before it is admitted: its signature, its scope, its body, and its
place after the request admitted last.

The signature scheme is not part of the sources: it is a parameter, which tells whether a
signature is good for a message under a key.
-/

namespace NiayanAssurance.Ingress

open NiayanAssurance.Lib NiayanAssurance.Types NiayanAssurance.Protocol
open NiayanAssurance.Replay NiayanAssurance.Requests

abbrev PublicKey := Block 32
abbrev Signature := Block 64

/-- `crypto_sign_verify_detached` answers 0. -/
abbrev VerifyDetached := Signature → Bytes → PublicKey → Bool

/-- `MC_Signatures.Domain`. -/
def domain : Bytes :=
  [0x4D, 0x43, 0x50, 0x32, 0x2D, 0x53, 0x49, 0x47, 0x4E, 0x45, 0x44, 0x2D, 0x56, 0x32, 0, 0]

/-- `MC_Signatures.Verify`; `sodium` tells whether the library could be initialized. -/
def verify (good : VerifyDetached) (sodium : Bool) (rawHeader bodyData : Bytes)
    (sig : Signature) (trustedKey : PublicKey) : Except Outcome Header :=
  match Protocol.decode rawHeader with
  | .error o => .error o
  | .ok h =>
    if isZero trustedKey.bytes = true ∨ ¬ ValidIdentity h ∨ bodyData.length ≠ h.bodyLength
        ∨ Sha256.hash bodyData ≠ h.bodyDigest then .error .denied
    else if sodium = false then .error .ioError
    else if good sig (domain ++ Protocol.encode h) trustedKey then .ok h
    else .error .denied

structure Scope where
  clusterId : Identity := zeroIdentity
  nodeId : Identity := zeroIdentity
  resourceId : Identity := zeroIdentity
  bootId : Identity := zeroIdentity
  membershipEpoch : Counter := 0
  fenceToken : Counter := 0
  allowed : MessageKind → Bool := fun _ => false
  maximumLocalLease : Counter := 30000

def WithinScope (h : Header) (policy : Scope) (now : Counter) : Prop :=
  ValidIdentity h ∧ h.clusterId = policy.clusterId ∧ h.nodeId = policy.nodeId
    ∧ h.resourceId = policy.resourceId ∧ h.bootId = policy.bootId
    ∧ h.membershipEpoch = policy.membershipEpoch ∧ h.fenceToken = policy.fenceToken
    ∧ policy.allowed h.kind = true ∧ (now : ℕ) < h.deadline
    ∧ (h.deadline : ℕ) - now ≤ policy.maximumLocalLease

instance (h : Header) (policy : Scope) (now : Counter) : Decidable (WithinScope h policy now) := by
  unfold WithinScope; infer_instance

/-- What the window keeps of a header. -/
def windowOf (h : Header) (rawHeader : Bytes) : Window :=
  ⟨h.membershipEpoch, h.fenceToken, h.sequenceNumber, h.requestId, Sha256.hash rawHeader⟩

/-- What `Check_Request` hands back with `OK`. -/
structure Checked where
  candidate : Window
  request : Request
  classification : Decision

def checkRequest (good : VerifyDetached) (sodium : Bool) (rawHeader bodyData : Bytes)
    (sig : Signature) (key : PublicKey) (scope : Scope) (expectedContract : Digest)
    (now : Counter) (previous : Window) : Except Outcome Checked :=
  match verify good sodium rawHeader bodyData sig key with
  | .error o => .error o
  | .ok h =>
    if ¬ WithinScope h scope now then .error .denied
    else
      match Requests.decode bodyData with
      | .error o => .error o
      | .ok parsed =>
        if isZero expectedContract.bytes = true ∨ parsed.contractDigest ≠ expectedContract
            ∨ ¬ HeaderBinds h parsed then .error .denied
        else
          let r := recordRequest previous (windowOf h rawHeader)
          if r.2 = .fresh ∨ r.2 = .exactRetry then .ok ⟨r.1, parsed, r.2⟩
          else .error .denied

/-! ### What is checked -/

/-- A request that is signed, in scope, in time and well formed, whatever was admitted before:
`h` is its header and `r` its body. -/
structure Authorized (good : VerifyDetached) (rawHeader bodyData : Bytes) (sig : Signature)
    (key : PublicKey) (scope : Scope) (expectedContract : Digest) (now : Counter) (h : Header)
    (r : Request) : Prop where
  header : Protocol.decode rawHeader = .ok h
  trusted : isZero key.bytes = false
  identity : ValidIdentity h
  bodyLength : bodyData.length = h.bodyLength
  bodyDigest : Sha256.hash bodyData = h.bodyDigest
  signed : good sig (domain ++ Protocol.encode h) key = true
  within : WithinScope h scope now
  request : Requests.decode bodyData = .ok r
  contract : isZero expectedContract.bytes = false
  sameContract : r.contractDigest = expectedContract
  binds : HeaderBinds h r

section Check

variable {good : VerifyDetached} {sodium : Bool} {rawHeader bodyData : Bytes} {sig : Signature}
  {key : PublicKey} {scope : Scope} {contract : Digest} {now : Counter} {previous : Window}
  {c : Checked} {h : Header} {r : Request} {o : Outcome}

lemma verify_ok (hv : verify good sodium rawHeader bodyData sig key = .ok h) :
    Protocol.decode rawHeader = .ok h ∧ isZero key.bytes = false ∧ ValidIdentity h
      ∧ bodyData.length = h.bodyLength ∧ Sha256.hash bodyData = h.bodyDigest
      ∧ good sig (domain ++ Protocol.encode h) key = true := by
  unfold verify at hv
  split at hv
  · cases hv
  rename_i h' hd
  split at hv
  · cases hv
  rename_i h1
  push Not at h1
  split at hv
  · cases hv
  split at hv
  · rename_i hg
    obtain rfl := Except.ok.inj hv
    exact ⟨hd, by simpa using h1.1, h1.2.1, h1.2.2.1, h1.2.2.2, hg⟩
  · cases hv

theorem checkRequest_ok (hc : checkRequest good sodium rawHeader bodyData sig key scope contract
    now previous = .ok c) :
    ∃ h, Authorized good rawHeader bodyData sig key scope contract now h c.request
      ∧ check previous (windowOf h rawHeader) = c.classification
      ∧ (c.classification = .fresh ∨ c.classification = .exactRetry) := by
  unfold checkRequest at hc
  split at hc
  · cases hc
  rename_i h hv
  obtain ⟨h1, h2, h3, h4, h5, h6⟩ := verify_ok hv
  split at hc
  · cases hc
  rename_i hs
  split at hc
  · cases hc
  rename_i parsed hp
  split at hc
  · cases hc
  rename_i hk
  push Not at hk
  obtain ⟨hz, hcon, hbind⟩ := hk
  dsimp only at hc
  split at hc
  · rename_i hr
    obtain rfl := Except.ok.inj hc
    exact ⟨h, ⟨h1, h2, h3, h4, h5, h6, not_not.mp hs, hp, by simpa using hz, hcon, hbind⟩, rfl,
      hr⟩
  · cases hc

lemma Authorized.filled (ha : Authorized good rawHeader bodyData sig key scope contract now h r)
    (hd : (windowOf h rawHeader).requestDigest ≠ zeroDigest) : (windowOf h rawHeader).Filled := by
  obtain ⟨h1, -, -, -, -, h6, h7, h8⟩ := ha.identity
  refine ⟨h7, h8, h6, fun hz => ?_, hd⟩
  rw [(isZero_block h.requestId).mpr hz] at h1
  cases h1

/-- With the library at hand, an authorized request is only compared with the window. -/
theorem checkRequest_of (ha : Authorized good rawHeader bodyData sig key scope contract now h r)
    (hw : check previous (windowOf h rawHeader) = .exactRetry) :
    checkRequest good true rawHeader bodyData sig key scope contract now previous =
      .ok ⟨previous, r, .exactRetry⟩ := by
  obtain ⟨h1, h2, h3, h4, h5, h6, h7, h8, h9, h10, h11⟩ := ha
  simp [checkRequest, verify, h1, h2, h3, h4, h5, h6, h7, h8, h9, h10, h11, recordRequest, hw]

lemma protocol_decode_error (hd : Protocol.decode rawHeader = .error o) : o ≠ .ok := by
  unfold Protocol.decode at hd
  split at hd
  · cases hd; simp
  split at hd
  · cases hd; simp
  split at hd
  · cases hd; simp
  split at hd
  · cases hd; simp
  split at hd <;> cases hd
  simp

lemma requests_decode_error (hd : Requests.decode bodyData = .error o) : o ≠ .ok :=
  (returned_error hd).2

lemma checkRequest_error (hc : checkRequest good sodium rawHeader bodyData sig key scope
    contract now previous = .error o) : o ≠ .ok := by
  unfold checkRequest at hc
  split at hc
  · rename_i o' hv
    cases hc
    unfold verify at hv
    split at hv
    · rename_i hd
      cases hv
      exact protocol_decode_error hd
    split at hv
    · cases hv; simp
    split at hv
    · cases hv; simp
    split at hv <;> cases hv
    simp
  split at hc
  · cases hc; simp
  split at hc
  · rename_i hd
    cases hc
    exact requests_decode_error hd
  split at hc
  · cases hc; simp
  dsimp only at hc
  split at hc <;> cases hc
  simp

end Check

end NiayanAssurance.Ingress
