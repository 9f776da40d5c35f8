import NiayanAssurance.StopBarrierRuns
import NiayanAssurance.SitePolicy
import NiayanAssurance.Codec
import NiayanAssurance.Lib.History

/-!
Evidence that reaches a stop barrier over the network: the key that must have signed it, and
what the holders of a set of keys can bring about.
-/

namespace NiayanAssurance.StopBarrierAuth

open NiayanAssurance.Lib NiayanAssurance.Types NiayanAssurance.Ingress
open NiayanAssurance.StopBarrier NiayanAssurance.StopBarrierRuns
open NiayanAssurance.SitePolicy (authentic)
open NiayanAssurance.Codec (byteAt)

/-- `MISSION-CORE-STOP-ACK-v1`. -/
def domain : Bytes :=
  [77, 73, 83, 83, 73, 79, 78, 45, 67, 79, 82, 69, 45, 83, 84, 79, 80, 45, 65, 67, 75, 45, 118, 49]

/-- `MC_Contract_Profile.Fingerprint`. -/
def contractProfile : Digest := Block.ofBytes 32
  [0x1b, 0x0f, 0x8d, 0xc1, 0xf6, 0x4c, 0x6e, 0x30, 0xbb, 0x1d, 0xd1, 0xbc, 0xa2, 0x32, 0x1f, 0x81,
    0x09, 0x06, 0x2b, 0xe7, 0x40, 0xa1, 0x84, 0x1a, 0xf4, 0x8d, 0x30, 0x12, 0xfc, 0x15, 0x3c, 0x27]

/-! ### The frame of an evidence -/

def frameSize : ℕ := 320

/-- `Ack_Kind'Val`, for the bytes that the frame check lets through. -/
def AckKind.val : ℕ → AckKind
  | 0 => .drained
  | 1 => .fenced
  | _ => .unsafeAck

/-- `Channel'Val`. -/
def Channel.val : ℕ → Channel
  | 0 => .nodeAgent
  | _ => .fenceObserver

def fields (b : Bytes) : Evidence where
  policyHash := .ofBytes 32 (range b 9 40)
  durableReceipt := .ofBytes 32 (range b 41 72)
  auditHead := .ofBytes 32 (range b 73 104)
  nodeId := .ofBytes 16 (range b 105 120)
  resourceId := .ofBytes 16 (range b 121 136)
  subjectBoot := .ofBytes 16 (range b 137 152)
  stamp :=
    { bootId := .ofBytes 16 (range b 153 168), sequence := .ofNat (u64 b 169)
      observedAt := .ofNat (u64 b 177), expiresAt := .ofNat (u64 b 185) }
  epoch := .ofNat (u64 b 193)
  appliedGuardRevision := .ofNat (u64 b 201)
  lastDispatched := .ofNat (u64 b 209)
  lastCompleted := .ofNat (u64 b 217)
  inFlight := .ofNat (u64 b 225)
  unknownEffects := .ofNat (u64 b 233)
  isolationPaths := BitVec.ofNat 32 (u32 b 241)
  kind := AckKind.val (byteAt b 245)
  source := Channel.val (byteAt b 246)
  durableStopLatch := byteAt b 247 = 1
  queueClosed := byteAt b 248 = 1
  retirementDurable := byteAt b 249 = 1

def decode (b : Bytes) : Except Outcome Evidence :=
  if b.length ≠ frameSize then .error .corrupt
  else if range b 1 8 ≠ EM ∨ 2 < byteAt b 245 ∨ 1 < byteAt b 246 ∨ 1 < byteAt b 247
      ∨ 1 < byteAt b 248 ∨ 1 < byteAt b 249 then .error .corrupt
  else if (List.range 9).any fun i => Counter.last < u64 b (169 + i * 8) then .error .corrupt
  else if (fields b).encode ≠ b then .error .corrupt
  else .ok (fields b)

/-! ### The key that must have signed -/

/-- The participant whose key is asked for: the last one with this node, resource and boot. -/
def signer (p : Policy) (e : Evidence) : Option ℕ :=
  (List.range p.count).foldl (fun k i =>
    if e.nodeId = (p.member i).nodeId ∧ e.resourceId = (p.member i).resourceId
      ∧ e.subjectBoot = (p.member i).bootId then some i else k) none

/-- The key that speaks for a participant on a channel. -/
def keyOf (m : Participant) : Channel → Digest
  | .nodeAgent => m.stopKey
  | .fenceObserver => m.fenceKey

/-- `Verify`. -/
def verify (good : VerifyDetached) (sodium : Bool) (p : Policy) (raw : Bytes) (sig : Signature) :
    Except Outcome Evidence :=
  if ¬ p.Valid ∨ p.contract ≠ contractProfile then .error .denied
  else
    match decode raw with
    | .error o => .error o
    | .ok e =>
      if e.policyHash ≠ fingerprint p then .error .denied
      else
        match signer p e with
        | none => .error .denied
        | some k =>
          match authentic good sodium domain raw sig (keyOf (p.member k) e.source) with
          | .ok => .ok e
          | o => .error o

lemma signer_some {p : Policy} {e : Evidence} {k : ℕ} (h : signer p e = some k) :
    k < p.count ∧ Concerns p k e := by
  unfold signer at h
  generalize p.count = n at h ⊢
  induction n with
  | zero => simp at h
  | succ n ih =>
    simp only [List.range_succ, List.foldl_append, List.foldl_cons, List.foldl_nil] at h
    split at h
    · rename_i hn
      cases h
      exact ⟨Nat.lt_succ_self _, hn⟩
    · obtain ⟨h1, h2⟩ := ih h
      exact ⟨h1.trans (Nat.lt_succ_self n), h2⟩

/-- An evidence that is let through is signed with the key of the participant it is about. -/
lemma verify_ok {good : VerifyDetached} {sodium : Bool} {p : Policy} {raw : Bytes}
    {sig : Signature} {e : Evidence} (h : verify good sodium p raw sig = .ok e) :
    ∃ k < p.count, Concerns p k e ∧
      authentic good sodium domain raw sig (keyOf (p.member k) e.source) = .ok := by
  unfold verify at h
  split at h
  · cases h
  rcases hd : decode raw with _ | e'
  · simp [hd] at h
  simp only [hd] at h
  split at h
  · cases h
  rcases hs : signer p e' with _ | k
  · simp [hs] at h
  simp only [hs] at h
  obtain ⟨hk, hc⟩ := signer_some hs
  split at h
  · rename_i ha
    cases h
    exact ⟨k, hk, hc, ha⟩
  · cases h

/-! ### A barrier that is reached over the network -/

/-- A message comes with the keys of the party that has signed it, whoever may relay it. -/
inductive Message
  | submit (keys : Set PublicKey) (raw : Bytes) (sig : Signature) (now : Counter)
  | seal (now : Counter)

def Message.keys : Message → Set PublicKey
  | .submit keys .. => keys
  | .seal _ => ∅

def step (good : VerifyDetached) (sodium : Bool) (p : Policy) (s : State) :
    Message → State × Outcome
  | .submit _ raw sig now =>
    match verify good sodium p raw sig with
    | .error o => (s, o)
    | .ok e => answer s (observe p s e true now)
  | .seal now => answer s (p.seal s now)

/-- Signatures cannot be forged: one that passes under a key was made by a party that has it. -/
def Unforged (good : VerifyDetached) (sodium : Bool) : Message → Prop
  | .submit keys raw sig _ => ∀ key, authentic good sodium domain raw sig key = .ok → key ∈ keys
  | .seal _ => True

def NoFence (p : Policy) (keys : Set PublicKey) : Prop :=
  ∀ i < p.count, (p.member i).fenceKey ∉ keys

def NoStop (p : Policy) (keys : Set PublicKey) : Prop :=
  ∀ i < p.count, (p.member i).stopKey ∉ keys

/-- What the holders of `keys` leave as it is between `s` and `s'`. -/
structure Separated (p : Policy) (keys : Set PublicKey) (s s' : State) : Prop where
  fence : NoFence p keys → ∀ i,
    ((s'.member i).current = .isolated → (s.member i).current = .isolated)
      ∧ (s'.member i).fenceSequence = (s.member i).fenceSequence
  stop : NoStop p keys → ∀ i,
    ((s'.member i).current = .acknowledged → (s.member i).current = .acknowledged)
      ∧ (s'.member i).nodeSequence = (s.member i).nodeSequence
  own : ∀ i, (p.member i).stopKey ∉ keys → (p.member i).fenceKey ∉ keys →
    s'.member i = s.member i

lemma Separated.refl (p : Policy) (keys : Set PublicKey) (s : State) : Separated p keys s s :=
  ⟨fun _ _ => ⟨id, rfl⟩, fun _ _ => ⟨id, rfl⟩, fun _ _ _ => rfl⟩

lemma Separated.trans {p : Policy} {keys : Set PublicKey} {s t u : State}
    (h : Separated p keys s t) (h' : Separated p keys t u) : Separated p keys s u where
  fence hf i := ⟨(h.fence hf i).1 ∘ (h'.fence hf i).1,
    (h'.fence hf i).2.trans (h.fence hf i).2⟩
  stop hf i := ⟨(h.stop hf i).1 ∘ (h'.stop hf i).1, (h'.stop hf i).2.trans (h.stop hf i).2⟩
  own i h1 h2 := (h'.own i h1 h2).trans (h.own i h1 h2)

/-- Fewer keys bring about less. -/
lemma Separated.mono {p : Policy} {keys keys' : Set PublicKey} {s s' : State}
    (h : Separated p keys s s') (hk : keys ⊆ keys') : Separated p keys' s s' where
  fence hf := h.fence fun i hi hm => hf i hi (hk hm)
  stop hf := h.stop fun i hi hm => hf i hi (hk hm)
  own i h1 h2 := h.own i (fun hm => h1 (hk hm)) fun hm => h2 (hk hm)

section Step

variable {good : VerifyDetached} {sodium : Bool} {p : Policy} {s s' : State} {e : Evidence}
  {now : Counter} {raw : Bytes} {sig : Signature} {keys : Set PublicKey}

/-- What an evidence that is let through and accepted writes: one receipt, and for that the key
of its channel was at hand. -/
lemma submit_ok (hv : verify good sodium p raw sig = .ok e)
    (hu : ∀ key, authentic good sodium domain raw sig key = .ok → key ∈ keys)
    (ho : observe p s e true now = .ok s') :
    ∃ k phase, Concerns p k e ∧ verdict (p.member k) (s.member k) e = .ok phase ∧ k < p.count ∧
      keyOf (p.member k) e.source ∈ keys ∧
      ∀ i, s'.member i = if i = k then (s.member k).take phase e else s.member i := by
  obtain ⟨k, phase, h⟩ := observe_ok ho
  obtain ⟨k', hk', hc, ha⟩ := verify_ok hv
  have hc' := h.concerns
  -- The policy names one participant for the node and the resource, so it is the same one.
  obtain rfl : k' = k := unique h.policy hk' h.index (hc.1.symm.trans hc'.1)
    (hc.2.1.symm.trans hc'.2.1)
  have hs : k' < s.count := by
    rw [h.same.2.2.2.2]
    exact h.index
  exact ⟨k', phase, hc, h.verdict, hk', hu _ ha, fun i => by rw [h.result, take_member hs]⟩

lemma submit_separated (hv : verify good sodium p raw sig = .ok e)
    (hu : ∀ key, authentic good sodium domain raw sig key = .ok → key ∈ keys)
    (ho : observe p s e true now = .ok s') : Separated p keys s s' := by
  obtain ⟨k, phase, -, hph, hk, hkey, hm⟩ := submit_ok hv hu ho
  obtain ⟨-, hack, hiso⟩ := verdict_source hph
  have hseq : ∀ c, c ≠ e.source → ((s.member k).take phase e).sequence c =
      (s.member k).sequence c := fun c hc => by rw [take_sequence, if_neg hc]
  refine ⟨fun hf i => ?_, fun hf i => ?_, fun i h1 h2 => ?_⟩
  · have hsrc : e.source ≠ .fenceObserver := fun hs => hf k hk (by rwa [hs] at hkey)
    rw [hm i]
    split_ifs with hi
    · subst hi
      exact ⟨fun h3 => absurd (hiso h3) hsrc, hseq .fenceObserver hsrc.symm⟩
    · exact ⟨id, rfl⟩
  · have hsrc : e.source ≠ .nodeAgent := fun hs => hf k hk (by rwa [hs] at hkey)
    rw [hm i]
    split_ifs with hi
    · subst hi
      exact ⟨fun h3 => absurd (hack h3) hsrc, hseq .nodeAgent hsrc.symm⟩
    · exact ⟨id, rfl⟩
  · rw [hm i, if_neg]
    rintro rfl
    cases hs : e.source with
    | nodeAgent => rw [hs] at hkey; exact h1 hkey
    | fenceObserver => rw [hs] at hkey; exact h2 hkey

lemma seal_separated (ho : p.seal s now = .ok s') : Separated p keys s s' := by
  obtain ⟨-, -, -, rfl⟩ := seal_ok ho
  exact ⟨fun _ _ => ⟨id, rfl⟩, fun _ _ => ⟨id, rfl⟩, fun _ _ _ => rfl⟩

/-- What one message brings about. -/
lemma step_separated (c : Message) (hu : Unforged good sodium c) :
    Separated p c.keys s (step good sodium p s c).1 := by
  rcases c with ⟨keys, raw, sig, now⟩ | ⟨now⟩
  · unfold step
    dsimp only
    rcases hv : verify good sodium p raw sig with o | e
    · exact .refl p _ s
    · dsimp only
      rcases ho : observe p s e true now with o | s'
      · exact .refl p _ s
      · exact submit_separated hv hu ho
  · unfold step
    dsimp only
    rcases ho : p.seal s now with o | s'
    · exact .refl p _ s
    · exact seal_separated ho

/-- An evidence changes no receipt but that of the participant it is about. -/
lemma submit_others (hv : verify good sodium p raw sig = .ok e) {i : ℕ} (hi : ¬ Concerns p i e) :
    (step good sodium p s (.submit keys raw sig now)).1.member i = s.member i := by
  unfold step
  simp only [hv]
  rcases ho : observe p s e true now with o | s'
  · rfl
  · obtain ⟨k, phase, hc, -, -, -, hm⟩ := submit_ok hv (fun key _ => Set.mem_univ key) ho
    show s'.member i = s.member i
    rw [hm i, if_neg]
    rintro rfl
    exact hi hc

end Step

/-- The keys of a valid policy that one role may have are none of the other role's. -/
lemma valid_keys {p : Policy} (hp : p.Valid) :
    NoFence p {key | ∃ i < p.count, (p.member i).stopKey = key} ∧
      NoStop p {key | ∃ i < p.count, (p.member i).fenceKey = key} := by
  obtain ⟨-, -, -, -, -, -, -, -, -, -, -, h⟩ := hp
  constructor
  · rintro j hj ⟨i, hi, hk⟩
    exact (h i hi).2.2 j hj hk
  · rintro i hi ⟨j, hj, hk⟩
    exact (h i hi).2.2 j hj hk.symm

/-- **Separation of the authorities to stop and to fence**: in a run over the network every
message leaves alone what its signer's keys do not speak for, and every receipt but that of the
participant it is about. So do the messages of a whole run that the holders of `keys` have
signed. The stop keys of a valid policy are no fence keys. -/
theorem authorities_separated {good : VerifyDetached} {sodium : Bool} {p : Policy} {s₀ s : State}
    {l : List (Entry State Message Outcome)} (hp : p.Valid)
    (hr : Run (Called (step good sodium p)) s₀ l s) (hu : ∀ h ∈ l, Unforged good sodium h.call) :
    (∀ h ∈ l, Separated p h.call.keys h.before (step good sodium p h.before h.call).1 ∧
      ∀ keys raw sig now e, h.call = .submit keys raw sig now →
        verify good sodium p raw sig = .ok e → ∀ i, ¬ Concerns p i e →
          (step good sodium p h.before h.call).1.member i = h.before.member i) ∧
    (∀ keys, (∀ h ∈ l, h.call.keys ⊆ keys) → Separated p keys s₀ s) ∧
    NoFence p {key | ∃ i < p.count, (p.member i).stopKey = key} ∧
    NoStop p {key | ∃ i < p.count, (p.member i).fenceKey = key} := by
  refine ⟨fun h hh => ⟨step_separated h.call (hu h hh), ?_⟩, fun keys hk => ?_, valid_keys hp⟩
  · rintro keys raw sig now e hc hv i hi
    rw [hc]
    exact submit_others hv hi
  · induction hr with
    | nil => exact .refl p keys s₀
    | @snoc l s h s' _ h1 ih =>
      obtain ⟨rfl, h2⟩ := h1
      have h3 := step_separated (p := p) (s := h.before) h.call (hu h (by simp))
      rw [h2] at h3
      exact (ih (fun h' hh => hu h' (List.mem_append_left _ hh)) fun h' hh =>
        hk h' (List.mem_append_left _ hh)).trans (h3.mono (hk h (by simp)))

/-! ### A fence observer that is heard -/

/-- The key of the fence observer. -/
def someKey : PublicKey := Block.ofBytes 32
  (be 32 0x17cb79fb2b4120f2b1ec65e4198d6e08b28e813feb01e4a400839b85e18080ce)

def profilePolicy : Policy :=
  { onePolicy with
    contract := contractProfile
    members :=
      [⟨Block.fill 16 11, Block.fill 16 21, Block.fill 16 31, Block.fill 32 41, someKey, 3⟩] }

/-- Its fingerprint. -/
def profileDigest : Digest := Block.ofBytes 32
  (be 32 0xbce32e3fcb5ebc67494b085ad83749992eeae792707022a6718a71016a1954a1)

/-- The fence observer reports that the participant is isolated. -/
def someReport : Bytes := (report profileDigest .fenceObserver .fenced 150).encode

/-- The Ed25519 signature of the report under `someKey`. -/
def someSignature : Signature := Block.ofBytes 64
  (be 32 0x81e120fe7ed351040419374e471ba5d1093d8ee9cd2246e64e58c5509cf2c7cb
    ++ be 32 0x499fa98f8d448b24169b297242632e60ebe46565d706001523bb0b9ce72d0609)

/-- No other is good. -/
def signed : VerifyDetached := fun sig m key =>
  decide (key = someKey ∧ sig = someSignature ∧ m = be 2 domain.length ++ domain ++ someReport)

def someMessage : Message := .submit {someKey} someReport someSignature 200

lemma unforged_someMessage : Unforged signed true someMessage := by
  intro key h
  unfold authentic at h
  split_ifs at h with h1 h2 h3
  exact (of_decide_eq_true h3).1

set_option maxRecDepth 5000 in
theorem authorities_separated_someMessage :
    ((after (step signed true profilePolicy) (init profilePolicy).2 [someMessage]).member 0).current
        = .isolated ∧
    Separated profilePolicy {someKey} (init profilePolicy).2
      (after (step signed true profilePolicy) (init profilePolicy).2 [someMessage]) := by
  have hm : ∀ h ∈ history (step signed true profilePolicy) (init profilePolicy).2 [someMessage],
      h.call = someMessage := fun h hh => by rw [List.mem_singleton.mp hh]
  refine ⟨by decide +kernel, (authorities_separated (by decide +kernel)
    (run_history (step signed true profilePolicy) (init profilePolicy).2 [someMessage])
    fun h hh => ?_).2.1 {someKey} fun h hh => ?_⟩
  · rw [hm h hh]
    exact unforged_someMessage
  · rw [hm h hh]
    exact subset_rfl

end NiayanAssurance.StopBarrierAuth
