import NiayanAssurance.ControlIo
import NiayanAssurance.Lib.Guard
import NiayanAssurance.GateRuns
import NiayanAssurance.Layouts

/-!
The last check before a phase of an operation: the policy, the time, the latch of change
control and the witnesses are looked at again.

Three chains of comparisons with the name of the phase decide who may ask for it, what the
latch has to permit, and which witnesses it takes. What comes of them together is stated
phase by phase.
-/

namespace NiayanAssurance.GateCheck

open NiayanAssurance.Lib NiayanAssurance.Types NiayanAssurance.Requests
open NiayanAssurance.Ingress NiayanAssurance.SitePolicy
open NiayanAssurance.Control (Mode)
open NiayanAssurance.Gate hiding Operation
open NiayanAssurance.ControlIo (Operation LatchFiles InForce Permits)

/-- What a caller asks about. -/
structure Subject where
  rootId : Identity
  transactionId : Identity
  plan : Digest
  evidence : Digest
  originEpoch : Counter
  originFence : Counter
  phase : String

/-- What the host answers during a check. -/
structure CheckHost where
  policy : PolicyFile := {}
  realtime : Outcome := .ok
  utc : Counter := 0
  bootRead : Outcome := .ok
  bootId : Identity := zeroIdentity
  boottime : Outcome := .ok
  now : Counter := 0
  latch : LatchFiles := {}
  sodium : Bool := true

/-- `Is_Recovery`. -/
def IsRecovery (a : RequestedAction) : Prop :=
  a = .recover ∨ a = .restore ∨ a = .reconcile ∨ a = .repair ∨ a = .commit

instance (a : RequestedAction) : Decidable (IsRecovery a) := by
  unfold IsRecovery; infer_instance

/-- The first chain: whether a request for `a` may enter the phase. -/
def phaseStatus (a : RequestedAction) (phase : String) : Outcome :=
  if phase = "prepare" ∨ phase = "capture" then
    if a ≠ .prepare then .denied else .ok
  else if phase = "restore" then
    if a ≠ .restore then .denied else .ok
  else if phase = "repair-journal" ∨ phase = "repair-healing-journal" then
    if a ≠ .repair then .denied else .ok
  else if phase = "finish-terminal" then
    if a ≠ .reconcile then .denied else .ok
  else if phase = "commit" then
    if a ≠ .commit then .denied else .ok
  else if phase = "apply" then
    if ¬ (a = .apply ∨ a = .recover) then .denied else .ok
  else if phase = "file-effect" ∨ phase = "publish-file" then
    if ¬ (a = .apply ∨ a = .recover ∨ a = .restore) then .denied else .ok
  else if phase = "service-stop" ∨ phase = "service-start" ∨ phase = "service-restart"
      ∨ phase = "service-reload" ∨ phase = "cluster-drain" ∨ phase = "cluster-rejoin" then
    if a ≠ .apply then .denied else .ok
  else if phase = "observe-effect" then
    if ¬ (a = .apply ∨ a = .reconcile) then .denied else .ok
  else .unsupported

/-- The second chain: what the latch has to permit. -/
def operation (a : RequestedAction) (phase : String) : Operation :=
  if phase = "observe-effect" ∨ phase = "finish-terminal" then .inspect
  else if phase = "service-stop" ∨ phase = "cluster-drain" then .contain
  else if phase = "repair-journal" ∨ phase = "repair-healing-journal" then .repairRecords
  else if phase = "commit" then .acceptState
  else if phase = "cluster-rejoin" then .joinCluster
  else if phase = "service-start" ∨ phase = "service-restart" ∨ phase = "service-reload" then
    .activateService
  else if a = .restore then .restoreState
  else .changeFiles

/-- The third chain, from the reservation of the cluster on; `fact` is `Require_Fact`. -/
def factsStatus (content : Request) (x : Subject) (fact : Fact → Digest → Outcome) : Outcome :=
  if fact .clusterReservation zeroDigest ≠ .ok then fact .clusterReservation zeroDigest
  else if x.phase = "repair-healing-journal" then
    if fact .isolationConfirmed zeroDigest ≠ .ok then fact .isolationConfirmed zeroDigest
    else fact .resourceQuiesced zeroDigest
  else if x.phase = "commit" ∨ x.phase = "cluster-rejoin" then
    if x.evidence = zeroDigest ∨ x.evidence ≠ content.evidenceDigest then .denied
    else fact .semanticHealth x.evidence
  else if content.action = .restore then
    if fact .resourceQuiesced zeroDigest ≠ .ok then fact .resourceQuiesced zeroDigest
    else if content.evidenceDigest = zeroDigest
        ∨ (x.evidence ≠ zeroDigest ∧ x.evidence ≠ content.evidenceDigest) then .denied
    else fact .dataBackwardCompatible content.evidenceDigest
  else if ¬ (x.phase = "prepare" ∨ x.phase = "capture" ∨ x.phase = "cluster-drain"
      ∨ x.phase = "service-stop" ∨ x.phase = "observe-effect") then
    fact .resourceQuiesced zeroDigest
  else .ok

/-- `Check`. It leaves the session as it is. -/
def check (good : VerifyDetached) (s : Session) (x : Subject) (host : CheckHost) : Outcome :=
  if s.admitted = false ∨ s.pending = false ∨ x.rootId ≠ s.policy.rootId
      ∨ x.transactionId ≠ s.content.transactionId ∨ x.plan ≠ s.content.planDigest then .denied
  else
    match load host.policy with
    | .error o => o
    | .ok (current, d) =>
      if d ≠ s.policyDigest then .stale
      else if host.realtime ≠ .ok then host.realtime
      else if (current.validUntil : ℕ) ≤ host.utc then .stale
      else if host.bootRead ≠ .ok then host.bootRead
      else if host.boottime ≠ .ok then host.boottime
      else if host.bootId ≠ s.header.bootId ∨ (s.header.deadline : ℕ) ≤ host.now then .stale
      else if IsRecovery s.content.action ∧ ((s.header.membershipEpoch : ℕ) < x.originEpoch
          ∨ (s.header.fenceToken : ℕ) < x.originFence) then .stale
      else if ¬ IsRecovery s.content.action ∧ (s.header.membershipEpoch ≠ x.originEpoch
          ∨ s.header.fenceToken ≠ x.originFence) then .stale
      else if phaseStatus s.content.action x.phase ≠ .ok then
        phaseStatus s.content.action x.phase
      else
        let control := ControlIo.check host.latch s.policy.rootId
          (operation s.content.action x.phase)
        if control ≠ .ok then control
        else factsStatus s.content x fun f receipt =>
          requireFact good host.sodium s.witnesses s.policy s.header s.content f host.now receipt

/-! ### What each phase asks for -/

/-- The phases, and the actions of the requests that may enter them. -/
def phases : List (String × List RequestedAction) :=
  [("prepare", [.prepare]), ("capture", [.prepare]), ("restore", [.restore]),
    ("repair-journal", [.repair]), ("repair-healing-journal", [.repair]),
    ("finish-terminal", [.reconcile]), ("commit", [.commit]), ("apply", [.apply, .recover]),
    ("file-effect", [.apply, .recover, .restore]),
    ("publish-file", [.apply, .recover, .restore]), ("service-stop", [.apply]),
    ("service-start", [.apply]), ("service-restart", [.apply]), ("service-reload", [.apply]),
    ("cluster-drain", [.apply]), ("cluster-rejoin", [.apply]),
    ("observe-effect", [.apply, .reconcile])]

/-- The phase is one that a request for `a` may enter. -/
def Allowed (a : RequestedAction) (phase : String) : Prop :=
  ∃ l, (phase, l) ∈ phases ∧ a ∈ l

/-- The phases that go on while the scope is quarantined. -/
def contained : List String :=
  ["observe-effect", "finish-terminal", "service-stop", "cluster-drain"]

/-- The phases that repair records. -/
def repairs : List String := ["repair-journal", "repair-healing-journal"]

/-- The phases that need a receipt of the service's health. -/
def healthy : List String := ["commit", "cluster-rejoin"]

/-- The phases that go on while the resource is in use. -/
def unquiesced : List String :=
  ["prepare", "capture", "cluster-drain", "service-stop", "observe-effect", "commit",
    "cluster-rejoin"]

/-- The session holds a fresh statement of `f` about its transaction, signed by the observer
of `f`. -/
structure Witnessed (good : VerifyDetached) (sodium : Bool) (s : Session) (now : Counter)
    (f : Fact) (t : Statement) : Prop where
  present : s.witnesses.present f = true
  -- "MC-WITNESS-v2"
  signed : authentic good sodium [0x4D, 0x43, 0x2D, 0x57, 0x49, 0x54, 0x4E, 0x45, 0x53, 0x53,
    0x2D, 0x76, 0x32] (s.witnesses.statements f).bytes (s.witnesses.signatures f)
    (s.policy.observers f) = .ok
  frame : Witness.encode t = (s.witnesses.statements f).bytes
  kind : t.kind = f
  place : t.clusterId = s.header.clusterId ∧ t.nodeId = s.header.nodeId
    ∧ t.rootId = s.policy.rootId
  transaction : t.transactionId = s.content.transactionId ∧ t.plan = s.content.planDigest
    ∧ t.contract = s.policy.contract
  boot : t.bootId = s.header.bootId
  window : t.epoch = s.header.membershipEpoch ∧ t.token = s.header.fenceToken
  fresh : (t.issued : ℕ) ≤ now ∧ (now : ℕ) < t.expires
    ∧ (t.expires : ℕ) - t.issued ≤ s.policy.maximumWitnessAge

/-- The session, the caller, the policy and the time agree. -/
structure Current (s : Session) (x : Subject) (host : CheckHost) : Prop where
  admitted : s.admitted = true ∧ s.pending = true
  subject : x.rootId = s.policy.rootId ∧ x.transactionId = s.content.transactionId
    ∧ x.plan = s.content.planDigest
  policy : ∃ p, load host.policy = .ok (p, s.policyDigest) ∧ (host.utc : ℕ) < p.validUntil
  clocks : host.realtime = .ok ∧ host.bootRead = .ok ∧ host.boottime = .ok
  boot : host.bootId = s.header.bootId
  deadline : (host.now : ℕ) < s.header.deadline
  recovery : IsRecovery s.content.action → (x.originEpoch : ℕ) ≤ s.header.membershipEpoch
    ∧ (x.originFence : ℕ) ≤ s.header.fenceToken
  origin : ¬ IsRecovery s.content.action → s.header.membershipEpoch = x.originEpoch
    ∧ s.header.fenceToken = x.originFence

/-- What the session, the caller and the host have to agree on before a phase. -/
structure Interlock (good : VerifyDetached) (s : Session) (x : Subject) (host : CheckHost) : Prop
    extends Current s x host where
  phase : Allowed s.content.action x.phase
  control : ∃ c, InForce host.latch s.policy.rootId c
    ∧ (c.current = .quarantined → x.phase ∈ contained)
    ∧ (c.current = .changesHeld → x.phase ∈ contained ++ repairs)
  reservation : ∃ t, Witnessed good host.sodium s host.now .clusterReservation t
  restore : s.content.action = .restore → s.content.evidenceDigest ≠ zeroDigest
    ∧ (x.evidence = zeroDigest ∨ x.evidence = s.content.evidenceDigest)
    ∧ (∃ t, Witnessed good host.sodium s host.now .resourceQuiesced t)
    ∧ ∃ t, Witnessed good host.sodium s host.now .dataBackwardCompatible t
      ∧ Sha256.hash (Witness.encode t) = s.content.evidenceDigest
  health : x.phase ∈ healthy → s.content.evidenceDigest ≠ zeroDigest
    ∧ x.evidence = s.content.evidenceDigest
    ∧ ∃ t, Witnessed good host.sodium s host.now .semanticHealth t
      ∧ Sha256.hash (Witness.encode t) = s.content.evidenceDigest
  isolation : x.phase = "repair-healing-journal" →
    ∃ t, Witnessed good host.sodium s host.now .isolationConfirmed t
  quiesced : x.phase ∉ unquiesced → ∃ t, Witnessed good host.sodium s host.now .resourceQuiesced t

/-! ### The chains -/

/-- The first chain on the phases that there are. -/
lemma phaseStatus_row (a : RequestedAction) :
    ∀ r ∈ phases, (phaseStatus a r.1 = .ok ↔ a ∈ r.2) := by
  cases a <;> decide +kernel

lemma phases_unique : ∀ r ∈ phases, ∀ r' ∈ phases, r.1 = r'.1 → r.2 = r'.2 := by
  decide +kernel

lemma phaseStatus_of_not_mem {a : RequestedAction} {phase : String}
    (h : phase ∉ phases.map Prod.fst) : phaseStatus a phase = .unsupported := by
  simp only [phases, List.map_cons, List.map_nil, List.mem_cons, List.not_mem_nil, or_false,
    not_or] at h
  simp only [phaseStatus, h, or_self, if_false]

lemma phaseStatus_ok_iff (a : RequestedAction) (phase : String) :
    phaseStatus a phase = .ok ↔ Allowed a phase := by
  by_cases h : phase ∈ phases.map Prod.fst
  · obtain ⟨⟨phase, l⟩, hr, rfl⟩ := List.mem_map.mp h
    rw [phaseStatus_row a _ hr]
    constructor
    · exact fun ha => ⟨l, hr, ha⟩
    · rintro ⟨l', hr', ha⟩
      rwa [phases_unique _ hr _ hr' rfl]
  · rw [phaseStatus_of_not_mem h]
    refine iff_of_false (by decide) ?_
    rintro ⟨l, hr, -⟩
    exact h (List.mem_map.mpr ⟨_, hr, rfl⟩)

lemma operation_contained (a : RequestedAction) (phase : String) :
    (operation a phase = .inspect ∨ operation a phase = .contain) ↔ phase ∈ contained := by
  simp only [contained, List.mem_cons, List.not_mem_nil, or_false]
  unfold operation
  split_ifs <;> simp only [or_self, or_true, true_or, true_iff, false_iff] <;> tauto

lemma operation_repairs {a : RequestedAction} {phase : String} (h : phase ∉ contained) :
    operation a phase = .repairRecords ↔ phase ∈ repairs := by
  simp only [contained, repairs, List.mem_cons, List.not_mem_nil, or_false, not_or] at h ⊢
  unfold operation
  rw [if_neg (by tauto), if_neg (by tauto)]
  split_ifs with h1 <;> simp only [true_iff, false_iff] <;> exact h1

lemma permits_iff (c : Mode) (a : RequestedAction) (phase : String) :
    Permits c (operation a phase) ↔ (c = .quarantined → phase ∈ contained)
      ∧ (c = .changesHeld → phase ∈ contained ++ repairs) := by
  have hc := operation_contained a phase
  cases c with
  | running => simp [Permits]
  | quarantined => simpa [Permits] using hc
  | changesHeld =>
    simp only [Permits, reduceCtorEq, false_implies, true_and, true_implies, List.mem_append]
    rw [← or_assoc, hc]
    by_cases h : phase ∈ contained
    · simp [h]
    · rw [operation_repairs h]

/-! ### The witnesses -/

section Facts

variable {good : VerifyDetached} {sodium : Bool} {s : Session} {now : Counter}

lemma witness_decode_error {b : Bytes} {o : Outcome} (h : Witness.decode b = .error o) :
    o ≠ .ok := by
  unfold Witness.decode at h
  split at h
  · cases h
    decide
  split at h
  · cases h
    decide
  split at h
  · cases h
    decide
  · cases h

lemma requireFact_ok_iff (f : Fact) (receipt : Digest) :
    requireFact good sodium s.witnesses s.policy s.header s.content f now receipt = .ok
      ↔ ∃ t, Witnessed good sodium s now f t
        ∧ (receipt ≠ zeroDigest → Sha256.hash (Witness.encode t) = receipt) := by
  unfold requireFact
  constructor
  · intro h
    split at h
    · cases h
    rename_i h1
    dsimp only at h
    split at h
    · exact absurd h ‹_›
    rename_i h2
    split at h
    · exact absurd h (witness_decode_error ‹_›)
    rename_i t ht
    split at h
    · cases h
    rename_i h3
    split at h
    · cases h
    rename_i h4
    obtain ⟨hf, -⟩ := (Layouts.statement_canonical _ _).mp ht
    obtain ⟨m1, m2, m3, m4, m5, m6, m7, m8, m9, m10, m11, m12, m13⟩ := not_not.mp h3
    refine ⟨t, ⟨by simpa using h1, not_not.mp h2, hf, m1, ⟨m2, m3, m4⟩, ⟨m5, m7, m8⟩, m6,
      ⟨m9, m10⟩, m11, m12, m13⟩, fun hr => ?_⟩
    rw [hf]
    by_contra hne
    exact h4 ⟨hr, hne⟩
  · rintro ⟨t, ⟨h1, h2, hf, m1, ⟨m2, m3, m4⟩, ⟨m5, m7, m8⟩, m6, ⟨m9, m10⟩, m11, m12, m13⟩, hr⟩
    rw [if_neg (by simp [h1])]
    dsimp only
    rw [if_neg (not_not.mpr h2), (Layouts.statement_canonical _ _).mpr ⟨hf, trivial⟩]
    dsimp only
    rw [if_neg (not_not.mpr ⟨m1, m2, m3, m4, m5, m6, m7, m8, m9, m10, m11, m12, m13⟩), if_neg]
    rintro ⟨h0, hne⟩
    exact hne (hf ▸ hr h0)

/-- A witness without a receipt. -/
lemma requireFact_plain_iff (f : Fact) :
    requireFact good sodium s.witnesses s.policy s.header s.content f now zeroDigest = .ok
      ↔ ∃ t, Witnessed good sodium s now f t := by
  rw [requireFact_ok_iff]
  exact exists_congr fun t => and_iff_left fun h => absurd rfl h

/-- A witness whose statement has the digest `receipt`. -/
lemma requireFact_receipt_iff {f : Fact} {receipt : Digest} (h : receipt ≠ zeroDigest) :
    requireFact good sodium s.witnesses s.policy s.header s.content f now receipt = .ok
      ↔ ∃ t, Witnessed good sodium s now f t ∧ Sha256.hash (Witness.encode t) = receipt := by
  rw [requireFact_ok_iff]
  exact exists_congr fun t => and_congr_right fun _ => ⟨fun hr => hr h, fun hr _ => hr⟩

end Facts

/-- A restore enters three of the phases. -/
lemma restore_phases {phase : String} (h : Allowed .restore phase) :
    phase = "restore" ∨ phase = "file-effect" ∨ phase = "publish-file" := by
  have hr : ∀ r ∈ phases, RequestedAction.restore ∈ r.2 →
      r.1 = "restore" ∨ r.1 = "file-effect" ∨ r.1 = "publish-file" := by decide +kernel
  obtain ⟨l, hl, ha⟩ := h
  exact hr _ hl ha

/-- The third chain. -/
lemma factsStatus_ok_iff {content : Request} {x : Subject} (fact : Fact → Digest → Outcome)
    (ha : Allowed content.action x.phase) : factsStatus content x fact = .ok
      ↔ fact .clusterReservation zeroDigest = .ok
        ∧ (content.action = .restore → content.evidenceDigest ≠ zeroDigest
          ∧ (x.evidence = zeroDigest ∨ x.evidence = content.evidenceDigest)
          ∧ fact .resourceQuiesced zeroDigest = .ok
          ∧ fact .dataBackwardCompatible content.evidenceDigest = .ok)
        ∧ (x.phase ∈ healthy → content.evidenceDigest ≠ zeroDigest
          ∧ x.evidence = content.evidenceDigest
          ∧ fact .semanticHealth content.evidenceDigest = .ok)
        ∧ (x.phase = "repair-healing-journal" → fact .isolationConfirmed zeroDigest = .ok)
        ∧ (x.phase ∉ unquiesced → fact .resourceQuiesced zeroDigest = .ok) := by
  unfold factsStatus
  by_cases h0 : fact .clusterReservation zeroDigest = .ok
  swap
  · rw [if_pos h0]
    exact iff_of_false h0 fun h => h0 h.1
  rw [if_neg (not_not.mpr h0), and_iff_right h0]
  have hrest : content.action = .restore →
      x.phase = "restore" ∨ x.phase = "file-effect" ∨ x.phase = "publish-file" := fun h =>
    restore_phases (h ▸ ha)
  by_cases h1 : x.phase = "repair-healing-journal"
  · have hn : content.action ≠ .restore := fun h => by
      have hp := hrest h
      rw [h1] at hp
      revert hp
      decide
    have h4 : "repair-healing-journal" ∉ healthy := by decide
    have h5 : "repair-healing-journal" ∉ unquiesced := by decide
    rw [if_pos h1, h1]
    simp only [hn, h4, h5, false_implies, true_implies, true_and, not_false_eq_true]
    split_ifs with hf
    · exact iff_of_false hf fun h => hf h.1
    · exact (and_iff_right (not_not.mp hf)).symm
  by_cases h2 : x.phase = "commit" ∨ x.phase = "cluster-rejoin"
  · have hn : content.action ≠ .restore := fun h => by
      have hp := hrest h
      rcases h2 with h2 | h2 <;> rw [h2] at hp <;> revert hp <;> decide
    have h4 : x.phase ∈ healthy := by simpa [healthy] using h2
    have h5 : x.phase ∈ unquiesced := by rcases h2 with h2 | h2 <;> simp [h2, unquiesced]
    rw [if_neg h1, if_pos h2]
    simp only [hn, h1, h4, h5, false_implies, true_implies, true_and, and_true, not_true_eq_false]
    split_ifs with he
    · exact iff_of_false (by decide) fun h => he.elim (fun h' => h.1 (h.2.1 ▸ h')) (· h.2.1)
    · simp only [not_or, not_not] at he
      obtain ⟨he, he'⟩ := he
      rw [← he']
      exact ⟨fun h => ⟨he, rfl, h⟩, fun h => h.2.2⟩
  have h4 : x.phase ∉ healthy := by simpa [healthy] using h2
  by_cases h3 : content.action = .restore
  · have h5 : x.phase ∉ unquiesced := by
      rcases hrest h3 with h | h | h <;> rw [h] <;> decide
    rw [if_neg h1, if_neg h2, if_pos h3]
    simp only [h1, h3, h4, h5, false_implies, true_implies, true_and, not_false_eq_true]
    split_ifs with hq he
    · exact iff_of_false hq fun h => hq h.2
    · refine iff_of_false (by decide) fun h => he.elim h.1.1 fun h' => ?_
      exact h.1.2.1.elim h'.1 h'.2
    · rw [not_or, not_and_or, not_not, not_not] at he
      exact ⟨fun h => ⟨⟨he.1, he.2, not_not.mp hq, h⟩, not_not.mp hq⟩, fun h => h.1.2.2.2⟩
  have h5 : x.phase ∈ unquiesced ↔ x.phase = "prepare" ∨ x.phase = "capture"
      ∨ x.phase = "cluster-drain" ∨ x.phase = "service-stop" ∨ x.phase = "observe-effect" := by
    simp only [unquiesced, List.mem_cons, List.not_mem_nil, or_false]
    tauto
  rw [if_neg h1, if_neg h2, if_neg h3]
  simp only [h1, h3, h4, h5, false_implies, true_and]
  split_ifs with hq
  · exact iff_of_true rfl fun h => absurd hq h
  · exact ⟨fun h _ => h, fun h => h hq⟩

/-! ### The result -/

/-- The four parts of a check. -/
lemma check_ok_iff (good : VerifyDetached) (s : Session) (x : Subject) (host : CheckHost) :
    check good s x host = .ok ↔ Current s x host ∧ phaseStatus s.content.action x.phase = .ok
      ∧ ControlIo.check host.latch s.policy.rootId (operation s.content.action x.phase) = .ok
      ∧ factsStatus s.content x (fun f receipt => requireFact good host.sodium s.witnesses
        s.policy s.header s.content f host.now receipt) = .ok := by
  unfold check
  rw [refuse_iff fun _ => by decide]
  rcases hl : load host.policy with o | ⟨p, d⟩
  · constructor
    · rintro ⟨-, h⟩
      exact absurd h (load_error hl)
    · rintro ⟨hc, -⟩
      obtain ⟨p, hp, -⟩ := hc.policy
      cases hl.symm.trans hp
  dsimp only
  rw [refuse_iff fun _ => by decide, refuse_iff id, refuse_iff fun _ => by decide,
    refuse_iff id, refuse_iff id, refuse_iff fun _ => by decide,
    refuse_iff fun _ => by decide, refuse_iff fun _ => by decide, refuse_iff id,
    refuse_iff id]
  simp only [not_or, not_and, not_not, Bool.not_eq_false, Nat.not_le, Nat.not_lt]
  constructor
  · rintro ⟨⟨g1, g2, g3⟩, rfl, h3, h4, h5, h6, ⟨h7, h7'⟩, h8, h9, h10⟩
    exact ⟨⟨⟨g1, g2⟩, g3, ⟨p, hl, h4⟩, ⟨h3, h5, h6⟩, h7, h7', h8, h9⟩, h10⟩
  · rintro ⟨⟨⟨g1, g2⟩, g3, ⟨p', hp, h4⟩, ⟨h3, h5, h6⟩, h7, h7', h8, h9⟩, h10⟩
    cases hl.symm.trans hp
    exact ⟨⟨g1, g2, g3⟩, rfl, h3, h4, h5, h6, ⟨h7, h7'⟩, h8, h9, h10⟩

/-- **The interlock of the phases.** A check passes exactly when what the phase asks for is
there; the policy is then the one that the session began with, byte for byte. -/
theorem check_interlock (good : VerifyDetached) (s : Session) (x : Subject) (host : CheckHost) :
    (check good s x host = .ok ↔ Interlock good s x host)
      ∧ ∀ b, Sha256.hash b = s.policyDigest → Sha256.CollisionFree [b, host.policy.data] →
        check good s x host = .ok → host.policy.data = b := by
  rw [check_ok_iff, phaseStatus_ok_iff, ControlIo.check_ok_iff]
  simp only [permits_iff]
  refine ⟨⟨?_, ?_⟩, ?_⟩
  · rintro ⟨hc, hp, ⟨c, hl, hq, hh⟩, hf⟩
    rw [factsStatus_ok_iff _ hp] at hf
    simp only [requireFact_plain_iff] at hf
    obtain ⟨h1, h2, h3, h4, h5⟩ := hf
    refine ⟨hc, hp, ⟨c, hl, hq, hh⟩, h1, fun h => ?_, fun h => ?_, h4, h5⟩
    · obtain ⟨he, hx, hw, hr⟩ := h2 h
      exact ⟨he, hx, hw, (requireFact_receipt_iff he).mp hr⟩
    · obtain ⟨he, hx, hr⟩ := h3 h
      exact ⟨he, hx, (requireFact_receipt_iff he).mp hr⟩
  · intro hi
    refine ⟨hi.toCurrent, hi.phase, hi.control, ?_⟩
    rw [factsStatus_ok_iff _ hi.phase]
    simp only [requireFact_plain_iff]
    refine ⟨hi.reservation, fun h => ?_, fun h => ?_, hi.isolation, hi.quiesced⟩
    · obtain ⟨he, hx, hw, hr⟩ := hi.restore h
      exact ⟨he, hx, hw, (requireFact_receipt_iff he).mpr hr⟩
    · obtain ⟨he, hx, hr⟩ := hi.health h
      exact ⟨he, hx, (requireFact_receipt_iff he).mpr hr⟩
  · rintro b hb hcf ⟨hc, -⟩
    obtain ⟨p, hp, -⟩ := hc.policy
    obtain ⟨-, hd⟩ := load_ok hp
    exact (hcf b (by simp) _ (by simp) (hb.trans hd)).symm

/-! ### A restore -/

section Restore

open NiayanAssurance.GateRuns

/-- The keys of the observers. -/
def observerKey (f : Fact) : PublicKey := Block.ofBytes 32 (be 32 (match f with
  | .clusterReservation => 0xacdb0e29743f0ccb8686d0a104cb96e05abefec1538765e7595869f7dc8c49aa
  | .resourceQuiesced => 0x43046bfe4092b3e94994eada15dcc20d8aaa07b658fd3954eb8e0efb8bdca5de
  | .semanticHealth => 0x4ed32f63bf35f0eeefcb25f28a2e1fbdc873ae2835671b0c9460f5f12e4556a8
  | .dataBackwardCompatible => 0x884b8857f4eaa1613c61504db34d4beaf346517a0e31de3cddd4d9b4201d9d0b
  | .isolationConfirmed => 0xa09aa5f47a6759802ff955f8dc2d2a14a5c99d23be97f864127ff9383455a4f0))

/-- The policy of `site`, with observers. -/
def sitePolicy : Policy := { SitePolicy.fields site with observers := observerKey }

def observedSite : Bytes := SitePolicy.encode sitePolicy

/-- A statement about transaction 1 under that policy. -/
def statement (f : Fact) : Statement where
  kind := f
  clusterId := .fill 16 21
  nodeId := .fill 16 22
  rootId := .fill 16 20
  transactionId := .fill 16 1
  bootId := .fill 16 23
  plan := .fill 32 1
  contract := fingerprint
  epoch := 1
  token := 1
  issued := 900
  expires := 1100

/-- What its observer signs: the domain "MC-WITNESS-v2" and the statement. -/
def observedBytes (f : Fact) : Bytes :=
  be 2 13 ++ [0x4D, 0x43, 0x2D, 0x57, 0x49, 0x54, 0x4E, 0x45, 0x53, 0x53, 0x2D, 0x76, 0x32]
    ++ Witness.encode (statement f)

/-- The signatures of the statements, which are Ed25519 signatures under the keys of the
observers. -/
def observerSignature (f : Fact) : Signature := Block.ofBytes 64 (match f with
  | .clusterReservation =>
    be 32 0xfb17782016103d174446973af144fbf278164eb38b6725fcbd2f57f80de96029
      ++ be 32 0x0b598262bd91f582aab3165ab19cdaef471e7905693de0f59a619bb38d289502
  | .resourceQuiesced =>
    be 32 0xb199ca3ef3117f318dd8a5b9d449c2ba7be21d0e9653112ae04b6e1b21d6b612
      ++ be 32 0x412e05e0e4c46259b18f9e840ae32df8fb8430cac8df76c9f34a28264b95f000
  | .semanticHealth =>
    be 32 0x124591275a3e100c341f9ae18b1cdef38c771b5b198062514704bb4dde79525e
      ++ be 32 0x4dc9affbbe914d6278fab6bb507e7f6c860d67e7bddac772e68d33d23831c405
  | .dataBackwardCompatible =>
    be 32 0x0f65c49665c64ffa15ca0afdf54518e0f8d4a46617f67703e8ef5dfd8e3e9c5c
      ++ be 32 0xd3c25bc035ead4d986d9272efbc5003c4ade10cad4eb229c93b10d11b5753506
  | .isolationConfirmed =>
    be 32 0xc9de48b38567709f3f477b6da5b92beca003eb9acf80ca85e8fe1fa48c805098
      ++ be 32 0x452b7484cb8af10b5a6f0f6e4a51a3b01f3956e171752913a6c4babf8a477c0b)

/-- No other is good. -/
def observed : VerifyDetached := fun sig m key =>
  Fact.all.any fun f =>
    decide (key = observerKey f ∧ sig = observerSignature f ∧ m = observedBytes f)

/-- A session that has begun to restore transaction 1. -/
def restoring : Session where
  journal := ⟨.fill 16 20, 2, .fill 32 9, 0, false, false, by decide, Log.no_tail⟩
  policy := sitePolicy
  policyDigest := Sha256.hash observedSite
  header :=
    { kind := .restoreRequest, bodyLength := 192, requestId := .fill 16 1
      clusterId := .fill 16 21, nodeId := .fill 16 22, resourceId := .fill 16 20
      membershipEpoch := 1, fenceToken := 1, sequenceNumber := 1, deadline := 2000
      bootId := .fill 16 23, bodyDigest := zeroDigest }
  content :=
    { action := .restore, transactionId := .fill 16 1, planDigest := .fill 32 1
      contractDigest := fingerprint
      evidenceDigest := Sha256.hash (Witness.encode (statement .dataBackwardCompatible)) }
  witnesses :=
    { present := fun _ => true
      statements := fun f => .ofBytes 224 (Witness.encode (statement f))
      signatures := observerSignature }
  admitted := true
  pending := true
  lastResult := .ok

/-- The authority over the site: two signers, one of each duty. -/
def siteAuthority : Control.Authority where
  scope := .fill 16 20
  contract := fingerprint
  serial := 1
  keys := [⟨.fill 32 1, .fill 16 1, 1, .operations⟩, ⟨.fill 32 2, .fill 16 2, 2, .security⟩]
  count_le := Control.two_keys _ _
  tighten_range := Control.tighten_one
  resume_range := Control.resume_two

/-- A private file of `b`. -/
def privateFile (b : Bytes) : ControlIo.StoredFile where
  info := { kind := .regular, mode := 0o600, links := 1, size := b.length }
  data := b

/-- A latch that holds nothing back. -/
def openLatch : LatchFiles where
  authorities := privateFile siteAuthority.encode
  state := privateFile (Control.State.encode
    { scope := .fill 16 20, contract := fingerprint, revision := 1, trustEpoch := 1
      authorityDigest := Control.authorityHash siteAuthority, current := .running
      lastRequest := .fill 16 5, reason := .fill 32 6 })

def restore : Subject :=
  ⟨.fill 16 20, .fill 16 1, .fill 32 1, zeroDigest, 1, 1, "restore"⟩

def restoreHost : CheckHost :=
  { policy := ⟨.ok, observedSite⟩, utc := 1, bootId := .fill 16 23, now := 1000
    latch := openLatch }

theorem check_interlock_restore : Interlock observed restoring restore restoreHost :=
  (check_interlock _ _ _ _).1.mp (by decide +kernel)

end Restore

end NiayanAssurance.GateCheck
