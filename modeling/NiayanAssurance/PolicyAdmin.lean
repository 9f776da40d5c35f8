import NiayanAssurance.SpecFile
import NiayanAssurance.Gate
import NiayanAssurance.Layouts

/-!
How the policy of a site is made and rotated: a specification is read, what it says is checked as
the frame that will be stored, and the frame is placed under a lock.
-/

namespace NiayanAssurance.PolicyAdmin

open NiayanAssurance.Lib NiayanAssurance.Types NiayanAssurance.Protocol
open NiayanAssurance.Requests NiayanAssurance.SitePolicy NiayanAssurance.SpecFile
open NiayanAssurance.Atomic

/-! ### The actions that are allowed -/

/-- Where the loop over `allowed` stands: `name` is `Text (Start .. I - 1)`. -/
structure AllowedScan where
  name : Bytes := []
  allowed : MessageKind → Bool := fun _ => false

/-- What is made of one more name. A name that comes again is an `Invalid_Input` too: the `exit`
after `Conflict` leaves only the loop over the actions, and `Found` is still false. -/
def addAction (allowed : MessageKind → Bool) (name : Bytes) :
    Except Outcome (MessageKind → Bool) :=
  if name = [] then .error .invalidInput
  else
    match actions.find? (actionName · = name) with
    | none => .error .invalidInput
    | some a =>
      if allowed (headerKind a) then .error .invalidInput
      else .ok (Function.update allowed (headerKind a) true)

/-- One turn of the loop. -/
def allowedTurn (s : AllowedScan) (c : Byte) : Except Outcome AllowedScan :=
  if c = 44 then (addAction s.allowed s.name).map fun f => { allowed := f }
  else .ok { s with name := s.name ++ [c] }

/-- The loop over `allowed`. The end of the text is taken for a comma. -/
def readAllowed (text : Bytes) : Except Outcome (MessageKind → Bool) :=
  ((text ++ [44]).foldlM allowedTurn {}).map AllowedScan.allowed

/-! ### Reading a policy -/

def policyKeys : List Bytes :=
  [word "root", word "cluster", word "node", word "resource", word "epoch", word "fence",
    word "request-key", word "reservation-key", word "quiescence-key", word "health-key",
    word "compatibility-key", word "isolation-key", word "contract", word "serial",
    word "valid-until", word "max-lease-ms", word "max-witness-ms", word "allowed"]

/-- What `make-policy` and `rotate-policy` read of the properties. -/
def readFields (d : Properties.Document) : Except Outcome Policy := do
  let root ← field 16 d (word "root")
  let cluster ← field 16 d (word "cluster")
  let node ← field 16 d (word "node")
  let resource ← field 16 d (word "resource")
  let epoch ← number d (word "epoch")
  let fence ← number d (word "fence")
  let requestKey ← field 32 d (word "request-key")
  let reservation ← field 32 d (word "reservation-key")
  let quiescence ← field 32 d (word "quiescence-key")
  let health ← field 32 d (word "health-key")
  let compatibility ← field 32 d (word "compatibility-key")
  let isolation ← field 32 d (word "isolation-key")
  let contract ← field 32 d (word "contract")
  let serial ← number d (word "serial")
  let validUntil ← number d (word "valid-until")
  let lease ← number d (word "max-lease-ms")
  let age ← number d (word "max-witness-ms")
  let text ← value d (word "allowed")
  let allowed ← readAllowed text
  return {
    rootId := root
    scope :=
      { clusterId := cluster, nodeId := node, resourceId := resource, membershipEpoch := epoch
        fenceToken := fence, allowed := allowed, maximumLocalLease := lease }
    requestKey := requestKey
    observers := fun
      | .clusterReservation => reservation | .resourceQuiesced => quiescence
      | .semanticHealth => health | .dataBackwardCompatible => compatibility
      | .isolationConfirmed => isolation
    contract := contract
    serial := serial
    validUntil := validUntil
    maximumWitnessAge := age }

/-- The policy that a specification stands for. Its frame is decoded before it is stored. -/
def readPolicy (data : Bytes) : Except Outcome Policy := do
  let d ← loadSpec data policyKeys
  let p ← readFields d
  if p.contract ≠ Gate.fingerprint then .error .unsupported
  else
    let _ ← SitePolicy.decode (SitePolicy.encode p)
    return p

/-! ### What a specification says -/

/-- The names of actions, with commas between them. -/
def allowedText (as : List RequestedAction) : Bytes := commas (as.map actionName)

/-- The properties of a policy that allows the actions `as`, in this order. -/
def policyPairs (p : Policy) (as : List RequestedAction) : List (Bytes × Bytes) :=
  [(word "root", hexText p.rootId.bytes), (word "cluster", hexText p.scope.clusterId.bytes),
    (word "node", hexText p.scope.nodeId.bytes),
    (word "resource", hexText p.scope.resourceId.bytes),
    (word "epoch", Numbers.numeral p.scope.membershipEpoch),
    (word "fence", Numbers.numeral p.scope.fenceToken),
    (word "request-key", hexText p.requestKey.bytes),
    (word "reservation-key", hexText (p.observers .clusterReservation).bytes),
    (word "quiescence-key", hexText (p.observers .resourceQuiesced).bytes),
    (word "health-key", hexText (p.observers .semanticHealth).bytes),
    (word "compatibility-key", hexText (p.observers .dataBackwardCompatible).bytes),
    (word "isolation-key", hexText (p.observers .isolationConfirmed).bytes),
    (word "contract", hexText p.contract.bytes), (word "serial", Numbers.numeral p.serial),
    (word "valid-until", Numbers.numeral p.validUntil),
    (word "max-lease-ms", Numbers.numeral p.scope.maximumLocalLease),
    (word "max-witness-ms", Numbers.numeral p.maximumWitnessAge),
    (word "allowed", allowedText as)]

/-- Each action is named once, and the policy allows the messages that carry them. -/
structure Allows (allowed : MessageKind → Bool) (as : List RequestedAction) : Prop where
  named : as ≠ []
  nodup : as.Nodup
  iff : ∀ k, allowed k = true ↔ ∃ a ∈ as, headerKind a = k

section Allowed

variable {names : List Bytes} {f g : MessageKind → Bool} {text : Bytes}

lemma headerKind_injective : headerKind.Injective := by
  intro a b h
  cases a <;> cases b <;> first | rfl | cases h

lemma actionName_ne (a : RequestedAction) : actionName a ≠ [] ∧ (44 : Byte) ∉ actionName a := by
  have key : ∀ a ∈ actions, actionName a ≠ [] ∧ (44 : Byte) ∉ actionName a := by decide +kernel
  exact key a (mem_actions a)

lemma addAction_ok {name : Bytes} : addAction f name = .ok g ↔
    ∃ a, name = actionName a ∧ f (headerKind a) = false
      ∧ g = Function.update f (headerKind a) true := by
  unfold addAction
  constructor
  · intro h
    split_ifs at h
    cases hf : actions.find? (actionName · = name) with
    | none => rw [hf] at h; cases h
    | some a =>
      rw [hf] at h
      dsimp only at h
      split_ifs at h with h1
      cases h
      exact ⟨a, find_action.1 hf, by simpa using h1, rfl⟩
  · rintro ⟨a, rfl, h1, rfl⟩
    rw [if_neg (actionName_ne a).1, find_action.2 rfl]
    simp [h1]

/-- A name is read byte by byte. -/
lemma fold_name {name : Bytes} (h : (44 : Byte) ∉ name) (s : AllowedScan) :
    name.foldlM allowedTurn s = .ok { s with name := s.name ++ name } := by
  induction name generalizing s with
  | nil => simp [pure, Except.pure]
  | cons c name ih =>
    rw [List.mem_cons, not_or] at h
    rw [foldlM_cons_ok]
    refine ⟨_, if_neg (Ne.symm h.1), ?_⟩
    rw [ih h.2]
    simp

/-- Names that are each followed by a comma are taken one by one. -/
lemma fold_names (h : ∀ w ∈ names, (44 : Byte) ∉ w) :
    (names.flatMap (· ++ [44])).foldlM allowedTurn { allowed := f }
      = (names.foldlM addAction f).map fun g => { allowed := g } := by
  induction names generalizing f with
  | nil => rfl
  | cons w names ih =>
    obtain ⟨hw, hs⟩ := List.forall_mem_cons.1 h
    rw [List.flatMap_cons, List.foldlM_append, List.foldlM_append, fold_name hw, List.foldlM_cons]
    show ((allowedTurn _ 44 >>= fun s => [].foldlM allowedTurn s) >>= _)
      = (addAction f w >>= _).map _
    rw [allowedTurn, if_pos rfl, List.nil_append]
    cases addAction f w with
    | error o => rfl
    | ok g => exact ih hs

lemma addActions_ok : names.foldlM addAction f = .ok g ↔ ∃ as : List RequestedAction,
    names = as.map actionName ∧ as.Nodup ∧ (∀ a ∈ as, f (headerKind a) = false)
      ∧ ∀ k, g k = true ↔ f k = true ∨ ∃ a ∈ as, headerKind a = k := by
  induction names generalizing f with
  | nil =>
    rw [List.foldlM_nil, pure_ok]
    constructor
    · rintro rfl
      exact ⟨[], rfl, List.nodup_nil, by simp, by simp⟩
    · rintro ⟨as, h1, -, -, h4⟩
      obtain rfl := List.map_eq_nil_iff.1 h1.symm
      funext k
      simpa using (h4 k).symm
  | cons w names ih =>
    rw [foldlM_cons_ok]
    constructor
    · rintro ⟨f', h1, h2⟩
      obtain ⟨a, rfl, h3, rfl⟩ := addAction_ok.1 h1
      obtain ⟨as, rfl, h4, h5, h6⟩ := ih.1 h2
      have hne : ∀ b ∈ as, headerKind b ≠ headerKind a := fun b hb e => by
        have := h5 b hb
        rw [e, Function.update_self] at this
        cases this
      refine ⟨a :: as, rfl, List.nodup_cons.2 ⟨fun hm => hne a hm rfl, h4⟩,
        List.forall_mem_cons.2 ⟨h3, fun b hb => ?_⟩, fun k => ?_⟩
      · have := h5 b hb
        rwa [Function.update_of_ne (hne b hb)] at this
      · rw [h6, List.exists_mem_cons_iff, ← or_assoc]
        refine or_congr_left ?_
        by_cases hk : k = headerKind a
        · subst hk
          simp
        · simp [Function.update_of_ne hk, Ne.symm hk]
    · rintro ⟨as, h1, h2, h3, h4⟩
      cases as with
      | nil => cases h1
      | cons a as =>
        obtain ⟨rfl, rfl⟩ := List.cons.inj h1
        obtain ⟨h5, h6⟩ := List.nodup_cons.1 h2
        obtain ⟨h7, h8⟩ := List.forall_mem_cons.1 h3
        refine ⟨_, addAction_ok.2 ⟨a, rfl, h7, rfl⟩,
          ih.2 ⟨as, rfl, h6, fun b hb => ?_, fun k => ?_⟩⟩
        · rw [Function.update_of_ne fun e => by cases headerKind_injective e; exact h5 hb]
          exact h8 b hb
        · rw [h4, List.exists_mem_cons_iff, ← or_assoc]
          refine or_congr_left ?_
          by_cases hk : k = headerKind a
          · subst hk
            simp
          · simp [Function.update_of_ne hk, Ne.symm hk]

/-- **The actions that are read** are named once each, with commas between them. -/
theorem readAllowed_ok :
    readAllowed text = .ok g ↔ ∃ as, text = allowedText as ∧ Allows g as := by
  have hs : text ++ [44] = (text.splitOn 44).flatMap (· ++ [44]) := by
    rw [flatMap_sep (List.splitOn_ne_nil _ _), List.intercalate_splitOn]
  have hread : readAllowed text = (text.splitOn 44).foldlM addAction fun _ => false := by
    unfold readAllowed
    rw [hs, fold_names fun w hw => not_mem_of_mem_splitOn hw]
    cases (text.splitOn 44).foldlM addAction fun _ => false <;> rfl
  rw [hread, addActions_ok]
  constructor
  · rintro ⟨as, h1, h2, -, h4⟩
    refine ⟨as, by rw [allowedText, commas, ← h1, List.intercalate_splitOn], ?_, h2,
      by simpa using h4⟩
    rintro rfl
    exact List.splitOn_ne_nil _ _ h1
  · rintro ⟨as, rfl, h1, h2, h3⟩
    refine ⟨as, List.splitOn_intercalate 44 (fun w hw => ?_) (by simpa using h1), h2, by simp,
      by simpa using h3⟩
    obtain ⟨a, -, rfl⟩ := List.mem_map.1 hw
    exact (actionName_ne a).2

end Allowed

/-! ### The policy that is read -/

section Read

variable {d : Properties.Document} {p q : Policy} {data : Bytes} {as : List RequestedAction}

lemma listed_policyKeys : Listed policyKeys :=
  ⟨by decide +kernel, by decide +kernel, by decide⟩

lemma keys_policyPairs : (policyPairs p as).map Prod.fst = policyKeys := rfl

lemma readFields_ok (hd : d.keys.Nodup) : readFields d = .ok p ↔ p.scope.bootId = zeroIdentity
    ∧ ∃ as, Allows p.scope.allowed as ∧ ∀ x ∈ policyPairs p as, x ∈ d.pairs := by
  simp only [readFields, bind_ok, pure_ok, field_ok hd, number_ok hd, value_ok hd, readAllowed_ok]
  constructor
  · rintro ⟨root, h1, cluster, h2, node, h3, resource, h4, epoch, h5, fence, h6, requestKey, h7,
      reservation, h8, quiescence, h9, health, h10, compatibility, h11, isolation, h12, contract,
      h13, serial, h14, validUntil, h15, lease, h16, age, h17, text, h18, allowed, ⟨as, rfl, h19⟩,
      rfl⟩
    refine ⟨rfl, as, h19, ?_⟩
    simp only [policyPairs, List.forall_mem_cons]
    exact ⟨h1, h2, h3, h4, h5, h6, h7, h8, h9, h10, h11, h12, h13, h14, h15, h16, h17, h18, by simp⟩
  · rintro ⟨hb, as, h19, h⟩
    simp only [policyPairs, List.forall_mem_cons] at h
    obtain ⟨h1, h2, h3, h4, h5, h6, h7, h8, h9, h10, h11, h12, h13, h14, h15, h16, h17, h18, -⟩ := h
    refine ⟨_, h1, _, h2, _, h3, _, h4, _, h5, _, h6, _, h7, _, h8, _, h9, _, h10, _, h11, _, h12,
      _, h13, _, h14, _, h15, _, h16, _, h17, _, h18, _, ⟨as, rfl, h19⟩, ?_⟩
    obtain ⟨⟨c, n, r, b, e, t, a, l⟩, root, key, observers, contract, serial, until', age⟩ := p
    cases hb
    congr 1
    funext k
    cases k <;> rfl

lemma decode_fields {b : Bytes} (h : SitePolicy.decode b = .ok q) : q = SitePolicy.fields b := by
  unfold SitePolicy.decode at h
  split at h
  · cases h
  split at h
  · exact (Except.ok.inj h).symm
  · cases h

/-- A frame that is read again is that of a sound policy. -/
lemma decode_encode_ok : SitePolicy.decode (SitePolicy.encode p) = .ok q ↔
    p.Sound ∧ q = Layouts.stored p := by
  refine ⟨fun h => ?_, fun ⟨h1, h2⟩ => h2 ▸ Layouts.policy_decode_encode h1⟩
  have hq := decode_fields h
  rw [Layouts.policy_fields_encode] at hq
  subst hq
  have hs : (Layouts.stored p).Sound := SitePolicy.decode_sound h
  exact ⟨hs, rfl⟩

/-- **What a specification says.** A policy is read of exactly those files whose lines, in any
order, are the properties of the policy, of which it allows each action that is named, and which
are named once; it is sound, and of this contract. -/
lemma readPolicy_iff : readPolicy data = .ok p ↔ ∃ pairs as, Properties.IsFile data pairs
    ∧ pairs.Perm (policyPairs p as) ∧ Allows p.scope.allowed as ∧ p.scope.bootId = zeroIdentity
    ∧ p.contract = Gate.fingerprint ∧ p.Sound := by
  unfold readPolicy
  simp only [bind_ok, loadSpec_ok listed_policyKeys]
  constructor
  · rintro ⟨d, ⟨h1, h2⟩, p', h3, h4⟩
    have hd : d.keys.Nodup := h2.nodup_iff.1 listed_policyKeys.nodup
    obtain ⟨hb, as, ha, hm⟩ := (readFields_ok hd).1 h3
    split_ifs at h4 with hc
    obtain ⟨q, h5, h6⟩ := bind_ok.1 h4
    obtain rfl := pure_ok.1 h6
    exact ⟨d.pairs, as, h1, (pairs_perm (l := policyPairs p' as) h2 listed_policyKeys.nodup).2 hm,
      ha, hb, not_not.1 hc, (decode_encode_ok.1 h5).1⟩
  · rintro ⟨pairs, as, h1, h2, ha, hb, hc, hs⟩
    obtain ⟨d, rfl, -⟩ := document_of h1
    have hk : policyKeys.Perm d.keys := by
      rw [Properties.keys_eq]
      exact (h2.map Prod.fst).symm
    refine ⟨d, ⟨h1, hk⟩, p, (readFields_ok (hk.nodup_iff.1 listed_policyKeys.nodup)).2
      ⟨hb, as, ha, fun x hx => h2.mem_iff.2 hx⟩, ?_⟩
    rw [if_neg (not_not.2 hc)]
    exact bind_ok.2 ⟨_, decode_encode_ok.2 ⟨hs, rfl⟩, rfl⟩

lemma writable_allowed {f : MessageKind → Bool} (h : Allows f as) : Writable (allowedText as) := by
  have hn : as.map actionName ≠ [] := by simpa using h.named
  have hs : allowedText as ++ [44] = (as.map actionName).flatMap (· ++ [44]) :=
    (flatMap_sep hn).symm
  have h1 : ∀ w ∈ as.map actionName, w.length ≤ 63 ∧ Text.Printable w := by
    have key : ∀ a ∈ actions, (actionName a).length ≤ 63 := by decide +kernel
    rintro w hw
    obtain ⟨a, -, rfl⟩ := List.mem_map.1 hw
    exact ⟨key a (mem_actions a), (writable_name a).printable⟩
  have h2 : as.length ≤ 9 :=
    (List.Nodup.subperm h.nodup fun a _ => mem_actions a).length_le
  have h3 := Properties.length_joined (as.map actionName) fun w hw => (h1 w hw).1
  have h4 := congrArg List.length hs
  rw [List.length_append, List.length_singleton] at h4
  rw [Properties.joined, ← h4, List.length_map] at h3
  have h5 : allowedText as ≠ [] := fun he => by
    obtain ⟨a, l, rfl⟩ := List.exists_cons_of_ne_nil h.named
    rw [he, List.map_cons, List.flatMap_cons, List.nil_append, List.append_assoc] at hs
    have := List.length_pos_iff.2 (actionName_ne a).1
    have := congrArg List.length hs
    simp only [List.length_append, List.length_singleton] at this
    omega
  refine ⟨⟨List.length_pos_iff.2 h5, by omega⟩, fun c hc => ?_⟩
  have hc' : c ∈ (as.map actionName).flatMap (· ++ [44]) := hs ▸ List.mem_append_left _ hc
  obtain ⟨w, hw, hcw⟩ := List.mem_flatMap.1 hc'
  rcases List.mem_append.1 hcw with hcw | hcw
  · exact (h1 w hw).2 c hcw
  · obtain rfl := List.mem_singleton.1 hcw
    decide

/-- **A policy can be specified**: its file, with the actions it allows in some order, is read as
the policy. -/
theorem readPolicy_lines (ha : Allows p.scope.allowed as) (hb : p.scope.bootId = zeroIdentity)
    (hc : p.contract = Gate.fingerprint) (hs : p.Sound) :
    readPolicy (Properties.lines (policyPairs p as)) = .ok p := by
  refine readPolicy_iff.2 ⟨_, as, isFile_lines listed_policyKeys keys_policyPairs ?_, .refl _, ha,
    hb, hc, hs⟩
  have h16 : ∀ b : Identity, Writable (hexText b.bytes) := fun b =>
    writable_hex b (by decide) (by decide)
  have h32 : ∀ b : Digest, Writable (hexText b.bytes) := fun b =>
    writable_hex b (by decide) (by decide)
  have hn := writable_numeral
  simp only [policyPairs, List.forall_mem_cons]
  exact ⟨h16 _, h16 _, h16 _, h16 _, hn _, hn _, h32 _, h32 _, h32 _, h32 _, h32 _, h32 _, h32 _,
    hn _, hn _, hn _, hn _, writable_allowed ha, by simp⟩

/-- **Specifications are faithful.** A policy is read of the files that specify it and of no
others, and every sound policy of this contract is specified by one. -/
theorem specifications_faithful :
    (∀ data p, readPolicy data = .ok p ↔ ∃ pairs as, Properties.IsFile data pairs
      ∧ pairs.Perm (policyPairs p as) ∧ Allows p.scope.allowed as ∧ p.scope.bootId = zeroIdentity
      ∧ p.contract = Gate.fingerprint ∧ p.Sound)
    ∧ ∀ p as, Allows p.scope.allowed as → p.scope.bootId = zeroIdentity →
      p.contract = Gate.fingerprint → p.Sound →
        readPolicy (Properties.lines (policyPairs p as)) = .ok p :=
  ⟨fun _ _ => readPolicy_iff, fun _ _ => readPolicy_lines⟩

lemma honest_readAllowed (text : Bytes) : Honest (readAllowed text) := by
  have key : ∀ f name, Honest (addAction f name) := fun f name o h => by
    unfold addAction at h
    split at h
    · cases h; simp
    split at h
    · cases h; simp
    split_ifs at h
    cases h
    simp
  have fold : ∀ (l : Bytes) s, Honest (l.foldlM allowedTurn s) := fun l => by
    induction l with
    | nil => exact honest_pure
    | cons c l ih =>
      intro s
      rw [List.foldlM_cons]
      refine Honest.bind (fun o h => ?_) fun s' => ih s'
      unfold allowedTurn at h
      split_ifs at h
      cases ha : addAction s.allowed s.name with
      | error o' => rw [ha] at h; cases h; exact key _ _ _ ha
      | ok f => rw [ha] at h; cases h
  intro o h
  unfold readAllowed at h
  cases hf : (text ++ [44]).foldlM allowedTurn {} with
  | error o' => rw [hf] at h; cases h; exact fold _ _ _ hf
  | ok s => rw [hf] at h; cases h

/-- Where no policy is read, the status is not `OK`. -/
lemma honest_readPolicy (data : Bytes) : Honest (readPolicy data) := by
  refine (honest_loadSpec data policyKeys).bind fun d => Honest.bind ?_ fun p => ?_
  · unfold readFields
    iterate 4 refine (honest_field _ _ _).bind fun _ => ?_
    iterate 2 refine (honest_number _ _).bind fun _ => ?_
    iterate 7 refine (honest_field _ _ _).bind fun _ => ?_
    iterate 4 refine (honest_number _ _).bind fun _ => ?_
    exact (honest_value _ _).bind fun text => (honest_readAllowed text).bind fun _ => honest_pure _
  · split
    · exact honest_error (by simp)
    · refine Honest.bind (fun o h => ?_) fun _ => honest_pure _
      unfold SitePolicy.decode at h
      split at h
      · cases h; simp
      split_ifs at h
      cases h
      simp

end Read

end NiayanAssurance.PolicyAdmin
