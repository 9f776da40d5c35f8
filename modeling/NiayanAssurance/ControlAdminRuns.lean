import NiayanAssurance.ControlCarried

/-!
Whom the latch obeys: the authority is founded once, by a file that names two signers, and from
then on the latch is moved by what one of them has signed, or both.

A call may be stopped before or after each write of a file; no name that was visible is lost.
-/

namespace NiayanAssurance.ControlAdminRuns

open NiayanAssurance.Lib NiayanAssurance.Types NiayanAssurance.Control
open NiayanAssurance.ControlCodec NiayanAssurance.ControlRuns NiayanAssurance.ControlIo
open NiayanAssurance.SpecFile NiayanAssurance.ControlAdmin
open NiayanAssurance.ControlCarried (calm readBefore_calm)
open NiayanAssurance.Ingress (VerifyDetached)
open NiayanAssurance.SitePolicy (authentic)

/-! ### Authorities -/

def authorityKeys : List Bytes :=
  [word "scope", word "serial", word "operations-key", word "operations-principal",
    word "operations-domain", word "security-key", word "security-principal",
    word "security-domain"]

/-- An authority of two signers, with the thresholds that it has unless it says otherwise. -/
def twoSigners (scope : Identity) (serial : Counter) (k l : Signer) : Authority where
  scope := scope
  contract := Gate.fingerprint
  serial := serial
  keys := [k, l]
  count_le := two_keys _ _
  tighten_range := tighten_one
  resume_range := resume_two

/-- A domain is a number from 1 to 65535. -/
def domainOf (n : Counter) : Except Outcome (Fin 65536) :=
  if h : 1 ≤ (n : ℕ) ∧ (n : ℕ) ≤ 65535 then .ok ⟨n, by omega⟩ else .error .invalidInput

/-- What `make-authorities` reads of the properties. -/
def readAuthority (doc : Properties.Document) : Except Outcome Authority := do
  let scope ← field 16 doc (word "scope")
  let serial ← number doc (word "serial")
  let operationsKey ← field 32 doc (word "operations-key")
  let operationsPrincipal ← field 16 doc (word "operations-principal")
  let n ← number doc (word "operations-domain")
  let operationsDomain ← domainOf n
  let securityKey ← field 32 doc (word "security-key")
  let securityPrincipal ← field 16 doc (word "security-principal")
  let n ← number doc (word "security-domain")
  let securityDomain ← domainOf n
  return twoSigners scope serial
    ⟨operationsKey, operationsPrincipal, operationsDomain, .operations⟩
    ⟨securityKey, securityPrincipal, securityDomain, .security⟩

/-- The authority of a file. The status is set anew with each domain: whatever went wrong before
the last one, the input is invalid. -/
def makeAuthority (data : Bytes) : Except Outcome Authority :=
  match loadSpec data authorityKeys >>= readAuthority with
  | .error _ => .error .invalidInput
  | .ok a => if ¬ a.Valid ∨ (a.key 0).domain = (a.key 1).domain then .error .denied else .ok a

/-- `make-authorities`: the file is a new one. -/
def makeAuthorities (d : Directory Name) (data : Bytes) (root : Outcome) (h : Atomic.PlaceHost) :
    Directory Name × Outcome :=
  match makeAuthority data with
  | .error o => (d, o)
  | .ok a => if root ≠ .ok then (d, root) else Atomic.write d .authorities a.encode true h

/-- The properties of an authority of two signers. -/
def authorityPairs (scope : Identity) (serial : Counter) (k l : Signer) : List (Bytes × Bytes) :=
  [(word "scope", hexText scope.bytes), (word "serial", Numbers.numeral serial),
    (word "operations-key", hexText k.publicKey.bytes),
    (word "operations-principal", hexText k.principal.bytes),
    (word "operations-domain", Numbers.numeral k.domain),
    (word "security-key", hexText l.publicKey.bytes),
    (word "security-principal", hexText l.principal.bytes),
    (word "security-domain", Numbers.numeral l.domain)]

/-- The file names the two signers of `a`, in any order of its lines. -/
structure Founds (data : Bytes) (scope : Identity) (serial : Counter) (k l : Signer) : Prop where
  file : ∃ pairs, Properties.IsFile data pairs ∧ pairs.Perm (authorityPairs scope serial k l)
  duties : k.duty = .operations ∧ l.duty = .security
  valid : (twoSigners scope serial k l).Valid
  apart : k.domain ≠ l.domain

section Read

variable {data : Bytes} {doc : Properties.Document} {a : Authority} {n : Counter} {m : Fin 65536}

lemma domainOf_ok : domainOf n = .ok m ↔ (n : ℕ) = m ∧ (m : ℕ) ≠ 0 := by
  unfold domainOf
  constructor
  · intro h
    split_ifs at h with h1
    cases h
    exact ⟨rfl, by show (n : ℕ) ≠ 0; omega⟩
  · rintro ⟨h1, h2⟩
    have := m.isLt
    rw [dif_pos (by omega)]
    exact congrArg Except.ok (Fin.ext h1)

lemma listed_authorityKeys : Listed authorityKeys :=
  ⟨by decide +kernel, by decide +kernel, by decide⟩

lemma keys_authorityPairs {scope : Identity} {serial : Counter} {k l : Signer} :
    (authorityPairs scope serial k l).map Prod.fst = authorityKeys := rfl

lemma domain_ok (hd : doc.keys.Nodup) {key : Bytes} :
    (number doc key >>= domainOf) = .ok m ↔ (key, Numbers.numeral m) ∈ doc.pairs ∧ (m : ℕ) ≠ 0 := by
  simp only [bind_ok, number_ok hd, domainOf_ok]
  constructor
  · rintro ⟨n, h1, h2, h3⟩
    rw [h2] at h1
    exact ⟨h1, h3⟩
  · rintro ⟨h1, h2⟩
    exact ⟨⟨m, by omega⟩, h1, rfl, h2⟩

lemma readAuthority_ok (hd : doc.keys.Nodup) : readAuthority doc = .ok a ↔
    ∃ scope serial k l, a = twoSigners scope serial k l
      ∧ (k.duty = .operations ∧ l.duty = .security) ∧ ((k.domain : ℕ) ≠ 0 ∧ (l.domain : ℕ) ≠ 0)
      ∧ ∀ x ∈ authorityPairs scope serial k l, x ∈ doc.pairs := by
  have hdom : ∀ {β : Type} {key : Bytes} {f : Fin 65536 → Except Outcome β} {b : β},
      (number doc key >>= fun n => domainOf n >>= f) = .ok b ↔
        ∃ m : Fin 65536, ((key, Numbers.numeral m) ∈ doc.pairs ∧ (m : ℕ) ≠ 0) ∧ f m = .ok b := by
    intro β key f b
    rw [← bind_assoc, bind_ok]
    simp only [domain_ok hd]
  simp only [readAuthority, hdom, bind_ok, pure_ok, field_ok hd, number_ok hd, authorityPairs,
    List.forall_mem_cons]
  constructor
  · rintro ⟨scope, h1, serial, h2, key, h3, principal, h4, m, ⟨h5, h6⟩, key', h7, principal', h8,
      m', ⟨h9, h10⟩, rfl⟩
    exact ⟨_, _, _, _, rfl, ⟨rfl, rfl⟩, ⟨h6, h10⟩, h1, h2, h3, h4, h5, h7, h8, h9, by simp⟩
  · rintro ⟨scope, serial, ⟨key, principal, m, duty⟩, ⟨key', principal', m', duty'⟩, rfl,
      ⟨h11, h12⟩, ⟨h6, h10⟩, h1, h2, h3, h4, h5, h7, h8, h9, -⟩
    obtain rfl : duty = .operations := h11
    obtain rfl : duty' = .security := h12
    exact ⟨_, h1, _, h2, _, h3, _, h4, _, ⟨h5, h6⟩, _, h7, _, h8, _, ⟨h9, h10⟩, rfl⟩

/-- **An authority is that of a file** that names two signers, of both duties and of two domains. -/
theorem makeAuthority_ok : makeAuthority data = .ok a ↔
    ∃ scope serial k l, Founds data scope serial k l ∧ a = twoSigners scope serial k l := by
  have hkey : ∀ scope serial (k l : Signer), (twoSigners scope serial k l).key 0 = k
      ∧ (twoSigners scope serial k l).key 1 = l := fun _ _ _ _ => ⟨rfl, rfl⟩
  have hread : (loadSpec data authorityKeys >>= readAuthority) = .ok a ↔
      ∃ scope serial k l, a = twoSigners scope serial k l
        ∧ (k.duty = .operations ∧ l.duty = .security) ∧ ((k.domain : ℕ) ≠ 0 ∧ (l.domain : ℕ) ≠ 0)
        ∧ ∃ pairs, Properties.IsFile data pairs
          ∧ pairs.Perm (authorityPairs scope serial k l) := by
    rw [bind_ok]
    simp only [loadSpec_ok listed_authorityKeys]
    constructor
    · rintro ⟨doc, ⟨h1, h2⟩, h3⟩
      obtain ⟨scope, serial, k, l, rfl, hk, hm, h4⟩ :=
        (readAuthority_ok (h2.nodup_iff.1 listed_authorityKeys.nodup)).1 h3
      exact ⟨scope, serial, k, l, rfl, hk, hm, doc.pairs, h1,
        (pairs_perm (l := authorityPairs scope serial k l) h2 listed_authorityKeys.nodup).2 h4⟩
    · rintro ⟨scope, serial, k, l, rfl, hk, hm, pairs, h1, h2⟩
      obtain ⟨doc, rfl, -⟩ := document_of h1
      have hp : authorityKeys.Perm doc.keys := by
        rw [Properties.keys_eq]
        exact (h2.map Prod.fst).symm
      exact ⟨doc, ⟨h1, hp⟩, (readAuthority_ok (hp.nodup_iff.1 listed_authorityKeys.nodup)).2
        ⟨scope, serial, k, l, rfl, hk, hm, fun x hx => h2.mem_iff.2 hx⟩⟩
  unfold makeAuthority
  constructor
  · intro h
    split at h
    · cases h
    rename_i a' ha
    split_ifs at h with hv
    cases h
    have ha' : (loadSpec data authorityKeys >>= readAuthority) = .ok a := ha
    obtain ⟨scope, serial, k, l, rfl, hk, -, hf⟩ := hread.1 ha'
    rw [not_or, not_not, (hkey ..).1, (hkey ..).2] at hv
    exact ⟨scope, serial, k, l, ⟨hf, hk, hv.1, hv.2⟩, rfl⟩
  · rintro ⟨scope, serial, k, l, ⟨hf, hk, hv, hne⟩, rfl⟩
    have hm : ∀ i < 2, ((twoSigners scope serial k l).key i).Named :=
      fun i hi => (hv.2.2.2.2.2.2.1 i hi).1
    rw [hread.2 ⟨scope, serial, k, l, rfl, hk, ⟨(hm 0 (by decide)).2.2, (hm 1 (by decide)).2.2⟩,
      hf⟩]
    exact if_neg (not_or.2 ⟨not_not.2 hv, hne⟩)

/-- **Two signers can be stated.** -/
theorem founds_lines {scope : Identity} {serial : Counter} {k l : Signer}
    (hd : k.duty = .operations ∧ l.duty = .security) (hv : (twoSigners scope serial k l).Valid)
    (hne : k.domain ≠ l.domain) :
    Founds (Properties.lines (authorityPairs scope serial k l)) scope serial k l := by
  have hm : ∀ m : Fin 65536, Writable (Numbers.numeral m) := fun m =>
    writable_numeral (⟨m, by omega⟩ : Counter)
  refine ⟨⟨_, isFile_lines listed_authorityKeys keys_authorityPairs ?_, .refl _⟩, hd, hv, hne⟩
  simp only [authorityPairs, List.forall_mem_cons]
  exact ⟨writable_hex _ (by decide) (by decide), writable_numeral _,
    writable_hex _ (by decide) (by decide), writable_hex _ (by decide) (by decide), hm _,
    writable_hex _ (by decide) (by decide), writable_hex _ (by decide) (by decide), hm _, by simp⟩

end Read

/-! ### The life of a latch -/

/-- What is done to the directory of a latch, and what the host answers. -/
inductive Act
  | found (data : Bytes) (root : Outcome) (h : Atomic.PlaceHost)
  | submit (e : Event)

def act (good : VerifyDetached) (d : Directory Name) : Act → Directory Name
  | .found data root h => (makeAuthorities d data root h).1
  | .submit e => (submit good d e.scope e.submission e.host).1

/-- The directory after all of these, wherever each of them has been interrupted. -/
def acts (good : VerifyDetached) (d : Directory Name) (l : List Act) : Directory Name :=
  l.foldl (act good) d

/-- What has been submitted. -/
def submissions (l : List Act) : List Submission :=
  l.filterMap fun
    | .found _ _ _ => none
    | .submit e => some e.submission

section Life

variable {good : VerifyDetached} {d d' : Directory Name} {l : List Act} {x : Act} {data b : Bytes}
  {root : Outcome} {h : Atomic.PlaceHost}

lemma acts_snoc (l : List Act) (x : Act) :
    acts good d (l ++ [x]) = act good (acts good d l) x := by simp [acts]

lemma acts_append (l l' : List Act) : acts good d (l ++ l') = acts good (acts good d l) l' :=
  List.foldl_append

/-- An authority is founded where there is none, or nothing is done. -/
lemma makeAuthorities_cases (d : Directory Name) (data : Bytes) (root : Outcome)
    (h : Atomic.PlaceHost) : (makeAuthorities d data root h).1 = d
    ∨ ∃ a, makeAuthority data = .ok a ∧ d.cached .authorities = none
      ∧ (makeAuthorities d data root h).1.cached
        = Function.update d.cached .authorities (some a.encode) := by
  unfold makeAuthorities
  split
  · exact .inl rfl
  rename_i a ha
  split_ifs
  · exact .inl rfl
  unfold Atomic.write
  split_ifs with h1 h2 h3
  all_goals first
    | exact .inl rfl
    | exact .inr ⟨a, ha, by simpa using h3, rfl⟩

lemma makeAuthorities_of {a : Authority} (hm : makeAuthority data = .ok a)
    (hn : d.cached .authorities = none) :
    (makeAuthorities d data .ok {}).1 = (d.place .authorities a.encode).sync := by
  rw [makeAuthorities, hm]
  simp [Atomic.write, hn]

lemma found_state : (makeAuthorities d data root h).1.cached .state = d.cached .state := by
  rcases makeAuthorities_cases d data root h with h1 | ⟨a, -, -, h1⟩
  · rw [h1]
  · rw [h1, Function.update_of_ne (by simp)]

end Life

/-! ### Proposals that have been overtaken -/

section Overtaken

variable {good : VerifyDetached} {d d' : Directory Name} {l : List Act} {x : Act} {data b : Bytes}
  {h : SubmitHost} {before : Option State} {e : Event}

/-- The state is what it was in `d`, or one of a later revision. -/
def Since (d : Directory Name) (before : Option State) (d' : Directory Name) : Prop :=
  d'.cached .state = d.cached .state
    ∨ ∃ s : State, d'.cached .state = some s.encode ∧ s.Valid ∧ revision before < s.revision

lemma map_encode_inj {r s : Option State} (hr : ∀ x, r = some x → x.Valid)
    (hs : ∀ x, s = some x → x.Valid) (he : r.map State.encode = s.map State.encode) : r = s := by
  cases r with
  | none => cases s with
    | none => rfl
    | some s => cases he
  | some r => cases s with
    | none => cases he
    | some s => rw [encode_inj (hr r rfl) (hs s rfl) (Option.some.inj he)]

/-- What is decided on is the state of `d`, or one of a later revision. -/
lemma Since.decided {r : Option State} (hs : Since d before d')
    (hd : d.cached .state = before.map State.encode) (hv : ∀ s, before = some s → s.Valid)
    (hr : d'.cached .state = r.map State.encode) (hrv : ∀ s, r = some s → s.Valid) :
    r = before ∨ revision before < revision r := by
  rcases hs with hs | ⟨s, h1, h2, h3⟩
  · exact .inl (map_encode_inj hrv hv (by rw [← hr, hs, hd]))
  · have : r = some s := map_encode_inj hrv (fun x hx => Option.some.inj hx ▸ h2) (hr.symm.trans h1)
    rw [this]
    exact .inr h3

lemma Since.act (hs : Since d before d') (hd : d.cached .state = before.map State.encode)
    (hv : ∀ s, before = some s → s.Valid) (x : Act) : Since d before (act good d' x) := by
  cases x with
  | found data root h =>
    unfold Since
    rw [ControlAdminRuns.act, found_state]
    exact hs
  | submit e =>
    rcases submit_cases good d' e.scope e.submission e.host with hg |
      ⟨p, a, v, r, boot, now, s, d'', he, ha, -, -, hu⟩
    · unfold Since
      rw [ControlAdminRuns.act, hg.state]
      exact hs
    · refine .inr ⟨s, ?_, (after_governs ha).valid, ?_⟩
      · rw [ControlAdminRuns.act, hu, Function.update_self]
      · rw [(accepts_revision ha).2]
        rcases hs.decided hd hv he.stored he.valid with rfl | h1 <;> omega

lemma since_acts (good : VerifyDetached) (hd : d.cached .state = before.map State.encode)
    (hv : ∀ s, before = some s → s.Valid) (l : List Act) : Since d before (acts good d l) := by
  induction l using List.reverseRecOn with
  | nil => exact .inl rfl
  | append_singleton l x ih =>
    rw [acts_snoc]
    exact ih.act hd hv x

/-- The revision that a proposal is made on is that of the state. -/
lemma makeProposal_revision (hm : makeProposal d data h = .ok b) : ∃ p before,
    b = Proposal.encode p ∧ d.cached .state = before.map State.encode
      ∧ (∀ s, before = some s → s.Valid) ∧ (p.expectedRevision : ℕ) = revision before := by
  obtain ⟨w, a, before, boot, now, hp, rfl⟩ := makeProposal_ok.1 hm
  obtain ⟨h1, h2⟩ := readBefore_ok hp.before
  refine ⟨_, before, rfl, h1, h2, ?_⟩
  cases before <;> rfl

/-- **A proposal that has been overtaken** is not carried out. -/
lemma overtaken (hm : makeProposal d data h = .ok b) (he : e.submission.rawProposal = b)
    (hne : (acts good d l).cached .state ≠ d.cached .state) :
    (acts good d (l ++ [.submit e])).cached .state = (acts good d l).cached .state := by
  obtain ⟨p, before, rfl, hd, hv, hrev⟩ := makeProposal_revision hm
  have hs := since_acts good hd hv l
  rw [acts_snoc, act]
  rcases submit_cases good (acts good d l) e.scope e.submission e.host with hg |
    ⟨p', a, v, r, boot, now, s, d'', hex, ha, -, -, -⟩
  · exact hg.state
  · have hp : p' = p := by
      have h1 := hex.proposal
      rw [he, proposal_canonical.decode_encode trivial] at h1
      exact (Except.ok.inj h1).symm
    have h2 : (p'.expectedRevision : ℕ) = revision r := (accepts_revision ha).1
    rw [hp, hrev] at h2
    rcases hs.decided hd hv hex.stored hex.valid with rfl | h3
    · exact absurd (hex.stored.trans hd.symm) hne
    · omega

/-- The latch never comes back to a state. -/
lemma never_back {l' : List Act} (hm : makeProposal d data h = .ok b)
    (hne : (acts good d l).cached .state ≠ d.cached .state) :
    (acts good d (l ++ l')).cached .state ≠ d.cached .state := by
  obtain ⟨p, before, -, hd, hv, -⟩ := makeProposal_revision hm
  induction l' using List.reverseRecOn with
  | nil => simpa using hne
  | append_singleton l' x ih =>
    rw [← List.append_assoc, acts_snoc]
    have hs := since_acts good hd hv (l ++ l')
    cases x with
    | found data root h =>
      rw [act, found_state]
      exact ih
    | submit e =>
      rw [act]
      rcases submit_cases good (acts good d (l ++ l')) e.scope e.submission e.host with hg |
        ⟨p, a, v, r, boot, now, s, d'', hex, ha, -, -, hu⟩
      · rw [hg.state]
        exact ih
      · rw [hu, Function.update_self, hd]
        intro hc
        have h1 : some s = before := map_encode_inj
          (fun y hy => Option.some.inj hy ▸ (after_governs ha).valid) hv hc
        have h2 : (s.revision : ℕ) = revision r + 1 := (accepts_revision ha).2
        have h3 : revision before = s.revision := by rw [← h1]; rfl
        rcases hs.decided hd hv hex.stored hex.valid with rfl | h4 <;> omega

/-- **No update is lost.** A proposal moves the latch only from the state that it has been made
on; and then no proposal that has been made on that state ever moves it again, whatever is
done, and wherever it is interrupted. -/
theorem no_lost_update (hm : makeProposal d data h = .ok b) (he : e.submission.rawProposal = b)
    (hne : (acts good d (l ++ [.submit e])).cached .state ≠ (acts good d l).cached .state) :
    (acts good d l).cached .state = d.cached .state
      ∧ ∀ more data' h' b' e', makeProposal d data' h' = .ok b' →
        e'.submission.rawProposal = b' →
          (acts good d (l ++ [.submit e] ++ more ++ [.submit e'])).cached .state
            = (acts good d (l ++ [.submit e] ++ more)).cached .state := by
  have hd : (acts good d l).cached .state = d.cached .state := by
    by_contra hc
    exact hne (overtaken hm he hc)
  refine ⟨hd, fun more data' h' b' e' hm' he' => overtaken hm' he' (never_back hm ?_)⟩
  rw [← hd]
  exact hne

/-! A latch is founded, and a quarantine is asked for and submitted. -/

def someFounding : Act :=
  .found (Properties.lines (authorityPairs (Block.fill 16 1) 1 (someAuthority.key 0)
    (someAuthority.key 1))) .ok {}

def someWish : Wish where
  scope := Block.fill 16 1
  desired := .quarantined
  trustEpoch := 1
  requestId := Block.fill 16 3
  reason := Block.fill 32 4
  recoveryReceipt := zeroDigest
  ttl := 9900

def someEvent : Event :=
  ⟨Block.fill 16 1, someSubmission,
    { boot := .ok (Block.fill 16 9), now := .ok 200, later := .ok 300 }⟩

lemma acts_someFounding : acts good .empty [someFounding] = someDirectory := by
  have hm : makeAuthority (Properties.lines (authorityPairs (Block.fill 16 1) 1
      (someAuthority.key 0) (someAuthority.key 1))) = .ok someAuthority :=
    makeAuthority_ok.2 ⟨_, _, _, _, founds_lines ⟨rfl, rfl⟩ (by decide +kernel) (by decide), rfl⟩
  rw [acts, List.foldl_cons, List.foldl_nil, someFounding, act, makeAuthorities_of hm rfl]
  have hf : Function.update (fun _ => none) Name.authorities (some someAuthority.encode)
      = fun n => if n = .authorities then some someAuthority.encode else none := by
    funext n
    by_cases hn : n = .authorities <;> simp [hn]
  unfold someDirectory
  rw [← hf]
  rfl

lemma acts_someEvent : acts good .empty [someFounding, .submit someEvent]
    = acts good someDirectory [.submit someEvent] := by
  rw [← @acts_someFounding good, ← acts_append]
  rfl

lemma moved_someEvent :
    ((acts someSigned someDirectory [.submit someEvent]).cached .state).isSome = true := by
  decide +kernel

lemma made_someWish : makeProposal someDirectory (Properties.lines (wishPairs someWish))
    (calm 0 (Block.fill 16 9) 100 100) = .ok someSubmission.rawProposal := by
  have hi : Installed someDirectory someAuthority := ⟨rfl, by decide +kernel, rfl⟩
  exact makeProposal_ok.2 ⟨someWish, someAuthority, none, Block.fill 16 9, 100,
    ⟨asked_lines _, hi, rfl, rfl, rfl, (readBefore_calm hi).2 ⟨rfl, nofun⟩, rfl, rfl, by decide⟩,
    rfl⟩

theorem no_lost_update_someEvent :
    (acts someSigned someDirectory []).cached .state = someDirectory.cached .state
      ∧ ∀ more data' h' b' e', makeProposal someDirectory data' h' = .ok b' →
        e'.submission.rawProposal = b' →
          (acts someSigned someDirectory ([] ++ [.submit someEvent] ++ more ++ [.submit e'])).cached
              .state
            = (acts someSigned someDirectory ([] ++ [.submit someEvent] ++ more)).cached .state :=
  no_lost_update (e := someEvent) made_someWish rfl fun he => by
    have h := moved_someEvent
    rw [← List.nil_append [Act.submit someEvent], he] at h
    cases h

end Overtaken

/-! ### Whom the latch obeys -/

section Obeys

variable {good : VerifyDetached} {d : Directory Name} {a : Authority} {x : Submission}
  {v : VerifiedSet} {before : Option State} {s : State} {k m : Signer} {xs ys : List Submission}
  {scope : Identity} {serial : Counter} {l : List Act}

/-- Signature `i` is there, and it is by `k`. -/
def Signs (good : VerifyDetached) (x : Submission) (i : ℕ) (k : Signer) : Prop :=
  x.signature i ≠ Block.zero 64
    ∧ good (x.signature i) (message x.rawProposal) k.publicKey = true

/-- All that has been counted has been signed. -/
lemma verifySigners_signs (hx : x.rawProposal.length ≤ 16777216)
    (h : verifySigners good true a x = .ok v) :
    ∀ i : Fin maxSigners, i ∈ v → Signs good x i (a.key i) := by
  refine foldlM_invariant
    (I := fun _ (v : VerifiedSet) => ∀ i : Fin maxSigners, i ∈ v → Signs good x i (a.key i)) h
    (fun i hi => absurd hi (Finset.notMem_empty i)) ?_
  intro done i v w _ hv hw
  unfold verifySigner at hw
  split_ifs at hw with h1 h2
  · cases hw
    exact hv
  split at hw
  · rename_i ho
    cases hw
    intro j hj
    rcases Finset.mem_insert.1 hj with rfl | hj
    · exact ⟨fun hz => h1 ((isZero_block _).2 hz), (authentic_ok hx).1 ho⟩
    · exact hv j hj
  · cases hw

/-- `x` moves the latch of the signers `k` and `m` from `before` to `s`. -/
structure Moved (good : VerifyDetached) (k m : Signer) (x : Submission) (before : Option State)
    (s : State) : Prop where
  /-- It is the proposal of `s`, made on the state before. -/
  asks : ∃ p, x.rawProposal = Proposal.encode p ∧ p.expectedState = expectedHash before
    ∧ (p.expectedRevision : ℕ) = revision before ∧ s.current = p.desired
    ∧ s.trustEpoch = p.newTrustEpoch ∧ s.lastRequest = p.requestId ∧ s.reason = p.reason
    ∧ ∀ r, before = some r → s.current.pos < r.current.pos → p.recoveryReceipt ≠ zeroDigest
  revision : (s.revision : ℕ) = revision before + 1
  previous : s.previous = expectedHash before
  /-- One signer is enough to tighten. -/
  signed : Signs good x 0 k ∨ Signs good x 1 m
  first : before = none → s.current = .quarantined
  later : ∀ r, before = some r → s.lastRequest ≠ r.lastRequest ∧ (r.trustEpoch : ℕ) ≤ s.trustEpoch
  /-- To relax it takes both, and a new epoch. -/
  relaxed : ∀ r, before = some r → s.current.pos < r.current.pos →
    Signs good x 0 k ∧ Signs good x 1 m ∧ (r.trustEpoch : ℕ) < s.trustEpoch

/-- The latch has been moved to `s` from nothing, by submissions of `xs` alone. -/
inductive Obeys (good : VerifyDetached) (k m : Signer) (xs : List Submission) : State → Prop
  | first {x : Submission} {s : State} (hx : x ∈ xs) (h : Moved good k m x none s) :
      Obeys good k m xs s
  | next {x : Submission} {r s : State} (hr : Obeys good k m xs r) (hx : x ∈ xs)
      (h : Moved good k m x (some r) s) : Obeys good k m xs s

/-- Whoever has been counted of two signers has signed in its own place. -/
lemma two_sign (hx : x.rawProposal.length ≤ 16777216)
    (h : verifySigners good true (twoSigners scope serial k m) x = .ok v)
    (hv : ∀ i ∈ v, (i : ℕ) < (twoSigners scope serial k m).count) :
    ∀ i : Fin maxSigners, i ∈ v →
      (Signs good x 0 k ∧ (twoSigners scope serial k m).key i = k)
        ∨ (Signs good x 1 m ∧ (twoSigners scope serial k m).key i = m) := by
  intro i hi
  have hlt : (i : ℕ) < 2 := hv i hi
  have hs := verifySigners_signs hx h i hi
  obtain h0 | h1 : (i : ℕ) = 0 ∨ (i : ℕ) = 1 := by omega
  · rw [h0] at hs ⊢
    exact .inl ⟨hs, rfl⟩
  · rw [h1] at hs ⊢
    exact .inr ⟨hs, rfl⟩

/-- **A decision** under an authority of two signers. -/
lemma moved (hx : x.rawProposal.length = 320)
    (h : Produces good (twoSigners scope serial k m) before x s)
    (hd : k.duty = .operations ∧ m.duty = .security) : Moved good k m x before s := by
  obtain ⟨p, v, boot, now, hp, hv, ha⟩ := h
  obtain ⟨hraw, -⟩ := (proposal_canonical _ _).1 hp
  have hsign := two_sign (by omega) hv ha.keys
  have hrev := accepts_revision ha
  have hres := ha.result
  have hrelax : ∀ r, before = some r → s.current.pos < r.current.pos →
      (Signs good x 0 k ∧ Signs good x 1 m ∧ (r.trustEpoch : ℕ) < s.trustEpoch)
        ∧ p.recoveryReceipt ≠ zeroDigest := by
    rintro r rfl hlt
    obtain ⟨-, ⟨i, hi, h1⟩, ⟨j, hj, h2⟩, -, h3, h4⟩ := ha.relax rfl (by rw [hres] at hlt; exact hlt)
    have hne : Role.operations ≠ .security := by decide
    refine ⟨⟨?_, ?_, by rw [hres]; exact h3⟩, h4⟩
    · rcases hsign i hi with h5 | ⟨-, h5⟩
      · exact h5.1
      · rw [h5, hd.2] at h1
        exact absurd h1.symm hne
    · rcases hsign j hj with ⟨-, h5⟩ | h5
      · rw [h5, hd.1] at h2
        exact absurd h2 hne
      · exact h5.1
  refine ⟨⟨p, hraw.symm, ?_, hrev.1, ?_, ?_, ?_, ?_, fun r hr hlt => (hrelax r hr hlt).2⟩, hrev.2,
    ?_, ?_, ?_, ?_, fun r hr hlt => (hrelax r hr hlt).1⟩
  · cases before with
    | none => exact (ha.opens rfl).2.1
    | some r => exact (ha.continues rfl).2.2.2.2.2.1
  · rw [hres]; rfl
  · rw [hres]; rfl
  · rw [hres]; rfl
  · rw [hres]; rfl
  · rw [hres]; rfl
  · have hcard : 0 < v.card := ha.tighten
    obtain ⟨i, hi⟩ := Finset.card_pos.1 hcard
    exact (hsign i hi).imp And.left And.left
  · rintro rfl
    rw [hres]
    exact (ha.opens rfl).2.2.2
  · rintro r rfl
    obtain ⟨-, -, -, -, -, -, -, h1, h2⟩ := ha.continues rfl
    rw [hres]
    exact ⟨h2, h1⟩

lemma Archived.obeys (h : Archived good xs d s) (hf : d.cached .authorities
    = some (twoSigners scope serial k m).encode) (hv : (twoSigners scope serial k m).Valid)
    (hd : k.duty = .operations ∧ m.duty = .security) :
    Obeys good k m xs s ∧ s.Valid ∧ s.scope = scope := by
  have step : ∀ {before s}, Filed good xs d before s → ∃ x ∈ xs, Moved good k m x before s
      ∧ s.Valid ∧ s.scope = scope := by
    rintro before s ⟨-, x, hx, -, h320, a, ha, -, hp⟩
    have hg := hp.governs
    obtain rfl : a = twoSigners scope serial k m :=
      authority_inj hg.authority hv (Option.some.inj (ha.symm.trans hf))
    exact ⟨x, hx, moved h320 hp hd, hg.valid, hg.scope⟩
  induction h with
  | first h =>
    obtain ⟨x, hx, h1, h2⟩ := step h
    exact ⟨.first hx h1, h2⟩
  | next _ h ih =>
    obtain ⟨x, hx, h1, h2⟩ := step h
    exact ⟨.next ih.1 hx h1, h2⟩

/-- What holds of the directory after all of `l`. -/
structure Kept (good : VerifyDetached) (l : List Act) (d : Directory Name) : Prop where
  founded : ∀ b, d.cached .authorities = some b → ∃ data root h a, Act.found data root h ∈ l
    ∧ makeAuthority data = .ok a ∧ b = a.encode
  archived : ControlIo.Kept good (submissions l) d

/-- **Whatever is done next** keeps it. -/
lemma Kept.act (h : Kept good l d) (x : Act) : Kept good (l ++ [x]) (act good d x) := by
  obtain ⟨h1, h2⟩ := h
  cases x with
  | found data root h =>
    have hsub : submissions (l ++ [.found data root h]) = submissions l := by simp [submissions]
    refine ⟨fun b hb => ?_, ?_⟩
    · rcases makeAuthorities_cases d data root h with h3 | ⟨a, h3, -, h4⟩
      · rw [ControlAdminRuns.act, h3] at hb
        obtain ⟨data', root', h', a, h4, h5⟩ := h1 b hb
        exact ⟨data', root', h', a, by simp [h4], h5⟩
      · rw [ControlAdminRuns.act, h4, Function.update_self] at hb
        exact ⟨data, root, h, a, by simp, h3, (Option.some.inj hb).symm⟩
    · rw [hsub]
      intro b hb
      rw [ControlAdminRuns.act, found_state] at hb
      obtain ⟨s, rfl, hs⟩ := h2 b hb
      refine ⟨s, rfl, hs.mono (fun _ hx => hx) fun n c _ hc => ?_⟩
      rcases makeAuthorities_cases d data root h with h3 | ⟨a, -, h3, h4⟩
      · rw [ControlAdminRuns.act, h3]
        exact hc
      · rw [ControlAdminRuns.act, h4, Function.update_of_ne, hc]
        rintro rfl
        rw [h3] at hc
        cases hc
  | submit e =>
    have hsub : submissions (l ++ [.submit e]) = submissions l ++ [e.submission] := by
      simp [submissions]
    refine ⟨fun b hb => ?_, ?_⟩
    · have hauth : (submit good d e.scope e.submission e.host).1.cached .authorities
          = d.cached .authorities := by
        rcases submit_cases good d e.scope e.submission e.host with hg |
          ⟨_, _, _, _, _, _, _, _, -, -, hg, -, hu⟩
        · exact hg.authorities
        · rw [hu, Function.update_of_ne (by simp), hg.authorities]
      rw [ControlAdminRuns.act, hauth] at hb
      obtain ⟨data, root, h, a, h4, h5⟩ := h1 b hb
      exact ⟨data, root, h, a, by simp [h4], h5⟩
    · rw [hsub]
      exact kept_submit h2 e.scope e.submission e.host

lemma kept_acts (good : VerifyDetached) (l : List Act) : Kept good l (acts good .empty l) := by
  induction l using List.reverseRecOn with
  | nil => exact ⟨nofun, nofun⟩
  | append_singleton l x ih =>
    rw [acts_snoc]
    exact ih.act x

/-- **Whom the latch obeys.** Whatever is done to an empty directory, and wherever it is
interrupted: a state that is there is one of an authority that has been founded there by a file of
two signers, and it is reached from nothing by proposals that have been submitted, of which one of
the two has signed each, and both each that relaxes it. -/
theorem latch_obeys {b : Bytes} (hb : (acts good .empty l).cached .state = some b) :
    ∃ data root h scope serial k m s, Act.found data root h ∈ l ∧ Founds data scope serial k m
      ∧ (acts good .empty l).cached .authorities = some (twoSigners scope serial k m).encode
      ∧ b = s.encode ∧ s.Valid ∧ s.scope = scope ∧ Obeys good k m (submissions l) s := by
  obtain ⟨h1, h2⟩ := kept_acts good l
  obtain ⟨s, rfl, hs⟩ := h2 b hb
  obtain ⟨before, hf⟩ := hs.filed
  obtain ⟨-, -, -, -, a, ha, -, -⟩ := hf.produced
  obtain ⟨data, root, h, a', hl, hm, hae⟩ := h1 _ ha
  obtain ⟨scope, serial, k, m, hfound, rfl⟩ := makeAuthority_ok.1 hm
  rw [hae] at ha
  obtain ⟨hob, hv, hsc⟩ := Archived.obeys hs ha hfound.valid hfound.duties
  exact ⟨data, root, h, scope, serial, k, m, s, hl, hfound, ha, rfl, hv, hsc, hob⟩

theorem latch_obeys_someEvent : ∃ b data root h scope serial k m s,
    Act.found data root h ∈ [someFounding, .submit someEvent] ∧ Founds data scope serial k m
      ∧ (acts someSigned .empty [someFounding, .submit someEvent]).cached .authorities
        = some (twoSigners scope serial k m).encode
      ∧ b = s.encode ∧ s.Valid ∧ s.scope = scope
      ∧ Obeys someSigned k m (submissions [someFounding, .submit someEvent]) s := by
  obtain ⟨b, hb⟩ := Option.isSome_iff_exists.1 moved_someEvent
  exact ⟨b, latch_obeys (by rw [acts_someEvent, hb])⟩

end Obeys

end NiayanAssurance.ControlAdminRuns
