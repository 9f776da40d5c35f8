import NiayanAssurance.PolicyAdmin
import NiayanAssurance.Lib.Run

/-!
The policy of a site over any sequence of administrations and crashes: what was acknowledged is
only ever followed by policies of the same site, with a later serial and no earlier epoch or
fence.

The lock lets one administration in at a time, so that they happen one after the other.
-/

namespace NiayanAssurance.PolicyAdminRuns

open NiayanAssurance.Lib NiayanAssurance.Types NiayanAssurance.SitePolicy
open NiayanAssurance.PolicyAdmin NiayanAssurance.Atomic

/-! ### The lock -/

/-- What the host answers while a file is opened under its lock: to what is looked up before, to
the call that opens it or makes it, to the checks and the lock of the open file, and to the sync
of the directory. -/
structure LockHost where
  stat : Outcome := .ok
  opened : Outcome := .ok
  locked : Outcome := .ok
  synced : Bool := true

/-- `Open_Locked`. -/
def openLocked {ν : Type} [DecidableEq ν] (d : Directory ν) (path : ν) (createIfMissing : Bool)
    (host : LockHost) : Directory ν × Outcome :=
  if host.stat ≠ .ok then (d, host.stat)
  else if d.cached path = none ∧ createIfMissing = false then (d, .corrupt)
  else if host.opened ≠ .ok then (d, host.opened)
  else
    let d' := if d.cached path = none then d.place path [] else d
    if host.locked ≠ .ok then (d', host.locked)
    else if host.synced = false then (d', .indeterminate)
    else (d'.sync, .ok)

/-! ### Making and rotating a policy -/

/-- The files of the directory. -/
inductive Name
  | lock
  | policy
  deriving DecidableEq

/-- What the host answers: to `Open_Root`, to the lock, to the calls that inspect and read the
policy that is there, and to those that write the new one. -/
structure AdminHost where
  root : Outcome := .ok
  lock : LockHost := {}
  stat : Outcome := .ok
  read : Outcome := .ok
  place : PlaceHost := {}

/-- `MC_Site_Policy.Load`. A missing file is not a regular one. -/
def loadPolicy (d : Directory Name) (host : AdminHost) : Except Outcome Policy :=
  if host.stat ≠ .ok then .error host.stat
  else if d.cached .policy = none then .error .denied
  else
    match Atomic.read d .policy SitePolicy.size host.read with
    | .error o => .error o
    | .ok b => (SitePolicy.load { data := b }).map Prod.fst

/-- What `rotate-policy` asks of a policy that is to follow `old`. -/
def Follows (old p : Policy) : Prop :=
  (old.serial : ℕ) < p.serial ∧ p.rootId = old.rootId ∧ p.scope.clusterId = old.scope.clusterId
    ∧ p.scope.nodeId = old.scope.nodeId
    ∧ (old.scope.membershipEpoch : ℕ) ≤ p.scope.membershipEpoch
    ∧ (old.scope.fenceToken : ℕ) ≤ p.scope.fenceToken

instance (old p : Policy) : Decidable (Follows old p) := by unfold Follows; infer_instance

/-- `make-policy`, or `rotate-policy`, of a specification. -/
def administer (rotate : Bool) (data : Bytes) (host : AdminHost) (d : Directory Name) :
    Directory Name × Outcome :=
  match readPolicy data with
  | .error o => (d, o)
  | .ok p =>
    if host.root ≠ .ok then (d, host.root)
    else
      let r := openLocked d .lock (!rotate) host.lock
      if r.2 ≠ .ok then r
      else if rotate then
        match loadPolicy r.1 host with
        | .error o => (r.1, o)
        | .ok old =>
          if ¬ Follows old p then (r.1, .stale)
          else Atomic.write r.1 .policy (encode p) false host.place
      else Atomic.write r.1 .policy (encode p) true host.place

/-! ### Runs -/

inductive Event
  | administer (rotate : Bool) (data : Bytes) (host : AdminHost)
  | crash (keep : Name → Bool)

def step (d : Directory Name) : Event → Directory Name × Option Outcome
  | .administer rotate data host =>
    let r := administer rotate data host d
    (r.1, some r.2)
  | .crash keep => (d.crash keep, none)

/-- Everything that happened to a directory that was empty at first, and what is left. -/
def life (events : List Event) : List (Event × Option Outcome) × Directory Name :=
  exec step .empty events

/-- The files hold the policy `p`. -/
def Holds (files : Name → Option Bytes) (p : Policy) : Prop :=
  ∃ b, files .policy = some b ∧ SitePolicy.decode b = .ok p

/-- `q` is `p`, or of the same site and later. -/
def Advances (p q : Policy) : Prop := p = q ∨ Follows p q

/-- What is held in `a` has been followed in `b`. -/
def Behind (a b : Name → Option Bytes) : Prop :=
  ∀ p, Holds a p → ∃ q, Holds b q ∧ Advances p q

section Order

variable {p q r : Policy} {a b c : Name → Option Bytes}

lemma Follows.trans (h : Follows p q) (h' : Follows q r) : Follows p r := by
  obtain ⟨h1, h2, h3, h4, h5, h6⟩ := h
  obtain ⟨h1', h2', h3', h4', h5', h6'⟩ := h'
  exact ⟨h1.trans h1', h2'.trans h2, h3'.trans h3, h4'.trans h4, h5.trans h5', h6.trans h6'⟩

lemma Advances.trans (h : Advances p q) (h' : Advances q r) : Advances p r := by
  rcases h with rfl | h
  · exact h'
  · rcases h' with rfl | h'
    · exact .inr h
    · exact .inr (h.trans h')

lemma Behind.refl (a : Name → Option Bytes) : Behind a a := fun p h => ⟨p, h, .inl rfl⟩

lemma Behind.trans (h : Behind a b) (h' : Behind b c) : Behind a c := fun p hp => by
  obtain ⟨q, hq, h1⟩ := h p hp
  obtain ⟨r, hr, h2⟩ := h' q hq
  exact ⟨r, hr, h1.trans h2⟩

lemma Behind.of_eq (h : a .policy = b .policy) : Behind a b := fun p hp =>
  ⟨p, by simpa only [Holds, ← h] using hp, .inl rfl⟩

/-- A file holds one policy. -/
lemma Holds.unique (h : Holds a p) (h' : Holds a q) : p = q := by
  obtain ⟨b, h1, h2⟩ := h
  obtain ⟨b', h1', h2'⟩ := h'
  obtain rfl := Option.some.inj (h1.symm.trans h1')
  exact Except.ok.inj (h2.symm.trans h2')

end Order

/-! ### One step -/

section Step

variable {d d' : Directory Name} {rotate : Bool} {data : Bytes} {host : AdminHost} {o : Outcome}
  {p : Policy}

/-- A policy that has been read is the one its frame holds. -/
lemma readPolicy_holds (h : readPolicy data = .ok p) : SitePolicy.decode (encode p) = .ok p := by
  obtain ⟨-, -, -, -, -, hb, -, hs⟩ := readPolicy_iff.1 h
  rw [Layouts.policy_decode_encode hs]
  obtain ⟨⟨c, n, r, b, e, t, a, l⟩, root, key, observers, contract, serial, until', age⟩ := p
  cases hb
  rfl

/-- What the lock does to the directory: it is untouched where the policy is concerned, or all of
it is on the medium. -/
inductive LockCases (d : Directory Name) : Directory Name → Outcome → Prop
  | refused {d' : Directory Name} {o : Outcome} (ho : o ≠ .ok)
      (hc : d'.cached .policy = d.cached .policy) (hs : d'.stable .policy = d.stable .policy) :
      LockCases d d' o
  | locked {d' : Directory Name} (hc : d'.cached .policy = d.cached .policy)
      (hs : d'.stable = d'.cached) : LockCases d d' .ok

lemma openLocked_cases (d : Directory Name) (create : Bool) (host : LockHost) :
    LockCases d (openLocked d .lock create host).1 (openLocked d .lock create host).2 := by
  unfold openLocked
  split
  · exact .refused (by assumption) rfl rfl
  split
  · exact .refused (by simp) rfl rfl
  split
  · exact .refused (by assumption) rfl rfl
  dsimp only
  generalize hd' : (if d.cached .lock = none then d.place .lock [] else d) = d'
  have hc : d'.cached .policy = d.cached .policy := by
    subst hd'
    split <;> simp [Directory.place]
  have hs : d'.stable = d.stable := by
    subst hd'
    split <;> rfl
  split
  · exact .refused (by assumption) hc (by rw [hs])
  split
  · exact .refused (by simp) hc (by rw [hs])
  · exact .locked hc rfl

lemma loadPolicy_ok {old : Policy} (h : loadPolicy d host = .ok old) : Holds d.cached old := by
  unfold loadPolicy at h
  split at h
  · cases h
  split at h
  · cases h
  split at h
  · cases h
  rename_i b hr
  cases hl : SitePolicy.load { data := b } with
  | error o => rw [hl] at h; cases h
  | ok x =>
    rw [hl] at h
    cases h
    exact ⟨b, read_ok hr, (load_ok hl).1⟩

lemma loadPolicy_error (h : loadPolicy d host = .error o) : o ≠ .ok := by
  unfold loadPolicy at h
  split at h
  · cases h; assumption
  split at h
  · cases h; simp
  split at h
  · rename_i hr
    cases h
    exact read_error hr
  · rename_i b hr
    cases hl : SitePolicy.load { data := b } with
    | error o' =>
      rw [hl] at h
      cases h
      exact load_error hl
    | ok x => rw [hl] at h; cases h

/-- What an administration does to the policy. -/
inductive Administered (rotate : Bool) (data : Bytes) (d d' : Directory Name) : Outcome → Prop
  | kept {o : Outcome} (ho : o ≠ .ok) (hc : d'.cached .policy = d.cached .policy)
      (hs : d'.stable .policy = d.stable .policy ∨ d'.stable .policy = d.cached .policy) :
      Administered rotate data d d' o
  | placed {o : Outcome} (p : Policy) (hp : readPolicy data = .ok p)
      (hc : d'.cached .policy = some (encode p))
      (hb : d.cached .policy = none ∨ rotate = true ∧ ∃ old, Holds d.cached old ∧ Follows old p)
      (hs : d'.stable .policy = some (encode p) ∧ o = .ok
        ∨ d'.stable .policy = d.cached .policy ∧ o = .indeterminate) :
      Administered rotate data d d' o

theorem administer_cases (rotate : Bool) (data : Bytes) (host : AdminHost) (d : Directory Name) :
    Administered rotate data d (administer rotate data host d).1
      (administer rotate data host d).2 := by
  have kept : ∀ {o}, o ≠ .ok → Administered rotate data d d o := fun ho => .kept ho rfl (.inl rfl)
  unfold administer
  cases hp : readPolicy data with
  | error o => exact kept (honest_readPolicy data o hp)
  | ok p =>
    dsimp only
    split
    · exact kept (by assumption)
    have hl := openLocked_cases d (!rotate) host.lock
    generalize openLocked d .lock (!rotate) host.lock = r at hl ⊢
    obtain ⟨d₁, o₁⟩ := r
    dsimp only at hl ⊢
    -- what a write makes of the locked directory
    have written : ∀ mustBeNew : Bool, d₁.cached .policy = d.cached .policy →
        d₁.stable = d₁.cached →
        (mustBeNew = false → rotate = true ∧ ∃ old, Holds d.cached old ∧ Follows old p) →
        Administered rotate data d (write d₁ .policy (encode p) mustBeNew host.place).1
          (write d₁ .policy (encode p) mustBeNew host.place).2 := by
      intro mustBeNew hc hs hb
      rcases write_cases d₁ .policy (encode p) mustBeNew host.place with ⟨h1, h2⟩ | ⟨h1, h2⟩
      · rw [h1]
        exact .kept h2 hc (.inr (by rw [hs, hc]))
      · have hb' : d.cached .policy = none ∨ rotate = true ∧
            ∃ old, Holds d.cached old ∧ Follows old p := by
          cases mustBeNew
          · exact .inr (hb rfl)
          · exact .inl (hc ▸ h1 rfl)
        rcases h2 with h2 | h2 <;> rw [h2]
        · exact .placed p hp (by simp [Directory.place, Directory.sync]) hb'
            (.inl ⟨by simp [Directory.place, Directory.sync], rfl⟩)
        · exact .placed p hp (by simp [Directory.place]) hb'
            (.inr ⟨by rw [← hc, ← hs]; rfl, rfl⟩)
    cases hl with
    | refused ho hc hs =>
      rw [if_pos ho]
      exact .kept ho hc (.inl hs)
    | locked hc hs =>
      rw [if_neg (by simp)]
      split
      · rename_i hr
        cases hload : loadPolicy d₁ host with
        | error o => exact .kept (loadPolicy_error hload) hc (.inr (by rw [hs, hc]))
        | ok old =>
          dsimp only
          split
          · exact .kept (by simp) hc (.inr (by rw [hs, hc]))
          · rename_i hf
            refine written false hc hs fun _ => ⟨hr, old, ?_, not_not.1 hf⟩
            simpa only [Holds, hc] using loadPolicy_ok hload
      · exact written true hc hs (by simp)

end Step

/-! ### Every run -/

/-- Every policy file that a process sees, or that is on the medium, is the whole frame of a
policy that an administration was asked for, and what is on the medium is not later than what a
process sees. -/
structure Ruled (l : List (Event × Option Outcome)) (d : Directory Name) : Prop where
  source : ∀ b, d.cached .policy = some b ∨ d.stable .policy = some b →
    ∃ rotate data host answer p, (Event.administer rotate data host, answer) ∈ l
      ∧ readPolicy data = .ok p ∧ b = encode p
  behind : Behind d.stable d.cached

section Runs

variable {l : List (Event × Option Outcome)} {d : Directory Name} {p : Policy}

lemma holds_encode {data : Bytes} {a : Name → Option Bytes} (h : readPolicy data = .ok p)
    (ha : a .policy = some (encode p)) : Holds a p := ⟨_, ha, readPolicy_holds h⟩

/-- Where a policy is placed, it follows the one that was there. -/
lemma behind_placed {data : Bytes} {rotate : Bool} {a : Name → Option Bytes}
    (h : readPolicy data = .ok p) (ha : a .policy = some (encode p))
    (hb : d.cached .policy = none ∨ rotate = true ∧ ∃ old, Holds d.cached old ∧ Follows old p) :
    Behind d.cached a := by
  rintro q hq
  refine ⟨p, holds_encode h ha, ?_⟩
  rcases hb with hb | ⟨-, old, hold, hf⟩
  · obtain ⟨b, hb', -⟩ := hq
    rw [hb] at hb'
    cases hb'
  · exact .inr (hq.unique hold ▸ hf)

lemma ruled_empty : Ruled [] .empty :=
  ⟨fun _ h => by simp [Directory.empty] at h, .refl _⟩

lemma ruled_step (h : Ruled l d) (e : Event) : Ruled (l ++ [(e, (step d e).2)]) (step d e).1 := by
  have mono : ∀ b, d.cached .policy = some b ∨ d.stable .policy = some b →
      ∃ rotate data host answer p, (Event.administer rotate data host, answer)
        ∈ l ++ [(e, (step d e).2)] ∧ readPolicy data = .ok p ∧ b = encode p := fun b hb => by
    obtain ⟨rotate, data, host, answer, p, h1, h2⟩ := h.source b hb
    exact ⟨rotate, data, host, answer, p, List.mem_append_left _ h1, h2⟩
  cases e with
  | crash keep =>
    refine ⟨fun b hb => mono b ?_, .refl _⟩
    have hb' : (step d (.crash keep)).1.stable .policy = some b := hb.elim id id
    cases hk : keep .policy
    · exact .inr (by simpa [step, Directory.crash, hk] using hb')
    · exact .inl (by simpa [step, Directory.crash, hk] using hb')
  | administer rotate data host =>
    have hc := administer_cases rotate data host d
    simp only [step] at mono ⊢
    generalize administer rotate data host d = r at hc mono ⊢
    obtain ⟨d', o⟩ := r
    dsimp only at hc mono ⊢
    cases hc with
    | kept ho hc hs =>
      refine ⟨fun b hb => mono b ?_, ?_⟩
      · rw [hc] at hb
        rcases hs with hs | hs <;> rw [hs] at hb <;> tauto
      · refine Behind.trans ?_ (.of_eq hc.symm)
        rcases hs with hs | hs
        · exact (Behind.of_eq hs).trans h.behind
        · exact .of_eq hs
    | placed p hp hc hb hs =>
      have asked : ∃ rotate' data' host' answer q, (Event.administer rotate' data' host', answer)
          ∈ l ++ [(Event.administer rotate data host, some o)] ∧ readPolicy data' = .ok q
          ∧ encode p = encode q :=
        ⟨rotate, data, host, some o, p, by simp, hp, rfl⟩
      refine ⟨fun b hb' => ?_, ?_⟩
      · rw [hc] at hb'
        rcases hb' with hb' | hb'
        · exact Option.some.inj hb' ▸ asked
        · rcases hs with ⟨hs, -⟩ | ⟨hs, -⟩ <;> rw [hs] at hb'
          · exact Option.some.inj hb' ▸ asked
          · exact mono b (.inl hb')
      · rcases hs with ⟨hs, -⟩ | ⟨hs, -⟩
        · exact .of_eq (hs.trans hc.symm)
        · exact (Behind.of_eq hs).trans (behind_placed hp hc hb)

/-- A step leaves what is on the medium, or what follows it. -/
lemma stable_step (h : Behind d.stable d.cached) (e : Event) :
    Behind d.stable (step d e).1.stable := by
  cases e with
  | crash keep =>
    cases hk : keep .policy
    · exact .of_eq (by simp [step, Directory.crash, hk])
    · exact h.trans (.of_eq (by simp [step, Directory.crash, hk]))
  | administer rotate data host =>
    have hc := administer_cases rotate data host d
    simp only [step]
    cases hc with
    | kept ho hc hs =>
      rcases hs with hs | hs
      · exact .of_eq hs.symm
      · exact h.trans (.of_eq hs.symm)
    | placed p hp hc hb hs =>
      rcases hs with ⟨hs, -⟩ | ⟨hs, -⟩
      · exact h.trans (behind_placed hp hs hb)
      · exact h.trans (.of_eq hs.symm)

/-- What is acknowledged is on the medium. -/
lemma acknowledged_step {rotate : Bool} {data : Bytes} {host : AdminHost}
    (h : (step d (.administer rotate data host)).2 = some .ok) (hp : readPolicy data = .ok p) :
    Holds (step d (.administer rotate data host)).1.stable p := by
  have hc := administer_cases rotate data host d
  have ho : (administer rotate data host d).2 = .ok := Option.some.inj h
  simp only [step]
  rw [ho] at hc
  cases hc with
  | kept ho _ _ => exact absurd rfl ho
  | placed q hq _ _ hs =>
    obtain rfl := Except.ok.inj (hp.symm.trans hq)
    rcases hs with ⟨hs, -⟩ | ⟨-, ho⟩
    · exact holds_encode hp hs
    · cases ho

/-- Unless there is a crash, a process never sees an earlier policy. -/
lemma cached_step {e : Event} (he : ∀ keep, e ≠ .crash keep) :
    Behind d.cached (step d e).1.cached := by
  cases e with
  | crash keep => exact absurd rfl (he keep)
  | administer rotate data host =>
    have hc := administer_cases rotate data host d
    simp only [step]
    cases hc with
    | kept ho hc hs => exact .of_eq hc.symm
    | placed p hp hc hb hs => exact behind_placed hp hc hb

lemma life_snoc (events : List Event) (e : Event) : life (events ++ [e]) =
    ((life events).1 ++ [(e, (step (life events).2 e).2)], (step (life events).2 e).1) :=
  exec_snoc events e

/-- Every answer was given to an event, in the state that was reached before it. -/
lemma mem_life {events : List Event} {e : Event} {answer : Option Outcome}
    (h : (e, answer) ∈ (life events).1) : ∃ before after, events = before ++ e :: after
      ∧ (step (life before).2 e).2 = answer := by
  induction events using List.reverseRecOn with
  | nil => cases h
  | append_singleton events x ih =>
    rw [life_snoc, List.mem_append, List.mem_singleton] at h
    rcases h with h | h
    · obtain ⟨before, after, rfl, ha⟩ := ih h
      exact ⟨before, after ++ [x], by simp, ha⟩
    · obtain ⟨rfl, rfl⟩ := Prod.mk.inj h
      exact ⟨events, [], rfl, rfl⟩

lemma ruled_life (events : List Event) : Ruled (life events).1 (life events).2 :=
  (run_exec step .empty events).history ruled_empty fun l d x d' _ h hx => by
    obtain ⟨e, answer⟩ := x
    have hx' : step d e = (d', answer) := hx
    have := ruled_step h e
    rwa [hx'] at this

/-- What holds of the policy over a run that goes on. -/
structure NeverRollsBack (before after : List Event) : Prop where
  ruled : Ruled (life (before ++ after)).1 (life (before ++ after)).2
  durable : Behind (life before).2.stable (life (before ++ after)).2.stable
  seen : (∀ e ∈ after, ∀ keep, e ≠ .crash keep) →
    Behind (life before).2.cached (life (before ++ after)).2.cached
  acknowledged : ∀ rotate data host p,
    (Event.administer rotate data host, some Outcome.ok) ∈ (life before).1 →
    readPolicy data = .ok p → ∃ q, Holds (life (before ++ after)).2.stable q ∧ Advances p q

/-- **Policies are never rolled back.** Whatever is asked for, whatever the host answers and
wherever it crashes, the policy on the medium is only ever followed by one of the same site with
a later serial and no earlier epoch or fence; so is one that was acknowledged; and every policy
file is the whole frame of a policy that was asked for. -/
theorem never_rolls_back (before after : List Event) : NeverRollsBack before after := by
  have durable : ∀ before after : List Event,
      Behind (life before).2.stable (life (before ++ after)).2.stable := fun before after => by
    induction after using List.reverseRecOn with
    | nil => rw [List.append_nil]; exact .refl _
    | append_singleton after e ih =>
      rw [← List.append_assoc, life_snoc]
      exact ih.trans (stable_step (ruled_life _).behind e)
  refine ⟨ruled_life _, durable _ _, fun h => ?_, fun rotate data host p hm hp => ?_⟩
  · induction after using List.reverseRecOn with
    | nil => rw [List.append_nil]; exact .refl _
    | append_singleton after e ih =>
      rw [← List.append_assoc, life_snoc]
      exact (ih fun x hx => h x (by simp [hx])).trans (cached_step (h e (by simp)))
  · obtain ⟨first, later, rfl, ha⟩ := mem_life hm
    have hp' : Holds (life (first ++ [.administer rotate data host])).2.stable p := by
      rw [life_snoc]
      exact acknowledged_step ha hp
    have h := durable (first ++ [.administer rotate data host]) (later ++ after) p hp'
    simpa using h

end Runs

end NiayanAssurance.PolicyAdminRuns
