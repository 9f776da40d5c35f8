import NiayanAssurance.CheckpointStoreRuns

/-!
What can be seen of the store of checkpoints in every run of any number of processes, wherever they
are stopped.
-/

namespace NiayanAssurance.CheckpointStore

open NiayanAssurance.Lib NiayanAssurance.Types NiayanAssurance.Checkpoint
  NiayanAssurance.CheckpointCodec

variable {τ : Type} {t : τ} {s s' : World τ} {c p : Option Descriptor} {d : Descriptor}

abbrev State (τ : Type) := Machine.State τ Operation Unit Returned Call Reply (World τ)

abbrev Label (τ : Type) := Machine.Label τ Operation Returned

/-! ### Which descriptor is current -/

/-- The generation of the current descriptor, from 1; 0 if there is none. -/
def generation (s : World τ) : ℕ :=
  match (s.files .current).map decode with
  | some (.ok d) => d.generation
  | _ => 0

lemma generation_eq (h : s.files .current = some (encode d)) (hd : Valid d) :
    generation s = d.generation := by
  simp [generation, h, decode_encode hd]

lemma Advances.generation_le (h : Advances s s') :
    generation s ≤ generation s' := by
  rcases h with h | ⟨c, d, h1, h2, h3, -⟩
  · unfold generation
    rw [h]
  cases c with
  | none =>
    have : generation s = 0 := by simp [generation, h1]
    omega
  | some before =>
    obtain ⟨h4, h5, -, -, h6, -⟩ := h3
    rw [generation_eq h1 h4, generation_eq h2 h5]
    omega

lemma generation_congr (h : s'.files = s.files) : generation s ≤ generation s' := by
  unfold generation
  rw [h]

section Runs

variable [DecidableEq τ]

variable (τ) in
abbrev step : State τ → Label τ → State τ → Prop := (machine τ).Step

variable (τ) in
/-- Nothing is stored and nothing is anchored. -/
abbrev empty : State τ := (machine τ).init {}

variable {m m' : State τ} {ls ls' : List (Label τ)}

lemma kept (hr : Run (step τ) (empty τ) ls m) : (machine τ).Kept (discipline τ) m :=
  (machine_sound τ).kept inv_empty (fun _ => (by rintro ⟨⟩)) hr

/-- The generation of what is current never decreases. -/
lemma generation_mono (hr : Run (step τ) (empty τ) ls m) (hr' : Run (step τ) m ls' m') :
    generation m.world ≤ generation m'.world := by
  refine (machine_sound τ).rel (R := fun s s' => generation s ≤ generation s') inv_empty
    (fun _ => (by rintro ⟨⟩)) (fun _ => le_rfl) (fun _ _ _ => le_trans) ?_ ?_ ?_ ?_ hr hr'
  · exact fun _ _ _ _ _ _ _ hg => hg.current.generation_le
  · rintro s s' - ⟨⟩
    exact generation_congr rfl
  · rintro t s s' - rfl
    refine generation_congr ?_
    unfold World.release
    split <;> rfl
  · rintro s s' - rfl
    exact generation_congr rfl

/-! ### Load -/

/-- The process `t` has `x` to do at `m`, and has done it at `m'`, where it returns `r`. -/
structure Finishes (t : τ) (k : Operation) (m : State τ) (x : Prog Returned)
    (ls : List (Label τ)) (m' : State τ) (r : Returned) : Prop where
  run : Run (step τ) m ls m'
  once : ∀ k, .start t k ∉ ls
  here : m.running t = some (k, x >>= fun r => pure (r, ()))
  done : m'.running t = some (k, .done (r, ()))

variable {k : Operation} {r r' : Returned}

lemma Finishes.eq (h : Finishes t k m (pure r') ls m' r) : r = r' :=
  congrArg Prod.fst (Machine.done_of_done h.run h.once h.here h.done)

lemma Finishes.congr {x y : Prog Returned} (h : Finishes t k m x ls m' r) (e : x = y) :
    Finishes t k m y ls m' r := e ▸ h

/-- A call that leaves everything as it is has been made, and the rest follows. -/
lemma Finishes.look {x : Call} {g : Reply x → Prog Returned} (hx : Looks x)
    (h : Finishes t k m (ask x >>= g) ls m' r) : ∃ l₁ l₂ n o, ls = l₁ ++ l₂ ∧
      Run (step τ) m l₁ n ∧ act t x n.world o n.world ∧ Finishes t k n (g o) l₂ m' r := by
  obtain ⟨l₁, l₂, n, n', o, rfl, h1, h2, h3, h4, h5⟩ :=
    Machine.first_call h.run h.once h.here h.done
  have he : n'.world = n.world := act_looks hx h3
  refine ⟨l₁ ++ [.call t], l₂, n', o, by simp, h1.snoc h2, ?_, h5, fun k hk => ?_, h4, h.done⟩
  · rw [he] at h3 ⊢
    exact h3
  · exact h.once k (by simp [hk])

/-- A check has been passed if it would have led to another status. -/
lemma Finishes.check {b : Prop} [Decidable b] {x : Prog Returned}
    (h : Finishes t k m (if b then pure r' else x) ls m' r) (hr : b → r'.status ≠ r.status) :
    ¬ b ∧ Finishes t k m x ls m' r := by
  by_cases hb : b
  · exact absurd (congrArg Returned.status (h.congr (if_pos hb)).eq).symm (hr hb)
  · exact ⟨hb, h.congr (if_neg hb)⟩

/-- What has been read was there when it was read. -/
lemma Finishes.readDescriptor {q : Path} {g : Descriptor × Outcome → Prog Returned}
    (h : Finishes t k m (CheckpointStore.readDescriptor q >>= g) ls m' r) :
    ∃ l₁ l₂ n d o, ls = l₁ ++ l₂ ∧ Run (step τ) m l₁ n ∧ Finishes t k n (g (d, o)) l₂ m' r ∧
      (o = .ok → n.world.files q = some (encode d) ∧ Valid d) := by
  obtain ⟨l₁, l₂, n, ⟨b, o⟩, rfl, h1, h2, h⟩ := h.look (x := .read q 320) trivial
  refine ⟨l₁, l₂, n, ?_⟩
  change Finishes t k n (Program.andThen (ite (o ≠ .ok) _ _) g) l₂ m' r at h
  by_cases ho : o ≠ .ok
  · rw [if_pos ho] at h
    exact ⟨{}, o, rfl, h1, h, fun e => absurd e ho⟩
  rw [if_neg ho] at h
  by_cases hb : b.length ≠ 320
  · rw [if_pos hb] at h
    exact ⟨{}, .corrupt, rfl, h1, h, by rintro ⟨⟩⟩
  rw [if_neg hb] at h
  cases hd : decode b with
  | error o =>
    rw [hd] at h
    exact ⟨{}, o, rfl, h1, h, fun e => absurd e (decode_error hd)⟩
  | ok d =>
    rw [hd] at h
    obtain ⟨he, hv⟩ := (canonical _ _).1 hd
    exact ⟨d, _, rfl, h1, h, fun _ => ⟨he ▸ (h2.2 (not_not.1 ho)).1, hv⟩⟩

lemma Finishes.readPayload {capacity : ℕ} {g : Bytes × Outcome → Prog Returned}
    (h : Finishes t k m (CheckpointStore.readPayload d capacity >>= g) ls m' r) :
    ∃ l₁ l₂ n b o, ls = l₁ ++ l₂ ∧ Run (step τ) m l₁ n ∧ Finishes t k n (g (b, o)) l₂ m' r ∧
      (o = .ok → b.length = d.payloadSize ∧ Sha256.hash b = d.payload) := by
  unfold CheckpointStore.readPayload at h
  by_cases hc : capacity < d.payloadSize
  · rw [if_pos hc] at h
    exact ⟨[], ls, m, [], .exhausted, rfl, .nil, h, by rintro ⟨⟩⟩
  rw [if_neg hc] at h
  obtain ⟨l₁, l₂, n, ⟨b, o⟩, rfl, h1, -, h⟩ :=
    h.look (x := .read (.snapshot d.payload) capacity) trivial
  change Finishes t k n (Program.andThen (ite (o ≠ .ok) _ _) g) l₂ m' r at h
  by_cases ho : o ≠ .ok
  · rw [if_pos ho] at h
    exact ⟨l₁, l₂, n, [], o, rfl, h1, h, fun e => absurd e ho⟩
  rw [if_neg ho] at h
  by_cases hb : b = [] ∨ b.length ≠ d.payloadSize ∨ Sha256.hash b ≠ d.payload
  · rw [if_pos hb] at h
    exact ⟨l₁, l₂, n, b, .corrupt, rfl, h1, h, by rintro ⟨⟩⟩
  rw [if_neg hb] at h
  obtain ⟨l₃, l₄, n', o, rfl, h2, -, h⟩ := h.look (x := .validateState d b) trivial
  push Not at hb
  exact ⟨l₁ ++ l₃, l₄, n', b, o, by simp, h1.append h2, h, fun _ => hb.2⟩

/-- In the run from `m` by `ls` to `m'` the process `t` loads `d` with the payload `b`, while the
others do what they do. -/
def Loads (t : τ) (rootId streamId : Identity) (d : Descriptor) (b : Bytes) (m : State τ)
    (ls : List (Label τ)) (m' : State τ) : Prop :=
  Run (step τ) m ls m' ∧ ∃ capacity l,
    ls = .start t (.load rootId streamId capacity) :: l ++
      [.finish t (.load rootId streamId capacity) ⟨.ok, d, b⟩] ∧ ∀ k, .start t k ∉ l

lemma Loads.finishes {rootId streamId : Identity} {b : Bytes}
    (h : Loads t rootId streamId d b m ls m') : ∃ capacity l m₁ m₂,
      ls = .start t (.load rootId streamId capacity) :: l ++
        [.finish t (.load rootId streamId capacity) ⟨.ok, d, b⟩] ∧
      step τ m (.start t (.load rootId streamId capacity)) m₁ ∧
      step τ m₂ (.finish t (.load rootId streamId capacity) ⟨.ok, d, b⟩) m' ∧
      Finishes t (.load rootId streamId capacity) m₁
        (load rootId streamId capacity) l m₂ ⟨.ok, d, b⟩ := by
  obtain ⟨hr, capacity, l, rfl, hl⟩ := h
  obtain ⟨m₁, hs, hr⟩ := Run.cons_inv hr
  obtain ⟨m₂, hr, hf⟩ := Run.snoc_inv hr
  refine ⟨capacity, l, m₁, m₂, rfl, hs, hf, hr, hl, ?_, ?_⟩
  · cases hs
    exact Function.update_self _ _ _
  · cases hf
    assumption

/-- What is loaded has been current at a moment, and anchored at a later one. -/
structure Anchored (d : Descriptor) (b : Bytes) (m : State τ) (ls : List (Label τ))
    (m' : State τ) : Prop where
  payload : b.length = d.payloadSize ∧ Sha256.hash b = d.payload
  moments : ∃ l₁ l₂ l₃ m₁ m₂, ls = l₁ ++ l₂ ++ l₃ ∧ Run (step τ) m l₁ m₁ ∧
    Run (step τ) m₁ l₂ m₂ ∧ Run (step τ) m₂ l₃ m' ∧
    m₁.world.files .current = some (encode d) ∧ Valid d ∧ m₂.world.anchor = digest d

/-- **What `Load` returns** has been read while it was current, and checked while it was
anchored. -/
lemma load_finishes {rootId streamId : Identity} {capacity : ℕ} {b : Bytes}
    (h : Finishes t k m (load rootId streamId capacity) ls m' ⟨.ok, d, b⟩) :
    Anchored d b m ls m' ∧ d.rootId = rootId ∧ d.streamId = streamId := by
  obtain ⟨l₁, l₂, n₁, o, rfl, r1, -, h⟩ := h.look (x := .openRoot) trivial
  obtain ⟨-, h⟩ := h.check id
  obtain ⟨l₃, l₄, n₂, d', o, rfl, r2, h, hd⟩ := h.readDescriptor
  obtain ⟨ho, h⟩ := h.check id
  obtain ⟨hd, hv⟩ := hd (not_not.1 ho)
  obtain ⟨hid, h⟩ := h.check (fun _ => by simp)
  obtain ⟨l₅, l₆, n₃, o, rfl, r3, ha, h⟩ := h.look (x := .checkAnchor _ _) trivial
  obtain ⟨ho, h⟩ := h.check id
  have ha := ha.2 (not_not.1 ho)
  have r4 := h.run
  obtain ⟨l₇, l₈, n₄, b', o, rfl, -, h, hb⟩ := h.readPayload
  obtain ⟨rfl, rfl, rfl⟩ := Returned.mk.inj h.eq
  obtain ⟨h1, h2⟩ := not_or.1 hid
  exact ⟨⟨hb rfl, l₁ ++ l₃, l₅, l₇ ++ l₈, n₂, n₃, by simp, r1.append r2, r3, r4, hd, hv, ha⟩,
    not_not.1 h1, not_not.1 h2⟩

theorem loads_anchored {rootId streamId : Identity} {b : Bytes}
    (h : Loads t rootId streamId d b m ls m') :
    Anchored d b m ls m' ∧ d.rootId = rootId ∧ d.streamId = streamId := by
  obtain ⟨capacity, l, m₁, m₂, rfl, hs, hf, h⟩ := h.finishes
  obtain ⟨⟨hb, l₁, l₂, l₃, n₁, n₂, rfl, r1, r2, r3, h1⟩, hid⟩ := load_finishes h
  exact ⟨⟨hb, _ :: l₁, l₂, l₃ ++ [_], n₁, n₂, by simp, (Run.single hs).append r1, r2, r3.snoc hf,
    h1⟩, hid⟩

/-- The generation that is loaded later is not smaller. -/
lemma loads_mono {ls' ls'' : List (Label τ)} {m₁ m₂ : State τ} {t' : τ} {d' : Descriptor}
    {rootId streamId rootId' streamId' : Identity} {b b' : Bytes}
    {l₀ : List (Label τ)} (h0 : Run (step τ) (empty τ) l₀ m)
    (h : Loads t rootId streamId d b m ls m') (hr : Run (step τ) m' ls' m₁)
    (h' : Loads t' rootId' streamId' d' b' m₁ ls'' m₂) :
    (d.generation : ℕ) ≤ d'.generation := by
  obtain ⟨⟨-, l₁, l₂, l₃, n₁, n₂, rfl, r1, r2, r3, hc, hv, -⟩, -⟩ := loads_anchored h
  obtain ⟨⟨-, l₁', l₂', l₃', n₁', n₂', rfl, r1', r2', r3', hc', hv', -⟩, -⟩ := loads_anchored h'
  have h1 := generation_mono (h0.append r1) ((r2.append r3).append (hr.append r1'))
  rwa [generation_eq hc hv, generation_eq hc' hv'] at h1

/-! ### Completing what is anchored -/

variable (t) in
/-- A host on which nothing fails and everything is allowed. -/
def host : (x : Call) → World τ → Reply x × World τ
  | .openRoot, s => (.ok, s)
  | .openLocked createIfMissing, s =>
    if s.holder = none ∧ (s.lockFile = true ∨ createIfMissing = true) then
      (.ok, { s with holder := some t, lockFile := true })
    else (.ioError, s)
  | .close, s => ((), s.release t)
  | .stat q, s => (((s.files q).isSome, .ok), s)
  | .read q capacity, s =>
    match s.files q with
    | none => (([], .ioError), s)
    | some b => if b.length ≤ capacity then ((b, .ok), s) else (([], .exhausted), s)
  | .write q b mustBeNew, s =>
    if mustBeNew = true ∧ (s.files q).isSome then (.conflict, s) else (.ok, s.put q b)
  | .authorize .., s => (.ok, s)
  | .validateState .., s => (.ok, s)
  | .checkAnchor _ manifest, s => (if s.anchor = manifest then .ok else .stale, s)
  | .advanceAnchor before _ manifest, s =>
    if s.anchor = before then (.ok, { s with anchor := manifest }) else (.conflict, s)

lemma host_act (x : Call) (s : World τ) : act t x s (host t x s).1 (host t x s).2 := by
  cases x with
  | openRoot | close | authorize | validateState => rfl
  | openLocked createIfMissing =>
    dsimp only [host]
    split
    · rename_i h
      exact .inl ⟨rfl, h.1, h.2, rfl⟩
    · exact .inr ⟨by rintro ⟨⟩, .inl rfl⟩
  | stat q => exact ⟨rfl, fun _ => rfl⟩
  | read q capacity =>
    dsimp only [host]
    split
    · exact ⟨rfl, by rintro ⟨⟩⟩
    · split
      · exact ⟨rfl, fun _ => ⟨‹_›, ‹_›⟩⟩
      · exact ⟨rfl, by rintro ⟨⟩⟩
  | write q b mustBeNew =>
    dsimp only [host]
    split
    · exact .inl ⟨rfl, by rintro ⟨⟩⟩
    · rename_i h
      exact .inr ⟨rfl, fun e => by simpa [e] using h⟩
  | checkAnchor d manifest =>
    refine ⟨rfl, fun e => ?_⟩
    dsimp only [host] at e
    split at e
    · assumption
    · cases e
  | advanceAnchor before d manifest =>
    dsimp only [host]
    split
    · exact .inl ⟨rfl, ‹_›, rfl⟩
    · exact .inr ⟨by rintro ⟨⟩, .inl rfl⟩

lemma length_encode (d : Descriptor) : (encode d).length = 320 :=
  Sha256.length_withDigest (by simp [magic])

lemma readDescriptor_host {q : Path} (h : s.files q = some (encode d)) (hd : Proper d) :
    (readDescriptor q).run (host t) s = ((d, .ok), s) := by
  have h1 : host t (.read q 320) s = ((encode d, .ok), s) := by
    simp [host, h, length_encode]
  unfold readDescriptor
  rw [Program.run_bind, Program.run_ask, h1]
  simp [length_encode, decode_encode hd.1, hd.2, Program.run_pure]

lemma readPayload_host {b : Bytes} (h : s.files (.snapshot d.payload) = some b) (hd : Valid d)
    (hl : b.length = d.payloadSize) (hb : Sha256.hash b = d.payload) :
    (readPayload d maxMessage).run (host t) s = ((b, .ok), s) := by
  obtain ⟨-, -, -, -, -, -, ⟨h0, hm⟩, -⟩ := hd
  have h1 : host t (.read (.snapshot d.payload) maxMessage) s = ((b, .ok), s) := by
    simp [host, h, hl, hm]
  unfold readPayload
  rw [if_neg (not_lt.2 hm), Program.run_bind, Program.run_ask, h1]
  dsimp only
  rw [if_neg (by simp), if_neg]
  · rfl
  · rintro (rfl | h | h)
    · rw [← hl] at h0
      cases h0
    · exact h hl
    · exact h hb

lemma complete_host {before : Descriptor} :
    (complete before d).run (host t) s = (.ok, s.put .current (encode d)) := rfl

/-- **What is pending and anchored** is current when `Reconcile` is done. -/
lemma reconcileLocked_host (h : Good c (some d) s) (hh : s.holder = none)
    (ha : s.anchor = digest d) :
    ∃ s', (reconcileLocked d.rootId d.streamId).run (host t) s = (.ok, s') ∧
      s'.anchor = s.anchor ∧ ∃ e, s'.files .current = some (encode e) ∧ digest e = s.anchor := by
  have hopen : host t (.openLocked false) s =
      (.ok, { s with holder := some t, lockFile := true }) := by
    dsimp only [host]
    rw [if_pos ⟨hh, .inl (h.lockFile (.inl rfl))⟩]
  obtain ⟨b, hb, hl, hhash⟩ := h.payload d rfl
  have hd := h.proper d (.inr rfl)
  unfold reconcileLocked
  rw [Program.run_bind, Program.run_ask, hopen]
  generalize hs₁ : { s with holder := some t, lockFile := true } = s₁
  have hf : s₁.files = s.files := by rw [← hs₁]
  have ha₁ : s₁.anchor = s.anchor := by rw [← hs₁]
  have hcheck : host t (.checkAnchor d (digest d)) s₁ = (.ok, s₁) := by
    dsimp only [host]
    rw [if_pos (ha₁.trans ha)]
  dsimp only
  rw [if_neg (not_not.2 rfl), Program.run_bind,
    readDescriptor_host (by rw [hf]; exact h.pending) hd]
  dsimp only
  rw [if_neg (not_not.2 rfl), if_neg (by simp), Program.run_bind, Program.run_ask, hcheck]
  dsimp only
  rw [if_neg (not_not.2 rfl), Program.run_bind, readPayload_host (by rw [hf]; exact hb) hd.1 hl
    hhash]
  dsimp only
  rw [if_neg (not_not.2 rfl), Program.run_bind, Program.run_ask]
  have hput : ∀ before, ∃ s', (complete before d).run (host t) s₁ = (.ok, s') ∧
      s'.anchor = s.anchor ∧ ∃ e, s'.files .current = some (encode e) ∧ digest e = s.anchor :=
    fun before => ⟨_, complete_host, ha₁, d, put_self, ha.symm⟩
  have hstat : host t (.stat .current) s₁ = ((c.isSome, .ok), s₁) := by
    dsimp only [host]
    rw [hf, h.current, Option.isSome_map]
  rw [hstat]
  dsimp only
  rw [if_neg (not_not.2 rfl)]
  cases c with
  | none =>
    have hn : Next none d := (h.link d rfl).resolve_right (by rintro ⟨⟩)
    rw [if_neg (by rintro ⟨⟩), if_neg (by simp [hn.1, hn.2])]
    exact hput {}
  | some before =>
    rw [if_pos Option.isSome_some, Program.run_bind,
      readDescriptor_host (by rw [hf]; exact h.current) (h.proper before (.inl rfl))]
    dsimp only
    rw [if_neg (not_not.2 rfl)]
    by_cases he : digest before = digest d
    · rw [if_pos he]
      exact ⟨s₁, rfl, ha₁, before, by rw [hf]; exact h.current, he.trans ha.symm⟩
    · have hn : Follows before d (digest before) :=
        (h.link d rfl).resolve_right fun e => he (by rw [Option.some.inj e])
      rw [if_neg he, if_neg (not_not.2 hn)]
      exact hput before

lemma reconcile_host (h : Good c (some d) s) (hh : s.holder = none) (ha : s.anchor = digest d) :
    ∃ s', (reconcile d.rootId d.streamId).run (host t) s = ({ status := .ok }, s') ∧
      s'.anchor = s.anchor ∧ ∃ e, s'.files .current = some (encode e) ∧ digest e = s.anchor := by
  obtain ⟨s', h1, h2, h3⟩ := reconcileLocked_host (t := t) h hh ha
  have hrelease : (s'.release t).anchor = s'.anchor ∧ (s'.release t).files = s'.files := by
    unfold World.release
    split <;> exact ⟨rfl, rfl⟩
  refine ⟨s'.release t, ?_, hrelease.1.trans h2, by rw [hrelease.2]; exact h3⟩
  unfold reconcile
  rw [Program.run_bind, Program.run_ask, show host t .openRoot s = (.ok, s) from rfl]
  dsimp only
  rw [if_neg (not_not.2 rfl), Program.run_bind, h1]
  rfl

/-! ### What holds of every run -/

/-- Nothing is anchored and nothing current, or what is current is anchored, or what is pending is
anchored, and it is the first one or follows what is current. -/
def Recoverable (s : World τ) : Prop :=
  s.anchor = zeroDigest ∧ s.files .current = none ∨
    (∃ c, s.files .current = some (encode c) ∧ digest c = s.anchor) ∨
    ∃ p, s.files .pending = some (encode p) ∧ digest p = s.anchor ∧
      (s.files .current = none ∧ (p.generation : ℕ) = 1 ∨
        ∃ c, s.files .current = some (encode c) ∧ Follows c p (digest c))

/-- What holds of a state `m` that is reached, and of what can follow it. -/
structure Protocol (m : State τ) : Prop where
  recoverable : Recoverable m.world
  /-- What becomes current is pending and anchored at the time. -/
  current : ∀ l m', step τ m l m' → m'.world.files .current ≠ m.world.files .current →
    ∃ d, m'.world.files .current = some (encode d) ∧ m.world.files .pending = some (encode d) ∧
      m.world.anchor = digest d
  /-- What is loaded is current at a moment of the call, and anchored at a later one. -/
  loads : ∀ t rootId streamId d b ls m', Loads t rootId streamId d b m ls m' →
    Anchored d b m ls m' ∧ d.rootId = rootId ∧ d.streamId = streamId
  /-- What is loaded later is not of an earlier generation. -/
  mono : ∀ t rootId streamId d b ls m₁, Loads t rootId streamId d b m ls m₁ →
    ∀ ls' m₂, Run (step τ) m₁ ls' m₂ →
      ∀ t' rootId' streamId' d' b' ls'' m', Loads t' rootId' streamId' d' b' m₂ ls'' m' →
        (d.generation : ℕ) ≤ d'.generation
  /-- What is pending and anchored can be made current by any process that is between two calls,
  if no other one has the lock. -/
  completes : ∀ p, m.world.files .pending = some (encode p) → Valid p →
    m.world.anchor = digest p → m.world.holder = none → ∀ t, m.running t = none →
      ∃ ls m', Run (step τ) m (.start t (.reconcile p.rootId p.streamId) :: ls ++
          [.finish t (.reconcile p.rootId p.streamId) { status := .ok }]) m' ∧
        m'.world.anchor = digest p ∧
          ∃ c, m'.world.files .current = some (encode c) ∧ digest c = digest p

omit [DecidableEq τ] in
lemma Good.recoverable (h : Good c p s) : Recoverable s := by
  rcases h.anchor with ha | ⟨d, hd, ha⟩
  · cases c with
    | none => exact .inl ⟨ha, h.current⟩
    | some c => exact .inr (.inl ⟨c, h.current, ha.symm⟩)
  rcases h.link d hd with hn | rfl
  · refine .inr (.inr ⟨d, by rw [h.pending, hd]; rfl, ha.symm, ?_⟩)
    cases c with
    | none => exact .inl ⟨h.current, hn.1⟩
    | some c => exact .inr ⟨c, h.current, hn⟩
  · exact .inr (.inl ⟨d, h.current, ha.symm⟩)

lemma current_changes {l : Label τ} (hm : (machine τ).Kept (discipline τ) m)
    (h : step τ m l m') (hc : m'.world.files .current ≠ m.world.files .current) :
    ∃ d, m'.world.files .current = some (encode d) ∧ m.world.files .pending = some (encode d) ∧
      m.world.anchor = digest d := by
  cases h with
  | start | finish => exact absurd rfl hc
  | call t ht ha =>
    rcases (hm.call ht ha).1.current with h | ⟨c, d, -, h1, -, h2, h3, -⟩
    · exact absurd h hc
    · exact ⟨d, h1, h2, h3⟩
  | halt t hw =>
    obtain rfl := hw
    refine absurd ?_ hc
    dsimp only [World.release]
    split <;> rfl
  | crash hw =>
    obtain rfl := hw
    exact absurd rfl hc
  | others hw =>
    cases hw
    exact absurd rfl hc

lemma completes (hm : (machine τ).Kept (discipline τ) m)
    (hp : m.world.files .pending = some (encode d)) (hd : Valid d) (ha : m.world.anchor = digest d)
    (hh : m.world.holder = none) (ht : m.running t = none) :
    ∃ ls m', Run (step τ) m (.start t (.reconcile d.rootId d.streamId) :: ls ++
        [.finish t (.reconcile d.rootId d.streamId) { status := .ok }]) m' ∧
      m'.world.anchor = digest d ∧
        ∃ c, m'.world.files .current = some (encode c) ∧ digest c = digest d := by
  obtain ⟨c, p, hg⟩ := hm.inv
  rw [hg.pending] at hp
  obtain rfl := map_encode (fun d hd => (hg.proper d (.inr hd)).1) hd hp
  obtain ⟨s', h1, h2, h3⟩ := reconcile_host (t := t) hg hh ha
  obtain ⟨ls, hr⟩ := Machine.run_whole_call (M := machine τ) (m := m) (f := host t)
    (.reconcile d.rootId d.streamId) (fun _ _ => host_act _ _) ht
  have hbody : ((machine τ).body (.reconcile d.rootId d.streamId) (m.memory t)).run (host t)
      m.world = (({ status := .ok }, ()), s') := by
    show Program.run (host t) (reconcile d.rootId d.streamId >>= fun r => pure (r, ())) m.world = _
    rw [Program.run_bind, h1]
    rfl
  rw [hbody] at hr
  rw [ha] at h2 h3
  exact ⟨ls, _, hr, h2, h3⟩

/-- **The store of checkpoints.** In every run of any number of processes that publish, reconcile
and load, wherever they are stopped and whenever the anchor makes a swap of which the answer was
lost, what is anchored can be recovered, and nothing else is made current or loaded. -/
theorem protocol (hr : Run (step τ) (empty τ) ls m) : Protocol m := by
  have hm := kept hr
  obtain ⟨c, p, hg⟩ := hm.inv
  exact ⟨hg.recoverable, fun _ _ => current_changes hm, fun _ _ _ _ _ _ _ => loads_anchored,
    fun _ _ _ _ _ _ _ h _ _ hr' _ _ _ _ _ _ _ h' => loads_mono hr h hr' h',
    fun _ hp hd ha hh _ ht => completes hm hp hd ha hh ht⟩

/-- A first checkpoint, with the payload `[7]`. -/
def firstCheckpoint : Descriptor where
  rootId := ⟨List.replicate 16 1, by decide⟩
  streamId := ⟨List.replicate 16 2, by decide⟩
  contract := Gate.fingerprint
  payload := Sha256.hash [7]
  auditReceipt := ⟨List.replicate 32 3, by decide⟩
  generation := 1
  trustEpoch := 1
  payloadSize := 1
  quiescent := true

lemma keep_host {q : Path} {b : Bytes} (hq : s.files q = none) :
    (keep q b).run (host t) s = (.ok, s.put q b) := by
  have h1 : host t (.write q b true) s = (.ok, s.put q b) := by simp [host, hq]
  unfold keep
  rw [Program.run_bind, Program.run_ask, h1]
  rfl

/-- Where there is nothing, the end of `Publish` is done. -/
lemma commit_host (hf : ∀ q, s.files q = none) (ha : s.anchor = zeroDigest) {b : Bytes} :
    ∃ s', (commit zeroDigest {} d b).run (host t) s = (.ok, s') ∧ s'.anchor = digest d := by
  have hadvance : ∀ s₁ : World τ, s₁.anchor = zeroDigest →
      host t (.advanceAnchor zeroDigest d (digest d)) s₁ =
        (.ok, { s₁ with anchor := digest d }) := by
    intro s₁ h
    dsimp only [host]
    rw [if_pos h]
  have hcheck : ∀ s₁ : World τ, host t (.checkAnchor d (digest d))
      { s₁ with anchor := digest d } = (.ok, { s₁ with anchor := digest d }) := by
    intro s₁
    dsimp only [host]
    rw [if_pos rfl]
  have hmanifest : (s.put (.snapshot d.payload) b).files (.manifest (digest d)) = none :=
    (put_of_ne (by rintro ⟨⟩)).trans (hf _)
  generalize hs₁ : (((s.put (.snapshot d.payload) b).put (.manifest (digest d))
    (encode d)).put .pending (encode d)) = s₁
  have ha₁ : s₁.anchor = zeroDigest := by
    rw [← hs₁]
    exact ha
  refine ⟨({ s₁ with anchor := digest d } : World τ).put .current (encode d), ?_, rfl⟩
  unfold commit
  rw [Program.run_bind, Program.run_ask, show host t (.validateState d b) s = (.ok, s) from rfl]
  dsimp only
  rw [if_neg (not_not.2 rfl), Program.run_bind, Program.run_ask,
    show host t (.authorize .stage {} d) s = (.ok, s) from rfl]
  dsimp only
  rw [if_neg (not_not.2 rfl), Program.run_bind, keep_host (hf _)]
  dsimp only
  rw [if_neg (not_not.2 rfl), Program.run_bind, keep_host hmanifest]
  dsimp only
  rw [if_neg (not_not.2 rfl), Program.run_bind, Program.run_ask,
    show host t (.write .pending (encode d) false) _ = (.ok, s₁) from Prod.ext rfl hs₁]
  dsimp only
  rw [if_neg (not_not.2 rfl), Program.run_bind, Program.run_ask,
    show host t (.authorize .anchor {} d) s₁ = (.ok, s₁) from rfl]
  dsimp only
  rw [if_neg (not_not.2 rfl), Program.run_bind, Program.run_ask, hadvance s₁ ha₁]
  dsimp only
  rw [if_neg (not_not.2 rfl), Program.run_bind, Program.run_ask, hcheck]
  dsimp only
  rw [if_neg (not_not.2 rfl)]
  rfl

lemma publish_firstCheckpoint :
    ∃ s', (publish zeroDigest firstCheckpoint [7]).run (host t) ({} : World τ) =
        ({ status := .ok }, s') ∧ s'.anchor = digest firstCheckpoint := by
  obtain ⟨s', h1, h2⟩ := commit_host (t := t) (d := firstCheckpoint) (b := [7])
    (s := ({ holder := some t, lockFile := true } : World τ)) (fun _ => rfl) rfl
  refine ⟨s'.release t, ?_, ?_⟩
  · unfold publish
    rw [if_neg (by decide +kernel), Program.run_bind, Program.run_ask,
      show host t .openRoot ({} : World τ) = (.ok, {}) from rfl]
    dsimp only
    rw [if_neg (not_not.2 rfl), Program.run_bind]
    have hlocked : (publishLocked zeroDigest firstCheckpoint [7]).run (host t) ({} : World τ) =
        (.ok, s') := h1
    rw [hlocked]
    rfl
  · rw [← h2]
    unfold World.release
    split <;> rfl

theorem protocol_firstCheckpoint : ∃ ls m, Run (step Unit) (empty Unit) ls m ∧
    m.world.anchor = digest firstCheckpoint ∧ Protocol m := by
  obtain ⟨s', h1, h2⟩ := publish_firstCheckpoint (t := ())
  obtain ⟨ls, hr⟩ := Machine.run_whole_call (M := machine Unit) (m := empty Unit)
    (f := host ()) (t := ()) (.publish zeroDigest firstCheckpoint [7]) (fun _ _ => host_act _ _) rfl
  have hbody : ((machine Unit).body (.publish zeroDigest firstCheckpoint [7]) ()).run (host ())
      (empty Unit).world = (({ status := .ok }, ()), s') := by
    show Program.run (host ())
      (publish zeroDigest firstCheckpoint [7] >>= fun r => pure (r, ())) {} = _
    rw [Program.run_bind, h1]
    rfl
  rw [hbody] at hr
  exact ⟨_, _, hr, h2, protocol hr⟩

end Runs

end NiayanAssurance.CheckpointStore
