import NiayanAssurance.GateBarrier

/-!
An unknown outcome is remembered until a recovery of the same work has ended well, unless a
recovery fails for certain: then the ledger has nothing pending any more.
-/

namespace NiayanAssurance.GateUnknown

open NiayanAssurance.Lib NiayanAssurance.Types NiayanAssurance.LogFormat
open NiayanAssurance.Log hiding World
open NiayanAssurance.Protocol NiayanAssurance.Requests NiayanAssurance.Ingress
open NiayanAssurance.Replay NiayanAssurance.SitePolicy NiayanAssurance.LogFile
open NiayanAssurance.RequestReplay NiayanAssurance.ReplaySpec
open NiayanAssurance.Gate hiding genesis
open NiayanAssurance.GateSpec NiayanAssurance.GateLedger NiayanAssurance.GateRuns
open NiayanAssurance.GateBarrier

/-! ### Unknown outcomes -/

/-- The request of the admission `a` has an unknown outcome, or has not ended. -/
def Unresolved (es : List Entry) (a : Entry) : Prop :=
  (∃ u ∈ es, u.kind = unknownOutcome ∧ RequestReplay.windowOf u = RequestReplay.windowOf a)
    ∨ ∀ t ∈ es, RequestReplay.windowOf t = RequestReplay.windowOf a → t.kind = begun

/-- A recovery of the work of `a`, admitted after it, has ended well. -/
def Resolved (files : Name → Option Bytes) (a : Entry) (later : List Entry) : Prop :=
  ∃ c e r r', c ∈ admissions later ∧ e ∈ later ∧ e.kind = knownOk
    ∧ RequestReplay.windowOf e = RequestReplay.windowOf c ∧ Recorded files a r
    ∧ Recorded files c r' ∧ Recovery r'.action ∧ SameWork r' r

/-- After a request whose outcome is unknown, only a recovery of its work is admitted until one
has ended well. -/
def Remembers (files : Name → Option Bytes) (es : List Entry) : Prop :=
  ∀ pre a mid b post, es = pre ++ a :: mid ++ b :: post → a.kind = begun → b.kind = begun →
    Unresolved (pre ++ a :: mid) a → Resolved files a mid
      ∨ ∃ r r', Recorded files a r ∧ Recorded files b r' ∧ Recovery r'.action ∧ SameWork r' r

/-- What is unresolved is pending, as the work of the newest request. -/
def Guarded (files : Name → Option Bytes) (es : List Entry) : Prop :=
  ∀ pre a mid, es = pre ++ a :: mid → a.kind = begun → Unresolved es a →
    Resolved files a mid ∨ unsettled es = true ∧ ∃ n r r', newest es = some n
      ∧ Recorded files a r ∧ Recorded files n r' ∧ SameWork r' r

section Ledgers

variable {fp : Digest} {files files' : Name → Option Bytes} {es es' later later' : List Entry}
  {a b e : Entry} {r : Request}

lemma resolved_mono (h : Resolved files a later) (hf : Directory.Extends files files') :
    Resolved files' a later := by
  obtain ⟨c, e, r, r', h1, h2, h3, h4, h5, h6, h7⟩ := h
  exact ⟨c, e, r, r', h1, h2, h3, h4, h5.mono hf, h6.mono hf, h7⟩

lemma resolved_append (h : Resolved files a later) (more : List Entry) :
    Resolved files a (later ++ more) := by
  obtain ⟨c, e, r, r', h1, h2, h3⟩ := h
  refine ⟨c, e, r, r', ?_, List.mem_append_left _ h2, h3⟩
  rw [admissions_append]
  exact List.mem_append_left _ h1

lemma guarded_mono (h : Guarded files es) (hf : Directory.Extends files files') :
    Guarded files' es := by
  intro pre a mid hes ha hu
  rcases h pre a mid hes ha hu with h | ⟨h, n, r, r', h1, h2, h3, h4⟩
  · exact .inl (resolved_mono h hf)
  · exact .inr ⟨h, n, r, r', h1, h2.mono hf, h3.mono hf, h4⟩

/-- A record more leaves what it does not speak of as it was. -/
lemma unresolved_of_snoc (h : Unresolved (es ++ [e]) a)
    (he : RequestReplay.windowOf e ≠ RequestReplay.windowOf a ∨ e.kind = begun) :
    Unresolved es a := by
  rcases h with ⟨u, hu, hk, hw⟩ | h
  · rcases List.mem_append.mp hu with hu | hu
    · exact .inl ⟨u, hu, hk, hw⟩
    · rw [List.mem_singleton.mp hu] at hk hw
      rcases he with he | he
      · exact absurd hw he
      · exact absurd (he.symm.trans hk) (by decide)
  · exact .inr fun t ht => h t (List.mem_append_left _ ht)

/-- What is unresolved can be taken for pending, so that the rule of the newest request is the
rule of all. -/
theorem Guarded.remembers (hl : Ledger fp files es)
    (h : ∀ pre, pre <+: es → Guarded files pre) : Remembers files es := by
  intro pre a mid b post hes ha hb hu
  have hpre : pre ++ a :: mid <+: es := ⟨b :: post, hes.symm⟩
  rcases h _ hpre pre a mid rfl ha hu with h | ⟨hp, n, r, r', hn, hr, hr', hsame⟩
  · exact .inl h
  · obtain ⟨rb, hrb, hadm⟩ := hl.barrier _ b post hes hb
    obtain ⟨n', r'', hn', hr'', hrec, hsame'⟩ := hadm hp
    obtain rfl := Option.some.inj (hn.symm.trans hn')
    obtain rfl := hr''.unique hr'
    exact .inr ⟨r, rb, hr, hrb, hrec, SameWork.trans hsame' hsame⟩

/-- The records before an admission are of other requests. -/
lemma window_new (hl : Ledger fp files (es ++ [b])) (hb : b.kind = begun) {u : Entry}
    (hu : u ∈ es) (hk : u.kind ≠ genesis) :
    RequestReplay.windowOf u ≠ RequestReplay.windowOf b := by
  intro hw
  obtain ⟨c, hc, hcw⟩ := (hl.of_prefix (List.prefix_append _ _)).owned hu hk
  obtain ⟨s, hs⟩ := hl.replays.resolve_right fun ⟨_, g, hg, hgk⟩ => by
    have hmem : b ∈ [g] := hg ▸ List.mem_append_right _ (List.mem_singleton_self b)
    rw [List.mem_singleton.mp hmem, hgk] at hb
    exact absurd hb (by decide)
  have hord := (replay_tells hs).ordered
  rw [admissions_begun hb, List.pairwise_append] at hord
  have hlt := hord.2.2 c hc b (List.mem_singleton_self b)
  rw [hcw, hw] at hlt
  exact Window.Before.irrefl _ hlt

/-! ### One record -/

/-- An admission guards what it is let past. -/
lemma guarded_begun (hl : Ledger fp files (es ++ [e])) (h : Guarded files es)
    (he : e.kind = begun) : Guarded files (es ++ [e]) := by
  have hpend : unsettled (es ++ [e]) = true := by rw [unsettled_snoc]; simp [he]
  have hnew : newest (es ++ [e]) = some e := newest_begun he
  obtain ⟨re, hre, hadm⟩ := hl.barrier es e [] rfl he
  intro pre a mid hes ha hu
  rcases snoc_split hes with ⟨rfl, rfl, rfl⟩ | ⟨mid', rfl, rfl⟩
  · exact .inr ⟨hpend, a, re, re, hnew, hre, hre, rfl, rfl⟩
  rcases h pre a mid' rfl ha (unresolved_of_snoc hu (.inr he)) with
    h | ⟨hp, n, r, r', hn, hr, hr', hsame⟩
  · exact .inl (resolved_append h _)
  · obtain ⟨n', r'', hn', hr'', -, hsame'⟩ := hadm hp
    obtain rfl := Option.some.inj (hn.symm.trans hn')
    obtain rfl := hr''.unique hr'
    exact .inr ⟨hpend, e, r, re, hnew, hr, hre, SameWork.trans hsame' hsame⟩

/-- A request that has ended for good is not unresolved. -/
lemma resolved_of_known (hl : Ledger fp files (es ++ [b])) (hb : b.kind = begun) (hk : Known e)
    (hw : RequestReplay.windowOf e = RequestReplay.windowOf b) :
    ¬ Unresolved (es ++ [b] ++ [e]) b := by
  rintro (⟨u, hu, huk, huw⟩ | h)
  · rcases List.mem_append.mp hu with hu | hu
    · rcases List.mem_append.mp hu with hu | hu
      · exact window_new hl hb hu (by rw [huk]; decide) huw
      · rw [List.mem_singleton.mp hu, hb] at huk
        exact absurd huk (by decide)
    · rw [List.mem_singleton.mp hu] at huk
      rcases hk with hk | hk <;> rw [hk] at huk <;> exact absurd huk (by decide)
  · exact hk.not_begun (h e (by simp) hw)

/-- The end `e` of the request that was admitted by the last record `b`. A failure for certain
must not follow a pending request. -/
lemma guarded_ended (hl : Ledger fp files (es ++ [b])) (h : Guarded files (es ++ [b]))
    (h₀ : Guarded files es) (hb : b.kind = begun)
    (hk : e.kind = knownOk ∨ e.kind = unknownOutcome ∨ e.kind = knownFailure
      ∧ unsettled es = false)
    (hw : RequestReplay.windowOf e = RequestReplay.windowOf b) :
    Guarded files (es ++ [b] ++ [e]) := by
  have hne : e.kind ≠ begun := by
    rcases hk with hk | hk | ⟨hk, -⟩ <;> rw [hk] <;> decide
  have hnew : newest (es ++ [b] ++ [e]) = some b := by rw [newest_other hne, newest_begun hb]
  have hpend : e.kind = unknownOutcome → unsettled (es ++ [b] ++ [e]) = true := fun h => by
    rw [unsettled_snoc]
    simp [h]
  obtain ⟨rb, hrb, hadm⟩ := hl.barrier es b [] rfl hb
  intro pre a mid hes ha hu
  rcases snoc_split hes with ⟨-, rfl, -⟩ | ⟨mid', rfl, hes'⟩
  · exact absurd ha hne
  rcases snoc_split hes' with ⟨rfl, rfl, rfl⟩ | ⟨mid'', rfl, rfl⟩
  · -- its own admission: it is unresolved only if its outcome is unknown
    rcases hk with hk | hk | ⟨hk, -⟩
    · exact absurd hu (resolved_of_known hl ha (.inl hk) hw)
    · exact .inr ⟨hpend hk, a, rb, rb, hnew, hrb, hrb, rfl, rfl⟩
    · exact absurd hu (resolved_of_known hl ha (.inr hk) hw)
  · -- an earlier admission
    have hab : RequestReplay.windowOf e ≠ RequestReplay.windowOf a := by
      rw [hw]
      exact (window_new hl hb (by simp) (by rw [ha]; decide)).symm
    have hu₁ := unresolved_of_snoc hu (.inl hab)
    cases hp : unsettled (pre ++ a :: mid'') with
    | false =>
      rcases h₀ pre a mid'' rfl ha (unresolved_of_snoc hu₁ (.inr hb)) with hr | ⟨hp', -⟩
      · exact .inl (resolved_append (resolved_append hr _) _)
      · rw [hp] at hp'
        cases hp'
    | true =>
      rcases h pre a (mid'' ++ [b]) (by simp) ha hu₁ with hr | ⟨-, n, r, r', hn, hra, hrn, hsame⟩
      · exact .inl (resolved_append hr _)
      obtain rfl : b = n := Option.some.inj ((newest_begun hb).symm.trans hn)
      rcases hk with hk | hk | ⟨-, hk⟩
      · -- what was let past the pending request is its recovery, and it has ended well
        obtain ⟨-, -, -, -, hrec, -⟩ := hadm hp
        obtain rfl := hrn.unique hrb
        exact .inl ⟨b, e, r, r', mem_admissions.mpr ⟨by simp, hb⟩, by simp, hk, hw, hra, hrn, hrec,
          hsame⟩
      · exact .inr ⟨hpend hk, b, r, r', hnew, hra, hrn, hsame⟩
      · rw [hp] at hk
        cases hk

/-- What a call may add leaves the ledger guarded, if it adds no failure to what was let past
a pending request. -/
lemma guarded_adds {holder : Option (ℕ × Session)} {op : Operation} {es₁ : List Entry}
    (hl : Ledger fp files es') (h : ∀ pre, pre <+: es → Guarded files pre)
    (ha : Adds holder es op es₁) (hp : es' <+: es₁)
    (hcare : ∀ id result host s, op = .finish id result host → holder = some (id, s) →
      s.admitted = true → result = .ok ∨ result = .indeterminate ∨ unsettled es.dropLast = false) :
    ∀ pre, pre <+: es' → Guarded files pre := by
  intro pre hpre
  have hlp := hl.of_prefix hpre
  have hpre := hpre.trans hp
  have hbegun : ∀ {b : Entry}, b.kind = begun → ∀ pre, Ledger fp files pre → pre <+: es ++ [b] →
      Guarded files pre := by
    intro b hb pre hlp hpre
    rcases List.prefix_concat_iff.mp hpre with rfl | hpre
    · exact guarded_begun hlp (h es (List.prefix_refl _)) hb
    · exact h pre hpre
  cases ha with
  | nothing => exact h pre hpre
  | begun hb => exact hbegun hb pre hlp hpre
  | @repaired _ _ b u hb hu hw =>
    rcases List.prefix_concat_iff.mp hpre with rfl | hpre
    · have hlb := hlp.of_prefix (List.prefix_append _ _)
      exact guarded_ended hlb (hbegun hb _ hlb (List.prefix_refl _)) (h es (List.prefix_refl _)) hb
        (.inr (.inl hu)) hw
    · exact hbegun hb pre hlp hpre
  | @finished id result host s b e hs ha hlast hb hk hw =>
    obtain ⟨es₀, rfl⟩ := List.getLast?_eq_some_iff.mp hlast
    rcases List.prefix_concat_iff.mp hpre with rfl | hpre
    · refine guarded_ended (hlp.of_prefix (List.prefix_append _ _)) (h _ (List.prefix_refl _))
        (h _ (List.prefix_append _ _)) hb ?_ hw
      have hc := hcare id result host s rfl hs ha
      rw [List.dropLast_concat] at hc
      rw [hk, terminal]
      rcases hc with rfl | rfl | hc
      · simp
      · simp
      · by_cases h1 : result = .ok
        · simp [h1]
        by_cases h2 : result = .indeterminate
        · simp [h2]
        · simp [h1, h2, hc]
    · exact h pre hpre

end Ledgers

/-! ### Every run -/

/-- No request that was let past a pending one fails for certain: the session that is closed
was not admitted while the records before its own were pending. -/
def Careful (w : World) : Operation → Prop
  | .finish id result _ => ∀ s, w.holder = some (id, s) → s.admitted = true →
    ∀ rootId es tail, Represents rootId w.log.cached es tail →
      result = .ok ∨ result = .indeterminate ∨ unsettled es.dropLast = false
  | _ => True

def CarefulRun (good : VerifyDetached) (host : ProvisionHost) (calls : List Call) : Prop :=
  ∀ pre c post l w, calls = pre ++ c :: post → life good host pre = some (l, w) →
    Careful w c.operation

def RemembersUnknown (good : VerifyDetached) (host : ProvisionHost) (calls : List Call) : Prop :=
  ∀ l w, life good host calls = some (l, w) → ∃ rootId es tail,
    Represents rootId w.log.cached es tail ∧ Remembers w.directory.stable es

/-- **An unknown outcome is remembered** in a run in which no recovery fails for certain. -/
theorem remembers_unknown (good : VerifyDetached) (host : ProvisionHost) (calls : List Call)
    (hcf : Sha256.CollisionFree (policyFiles calls)) (hcare : CarefulRun good host calls) :
    RemembersUnknown good host calls := by
  intro l w hl
  obtain ⟨w₀, hw₀, hx⟩ := Option.map_eq_some_iff.mp hl
  obtain ⟨p, d, es₀, tail₀, -, h₀, hnone⟩ := holds_provision hw₀
  have hcert : ∀ c ∈ calls, Certain c := fun c hc => certain_of hcf hc
  suffices hinv : ∃ es tail base, Holds p.rootId d w es tail base
      ∧ ∀ pre, pre <+: es → Guarded w.directory.stable pre by
    obtain ⟨es, tail, base, hh, hg⟩ := hinv
    exact ⟨p.rootId, es, tail, hh.cached, Guarded.remembers hh.ledger hg⟩
  clear hcf hl
  induction calls using List.reverseRecOn generalizing l w with
  | nil =>
    cases hx
    refine ⟨es₀, tail₀, [], h₀, ?_⟩
    rintro _ ⟨rest, rfl⟩ pre a mid rfl ha
    have hmem : a ∈ admissions (pre ++ a :: mid ++ rest) := mem_admissions.mpr ⟨by simp, ha⟩
    rw [hnone] at hmem
    cases hmem
  | append_singleton calls c ih =>
    have hlife : life good host calls = some (exec (call good) w₀ calls) := by
      rw [life, hw₀, Option.map_some]
    obtain ⟨es, tail, base, hh, hg⟩ := ih
      (fun pre c' post l' w' hc hl => hcare pre c' (post ++ [c]) l' w' (by rw [hc]; simp) hl)
      _ _ rfl fun c hc => hcert c (List.mem_append_left _ hc)
    rw [exec_snoc] at hx
    obtain ⟨rfl, rfl⟩ := Prod.mk.inj hx
    obtain ⟨es', tail', base', hh', -, ⟨es₁, hadds, hpre⟩, -⟩ :=
      holds_call good hh c (hcert c (by simp))
    refine ⟨es', tail', base', hh', ?_⟩
    have hf := files_call good hh.files c
    refine guarded_adds hh'.ledger (fun pre hp => guarded_mono (hg pre hp) hf) hadds hpre ?_
    intro id result host' s hop hs ha
    have hc := hcare calls c [] _ _ (by simp) hlife
    rw [hop] at hc
    exact hc s hs ha _ _ _ hh.cached

lemma repaired_careful : CarefulRun signed siteHost repaired := by
  intro pre c post l w hc _
  have hmem : c ∈ repaired := hc ▸ List.mem_append_right _ List.mem_cons_self
  simp only [repaired, List.mem_cons, List.not_mem_nil, or_false] at hmem
  rcases hmem with rfl | rfl | rfl | rfl
  · trivial
  · exact fun _ _ _ _ _ _ _ => .inr (.inl rfl)
  · trivial
  · trivial

theorem remembers_unknown_repaired : RemembersUnknown signed siteHost repaired :=
  remembers_unknown signed siteHost repaired repaired_collisionFree repaired_careful

/-! ### A recovery that fails -/

/-- The outcome of the first transaction is unknown, its recovery fails, and the second one is
applied. -/
def forgotten : List Call :=
  [⟨.begin 0 applyFirst beginHost, none⟩, ⟨.finish 0 .indeterminate {}, none⟩, ⟨.close 0, none⟩,
    ⟨.begin 0 recoverFirst beginHost, none⟩, ⟨.finish 0 .ioError {}, none⟩, ⟨.close 0, none⟩,
    ⟨.begin 0 applySecond beginHost, none⟩]

set_option maxRecDepth 10000 in
lemma forgotten_seen : (life signed siteHost forgotten).map (fun r =>
      (seen r, r.2.directory.stable (.request (Block.fill 16 3)))) = some
    ({ answers := [some ⟨.ok, some .newRequest, some .ok⟩, some ⟨.ok, none, none⟩,
        some ⟨.ok, none, none⟩, some ⟨.ok, some .newRequest, some .indeterminate⟩,
        some ⟨.ok, none, none⟩, some ⟨.ok, none, none⟩,
        some ⟨.ok, some .newRequest, some .ioError⟩]
       free := false
       size := 1536
       records := [some (genesis, genesisWindow, 1), some (begun, applyFirstWindow, 1),
         some (unknownOutcome, applyFirstWindow, 1), some (begun, recoverFirstWindow, 1),
         some (knownFailure, recoverFirstWindow, 1), some (begun, applySecondWindow, 1)] },
      some applySecond.envelope) := by decide +kernel

lemma applySecond_action {r : Request}
    (h : Requests.decode (range applySecond.envelope 161 352) = .ok r) : r.action = .apply := by
  have hc : (Requests.decode (range applySecond.envelope 161 352)).toOption.map (·.action)
      = some .apply := by decide +kernel
  rw [h] at hc
  exact Option.some.inj hc

/-- **An unknown outcome is forgotten** when its recovery fails: the second transaction is
admitted as new. -/
theorem unknown_forgotten : ∃ l w rootId es, life signed siteHost forgotten = some (l, w)
    ∧ Represents rootId w.log.cached es [] ∧ ¬ Remembers w.directory.stable es
    ∧ (l.map fun x => x.2).getLast? = some (some ⟨.ok, some .newRequest, some .ioError⟩) := by
  obtain ⟨⟨l, w⟩, hl, hsee⟩ := Option.map_eq_some_iff.mp forgotten_seen
  obtain ⟨hseen, hfile⟩ := Prod.mk.inj hsee
  obtain ⟨p, d, es, tail, base, -, hh, -⟩ :=
    holds_life (show Sha256.CollisionFree (policyFiles forgotten) by simp [policyFiles, forgotten,
      Sha256.CollisionFree]) hl
  obtain ⟨hans, -, hsize, -⟩ := Seen.mk.inj hseen
  have hrec := (seen_records (l := l) hh.cached).symm.trans (congrArg Seen.records hseen)
  have htail : tail = [] := by
    have := hh.cached.tail_eq
    rw [hsize] at this
    exact List.length_eq_zero_iff.mp this.symm
  subst htail
  refine ⟨l, w, p.rootId, es, hl, hh.cached, fun hrem => ?_, by rw [hans]; rfl⟩
  obtain ⟨g, a, u, b, f, c, rfl⟩ : ∃ g a u b f c, es = [g, a, u, b, f, c] := by
    have hlen : es.length = 6 := by simpa using congrArg List.length hrec
    rcases es with _ | ⟨g, _ | ⟨a, _ | ⟨u, _ | ⟨b, _ | ⟨f, _ | ⟨c, _ | ⟨x, es⟩⟩⟩⟩⟩⟩⟩ <;>
      simp at hlen
    exact ⟨g, a, u, b, f, c, rfl⟩
  simp only [List.map_cons, List.map_nil, List.cons.injEq, Option.some.injEq, Prod.mk.injEq,
    and_true] at hrec
  obtain ⟨-, ⟨ha, hwa, -⟩, ⟨hu, hwu, -⟩, ⟨hb, -, -⟩, ⟨hf, -, -⟩, hc, hwc, -⟩ := hrec
  have hun : Unresolved [g, a, u, b, f] a := .inl ⟨u, by simp, hu, hwu.trans hwa.symm⟩
  rcases hrem [g] a [u, b, f] c [] rfl ha hc hun with hres | ⟨r, r', -, hrec, hact, -⟩
  · -- no request after the first one has ended well
    obtain ⟨-, e, -, -, -, he, hk, -⟩ := hres
    simp only [List.mem_cons, List.not_mem_nil, or_false] at he
    rcases he with rfl | rfl | rfl
    · exact absurd (hu.symm.trans hk) (by decide)
    · exact absurd (hb.symm.trans hk) (by decide)
    · exact absurd (hf.symm.trans hk) (by decide)
  · -- and the second transaction is not its recovery
    obtain ⟨env, hdr, henv, -, -, -, hdec⟩ := hrec
    rw [show c.operationId = Block.fill 16 3 from congrArg Window.requestId hwc, hfile] at henv
    obtain rfl := Option.some.inj henv
    rw [applySecond_action hdec] at hact
    exact absurd hact (by decide)

end NiayanAssurance.GateUnknown
