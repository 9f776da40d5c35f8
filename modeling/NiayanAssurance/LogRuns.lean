import NiayanAssurance.LogFile
import NiayanAssurance.Lib.Run

/-!
The ledger over any sequence of calls and crashes: the file always stands for a log, nothing
that was acknowledged is ever lost, and a change before the end shows.
-/

namespace NiayanAssurance.LogRuns

open NiayanAssurance.Lib NiayanAssurance.Types
open NiayanAssurance.LogFormat NiayanAssurance.Log NiayanAssurance.LogFile

/-! ### Calls and crashes -/

inductive Call
  | openLog (createIfMissing : Bool) (host : OpenHost)
  | append (e : Entry) (host : WriteHost)
  | repairTail (preservedTail : Digest) (host : RepairHost)
  | close
  | crash (fromStable : Bool) (n : ℕ)

/-- The status, and the record as an append that began to write hands it back. -/
structure Answer where
  status : Outcome
  entry : Option Entry := none

def call (rootId : Identity) (w : World) : Call → World × Answer
  | .openLog create host =>
    let r := openLog w rootId create host
    (r.1, ⟨r.2, none⟩)
  | .append e host =>
    match w with
    | ⟨some f, some j⟩ =>
      let r := j.append f e host
      (⟨some r.2.1, some r.1⟩,
        ⟨r.2.2, if r.2.2 = .ok ∨ r.2.2 = .indeterminate then some (j.next e) else none⟩)
    | w => (w, ⟨.invalidInput, none⟩)
  | .repairTail d host =>
    match w with
    | ⟨some f, some j⟩ =>
      let r := j.repairTail f d host
      (⟨some r.2.1, some r.1⟩, ⟨r.2.2, none⟩)
    | w => (w, ⟨.invalidInput, none⟩)
  | .close => ({ w with journal := none }, ⟨.ok, none⟩)
  | .crash fromStable n => (⟨w.file.map fun f => f.crash fromStable n, none⟩, ⟨.ok, none⟩)

/-- Everything that happened to a log that did not exist at first, and what is left. -/
def life (rootId : Identity) (calls : List Call) : List (Call × Answer) × World :=
  exec (call rootId) ⟨none, none⟩ calls

/-- The records whose append began to write, oldest first. -/
def submitted (l : List (Call × Answer)) : List Entry := l.filterMap fun x => x.2.entry

/-- The records whose append answered `OK`, oldest first. -/
def acknowledged (l : List (Call × Answer)) : List Entry :=
  l.filterMap fun x => if x.2.status = .ok then x.2.entry else none

section Lists

variable {l : List (Call × Answer)} {c : Call} {o : Outcome} {e : Entry}

lemma submitted_none : submitted (l ++ [(c, ⟨o, none⟩)]) = submitted l := by
  simp [submitted, List.filterMap_append]

lemma submitted_some : submitted (l ++ [(c, ⟨o, some e⟩)]) = submitted l ++ [e] := by
  simp [submitted, List.filterMap_append]

lemma acknowledged_none : acknowledged (l ++ [(c, ⟨o, none⟩)]) = acknowledged l := by
  simp [acknowledged, List.filterMap_append]

lemma acknowledged_ok : acknowledged (l ++ [(c, ⟨.ok, some e⟩)]) = acknowledged l ++ [e] := by
  simp [acknowledged, List.filterMap_append]

lemma acknowledged_indeterminate :
    acknowledged (l ++ [(c, ⟨.indeterminate, some e⟩)]) = acknowledged l := by
  simp [acknowledged, List.filterMap_append]

end Lists

/-! ### The invariant -/

/-- What a file holds, as the process sees it and as the medium has it. Both contents are logs
of submitted records, and they share, at least, all that was acknowledged. -/
structure Stores (rootId : Identity) (l : List (Call × Answer)) (f : File) (es : List Entry)
    (tail : Bytes) : Prop where
  cached : Represents rootId f.cached es tail
  began : es.Sublist (submitted l)
  stable : ∃ es' tail', Represents rootId f.stable es' tail' ∧ es'.Sublist (submitted l)
    ∧ ∃ base, base <+: es ∧ base <+: es' ∧ (acknowledged l).Sublist base

structure Holds (rootId : Identity) (l : List (Call × Answer)) (w : World) : Prop where
  absent : w.file = none → w.journal = none ∧ acknowledged l = []
  present : ∀ f, w.file = some f → ∃ es tail, Stores rootId l f es tail
    ∧ ∀ j, w.journal = some j → rootId ≠ zeroIdentity ∧ j.rootId = rootId
      ∧ (j.poisoned = false → Reads j rootId es tail)

section Stores

variable {rootId : Identity} {l l' : List (Call × Answer)} {f : File} {es : List Entry}
  {tail : Bytes} {e : Entry}

lemma stores_empty (rootId : Identity) (h : acknowledged l = []) :
    Stores rootId l File.empty [] [] := by
  have hr : Represents rootId [] [] [] := ⟨.nil rootId, Nat.zero_le _, rfl, by simp⟩
  exact ⟨hr, by simp, [], [], hr, by simp, [], by simp, by simp, by simp [h]⟩

/-- The file is as it was, and the history has at most gained a record that was not
acknowledged. -/
lemma Stores.same (h : Stores rootId l f es tail) (hs : (submitted l).Sublist (submitted l'))
    (ha : acknowledged l' = acknowledged l) : Stores rootId l' f es tail := by
  obtain ⟨hc, hsub, es', tail', hst, hsub', base, hb, hb', hack⟩ := h
  exact ⟨hc, hsub.trans hs, es', tail', hst, hsub'.trans hs, base, hb, hb', ha ▸ hack⟩

/-- **After a crash** the file is a log again, and it has all that was acknowledged. -/
lemma Stores.crash (h : Stores rootId l f es tail) (fromStable : Bool) (n : ℕ) :
    ∃ es' tail', Stores rootId l (f.crash fromStable n) es' tail' := by
  obtain ⟨hc, hsub, es', tail', hst, hsub', base, hb, hb', hack⟩ := h
  obtain ⟨es₁, tail₁, hr, hp, hb₁⟩ := crash_represents hc hst hb hb' fromStable n
  have hs₁ : es₁.Sublist (submitted l) :=
    hp.elim (fun h => h.sublist.trans hsub) fun h => h.sublist.trans hsub'
  exact ⟨es₁, tail₁, hr, hs₁, es₁, tail₁, hr, hs₁, base, hb₁, hb₁, hack⟩

end Stores

section Step

variable {rootId : Identity} {l : List (Call × Answer)} {w : World}

lemma holds_open (h : Holds rootId l w) (create : Bool) (host : OpenHost) :
    Holds rootId (l ++ [(.openLog create host, (call rootId w (.openLog create host)).2)])
      (call rootId w (.openLog create host)).1 := by
  have hsub : (submitted l).Sublist (submitted (l ++ [(.openLog create host,
      ⟨(openLog w rootId create host).2, none⟩)])) := by rw [submitted_none]
  have hack : acknowledged (l ++ [(.openLog create host,
      ⟨(openLog w rootId create host).2, none⟩)]) = acknowledged l := acknowledged_none
  have hstores : ∃ es tail, Stores rootId l (w.file.getD File.empty) es tail := by
    rcases hf : w.file with _ | f
    · exact ⟨[], [], stores_empty rootId (h.absent hf).2⟩
    · obtain ⟨es, tail, hs, -⟩ := h.present f hf
      exact ⟨es, tail, hs⟩
  have hkeep : Holds rootId (l ++ [(.openLog create host,
      ⟨(openLog w rootId create host).2, none⟩)]) w := by
    refine ⟨fun hf => ⟨(h.absent hf).1, hack.trans (h.absent hf).2⟩, fun f hf => ?_⟩
    obtain ⟨es, tail, hs, hj⟩ := h.present f hf
    exact ⟨es, tail, hs.same hsub hack, hj⟩
  -- an open that fails may still leave a new and empty file
  have hfile : w.journal = none → Holds rootId (l ++ [(.openLog create host,
      ⟨(openLog w rootId create host).2, none⟩)]) ⟨some (w.file.getD File.empty), w.journal⟩ := by
    intro hj
    refine ⟨by simp, fun f hf => ?_⟩
    cases hf
    obtain ⟨es, tail, hs⟩ := hstores
    exact ⟨es, tail, hs.same hsub hack, by simp [hj]⟩
  show Holds rootId (l ++ [(.openLog create host, ⟨(openLog w rootId create host).2, none⟩)])
    (openLog w rootId create host).1
  generalize (openLog w rootId create host).2 = o at *
  unfold openLog
  split
  · exact hkeep
  rename_i h1
  push Not at h1
  have hjnone : w.journal = none := by simpa using h1.1
  split
  · exact hkeep
  split
  · split
    · exact hfile hjnone
    · exact hkeep
  rcases hj : examine rootId (w.file.getD File.empty).cached host with o' | j <;>
    simp only [hj]
  · exact hfile hjnone
  · refine ⟨by simp, fun f hf => ?_⟩
    cases hf
    obtain ⟨es, tail, hs⟩ := hstores
    obtain ⟨es', tail', hr, hreads, -⟩ := examine_ok hj
    obtain ⟨rfl, rfl⟩ := hs.cached.unique hr
    refine ⟨es, tail, hs.same hsub hack, fun j' hj' => ?_⟩
    cases hj'
    exact ⟨h1.2, hreads.rootId, fun _ => hreads⟩

lemma holds_append {f : File} {j : Journal} (h : Holds rootId l ⟨some f, some j⟩) (e : Entry)
    (host : WriteHost) :
    Holds rootId (l ++ [(.append e host, (call rootId ⟨some f, some j⟩ (.append e host)).2)])
      (call rootId ⟨some f, some j⟩ (.append e host)).1 := by
  obtain ⟨es, tail, hs, hj⟩ := h.present f rfl
  obtain ⟨hroot, hjr, hreads⟩ := hj j rfl
  have hcases := append_represents hs.cached hreads hroot (append_cases j f e host)
  simp only [call]
  generalize j.append f e host = r at hcases ⊢
  obtain ⟨j', f', o⟩ := r
  dsimp only at hcases ⊢
  rcases hcases with ⟨rfl, rfl, ho, ho'⟩ | ⟨rfl, hp, hi, hst₁, es₁, tail₁, hr₁, hes⟩ |
    ⟨rfl, hp, hst₁, hr₁, hreads₁⟩
  · rw [if_neg (by simp [ho, ho'])]
    refine ⟨by simp, fun f' hf' => ?_⟩
    cases hf'
    exact ⟨es, tail, hs.same (by rw [submitted_none]) acknowledged_none, hj⟩
  · -- the record may be torn, complete, or not there at all
    obtain ⟨hc, hsub, es', tail', hst, hsub', base, hb, hb', hack⟩ := hs
    rw [if_pos (by simp)]
    refine ⟨by simp, fun f'' hf'' => ?_⟩
    cases hf''
    refine ⟨es₁, tail₁, ⟨hr₁, ?_, es', tail', hst₁ ▸ hst, ?_, base, ?_, hb', ?_⟩,
      fun j'' hj'' => ?_⟩
    · rw [submitted_some]
      rcases hes with rfl | rfl
      · exact hsub.trans (List.sublist_append_left _ _)
      · exact hsub.append_right _
    · rw [submitted_some]
      exact hsub'.trans (List.sublist_append_left _ _)
    · rcases hes with rfl | rfl
      · exact hb
      · exact hb.trans (List.prefix_append _ _)
    · rwa [acknowledged_indeterminate]
    · cases hj''
      exact ⟨hroot, hi.trans hjr, fun hn => by rw [hp] at hn; cases hn⟩
  · -- the record is on the medium, and with it all before it
    obtain ⟨-, hsub, es', tail', hst, hsub', base, hb, hb', hack⟩ := hs
    have hsub₁ : (es ++ [j.next e]).Sublist (submitted l ++ [j.next e]) := hsub.append_right _
    rw [if_pos (by simp)]
    refine ⟨by simp, fun f'' hf'' => ?_⟩
    cases hf''
    refine ⟨es ++ [j.next e], [], ⟨hr₁, by rwa [submitted_some], _, _, hst₁ ▸ hr₁,
      by rwa [submitted_some], _, List.prefix_refl _, List.prefix_refl _, ?_⟩, fun j'' hj'' => ?_⟩
    · rw [acknowledged_ok]
      exact (hack.trans hb.sublist).append_right _
    · cases hj''
      exact ⟨hroot, hreads₁.rootId, fun _ => hreads₁⟩

lemma holds_repair {f : File} {j : Journal} (h : Holds rootId l ⟨some f, some j⟩) (d : Digest)
    (host : RepairHost) :
    Holds rootId (l ++ [(.repairTail d host,
        (call rootId ⟨some f, some j⟩ (.repairTail d host)).2)])
      (call rootId ⟨some f, some j⟩ (.repairTail d host)).1 := by
  obtain ⟨es, tail, hs, hj⟩ := h.present f rfl
  obtain ⟨hroot, hjr, hreads⟩ := hj j rfl
  have hcases := repair_represents hs.cached hreads (repair_cases j f d host)
  simp only [call]
  generalize j.repairTail f d host = r at hcases ⊢
  obtain ⟨j', f', o⟩ := r
  dsimp only at hcases ⊢
  obtain ⟨hc, hsub, es', tail', hst, hsub', base, hb, hb', hack⟩ := hs
  rcases hcases with ⟨rfl, rfl, ho⟩ | ⟨rfl, hp, hi, hst₁, hr₁⟩ | ⟨rfl, hp, hst₁, hr₁, hreads₁⟩
  · refine ⟨by simp, fun f' hf' => ?_⟩
    cases hf'
    exact ⟨es, tail, Stores.same ⟨hc, hsub, es', tail', hst, hsub', base, hb, hb', hack⟩
      (by rw [submitted_none]) acknowledged_none, hj⟩
  · refine ⟨by simp, fun f'' hf'' => ?_⟩
    cases hf''
    refine ⟨es, [], ⟨hr₁, by rwa [submitted_none], es', tail', hst₁ ▸ hst,
      by rwa [submitted_none], base, hb, hb', by rwa [acknowledged_none]⟩, fun j'' hj'' => ?_⟩
    cases hj''
    exact ⟨hroot, hi.trans hjr, fun hn => by rw [hp] at hn; cases hn⟩
  · refine ⟨by simp, fun f'' hf'' => ?_⟩
    cases hf''
    refine ⟨es, [], ⟨hr₁, by rwa [submitted_none], es, [], hst₁ ▸ hr₁, by rwa [submitted_none],
      es, List.prefix_refl _, List.prefix_refl _, ?_⟩, fun j'' hj'' => ?_⟩
    · rw [acknowledged_none]
      exact hack.trans hb.sublist
    · cases hj''
      exact ⟨hroot, hreads₁.rootId, fun _ => hreads₁⟩

lemma holds_same (h : Holds rootId l w) {c : Call} {o : Outcome} :
    Holds rootId (l ++ [(c, ⟨o, none⟩)]) w := by
  refine ⟨fun hf => ⟨(h.absent hf).1, acknowledged_none.trans (h.absent hf).2⟩, fun f hf => ?_⟩
  obtain ⟨es, tail, hs, hj⟩ := h.present f hf
  exact ⟨es, tail, hs.same (by rw [submitted_none]) acknowledged_none, hj⟩

/-- **The step of the invariant.** -/
theorem holds_call (h : Holds rootId l w) (c : Call) :
    Holds rootId (l ++ [(c, (call rootId w c).2)]) (call rootId w c).1 := by
  rcases c with ⟨create, host⟩ | ⟨e, host⟩ | ⟨d, host⟩ | _ | ⟨fromStable, n⟩
  · exact holds_open h create host
  · obtain ⟨_ | f, _ | j⟩ := w
    · exact holds_same h
    · exact holds_same h
    · exact holds_same h
    · exact holds_append h e host
  · obtain ⟨_ | f, _ | j⟩ := w
    · exact holds_same h
    · exact holds_same h
    · exact holds_same h
    · exact holds_repair h d host
  · refine ⟨fun hf => ⟨rfl, acknowledged_none.trans (h.absent hf).2⟩, fun f hf => ?_⟩
    obtain ⟨es, tail, hs, -⟩ := h.present f hf
    exact ⟨es, tail, hs.same (by rw [call, submitted_none]) acknowledged_none, by simp [call]⟩
  · refine ⟨fun hf => ⟨rfl, acknowledged_none.trans (h.absent ?_).2⟩, fun f' hf' => ?_⟩
    · simpa [call] using hf
    · obtain ⟨f, hf, rfl⟩ := Option.map_eq_some_iff.mp hf'
      obtain ⟨es, tail, hs, -⟩ := h.present f hf
      obtain ⟨es', tail', hs'⟩ := hs.crash fromStable n
      exact ⟨es', tail', hs'.same (by rw [call, submitted_none]) acknowledged_none,
        by simp [call]⟩

end Step

lemma holds_life (rootId : Identity) (calls : List Call) :
    Holds rootId (life rootId calls).1 (life rootId calls).2 :=
  (run_exec (call rootId) ⟨none, none⟩ calls).history
    ⟨fun _ => ⟨rfl, rfl⟩, fun f hf => by cases hf⟩
    fun _ w c _ _ h hs => by
      have hc := holds_call h c.1
      rw [show call rootId w c.1 = _ from hs] at hc
      exact hc

/-! ### What the ledger guarantees -/

/-- The complete frames of a file. -/
def complete (b : Bytes) : List Bytes := (List.range (b.length / 256)).map (frame b)

structure CrashSafe (rootId : Identity) (calls : List Call) : Prop where
  /-- With no journal open, `Open` answers with the records that are complete. -/
  reopens : (life rootId calls).2.journal = none →
    let f := (life rootId calls).2.file.getD File.empty
    ∃ es tail j, f.cached = frames es ++ tail ∧ tail.length < 256
      ∧ (acknowledged (life rootId calls).1).Sublist es
      ∧ es.Sublist (submitted (life rootId calls).1)
      ∧ openLog (life rootId calls).2 rootId true {} =
        (⟨some f, some j⟩, if tail = [] then .ok else .indeterminate)
      ∧ j.count = es.length ∧ j.tailBytes = tail.length
      ∧ j.lastDigest = ((es.getLast?.map fun e => Sha256.hash (encode e)).getD zeroDigest)
      ∧ ∀ i e, es[i]? = some e → (e.sequence : ℕ) = i + 1 ∧ j.read f (i + 1) .ok = .ok e
  /-- Nothing is appended through a poisoned journal or after a torn tail. -/
  refuses : ∀ f j, (life rootId calls).2 = ⟨some f, some j⟩ →
    j.poisoned = true ∨ j.tailBytes ≠ 0 →
    ∀ e host, j.append f e host = (j, f, .invalidInput)
  /-- A repair takes off the tail whose digest it was given, or nothing. -/
  repairs : ∀ f j, (life rootId calls).2 = ⟨some f, some j⟩ → ∀ d host,
    (j.repairTail f d host).2.1 = f
      ∨ ∃ es tail, f.cached = frames es ++ tail ∧ tail ≠ [] ∧ tail.length < 256
        ∧ Sha256.hash tail = d ∧ (j.repairTail f d host).2.1.cached = frames es
  /-- A file with one of the log's frames in it is refused, unless the frame is in its own
  place and all before it is as in the log. -/
  detects : ∀ f es tail, (life rootId calls).2.file = some f → f.cached = frames es ++ tail →
    tail.length < 256 → ∀ g : Bytes, Sha256.CollisionFree (es.map encode ++ complete g) →
    ∀ i e k, es[i]? = some e → k < g.length / 256 → frame g k = encode e →
    ¬ (k = i ∧ g.take (256 * i) = f.cached.take (256 * i)) →
      examine rootId g {} = .error .corrupt
        ∨ (maxRecords < g.length / 256 ∧ examine rootId g {} = .error .exhausted)

lemma complete_eq {rootId : Identity} {g tail : Bytes} {es : List Entry}
    (h : Represents rootId g es tail) : complete g = es.map encode := by
  refine List.ext_getElem (by simp [complete, h.count_eq]) fun i h1 h2 => ?_
  have hi : i < es.length := by simpa using h2
  simp only [complete, List.getElem_map, List.getElem_range]
  rw [h.bytes, frame_frames (List.getElem?_eq_getElem hi)]

lemma take_records {rootId : Identity} {b tail : Bytes} {es : List Entry}
    (h : Represents rootId b es tail) {n : ℕ} (hn : n ≤ es.length) :
    b.take (256 * n) = frames (es.take n) := by
  conv_lhs => rw [h.bytes, ← List.take_append_drop n es, frames_append, List.append_assoc]
  exact List.take_left' (by rw [length_frames, List.length_take, Nat.min_eq_left hn])

/-- **A frame in a changed file.** When the file is accepted, the frame is in its own place and
all before it is as it was. -/
lemma accepted_agree {rootId : Identity} {b g tail tail' : Bytes} {es es' : List Entry}
    (h : Represents rootId b es tail) (h' : Represents rootId g es' tail')
    (hcf : Sha256.CollisionFree (es.map encode ++ complete g)) {i k : ℕ} {e : Entry}
    (hi : es[i]? = some e) (hk : k < g.length / 256) (hf : frame g k = encode e) :
    k = i ∧ g.take (256 * i) = b.take (256 * i) := by
  rw [complete_eq h'] at hcf
  rw [h'.count_eq] at hk
  have hk' : es'[k]? = some e := by
    rw [List.getElem?_eq_getElem hk, Option.some_inj]
    rw [h'.bytes, frame_frames (List.getElem?_eq_getElem hk)] at hf
    exact encode_injective hf
  obtain ⟨rfl, htake⟩ := h.log.chain.agree h'.log.chain (fun a ha b hb hd =>
    encode_injective (hcf _ (List.mem_append_left _ (List.mem_map_of_mem ha)) _
      (List.mem_append_right _ (List.mem_map_of_mem hb)) hd)) hi hk'
  have hlt := (List.getElem?_eq_some_iff.mp hi).1
  refine ⟨rfl, ?_⟩
  rw [take_records h hlt.le, take_records h' hk.le]
  have := congrArg (List.take i) htake
  rw [List.take_take, List.take_take, Nat.min_eq_left (Nat.le_succ i)] at this
  rw [this]

/-- **The ledger is crash safe.** -/
theorem crash_safe (rootId : Identity) (hr : rootId ≠ zeroIdentity) (calls : List Call) :
    CrashSafe rootId calls := by
  have hh := holds_life rootId calls
  refine ⟨fun hj => ?_, fun f j _ hp e host => ?_, fun f j hw d host => ?_,
    fun f es tail hf hb ht g hcf i e k hi hk hframe hne => ?_⟩
  · have hs : ∃ es tail, Stores rootId (life rootId calls).1
        ((life rootId calls).2.file.getD File.empty) es tail := by
      rcases hf : (life rootId calls).2.file with _ | f
      · exact ⟨[], [], stores_empty rootId (hh.absent hf).2⟩
      · obtain ⟨es, tail, hs, -⟩ := hh.present f hf
        exact ⟨es, tail, hs⟩
    obtain ⟨es, tail, hs⟩ := hs
    obtain ⟨j, hex, hreads, -, hfp⟩ := examine_represents hs.cached
    obtain ⟨es', tail', -, -, base, hb, -, hack⟩ := hs.stable
    refine ⟨es, tail, j, hs.cached.bytes, hs.cached.short, hack.trans hb.sublist, hs.began, ?_,
      hreads.count, hreads.tail, hreads.head, fun i e hi => ⟨hs.cached.log.sequence hi,
      read_eq hs.cached hreads hfp hi⟩⟩
    simp [openLog, hj, hr, hex, hreads.status]
  · unfold Journal.append
    rw [if_pos hp]
  · obtain ⟨es, tail, hs, hj⟩ := hh.present f (by rw [hw])
    obtain ⟨-, -, hreads⟩ := hj j (by rw [hw])
    have hcut : ∀ hp : j.poisoned = false, j.tailBytes ≠ 0 → tail ≠ []
        ∧ f.cached.drop (j.count * 256) = tail
        ∧ (f.truncate (j.count * 256)).cached = frames es := fun hp htail => by
      have hc := (hreads hp).count
      have hl : (frames es).length = j.count * 256 := by rw [length_frames, hc, Nat.mul_comm]
      refine ⟨?_, ?_, ?_⟩
      · rintro rfl
        exact htail (hreads hp).tail
      · rw [hs.cached.bytes, ← hl, List.drop_left]
      · rw [File.truncate, hs.cached.bytes, ← hl, List.take_left]
    have hshort := hs.cached.short
    have hcases := repair_cases j f d host
    generalize j.repairTail f d host = r at hcases ⊢
    obtain ⟨j', f', o⟩ := r
    dsimp only at hcases ⊢
    rcases hcases with ho | ⟨hp, hi, hcount, hpj, ht, hl, hd⟩ |
      ⟨hp, hf, hi, hcount, hh, ht', hpj, ht, hl, hd⟩
    · exact .inl rfl
    · obtain ⟨h1, h2, h3⟩ := hcut hpj ht
      rw [h2, List.take_of_length_le hshort.le] at hd
      exact .inr ⟨es, tail, hs.cached.bytes, h1, hshort, hd, h3⟩
    · obtain ⟨h1, h2, h3⟩ := hcut hpj ht
      rw [h2, List.take_of_length_le hshort.le] at hd
      exact .inr ⟨es, tail, hs.cached.bytes, h1, hshort, hd, h3⟩
  · obtain ⟨es', tail', hs, -⟩ := hh.present f hf
    obtain ⟨rfl, rfl⟩ := frames_unique (hb.symm.trans hs.cached.bytes) ht hs.cached.short
    rcases hex : examine rootId g {} with o | j
    · rcases examine_error hex with ⟨rfl, hmax⟩ | ⟨rfl, -⟩
      · exact .inr ⟨hmax, rfl⟩
      · exact .inl rfl
    · obtain ⟨es'', tail'', hg, -⟩ := examine_ok hex
      exact absurd (accepted_agree hs.cached hg hcf hi hk hframe) hne

/-! ### One record over and over -/

theorem crash_safe_torn : CrashSafe (Block.fill 16 1)
    [.openLog true {},
      .append { kind := 1, rootId := Block.fill 16 1, operationId := Block.fill 16 2 } {},
      .append { kind := 2, rootId := Block.fill 16 1, operationId := Block.fill 16 2 }
        ⟨true, .short 100⟩,
      .crash false 300, .openLog false {}, .repairTail zeroDigest {}, .close] :=
  crash_safe (Block.fill 16 1) (by decide) _

def sameEntry : Entry := { kind := 1, rootId := Block.fill 16 1, operationId := Block.fill 16 2 }

/-- A new ledger to which one record is appended `n` times. -/
def appends (n : ℕ) : List Call := .openLog true {} :: List.replicate n (.append sameEntry {})

lemma appends_succ (n : ℕ) : appends (n + 1) = appends n ++ [.append sameEntry {}] := by
  simp [appends, List.replicate_succ']

lemma life_appends (n : ℕ) (hn : n ≤ maxRecords) : ∃ f j es,
    (life (Block.fill 16 1) (appends n)).2 = ⟨some f, some j⟩ ∧ es.length = n
      ∧ Represents (Block.fill 16 1) f.cached es [] ∧ Reads j (Block.fill 16 1) es []
      ∧ j.poisoned = false ∧ j.filePoisoned = false := by
  induction n with
  | zero =>
    have hr : Represents (Block.fill 16 1) [] [] [] := ⟨.nil _, Nat.zero_le _, rfl, by simp⟩
    obtain ⟨j, hex, hreads, hp, hf⟩ := examine_represents hr
    refine ⟨File.empty, j, [], ?_, rfl, hr, hreads, hp, hf⟩
    have hroot : Block.fill 16 1 ≠ zeroIdentity := by decide
    show (openLog ⟨none, none⟩ (Block.fill 16 1) true {}).1 = _
    unfold openLog
    rw [if_neg (by simpa using hroot), if_neg (by simp), if_neg (by simp)]
    simp only [Option.getD_none]
    rw [show File.empty.cached = [] from rfl, hex]
  | succ n ih =>
    obtain ⟨f, j, es, hw, hl, hrep, hreads, hp, hf⟩ := ih (by omega)
    obtain ⟨j', ha, hrep', hreads', hp', hf'⟩ := append_done hrep hreads hp hf (by omega)
      (by decide : (sameEntry.kind : ℕ) ≠ 0) (by decide) rfl (by decide)
    refine ⟨_, j', _, ?_, by simp [hl], hrep', hreads', hp', hf'⟩
    rw [life, appends_succ, exec_snoc]
    show (call (Block.fill 16 1) (life (Block.fill 16 1) (appends n)).2 _).1 = _
    rw [hw]
    simp only [call, ha]

/-- **Two changes that are not seen as corruption.** A log cut back to its first record is a
log; and a record too many is refused for the number of records. -/
theorem not_corrupt :
    (∃ f j es j', (life (Block.fill 16 1) (appends 3)).2 = ⟨some f, some j⟩ ∧ es.length = 3
        ∧ f.cached = frames es ∧ examine (Block.fill 16 1) (frames (es.take 1)) {} = .ok j'
        ∧ j'.status = .ok)
      ∧ ∃ f j es, (life (Block.fill 16 1) (appends maxRecords)).2 = ⟨some f, some j⟩
        ∧ es.length = maxRecords ∧ f.cached = frames es
        ∧ examine (Block.fill 16 1) (f.cached ++ f.cached.take 256) {} = .error .exhausted := by
  constructor
  · obtain ⟨f, j, es, hw, hl, hrep, -⟩ := life_appends 3 (by decide)
    have hone : Represents (Block.fill 16 1) (frames (es.take 1)) (es.take 1) [] :=
      ⟨hrep.log.take 1, by rw [List.length_take, hl]; decide, by simp, by simp⟩
    obtain ⟨j', hex, hreads, -⟩ := examine_represents hone
    exact ⟨f, j, es, j', hw, hl, by rw [hrep.bytes, List.append_nil], hex, hreads.status⟩
  · obtain ⟨f, j, es, hw, hl, hrep, -⟩ := life_appends maxRecords le_rfl
    have hlen : f.cached.length = 256 * maxRecords := by
      rw [hrep.bytes, List.append_nil, length_frames, hl]
    refine ⟨f, j, es, hw, hl, by rw [hrep.bytes, List.append_nil], ?_⟩
    have hmore : maxRecords < (f.cached ++ f.cached.take 256).length / 256 := by
      rw [List.length_append, List.length_take, hlen]
      unfold maxRecords
      omega
    unfold examine
    rw [if_neg (by simp), dif_pos hmore]

end NiayanAssurance.LogRuns
