import NiayanAssurance.Log
import NiayanAssurance.Lib.HashChain

/-!
What a ledger file stands for: a chain of records, and less than one record's bytes after it.
-/

namespace NiayanAssurance.LogFile

open NiayanAssurance.Lib NiayanAssurance.Types
open NiayanAssurance.LogFormat NiayanAssurance.Log

/-- How the records of a ledger refer to each other. -/
def links : Links Entry Digest where
  digest e := Sha256.hash (encode e)
  previous e := e.previous
  sequence e := e.sequence
  genesis := zeroDigest

def frames (es : List Entry) : Bytes := es.flatMap encode

/-- The records of a root, in order. -/
structure IsLog (rootId : Identity) (es : List Entry) : Prop where
  chain : links.Chain es
  filled : ∀ e ∈ es, Filled e ∧ e.rootId = rootId

/-- The content `b` is the records `es` and a torn `tail`. -/
structure Represents (rootId : Identity) (b : Bytes) (es : List Entry) (tail : Bytes) :
    Prop where
  log : IsLog rootId es
  count_le : es.length ≤ maxRecords
  bytes : b = frames es ++ tail
  short : tail.length < 256

section Frames

variable {es : List Entry} {e : Entry} {b tail : Bytes} {i n : ℕ}

@[simp] lemma frames_nil : frames [] = [] := rfl

@[simp] lemma frames_append (es es' : List Entry) :
    frames (es ++ es') = frames es ++ frames es' := by
  simp [frames]

@[simp] lemma frames_single (e : Entry) : frames [e] = encode e := by simp [frames]

@[simp] lemma length_frames (es : List Entry) : (frames es).length = 256 * es.length := by
  induction es with
  | nil => rfl
  | cons e es ih =>
    have h : frames (e :: es) = encode e ++ frames es := by simp [frames]
    rw [h, List.length_append, ih, length_encode, List.length_cons]
    omega

lemma frame_frames (hi : es[i]? = some e) : frame (frames es ++ tail) i = encode e := by
  obtain ⟨hlt, rfl⟩ := List.getElem?_eq_some_iff.mp hi
  have hsplit : frames es ++ tail =
      frames (es.take i) ++ (encode es[i] ++ (frames (es.drop (i + 1)) ++ tail)) := by
    conv_lhs => rw [← List.take_append_drop i es, List.drop_eq_getElem_cons hlt,
      ← List.singleton_append, frames_append, frames_append, frames_single]
    simp only [List.append_assoc]
  have hlen : (frames (es.take i)).length = i * 256 := by
    rw [length_frames, List.length_take, Nat.min_eq_left hlt.le, Nat.mul_comm]
  rw [frame, hsplit, range_right (by omega), hlen, show i * 256 + 1 - i * 256 = 1 by omega]
  exact range_head (by rw [length_encode]; omega)

lemma take_succ_frame (b : Bytes) (n : ℕ) :
    b.take (256 * (n + 1)) = b.take (256 * n) ++ frame b n := by
  have h1 : range b 1 (256 * n) ++ range b (256 * n + 1) (256 * (n + 1)) =
      range b 1 (256 * (n + 1)) := range_append_range (by omega) (by omega)
  rw [frame, Nat.mul_comm n, Nat.mul_comm (n + 1)]
  simpa [range] using h1.symm

/-- A content cut short is fewer records and another tail. -/
lemma take_frames (n : ℕ) : (frames es ++ tail).take n =
    frames (es.take (n / 256)) ++
      ((frames es ++ tail).take n).drop (256 * (es.take (n / 256)).length) := by
  conv_lhs => rw [← List.take_append_drop (256 * (es.take (n / 256)).length)
    ((frames es ++ tail).take n)]
  congr 1
  have hk : 256 * (es.take (n / 256)).length ≤ n := by
    rw [List.length_take]
    omega
  have hes : frames es ++ tail =
      frames (es.take (n / 256)) ++ (frames (es.drop (n / 256)) ++ tail) := by
    conv_lhs => rw [← List.take_append_drop (n / 256) es, frames_append, List.append_assoc]
  rw [List.take_take, Nat.min_eq_left hk, hes]
  exact List.take_left' (length_frames _)

end Frames

lemma IsLog.nil (rootId : Identity) : IsLog rootId [] := ⟨.nil, by simp⟩

lemma IsLog.take {rootId : Identity} {es : List Entry} (h : IsLog rootId es) (n : ℕ) :
    IsLog rootId (es.take n) :=
  ⟨h.chain.take n, fun e he => h.filled e (List.mem_of_mem_take he)⟩

lemma IsLog.sequence {rootId : Identity} {es : List Entry} (h : IsLog rootId es) {i : ℕ}
    {e : Entry} (hi : es[i]? = some e) : (e.sequence : ℕ) = i + 1 :=
  h.chain.sequence_eq hi

/-- **Any crash leaves a log.** -/
theorem Represents.take {rootId : Identity} {b : Bytes} {es : List Entry} {tail : Bytes}
    (h : Represents rootId b es tail) (n : ℕ) :
    ∃ tail', Represents rootId (b.take n) (es.take (n / 256)) tail' := by
  refine ⟨_, h.log.take _, ?_, by rw [h.bytes]; exact take_frames n, ?_⟩
  · rw [List.length_take]
    exact (Nat.min_le_right _ _).trans h.count_le
  · have hs := h.short
    simp only [List.length_drop, List.length_take, List.length_append, length_frames]
    omega

/-! ### Scanning -/

lemma scan_succ (rootId : Identity) (b : Bytes) (n : ℕ) : scan rootId b none (n + 1) =
    (scan rootId b none n).bind fun d => scanStep rootId b none d n := by
  simp [scan, List.range_succ, List.foldlM_append]

lemma scanStep_iff {rootId : Identity} {b : Bytes} {d d' : Digest} {i : ℕ} :
    scanStep rootId b none d i = some d' ↔
      ∃ e, encode e = frame b i ∧ Filled e ∧ (e.sequence : ℕ) = i + 1 ∧ e.rootId = rootId
        ∧ e.previous = d ∧ d' = Sha256.hash (encode e) := by
  unfold scanStep
  rw [if_neg (by simp)]
  constructor
  · intro h
    split at h
    · cases h
    · rename_i e he
      obtain ⟨hb, hf⟩ := decode_eq_some_iff.mp he
      split at h
      · cases h
      · rename_i hc
        cases h
        push Not at hc
        exact ⟨e, hb, hf, hc.1, hc.2.1, hc.2.2, by rw [hb]⟩
  · rintro ⟨e, hb, hf, h1, h2, h3, rfl⟩
    rw [decode_eq_some_iff.mpr ⟨hb, hf⟩]
    simp [h1, h2, h3, hb]

/-- **What the loop of `Open` accepts**: the frames of a chain of records, whose head it
answers. -/
theorem scan_iff {rootId : Identity} {b : Bytes} {n : ℕ} {d : Digest}
    (hn : 256 * n ≤ b.length) : scan rootId b none n = some d ↔
      ∃ es, es.length = n ∧ IsLog rootId es ∧ b.take (256 * n) = frames es
        ∧ d = links.head es := by
  induction n generalizing d with
  | zero =>
    constructor
    · intro h
      cases h
      exact ⟨[], rfl, .nil rootId, by simp, rfl⟩
    · rintro ⟨es, hl, -, -, rfl⟩
      rw [List.length_eq_zero_iff.mp hl]
      rfl
  | succ n ih =>
    have hn' : 256 * n ≤ b.length := by omega
    rw [scan_succ, Option.bind_eq_some_iff]
    constructor
    · rintro ⟨d', hs, hstep⟩
      obtain ⟨es, hl, hlog, htake, rfl⟩ := (ih hn').mp hs
      obtain ⟨e, hb, hf, h1, h2, h3, rfl⟩ := scanStep_iff.mp hstep
      refine ⟨es ++ [e], by simp [hl], ⟨hlog.chain.snoc (by rw [hl]; exact h1) h3, ?_⟩, ?_, ?_⟩
      · intro x hx
        rcases List.mem_append.mp hx with hx | hx
        · exact hlog.filled x hx
        · rw [List.mem_singleton.mp hx]
          exact ⟨hf, h2⟩
      · rw [take_succ_frame, htake, frames_append, frames_single, hb]
      · rw [Links.head_snoc]
        rfl
    · rintro ⟨es, hl, hlog, htake, rfl⟩
      obtain ⟨es, e, rfl⟩ : ∃ es' e, es = es' ++ [e] :=
        ⟨_, _, (List.dropLast_append_getLast (by rintro rfl; simp at hl)).symm⟩
      have hl' : es.length = n := by simpa using hl
      obtain ⟨hchain, hseq, hprev⟩ := Links.Chain.snoc_iff.mp hlog.chain
      rw [take_succ_frame, frames_append, frames_single] at htake
      have hparts := List.append_inj htake (by
        rw [length_frames, hl', List.length_take, Nat.min_eq_left hn'])
      obtain ⟨hfe, hre⟩ := hlog.filled e (by simp)
      refine ⟨links.head es, (ih hn').mpr ⟨es, hl', ⟨hchain, fun x hx =>
        hlog.filled x (by simp [hx])⟩, hparts.1, rfl⟩, scanStep_iff.mpr ⟨e, hparts.2.symm, hfe,
        by rw [← hl']; exact hseq, hre, hprev, ?_⟩⟩
      rw [Links.head_snoc]
      rfl

/-- A frame that cannot be read does not make a file acceptable. -/
lemma scan_readable {rootId : Identity} {b : Bytes} {u : Option ℕ} {n : ℕ} {d : Digest}
    (h : scan rootId b u n = some d) : scan rootId b none n = some d := by
  induction n generalizing d with
  | zero => exact h
  | succ n ih =>
    have hs : scan rootId b u (n + 1) =
        (scan rootId b u n).bind fun d => scanStep rootId b u d n := by
      simp [scan, List.range_succ, List.foldlM_append]
    rw [hs, Option.bind_eq_some_iff] at h
    obtain ⟨d', h1, h2⟩ := h
    rw [scan_succ, ih h1, Option.bind_some]
    unfold scanStep at h2 ⊢
    split at h2
    · cases h2
    · simpa using h2

/-! ### Opening -/

/-- The journal is in step with the records `es` and the torn `tail`. -/
structure Reads (j : Journal) (rootId : Identity) (es : List Entry) (tail : Bytes) : Prop where
  rootId : j.rootId = rootId
  count : j.count = es.length
  head : j.lastDigest = links.head es
  tail : j.tailBytes = tail.length

section Open

variable {rootId : Identity} {b : Bytes} {es es' : List Entry} {tail tail' : Bytes}
  {host : OpenHost} {j : Journal} {o : Outcome}

lemma Represents.count_eq (h : Represents rootId b es tail) : b.length / 256 = es.length := by
  have hs := h.short
  rw [h.bytes, List.length_append, length_frames]
  omega

lemma Represents.tail_eq (h : Represents rootId b es tail) : b.length % 256 = tail.length := by
  have hs := h.short
  rw [h.bytes, List.length_append, length_frames]
  omega

lemma frames_injective (h : frames es = frames es') : es = es' := by
  have hl : es.length = es'.length := by
    have := congrArg List.length h
    simp only [length_frames] at this
    omega
  refine List.ext_getElem hl fun i h1 h2 => ?_
  have e1 : frame (frames es ++ []) i = _ := frame_frames (List.getElem?_eq_getElem h1)
  have e2 : frame (frames es' ++ []) i = _ := frame_frames (List.getElem?_eq_getElem h2)
  rw [h, e2] at e1
  exact (encode_injective e1).symm

lemma frames_unique {t t' : Bytes} (h : frames es ++ t = frames es' ++ t')
    (ht : t.length < 256) (ht' : t'.length < 256) : es = es' ∧ t = t' := by
  have hl := congrArg List.length h
  simp only [List.length_append, length_frames] at hl
  obtain ⟨h1, h2⟩ := List.append_inj h (by rw [length_frames, length_frames]; omega)
  exact ⟨frames_injective h1, h2⟩

/-- A file stands for one log. -/
theorem Represents.unique (h : Represents rootId b es tail)
    (h' : Represents rootId b es' tail') : es = es' ∧ tail = tail' := by
  have hl : (frames es).length = (frames es').length := by
    rw [length_frames, length_frames, ← h.count_eq, ← h'.count_eq]
  obtain ⟨h1, h2⟩ := List.append_inj (h.bytes.symm.trans h'.bytes) hl
  exact ⟨frames_injective h1, h2⟩

/-- The frames of a file decode to its records. -/
lemma Represents.decoded (h : Represents rootId b es tail) :
    (List.range es.length).map (fun i => decode (frame b i)) = es.map some := by
  refine List.ext_getElem (by simp) fun i h1 h2 => ?_
  have hi : i < es.length := by simpa using h2
  rw [List.getElem_map, List.getElem_map, List.getElem_range, h.bytes,
    frame_frames (List.getElem?_eq_getElem hi)]
  exact decode_eq_some_iff.mpr ⟨rfl, (h.log.filled _ (List.getElem_mem hi)).1⟩

theorem examine_ok (h : examine rootId b host = .ok j) :
    ∃ es tail, Represents rootId b es tail ∧ Reads j rootId es tail
      ∧ j.poisoned = false ∧ j.filePoisoned = false := by
  unfold examine at h
  split at h
  · cases h
  split at h
  · cases h
  rename_i hmax
  split at h
  · cases h
  rename_i d hd
  cases h
  obtain ⟨es, hl, hlog, htake, rfl⟩ := (scan_iff (by omega)).mp (scan_readable hd)
  have hrep : Represents rootId b es (b.drop (256 * (b.length / 256))) := by
    refine ⟨hlog, by omega, ?_, ?_⟩
    · rw [← htake, List.take_append_drop]
    · rw [List.length_drop]
      omega
  exact ⟨es, _, hrep, ⟨rfl, hl.symm, rfl, hrep.tail_eq⟩, rfl, rfl⟩

theorem examine_represents (h : Represents rootId b es tail) :
    ∃ j, examine rootId b {} = .ok j ∧ Reads j rootId es tail ∧ j.poisoned = false
      ∧ j.filePoisoned = false := by
  have hn : b.length / 256 = es.length := h.count_eq
  have hle := h.count_le
  have hscan : scan rootId b none (b.length / 256) = some (links.head es) := by
    refine (scan_iff (by omega)).mpr ⟨es, hn.symm, h.log, ?_, rfl⟩
    rw [h.bytes, List.take_left' (by rw [length_frames, ← hn, ← h.bytes])]
  unfold examine
  rw [if_neg (by simp), dif_neg (by omega), hscan]
  exact ⟨_, rfl, ⟨rfl, hn, rfl, h.tail_eq⟩, rfl, rfl⟩

/-- When all host calls succeed, a file is refused for its size or for its content. -/
theorem examine_error (h : examine rootId b {} = .error o) :
    (o = .exhausted ∧ maxRecords < b.length / 256)
      ∨ (o = .corrupt ∧ ¬ ∃ es tail, Represents rootId b es tail) := by
  by_cases hmax : maxRecords < b.length / 256
  · unfold examine at h
    rw [if_neg (by simp), dif_pos hmax] at h
    cases h
    exact .inl ⟨rfl, hmax⟩
  · refine .inr ⟨?_, ?_⟩
    · unfold examine at h
      rw [if_neg (by simp), dif_neg hmax] at h
      split at h <;> cases h
      rfl
    · rintro ⟨es, tail, hr⟩
      obtain ⟨j, hj, -⟩ := examine_represents hr
      rw [h] at hj
      cases hj

lemma Reads.status (h : Reads j rootId es tail) :
    j.status = if tail = [] then .ok else .indeterminate := by
  rw [Journal.status, h.tail]
  simp [List.length_eq_zero_iff]

end Open

/-! ### Reading, appending and repairing -/

section Steps

variable {rootId : Identity} {f : File} {es : List Entry} {tail : Bytes} {j : Journal}
  {e : Entry}

theorem read_eq (h : Represents rootId f.cached es tail) (hj : Reads j rootId es tail)
    (hp : j.filePoisoned = false) {i : ℕ} (hi : es[i]? = some e) :
    j.read f (i + 1) .ok = .ok e := by
  have hlt := (List.getElem?_eq_some_iff.mp hi).1
  have hframe : frame f.cached i = encode e := by rw [h.bytes, frame_frames hi]
  have hmem := h.log.filled e (List.mem_of_getElem? hi)
  unfold Journal.read
  rw [if_neg (by rw [hj.count]; omega), if_neg (by simp [hp]), if_neg (by simp),
    Nat.add_sub_cancel, hframe, if_neg (by simp), decode_eq_some_iff.mpr ⟨rfl, hmem.1⟩]
  have hs := h.log.sequence hi
  simp [hs, hmem.2, hj.rootId]

/-- The record an append writes is the next of the log. -/
lemma next_isLog (h : IsLog rootId es) (hj : Reads j rootId es tail) (hk : (e.kind : ℕ) ≠ 0)
    (ho : e.operationId ≠ zeroIdentity) (hr : e.rootId = j.rootId)
    (hroot : rootId ≠ zeroIdentity) : IsLog rootId (es ++ [j.next e]) := by
  have hc := j.count_le
  have hseq : ((j.next e).sequence : ℕ) = es.length + 1 := by
    rw [← hj.count]
    exact Counter.val_ofNat (by unfold maxRecords at hc; unfold Counter.last; omega)
  refine ⟨h.chain.snoc hseq hj.head, fun x hx => ?_⟩
  rcases List.mem_append.mp hx with hx | hx
  · exact h.filled x hx
  · rw [List.mem_singleton.mp hx]
    exact ⟨⟨by rw [hseq]; omega, hk, hr.trans hj.rootId ▸ hroot, ho⟩, hr.trans hj.rootId⟩

/-- What an append can do to a journal and its file. -/
inductive Appends (j : Journal) (f : File) (e : Entry) : Journal → File → Outcome → Prop
  /-- Nothing was written, and the journal is as it was. -/
  | refused {o : Outcome} (ho : o ≠ .ok) (ho' : o ≠ .indeterminate) : Appends j f e j f o
  /-- Some of the record's bytes may have been written; the journal is poisoned. -/
  | torn {j' : Journal} (n : ℕ) (hp : j'.poisoned = true) (hi : j'.rootId = j.rootId)
      (hj : j.poisoned = false) (ht : j.tailBytes = 0) (hm : j.count ≠ maxRecords)
      (hk : (e.kind : ℕ) ≠ 0) (ho : e.operationId ≠ zeroIdentity) (hr : e.rootId = j.rootId) :
      Appends j f e j' (f.write ((encode (j.next e)).take n)) .indeterminate
  /-- The record is on the medium. -/
  | appended {j' : Journal} (hp : j'.poisoned = false) (hf : j'.filePoisoned = j.filePoisoned)
      (hi : j'.rootId = j.rootId) (hc : j'.count = j.count + 1)
      (hd : j'.lastDigest = Sha256.hash (encode (j.next e))) (ht' : j'.tailBytes = 0)
      (hj : j.poisoned = false) (ht : j.tailBytes = 0)
      (hm : j.count ≠ maxRecords) (hk : (e.kind : ℕ) ≠ 0) (ho : e.operationId ≠ zeroIdentity)
      (hr : e.rootId = j.rootId) :
      Appends j f e j' (f.write (encode (j.next e))).sync .ok

/-- What `Append_Durable` leaves of the data: all of it on the medium, or some first part. -/
lemma appendDurable_cases (f : File) (filePoisoned : Bool) (n : ℕ) (data : Bytes)
    (host : WriteHost) :
    (appendDurable f filePoisoned n data host = ((f.write data).sync, false, .ok)
        ∧ filePoisoned = false)
      ∨ ((appendDurable f filePoisoned n data host).2.2 ≠ .ok
        ∧ ∃ m, (appendDurable f filePoisoned n data host).1 = f.write (data.take m)) := by
  have hnil : f = f.write (data.take 0) := by simp [File.write]
  unfold appendDurable
  split
  · exact .inr ⟨by simp, 0, hnil⟩
  rename_i hp
  split
  · exact .inr ⟨by simp, 0, hnil⟩
  split
  · exact .inr ⟨by simp, 0, hnil⟩
  rcases host.written with m | _ | _
  · exact .inr ⟨by simp, m, rfl⟩
  · exact .inr ⟨by simp, data.length, by simp⟩
  · exact .inl ⟨rfl, by simpa using hp⟩

theorem append_cases (j : Journal) (f : File) (e : Entry) (host : WriteHost) :
    Appends j f e (j.append f e host).1 (j.append f e host).2.1 (j.append f e host).2.2 := by
  unfold Journal.append
  split
  · exact .refused (by simp) (by simp)
  rename_i h1
  split
  · exact .refused (by simp) (by simp)
  rename_i h2
  split
  · exact .refused (by simp) (by simp)
  rename_i h3
  push Not at h1 h3
  obtain ⟨hk, ho, hr⟩ := h3
  obtain ⟨hp, ht⟩ := h1
  have hj : j.poisoned = false := by simpa using hp
  rcases appendDurable_cases f j.filePoisoned (j.count * 256) (encode (j.next e)) host with
    ⟨ha, -⟩ | ⟨ha, m, hm⟩
  · simp only [ha, if_true]
    exact .appended hj rfl rfl rfl rfl ht hj ht h2 hk ho hr
  · simp only [if_neg ha]
    rw [hm]
    exact .torn m rfl rfl hj ht h2 hk ho hr

/-- A healthy append. -/
theorem append_done (h : Represents rootId f.cached es []) (hj : Reads j rootId es [])
    (hp : j.poisoned = false) (hf : j.filePoisoned = false) (hm : es.length ≠ maxRecords)
    (hk : (e.kind : ℕ) ≠ 0) (ho : e.operationId ≠ zeroIdentity) (hr : e.rootId = rootId)
    (hroot : rootId ≠ zeroIdentity) :
    ∃ j', j.append f e {} = (j', (f.write (encode (j.next e))).sync, .ok)
      ∧ Represents rootId (f.write (encode (j.next e))).sync.cached (es ++ [j.next e]) []
      ∧ Reads j' rootId (es ++ [j.next e]) [] ∧ j'.poisoned = false
      ∧ j'.filePoisoned = false := by
  have hle := h.count_le
  have hr' : e.rootId = j.rootId := hr.trans hj.rootId.symm
  have hl : f.cached.length = j.count * 256 := by
    rw [h.bytes, List.append_nil, length_frames, hj.count, Nat.mul_comm]
  have hm' : j.count ≠ maxRecords := by rwa [hj.count]
  have ht : j.tailBytes = 0 := hj.tail
  have hhead : Sha256.hash (encode (j.next e)) = links.head (es ++ [j.next e]) := by
    rw [Links.head_snoc]
    rfl
  refine ⟨{ j with count := j.count + 1, lastDigest := Sha256.hash (encode (j.next e))
                   count_le := Nat.lt_of_le_of_ne j.count_le hm' }, ?_,
    ⟨next_isLog h.log hj hk ho hr' hroot, by simp; omega, ?_, by simp⟩,
    ⟨hj.rootId, by simp [hj.count], hhead, ht⟩, hp, hf⟩
  · simp [Journal.append, appendDurable, hp, hf, ht, hm', hk, ho, hr', hl]
  · simp [File.write, File.sync, h.bytes]

/-- What a repair can do to a file: nothing, or take off the tail whose digest was given. -/
inductive Repairs (j : Journal) (f : File) (d : Digest) : Journal → File → Outcome → Prop
  | refused {o : Outcome} (ho : o ≠ .ok) : Repairs j f d j f o
  | unsynced {j' : Journal} (hp : j'.poisoned = true) (hr : j'.rootId = j.rootId)
      (hc : j'.count = j.count) (hj : j.poisoned = false) (ht : j.tailBytes ≠ 0)
      (hl : ((f.cached.drop (j.count * 256)).take 256).length = j.tailBytes)
      (hd : Sha256.hash ((f.cached.drop (j.count * 256)).take 256) = d) :
      Repairs j f d j' (f.truncate (j.count * 256)) .indeterminate
  | repaired {j' : Journal} (hp : j'.poisoned = false) (hf : j'.filePoisoned = j.filePoisoned)
      (hr : j'.rootId = j.rootId) (hc : j'.count = j.count) (hh : j'.lastDigest = j.lastDigest)
      (ht' : j'.tailBytes = 0) (hj : j.poisoned = false) (ht : j.tailBytes ≠ 0)
      (hl : ((f.cached.drop (j.count * 256)).take 256).length = j.tailBytes)
      (hd : Sha256.hash ((f.cached.drop (j.count * 256)).take 256) = d) :
      Repairs j f d j' (f.truncate (j.count * 256)).sync .ok

theorem repair_cases (j : Journal) (f : File) (d : Digest) (host : RepairHost) :
    Repairs j f d (j.repairTail f d host).1 (j.repairTail f d host).2.1
      (j.repairTail f d host).2.2 := by
  unfold Journal.repairTail
  split
  · exact .refused (by simp)
  rename_i h1
  push Not at h1
  obtain ⟨hp, ht⟩ := h1
  have hj : j.poisoned = false := by simpa using hp
  unfold Journal.exportTail
  split
  · rename_i he
    refine .refused ?_
    split at he
    · cases he; simp
    split at he
    · cases he; simpa using ‹_›
    split at he <;> cases he
    simp
  · rename_i tail he
    split at he
    · cases he
    split at he
    · cases he
    split at he
    · cases he
    rename_i hl
    push Not at hl
    cases he
    split
    · exact .refused (by simp)
    rename_i hd
    push Not at hd
    split
    · exact .refused (by simp)
    split
    · exact .repaired hj rfl rfl rfl rfl rfl hj ht hl hd
    · exact .unsynced rfl rfl rfl hj ht hl hd

/-- Writing the next record, as far as it gets. -/
lemma Represents.write {j : Journal} (h : Represents rootId f.cached es []) (n : ℕ)
    (hm : es.length ≠ maxRecords) (hlog : IsLog rootId (es ++ [j.next e])) :
    ∃ es' tail', Represents rootId (f.write ((encode (j.next e)).take n)).cached es' tail'
      ∧ (es' = es ∨ es' = es ++ [j.next e]) := by
  have hc := h.count_le
  rcases Nat.lt_or_ge n 256 with hn | hn
  · refine ⟨es, (encode (j.next e)).take n, ⟨h.log, hc, ?_, ?_⟩, .inl rfl⟩
    · simp only [File.write, h.bytes, List.append_nil]
    · rw [List.length_take, length_encode]
      omega
  · refine ⟨es ++ [j.next e], [], ⟨hlog, ?_, ?_, by simp⟩, .inr rfl⟩
    · simp
      omega
    · rw [List.take_of_length_le (by rw [length_encode]; exact hn)]
      simp [File.write, h.bytes]

lemma Reads.tail_nil {j : Journal} (h : Reads j rootId es tail) (ht : j.tailBytes = 0) :
    tail = [] :=
  List.length_eq_zero_iff.mp (h.tail.symm.trans ht)

end Steps

/-! ### What a step leaves -/

section Leaves

variable {rootId : Identity} {f f' : File} {es es' base : List Entry} {tail tail' : Bytes}
  {j j' : Journal} {e : Entry} {o : Outcome} {d : Digest}

/-- **A crash** leaves a log again: what the process saw or what the medium had, cut short
somewhere after the records that they share. -/
theorem crash_represents (hc : Represents rootId f.cached es tail)
    (hs : Represents rootId f.stable es' tail') (hb : base <+: es) (hb' : base <+: es')
    (fromStable : Bool) (n : ℕ) : ∃ es₁ tail₁,
      Represents rootId (f.crash fromStable n).cached es₁ tail₁
        ∧ (es₁ <+: es ∨ es₁ <+: es') ∧ base <+: es₁ := by
  -- the crash keeps every shared record, because it keeps every shared byte
  have hkeep : 256 * base.length ≤ max n (common f.cached f.stable) := by
    obtain ⟨x, rfl⟩ := hb
    obtain ⟨y, rfl⟩ := hb'
    have := common_append (frames base) (frames x ++ tail) (frames y ++ tail')
    rw [length_frames, ← List.append_assoc, ← List.append_assoc, ← frames_append,
      ← frames_append, ← hc.bytes, ← hs.bytes] at this
    exact this.trans (le_max_right _ _)
  have hbase : ∀ xs : List Entry, base <+: xs →
      base <+: xs.take (max n (common f.cached f.stable) / 256) := by
    rintro xs ⟨x, rfl⟩
    rw [List.take_append, List.take_of_length_le (by omega)]
    exact List.prefix_append _ _
  cases fromStable
  · obtain ⟨t, ht⟩ := hc.take (max n (common f.cached f.stable))
    exact ⟨_, t, ht, .inl (List.take_prefix _ _), hbase _ hb⟩
  · obtain ⟨t, ht⟩ := hs.take (max n (common f.cached f.stable))
    exact ⟨_, t, ht, .inr (List.take_prefix _ _), hbase _ hb'⟩

/-- **An append** leaves the file as it was, or with as much of the record as was written, or
with the record on the medium. -/
theorem append_represents (h : Represents rootId f.cached es tail)
    (hj : j.poisoned = false → Reads j rootId es tail) (hroot : rootId ≠ zeroIdentity)
    (ha : Appends j f e j' f' o) :
    (f' = f ∧ j' = j ∧ o ≠ .ok ∧ o ≠ .indeterminate)
      ∨ (o = .indeterminate ∧ j'.poisoned = true ∧ j'.rootId = j.rootId
        ∧ f'.stable = f.stable ∧ ∃ es₁ tail₁, Represents rootId f'.cached es₁ tail₁
          ∧ (es₁ = es ∨ es₁ = es ++ [j.next e]))
      ∨ (o = .ok ∧ j'.poisoned = false ∧ f'.stable = f'.cached
        ∧ Represents rootId f'.cached (es ++ [j.next e]) []
        ∧ Reads j' rootId (es ++ [j.next e]) []) := by
  rcases ha with ⟨ho, ho'⟩ | ⟨n, hp, hi, hpj, ht, hm, hk, hop, hr⟩ |
    ⟨hp, hf, hi, hc, hd, ht', hpj, ht, hm, hk, hop, hr⟩
  · exact .inl ⟨rfl, rfl, ho, ho'⟩
  · have hreads := hj hpj
    obtain rfl := hreads.tail_nil ht
    have hlog := next_isLog h.log hreads hk hop hr hroot
    obtain ⟨es₁, tail₁, hr₁, hes⟩ := h.write n (by rw [← hreads.count]; exact hm) hlog
    exact .inr (.inl ⟨rfl, hp, hi, rfl, es₁, tail₁, hr₁, hes⟩)
  · have hreads := hj hpj
    obtain rfl := hreads.tail_nil ht
    have hlog := next_isLog h.log hreads hk hop hr hroot
    have hle := j'.count_le
    have hcount := hreads.count
    refine .inr (.inr ⟨rfl, hp, rfl, ⟨hlog, by simp; omega, ?_, by simp⟩,
      ⟨hi.trans hreads.rootId, by simp [hc, hcount], ?_, ht'⟩⟩)
    · simp [File.write, File.sync, h.bytes]
    · rw [hd, Links.head_snoc]
      rfl

/-- **A repair** leaves the file as it was, or takes off its tail. -/
theorem repair_represents (h : Represents rootId f.cached es tail)
    (hj : j.poisoned = false → Reads j rootId es tail) (ha : Repairs j f d j' f' o) :
    (f' = f ∧ j' = j ∧ o ≠ .ok)
      ∨ (o = .indeterminate ∧ j'.poisoned = true ∧ j'.rootId = j.rootId
        ∧ f'.stable = f.stable ∧ Represents rootId f'.cached es [])
      ∨ (o = .ok ∧ j'.poisoned = false ∧ f'.stable = f'.cached
        ∧ Represents rootId f'.cached es [] ∧ Reads j' rootId es []) := by
  have hcut : j.poisoned = false → (f.truncate (j.count * 256)).cached = frames es := by
    intro hp
    rw [File.truncate, h.bytes, (hj hp).count]
    exact List.take_left' (by rw [length_frames, Nat.mul_comm])
  rcases ha with ho | ⟨hp, hi, hcount, hpj, -, -, -⟩ | ⟨hp, hf, hi, hcount, hh, ht', hpj, -, -, -⟩
  · exact .inl ⟨rfl, rfl, ho⟩
  · exact .inr (.inl ⟨rfl, hp, hi, rfl, h.log, h.count_le,
      by rw [hcut hpj, List.append_nil], by simp⟩)
  · have hreads := hj hpj
    exact .inr (.inr ⟨rfl, hp, rfl, ⟨h.log, h.count_le,
      by rw [File.sync, hcut hpj, List.append_nil], by simp⟩,
      ⟨hi.trans hreads.rootId, hcount.trans hreads.count, hh.trans hreads.head, ht'⟩⟩)

end Leaves

end NiayanAssurance.LogFile
