import NiayanAssurance.Text
import Mathlib.Data.List.Range

/-!
Reading a file of the kernel, whose size is not known before its end is reached.

The kernel is a source of bytes, which may have no end, and a script of how its reads go: how
much each of them hands out, and which are interrupted or fail.
-/

namespace NiayanAssurance.KernelRead

open NiayanAssurance.Lib NiayanAssurance.Types NiayanAssurance.Text

inductive Item
  | bootId | pidOne | cgroupControllers | kernelLockdown | selinuxEnforce | bpfDisabled
  | kptrRestrict | dmesgRestrict | aslrMode | modulesDisabled | kernelRelease | secureBoot
  | setupMode | memoryPressure | ioPressure

def path : Item → String
  | .bootId => "proc/sys/kernel/random/boot_id"
  | .pidOne => "proc/1/comm"
  | .cgroupControllers => "sys/fs/cgroup/cgroup.controllers"
  | .kernelLockdown => "sys/kernel/security/lockdown"
  | .selinuxEnforce => "sys/fs/selinux/enforce"
  | .bpfDisabled => "proc/sys/kernel/unprivileged_bpf_disabled"
  | .kptrRestrict => "proc/sys/kernel/kptr_restrict"
  | .dmesgRestrict => "proc/sys/kernel/dmesg_restrict"
  | .aslrMode => "proc/sys/kernel/randomize_va_space"
  | .modulesDisabled => "proc/sys/kernel/modules_disabled"
  | .kernelRelease => "proc/sys/kernel/osrelease"
  | .secureBoot => "sys/firmware/efi/efivars/SecureBoot-8be4df61-93ca-11d2-aa0d-00e098032b8c"
  | .setupMode => "sys/firmware/efi/efivars/SetupMode-8be4df61-93ca-11d2-aa0d-00e098032b8c"
  | .memoryPressure => "proc/pressure/memory"
  | .ioPressure => "proc/pressure/io"

/-! ### The kernel -/

structure Source where
  byte : ℕ → Byte
  length : Option ℕ

namespace Source

/-- How many of `n` bytes from `pos` on there are. -/
def left (src : Source) (pos n : ℕ) : ℕ :=
  match src.length with
  | none => n
  | some l => min n (l - pos)

def bytes (src : Source) (pos n : ℕ) : Bytes := (List.range n).map fun i => src.byte (pos + i)

/-- The source has no more than `len` bytes. -/
def Fits (src : Source) (len : ℕ) : Prop := ∃ n ≤ len, src.length = some n

end Source

/-- How a read goes: it hands out at most `n + 1` bytes, is interrupted, or fails. -/
inductive Event
  | chunk (n : ℕ)
  | interrupted
  | failed
  deriving DecidableEq

inductive Reply
  | bytes (b : Bytes)
  | interrupted
  | failed

structure Kernel where
  top : Bool
  entry : String → Bool
  source : Source
  script : ℕ → Event

def reply (src : Source) : Event → (pos want : ℕ) → Reply
  | .chunk n, pos, want => .bytes (src.bytes pos (src.left pos (min (n + 1) want)))
  | .interrupted, _, _ => .interrupted
  | .failed, _, _ => .failed

/-! ### Reading -/

structure Reading where
  data : Bytes
  used : ℕ := 0
  interruptions : ℕ := 0

/-- One byte more than there is room for, so that the end is told from a truncation. -/
def Reading.want (s : Reading) : ℕ := min 4097 (s.data.length - s.used + 1)

/-- One turn of the loop with a buffer whose first index is `first`; an error is the status with
which it is left. -/
def turn (first : ℕ) (s : Reading) : Reply → Except Outcome Reading
  | .bytes b =>
    if b = [] then .error .ok
    else if s.data.length - s.used < b.length then .error .exhausted
    -- `Data'First + Used + J` is out of range for the last `J`, and the handler answers.
    else if integerLast < first + s.used + b.length then .error .ioError
    else
      .ok { s with
        data := s.data.take s.used ++ b ++ s.data.drop (s.used + b.length)
        used := s.used + b.length }
  | .interrupted =>
    if s.interruptions < 16 then .ok { s with interruptions := s.interruptions + 1 }
    else .error .ioError
  | .failed => .error .ioError

def Reply.advance (r : Reply) (pos : ℕ) : ℕ :=
  match r with
  | .bytes b => pos + b.length
  | _ => pos

/-- The loop from its turn `i` on, with at most `fuel` turns; none when these are not enough. -/
def readLoop (k : Kernel) (first : ℕ) : (fuel i pos : ℕ) → Reading → Option (Reading × Outcome)
  | 0, _, _, _ => none
  | fuel + 1, i, pos, s =>
    let r := reply k.source (k.script i) pos s.want
    match turn first s r with
    | .error status => some (s, status)
    | .ok s => readLoop k first fuel (i + 1) (r.advance pos) s

structure Result where
  data : Bytes
  used : ℕ
  status : Outcome
  deriving DecidableEq

def refused (len : ℕ) (status : Outcome) : Result := ⟨List.replicate len 0, 0, status⟩

/-- `Read` into a buffer of `len` bytes from `first` on. -/
def read (k : Kernel) (source : Item) (first len fuel : ℕ) : Option Result :=
  if len = 0 ∨ 4096 < len then some (refused len .invalidInput)
  else if k.top = false then some (refused len .ioError)
  else if k.entry (path source) = false then some (refused len .ioError)
  else
    (readLoop k first fuel 0 0 { data := List.replicate len 0 }).map fun (s, status) =>
      if status ≠ .ok then refused len status else ⟨s.data, s.used, status⟩

/-! ### The loop -/

/-- The interruptions among the first `i` reads. -/
def interruptions (k : Kernel) (i : ℕ) : ℕ :=
  (List.range i).countP fun j => k.script j = .interrupted

def Event.size : Event → ℕ
  | .chunk n => n + 1
  | _ => 0

/-- How much the first `i` reads hand out of a source without an end. -/
def offered (k : Kernel) (i : ℕ) : ℕ := ((List.range i).map fun j => (k.script j).size).sum

/-- One of the first `i` reads has found the end of the file. -/
def Ended (k : Kernel) (i : ℕ) : Prop :=
  ∃ j < i, (∃ n, k.script j = .chunk n) ∧ ∃ l, k.source.length = some l ∧ l ≤ offered k j

/-- A read has failed before the end of the file, or was interrupted after sixteen other
interruptions. -/
def Broken (k : Kernel) : Prop :=
  ∃ i, ¬ Ended k i ∧
    (k.script i = .failed ∨ k.script i = .interrupted ∧ 16 ≤ interruptions k i)

variable {k : Kernel} {first len i : ℕ} {s : Reading}

/-- What holds before turn `i`, the file being read up to `s.used`. -/
structure Inv (k : Kernel) (first len i : ℕ) (s : Reading) : Prop where
  used_le : s.used ≤ len
  data : s.data = k.source.bytes 0 s.used ++ List.replicate (len - s.used) 0
  used : s.used = k.source.left 0 (offered k i)
  running : ¬ Ended k i
  index : first + s.used ≤ integerLast
  interruptions : s.interruptions = interruptions k i
  few : s.interruptions ≤ 16

@[simp] lemma length_bytes (src : Source) (pos n : ℕ) : (src.bytes pos n).length = n := by
  simp [Source.bytes]

lemma bytes_append (src : Source) (m n : ℕ) :
    src.bytes 0 m ++ src.bytes m n = src.bytes 0 (m + n) := by
  simp [Source.bytes, List.range_add, Function.comp_def]

lemma Inv.length (h : Inv k first len i s) : s.data.length = len := by
  have h1 := h.used_le
  rw [h.data, List.length_append, length_bytes, List.length_replicate]
  omega

lemma Inv.want (h : Inv k first len i s) (hl : len ≤ 4096) : s.want = len - s.used + 1 := by
  unfold Reading.want
  rw [h.length]
  omega

lemma Inv.within (h : Inv k first len i s) {l : ℕ} (hl : k.source.length = some l) :
    s.used ≤ l := by
  have hu := h.used
  unfold Source.left at hu
  rw [hl] at hu
  dsimp only at hu
  omega

lemma interruptions_succ (k : Kernel) (i : ℕ) :
    interruptions k (i + 1) = interruptions k i + if k.script i = .interrupted then 1 else 0 := by
  simp [interruptions, List.range_succ, List.countP_append, List.countP_cons]

lemma offered_succ (k : Kernel) (i : ℕ) : offered k (i + 1) = offered k i + (k.script i).size := by
  simp [offered, List.range_succ]

lemma not_ended_succ (h : ¬ Ended k i)
    (hi : ∀ n l, k.script i = .chunk n → k.source.length = some l → offered k i < l) :
    ¬ Ended k (i + 1) := by
  rintro ⟨j, hj, ⟨n, hn⟩, l, hl, hle⟩
  rcases Nat.lt_succ_iff_lt_or_eq.1 hj with hj | rfl
  · exact h ⟨j, hj, ⟨n, hn⟩, l, hl, hle⟩
  · have := hi n l hn hl
    omega

structure Left (k : Kernel) (first len : ℕ) (s : Reading) (status : Outcome) : Prop where
  ok : status = .ok → k.source.length = some s.used ∧ s.used ≤ len
    ∧ s.data = k.source.bytes 0 s.used ++ List.replicate (len - s.used) 0
    ∧ first + s.used ≤ integerLast
  status : status = .ok ∨ status = .exhausted ∧ ¬ k.source.Fits len
    ∨ status = .ioError ∧ (Broken k ∨ integerLast < first + len
      ∧ (k.source.length = some len ∨ ¬ k.source.Fits len))

/-- What a read hands out of the source, which is nothing at its end only. -/
structure Handed (k : Kernel) (i : ℕ) (s : Reading) (m : ℕ) : Prop where
  within : ∀ l, k.source.length = some l → s.used + m ≤ l
  done : m = 0 → k.source.length = some s.used

lemma handed (h : Inv k first len i s) {want n : ℕ} (hw : 0 < want) :
    Handed k i s (k.source.left s.used (min (n + 1) want)) := by
  unfold Source.left
  split
  · next h0 => exact ⟨fun l hl => absurd (h0.symm.trans hl) nofun, by omega⟩
  · next l hl =>
    have h1 := h.within hl
    refine ⟨fun l' hl' => ?_, fun h0 => ?_⟩
    · obtain rfl : l = l' := Option.some.inj (hl.symm.trans hl')
      omega
    · rw [hl, show l = s.used by omega]

/-- A chunk that is kept leaves the file read up to its end. -/
lemma Inv.keep (h : Inv k first len i s) {n m : ℕ} (he : k.script i = .chunk n)
    (hm : k.source.left s.used (min (n + 1) (len - s.used + 1)) = m) (h0 : m ≠ 0)
    (hroom : m ≤ len - s.used) (hix : first + s.used + m ≤ integerLast) :
    Inv k first len (i + 1) { s with
      data := s.data.take s.used ++ k.source.bytes s.used m ++ s.data.drop (s.used + m)
      used := s.used + m } := by
  have hle := h.used_le
  have hu := h.used
  have hs : (k.script i).size = n + 1 := by rw [he]; rfl
  refine ⟨by dsimp only; omega, ?_, ?_, ?_, by dsimp only; omega, ?_, h.few⟩
  · dsimp only
    rw [h.data, List.take_append_of_le_length (by simp), List.take_of_length_le (by simp),
      bytes_append, List.drop_append, List.drop_of_length_le (by simp), length_bytes,
      List.nil_append, List.drop_replicate]
    congr 2
    omega
  · rw [offered_succ, hs]
    dsimp only
    unfold Source.left at hu hm ⊢
    cases hl : k.source.length <;> rw [hl] at hu hm <;> dsimp only at hu hm ⊢ <;> omega
  · refine not_ended_succ h.running fun _ l _ hl => ?_
    unfold Source.left at hu hm
    rw [hl] at hu hm
    dsimp only at hu hm
    omega
  · rw [interruptions_succ, if_neg (by simp [he]), h.interruptions, Nat.add_zero]

/-- **One turn** ends the loop as it should, or keeps the invariant and comes nearer to the
end. -/
lemma turn_spec (h : Inv k first len i s) (hl : len ≤ 4096)
    (hlast : first + len ≤ integerLast + 1) :
    match turn first s (reply k.source (k.script i) s.used s.want) with
    | .error status => Left k first len s status
    | .ok s' => Inv k first len (i + 1) s'
      ∧ s'.used = (reply k.source (k.script i) s.used s.want).advance s.used
      ∧ len - s'.used + (16 - s'.interruptions) < len - s.used + (16 - s.interruptions) := by
  have h0 := h.used_le
  cases he : k.script i with
  | failed =>
    exact ⟨nofun, .inr (.inr ⟨rfl, .inl ⟨i, h.running, .inl he⟩⟩)⟩
  | interrupted =>
    unfold reply turn
    dsimp only
    by_cases hi : s.interruptions < 16
    · rw [if_pos hi]
      refine ⟨⟨h0, h.data, ?_, not_ended_succ h.running (by simp [he]), h.index, ?_, hi⟩, rfl,
        by dsimp only; omega⟩
      · rw [offered_succ, he]
        exact h.used
      · rw [interruptions_succ, if_pos he, ← h.interruptions]
    · rw [if_neg hi]
      have h1 := h.interruptions
      exact ⟨nofun, .inr (.inr ⟨rfl, .inl ⟨i, h.running, .inr ⟨he, by omega⟩⟩⟩)⟩
  | chunk n =>
    unfold reply turn
    dsimp only [Reply.advance]
    rw [length_bytes, h.length, h.want hl]
    have hh := handed h (n := n) (Nat.succ_pos (len - s.used))
    generalize hm : k.source.left s.used (min (n + 1) (len - s.used + 1)) = m at hh ⊢
    by_cases hz : k.source.bytes s.used m = []
    · rw [if_pos hz]
      have hm0 : m = 0 := by simpa using congrArg List.length hz
      exact ⟨fun _ => ⟨hh.done hm0, h0, h.data, h.index⟩, .inl rfl⟩
    rw [if_neg hz]
    have hm1 : m ≠ 0 := fun h1 => hz (by simp [h1, Source.bytes])
    by_cases hfull : len - s.used < m
    · rw [if_pos hfull]
      refine ⟨nofun, .inr (.inl ⟨rfl, ?_⟩)⟩
      rintro ⟨l, hlen, hsome⟩
      have := hh.within l hsome
      omega
    rw [if_neg hfull]
    by_cases hix : integerLast < first + s.used + m
    · -- The buffer is filled, so the source ends here or does not fit.
      rw [if_pos hix]
      refine ⟨nofun, .inr (.inr ⟨rfl, .inr ⟨by omega, ?_⟩⟩)⟩
      by_cases hf : k.source.Fits len
      · obtain ⟨l, hlen, hsome⟩ := hf
        have := hh.within l hsome
        exact .inl (by rw [hsome, show l = len by omega])
      · exact .inr hf
    · rw [if_neg hix]
      exact ⟨h.keep he hm hm1 (by omega) (by omega), rfl, by dsimp only; omega⟩

/-- **The loop** ends, and as it should. -/
theorem readLoop_spec (hl : len ≤ 4096) (hlast : first + len ≤ integerLast + 1) {fuel : ℕ}
    (h : Inv k first len i s) (hf : len - s.used + (16 - s.interruptions) < fuel) :
    ∃ s' status, readLoop k first fuel i s.used s = some (s', status)
      ∧ Left k first len s' status := by
  induction fuel generalizing i s with
  | zero => omega
  | succ fuel ih =>
    have ht := turn_spec h hl hlast
    unfold readLoop
    dsimp only
    split at ht
    · exact ⟨s, _, rfl, ht⟩
    · obtain ⟨h1, h2, h3⟩ := ht
      rw [← h2]
      exact ih h1 (by omega)

lemma readLoop_mono {fuel more pos : ℕ} {r : Reading × Outcome}
    (h : readLoop k first fuel i pos s = some r) (hm : fuel ≤ more) :
    readLoop k first more i pos s = some r := by
  induction fuel generalizing i pos s more with
  | zero => cases h
  | succ fuel ih =>
    obtain ⟨more, rfl⟩ : ∃ m, more = m + 1 := ⟨more - 1, by omega⟩
    unfold readLoop at h ⊢
    dsimp only at h ⊢
    split at h
    · exact h
    · exact ih h (by omega)

/-! ### The result -/

structure Safe (k : Kernel) (len : ℕ) (r : Result) : Prop where
  ok : r.status = .ok → k.source.length = some r.used ∧ r.used ≤ len
    ∧ r.data = k.source.bytes 0 r.used ++ List.replicate (len - r.used) 0
  empty : r.status ≠ .ok → r.used = 0 ∧ r.data = List.replicate len 0
  truncated : ¬ k.source.Fits len → r.status ≠ .ok

def CallFailed (k : Kernel) (source : Item) : Prop :=
  k.top = false ∨ k.entry (path source) = false ∨ Broken k

/-- What a caller may rely on: a source that fits is not refused for its length either. -/
structure Whole (k : Kernel) (source : Item) (len : ℕ) (r : Result) : Prop extends
    Safe k len r where
  fits : k.source.Fits len → r.status = .ok ∨ r.status = .ioError ∧ CallFailed k source

lemma safe_refused {status : Outcome} (h : status ≠ .ok) : Safe k len (refused len status) :=
  ⟨fun h' => absurd h' h, fun _ => ⟨rfl, rfl⟩, fun _ => h⟩

lemma whole_ioError {source : Item} (h : CallFailed k source) :
    Whole k source len (refused len .ioError) :=
  ⟨safe_refused nofun, fun _ => .inr ⟨rfl, h⟩⟩

/-- The last byte of the source would go to the last index there is, and no call fails. -/
structure Overruns (k : Kernel) (source : Item) (first len : ℕ) : Prop where
  last : first + len - 1 = integerLast
  filled : k.source.length = some len
  answered : ¬ CallFailed k source

lemma whole_left {source : Item} {status : Outcome} (h1 : 1 ≤ len)
    (hlast : first + len ≤ integerLast + 1) (hl : Left k first len s status) :
    let r := if status ≠ .ok then refused len status else ⟨s.data, s.used, status⟩
    Safe k len r ∧ (Whole k source len r ↔ ¬ Overruns k source first len) := by
  rcases hl.status with rfl | ⟨rfl, hn⟩ | ⟨rfl, hb⟩
  · obtain ⟨h3, h4, h5, h6⟩ := hl.ok rfl
    have hs : Safe k len ⟨s.data, s.used, .ok⟩ :=
      ⟨fun _ => ⟨h3, h4, h5⟩, fun h => absurd rfl h, fun hn => absurd ⟨_, h4, h3⟩ hn⟩
    refine ⟨hs, fun _ ho => ?_, fun _ => ⟨hs, fun _ => .inl rfl⟩⟩
    have h7 : s.used = len := Option.some.inj (h3.symm.trans ho.filled)
    have h8 := ho.last
    omega
  · exact ⟨safe_refused nofun, fun _ ho => hn ⟨len, le_rfl, ho.filled⟩,
      fun _ => ⟨safe_refused nofun, fun hf => absurd hf hn⟩⟩
  · refine ⟨safe_refused nofun, fun hw ho => ?_, fun ho => ?_⟩
    · rcases hw.fits ⟨len, le_rfl, ho.filled⟩ with h | ⟨-, h⟩
      · cases h
      · exact ho.answered h
    · by_cases hc : CallFailed k source
      · exact whole_ioError hc
      refine ⟨safe_refused nofun, fun hf => ?_⟩
      rcases hb with hb | ⟨h3, hlen | hnf⟩
      · exact absurd (.inr (.inr hb)) hc
      · exact absurd ⟨by omega, hlen, hc⟩ ho
      · exact absurd hf hnf

/-- **Reads are whole or empty**, and they end, whatever the kernel does. A source that fits is
refused for its length only where it fills a buffer up to the last index there is. -/
theorem read_whole_iff (k : Kernel) (source : Item) (h1 : 1 ≤ len) (h2 : len ≤ 4096)
    (h3 : first + len - 1 ≤ integerLast) :
    ∃ r, (∀ fuel, len + 17 ≤ fuel → read k source first len fuel = some r) ∧ Safe k len r ∧
      (Whole k source len r ↔ ¬ Overruns k source first len) := by
  have hlen : ¬ (len = 0 ∨ 4096 < len) := by omega
  have hfailed : CallFailed k source → Safe k len (refused len .ioError) ∧
      (Whole k source len (refused len .ioError) ↔ ¬ Overruns k source first len) := fun h =>
    ⟨safe_refused nofun, fun _ ho => ho.answered h, fun _ => whole_ioError h⟩
  by_cases ht : k.top = false
  · exact ⟨_, fun _ _ => by unfold read; rw [if_neg hlen, if_pos ht], hfailed (.inl ht)⟩
  by_cases he : k.entry (path source) = false
  · exact ⟨_, fun _ _ => by unfold read; rw [if_neg hlen, if_neg ht, if_pos he],
      hfailed (.inr (.inl he))⟩
  have hlast : first + len ≤ integerLast + 1 := by omega
  have h0 : Inv k first len 0 { data := List.replicate len 0 } := by
    refine ⟨Nat.zero_le _, by simp [Source.bytes], ?_, by rintro ⟨j, hj, -⟩; omega, ?_, rfl,
      Nat.zero_le _⟩
    · unfold Source.left
      split <;> simp [offered]
    · dsimp only
      omega
  have hfuel : len - 0 + (16 - 0) < len + 17 := by omega
  obtain ⟨s, status, hs, hl⟩ := readLoop_spec h2 hlast h0 hfuel
  refine ⟨_, fun fuel hf => ?_, whole_left h1 hlast hl⟩
  unfold read
  rw [if_neg hlen, if_neg ht, if_neg he, readLoop_mono hs hf]
  rfl

/-- A kernel that is interrupted now and then, and hands out two bytes at a time. -/
def someKernel : Kernel where
  top := true
  entry := fun _ => true
  source := { byte := fun i => BitVec.ofNat 8 (i + 65), length := some 5 }
  script := fun i => if i % 2 = 0 then .interrupted else .chunk 1

theorem read_whole_iff_someKernel :
    read someKernel .pidOne 2147483642 6 23 = some ⟨[65, 66, 67, 68, 69, 0], 5, .ok⟩ ∧
    ∃ r, (∀ fuel, 6 + 17 ≤ fuel → read someKernel .pidOne 2147483642 6 fuel = some r) ∧
      Safe someKernel 6 r ∧
      (Whole someKernel .pidOne 6 r ↔ ¬ Overruns someKernel .pidOne 2147483642 6) :=
  ⟨by decide, read_whole_iff someKernel .pidOne (by decide) (by decide) (by decide)⟩

/-- A source of one byte, every read of which is answered. -/
def oneByte : Kernel where
  top := true
  entry := fun _ => true
  source := { byte := fun _ => 49, length := some 1 }
  script := fun _ => .chunk 0

/-- It is read into one byte, but not into the one byte at the last index. -/
theorem read_last_index :
    read oneByte .selinuxEnforce 1 1 18 = some ⟨[49], 1, .ok⟩ ∧
    read oneByte .selinuxEnforce 2147483647 1 18 = some ⟨[0], 0, .ioError⟩ ∧
    ¬ Whole oneByte .selinuxEnforce 1 ⟨[0], 0, .ioError⟩ := by
  refine ⟨by decide, by decide, fun h => ?_⟩
  rcases h.fits ⟨1, le_rfl, rfl⟩ with h | ⟨-, h⟩
  · cases h
  · rcases h with h | h | ⟨i, -, h | ⟨h, -⟩⟩ <;> cases h

end NiayanAssurance.KernelRead
