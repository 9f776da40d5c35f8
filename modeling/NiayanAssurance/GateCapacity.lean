import NiayanAssurance.GateRuns
import NiayanAssurance.Lib.History

/-!
The room that the gate keeps at the end of its ledger: what has been admitted can be closed, a
torn tail can be repaired, and what is pending can be recovered.
-/

namespace NiayanAssurance.GateCapacity

open NiayanAssurance.Lib NiayanAssurance.Types NiayanAssurance.LogFormat
open NiayanAssurance.Log hiding World
open NiayanAssurance.Protocol NiayanAssurance.Requests NiayanAssurance.Ingress
open NiayanAssurance.Replay NiayanAssurance.SitePolicy NiayanAssurance.LogFile
open NiayanAssurance.Gate hiding genesis
open NiayanAssurance.GateSpec NiayanAssurance.GateLedger NiayanAssurance.GateRuns

/-! ### Where `EXHAUSTED` comes from -/

section Exhausted

variable {host : EnterHost} {w w' : World} {j : Journal} {f : File} {d : Directory Name}
  {p : Policy} {x : Submission} {good : VerifyDetached}

end Exhausted

/-! ### Complete records -/

/-- The number of complete records in the ledger. -/
def records (f : File) : ℕ := f.cached.length / 256

/-- The medium has no more complete records than are read. -/
def Firm (f : File) : Prop := f.stable.length / 256 ≤ records f

/-- At most `n` records have come to the file. -/
structure Grows (n : ℕ) (f f' : File) : Prop where
  low : records f ≤ records f'
  high : records f' ≤ records f + n
  firm : Firm f → Firm f'

section Grow

variable {f f' f'' : File} {n m : ℕ} {j j' : Journal} {e : LogFormat.Entry} {o : Outcome}
  {t : Digest}

lemma Grows.refl (n : ℕ) (f : File) : Grows n f f := ⟨le_rfl, Nat.le_add_right _ _, id⟩

lemma Grows.trans (h : Grows n f f') (h' : Grows m f' f'') : Grows (n + m) f f'' :=
  ⟨h.low.trans h'.low, by have := h.high; have := h'.high; omega, h'.firm ∘ h.firm⟩

lemma Grows.mono (h : Grows n f f') (hn : n ≤ m) : Grows m f f' :=
  ⟨h.low, by have := h.high; omega, h.firm⟩

lemma records_crash (hf : Firm f) (fromStable : Bool) (n : ℕ) :
    records (f.crash fromStable n) ≤ records f ∧ Firm (f.crash fromStable n) := by
  refine ⟨?_, le_rfl⟩
  unfold Firm records at *
  unfold File.crash
  rw [List.length_take]
  cases fromStable <;> simp only [if_true, if_false, Bool.false_eq_true] <;> omega

end Grow

/-! ### Files beside the ledger -/

/-- The size of a file with this name. -/
def sizeOf : Name → ℕ
  | .request _ => 416
  | .repair _ => 480

/-- Every file has the size that its name asks for. -/
def Sized (d : Directory Name) : Prop :=
  ∀ name b, d.cached name = some b ∨ d.stable name = some b → b.length = sizeOf name

section Sizes

variable {d d' : Directory Name} {name : Name} {data : Bytes} {o : Outcome}

lemma Sized.sync (h : Sized d) : Sized d.sync := fun name b hb =>
  h name b (.inl (or_self_iff.mp hb))

lemma Sized.place (h : Sized d) (hd : data.length = sizeOf name) : Sized (d.place name data) := by
  intro n b hb
  by_cases hn : n = name
  · rcases hb with hb | hb
    · subst hn
      simp only [Directory.place, Function.update_self, Option.some.injEq] at hb
      rw [← hb, hd]
    · exact h n b (.inr hb)
  · rcases hb with hb | hb
    · simp only [Directory.place, Function.update_of_ne hn] at hb
      exact h n b (.inl hb)
    · exact h n b (.inr hb)

lemma Sized.crash (h : Sized d) (keep : Name → Bool) : Sized (d.crash keep) := by
  intro n b hb
  have hb : (if keep n then d.cached n else d.stable n) = some b := or_self_iff.mp hb
  split at hb
  · exact h n b (.inl hb)
  · exact h n b (.inr hb)

end Sizes

/-! ### What a call uses -/

section Uses

variable {good : VerifyDetached} {w w' : World} {d : Directory Name} {f : File} {j : Journal}
  {p : Policy} {x : Submission} {v : Judged} {a : Answer} {id : ℕ}

/-- The room that a request must find. -/
def Fits (f : File) (x : Submission) : Prop :=
  ∃ r, Requests.decode x.body = .ok r ∧ records f + needed r.action ≤ maxRecords

/-- Whoever has the ledger open with an admitted request has been counted. -/
def Counted (n : ℕ) (w : World) : Prop :=
  ∀ id s, w.holder = some (id, s) → s.admitted = true → s.journal.count ≤ n

end Uses

/-! ### The invariant -/

/-- A receiver whose ledger has kept its room. -/
structure Sound (w : World) : Prop where
  fits : records w.log ≤ maxRecords
  firm : Firm w.log
  sized : Sized w.directory
  /-- What is open can be closed, and a tail that this tears can be repaired. -/
  promised : ∀ id s, w.holder = some (id, s) → s.admitted = true →
    s.journal.count + 3 ≤ maxRecords ∧ records w.log + 3 ≤ maxRecords

/-- Once what is open is closed, `n` records are left to write. -/
structure Reserve (n : ℕ) (w : World) : Prop where
  idle : records w.log + n ≤ maxRecords
  live : ∀ id s, w.holder = some (id, s) → s.admitted = true → records w.log + 1 + n ≤ maxRecords

section Steps

variable {good : VerifyDetached} {w w' : World} {n : ℕ} {id : ℕ} {x : Submission} {a : Answer}

lemma four_le_needed (r : RequestedAction) : 4 ≤ needed r := by
  unfold needed
  split <;> omega

lemma Fits.le {f : File} (h : Fits f x) : records f + 4 ≤ maxRecords := by
  obtain ⟨r, -, h⟩ := h
  have := four_le_needed r.action
  omega

lemma close_cases (w : World) (id : ℕ) :
    close w id = w ∨ close w id = { w with holder := none } := by
  unfold close
  split
  · exact .inr rfl
  · exact .inl rfl

lemma Reserve.close (hr : Reserve n w) (id : ℕ) : Reserve n (close w id) := by
  rcases close_cases w id with h | h <;> rw [h]
  · exact hr
  · exact ⟨hr.idle, fun k s hk => by cases hk⟩

lemma Reserve.crash (hr : Reserve n w) (hs : Sound w) (k : Crash) : Reserve n (w.crash k) := by
  cases k with
  | process id => exact hr.close id
  | machine fromStable m keep =>
    have hle := (records_crash hs.firm fromStable m).1
    have := hr.idle
    refine ⟨?_, fun k s hk => by cases hk⟩
    show records (w.log.crash fromStable m) + n ≤ maxRecords
    omega

/-- Nothing that is used and not paid for. -/
lemma Reserve.same (hr : Reserve n w) (hl : w'.log = w.log)
    (hh : ∀ k s, w'.holder = some (k, s) → s.admitted = true → w.holder = some (k, s)) :
    Reserve n w' :=
  ⟨hl ▸ hr.idle, fun k s hk ha => hl ▸ hr.live k s (hh k s hk ha) ha⟩

end Steps

/-! ### Room is enough -/

section Room

variable {good : VerifyDetached} {w : World} {f : File} {d : Directory Name} {j : Journal}
  {id : ℕ} {x : Submission} {r : Request}

/-- No other file is in the way of an envelope. -/
lemma Sized.le (hs : Sized d) {name : Name} {data : Bytes} (hd : data.length = sizeOf name) :
    ∀ b, d.cached name = some b → b.length ≤ data.length :=
  fun b hb => by rw [hs name b (.inl hb), hd]

end Room

/-! ### Runs -/

abbrev Entry := Lib.Entry World Call (Option Answer)

/-- A recovery is asked for: `Recover`, `Restore`, `Reconcile` or `Repair`. -/
def asksRecovery (x : Submission) : Bool :=
  match Requests.decode x.body with
  | .ok r => decide (Recovery r.action)
  | .error _ => false

/-- The call has begun a recovery: its record is in the ledger, or a part of it. -/
def recovers (good : VerifyDetached) (h : Entry) : Bool :=
  match h.call.operation with
  | .begin id x host =>
    asksRecovery x && decide ((beginRequest good h.before id x host).1.log ≠ h.before.log)
  | _ => false

/-- The call has repaired the ledger, or a part of it. -/
def repairs (good : VerifyDetached) (h : Entry) : Bool :=
  match h.call.operation with
  | .repair x host => decide ((repairLedger good h.before x host).1.log ≠ h.before.log)
  | _ => false

section Runs

variable {good : VerifyDetached} {w w' : World} {n k : ℕ} {id : ℕ} {x : Submission} {a : Answer}
  {h : Entry} {l : List Entry}

lemma Fits.new {f : File} (hf : Fits f x) (hx : asksRecovery x = false) :
    records f + 8 ≤ maxRecords := by
  obtain ⟨r, hr, hn⟩ := hf
  have hrec : ¬ Recovery r.action := by simpa [asksRecovery, hr] using hx
  rwa [needed, if_neg hrec] at hn

end Runs

/-! ### The end of the ledger -/

/-- The operations of a request: the record that begins it, and the one that ends it. -/
def OfRequest : Operation → Prop
  | .begin _ _ _ => True
  | .finish _ _ _ => True
  | _ => False

section Ends

variable {good : VerifyDetached} {w w' : World} {id : ℕ} {x : Submission} {l : List Entry}

end Ends

end NiayanAssurance.GateCapacity
