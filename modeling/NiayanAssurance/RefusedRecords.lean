import NiayanAssurance.FaultReport
import NiayanAssurance.HealthReport
import NiayanAssurance.Layouts

/-!
What a decoder leaves in its out parameter when it refuses a record of a ledger, the body of a
request, a fault report or a health report.
-/

namespace NiayanAssurance.RefusedRecords

open NiayanAssurance.Lib NiayanAssurance.Types
open NiayanAssurance.Requests (Request RequestedAction bodySize)
open NiayanAssurance.LogFormat (Entry Filled recordSize)
open NiayanAssurance.Layouts

/-! ### Requests -/

lemma decode_request_frame {b : Bytes} {a : RequestedAction} (h : RequestFrame b a) :
    (Requests.decodeOut b).1 = Requests.fields b a := by
  unfold Requests.decodeOut
  rw [if_neg (by simp [h.length, bodySize]), h.action]
  dsimp only
  rw [if_neg (by simp [h.magic, h.version, h.gap, h.gap', h.revision, h.generation])]
  split_ifs <;> rfl

theorem request_fills : Fills Requests.decodeOut .ok {} (fun b r => Requests.encode r = b)
    (fun _ r => Request.Admissible r) where
  value := by
    rintro b r rfl
    obtain ⟨hf, hr⟩ := request_frame r
    rw [decode_request_frame hf, hr]
  status := by
    rintro b r rfl
    obtain ⟨hf, hr⟩ := request_frame r
    have hv := decode_request_frame hf
    constructor
    · intro hs
      have h : Requests.decode (Requests.encode r) = .ok _ := returned_ok.2 (Prod.ext rfl hs)
      obtain ⟨ha, hadm⟩ := (request_canonical _ _).mp h
      exact (hv.trans hr) ▸ hadm
    · exact fun hadm => congrArg Prod.snd (returned_ok.1 (request_canonical.decode_encode hadm))
  rest := by
    intro b hs
    unfold Requests.decodeOut
    split
    · rfl
    rename_i h1
    split
    · rfl
    rename_i a ha
    split
    · rfl
    rename_i h2
    simp only [not_or, not_not, Nat.not_lt, Bool.not_eq_false] at h1 h2
    obtain ⟨g1, g2, g3, g4, g5, g6⟩ := h2
    have hf : RequestFrame b a := ⟨h1, ha, g1, g2, g3, g4, g5, g6⟩
    exact absurd (request_encode_fields hf) (hs _)

/-! ### Records of a ledger -/

lemma decode_entry_frame {b : Bytes} {result : Outcome} (h : LogFormat.Framed b result) :
    (LogFormat.decodeOut b 1).1 = LogFormat.fields b result := by
  have hc : ¬ ∃ offset ∈ LogFormat.checks, Counter.last < u64 b offset := by
    push Not
    exact h.counters
  unfold LogFormat.decodeOut
  rw [if_neg (by simp [h.length, recordSize, h.magic, h.digest]), if_neg (by simp [h.gap]),
    if_neg (by simp [h.gap']), h.result]
  dsimp only
  rw [if_neg hc]
  split_ifs <;> rfl

theorem entry_fills : Fills (fun x : Bytes × ℕ => LogFormat.decodeOut x.1 x.2) .ok {}
    (fun x e => x.2 = 1 ∧ LogFormat.encode e = x.1) (fun _ e => Filled e) where
  value := by
    rintro ⟨b, first⟩ e ⟨rfl, rfl⟩
    exact (decode_entry_frame (LogFormat.framed_encode e)).trans (LogFormat.fields_encode e)
  status := by
    rintro ⟨b, first⟩ e ⟨rfl, rfl⟩
    have hv := decode_entry_frame (LogFormat.framed_encode e)
    rw [LogFormat.fields_encode] at hv
    dsimp only
    constructor
    · intro hs
      exact (LogFormat.decode_eq_some_iff.mp (LogFormat.decode_iff.2 (Prod.ext hv hs))).2
    · exact fun hf => congrArg Prod.snd
        (LogFormat.decode_iff.1 (LogFormat.decode_eq_some_iff.mpr ⟨rfl, hf⟩))
  rest := by
    rintro ⟨b, first⟩ hs
    show (LogFormat.decodeOut b first).1 = {}
    unfold LogFormat.decodeOut
    split
    · rfl
    rename_i h1
    split
    · rfl
    rename_i h2
    split
    · rfl
    rename_i h3
    split
    · rfl
    rename_i result hr
    split
    · rfl
    rename_i h4
    simp only [not_or, not_not, Bool.not_eq_false] at h1 h2 h3
    push Not at h4
    obtain ⟨g1, g2, g3, g4⟩ := h1
    have hf : LogFormat.Framed b result := ⟨g1, g3, hr, h2, h3, h4, g4⟩
    exact absurd ⟨g2, LogFormat.encode_fields hf⟩ (hs _)

/-! ### The result -/

/-- A decoder that refuses leaves the default. -/
def Closed {α : Type} (x : α × Outcome) (default : α) : Prop := x.2 ≠ .ok → x.1 = default

/-- **The decoders fail closed just on the frames that spell no refused record**: on a string
that is no frame of a record, or of one that is accepted, or of the default. -/
theorem closed_iff (b : Bytes) (first : ℕ) :
    (Closed (LogFormat.decodeOut b first) {}
        ↔ (first = 1 → ∀ e, LogFormat.encode e = b → Filled e ∨ e = {}))
      ∧ (Closed (Requests.decodeOut b) {}
        ↔ ∀ r, Requests.encode r = b → Request.Admissible r ∨ r = {})
      ∧ (Closed (FaultReport.decode b first) {}
        ↔ (first = 1 → ∀ f, FaultReport.encode f = b → Faults.Valid f ∨ f = {}))
      ∧ (Closed (HealthReport.decode b) {}
        ↔ ∀ r gap, HealthReport.frame r gap = b →
          (HealthReport.Valid r ∧ HealthReport.encode r = b) ∨ r = {}) := by
  refine ⟨(entry_fills.default_iff (b, first)).trans ?_, request_fills.default_iff b,
    (FaultReport.fills.default_iff (b, first)).trans ?_,
    (HealthReport.fills.default_iff b).trans ?_⟩
  · exact ⟨fun h hf e he => h e ⟨hf, he⟩, fun h e he => h he.1 e he.2⟩
  · exact ⟨fun h hf f he => h f ⟨hf, he⟩, fun h f he => h he.1 f he.2⟩
  · exact ⟨fun h r gap he => h r ⟨gap, he⟩, fun h r ⟨gap, he⟩ => h r gap he⟩

/-! ### Refused records that are exposed -/

/-- A record without a kind, a request without a transaction, and a fault and a report on the
health of no node. -/
theorem refused_exposed :
    ¬ Closed (LogFormat.decodeOut (LogFormat.encode { token := 7 }) 1) {}
      ∧ ¬ Closed (Requests.decodeOut (Requests.encode { planDigest := .fill 32 7 })) {}
      ∧ ¬ Closed (FaultReport.decode (FaultReport.encode { policy := .fill 32 7 }) 1) {}
      ∧ ¬ Closed (HealthReport.decode (HealthReport.encode { businessHealthy := true })) {} := by
  unfold Closed
  decide +kernel

end NiayanAssurance.RefusedRecords
