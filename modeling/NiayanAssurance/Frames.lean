import NiayanAssurance.ControlCodec
import NiayanAssurance.CheckpointCodec
import NiayanAssurance.ConfigReceipt
import NiayanAssurance.Qualification

/-!
The frames that are signed, or that a history is named by: change control, checkpoints,
configuration receipts and release claims.
-/

namespace NiayanAssurance.Frames

open NiayanAssurance.Lib NiayanAssurance.Types

/-- **The frames of control, checkpoints, receipts and claims are canonical**: a frame is
accepted exactly when it is the encoding of an admissible value, and then as that value. A
receipt that is not valid has no wire. -/
theorem frames_canonical :
    Canonical Control.State.encode ControlCodec.State.decode Control.State.Valid
      ∧ Canonical ControlCodec.Proposal.encode ControlCodec.Proposal.decode (fun _ => True)
      ∧ Canonical Control.Authority.encode ControlCodec.Authority.decode Control.Authority.Valid
      ∧ Canonical CheckpointCodec.encode CheckpointCodec.decode Checkpoint.Valid
      ∧ (∀ w r, ConfigReceipt.decode w = .ok r ↔ ConfigReceipt.encode r = .ok w)
      ∧ (∀ r, ConfigReceipt.Valid r ↔ ∃ w, ConfigReceipt.encode r = .ok w)
      ∧ Canonical Qualification.encode Qualification.decode fun _ => True := by
  refine ⟨ControlCodec.state_canonical, ControlCodec.proposal_canonical,
    ControlCodec.authority_canonical, CheckpointCodec.canonical,
    ConfigReceipt.decode_eq_ok_iff, fun r => ?_, Qualification.canonical⟩
  constructor
  · exact fun h => ⟨_, (ConfigReceipt.encode_eq_ok_iff _ r).mpr ⟨rfl, h⟩⟩
  · rintro ⟨w, h⟩
    exact ((ConfigReceipt.encode_eq_ok_iff w r).mp h).2

end NiayanAssurance.Frames
