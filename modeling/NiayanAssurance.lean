import NiayanAssurance.Lib.Run
import NiayanAssurance.Sha256
import NiayanAssurance.StopBarrierRuns
import NiayanAssurance.ControlRuns
import NiayanAssurance.LogRuns
import NiayanAssurance.ReplayRuns
import NiayanAssurance.ReplaySpec
import NiayanAssurance.GateRetry
import NiayanAssurance.GateBarrier
import NiayanAssurance.GateUnknown
import NiayanAssurance.RetryBudgetRuns
import NiayanAssurance.BackupsSpec
import NiayanAssurance.ReceiverLedgerRuns
import NiayanAssurance.JsonQueries
import NiayanAssurance.Requests
import NiayanAssurance.ObjectStoreSpec
import NiayanAssurance.Checkpoint
import NiayanAssurance.IncidentsRuns
import NiayanAssurance.Generation
import NiayanAssurance.Commissioning
import NiayanAssurance.RecoveryCohort
import NiayanAssurance.StopBarrierAuth
import NiayanAssurance.GateCapacity
import NiayanAssurance.RecoveryQuorum
import NiayanAssurance.ReconstructSpec
import NiayanAssurance.Candidate
import NiayanAssurance.RoundTrip
import NiayanAssurance.StopBarrierCodec
import NiayanAssurance.Frames
import NiayanAssurance.Layouts
import NiayanAssurance.StopBarrierOrder
import NiayanAssurance.IncidentsClosed
import NiayanAssurance.ReceiverLedgerFailures
import NiayanAssurance.RefusedRecords
import NiayanAssurance.GateCheck
import NiayanAssurance.ControlSubmit
import NiayanAssurance.Inspect
import NiayanAssurance.BackupsUsable
import NiayanAssurance.KernelRead
import NiayanAssurance.Base64
import NiayanAssurance.Dirents
import NiayanAssurance.Properties
import NiayanAssurance.Sha256Fips
import NiayanAssurance.AttributesUpdate
import NiayanAssurance.Command
import NiayanAssurance.CheckpointStoreSpec
import NiayanAssurance.Backoff
import NiayanAssurance.Numbers
import NiayanAssurance.Paths
import NiayanAssurance.Adrs
import NiayanAssurance.PolicyAdminRuns
import NiayanAssurance.RequestAuthority
import NiayanAssurance.RequestSpool
import NiayanAssurance.ControlAdmin
import NiayanAssurance.ControlAdminRuns
import NiayanAssurance.ObjectStoreRead
