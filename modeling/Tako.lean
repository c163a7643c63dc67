import Tako.ControllerLeases
import Tako.NoLostUpdate
import Tako.JoinTokens
import Tako.RepeatedAuthorizations
import Tako.RevokedMeshKeys
import Tako.LeaseCrashes
import Tako.LeaseFanOutSafety
import Tako.VolumeRestore
import Tako.SecretReferences
import Tako.DriftDetection
import Tako.MeshAddresses
import Tako.ImageCleanup
import Tako.FenceAdmission
import Tako.Convergence
import Tako.RuntimeNames
import Tako.ReconcileFrame
import Tako.StateLock
import Tako.RecoveryEncryption
import Tako.JobFiles
import Tako.RunHistory
import Tako.BundleRestore
import Tako.StickyPlans
import Tako.PlannedMovement
import Tako.PlanPartition
import Tako.PortGrants
import Tako.OperationIdentity
import Tako.ProxyOwners
import Tako.ProxyTokens
import Tako.GlobalPlans
import Tako.BracedExpansion
