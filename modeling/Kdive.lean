import Kdive.Jobs.Abandoned
import Kdive.Jobs.Compensation
import Kdive.Jobs.Claimable
import Kdive.Capacity.Limits
import Kdive.Capacity.Turns
import Kdive.Console.Artifact
import Kdive.Console.CrashTail
import Kdive.Console.Sidecar
import Kdive.Artifacts.Window
import Kdive.Artifacts.Search
import Kdive.Uploads.Fenced
import Kdive.Uploads.SystemObjects
import Kdive.Uploads.TransportEncoding
import Kdive.Builds.Pinned
import Kdive.Runs.Binding
import Kdive.Runs.Cmdline
import Kdive.Runs.StepClaims
import Kdive.Debug.Guest
import Kdive.Debug.CommandText
import Kdive.Debug.ModuleFiles
import Kdive.Images.Quota
import Kdive.Mcp.Resources
import Kdive.Images.Listing
import Kdive.ExternalBoot.Retried
import Kdive.ExternalBoot.Tombstone
import Kdive.Capacity.Renewal
import Kdive.Capacity.Reuse
import Kdive.Secrets.Registry
import Kdive.Inventory.Sources
import Kdive.Inventory.Detached
import Kdive.Inventory.Naming
import Kdive.Authority.LaneFile
import Kdive.ExternalBoot.DebuginfoFile
import Kdive.Bundles.TwoFramings
import Kdive.Bundles.Portable
import Kdive.Bundles.Chunked
import Kdive.Bundles.Measured
import Kdive.Systems.Stalled
