import ShmActors.Core.FreeList
import ShmActors.Core.CtrlRuns
import ShmActors.Task.Claimants
import ShmActors.Task.ResultRuns
import ShmActors.Task.CrashRuns
import ShmActors.Artifact.Reissue
import ShmActors.Artifact.Isolation
import ShmActors.Broadcast.Reliable
import ShmActors.Broadcast.Watch
import ShmActors.Keyed.Unique
import ShmActors.Keyed.Binding
import ShmActors.Artifact.Fencing
import ShmActors.Node.Payload
import ShmActors.Arrow.Slicing
import ShmActors.Task.Cancelling
import ShmActors.Task.Lapses
import ShmActors.Task.Outcomes
import ShmActors.Task.Retries
import ShmActors.Artifact.Walk
import ShmActors.Artifact.ManifestBytes
import ShmActors.Node.Protocol
import ShmActors.Node.Interning
import ShmActors.Arrow.Registry
import ShmActors.Node.Segments
import ShmActors.Artifact.Recorders
import ShmActors.Task.Rollover
import ShmActors.Artifact.Geometry
import ShmActors.Arrow.Hostile
import ShmActors.Artifact.LeaseWord
import ShmActors.Node.BorrowRuns
