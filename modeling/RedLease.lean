import RedLease.Client.Cleanup
import RedLease.Client.Confirmation
import RedLease.Client.Healing
import RedLease.Client.Release
import RedLease.Client.Scripts
import RedLease.Client.Selection
import RedLease.Client.Sessions
import RedLease.Client.Shutdown
import RedLease.Client.WaitReady
import RedLease.Client1of1.Agreement
import RedLease.Client1of1.Await
import RedLease.ClientMetrics.Snapshot
import RedLease.Cluster.Confirmation
import RedLease.Cluster.Renewal
import RedLease.Cluster.Solo
import RedLease.Lib.FlatBuffers.Builder
import RedLease.Lib.FlatBuffers.Table
import RedLease.MpscRing.Correct
import RedLease.MpscRing.Length
import RedLease.Server.Phases
import RedLease.Server.Promise
import RedLease.Server.Refinement
import RedLease.Server.Refusal
import RedLease.Server.Representation
import RedLease.Server.Served
import RedLease.Server.Shutdown
import RedLease.Shutdown
import RedLease.Slots.Lifecycle
import RedLease.Transport.Reader
import RedLease.Transport.Writer
import RedLease.Wire.Request
import RedLease.Wire.Response
import RedLease.Wire.Schema
import RedLease.Wire.Service
