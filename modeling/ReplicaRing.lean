import ReplicaRing.Call.Context
import ReplicaRing.Call.Failure
import ReplicaRing.Client.Basic
import ReplicaRing.Client.Lister
import ReplicaRing.Client.Summary
import ReplicaRing.Config.Adjustment
import ReplicaRing.Config.Basic
import ReplicaRing.Config.Json
import ReplicaRing.Content.ByteRange
import ReplicaRing.Content.Listing
import ReplicaRing.Duration.Basic
import ReplicaRing.Duration.Reader
import ReplicaRing.Error
import ReplicaRing.Fingerprint.Hash
import ReplicaRing.Fingerprint.Layout
import ReplicaRing.Json.Record
import ReplicaRing.Json.Value
import ReplicaRing.Key
import ReplicaRing.KeySpace.Basic
import ReplicaRing.KeySpace.Cover
import ReplicaRing.KeySpace.Segment
import ReplicaRing.KeySpace.Text
import ReplicaRing.KeySpace.Words
import ReplicaRing.Membership.Peer
import ReplicaRing.Membership.View
import ReplicaRing.Node.Address
import ReplicaRing.Node.Directory
import ReplicaRing.Node.IpText
import ReplicaRing.Node.Registry
import ReplicaRing.Node.Server
import ReplicaRing.Node.State
import ReplicaRing.Operation.Goal
import ReplicaRing.Operation.Network
import ReplicaRing.Operation.Run
import ReplicaRing.Operation.Timer
import ReplicaRing.Proofs.Client.Absence
import ReplicaRing.Proofs.Client.Backoff
import ReplicaRing.Proofs.Client.Blame
import ReplicaRing.Proofs.Client.FirstMessage
import ReplicaRing.Proofs.Client.Following
import ReplicaRing.Proofs.Client.Paging
import ReplicaRing.Proofs.Config.Forms
import ReplicaRing.Proofs.Duration.Reading
import ReplicaRing.Proofs.Duration.Writing
import ReplicaRing.Proofs.Fingerprint.Layout
import ReplicaRing.Proofs.Json.Forms
import ReplicaRing.Proofs.Json.Record
import ReplicaRing.Proofs.KeySpace.Boundary
import ReplicaRing.Proofs.KeySpace.Coverage
import ReplicaRing.Proofs.KeySpace.Cuts
import ReplicaRing.Proofs.KeySpace.RangeText
import ReplicaRing.Proofs.KeySpace.Rounding
import ReplicaRing.Proofs.KeySpace.Segments
import ReplicaRing.Proofs.KeySpace.Union
import ReplicaRing.Proofs.KeySpace.Walk
import ReplicaRing.Proofs.KeySpace.Words
import ReplicaRing.Proofs.Membership.Changes
import ReplicaRing.Proofs.Membership.Cluster
import ReplicaRing.Proofs.Membership.Coverage
import ReplicaRing.Proofs.Membership.Fingerprint
import ReplicaRing.Proofs.Membership.LastWriter
import ReplicaRing.Proofs.Membership.Replay
import ReplicaRing.Proofs.Membership.Standing
import ReplicaRing.Proofs.Membership.Workers
import ReplicaRing.Proofs.Node.AddressText
import ReplicaRing.Proofs.Node.Directory
import ReplicaRing.Proofs.Node.Newest
import ReplicaRing.Proofs.Node.Registry
import ReplicaRing.Proofs.Operation.Attempt
import ReplicaRing.Proofs.Operation.Backoff
import ReplicaRing.Proofs.Operation.Deadline
import ReplicaRing.Proofs.Operation.Exhaustion
import ReplicaRing.Proofs.Operation.Filing
import ReplicaRing.Proofs.Operation.FirstFailure
import ReplicaRing.Proofs.Operation.Flags
import ReplicaRing.Proofs.Operation.History
import ReplicaRing.Proofs.Operation.LastResort
import ReplicaRing.Proofs.Operation.Order
import ReplicaRing.Proofs.Operation.Steps
import ReplicaRing.Proofs.Operation.Stop
import ReplicaRing.Proofs.Operation.Thresholds
import ReplicaRing.Proofs.Operation.Turns
import ReplicaRing.Proofs.Routing.Availability
import ReplicaRing.Proofs.Routing.Message
import ReplicaRing.Proofs.Routing.Precedence
import ReplicaRing.Proofs.Routing.Redelivery
import ReplicaRing.Proofs.Routing.Replay
import ReplicaRing.Proofs.Routing.Reports
import ReplicaRing.Proofs.Routing.Snapshot
import ReplicaRing.Proofs.Routing.Transparency
import ReplicaRing.Proofs.Routing.Versions
import ReplicaRing.Proofs.Text.Parts
import ReplicaRing.Routing.Table
import ReplicaRing.Simulation.Script
import ReplicaRing.Text.Basic
import ReplicaRing.Text.Hidden
import ReplicaRing.Text.Utf8
