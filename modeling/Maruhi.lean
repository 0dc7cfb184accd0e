import Maruhi.Lib.OrderedMap
import Maruhi.Lib.Text
import Maruhi.Lib.Utf8
import Maruhi.Lib.Base64
import Maruhi.Lib.Framing
import Maruhi.Lib.Json
import Maruhi.Lib.JsonText
import Maruhi.Lib.Utf8Decode
import Maruhi.Lib.Binary64
import Maruhi.Chain.Types
import Maruhi.Chain.Scope
import Maruhi.Chain.Device
import Maruhi.Chain.Canonical
import Maruhi.Chain.Shape
import Maruhi.Lib.Run
import Maruhi.Chain.Rules
import Maruhi.Chain.Permit
import Maruhi.Lib.Timeline
import Maruhi.Chain.Apply
import Maruhi.Chain.History
import Maruhi.Chain.Verify
import Maruhi.Chain.Step
import Maruhi.Chain.Effect
import Maruhi.Chain.Reach
import Maruhi.Chain.Runs
import Maruhi.Lib.Index
import Maruhi.Chain.Keys
import Maruhi.Chain.KeySlots
import Maruhi.Chain.Hygiene
import Maruhi.Chain.Owners
import Maruhi.Chain.Quorum
import Maruhi.Chain.Policy
import Maruhi.Chain.Isolation
import Maruhi.Chain.Containment
import Maruhi.Chain.PermissionChange
import Maruhi.Chain.Tenure
import Maruhi.Chain.Agreement
import Maruhi.Chain.Wire
import Maruhi.Lib.Sha256
import Maruhi.Lib.Scanner
import Maruhi.Chain.Texts
import Maruhi.Chain.Injective
import Maruhi.Chain.Renaming
import Maruhi.Chain.RenamedRuns
import Maruhi.Chain.Commitment
import Maruhi.Floor.Join
import Maruhi.Floor.Lattice
import Maruhi.Floor.Compaction
import Maruhi.Floor.Order
import Maruhi.Floor.Equivocation
import Maruhi.Floor.Accept
import Maruhi.Floor.LifeCycle
import Maruhi.Floor.Pulls
import Maruhi.Bytes.Replace
import Maruhi.Bytes.Stream
import Maruhi.Rotation.Lineage
import Maruhi.Rotation.Resolution
import Maruhi.Audit.Mirror
import Maruhi.Audit.Proposals
import Maruhi.Audit.Replay
import Maruhi.Audit.Head
import Maruhi.Audit.Numbering
import Maruhi.Audit.Reconcile
import Maruhi.Audit.HonestLog
import Maruhi.Audit.Rebuild
import Maruhi.Proposals.Store
import Maruhi.Proposals.Programs
import Maruhi.Proposals.Recipients
import Maruhi.Proposals.LifeCycle
import Maruhi.Checkpoint.Digest
import Maruhi.Checkpoint.Baseline
import Maruhi.Checkpoint.Integrity
import Maruhi.Sync.Receipt
import Maruhi.Sync.Plan
import Maruhi.Sync.Source
import Maruhi.Sync.Delivery
import Maruhi.Sync.Run
import Maruhi.Proposals.Run
import Maruhi.Approval.Voting
import Maruhi.Snapshot.Tables
import Maruhi.Snapshot.Lines
import Maruhi.Snapshot.Export
import Maruhi.Snapshot.Paging
import Maruhi.Snapshot.Operations
import Maruhi.Snapshot.ExportRun
import Maruhi.Lib.Faults
import Maruhi.Lib.SeqTable
import Maruhi.ProjectDo.ChainStore
import Maruhi.ProjectDo.Operations
import Maruhi.ProjectDo.Coherence
import Maruhi.ProjectDo.Specs
import Maruhi.ProjectDo.View
import Maruhi.Chain.Bindings
import Maruhi.Signing.Validate
import Maruhi.Gossip.Attestation
import Maruhi.Gossip.Reconcile
import Maruhi.Gossip.SplitView
import Maruhi.Lease.Bindings
import Maruhi.Lease.Programs
import Maruhi.Lease.Token
import Maruhi.Lib.FirstCome
import Maruhi.Invites.Repo
import Maruhi.Invites.Calls
import Maruhi.Invites.LifeCycle
import Maruhi.Invites.Retry
import Maruhi.Wraps.Accept
import Maruhi.Lib.Trim
import Maruhi.EnvFile.Parse
import Maruhi.EnvFile.Lines
import Maruhi.EnvFile.Reference
import Maruhi.EnvFile.Quotes
import Maruhi.Lib.Register
import Maruhi.Checkpoint.TupleIndex
import Maruhi.Lib.SortedValues
import Maruhi.Wraps.RecipientSets
import Maruhi.Checkpoint.SetCommitment
import Maruhi.Lib.HashChain
import Maruhi.Audit.HeadCommitment
import Maruhi.Lib.Sharing
import Maruhi.MasterWrap.Guardian
import Maruhi.Lib.Regroup
import Maruhi.MasterWrap.Handoff
import Maruhi.Invites.OpenSsh
import Maruhi.Lib.Search
import Maruhi.Signing.Verify
import Maruhi.Signing.Attempts
import Maruhi.Signing.Resolution
import Maruhi.Signing.WrapSet
import Maruhi.Audit.Verify
import Maruhi.Audit.Completion
import Maruhi.Audit.Ahead
import Maruhi.Lib.Matching
import Maruhi.Audit.Bijection
