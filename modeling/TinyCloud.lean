import TinyCloud.Browser.DenyFinal
import TinyCloud.Browser.Lifecycle
import TinyCloud.Capability.GrantCoverage
import TinyCloud.Capability.Resource
import TinyCloud.Capability.Soundness
import TinyCloud.Capability.Subset
import TinyCloud.Courier.Approval
import TinyCloud.Courier.Broker
import TinyCloud.Courier.BrokerOnce
import TinyCloud.Courier.FileLock
import TinyCloud.Courier.FileLockExclusion
import TinyCloud.Courier.Request
import TinyCloud.Kv.Fencing
import TinyCloud.Kv.NoStaleServe
import TinyCloud.Kv.PendingWrites
import TinyCloud.Kv.Purge
import TinyCloud.Kv.ReadThrough
import TinyCloud.Policy.Attenuation
import TinyCloud.Policy.Canonicity
import TinyCloud.Policy.Compact
import TinyCloud.Policy.Descendant
import TinyCloud.Profile.DenyFloor
import TinyCloud.Profile.GateFile
import TinyCloud.Profile.TurnDirectory
import TinyCloud.Profile.TurnExclusion
import TinyCloud.Profile.TurnLock
import TinyCloud.Replica.ContentFiles
import TinyCloud.Replica.Durability
import TinyCloud.Replica.Engine
import TinyCloud.Replica.Entries
import TinyCloud.Replica.LearnRevocation
import TinyCloud.Replica.LocalReads
import TinyCloud.Replica.SerialFeed
import TinyCloud.Replica.Steps
import TinyCloud.Runs.Effectful
import TinyCloud.Runs.Machine
import TinyCloud.Text.Base64Url
import TinyCloud.Text.Double
import TinyCloud.Text.Json
import TinyCloud.Courier.Watch
import TinyCloud.Courier.WatchBudget
import TinyCloud.Courier.WatchQueue
import TinyCloud.Courier.WatchClaims
import TinyCloud.Courier.WatchHeld
import TinyCloud.Collections.Dict
import TinyCloud.ShareIndex.Precedence
import TinyCloud.ShareIndex.Document
import TinyCloud.ShareIndex.Consistency
import TinyCloud.ShareIndex.Ownership
import TinyCloud.ShareIndex.Evidence
import TinyCloud.ShareIndex.Calls
import TinyCloud.ShareIndex.Stored
import TinyCloud.ShareIndex.Admission
import TinyCloud.ShareIndex.DocSteps
import TinyCloud.ShareIndex.Replay
import TinyCloud.ShareIndex.Revocation
import TinyCloud.ShareIndex.Archives
import TinyCloud.ShareIndex.Outbox
import TinyCloud.Hooks.EventStream
import TinyCloud.ShareIndex.Crowding
import TinyCloud.Policy.Projection
import TinyCloud.Links.Grammar
import TinyCloud.Links.Spelling
import TinyCloud.Links.Header
import TinyCloud.Links.Delivery
import TinyCloud.Guard.Words
import TinyCloud.Guard.Expansion
import TinyCloud.Guard.Scripts
import TinyCloud.Guard.StaticWords
import TinyCloud.Registry.Lookup
import TinyCloud.Registry.Sequences
import TinyCloud.Courier.NoticeRate
import TinyCloud.Text.SafeInteger
import TinyCloud.Replica.GrantInstall
import TinyCloud.Text.Instant
import TinyCloud.Replica.EffectiveAuthority
import TinyCloud.Text.Base64
import TinyCloud.Text.ByteOrder
import TinyCloud.Kv.ListCursor
import TinyCloud.Kv.ListPages
import TinyCloud.Replica.GrantTime
import TinyCloud.Replica.PageCharge
import TinyCloud.Replica.ProfileQuota
import TinyCloud.Sealed.Store
import TinyCloud.Sealed.Writes
import TinyCloud.Sealed.Recount
import TinyCloud.Sealed.Counters
import TinyCloud.Registry.StrictJson
import TinyCloud.Registry.StrictLanguage
import TinyCloud.Registry.StrictReader
import TinyCloud.Profile.Deletion
import TinyCloud.Profile.DeletionSafe
import TinyCloud.Profile.DeletionRuns
import TinyCloud.Collections.Walk
import TinyCloud.Courier.Intake
import TinyCloud.Sealed.Codec
import TinyCloud.Text.Meaning
import TinyCloud.Text.Encoders
import TinyCloud.Text.Escapes
import TinyCloud.Policy.Ceiling
import TinyCloud.Policy.Native
import TinyCloud.Feed.WriteOnce
