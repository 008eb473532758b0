import Laoshiren.Foundation.Blocks
import Laoshiren.Foundation.FencedLease
import Laoshiren.Foundation.Growth
import Laoshiren.Foundation.Json
import Laoshiren.Foundation.JsonDumps
import Laoshiren.Foundation.Jsonb
import Laoshiren.Foundation.Machine
import Laoshiren.Foundation.NumberedLog
import Laoshiren.Foundation.Raise
import Laoshiren.Foundation.RankFusion
import Laoshiren.Foundation.ReadCommitted
import Laoshiren.Foundation.Redirects
import Laoshiren.Foundation.RequestKeys
import Laoshiren.Foundation.Slices
import Laoshiren.Foundation.Table
import Laoshiren.Foundation.Text
import Laoshiren.Foundation.Uuid
import Laoshiren.Foundation.Versioned
import Laoshiren.PersonalState.Attachments
import Laoshiren.PersonalState.Attention
import Laoshiren.PersonalState.Audit
import Laoshiren.PersonalState.Coherence
import Laoshiren.PersonalState.ContextRefresh
import Laoshiren.PersonalState.Entities
import Laoshiren.PersonalState.Holdings
import Laoshiren.PersonalState.Queries
import Laoshiren.PersonalState.Replay
import Laoshiren.PersonalState.Repositories
import Laoshiren.PersonalState.Snapshot
import Laoshiren.PersonalState.System
import Laoshiren.PersonalState.TaskWrites
import Laoshiren.PersonalState.ThingWrites
import Laoshiren.PersonalState.Versions
import Laoshiren.PersonalState.Views
import Laoshiren.PersonalState.Writes
import Laoshiren.PersonalState.Proofs.AttachmentProofs
import Laoshiren.PersonalState.Proofs.AttentionProofs
import Laoshiren.PersonalState.Proofs.AuditProofs
import Laoshiren.PersonalState.Proofs.CommitProofs
import Laoshiren.PersonalState.Proofs.ContextRefreshProofs
import Laoshiren.PersonalState.Proofs.DeadlineProofs
import Laoshiren.PersonalState.Proofs.IsolationProofs
import Laoshiren.PersonalState.Proofs.MergeProofs
import Laoshiren.PersonalState.Proofs.OwnershipProofs
import Laoshiren.PersonalState.Proofs.QueryProofs
import Laoshiren.PersonalState.Proofs.RedirectProofs
import Laoshiren.PersonalState.Proofs.ReplayProofs
import Laoshiren.PersonalState.Proofs.SnapshotProofs
import Laoshiren.PersonalState.Proofs.SystemProofs
import Laoshiren.PersonalState.Proofs.ThingWriteProofs
import Laoshiren.PersonalState.Proofs.TombstoneProofs
import Laoshiren.PersonalState.Proofs.VersionProofs
import Laoshiren.PersonalState.Proofs.ViewProofs
import Laoshiren.PersonalState.Proofs.WriteProofs
import Laoshiren.Runtime.AgentLoop
import Laoshiren.Runtime.Dispatch
import Laoshiren.Runtime.Effects
import Laoshiren.Runtime.Entities
import Laoshiren.Runtime.JobQueue
import Laoshiren.Runtime.Journal
import Laoshiren.Runtime.Lifecycle
import Laoshiren.Runtime.Repositories
import Laoshiren.Runtime.RunService
import Laoshiren.Runtime.Store
import Laoshiren.Runtime.StreamRun
import Laoshiren.Runtime.System
import Laoshiren.Runtime.ToolService
import Laoshiren.Runtime.Worker
import Laoshiren.Runtime.Proofs.ActiveTimeProofs
import Laoshiren.Runtime.Proofs.AgentLoopProofs
import Laoshiren.Runtime.Proofs.BoundMutationProofs
import Laoshiren.Runtime.Proofs.CancellationProofs
import Laoshiren.Runtime.Proofs.CreationProofs
import Laoshiren.Runtime.Proofs.DispatchProofs
import Laoshiren.Runtime.Proofs.DrivenProofs
import Laoshiren.Runtime.Proofs.EffectsProofs
import Laoshiren.Runtime.Proofs.EventLogProofs
import Laoshiren.Runtime.Proofs.FencingProofs
import Laoshiren.Runtime.Proofs.InteractionProofs
import Laoshiren.Runtime.Proofs.JobProofs
import Laoshiren.Runtime.Proofs.JournalProofs
import Laoshiren.Runtime.Proofs.LeaseRenewalProofs
import Laoshiren.Runtime.Proofs.LedgerProofs
import Laoshiren.Runtime.Proofs.LifecycleProofs
import Laoshiren.Runtime.Proofs.ReplyProofs
import Laoshiren.Runtime.Proofs.ResponsesProofs
import Laoshiren.Runtime.Proofs.RunLoopProofs
import Laoshiren.Runtime.Proofs.StoreProofs
import Laoshiren.Runtime.Proofs.StreamRunProofs
import Laoshiren.Automations.Effects
import Laoshiren.Automations.Entities
import Laoshiren.Automations.Execution
import Laoshiren.Automations.Invariants
import Laoshiren.Automations.PushDelivery
import Laoshiren.Automations.Repositories
import Laoshiren.Automations.Scheduling
import Laoshiren.Automations.System
import Laoshiren.Automations.Proofs.ClientProofs
import Laoshiren.Automations.Proofs.CompletionProofs
import Laoshiren.Automations.Proofs.DetachedPushProofs
import Laoshiren.Automations.Proofs.ExecutionProofs
import Laoshiren.Automations.Proofs.FiringProofs
import Laoshiren.Automations.Proofs.HistoryProofs
import Laoshiren.Automations.Proofs.InvariantProofs
import Laoshiren.Automations.Proofs.MaterializeProofs
import Laoshiren.Automations.Proofs.OutcomeProofs
import Laoshiren.Automations.Proofs.ProgressProofs
import Laoshiren.Automations.Proofs.PushDeliveryProofs
import Laoshiren.Automations.Proofs.QueueProofs
import Laoshiren.Automations.Proofs.RecurrenceProofs
import Laoshiren.Automations.Proofs.SilencingProofs
import Laoshiren.Automations.Proofs.StoppingProofs
import Laoshiren.Identity.Effects
import Laoshiren.Identity.Entities
import Laoshiren.Identity.Service
import Laoshiren.Identity.System
import Laoshiren.Identity.Proofs.AccountProofs
import Laoshiren.Identity.Proofs.AuthenticationProofs
import Laoshiren.Identity.Proofs.DeletionProofs
import Laoshiren.Identity.Proofs.DetachmentProofs
import Laoshiren.Identity.Proofs.EffectProofs
import Laoshiren.Identity.Proofs.RefreshProofs
import Laoshiren.Sources.Chunking
import Laoshiren.Sources.ContextChunks
import Laoshiren.Sources.Effects
import Laoshiren.Sources.Entities
import Laoshiren.Sources.Repositories
import Laoshiren.Sources.System
import Laoshiren.Sources.TextParser
import Laoshiren.Sources.Writes
import Laoshiren.Sources.Proofs.ChunkingProofs
import Laoshiren.Sources.Proofs.ClaimProofs
import Laoshiren.Sources.Proofs.ContextProofs
import Laoshiren.Sources.Proofs.CoverageProofs
import Laoshiren.Sources.Proofs.DeletionProofs
import Laoshiren.Sources.Proofs.ExhaustionProofs
import Laoshiren.Sources.Proofs.FileProofs
import Laoshiren.Sources.Proofs.FileSearchProofs
import Laoshiren.Sources.Proofs.LocatorProofs
import Laoshiren.Sources.Proofs.PurgeProofs
import Laoshiren.Sources.Proofs.SettlingProofs
import Laoshiren.Sources.Proofs.StorageProofs
import Laoshiren.Sources.Proofs.TextParserProofs
import Laoshiren.Sources.Proofs.WriteProofs
import Laoshiren.Memories.Candidates
import Laoshiren.Memories.Effects
import Laoshiren.Memories.Extractor
import Laoshiren.Memories.Formation
import Laoshiren.Memories.Retrieval
import Laoshiren.Memories.System
import Laoshiren.Memories.Worker
import Laoshiren.Memories.Writes
import Laoshiren.Memories.Proofs.ContextProofs
import Laoshiren.Memories.Proofs.DuplicateProofs
import Laoshiren.Memories.Proofs.ExtractorProofs
import Laoshiren.Memories.Proofs.ForgettingProofs
import Laoshiren.Memories.Proofs.FormationProofs
import Laoshiren.Memories.Proofs.LifecycleProofs
import Laoshiren.Memories.Proofs.RetrievalProofs
import Laoshiren.Memories.Proofs.SupersessionProofs
import Laoshiren.Memories.Proofs.WorkerProofs
import Laoshiren.Agent.Contracts
import Laoshiren.Agent.DateTools
import Laoshiren.Agent.DecisionParser
import Laoshiren.Agent.Graph
import Laoshiren.Agent.Parallel
import Laoshiren.Agent.Policy
import Laoshiren.Agent.StateTools
import Laoshiren.Agent.Takeover
import Laoshiren.Agent.Visit
import Laoshiren.Agent.Proofs.ActionIdProofs
import Laoshiren.Agent.Proofs.BatchProofs
import Laoshiren.Agent.Proofs.BudgetProofs
import Laoshiren.Agent.Proofs.DatePolicyProofs
import Laoshiren.Agent.Proofs.DecisionParserProofs
import Laoshiren.Agent.Proofs.ParallelProofs
import Laoshiren.Agent.Proofs.PermissionProofs
import Laoshiren.Agent.Proofs.SearchQuotaProofs
import Laoshiren.Agent.Proofs.StateToolProofs
import Laoshiren.Agent.Proofs.TakeoverProofs
import Laoshiren.Agent.Proofs.VisitProofs
import Laoshiren.Context.Builder
import Laoshiren.Context.Sections
import Laoshiren.Context.Proofs.BuilderProofs
import Laoshiren.Context.Proofs.SectionProofs
import Laoshiren.Search.Service
import Laoshiren.Search.Proofs.CacheProofs
import Laoshiren.Coordination.RateLimit
import Laoshiren.Coordination.Proofs.RateLimitProofs
import Laoshiren.HarmonyOS.Chat
import Laoshiren.HarmonyOS.Session
import Laoshiren.HarmonyOS.Proofs.CursorProofs
import Laoshiren.HarmonyOS.Proofs.SessionProofs
import Laoshiren.Migrations.Upgrades
import Laoshiren.Migrations.Proofs.UpgradeProofs
import Laoshiren.Requests.Keys
import Laoshiren.Requests.Proofs.AutomationKeyProofs
import Laoshiren.Requests.Proofs.KeyProofs
import Laoshiren.Requests.Proofs.RunKeyProofs
