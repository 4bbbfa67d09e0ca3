import NemoClaw.Lib.Machine
import NemoClaw.Lib.Dict
import NemoClaw.Nmb.Models
import NemoClaw.Nmb.Broker
import NemoClaw.Nmb.Books
import NemoClaw.Nmb.AuditLog
import NemoClaw.Nmb.PendingCounts
import NemoClaw.Lib.OneShot
import NemoClaw.Lib.Pipes
import NemoClaw.Lib.Links
import NemoClaw.Lib.KeyTable
import NemoClaw.Lib.WorkTree
import NemoClaw.Lib.Json
import NemoClaw.Lib.Digits
import NemoClaw.Lib.JsonReader
import NemoClaw.Lib.Records
import NemoClaw.Lib.Recent
import NemoClaw.Lib.Cuts
import NemoClaw.Lib.Chunks
import NemoClaw.Lib.Occurrences
import NemoClaw.Lib.Lines
import NemoClaw.Lib.Quotas
import NemoClaw.Lib.Newest
import NemoClaw.Lib.Renaming
import NemoClaw.Lib.Overlays
import NemoClaw.Lib.FirstCome
import NemoClaw.Lib.Files
import NemoClaw.Lib.Simulation
import NemoClaw.Lib.Transcript
import NemoClaw.Lib.RateWindow
import NemoClaw.Lib.KeyLocks
import NemoClaw.Lib.Budget
import NemoClaw.Lib.Observers
import NemoClaw.Nmb.Outcomes
import NemoClaw.Nmb.Routing
import NemoClaw.Nmb.Replies
import NemoClaw.Nmb.Identity
import NemoClaw.Nmb.Deliveries
import NemoClaw.Nmb.Ordering
import NemoClaw.Nmb.Traffic
import NemoClaw.Nmb.Sizes
import NemoClaw.Nmb.Channels
import NemoClaw.Nmb.Lifetimes
import NemoClaw.Lib.Semaphore
import NemoClaw.Lib.Batch
import NemoClaw.Lib.Custody
import NemoClaw.Lib.Turns
import NemoClaw.Lib.Slots
import NemoClaw.Audit.Models
import NemoClaw.Audit.FlushLoop
import NemoClaw.Audit.Writer
import NemoClaw.Audit.ToolCalls
import NemoClaw.Nmb.Protocol
import NemoClaw.Nmb.WireFormat
import NemoClaw.Orchestrator.Delegation
import NemoClaw.Orchestrator.Calls
import NemoClaw.Orchestrator.Slots
import NemoClaw.Orchestrator.Dispatcher
import NemoClaw.Orchestrator.Completions
import NemoClaw.Orchestrator.Senders
import NemoClaw.Orchestrator.FinalizationActions
import NemoClaw.Orchestrator.Clicks
import NemoClaw.Orchestrator.FinalizationTools
import NemoClaw.Orchestrator.Endings
import NemoClaw.Orchestrator.Attempts
import NemoClaw.Orchestrator.DelegateTask
import NemoClaw.Audit.Delegations
import NemoClaw.Nmb.Client
import NemoClaw.Nmb.Correlation
import NemoClaw.Nmb.DeliveryQueues
import NemoClaw.Nmb.PolicyRenaming
import NemoClaw.Nmb.Policies
import NemoClaw.Nmb.Confinement
import NemoClaw.Nmb.PolicyRefinement
import NemoClaw.Nmb.Harness
import NemoClaw.Nmb.Sessions
import NemoClaw.Nmb.Settlement
import NemoClaw.Lib.Coroutine
import NemoClaw.Agent.Models
import NemoClaw.Agent.Compaction
import NemoClaw.Agent.Loop
import NemoClaw.Agent.ToolProtocol
import NemoClaw.Agent.MicroCompaction
import NemoClaw.Agent.RecentContext
import NemoClaw.Agent.Workspace
import NemoClaw.Agent.WriteGate
import NemoClaw.Agent.Progress
import NemoClaw.Agent.AuditBuffer
import NemoClaw.Agent.TaskRunner
import NemoClaw.Agent.Surface
import NemoClaw.Agent.Capabilities
import NemoClaw.Agent.GitClone
import NemoClaw.Agent.FileTools
import NemoClaw.Agent.Edits
import NemoClaw.Agent.Globs
import NemoClaw.Agent.SearchTools
import NemoClaw.Agent.Grep
import NemoClaw.Agent.PromptBuilder
import NemoClaw.Orchestrator.Orchestrator
import NemoClaw.Orchestrator.ThreadHistory
import NemoClaw.Orchestrator.Continuations
import NemoClaw.Connectors.SlackText
import NemoClaw.Connectors.FinalizationMessages
import NemoClaw.Connectors.Handling
import NemoClaw.Connectors.ApprovalClicks
import NemoClaw.Connectors.ErrorLimit
import NemoClaw.Agent.Paging
import NemoClaw.Agent.SkillLoader
import NemoClaw.Orchestrator.PendingIterations
import NemoClaw.Orchestrator.History
import NemoClaw.Orchestrator.Approvals
import NemoClaw.Orchestrator.Feedback
import NemoClaw.Orchestrator.Prompts
import NemoClaw.Orchestrator.Baselines
import NemoClaw.Orchestrator.Progress
import NemoClaw.Orchestrator.Answers
import NemoClaw.Orchestrator.Threads
import NemoClaw.Orchestrator.Budget
import NemoClaw.System.Configuration
import NemoClaw.System.Deployment
import NemoClaw.System.ReplyPath
import NemoClaw.System.Wires
import NemoClaw.System.Redelegation
import NemoClaw.System.AuditTrail
import NemoClaw.System.AuditRows
import NemoClaw.System.Subscribers
import NemoClaw.System.SubscriptionLimit
import NemoClaw.System.ConnectionHistory
import NemoClaw.System.Review
import NemoClaw.System.BaselineDiffs
import NemoClaw.System.Retries
import NemoClaw.System.Drift
import NemoClaw.System.Mailbox
import NemoClaw.System.Executions
import NemoClaw.System.ResolvedPolicy
import NemoClaw.System.InferenceRequests
import NemoClaw.Agent.ToolSearch
