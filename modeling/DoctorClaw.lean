import DoctorClaw.AgentTools
import DoctorClaw.AgentTools.Arguments
import DoctorClaw.AgentTools.Invocation
import DoctorClaw.AgentTools.ShellCommand
import DoctorClaw.AgentTurn
import DoctorClaw.AgentTurn.Bounds
import DoctorClaw.AgentTurn.Memory
import DoctorClaw.AgentTurn.Prompt
import DoctorClaw.Approvals
import DoctorClaw.Approvals.Records
import DoctorClaw.Audit
import DoctorClaw.Base64
import DoctorClaw.Base64.RoundTrip
import DoctorClaw.Channels
import DoctorClaw.Channels.Bodies
import DoctorClaw.Channels.Registry
import DoctorClaw.Channels.Replies
import DoctorClaw.Channels.Sending
import DoctorClaw.Channels.ShortMessages
import DoctorClaw.Channels.Splitting
import DoctorClaw.Channels.Starting
import DoctorClaw.Channels.ToolTags
import DoctorClaw.ChatContext
import DoctorClaw.ChatContext.History
import DoctorClaw.ChatContext.Trimming
import DoctorClaw.Config
import DoctorClaw.Config.Lines
import DoctorClaw.Config.Reading
import DoctorClaw.Config.RoundTrip
import DoctorClaw.Config.Settings
import DoctorClaw.ConfigFiles
import DoctorClaw.ConfigFiles.ActiveProfile
import DoctorClaw.ConfigFiles.Auth
import DoctorClaw.ConfigFiles.Managers
import DoctorClaw.ConfigFiles.Reader
import DoctorClaw.Cron
import DoctorClaw.Cron.Schedule
import DoctorClaw.Cron.Table
import DoctorClaw.Daemon
import DoctorClaw.Daemon.Commands
import DoctorClaw.Daemon.Replies
import DoctorClaw.Delivery
import DoctorClaw.Delivery.Requests
import DoctorClaw.Delivery.System
import DoctorClaw.Delivery.Workers
import DoctorClaw.GatewayChat
import DoctorClaw.GatewayChat.Escaping
import DoctorClaw.GatewayWorker
import DoctorClaw.GatewayWorker.Accounts
import DoctorClaw.GatewayWorker.Limits
import DoctorClaw.GatewayWorker.Stories
import DoctorClaw.HandleRequest
import DoctorClaw.HandleRequest.Framing
import DoctorClaw.HttpRequest
import DoctorClaw.Identity
import DoctorClaw.Identity.RoundTrip
import DoctorClaw.Instance
import DoctorClaw.JobCache
import DoctorClaw.JobWorker
import DoctorClaw.JobWorker.Pool
import DoctorClaw.Lib.Binary
import DoctorClaw.Lib.BufferWriter
import DoctorClaw.Lib.CString
import DoctorClaw.Lib.CellReader
import DoctorClaw.Lib.CharRows
import DoctorClaw.Lib.Decimal
import DoctorClaw.Lib.Directory
import DoctorClaw.Lib.Escape
import DoctorClaw.Lib.ExchangeSort
import DoctorClaw.Lib.FileLines
import DoctorClaw.Lib.FirstByKey
import DoctorClaw.Lib.FixedWindow
import DoctorClaw.Lib.IdleRuns
import DoctorClaw.Lib.InsertionSort
import DoctorClaw.Lib.Interaction
import DoctorClaw.Lib.Json
import DoctorClaw.Lib.Json.Build
import DoctorClaw.Lib.Json.Escapes
import DoctorClaw.Lib.Json.Flat
import DoctorClaw.Lib.Json.Shortest
import DoctorClaw.Lib.KeyedList
import DoctorClaw.Lib.LastCut
import DoctorClaw.Lib.LastWrite
import DoctorClaw.Lib.ListEnd
import DoctorClaw.Lib.Lists
import DoctorClaw.Lib.OffsetWriter
import DoctorClaw.Lib.Ranking
import DoctorClaw.Lib.Replace
import DoctorClaw.Lib.Rfc4648
import DoctorClaw.Lib.Rfc6455
import DoctorClaw.Lib.RingBuffer
import DoctorClaw.Lib.RoundRobin
import DoctorClaw.Lib.Run
import DoctorClaw.Lib.Saturating
import DoctorClaw.Lib.Scanf
import DoctorClaw.Lib.Sha1
import DoctorClaw.Lib.Shell
import DoctorClaw.Lib.SlotArray
import DoctorClaw.Lib.Strtok
import DoctorClaw.Lib.Trim
import DoctorClaw.Lib.UniqueKeys
import DoctorClaw.LoopGuard
import DoctorClaw.LoopGuard.Thresholds
import DoctorClaw.Memories
import DoctorClaw.Memories.Files
import DoctorClaw.Memories.Refinement
import DoctorClaw.MemoryChunks
import DoctorClaw.Migration
import DoctorClaw.Migration.Calls
import DoctorClaw.Migration.Exports
import DoctorClaw.Migration.KeyValues
import DoctorClaw.Migration.PairLists
import DoctorClaw.Migration.Rollback
import DoctorClaw.Muninn
import DoctorClaw.Muninn.Associations
import DoctorClaw.Muninn.Confidence
import DoctorClaw.Muninn.Ranking
import DoctorClaw.Muninn.RoundTrip
import DoctorClaw.Muninn.Vaults
import DoctorClaw.Muninn.Visibility
import DoctorClaw.Observability
import DoctorClaw.Observability.Otlp
import DoctorClaw.Pentest
import DoctorClaw.Postgres
import DoctorClaw.Providers.Messages
import DoctorClaw.Providers.RateLimit
import DoctorClaw.Providers.Reliable
import DoctorClaw.Providers.Replies
import DoctorClaw.Providers.Requests
import DoctorClaw.Providers.Usage
import DoctorClaw.Rag
import DoctorClaw.Rag.Chunks
import DoctorClaw.Rag.Loading
import DoctorClaw.Rag.Search
import DoctorClaw.RateLimiter
import DoctorClaw.ResponseCache
import DoctorClaw.Retention
import DoctorClaw.RuntimeMonitor
import DoctorClaw.RuntimeMonitor.Alerts
import DoctorClaw.RuntimeMonitor.Sections
import DoctorClaw.Screening
import DoctorClaw.Screening.Matching
import DoctorClaw.Secrets
import DoctorClaw.SecurityMonitor
import DoctorClaw.SecurityMonitor.Injections
import DoctorClaw.SecurityMonitor.Traversal
import DoctorClaw.SecurityMonitor.UrlSafety
import DoctorClaw.ServiceProcesses
import DoctorClaw.Signatures
import DoctorClaw.SkillForge
import DoctorClaw.TaskFocus
import DoctorClaw.TaskFocus.Messages
import DoctorClaw.Telegram
import DoctorClaw.Telegram.Text
import DoctorClaw.ToolCalls
import DoctorClaw.Tools.Approval
import DoctorClaw.Tools.Calls
import DoctorClaw.Tools.Commands
import DoctorClaw.Tools.Confinement
import DoctorClaw.Tools.Domains
import DoctorClaw.Tools.Editing
import DoctorClaw.Tools.Execute
import DoctorClaw.Tools.Files
import DoctorClaw.Tools.Gate
import DoctorClaw.Tools.GateRule
import DoctorClaw.Tools.Isolation
import DoctorClaw.Tools.Leaks
import DoctorClaw.Tools.Parameters
import DoctorClaw.Tools.Policy
import DoctorClaw.Tools.Reading
import DoctorClaw.Tools.Services
import DoctorClaw.Tools.Success
import DoctorClaw.Url
import DoctorClaw.WebSocket
import DoctorClaw.WebSocket.Bounds
import DoctorClaw.WebSocket.Frames
import DoctorClaw.WebSocket.Handshake
import DoctorClaw.WebSocket.Server
import DoctorClaw.WebSocket.Session
import DoctorClaw.WebSocket.Sha1
