import SmolClaw.Lib.Run
import SmolClaw.Lib.Lines
import SmolClaw.Lib.Separated
import SmolClaw.Lib.Chain
import SmolClaw.Lib.Table
import SmolClaw.Lib.Infix
import SmolClaw.Lib.EventStream
import SmolClaw.Lib.Window
import SmolClaw.Core.Status
import SmolClaw.Core.Utf8
import SmolClaw.Core.Text
import SmolClaw.Core.Double
import SmolClaw.Core.WholeNumber
import SmolClaw.Json.Parse
import SmolClaw.Json.Text
import SmolClaw.Json.Weight
import SmolClaw.Json.Serialize
import SmolClaw.Security.Audit
import SmolClaw.Security.Policy
import SmolClaw.Security.Workspace
import SmolClaw.Security.Containment
import SmolClaw.Security.Receipts
import SmolClaw.Security.OutboundGuard
import SmolClaw.Net.Url
import SmolClaw.Net.UrlSplit
import SmolClaw.Net.DomainLists
import SmolClaw.Net.PrivateAddress
import SmolClaw.Tools.Shell
import SmolClaw.Tools.Search
import SmolClaw.Memory.Store
import SmolClaw.Memory.Snapshot
import SmolClaw.Memory.Disclosure
import SmolClaw.Memory.Markdown
import SmolClaw.Memory.TurnRecords
import SmolClaw.Autonomy.Sop
import SmolClaw.Autonomy.Schedule
import SmolClaw.Autonomy.NextFiring
import SmolClaw.Autonomy.Cron
import SmolClaw.Autonomy.JobStore
import SmolClaw.Autonomy.PartialLoad
import SmolClaw.Autonomy.OneShot
import SmolClaw.Providers.Reliable
import SmolClaw.Observability.LogLines
import SmolClaw.Observability.EventBuffer
import SmolClaw.Gateway.Message
import SmolClaw.Gateway.Events
import SmolClaw.Gateway.JsonRpc
import SmolClaw.Gateway.Server
import SmolClaw.Gateway.Authority
import SmolClaw.Gateway.Replay
import SmolClaw.Gateway.Pairing
import SmolClaw.Gateway.JsonRpcText
import SmolClaw.Gateway.Framing
import SmolClaw.Config.Schema
import SmolClaw.Config.Store
import SmolClaw.Config.MapLaw
import SmolClaw.Config.Lists
import SmolClaw.Config.SecretStore
import SmolClaw.Channels.Inbound
import SmolClaw.Channels.Mail
import SmolClaw.Channels.Webhook
import SmolClaw.Runtime.History
import SmolClaw.Runtime.Agent
import SmolClaw.Channels.Orchestrator
import SmolClaw.Channels.Duplicates
import SmolClaw.Channels.Isolation
import SmolClaw.Channels.Sessions
import SmolClaw.Security.Estop
import SmolClaw.Security.Requests
import SmolClaw.Tools.Common
import SmolClaw.Hardware.Board
import SmolClaw.Hardware.Tools
import SmolClaw.Hardware.Frames
import SmolClaw.Tools.Mcp
import SmolClaw.Tools.McpHttp
import SmolClaw.Channels.NamedWebhook
import SmolClaw.Channels.Telegram
import SmolClaw.Channels.TelegramPolling
import SmolClaw.Channels.TelegramApproval
import SmolClaw.Channels.TelegramLosses
import SmolClaw.Lib.Percent
import SmolClaw.Security.Store
import SmolClaw.Security.StoreNumbers
import SmolClaw.Security.AuditFields
import SmolClaw.Autonomy.JobFile
import SmolClaw.Core.Map
import SmolClaw.Runtime.TurnQueue
import SmolClaw.Runtime.TurnDelivery
import SmolClaw.Runtime.ToolCalls
import SmolClaw.Runtime.ToolLoop
import SmolClaw.Runtime.AgentMessage
import SmolClaw.Runtime.ToolRepeats
import SmolClaw.Runtime.AsyncMessage
import SmolClaw.Runtime.ReceiptText
import SmolClaw.Runtime.AsyncAgreement
import SmolClaw.Json.Parsed
import SmolClaw.Json.Characters
import SmolClaw.Json.Utf8Exact
import SmolClaw.Providers.Answers
import SmolClaw.Runtime.HistoryBounds
import SmolClaw.Runtime.Prompt
import SmolClaw.Runtime.PromptBudget
import SmolClaw.Lib.Memory
import SmolClaw.Lib.Ownership
import SmolClaw.Lib.Retries
import SmolClaw.Lib.Cells
import SmolClaw.Runtime.TokenStrip
import SmolClaw.Runtime.TurnQueueMemory
import SmolClaw.Runtime.FailedTurns
import SmolClaw.Lib.Ogg
import SmolClaw.Media.OggOpus
import SmolClaw.Media.WavBounds
import SmolClaw.Lib.JsonGrammar
import SmolClaw.Json.Tokens
import SmolClaw.Json.Decoded
import SmolClaw.Json.Accepted
import SmolClaw.Lib.Buffered
import SmolClaw.Providers.Endpoints
import SmolClaw.Providers.RetryRule
import SmolClaw.Tools.ContentSearch
import SmolClaw.Tools.FileWrite
import SmolClaw.Gateway.PairingBudget
import SmolClaw.Gateway.StaticFiles
import SmolClaw.Lib.Ranking
import SmolClaw.Memory.Retention
import SmolClaw.Providers.StreamEvents
import SmolClaw.Providers.StreamPieces
import SmolClaw.Providers.GeminiFraming
import SmolClaw.Providers.AnswerBlocks
import SmolClaw.Lib.EndMarker
import SmolClaw.Providers.Streams
import SmolClaw.Providers.OllamaReaders
import SmolClaw.Providers.Chunking
import SmolClaw.Providers.SseFormat
import SmolClaw.Runtime.TextCalls
import SmolClaw.Lib.Template
import SmolClaw.I18n.Messages
import SmolClaw.Channels.WebhookTemplate
import SmolClaw.Channels.WebhookMemory
import SmolClaw.Channels.TelegramChunks
import SmolClaw.Lib.Sextets
import SmolClaw.Media.Base64
import SmolClaw.Media.Attachments
import SmolClaw.Channels.TelegramLogUrl
import SmolClaw.Json.Escape
import SmolClaw.Json.Writers
import SmolClaw.Lib.Precision
import SmolClaw.Core.Nearest
import SmolClaw.Json.Numbers
import SmolClaw.Providers.RetryBudget
import SmolClaw.Lib.Options
import SmolClaw.Tools.ProcessRunner
import SmolClaw.Tools.SandboxPlans
import SmolClaw.Plugins.HostRuns
