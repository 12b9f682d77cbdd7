import Ait.FiniteMap
import Ait.Transition
import Ait.CacheAside
import Ait.Records
import Ait.Store
import Ait.StoreQueries
import Ait.Net
import Ait.AppState
import Ait.Handlers
import Ait.Mutation
import Ait.Staleness
import Ait.Auth
import Ait.Resolve
import Ait.RecentlyUsed
import Ait.CappedCache
import Ait.Sequential
import Ait.Interference
import Ait.Floods
import Ait.Server
import Ait.Ledger
import Ait.Revocation
import Ait.RouteCoherence
import Ait.OrphanedWrites
import Ait.AddressText
import Ait.Cidr
import Ait.Ssrf
import Ait.PinnedKey
import Ait.Egress
import Ait.DnsFreshness
import Ait.ByteSearch
import Ait.Json
import Ait.Transform
import Ait.Sse
import Ait.SseRun
import Ait.SseBytes
import Ait.SseAccount
import Ait.Payloads
import Ait.SseChunks
import Ait.SseScan
import Ait.SseAlias
import Ait.OneLog
import Ait.Dlp
import Ait.Forward
import Ait.DlpExact
import Ait.ResponseMode
import Ait.ClientIp
import Ait.LogWorker
import Ait.AnalyticsPool
import Ait.LogSinks
import Ait.FlushPace
import Ait.Watchdog
import Ait.SseUsage
import Ait.TokenAgreement
import Ait.UsageFallbacks
import Ait.UsageSum
import Ait.SqlSession
import Ait.StoreHistory
import Ait.Patches
import Ait.ClientFaults
import Ait.SseBuffer
import Ait.SseFrames
import Ait.SseStops
import Ait.SseStatus
import Ait.SsePace
import Ait.EventLines
import Ait.RewriteLaws
import Ait.ErrorAnswers
import Ait.HeaderRelay
import Ait.BodyCap
import Ait.DlpPriority
import Ait.BlockList
import Ait.PeerTrust
import Ait.PinnedOverride
import Ait.Grouping
import Ait.LokiStreams
import Ait.LogQuery
import Ait.OverviewChart
import Ait.OverviewTotals
import Ait.ProxyLogPages
import Ait.TsRange
import Ait.ConfigLimits
import Ait.SharedConnection
import Ait.SharedStore
import Ait.Retention
import Ait.LogStore
import Ait.Provenance
import Ait.Gateway
import Ait.GatewaySafety
import Ait.Relational
import Ait.Admin
import Ait.AdminSecrets
import Ait.AdminReads
import Ait.AdminPutBack
import Ait.SinkShutdown
import Ait.LogManager
import Ait.LokiLabels
