import Ait.Forward
import Ait.TsRange

/-!
# What the configuration must rule out

`ConfigApp::new` checks the numeric keys once; the computations that rely on the checks are spread
over the workers, the streams and the handlers. Some keys have no upper bound, and their consumers
tolerate only part of the values.
-/

namespace Ait

structure LokiConfig where
  enabled : Bool
  url : String
  batchSize : ℕ
  intervalSecs : ℕ
  timeoutSecs : ℕ
  basicAuthUser : Option String
  basicAuthPassword : Option String

structure LogConfig where
  retentionDays : ℕ
  flushIntervalSecs : ℕ
  flushBatch : ℕ
  channelCap : ℕ
  retentionEvery : ℕ
  analyticsTimeoutSecs : ℕ
  analyticsWorkers : ℕ
  duckdbMemoryLimitMb : ℕ
  duckdbThreads : ℕ
  duckdbQueryTimeoutSecs : ℕ
  loki : LokiConfig

structure ProxyConfig where
  timeoutSecs : ℕ
  sseIdleTimeoutSecs : ℕ
  connectTimeoutSecs : ℕ
  promptTokenDivisor : ℕ

/-- The keys of a `ConfigApp` that `ConfigApp::new` checks or that something is computed from. -/
structure ConfigSections where
  cacheCleanupIntervalSecs : ℕ
  readerPoolSize : ℕ
  log : LogConfig
  proxy : ProxyConfig
  corsAllowedOrigins : List String
  corsAllowCredentials : Bool

def requirePositiveSecs (secs : ℕ) (key : String) : Except String Unit :=
  if secs = 0 then .error (key ++ " must be >= 1") else .ok ()

def reject (bad : Prop) [Decidable bad] (message : String) : Except String Unit :=
  if bad then .error message else .ok ()

/-- `ConfigApp::new` once the sources are merged and deserialized. -/
def ConfigSections.new (app : ConfigSections) : Except String ConfigSections := do
  reject (app.log.retentionEvery = 0)
    "log.retention_every must be >= 1 (0 crashes the log worker)"
  reject (¬(1 ≤ app.proxy.promptTokenDivisor ∧ app.proxy.promptTokenDivisor ≤ 5))
    "proxy.prompt_token_divisor must be between 1 and 5"
  requirePositiveSecs app.cacheCleanupIntervalSecs "server.cache_cleanup_interval_secs"
  requirePositiveSecs app.log.flushIntervalSecs "log.flush_interval_secs"
  requirePositiveSecs app.proxy.timeoutSecs "proxy.timeout_secs"
  requirePositiveSecs app.proxy.sseIdleTimeoutSecs "proxy.sse_idle_timeout_secs"
  requirePositiveSecs app.proxy.connectTimeoutSecs "proxy.connect_timeout_secs"
  reject (app.log.channelCap = 0) "log.channel_cap must be >= 1"
  reject (¬(1 ≤ app.readerPoolSize ∧ app.readerPoolSize ≤ 32))
    "database.reader_pool_size must be between 1 and 32"
  reject (¬(1 ≤ app.log.analyticsWorkers ∧ app.log.analyticsWorkers ≤ 8))
    "log.analytics_workers must be between 1 and 8"
  reject (app.log.loki.basicAuthUser.isSome ≠ app.log.loki.basicAuthPassword.isSome)
    ("log.loki.basic_auth_user and log.loki.basic_auth_password must be " ++
      "set together (or neither)")
  reject (app.log.duckdbMemoryLimitMb = 0) "log.duckdb_memory_limit_mb must be >= 1"
  requirePositiveSecs app.log.duckdbThreads "log.duckdb_threads"
  reject (app.log.retentionDays > maxRetentionDays)
    ("log.retention_days must be <= " ++ toString maxRetentionDays)
  reject (app.log.analyticsTimeoutSecs = 0) "log.analytics_timeout_secs must be >= 1"
  reject (app.corsAllowCredentials = true ∧ "*" ∈ app.corsAllowedOrigins)
    ("security.cors_allowed_origins = [\"*\"] cannot be combined with " ++
      "security.cors_allow_credentials = true: it reflects any Origin " ++
      "while allowing credentials. List explicit origins instead.")
  return app

/-- What the compiler and the Loki client decide: the sizes of an event and of its slot in a
channel, and whether a sink is set up for a URL. -/
structure Platform where
  eventSize : ℕ
  slotSize : ℕ
  acceptsUrl : String → Bool

namespace ConfigSections

variable (p : Platform) (cfg : ConfigSections)

/-- `LogManager::new` starts the sink. -/
def lokiRuns : Bool :=
  cfg.log.loki.enabled && cfg.log.loki.url ≠ "" && p.acceptsUrl cfg.log.loki.url

end ConfigSections

section Checks

def ConfigSections.Accepted (app : ConfigSections) : Prop :=
  app.log.retentionEvery ≠ 0 ∧
    (1 ≤ app.proxy.promptTokenDivisor ∧ app.proxy.promptTokenDivisor ≤ 5) ∧
    app.cacheCleanupIntervalSecs ≠ 0 ∧ app.log.flushIntervalSecs ≠ 0 ∧ app.proxy.timeoutSecs ≠ 0 ∧
    app.proxy.sseIdleTimeoutSecs ≠ 0 ∧ app.proxy.connectTimeoutSecs ≠ 0 ∧
    app.log.channelCap ≠ 0 ∧ (1 ≤ app.readerPoolSize ∧ app.readerPoolSize ≤ 32) ∧
    (1 ≤ app.log.analyticsWorkers ∧ app.log.analyticsWorkers ≤ 8) ∧
    app.log.loki.basicAuthUser.isSome = app.log.loki.basicAuthPassword.isSome ∧
    app.log.duckdbMemoryLimitMb ≠ 0 ∧ app.log.duckdbThreads ≠ 0 ∧
    app.log.retentionDays ≤ maxRetentionDays ∧ app.log.analyticsTimeoutSecs ≠ 0 ∧
    ¬(app.corsAllowCredentials = true ∧ "*" ∈ app.corsAllowedOrigins)

instance (app : ConfigSections) : Decidable app.Accepted :=
  inferInstanceAs (Decidable (_ ∧ _))

/-- What the consumers of an accepted configuration may rely on. -/
structure Checked (cfg : ConfigSections) : Prop where
  cleanup : cfg.cacheCleanupIntervalSecs ≠ 0
  flush : cfg.log.flushIntervalSecs ≠ 0
  channel : cfg.log.channelCap ≠ 0
  divisor : 1 ≤ cfg.proxy.promptTokenDivisor ∧ cfg.proxy.promptTokenDivisor ≤ 5
  retention : cfg.log.retentionDays ≤ maxRetentionDays

theorem ConfigSections.Accepted.checked {app : ConfigSections} (h : app.Accepted) : Checked app := by
  obtain ⟨-,hdivisor,hcleanup,hflush,-,-,-,hchannel,-,-,-,-,-,hretention,-,-⟩ := h
  exact ⟨hcleanup,hflush,hchannel,hdivisor,hretention⟩

end Checks

structure ConfigSections.InRange (p : Platform) (cfg : ConfigSections) (latest : Instant) :
    Prop where
  channel : cfg.log.channelCap*p.slotSize < 2^63
  buffer : cfg.log.flushBatch*p.eventSize < 2^63
  loki : cfg.lokiRuns p = true → max cfg.log.loki.batchSize 1*p.eventSize < 2^63
  watchdog : cfg.log.duckdbQueryTimeoutSecs*1000 < 2^64
  push : cfg.lokiRuns p = true → latest/1000000000+cfg.log.loki.timeoutSecs < 2^63
  idle : latest/1000000000+cfg.proxy.sseIdleTimeoutSecs < 2^63

section Ranges

variable {p : Platform} {cfg : ConfigSections} {latest : Instant}

end Ranges

end Ait
