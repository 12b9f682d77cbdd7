import Ait.FiniteMap
import Ait.Net
import Ait.Store

/-!
# Shared state

The upstream clients built from provider rows, the caches every handler shares,
and the periodic cleanup of those caches.
-/

namespace Ait

/-- A monotonic clock reading, in nanoseconds. -/
abbrev Instant := ℕ

def seconds (n : ℕ) : ℕ := n*1000000000

def cacheTtl : ℕ := seconds 300

/-- Negative entries expire fast and never slide. -/
def negativeCacheTtl : ℕ := seconds 30

/-- `Instant::elapsed`, which saturates at zero. -/
def elapsed (since now : Instant) : ℕ := now - since

structure ProviderCore where
  provider : Provider
  authHeaderValue : Option String
  client : Client
  deriving DecidableEq

def ProviderCore.new (provider : Provider) (client : Client) : ProviderCore where
  provider := provider
  authHeaderValue := provider.apiKey.map ("Bearer " ++ ·)
  client := client

/-- The implementations of the `UpstreamProvider` trait. -/
inductive UpstreamProvider
  | ollama (core : ProviderCore)
  | llamacpp (core : ProviderCore)
  | openAICompat (core : ProviderCore)
  deriving DecidableEq

def createProvider (provider : Provider) (httpClient : Client) : UpstreamProvider :=
  let core := ProviderCore.new provider httpClient
  match provider.providerType with
  | .ollama => .ollama core
  | .llamacpp => .llamacpp core
  | _ => .openAICompat core

structure ConfigApp where
  authEnabled : Bool
  cacheMaxEntries : ℕ
  connectTimeoutSecs : ℕ
  ssrfAllowedCidrs : List String

structure AppState where
  config : ConfigApp
  db : Database
  httpClient : Client
  apiKeyCache : FiniteMap String (ApiKeyInfo × Instant)
  negativeKeyCache : FiniteMap String Instant
  modelCache : FiniteMap String ((Model × Provider) × Instant)
  negativeModelCache : FiniteMap String Instant
  providerCache : FiniteMap String (UpstreamProvider × Instant)
  ssrfDnsCache : FiniteMap String (List IpAddr × Instant)
  pinnedClients : FiniteMap String (Client × Instant)
  keyRevision : ℕ

/-- `AppState::new`: every cache starts empty over an existing database. -/
def AppState.new (config : ConfigApp) (db : Database) : AppState where
  config := config
  db := db
  httpClient := { connectTimeoutSecs := config.connectTimeoutSecs,resolves := [] }
  apiKeyCache := .empty
  negativeKeyCache := .empty
  modelCache := .empty
  negativeModelCache := .empty
  providerCache := .empty
  ssrfDnsCache := .empty
  pinnedClients := .empty
  keyRevision := 0

/-- The entry of a timestamped cache, while it is fresh; the hit moves its time to `now`. -/
def freshEntry {V : Type} (m : FiniteMap String (V × Instant)) (key : String) (now : Instant) :
    Option V × FiniteMap String (V × Instant) :=
  match m.get key with
  | some (v,stamp) =>
    if elapsed stamp now < cacheTtl then (some v,m.insert key (v,now)) else (none,m)
  | none => (none,m)

theorem freshEntry_hit {V : Type} {m : FiniteMap String (V × Instant)} {key : String}
    {now : Instant} {v : V} (h : (freshEntry m key now).1 = some v) :
    ∃ t, m.get key = some (v,t) := by
  unfold freshEntry at h
  split at h
  · rename_i w t he
    split at h
    · obtain rfl := Option.some.inj h
      exact ⟨t,he⟩
    · cases h
  · cases h

theorem freshEntry_get {V : Type} {m : FiniteMap String (V × Instant)} {key other : String}
    {now : Instant} {w : V × Instant} (h : (freshEntry m key now).2.get other = some w) :
    ∃ t, m.get other = some (w.1,t) := by
  unfold freshEntry at h
  split at h
  · rename_i v t he
    split at h
    · simp only [FiniteMap.get_insert] at h
      split at h
      · rename_i hsame
        obtain rfl := Option.some.inj h
        exact ⟨t,hsame ▸ he⟩
      · exact ⟨w.2,h⟩
    · exact ⟨w.2,h⟩
  · exact ⟨w.2,h⟩

@[simp] theorem freshEntry_miss {V : Type} {m : FiniteMap String (V × Instant)} {key : String}
    {now : Instant} (h : (freshEntry m key now).1 = none) : freshEntry m key now = (none,m) := by
  unfold freshEntry at h ⊢
  cases hget : m.get key with
  | none => rfl
  | some e =>
    rcases e with ⟨v,stamp⟩
    by_cases hfresh : elapsed stamp now < cacheTtl
    · simp [hget,hfresh] at h
    · simp [hfresh]

def freshVerdict (m : FiniteMap String Instant) (key : String) (now : Instant) : Bool :=
  (m.get key).any fun seen => elapsed seen now < negativeCacheTtl

theorem freshVerdict_entry {m : FiniteMap String Instant} {key : String} {now : Instant}
    (h : freshVerdict m key now = true) : ∃ seen, m.get key = some seen := by
  cases he : m.get key with
  | none => simp [freshVerdict,he] at h
  | some seen => exact ⟨seen,rfl⟩

/-- A cache above nine tenths of `maxEntries` keeps its entries half as long. -/
def aggressive (maxEntries len : ℕ) : ℕ :=
  let threshold := min (maxEntries*9) (2^64-1) / 10  -- `saturating_mul` on `usize`
  if len > threshold then cacheTtl/2 else cacheTtl

/-- One pass of `cleanup_caches` over a cache of timestamped values. -/
def cleanupCache {V : Type} (m : FiniteMap String (V × Instant)) (now : Instant)
    (maxEntries : ℕ) : FiniteMap String (V × Instant) :=
  m.retain fun _ v => elapsed v.2 now < aggressive maxEntries m.len

def cleanupCaches (s : AppState) (now : Instant) (maxEntries : ℕ) : AppState :=
  { s with
    apiKeyCache := cleanupCache s.apiKeyCache now maxEntries
    modelCache := cleanupCache s.modelCache now maxEntries
    providerCache := cleanupCache s.providerCache now maxEntries
    ssrfDnsCache := cleanupCache s.ssrfDnsCache now maxEntries }

/-- The rest of a turn of the cleanup task: short-lived verdicts and pinned clients. -/
def cleanupNegatives (s : AppState) (now : Instant) : AppState :=
  { s with
    negativeKeyCache := s.negativeKeyCache.retain fun _ v => elapsed v now < negativeCacheTtl
    negativeModelCache := s.negativeModelCache.retain fun _ v => elapsed v now < negativeCacheTtl
    pinnedClients := s.pinnedClients.retain fun _ v => elapsed v.2 now < cacheTtl }

theorem holds_cleanupCache {V : Type} {P : String → V × Instant → Prop}
    {m : FiniteMap String (V × Instant)} (h : m.Holds P) (now : Instant) (maxEntries : ℕ) :
    (cleanupCache m now maxEntries).Holds P :=
  h.retain _

end Ait
