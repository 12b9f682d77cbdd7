import Ait.Grouping
import Ait.Records

/-!
# The proxy log and the overview

The rows of `proxy_log`, and the aggregates that the overview takes from them in three
scans. A typed read of a column fails on a value that the type does not hold; the totals
hand the error on, and the hourly buckets leave the row out.
-/

namespace Ait
open Grouping

/-- A row of `proxy_log`; the integer columns hold a BIGINT or NULL. -/
structure ProxyLogRow where
  timestamp : DateTime
  requestId : String
  apiKeyName : Option String
  modelName : String
  providerName : String
  promptTokens : Option ℤ
  completionTokens : Option ℤ
  totalTokens : Option ℤ
  cachedTokens : Option ℤ
  latencyMs : ℤ
  status : String
  endpoint : String
  isStreaming : Bool
  timeToFirstTokenMs : Option ℤ
  upstreamModel : String
  providerType : String
  responseBodySize : Option ℤ
  errorMessage : Option String
  clientIp : Option String
  deriving DecidableEq

def FitsI64 (v : ℤ) : Prop := -2^63 ≤ v ∧ v < 2^63

instance (v : ℤ) : Decidable (FitsI64 v) := inferInstanceAs (Decidable (_ ∧ _))

/-- `row.get::<_, i64>`. -/
def getI64 (v : ℤ) : Option ℤ := if FitsI64 v then some v else none

/-- `row.get::<_, u64>`. -/
def getU64 (v : ℤ) : Option ℕ := if 0 ≤ v ∧ v < 2^64 then some v.toNat else none

/-- `v as u64`. -/
def asU64 (v : ℤ) : ℕ := (v % 2^64).toNat

/-- `COUNT(*)`, itself a BIGINT. -/
def countOf (rows : List ProxyLogRow) : Option ℤ := getI64 rows.length

/-- `COALESCE(SUM(column), 0)`, which leaves out the NULLs. -/
def sumOf (column : ProxyLogRow → Option ℤ) (rows : List ProxyLogRow) : ℤ :=
  (rows.map fun r => (column r).getD 0).sum

structure BucketEntry where
  timestamp : ℤ
  count : ℕ
  deriving DecidableEq

def BucketEntry.total (buckets : List BucketEntry) : ℕ := (buckets.map BucketEntry.count).sum

structure ModelDistEntry where
  model : String
  count : ℕ
  deriving DecidableEq

structure TokenDistEntry where
  category : String
  count : ℕ
  deriving DecidableEq

structure OverviewMetrics where
  totalRequests : ℕ
  totalTokens : ℕ
  requestBuckets : List BucketEntry
  tokenBuckets : List BucketEntry
  modelDist : List ModelDistEntry
  tokenDist : List TokenDistEntry
  deriving DecidableEq

/-- An endpoint that is no timestamp becomes the epoch. -/
def tsRange (startTs endTs : ℤ) : DateTime × DateTime :=
  ((fromTimestamp startTs).getD unixEpoch,(fromTimestamp endTs).getD unixEpoch)

/-- The rows `WHERE timestamp >= ?1 AND timestamp < ?2`. -/
def rowsBetween (table : List ProxyLogRow) (startTs endTs : ℤ) : List ProxyLogRow :=
  let range := tsRange startTs endTs
  table.filter fun r => range.1 ≤ r.timestamp ∧ r.timestamp < range.2

def totalsImpl (table : List ProxyLogRow) (startTs endTs : ℤ) : Option (ℕ × ℕ × ℤ × ℤ × ℤ) := do
  let rows := rowsBetween table startTs endTs
  let count ← countOf rows
  let requests ← getU64 count
  let tokens ← getU64 (sumOf ProxyLogRow.totalTokens rows)
  let prompt ← getI64 (sumOf ProxyLogRow.promptTokens rows)
  let completion ← getI64 (sumOf ProxyLogRow.completionTokens rows)
  let cached ← getI64 (sumOf ProxyLogRow.cachedTokens rows)
  return (requests,tokens,prompt,completion,cached)

/-- `epoch(DATE_TRUNC('hour', timestamp))`. -/
def ProxyLogRow.hour (r : ProxyLogRow) : ℤ := r.timestamp/3600000000000*3600

/-- One row of the hourly query as the code reads it. -/
def readHour (rows : List ProxyLogRow) (hour : ℤ) : Option (ℤ × ℕ × ℕ) := do
  let rows := group ProxyLogRow.hour rows hour
  let count ← countOf rows
  let requests ← getI64 count
  let tokens ← getI64 (sumOf ProxyLogRow.totalTokens rows)
  return (hour,asU64 requests,asU64 tokens)

def hours (rows : List ProxyLogRow) : List ℤ :=
  (keys ProxyLogRow.hour rows).insertionSort (· ≤ ·)

def hourlyBuckets (rows : List ProxyLogRow) : List BucketEntry × List BucketEntry :=
  -- `rows.flatten()` passes over the rows that could not be read
  let read := (hours rows).filterMap (readHour rows)
  (read.map fun r => ⟨r.1,r.2.1⟩,read.map fun r => ⟨r.1,r.2.2⟩)

def hourlyBucketsImpl (table : List ProxyLogRow) (startTs endTs : ℤ) :
    List BucketEntry × List BucketEntry :=
  hourlyBuckets (rowsBetween table startTs endTs)

def readModel (rows : List ProxyLogRow) (model : String) : Option ModelDistEntry := do
  let count ← countOf (group ProxyLogRow.modelName rows model)
  let count ← getI64 count
  return ⟨model,asU64 count⟩

/-- Models by descending counts; the scan decides between equal counts. -/
def modelDistImpl (scan : Scan String) (table : List ProxyLogRow) (startTs endTs : ℤ) :
    List ModelDistEntry :=
  let rows := rowsBetween table startTs endTs
  let requests model := (group ProxyLogRow.modelName rows model).length
  (scan.orderBy (fun m m' => requests m' ≤ requests m) (keys ProxyLogRow.modelName rows)).filterMap
    (readModel rows)

def tokenDistFromSums (prompt completion cached : ℤ) : List TokenDistEntry :=
  let prompt := (max prompt 0).toNat
  let completion := (max completion 0).toNat
  let cached := (max cached 0).toNat
  [⟨"uncached_input",prompt-min cached prompt⟩,⟨"cached_input",min cached prompt⟩,
    ⟨"output",completion⟩]

def overviewImpl (scan : Scan String) (table : List ProxyLogRow) (startTs endTs : ℤ) :
    Option OverviewMetrics := do
  let (totalRequests,totalTokens,prompt,completion,cached) ← totalsImpl table startTs endTs
  let (requestBuckets,tokenBuckets) := hourlyBucketsImpl table startTs endTs
  return {
    totalRequests,totalTokens,requestBuckets,tokenBuckets,
    modelDist := modelDistImpl scan table startTs endTs,
    tokenDist := tokenDistFromSums prompt completion cached }

section Reading

variable {v : ℤ}

@[simp] theorem getI64_of_fits (h : FitsI64 v) : getI64 v = some v := if_pos h

@[simp] theorem getI64_natCast {n : ℕ} (h : n < 2^63) : getI64 n = some (n : ℤ) :=
  getI64_of_fits (by rw [FitsI64]; omega)

theorem getI64_eq_some {w : ℤ} (h : getI64 v = some w) : FitsI64 v ∧ v = w := by
  rw [getI64] at h
  split at h
  · exact ⟨‹_›,Option.some.inj h⟩
  · cases h

theorem getU64_eq_some {n : ℕ} (h : getU64 v = some n) : 0 ≤ v ∧ v.toNat = n := by
  rw [getU64] at h
  split at h
  · rename_i hv
    exact ⟨hv.1,Option.some.inj h⟩
  · cases h

@[simp] theorem getU64_natCast {n : ℕ} (h : n < 2^63) : getU64 n = some n := by
  rw [getU64,if_pos (by omega),Int.toNat_natCast]

theorem asU64_lt (v : ℤ) : asU64 v < 2^64 := by
  rw [asU64]
  omega

end Reading

section Hours

variable {rows : List ProxyLogRow}

@[simp] theorem mem_hours {h : ℤ} : h ∈ hours rows ↔ ∃ r ∈ rows, r.hour = h := by
  rw [hours,List.mem_insertionSort,mem_keys]

theorem nodup_hours : (hours rows).Nodup :=
  (List.perm_insertionSort _ _).nodup_iff.mpr nodup_keys

theorem hour_mem_hours {r : ProxyLogRow} (hr : r ∈ rows) : r.hour ∈ hours rows :=
  mem_hours.mpr ⟨r,hr,rfl⟩

theorem pairwise_hours : (hours rows).Pairwise (· ≤ ·) := List.pairwise_insertionSort _ _

theorem readHour_eq_some {h : ℤ} {r : ℤ × ℕ × ℕ} (hr : readHour rows h = some r) :
    r.1 = h ∧ r.2.1 < 2^64 ∧ r.2.2 < 2^64 := by
  rw [readHour] at hr
  simp only [Option.bind_eq_bind,Option.bind_eq_some_iff] at hr
  obtain ⟨_,-,requests,-,tokens,-,hr⟩ := hr
  obtain rfl := Option.some.inj hr
  exact ⟨rfl,asU64_lt requests,asU64_lt tokens⟩

theorem hourlyBuckets_spec {buckets : List BucketEntry}
    (h : buckets = (hourlyBuckets rows).1 ∨ buckets = (hourlyBuckets rows).2) :
    (∀ b ∈ buckets, b.count < 2^64 ∧ ∃ r ∈ rows, r.hour = b.timestamp) ∧
      buckets.Pairwise fun b b' => b.timestamp ≤ b'.timestamp := by
  have hread : ∀ r ∈ (hours rows).filterMap (readHour rows),
      r.2.1 < 2^64 ∧ r.2.2 < 2^64 ∧ ∃ row ∈ rows, row.hour = r.1 := by
    intro r hr
    obtain ⟨hour,hhour,hsome⟩ := List.mem_filterMap.mp hr
    obtain ⟨rfl,hrequests,htokens⟩ := readHour_eq_some hsome
    exact ⟨hrequests,htokens,mem_hours.mp hhour⟩
  have hasc : ((hours rows).filterMap (readHour rows)).Pairwise fun r r' => r.1 ≤ r'.1 := by
    refine List.pairwise_filterMap.mpr (pairwise_hours.imp fun hle r hr r' hr' => ?_)
    rwa [(readHour_eq_some hr).1,(readHour_eq_some hr').1]
  obtain rfl | rfl := h
  · refine ⟨fun b hb => ?_,List.pairwise_map.mpr hasc⟩
    obtain ⟨r,hr,rfl⟩ := List.mem_map.mp hb
    exact ⟨(hread r hr).1,(hread r hr).2.2⟩
  · refine ⟨fun b hb => ?_,List.pairwise_map.mpr hasc⟩
    obtain ⟨r,hr,rfl⟩ := List.mem_map.mp hb
    exact ⟨(hread r hr).2.1,(hread r hr).2.2⟩

end Hours

/-- A row that differs from others in its time and its tokens only. -/
def sampleRow (timestamp : DateTime) (totalTokens : Option ℤ) : ProxyLogRow where
  timestamp := timestamp
  requestId := "r"
  apiKeyName := none
  modelName := "m"
  providerName := "p"
  promptTokens := none
  completionTokens := none
  totalTokens := totalTokens
  cachedTokens := none
  latencyMs := 1
  status := "success"
  endpoint := "/v1/chat/completions"
  isStreaming := false
  timeToFirstTokenMs := none
  upstreamModel := "u"
  providerType := "openai"
  responseBodySize := none
  errorMessage := none
  clientIp := none

end Ait
