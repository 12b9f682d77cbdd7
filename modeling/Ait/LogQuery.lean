import Ait.LogTable
import Ait.Paging

/-!
# A page of the proxy log

`list_proxy_logs` turns the page that a client asks for into a skip, and the skip into the
page that it asks the worker for; `query_proxy_logs_impl` computes the skip again. Checked
operations answer `none` where the program would panic.
-/

namespace Ait
open Grouping

def maxU64 : ℕ := 2^64-1

/-- `saturating_sub`. -/
def satSub (a b : ℕ) : ℕ := a-b

/-- `saturating_mul`. -/
def satMul (a b : ℕ) : ℕ := min (a*b) maxU64

def checkedDiv (a b : ℕ) : Option ℕ := if b = 0 then none else some (a/b)

def checkedAdd (a b : ℕ) : Option ℕ := if a+b ≤ maxU64 then some (a+b) else none

/-- `v as i64`. -/
def asI64 (v : ℕ) : ℤ := if v < 2^63 then v else v-2^64

def clamp (v low high : ℕ) : ℕ := max low (min v high)

/-- The conditions of a query; an empty text is none. -/
structure ProxyLogFilter where
  startTs : Option ℤ
  endTs : Option ℤ
  modelName : Option String
  providerName : Option String
  status : Option String
  apiKeyName : Option String
  endpoint : Option String
  isStreaming : Option Bool
  upstreamModel : Option String
  providerType : Option String
  clientIp : Option String

/-- `timestamp >= ?` and `timestamp < ?` take a number that is no timestamp for the epoch. -/
def pushNaive (ts : ℤ) : DateTime := (fromTimestamp ts).getD unixEpoch

/-- `column = ?`, which no NULL meets. -/
def columnIs (column : ProxyLogRow → Option String) (value : Option String) :
    List (ProxyLogRow → Bool) :=
  match value with
  | some v => if v = "" then [] else [fun r => column r = some v]
  | none => []

def ProxyLogFilter.conditions (p : ProxyLogFilter) : List (ProxyLogRow → Bool) :=
  (p.startTs.toList.map fun ts r => decide (pushNaive ts ≤ r.timestamp)) ++
  (p.endTs.toList.map fun ts r => decide (r.timestamp < pushNaive ts)) ++
  columnIs (some ∘ ProxyLogRow.modelName) p.modelName ++
  columnIs (some ∘ ProxyLogRow.providerName) p.providerName ++
  columnIs (some ∘ ProxyLogRow.status) p.status ++
  columnIs ProxyLogRow.apiKeyName p.apiKeyName ++
  columnIs (some ∘ ProxyLogRow.endpoint) p.endpoint ++
  (p.isStreaming.toList.map fun s r => r.isStreaming == s) ++
  columnIs (some ∘ ProxyLogRow.upstreamModel) p.upstreamModel ++
  columnIs (some ∘ ProxyLogRow.providerType) p.providerType ++
  columnIs ProxyLogRow.clientIp p.clientIp

/-- The rows that the `WHERE` clause admits. -/
def ProxyLogFilter.select (p : ProxyLogFilter) (table : List ProxyLogRow) : List ProxyLogRow :=
  table.filter fun r => p.conditions.all fun condition => condition r

structure ProxyLogQueryParams where
  page : ℕ
  perPage : ℕ
  filter : ProxyLogFilter

structure ProxyLogEntryResponse where
  timestamp : ℤ
  apiKeyName : Option String
  modelName : String
  providerName : String
  promptTokens : Option ℤ
  completionTokens : Option ℤ
  totalTokens : Option ℤ
  cachedTokens : Option ℤ
  latencyMs : ℤ
  status : String
  endpoint : String
  isStreaming : Bool
  timeToFirstTokenMs : Option ℤ
  upstreamModel : String
  providerType : String
  responseBodySize : Option ℤ
  errorMessage : Option String
  clientIp : Option String
  requestId : String
  deriving DecidableEq

/-- What is read of a row; the schema has every column in the type it is read as. -/
def ProxyLogRow.entry (r : ProxyLogRow) : ProxyLogEntryResponse where
  timestamp := Ait.timestamp r.timestamp
  apiKeyName := r.apiKeyName
  modelName := r.modelName
  providerName := r.providerName
  promptTokens := r.promptTokens
  completionTokens := r.completionTokens
  totalTokens := r.totalTokens
  cachedTokens := r.cachedTokens
  latencyMs := r.latencyMs
  status := r.status
  endpoint := r.endpoint
  isStreaming := r.isStreaming
  timeToFirstTokenMs := r.timeToFirstTokenMs
  upstreamModel := r.upstreamModel
  providerType := r.providerType
  responseBodySize := r.responseBodySize
  errorMessage := r.errorMessage
  clientIp := r.clientIp
  requestId := r.requestId

structure ProxyLogQueryResult where
  items : List ProxyLogEntryResponse
  total : ℕ
  deriving DecidableEq

/-- `ORDER BY timestamp DESC`. -/
def newestFirst (r r' : ProxyLogRow) : Prop := r'.timestamp ≤ r.timestamp

instance : DecidableRel newestFirst := fun _ _ => inferInstanceAs (Decidable (_ ≤ _))

/-- `LIMIT ? OFFSET ?`; a negative operand is an error. -/
def limitOffset (limit offset : ℤ) (rows : List ProxyLogRow) : Option (List ProxyLogRow) :=
  if limit < 0 ∨ offset < 0 then none else some ((rows.drop offset.toNat).take limit.toNat)

def queryOffset (page perPage : ℕ) : ℕ := satMul (satSub page 1) perPage

/-- The scan decides between rows of one timestamp. -/
def queryProxyLogsImpl (scan : Scan ProxyLogRow) (table : List ProxyLogRow)
    (params : ProxyLogQueryParams) : Option ProxyLogQueryResult := do
  let rows := params.filter.select table
  let count ← countOf rows
  let total ← getU64 count
  let offset := queryOffset params.page params.perPage
  if offset ≥ total then return ⟨[],total⟩
  let found ← limitOffset (asI64 params.perPage) (asI64 offset) (scan.orderBy newestFirst rows)
  return ⟨found.map ProxyLogRow.entry,total⟩

structure ProxyLogQuery where
  page : Option ℕ
  perPage : Option ℕ
  filter : ProxyLogFilter

structure PaginatedResponse where
  items : List ProxyLogEntryResponse
  total : ℕ
  page : ℕ
  perPage : ℕ
  deriving DecidableEq

def maxPerPage : ℕ := 100

def maxOffsetRows : ℕ := 100000

def ProxyLogQuery.servedPerPage (q : ProxyLogQuery) : ℕ := clamp (q.perPage.getD 20) 1 maxPerPage

def ProxyLogQuery.requestedPage (q : ProxyLogQuery) : ℕ := max (q.page.getD 1) 1

/-- The page that the capped skip is on. -/
def ProxyLogQuery.servedPage (q : ProxyLogQuery) : Option ℕ := do
  let offset := min (satMul (satSub q.requestedPage 1) q.servedPerPage) maxOffsetRows
  let pages ← checkedDiv offset q.servedPerPage
  checkedAdd pages 1

def isInvalidTs (ts : Option ℤ) : Bool := ts.any fun t => (fromTimestamp t).isNone

def analyticsFailed : AitError :=
  { message := "analytics query failed",code := 503,type := "service_unavailable" }

/-- `none` where the arithmetic panics. -/
def listProxyLogs (scan : Scan ProxyLogRow) (table : List ProxyLogRow) (q : ProxyLogQuery) :
    Option (Except AitError PaginatedResponse) :=
  q.servedPage.map fun page =>
    if isInvalidTs q.filter.startTs then .error (.badRequest "invalid start_ts")
    else if isInvalidTs q.filter.endTs then .error (.badRequest "invalid end_ts")
    else
      match queryProxyLogsImpl scan table ⟨page,q.servedPerPage,q.filter⟩ with
      | none => .error analyticsFailed
      | some result => .ok ⟨result.items,result.total,page,q.servedPerPage⟩

theorem maxOffsetRows_lt : maxOffsetRows < maxU64 := by
  rw [maxOffsetRows,maxU64]
  omega

@[simp] theorem satMul_of_le {a b : ℕ} (h : a*b ≤ maxOffsetRows) : satMul a b = a*b := by
  rw [satMul,Nat.min_eq_left (h.trans maxOffsetRows_lt.le)]

@[simp] theorem asI64_of_le {v : ℕ} (h : v ≤ maxOffsetRows) : asI64 v = v := by
  rw [maxOffsetRows] at h
  exact if_pos (by omega)

@[simp] theorem satMul_capped (a b : ℕ) :
    min (satMul a b) maxOffsetRows = min (a*b) maxOffsetRows := by
  rw [satMul,min_assoc,min_eq_right maxOffsetRows_lt.le]

theorem ProxyLogQuery.servedPerPage_bounds (q : ProxyLogQuery) :
    1 ≤ q.servedPerPage ∧ q.servedPerPage ≤ 100 := by
  rw [ProxyLogQuery.servedPerPage,clamp,maxPerPage]
  omega

/-- The page served is the one that the capped skip is on, and the worker skips what is before it. -/
theorem ProxyLogQuery.servedPage_eq (q : ProxyLogQuery) :
    ∃ served, q.servedPage = some served ∧ 1 ≤ served ∧
      (served-1)*q.servedPerPage ≤ maxOffsetRows ∧
      ((q.requestedPage-1)*q.servedPerPage ≤ maxOffsetRows → served = q.requestedPage) := by
  obtain ⟨hlow,-⟩ := q.servedPerPage_bounds
  have hreq : 1 ≤ q.requestedPage := le_max_right _ _
  generalize hsize : q.servedPerPage = size at hlow ⊢
  -- the capped skip
  obtain ⟨skip,hskip⟩ : ∃ skip, min ((q.requestedPage-1)*size) maxOffsetRows = skip := ⟨_,rfl⟩
  have hcapped : skip ≤ maxOffsetRows := hskip ▸ min_le_right _ _
  have hdiv : checkedDiv skip size = some (skip/size) := if_neg (by omega)
  have hadd : checkedAdd (skip/size) 1 = some (skip/size+1) :=
    if_pos (((Nat.div_le_self skip size).trans hcapped).trans_lt maxOffsetRows_lt)
  have hpage : q.servedPage = some (skip/size+1) := by
    rw [ProxyLogQuery.servedPage,hsize,satMul_capped,satSub,hskip]
    change (checkedDiv skip size).bind (fun pages => checkedAdd pages 1) = _
    rw [hdiv,Option.bind_some,hadd]
  refine ⟨skip/size+1,hpage,Nat.le_add_left _ _,?_,?_⟩
  · rw [Nat.add_sub_cancel]
    exact (Nat.div_mul_le_self _ _).trans hcapped
  · intro hreach
    rw [min_eq_left hreach] at hskip
    rw [← hskip,Nat.mul_div_cancel _ (by omega)]
    omega

theorem queryOffset_eq {page perPage : ℕ} (h : (page-1)*perPage ≤ maxOffsetRows) :
    queryOffset page perPage = (page-1)*perPage := by
  rw [queryOffset,satSub,satMul_of_le h]

section Worker

variable {table : List ProxyLogRow} {filter : ProxyLogFilter} {page perPage : ℕ}

/-- Within the cap the worker answers with the page of the sorted rows, past the end too. -/
theorem queryProxyLogsImpl_eq (scan : Scan ProxyLogRow)
    (hrows : (filter.select table).length < 2^63)
    (hskip : (page-1)*perPage ≤ maxOffsetRows) (hsize : perPage ≤ maxOffsetRows) :
    queryProxyLogsImpl scan table ⟨page,perPage,filter⟩ =
      some ⟨(Paging.page perPage (page-1)
        (scan.orderBy newestFirst (filter.select table))).map ProxyLogRow.entry,
        (filter.select table).length⟩ := by
  have hcount : countOf (filter.select table) = some ((filter.select table).length : ℤ) :=
    getI64_natCast hrows
  have htotal : getU64 ((filter.select table).length : ℤ) = some (filter.select table).length :=
    getU64_natCast hrows
  have hlen := (scan.orderBy_perm newestFirst (filter.select table)).length_eq
  have hread : queryProxyLogsImpl scan table ⟨page,perPage,filter⟩ =
      (countOf (filter.select table)).bind fun count => (getU64 count).bind fun total =>
        if queryOffset page perPage ≥ total then some ⟨[],total⟩
        else (limitOffset (asI64 perPage) (asI64 (queryOffset page perPage))
          (scan.orderBy newestFirst (filter.select table))).bind fun found =>
            some ⟨found.map ProxyLogRow.entry,total⟩ := rfl
  rw [hread,hcount,Option.bind_some,htotal,Option.bind_some,queryOffset_eq hskip]
  by_cases hpast : (page-1)*perPage ≥ (filter.select table).length
  · rw [if_pos hpast,Paging.page,List.drop_of_length_le (hlen.trans_le hpast)]
    simp
  · have hlimit : limitOffset (asI64 perPage) (asI64 ((page-1)*perPage))
        (scan.orderBy newestFirst (filter.select table)) =
        some (Paging.page perPage (page-1) (scan.orderBy newestFirst (filter.select table))) := by
      rw [asI64_of_le hsize,asI64_of_le hskip,limitOffset,if_neg (by omega),Int.toNat_natCast,
        Int.toNat_natCast,Paging.page]
    rw [if_neg hpast,hlimit,Option.bind_some]

end Worker

section Handler

variable {scan : Scan ProxyLogRow} {table : List ProxyLogRow} {q : ProxyLogQuery} {served : ℕ}

theorem listProxyLogs_answers (hpage : q.servedPage = some served)
    (hskip : (served-1)*q.servedPerPage ≤ maxOffsetRows)
    (hstart : isInvalidTs q.filter.startTs = false) (hend : isInvalidTs q.filter.endTs = false)
    (hrows : (q.filter.select table).length < 2^63) :
    listProxyLogs scan table q = some (.ok
      ⟨(Paging.page q.servedPerPage (served-1)
        (scan.orderBy newestFirst (q.filter.select table))).map ProxyLogRow.entry,
        (q.filter.select table).length,served,q.servedPerPage⟩) := by
  have hsize : q.servedPerPage ≤ maxOffsetRows := q.servedPerPage_bounds.2.trans (by decide)
  rw [listProxyLogs,hpage,Option.map_some,hstart,hend,
    queryProxyLogsImpl_eq scan hrows hskip hsize]
  rfl

end Handler

end Ait
