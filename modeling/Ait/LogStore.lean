import Ait.LogQuery
import Ait.LogSinks
import Ait.Retention

/-!
# What the log tables hold

The statements of the log worker, carried out: a transaction works on a copy of the tables,
a failed append leaves a part of its rows in the transaction, and each `DELETE` of the
cleanup stands for itself. The tables then hold whole batches in the order of the events,
without rows that were past the retention when a cleanup ran.
-/

namespace Ait
open Retention Grouping

inductive LogTable
  | access
  | proxy
  | audit
  deriving DecidableEq

namespace LogTable

/-- The rows of a table; `access_log` and `audit_log` have the columns of their events. -/
def Row : LogTable → Type
  | .access => AccessEvent
  | .proxy => ProxyLogRow
  | .audit => AuditEvent

def time : (table : LogTable) → table.Row → DateTime
  | .access => AccessEvent.timestamp
  | .proxy => ProxyLogRow.timestamp
  | .audit => AuditEvent.timestamp

end LogTable

abbrev LogTables := (table : LogTable) → List table.Row

section Rows

-- what a `TIMESTAMP` column keeps of a time
variable (keep : DateTime → DateTime)

/-- The values of `append_accesses`. -/
def AccessEvent.logRow (e : AccessEvent) : LogTable.access.Row :=
  { e with timestamp := keep e.timestamp }

/-- The values of `append_proxies`. -/
def ProxyRow.logRow (e : ProxyRow) : LogTable.proxy.Row where
  timestamp := keep e.timestamp
  requestId := e.requestId
  apiKeyName := e.apiKeyName
  modelName := e.modelName
  providerName := e.providerName
  promptTokens := e.promptTokens
  completionTokens := e.completionTokens
  totalTokens := e.totalTokens
  cachedTokens := e.cachedTokens
  latencyMs := e.latencyMs
  status := e.status
  endpoint := e.endpoint
  isStreaming := e.isStreaming
  timeToFirstTokenMs := e.timeToFirstTokenMs.map Nat.cast
  upstreamModel := e.upstreamModel
  providerType := e.providerType
  responseBodySize := e.responseBodySize.map Nat.cast
  errorMessage := e.errorMessage
  clientIp := e.clientIp

/-- The values of `append_audits`. -/
def AuditEvent.logRow (e : AuditEvent) : LogTable.audit.Row :=
  { e with timestamp := keep e.timestamp }

def LogEvent.logRow : (table : LogTable) → LogEvent → Option table.Row
  | .access, .access e => some (e.logRow keep)
  | .proxy, .proxy e => some (e.logRow keep)
  | .audit, .audit e => some (e.logRow keep)
  | _, _ => none

def logRows (batches : List (List LogEvent)) (table : LogTable) : List table.Row :=
  batches.flatten.filterMap (LogEvent.logRow keep table)

end Rows

/-- What DuckDB answers to the statements of one flush and the cleanup behind it. -/
structure DuckAnswers extends FlushAnswers where
  /-- The number of rows that a failed append leaves in the transaction. -/
  partly : ℕ
  /-- A commit or rollback that fails leaves the transaction open. -/
  stuck : Bool
  now : DateTime
  deleted : LogTable → Bool

structure Duck where
  committed : LogTables
  /-- The content of the open transaction. -/
  working : Option LogTables

namespace Duck

def update (d : Duck) (f : LogTables → LogTables) : Duck :=
  match d.working with
  | some t => { d with working := some (f t) }
  | none => { d with committed := f d.committed }

/-- An appender with some rows, of which it takes a part when it fails. -/
def append (a : DuckAnswers) (table : LogTable) (answer : Bool) (rows : List table.Row) (d : Duck) :
    Duck :=
  d.update fun t => Function.update t table (t table ++ if answer then rows else rows.take a.partly)

end Duck

/-- `Utc::now() - Duration::days(retention_days)`. -/
def retentionCutoff (retentionDays : ℕ) (now : DateTime) : DateTime :=
  now-retentionDays*86400000000000

section Statements

variable (keep : DateTime → DateTime)

/-- `DELETE FROM {table} WHERE timestamp < ?1`, for each table on its own. -/
def cleanupExpired (a : DuckAnswers) (retentionDays : ℕ) (d : Duck) : Duck :=
  d.update fun t table =>
    if a.deleted table then
      (t table).filter fun r => ¬table.time r < keep (retentionCutoff retentionDays a.now)
    else t table

/-- What a statement does. -/
def Duck.exec (a : DuckAnswers) (d : Duck) : Statement → Duck
  | .beginTransaction => if a.begun then { d with working := some d.committed } else d
  | .appendAccesses rows => d.append a .access a.accesses (rows.map (AccessEvent.logRow keep))
  | .appendProxies rows => d.append a .proxy a.proxies (rows.map (ProxyRow.logRow keep))
  | .appendAudits rows => d.append a .audit a.audits (rows.map (AuditEvent.logRow keep))
  | .commit =>
    if a.committed then ⟨d.working.getD d.committed,none⟩
    else if a.stuck then d
    else { d with working := none }
  | .rollback => if a.stuck then d else { d with working := none }
  | .checkpoint => d
  | .cleanupExpired retentionDays => cleanupExpired keep a retentionDays d

structure DuckLog where
  duck : Duck
  flushCount : ℕ
  flushed : List (List LogEvent)

def DuckLog.new (tables : LogTables) : DuckLog := ⟨⟨tables,none⟩,0,[]⟩

/-- No transaction begins inside another. -/
def DuckLog.answers (a : DuckAnswers) (s : DuckLog) : DuckAnswers :=
  { a with begun := a.begun && s.duck.working.isNone }

/-- Carry out the statements that `write` sends. -/
def DuckLog.attempt (a : DuckAnswers) (s : DuckLog) (write : FlushAnswers → LogDb → LogDb) : DuckLog :=
  let a := DuckLog.answers a s
  let db := write a.toFlushAnswers ⟨⟨[],s.flushed⟩,s.flushCount⟩
  ⟨db.conn.statements.foldl (Duck.exec keep a) s.duck,db.flushCount,db.conn.flushed⟩

/-- The log worker with its statements carried out; the checkpoint at the end changes no row. -/
def duckWorker (flushBatch retentionEvery retentionDays : ℕ) : Worker DuckLog DuckAnswers :=
  let w := workerLoop flushBatch retentionEvery retentionDays
  { batchSize := w.batchSize
    flush a s buffer :=
      (s.attempt keep a fun a db => (w.flush a db buffer).1,[])
    lastFlush a s buffer :=
      (s.attempt keep a fun a db => (w.lastFlush a db buffer).1,buffer)
    close := id
    handed := DuckLog.flushed }

end Statements

section Flushes

variable {keep : DateTime → DateTime} {a : DuckAnswers} {d : Duck} {c w : LogTables}

/-- A transaction that is open on `c`; as long as all went well it has come to `w`. -/
def InTransaction (keep : DateTime → DateTime) (a : DuckAnswers) (d : Duck) (c w : LogTables)
    (p : Bool × LogConnection) : Prop :=
  ∃ t, p.2.statements.foldl (Duck.exec keep a) d = ⟨c,some t⟩ ∧ (p.1 = true → t = w)

theorem InTransaction.append {ρ : Type} {p : Bool × LogConnection} (h : InTransaction keep a d c w p)
    (answer : Bool) (statement : List ρ → Statement) {table : LogTable} {row : ρ → table.Row}
    (hexec : ∀ d rows, Duck.exec keep a d (statement rows) = d.append a table answer (rows.map row))
    (rows : List ρ) :
    InTransaction keep a d c (Function.update w table (w table ++ rows.map row))
      (if p.1 then appendRows answer statement rows p.2 else (false,p.2)) := by
  obtain ⟨t,hrun,ht⟩ := h
  cases hp : p.1 with
  | false =>
    refine ⟨t,hrun,fun hno => ?_⟩
    cases hno
  | true =>
    obtain rfl := ht hp
    cases rows with
    | nil => exact ⟨t,hrun,fun _ => by simp⟩
    | cons r rows =>
      refine ⟨Function.update t table (t table ++ if answer then (r::rows).map row else
        ((r::rows).map row).take a.partly),?_,fun hanswer => ?_⟩
      · simp only [appendRows,if_true,LogConnection.run,List.foldl_append,List.foldl_cons,
          List.foldl_nil,hrun,hexec,Duck.append,Duck.update]
      · have hok : answer = true := hanswer
        rw [hok,if_pos rfl]

theorem InTransaction.finish {p : Bool × LogConnection} (h : InTransaction keep a d c w p) :
    let r := if p.1 then (a.committed,p.2.run .commit) else (false,p.2.run .rollback)
    let d' := r.2.statements.foldl (Duck.exec keep a) d
    (r.1 = true → d' = ⟨w,none⟩) ∧ (r.1 = false → d'.committed = c) := by
  obtain ⟨t,hrun,ht⟩ := h
  cases hp : p.1 with
  | false =>
    simp only [Bool.false_eq_true,if_false,LogConnection.run,List.foldl_append,List.foldl_cons,
      List.foldl_nil,hrun,Duck.exec]
    constructor
    · intro hno
      cases hno
    · intro _
      cases a.stuck <;> rfl
  | true =>
    obtain rfl := ht hp
    simp only [if_true,LogConnection.run,List.foldl_append,List.foldl_cons,List.foldl_nil,hrun,
      Duck.exec]
    cases a.committed with
    | true =>
      constructor
      · intro _
        rfl
      · intro hno
        cases hno
    | false =>
      constructor
      · intro hno
        cases hno
      · intro _
        cases a.stuck <;> rfl

def LogEvent.toAccess : LogEvent → Option AccessEvent
  | .access e => some e
  | _ => none

def LogEvent.toProxy : LogEvent → Option ProxyRow
  | .proxy e => some e
  | _ => none

def LogEvent.toAudit : LogEvent → Option AuditEvent
  | .audit e => some e
  | _ => none

theorem map_filterMap_logRow {ρ : Type} {pick : LogEvent → Option ρ} {table : LogTable}
    {row : ρ → table.Row} (h : ∀ e, (pick e).map row = LogEvent.logRow keep table e)
    (events : List LogEvent) :
    (events.filterMap pick).map row = logRows keep [events] table := by
  rw [List.map_filterMap,logRows,List.flatten_cons,List.flatten_nil,List.append_nil]
  exact List.filterMap_congr fun e _ => h e

/-- A flush that succeeds adds the whole batch, another leaves what is committed. -/
theorem flushEvents_exec (keep : DateTime → DateTime) (a : DuckAnswers) (d : Duck)
    (flushed : List (List LogEvent)) (events : List LogEvent) :
    let r := flushEvents a.toFlushAnswers ⟨[],flushed⟩ events
    let d' := r.2.statements.foldl (Duck.exec keep a) d
    (r.1 = true → d' = ⟨fun table => d.committed table ++ logRows keep [events] table,none⟩) ∧
      (r.1 = false → d'.committed = d.committed) := by
  by_cases hbegun : a.begun = true
  · have hopen : InTransaction keep a d d.committed d.committed
        (true,LogConnection.run ⟨[],flushed ++ [events]⟩ .beginTransaction) := by
      refine ⟨d.committed,?_,fun _ => rfl⟩
      simp [LogConnection.run,Duck.exec,hbegun]
    have haccess := hopen.append a.accesses .appendAccesses (fun _ _ => rfl)
      (events.filterMap LogEvent.toAccess)
    have hproxy := haccess.append a.proxies .appendProxies (fun _ _ => rfl)
      (events.filterMap LogEvent.toProxy)
    have haudit := hproxy.append a.audits .appendAudits (fun _ _ => rfl)
      (events.filterMap LogEvent.toAudit)
    have hrows : Function.update (Function.update (Function.update d.committed .access
        (d.committed .access ++ logRows keep [events] .access)) .proxy
        (d.committed .proxy ++ logRows keep [events] .proxy)) .audit
        (d.committed .audit ++ logRows keep [events] .audit) =
        fun table => d.committed table ++ logRows keep [events] table := by
      funext table
      cases table <;> rfl
    have hdone := haudit.finish
    rw [map_filterMap_logRow fun e => by cases e <;> rfl,map_filterMap_logRow fun e => by cases e <;> rfl,
      map_filterMap_logRow fun e => by cases e <;> rfl] at hdone
    simp only [flushEvents,hbegun,not_true,if_false]
    rw [← hrows]
    exact hdone
  · have hno : a.begun = false := by simpa using hbegun
    simp [flushEvents,hno,LogConnection.run,Duck.exec]

def FlushAnswers.Fine (a : FlushAnswers) : Prop :=
  a.begun = true ∧ a.accesses = true ∧ a.proxies = true ∧ a.audits = true ∧ a.committed = true

@[simp] theorem flushEvents_fine {a : FlushAnswers} (h : a.Fine) (conn : LogConnection)
    (events : List LogEvent) : (flushEvents a conn events).1 = true := by
  obtain ⟨hbegun,haccesses,hproxies,haudits,hcommitted⟩ := h
  have happend : ∀ {ρ : Type} (statement : List ρ → Statement) (rows : List ρ) (conn : LogConnection),
      (appendRows true statement rows conn).1 = true := by
    intro ρ statement rows conn
    cases rows <;> rfl
  simp [flushEvents,hbegun,haccesses,hproxies,haudits,hcommitted,happend]

end Flushes

section Kept

variable (keep : DateTime → DateTime) (retentionDays : ℕ) (latest : DateTime)

/-- A row that no cleanup up to `latest` takes away. -/
def recent (table : LogTable) (r : table.Row) : Bool :=
  decide (keep (retentionCutoff retentionDays latest) ≤ table.time r)

/-- The batches of `written` are in the tables, but for old rows; when all is `fine` these are all
batches. -/
structure Holding (tables : LogTables) (fine : Prop) (s : DuckLog) (written : List (List LogEvent)) :
    Prop where
  batches : written.Sublist s.flushed
  left : ∀ table, Left (recent keep retentionDays latest table)
    (tables table ++ logRows keep written table) (s.duck.committed table)
  all : fine → written = s.flushed ∧ s.duck.working = none

variable {keep retentionDays latest} {tables : LogTables} {fine : Prop} {s : DuckLog}
  {written : List (List LogEvent)} {a : DuckAnswers}

theorem Holding.start (tables : LogTables) : Holding keep retentionDays latest tables fine (.new tables) [] where
  batches := .slnil
  left table := by
    have hnone : logRows keep [] table = [] := rfl
    rw [hnone,List.append_nil]
    exact .refl _ _
  all _ := ⟨rfl,rfl⟩

@[simp] theorem logRows_append (written : List (List LogEvent)) (batch : List LogEvent)
    (table : LogTable) :
    logRows keep (written ++ [batch]) table = logRows keep written table ++ logRows keep [batch] table := by
  rw [logRows,List.flatten_append,List.filterMap_append]
  rfl

theorem Holding.attempt (h : Holding keep retentionDays latest tables fine s written)
    (hfine : fine → a.Fine) (buffer : List LogEvent) (flushCount : ℕ) {duck : Duck}
    (hduck : duck = (flushEvents (DuckLog.answers a s).toFlushAnswers ⟨[],s.flushed⟩
      buffer).2.statements.foldl (Duck.exec keep (DuckLog.answers a s)) s.duck) :
    ∃ written', Holding keep retentionDays latest tables fine
      ⟨duck,flushCount,s.flushed ++ [buffer]⟩ written' := by
  obtain ⟨hok,herror⟩ := flushEvents_exec keep (DuckLog.answers a s) s.duck s.flushed buffer
  rw [← hduck] at hok herror
  cases hr : (flushEvents (DuckLog.answers a s).toFlushAnswers ⟨[],s.flushed⟩ buffer).1 with
  | true =>
    obtain rfl := hok hr
    refine ⟨written ++ [buffer],h.batches.append_right _,fun table => ?_,fun hf => ⟨?_,rfl⟩⟩
    · rw [logRows_append,← List.append_assoc]
      exact (h.left table).append _
    · rw [(h.all hf).1]
  | false =>
    refine ⟨written,h.batches.trans (List.sublist_append_left _ _),fun table => ?_,fun hf => ?_⟩
    · rw [herror hr]
      exact h.left table
    · obtain ⟨hbegun,hrest⟩ := hfine hf
      have hanswers : (DuckLog.answers a s).Fine :=
        ⟨by simp [DuckLog.answers,hbegun,(h.all hf).2],hrest⟩
      rw [flushEvents_fine hanswers] at hr
      cases hr

theorem Holding.cleanup (hkeep : Monotone keep) (h : Holding keep retentionDays latest tables fine s written)
    (hnow : a.now ≤ latest) :
    Holding keep retentionDays latest tables fine
      { s with duck := cleanupExpired keep a retentionDays s.duck } written := by
  have hsweep : ∀ table (r : table.Row), recent keep retentionDays latest table r = true →
      decide (¬table.time r < keep (retentionCutoff retentionDays a.now)) = true := by
    intro table r hr
    have hcutoff : keep (retentionCutoff retentionDays a.now) ≤ keep (retentionCutoff retentionDays latest) :=
      hkeep (sub_le_sub_right hnow _)
    have hle : keep (retentionCutoff retentionDays latest) ≤ table.time r := of_decide_eq_true hr
    exact decide_eq_true (not_lt.mpr (hcutoff.trans hle))
  cases hworking : s.duck.working with
  | some t =>
    refine ⟨h.batches,fun table => ?_,fun hf => ?_⟩
    · simp only [cleanupExpired,Duck.update,hworking]
      exact h.left table
    · rw [(h.all hf).2] at hworking
      cases hworking
  | none =>
    refine ⟨h.batches,fun table => ?_,fun hf => ⟨(h.all hf).1,?_⟩⟩
    · simp only [cleanupExpired,Duck.update,hworking]
      cases a.deleted table with
      | true => exact (h.left table).sweep (hsweep table)
      | false => exact h.left table
    · simp only [cleanupExpired,Duck.update,hworking]

theorem Holding.flush (hkeep : Monotone keep) (h : Holding keep retentionDays latest tables fine s written)
    (hnow : a.now ≤ latest) (hfine : fine → a.Fine) (retentionEvery : ℕ) (buffer : List LogEvent) :
    ∃ written', Holding keep retentionDays latest tables fine
      (s.attempt keep a fun a db => (flushBuffer retentionEvery retentionDays a db buffer).1) written' := by
  have hflushed := flushEvents_flushed (DuckLog.answers a s).toFlushAnswers ⟨[],s.flushed⟩ buffer
  simp only [DuckLog.attempt,flushBuffer]
  split
  · split
    · obtain ⟨written',h'⟩ := h.attempt hfine buffer (s.flushCount+1) rfl
      have hcleanup := h'.cleanup (a := DuckLog.answers a s) hkeep hnow
      refine ⟨written',?_⟩
      simp only [LogConnection.run,List.foldl_append,List.foldl_cons,List.foldl_nil,Duck.exec,hflushed]
      exact hcleanup
    · simp only [hflushed]
      exact h.attempt hfine buffer _ rfl
  · simp only [hflushed]
    exact h.attempt hfine buffer _ rfl

theorem Holding.lastFlush (h : Holding keep retentionDays latest tables fine s written)
    (hfine : fine → a.Fine) (buffer : List LogEvent) :
    ∃ written', Holding keep retentionDays latest tables fine
      (s.attempt keep a fun a db => { db with conn := (flushEvents a db.conn buffer).2 }) written' := by
  have hflushed := flushEvents_flushed (DuckLog.answers a s).toFlushAnswers ⟨[],s.flushed⟩ buffer
  simp only [DuckLog.attempt,hflushed]
  exact h.attempt hfine buffer _ rfl

end Kept

namespace Worker

variable {σ ω : Type} {w : Worker σ ω} {r r' : WorkerRun σ}

def Answered (Q : ω → Prop) : WorkerOp ω → Prop
  | .timeout a | .work a => Q a
  | _ => True

theorem step_sink {P : σ → Prop} {Q : ω → Prop} (hflush : ∀ a s b, Q a → P s → P (w.flush a s b).1)
    (hlast : ∀ a s b, Q a → P s → P (w.lastFlush a s b).1) (hclose : ∀ s, P s → P (w.close s))
    {op : WorkerOp ω} (hstep : w.step r op = some r') (hop : Answered Q op) (h : P r.sink) : P r'.sink := by
  have hnonempty : ∀ (flush : ω → σ → List LogEvent → σ × List LogEvent) a,
      (∀ b, P (flush a r.sink b).1) → P (flushNonEmpty flush a r).sink := by
    intro flush a hf
    unfold flushNonEmpty
    split
    · exact h
    · exact hf _
  have htake : ∀ shutdown e rest, (take shutdown e rest r).sink = r.sink := by
    intro shutdown e rest
    unfold take
    split <;> rfl
  have hleave : ∀ a, Q a → P (w.leave a r).sink := fun a ha =>
    hclose _ (hnonempty _ a fun b => hlast a _ b ha h)
  cases op with
  | send e =>
    simp only [step] at hstep
    split at hstep
    · cases hstep
    · split at hstep
      · exact Option.some.inj hstep ▸ h
      · exact Option.some.inj hstep ▸ h
  | hangUp => exact Option.some.inj hstep ▸ h
  | timeout a =>
    simp only [step] at hstep
    split at hstep
    · exact Option.some.inj hstep ▸ hnonempty _ a fun b => hflush a _ b hop h
    · cases hstep
  | work a =>
    simp only [step] at hstep
    split at hstep
    · split at hstep
      · exact Option.some.inj hstep ▸ htake .. ▸ h
      · split at hstep
        · cases hstep
        · exact Option.some.inj hstep ▸ hleave a hop
    · split at hstep
      · exact Option.some.inj hstep ▸ htake .. ▸ h
      · exact Option.some.inj hstep ▸ h
    · split at hstep
      · exact Option.some.inj hstep ▸ hflush a _ _ hop h
      · exact Option.some.inj hstep ▸ h
    · exact Option.some.inj hstep ▸ hleave a hop
    · cases hstep

end Worker

section Runs

variable {keep : DateTime → DateTime} {flushBatch retentionEvery retentionDays : ℕ}

theorem duckWorker_lawful :
    (duckWorker keep flushBatch retentionEvery retentionDays).Lawful where
  flush_handed a s buffer :=
    (workerLoop_lawful flushBatch retentionEvery retentionDays).flush_handed
      (DuckLog.answers a s).toFlushAnswers ⟨⟨[],s.flushed⟩,s.flushCount⟩ buffer
  flush_clears _ _ _ := rfl
  last_handed a s buffer :=
    (workerLoop_lawful flushBatch retentionEvery retentionDays).last_handed
      (DuckLog.answers a s).toFlushAnswers ⟨⟨[],s.flushed⟩,s.flushCount⟩ buffer
  close_handed _ := rfl

def Until (latest : DateTime) : WorkerOp DuckAnswers → Prop := Worker.Answered fun a => a.now ≤ latest

def AllFine (script : List (WorkerOp DuckAnswers)) : Prop :=
  ∀ op ∈ script, Worker.Answered (fun a : DuckAnswers => a.Fine) op

theorem Holding.run (hkeep : Monotone keep) {capacity : ℕ} {tables : LogTables} {latest : DateTime}
    {script : List (WorkerOp DuckAnswers)} (hnow : ∀ op ∈ script, Until latest op) {r : WorkerRun DuckLog}
    (hrun : Transition.exec (duckWorker keep flushBatch retentionEvery retentionDays).step
      (.start capacity (.new tables)) script = some r) :
    ∃ written, Holding keep retentionDays latest tables (AllFine script) r.sink written := by
  let Q := fun a : DuckAnswers => a.now ≤ latest ∧ (AllFine script → a.Fine)
  have hanswered : ∀ op ∈ script, Worker.Answered Q op := by
    intro op hop
    have hlatest := hnow op hop
    have hgood : AllFine script → Worker.Answered (fun a : DuckAnswers => a.Fine) op := fun h => h op hop
    cases op with
    | send | hangUp => trivial
    | timeout a | work a => exact ⟨hlatest,hgood⟩
  let P := fun s : DuckLog =>
    ∃ written, Holding keep retentionDays latest tables (AllFine script) s written
  have hstep : ∀ r op r', (duckWorker keep flushBatch retentionEvery retentionDays).step r op = some r' →
      Worker.Answered Q op → P r.sink → P r'.sink := by
    intro r op r' hstep hop h
    refine Worker.step_sink ?_ ?_ ?_ hstep hop h
    · rintro a s buffer ⟨hlatest,hfine⟩ ⟨written,h⟩
      exact h.flush hkeep hlatest hfine retentionEvery buffer
    · rintro a s buffer ⟨-,hfine⟩ ⟨written,h⟩
      exact h.lastFlush hfine buffer
    · exact fun s h => h
  have hstart : P (DuckLog.new tables) := ⟨[],.start tables⟩
  exact Transition.exec_invariant hstep hrun (Transition.along_of_mem hanswered _) hstart

/-- Whatever DuckDB, the clock and the producers do: the tables hold what they held before and
whole batches of the accepted events, in their order, and of all these rows none is gone that was
within the retention at the latest cleanup. When nothing fails these are all batches, and once the
worker has returned the batches have everything sent before the shutdown. -/
theorem log_tables_keep (keep : DateTime → DateTime) (hkeep : Monotone keep)
    (flushBatch retentionEvery retentionDays capacity : ℕ) (tables : LogTables) (latest : DateTime)
    (script : List (WorkerOp DuckAnswers)) (hnow : ∀ op ∈ script, Until latest op) (r : WorkerRun DuckLog)
    (hrun : Transition.exec (duckWorker keep flushBatch retentionEvery retentionDays).step
      (.start capacity (.new tables)) script = some r) :
    ∃ written : List (List LogEvent),
      (∀ table, (r.sink.duck.committed table).Sublist (tables table ++ logRows keep written table) ∧
        (r.sink.duck.committed table).filter (recent keep retentionDays latest table) =
          (tables table ++ logRows keep written table).filter (recent keep retentionDays latest table)) ∧
      written.Sublist r.sink.flushed ∧ (AllFine script → written = r.sink.flushed) ∧
      r.sink.flushed.flatten <+: r.accepted.filter LogEvent.isEvent ∧
      (r.stage = .returned → Worker.before r.accepted <+: r.sink.flushed.flatten) := by
  obtain ⟨written,h⟩ := Holding.run hkeep hnow hrun
  have haccounted := Worker.Accounted.run duckWorker_lawful rfl hrun
  refine ⟨written,fun table => ⟨(h.left table).sublist,(h.left table).kept⟩,h.batches,
    fun hfine => (h.all hfine).1,?_,fun hret => haccounted.before_prefix hret⟩
  have hfifo := haccounted.fifo
  rw [List.append_assoc] at hfifo
  exact ⟨_,hfifo⟩

/-- A row of the first day is gone on the third, a row of the third day is there. -/
theorem log_tables_keep_days :
    let day : DateTime := 86400000000000
    let audit (t : DateTime) : AuditEvent := ⟨t,"r","create","model","m",none⟩
    let fine : DuckAnswers := ⟨⟨true,true,true,true,true⟩,0,false,2*day,fun _ => true⟩
    let script : List (WorkerOp DuckAnswers) := [.send (.audit (audit 0)),.work fine,.work fine,
      .work fine,.send (.audit (audit (2*day))),.work fine,.work fine,.work fine]
    ∃ r, Transition.exec (duckWorker id 1 1 1).step (.start 4 (.new fun _ => [])) script = some r ∧
      (r.sink.duck.committed .audit).map LogTable.audit.time = [2*day] ∧
      ∃ written : List (List LogEvent), written = r.sink.flushed ∧
        (r.sink.duck.committed .audit).filter (recent id 1 (2*day) .audit) =
          (logRows id written .audit).filter (recent id 1 (2*day) .audit) := by
  intro day audit fine script
  have hops : ∀ op ∈ script, Until (2*day) op ∧ Worker.Answered (fun a : DuckAnswers => a.Fine) op := by
    have hfine : fine.now ≤ 2*day ∧ fine.Fine := ⟨le_rfl,rfl,rfl,rfl,rfl,rfl⟩
    simp [script,Until,Worker.Answered,hfine]
  obtain ⟨written,htables,-,hall,-⟩ := log_tables_keep id monotone_id 1 1 1 4 (fun _ => []) (2*day)
    script (fun op hop => (hops op hop).1) _ rfl
  exact ⟨_,rfl,by decide,written,hall fun op hop => (hops op hop).2,(htables .audit).2⟩

theorem recent_of_le {latest : DateTime} {r : ProxyLogRow} {t : DateTime}
    (ht : keep (retentionCutoff retentionDays latest) ≤ t) (hr : t ≤ r.timestamp) :
    recent keep retentionDays latest .proxy r = true := decide_eq_true (ht.trans hr)

theorem rowsBetween_within {latest : DateTime} {all rows : List ProxyLogRow}
    (h : Left (recent keep retentionDays latest .proxy) all rows) {startTs endTs : ℤ}
    (hstart : keep (retentionCutoff retentionDays latest) ≤ (tsRange startTs endTs).1) :
    rowsBetween rows startTs endTs = rowsBetween all startTs endTs := by
  unfold rowsBetween
  refine h.select fun row hrow => ?_
  have hbetween := of_decide_eq_true hrow
  exact recent_of_le hstart hbetween.1

theorem select_within {latest : DateTime} {all rows : List ProxyLogRow}
    (h : Left (recent keep retentionDays latest .proxy) all rows) {p : ProxyLogFilter} {startTs : ℤ}
    (hp : p.startTs = some startTs) (hstart : keep (retentionCutoff retentionDays latest) ≤ pushNaive startTs) :
    p.select rows = p.select all := by
  unfold ProxyLogFilter.select
  refine h.select fun row hrow => ?_
  have hfirst : (fun r : ProxyLogRow => decide (pushNaive startTs ≤ r.timestamp)) ∈ p.conditions := by
    simp [ProxyLogFilter.conditions,hp]
  have hcondition := List.all_eq_true.mp hrow _ hfirst
  exact recent_of_le hstart (of_decide_eq_true hcondition)

theorem overview_within {latest : DateTime} {all rows : List ProxyLogRow}
    (h : Left (recent keep retentionDays latest .proxy) all rows) (scan : Scan String) {startTs endTs : ℤ}
    (hstart : keep (retentionCutoff retentionDays latest) ≤ (tsRange startTs endTs).1) :
    overviewImpl scan rows startTs endTs = overviewImpl scan all startTs endTs := by
  have hrows := rowsBetween_within h hstart
  simp only [overviewImpl,totalsImpl,hourlyBucketsImpl,modelDistImpl,hrows]

theorem listProxyLogs_within {latest : DateTime} {all rows : List ProxyLogRow}
    (h : Left (recent keep retentionDays latest .proxy) all rows) (scan : Scan ProxyLogRow)
    {q : ProxyLogQuery} {startTs : ℤ} (hq : q.filter.startTs = some startTs)
    (hstart : keep (retentionCutoff retentionDays latest) ≤ pushNaive startTs) :
    listProxyLogs scan rows q = listProxyLogs scan all q := by
  have hrows := select_within h hq hstart
  have hquery : ∀ page perPage, queryProxyLogsImpl scan rows ⟨page,perPage,q.filter⟩ =
      queryProxyLogsImpl scan all ⟨page,perPage,q.filter⟩ := by
    intro page perPage
    rw [queryProxyLogsImpl,queryProxyLogsImpl,hrows]
  unfold listProxyLogs
  refine Option.map_congr fun page _ => ?_
  rw [hquery]

/-- What the analytics answer for a time within the retention is what they would answer if no row
was ever deleted: the overview, and the pages of the proxy log. -/
theorem analytics_within_retention (keep : DateTime → DateTime) (hkeep : Monotone keep)
    (flushBatch retentionEvery retentionDays capacity : ℕ) (tables : LogTables) (latest : DateTime)
    (script : List (WorkerOp DuckAnswers)) (hnow : ∀ op ∈ script, Until latest op)
    (r : WorkerRun DuckLog)
    (hrun : Transition.exec (duckWorker keep flushBatch retentionEvery retentionDays).step
      (.start capacity (.new tables)) script = some r) :
    ∃ written : List (List LogEvent),
      written.Sublist r.sink.flushed ∧ (AllFine script → written = r.sink.flushed) ∧
      (∀ (scan : Scan String) (startTs endTs : ℤ),
        keep (retentionCutoff retentionDays latest) ≤ (tsRange startTs endTs).1 →
        overviewImpl scan (r.sink.duck.committed .proxy) startTs endTs =
          overviewImpl scan (tables .proxy ++ logRows keep written .proxy) startTs endTs) ∧
      ∀ (scan : Scan ProxyLogRow) (q : ProxyLogQuery) (startTs : ℤ), q.filter.startTs = some startTs →
        keep (retentionCutoff retentionDays latest) ≤ pushNaive startTs →
        listProxyLogs scan (r.sink.duck.committed .proxy) q =
          listProxyLogs scan (tables .proxy ++ logRows keep written .proxy) q := by
  obtain ⟨written,h⟩ := Holding.run hkeep hnow hrun
  refine ⟨written,h.batches,fun hfine => (h.all hfine).1,?_,?_⟩
  · exact fun scan startTs endTs hstart => overview_within (h.left .proxy) scan hstart
  · exact fun scan q startTs hq hstart => listProxyLogs_within (h.left .proxy) scan hq hstart

/-- The second and the third day read the same as without a cleanup. -/
theorem analytics_within_retention_days :
    let day : DateTime := 86400000000000
    let proxy (t : DateTime) : ProxyRow :=
      ⟨⟨none,none,some 5,none,1,"success",none,none,none⟩,t,"r",none,"m","p","/v1/chat/completions",
        false,"u","openai",none⟩
    let fine : DuckAnswers := ⟨⟨true,true,true,true,true⟩,0,false,2*day,fun _ => true⟩
    let script : List (WorkerOp DuckAnswers) := [.send (.proxy (proxy 0)),.work fine,.work fine,
      .work fine,.send (.proxy (proxy (2*day))),.work fine,.work fine,.work fine]
    ∃ r, Transition.exec (duckWorker id 1 1 1).step (.start 4 (.new fun _ => [])) script = some r ∧
      (r.sink.duck.committed .proxy).map LogTable.proxy.time = [2*day] ∧
      ∃ written : List (List LogEvent), written = r.sink.flushed ∧
        overviewImpl .stored (r.sink.duck.committed .proxy) 86400 259200 =
          overviewImpl .stored (logRows id written .proxy) 86400 259200 ∧
        listProxyLogs .stored (r.sink.duck.committed .proxy)
            ⟨none,none,⟨some 86400,none,none,none,none,none,none,none,none,none,none⟩⟩ =
          listProxyLogs .stored (logRows id written .proxy)
            ⟨none,none,⟨some 86400,none,none,none,none,none,none,none,none,none,none⟩⟩ := by
  intro day proxy fine script
  have hops : ∀ op ∈ script, Until (2*day) op ∧ Worker.Answered (fun a : DuckAnswers => a.Fine) op := by
    have hfine : fine.now ≤ 2*day ∧ fine.Fine := ⟨le_rfl,rfl,rfl,rfl,rfl,rfl⟩
    simp [script,Until,Worker.Answered,hfine]
  obtain ⟨written,-,hall,hoverview,hpages⟩ := analytics_within_retention id monotone_id 1 1 1 4
    (fun _ => []) (2*day) script (fun op hop => (hops op hop).1) _ rfl
  exact ⟨_,rfl,by decide,written,hall fun op hop => (hops op hop).2,
    hoverview .stored 86400 259200 (by decide),hpages .stored _ 86400 rfl (by decide)⟩

end Runs
end Ait
