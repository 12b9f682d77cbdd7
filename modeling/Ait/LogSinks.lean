import Ait.LogWorker

/-!
# The two log sinks

The DuckDB worker writes a batch in one transaction, the Loki worker pushes it in one
request. Both run the loop of `LogWorker`, so an event that was accepted before the
shutdown is in exactly one batch, and the batches are in the order of the events.
-/

namespace Ait

inductive Statement
  | beginTransaction
  | appendAccesses (rows : List AccessEvent)
  | appendProxies (rows : List ProxyRow)
  | appendAudits (rows : List AuditEvent)
  | commit
  | rollback
  | checkpoint
  | cleanupExpired (retentionDays : ℕ)
  deriving DecidableEq

structure FlushAnswers where
  begun : Bool
  accesses : Bool
  proxies : Bool
  audits : Bool
  committed : Bool

/-- The connection: what it was asked to run, and the batches `flush_events` was called with. -/
structure LogConnection where
  statements : List Statement
  flushed : List (List LogEvent)

def LogConnection.run (conn : LogConnection) (s : Statement) : LogConnection :=
  {conn with statements := conn.statements ++ [s]}

/-- An appender for some rows; without rows nothing is run. -/
def appendRows {ρ : Type} (answer : Bool) (statement : List ρ → Statement) (rows : List ρ)
    (conn : LogConnection) : Bool × LogConnection :=
  match rows with
  | [] => (true,conn)
  | _ => (answer,conn.run (statement rows))

def flushEvents (a : FlushAnswers) (conn : LogConnection) (events : List LogEvent) :
    Bool × LogConnection :=
  let access := events.filterMap fun | .access e => some e | _ => none
  let proxy := events.filterMap fun | .proxy e => some e | _ => none
  let audit := events.filterMap fun | .audit e => some e | _ => none
  let conn := {conn with flushed := conn.flushed ++ [events]}
  let conn := conn.run .beginTransaction
  if ¬a.begun then (false,conn)
  else
    -- each append runs only after the one before it succeeded
    let (appended,conn) := appendRows a.accesses .appendAccesses access conn
    let (appended,conn) :=
      if appended then appendRows a.proxies .appendProxies proxy conn else (false,conn)
    let (appended,conn) :=
      if appended then appendRows a.audits .appendAudits audit conn else (false,conn)
    if appended then (a.committed,conn.run .commit) else (false,conn.run .rollback)

structure LogDb where
  conn : LogConnection
  flushCount : ℕ

def LogDb.new : LogDb := ⟨⟨[],[]⟩,0⟩

def flushBuffer (retentionEvery retentionDays : ℕ) (a : FlushAnswers) (db : LogDb)
    (buffer : List LogEvent) : LogDb × List LogEvent :=
  let (written,conn) := flushEvents a db.conn buffer
  let db :=
    if written then
      let flushCount := db.flushCount+1
      if retentionEvery > 0 ∧ flushCount % retentionEvery = 0 then
        ⟨(conn.run .checkpoint).run (.cleanupExpired retentionDays),flushCount⟩
      else ⟨conn,flushCount⟩
    else ⟨conn,db.flushCount⟩
  (db,[])

/-- `worker_loop`. Its last flush leaves the buffer as it is, and the worker checkpoints. -/
def workerLoop (flushBatch retentionEvery retentionDays : ℕ) : Worker LogDb FlushAnswers where
  batchSize := flushBatch
  flush := flushBuffer retentionEvery retentionDays
  lastFlush a db buffer := ({db with conn := (flushEvents a db.conn buffer).2},buffer)
  close db := {db with conn := db.conn.run .checkpoint}
  handed db := db.conn.flushed

@[simp] theorem run_flushed (conn : LogConnection) (s : Statement) :
    (conn.run s).flushed = conn.flushed := rfl

@[simp] theorem appendRows_flushed {ρ : Type} (answer : Bool) (statement : List ρ → Statement)
    (rows : List ρ) (conn : LogConnection) :
    (appendRows answer statement rows conn).2.flushed = conn.flushed := by
  cases rows <;> rfl

@[simp] theorem flushEvents_flushed (a : FlushAnswers) (conn : LogConnection)
    (events : List LogEvent) :
    (flushEvents a conn events).2.flushed = conn.flushed ++ [events] := by
  have hpair : ∀ (b : Bool) (c d : Bool × LogConnection),
      (if b then c else d).2.flushed = if b then c.2.flushed else d.2.flushed := by
    intro b c d
    cases b <;> rfl
  by_cases hbegun : a.begun = true
  · simp [flushEvents,hbegun,hpair]
  · simp [flushEvents,hbegun]

def appendOf {ρ : Type} (statement : List ρ → Statement) (rows : List ρ) : List Statement :=
  if rows = [] then [] else [statement rows]

@[simp] theorem appendRows_written {ρ : Type} {answer : Bool} {statement : List ρ → Statement}
    {rows : List ρ} {conn : LogConnection} (h : (appendRows answer statement rows conn).1 = true) :
    (appendRows answer statement rows conn).2.statements =
      conn.statements ++ appendOf statement rows := by
  cases rows with
  | nil => simp [appendRows,appendOf]
  | cons row rows => simp [appendRows,appendOf,LogConnection.run]

/-- A flush that succeeds is one transaction with every event of the batch, table by table and in
the order of the batch. -/
theorem flushEvents_written {a : FlushAnswers} {conn : LogConnection} {events : List LogEvent}
    (h : (flushEvents a conn events).1 = true) :
    (flushEvents a conn events).2.statements =
      conn.statements ++ [.beginTransaction] ++
        appendOf .appendAccesses (events.filterMap fun | .access e => some e | _ => none) ++
        appendOf .appendProxies (events.filterMap fun | .proxy e => some e | _ => none) ++
        appendOf .appendAudits (events.filterMap fun | .audit e => some e | _ => none) ++
        [.commit] := by
  by_cases hbegun : a.begun = true
  · simp only [flushEvents,hbegun,not_true,if_false] at h ⊢
    -- a flush that succeeds got through every append
    generalize hone : appendRows a.accesses .appendAccesses _ _ = one at h ⊢
    cases hok : one.1 with
    | false => simp [hok] at h
    | true =>
      have hfirst := appendRows_written (hone ▸ hok)
      simp only [hok,if_true] at h ⊢
      generalize htwo : appendRows a.proxies .appendProxies _ _ = two at h ⊢
      cases hok' : two.1 with
      | false => simp [hok'] at h
      | true =>
        have hsecond := appendRows_written (htwo ▸ hok')
        simp only [hok',if_true] at h ⊢
        generalize hthree : appendRows a.audits .appendAudits _ _ = three at h ⊢
        cases hok'' : three.1 with
        | false => simp [hok''] at h
        | true =>
          have hthird := appendRows_written (hthree ▸ hok'')
          rw [hone] at hfirst
          rw [htwo,hfirst] at hsecond
          rw [hthree,hsecond] at hthird
          simp [LogConnection.run,hthird,List.append_assoc]
  · simp [flushEvents,hbegun] at h

theorem workerLoop_lawful (flushBatch retentionEvery retentionDays : ℕ) :
    (workerLoop flushBatch retentionEvery retentionDays).Lawful where
  flush_handed a db buffer := by
    simp only [workerLoop,flushBuffer]
    by_cases hwritten : (flushEvents a db.conn buffer).1 = true
    · by_cases hevery : retentionEvery > 0 ∧ (db.flushCount+1) % retentionEvery = 0
      · simp [hwritten,hevery]
      · simp [hwritten,hevery]
    · simp [hwritten]
  flush_clears _ _ _ := rfl
  last_handed a db buffer := flushEvents_flushed a db.conn buffer
  close_handed _ := rfl

/-- A `BTreeMap<String, String>`. -/
abbrev Labels := List (String × String)

def Labels.insert (labels : Labels) (key value : String) : Labels :=
  match labels with
  | [] => [(key,value)]
  | l::rest =>
    if l.1 = key then (key,value)::rest
    else if key < l.1 then (key,value)::l::rest
    else l::insert rest key value

/-- The order of the maps, which compares their entries one after the other. -/
def Labels.before (a b : Labels) : Bool :=
  a.flatMap (fun l => [l.1,l.2]) < b.flatMap (fun l => [l.1,l.2])

def eventToLabels (event : LogEvent) (staticLabels : Labels) : Labels :=
  match event with
  | .access e => (staticLabels.insert "event_type" "access").insert "method" e.method
  | .proxy e =>
    (((staticLabels.insert "event_type" "proxy").insert "model_name" e.modelName).insert
      "status" e.status).insert "is_streaming" (toString e.isStreaming)
  | .audit e =>
    ((staticLabels.insert "event_type" "audit").insert "action" e.action).insert
      "resource" e.resource
  | .shutdown => staticLabels

def eventTimestamp (now : ℤ) : LogEvent → ℤ
  | .access e => e.timestamp
  | .proxy e => e.timestamp
  | .audit e => e.timestamp
  | .shutdown => now

/-- `timestamp_nanos_opt`: a time outside the range of an `i64` has none. -/
def timestampNanos (t : ℤ) : Option ℤ := if -2^63 ≤ t ∧ t < 2^63 then some t else none

/-- What the worker takes from other code: the JSON of an event, and the clock. -/
structure LokiOutside where
  toString : LogEvent → String
  now : ℤ

def eventToLine (o : LokiOutside) : LogEvent → String
  | .shutdown => ""
  | e => o.toString e

structure LokiStream where
  stream : Labels
  values : List (String × String)
  deriving DecidableEq

/-- `entry(labels).or_default().push(value)`. -/
def addToGroup {ν : Type} (labels : Labels) (value : ν) : List (Labels × List ν) → List (Labels × List ν)
  | [] => [(labels,[value])]
  | g::groups =>
    if g.1 = labels then (g.1,g.2 ++ [value])::groups
    else if labels.before g.1 then (labels,[value])::g::groups
    else g::addToGroup labels value groups

def buildPushPayload (o : LokiOutside) (events : List LogEvent) (staticLabels : Labels) :
    List LokiStream :=
  let groups := (events.filter LogEvent.isEvent).foldl (fun groups e =>
    addToGroup (eventToLabels e staticLabels)
      ((timestampNanos (eventTimestamp o.now e)).getD 0,eventToLine o e) groups) []
  groups.map fun g =>
    ⟨g.1,(g.2.mergeSort fun a b => a.1 ≤ b.1).map fun v => (toString v.1,v.2)⟩

structure LokiState where
  pushUrl : String
  staticLabels : Labels
  basicAuthUser : Option String
  basicAuthPassword : Option String
  bearerToken : Option String

structure LokiRequest where
  url : String
  payload : List LokiStream
  basicAuth : Option (String × String)
  bearerAuth : Option String

structure LokiAnswer where
  outside : LokiOutside
  /-- The response has a success status. -/
  accepted : Bool

structure LokiWorkerState where
  consecutiveFailures : ℕ
  requests : List LokiRequest
  flushed : List (List LogEvent)

def LokiWorkerState.new : LokiWorkerState := ⟨0,[],[]⟩

def flushLoki (state : LokiState) (a : LokiAnswer) (s : LokiWorkerState) (buffer : List LogEvent) :
    LokiWorkerState × List LogEvent :=
  let payload := buildPushPayload a.outside buffer state.staticLabels
  let basicAuth := match state.basicAuthUser,state.basicAuthPassword with
    | some user,some pass => some (user,pass)
    | _,_ => none
  let request : LokiRequest := ⟨state.pushUrl,payload,basicAuth,state.bearerToken⟩
  ({consecutiveFailures := if a.accepted then 0 else s.consecutiveFailures+1
    requests := s.requests ++ [request]
    flushed := s.flushed ++ [buffer]},[])

/-- `loki_worker`. -/
def lokiWorker (state : LokiState) (batchSize : ℕ) : Worker LokiWorkerState LokiAnswer where
  batchSize := batchSize
  flush := flushLoki state
  lastFlush := flushLoki state
  close := id
  handed s := s.flushed

theorem lokiWorker_lawful (state : LokiState) (batchSize : ℕ) :
    (lokiWorker state batchSize).Lawful where
  flush_handed _ _ _ := rfl
  flush_clears _ _ _ := rfl
  last_handed _ _ _ := rfl
  close_handed _ := rfl

theorem addToGroup_perm {ν : Type} (labels : Labels) (value : ν) (groups : List (Labels × List ν)) :
    ((addToGroup labels value groups).flatMap fun g => g.2.map fun v => (g.1,v)).Perm
      ((labels,value)::groups.flatMap fun g => g.2.map fun v => (g.1,v)) := by
  induction groups with
  | nil => simp [addToGroup]
  | cons g groups ih =>
    unfold addToGroup
    by_cases hsame : g.1 = labels
    · subst hsame
      simp only [if_true,List.flatMap_cons,List.map_append,List.map_cons,List.map_nil]
      rw [List.append_assoc,List.singleton_append]
      exact List.perm_middle
    · simp only [hsame,if_false]
      by_cases hbefore : labels.before g.1 = true
      · simp [hbefore]
      · simp only [hbefore,Bool.false_eq_true,if_false,List.flatMap_cons]
        exact (ih.append_left _).trans List.perm_middle

/-- A push carries every event of the batch exactly once, under its own labels. -/
theorem buildPushPayload_perm (o : LokiOutside) (events : List LogEvent) (staticLabels : Labels) :
    ((buildPushPayload o events staticLabels).flatMap fun s => s.values.map fun v => (s.stream,v)).Perm
      ((events.filter LogEvent.isEvent).map fun e => (eventToLabels e staticLabels,
        toString ((timestampNanos (eventTimestamp o.now e)).getD 0),eventToLine o e)) := by
  let stamped := fun e => ((timestampNanos (eventTimestamp o.now e)).getD 0,eventToLine o e)
  have hgroups : ∀ (es : List LogEvent) (groups : List (Labels × List (ℤ × String))),
      ((es.foldl (fun groups e => addToGroup (eventToLabels e staticLabels) (stamped e) groups)
        groups).flatMap fun g => g.2.map fun v => (g.1,v)).Perm
        ((es.map fun e => (eventToLabels e staticLabels,stamped e)) ++
          groups.flatMap fun g => g.2.map fun v => (g.1,v)) := by
    intro es
    induction es with
    | nil => simp
    | cons e es ih =>
      intro groups
      refine (ih _).trans ?_
      exact ((addToGroup_perm _ _ groups).append_left _).trans List.perm_middle
  have hall := hgroups (events.filter LogEvent.isEvent) []
  simp only [List.flatMap_nil,List.append_nil] at hall
  have hprinted := hall.map fun p => (p.1,toString p.2.1,p.2.2)
  simp only [List.map_flatMap,List.map_map] at hprinted
  simp only [buildPushPayload,List.flatMap_map]
  refine (List.Perm.flatMap_left _ fun g _ => ?_).trans hprinted
  have hsort := List.mergeSort_perm g.2 fun a b => a.1 ≤ b.1
  rw [List.map_map]
  exact hsort.map fun v => (g.1,toString v.1,v.2)

/-- In every run of the worker, whatever the producers, the clock and the flushes do: what was
accepted is in the batches, in the buffer or on the channel, in the order it was accepted; once the
worker has returned everything sent before the shutdown is in a batch, and nothing but what is
still on the channel is not; and a shutdown that was accepted makes the worker return. -/
def Worker.HandsOver {σ ω : Type} (w : Worker σ ω) (sink : σ) : Prop :=
  ∀ (capacity : ℕ) (script : List (WorkerOp ω)) (r : WorkerRun σ),
    Transition.exec w.step (.start capacity sink) script = some r →
      (r.stage ≠ .returned →
        (w.handed r.sink).flatten ++ r.buffer ++ r.queue.filter LogEvent.isEvent =
          r.accepted.filter LogEvent.isEvent) ∧
      (r.stage = .returned →
        Worker.before r.accepted <+: (w.handed r.sink).flatten ∧
        (w.handed r.sink).flatten ++ r.queue.filter LogEvent.isEvent =
          r.accepted.filter LogEvent.isEvent) ∧
      (.shutdown ∈ r.accepted → ∀ answers : List ω, answers.length = Worker.remaining r →
        ∃ r', Transition.exec w.step r (answers.map .work) = some r' ∧ r'.stage = .returned)

theorem Worker.Lawful.handsOver {σ ω : Type} {w : Worker σ ω} (hw : w.Lawful) {sink : σ}
    (hsink : w.handed sink = []) : w.HandsOver sink := by
  intro capacity script r hrun
  have h := Accounted.run hw hsink hrun
  have hfifo := h.fifo
  refine ⟨?_,?_,?_⟩
  · intro hlive
    simpa only [unflushed,if_neg hlive] using hfifo
  · intro hret
    refine ⟨h.before_prefix hret,?_⟩
    simpa only [unflushed,hret,if_true,List.append_nil] using hfifo
  · intro hsent answers hlen
    exact (h.ends hsent).returns answers hlen

/-- Both log workers hand every event over once and in order. -/
theorem log_workers_hand_over (flushBatch retentionEvery retentionDays : ℕ) (state : LokiState)
    (batchSize : ℕ) :
    (workerLoop flushBatch retentionEvery retentionDays).HandsOver .new ∧
      (lokiWorker state batchSize).HandsOver .new :=
  ⟨(workerLoop_lawful flushBatch retentionEvery retentionDays).handsOver rfl,
    (lokiWorker_lawful state batchSize).handsOver rfl⟩

def demoAudit (id : String) : LogEvent := .audit ⟨0,id,"create","model",id,none⟩

/-- The draining loop takes the shutdown and goes on; the event behind it is flushed as well. -/
example :
    (Transition.exec (workerLoop 2 0 30).step (.start 10 .new)
      ([.send (demoAudit "a"),.send .shutdown,.work ⟨true,true,true,true,true⟩,
        .send (demoAudit "b")] ++ List.replicate 5 (.work ⟨true,true,true,false,true⟩))).map
      (fun r => (r.stage,r.sink.conn.flushed)) =
    some (.returned,[[demoAudit "a",demoAudit "b"]]) := by decide

end Ait
