import Ait.ConfigLimits
import Ait.FlushPace
import Ait.Forward
import Ait.SinkShutdown

/-!
# The log manager

Every event goes to the Loki sink, if there is one, and then to the DuckDB sink, each with a
bounded channel and a worker of its own; `shutdown()` closes the one after the other. Whatever
happens to Loki, the DuckDB sink runs as it would alone.
-/

namespace Ait

structure LokiSettings extends LokiConfig where
  labels : Labels
  bearerToken : Option String

inductive LokiInitError
  | invalidUrl (url : String)
  | client
  | incompleteBasicAuth

/-- What `LokiSink::new` asks of other code: whether a text is an absolute http(s) URL, and
whether the HTTP client can be built. -/
structure LokiClient where
  parsesHttp : String → Bool
  builds : Bool

/-- `[a-zA-Z_][a-zA-Z0-9_]*`. -/
def isValidLabelName (name : String) : Bool :=
  match name.toList with
  | [] => false
  | c::cs => (c.isAlpha || c == '_') && (c::cs).all fun c => c.isAlphanum || c == '_'

def sanitizeStaticLabels (raw : Labels) : Labels := raw.filter fun l => isValidLabelName l.1

/-- `LokiSink::new`: the state of its worker and the size of its batches. -/
def newLokiSink (client : LokiClient) (config : LokiSettings) : Except LokiInitError (LokiState × ℕ) :=
  let pushUrl := trimEndSlashes config.url ++ "/loki/api/v1/push"
  if ¬client.parsesHttp pushUrl then .error (.invalidUrl pushUrl)
  else if config.basicAuthUser.isSome ≠ config.basicAuthPassword.isSome then
    .error .incompleteBasicAuth
  else if ¬client.builds then .error .client
  else .ok (
    { pushUrl := pushUrl
      staticLabels := sanitizeStaticLabels config.labels
      basicAuthUser := config.basicAuthUser
      basicAuthPassword := config.basicAuthPassword
      bearerToken := config.bearerToken },
    max config.batchSize 1)

def lokiChannelCap : ℕ := 4096

/-- What `LogManager::new` starts with. `keep` is the precision of DuckDB's timestamps. -/
structure LogSetup where
  keep : DateTime → DateTime
  flushBatch : ℕ
  retentionEvery : ℕ
  retentionDays : ℕ
  channelCap : ℕ
  tables : LogTables
  client : LokiClient
  loki : LokiSettings

namespace LogSetup

def worker (x : LogSetup) : Worker DuckLog DuckAnswers :=
  duckWorker x.keep x.flushBatch x.retentionEvery x.retentionDays

/-- A sink that cannot be built is left out. -/
def lokiSink (x : LogSetup) : Option (LokiState × ℕ) :=
  if x.loki.enabled ∧ x.loki.url ≠ "" then (newLokiSink x.client x.loki).toOption else none

end LogSetup

/-- `logging` are the events whose `log_*` call has been to Loki only. -/
structure LogManager where
  duck : SinkRun DuckLog
  loki : Option (SinkRun LokiWorkerState)
  logging : List LogEvent

inductive ManagerOp
  | log (e : LogEvent)
  | logged (e : LogEvent)
  | duck (op : SinkOp DuckAnswers)
  | loki (op : SinkOp LokiAnswer)

namespace SinkOp

variable {ω : Type}

def isSend : SinkOp ω → Bool
  | .send _ => true
  | _ => false

end SinkOp

def SinkCall.isEnded : SinkCall → Bool
  | .ended _ => true
  | _ => false

def SinkOp.afterDuck {ω : Type} (duck : SinkRun DuckLog) : SinkOp ω → Bool
  | .call i _ => (duck.calls i).isEnded
  | _ => true

namespace LogManager

def start (x : LogSetup) : LogManager where
  duck := .start x.channelCap (.new x.tables)
  loki := x.lokiSink.map fun _ => .start lokiChannelCap .new
  logging := []

def stepLoki (x : LogSetup) (m : LogManager) (op : SinkOp LokiAnswer) : Option LogManager :=
  match x.lokiSink,m.loki with
  | some (state,batchSize),some l =>
    (l.step (lokiWorker state batchSize) op).map fun l => { m with loki := some l }
  | _,_ => none

def step (x : LogSetup) (m : LogManager) : ManagerOp → Option LogManager
  | .log e =>
    if ¬e.isEvent then none
    else
      (if m.loki.isSome then m.stepLoki x (.send e) else some m).map fun m =>
        { m with logging := m.logging ++ [e] }
  | .logged e =>
    if e ∈ m.logging then
      (m.duck.step x.worker (.send e)).map fun d =>
        { m with duck := d,logging := m.logging.erase e }
    else none
  | .duck op =>
    if op.isSend then none else (m.duck.step x.worker op).map fun d => { m with duck := d }
  | .loki op => if op.isSend ∨ ¬op.afterDuck m.duck then none else m.stepLoki x op

def toDuck : ManagerOp → Option (SinkOp DuckAnswers)
  | .logged e => some (.send e)
  | .duck op => some op
  | _ => none

def toLoki : ManagerOp → Option (SinkOp LokiAnswer)
  | .log e => some (.send e)
  | .loki op => some op
  | _ => none

variable {x : LogSetup} {m m' : LogManager}

theorem stepLoki_duck {op : SinkOp LokiAnswer} (h : m.stepLoki x op = some m') :
    m'.duck = m.duck ∧ m'.logging = m.logging := by
  unfold stepLoki at h
  split at h
  · obtain ⟨l,-,rfl⟩ := Option.map_eq_some_iff.mp h
    exact ⟨rfl,rfl⟩
  · cases h

theorem step_duck {op : ManagerOp} (h : m.step x op = some m') :
    Transition.exec (SinkRun.step x.worker) m.duck (toDuck op).toList = some m'.duck := by
  cases op with
  | log e =>
    simp only [step] at h
    split at h
    · cases h
    · obtain ⟨mid,hmid,rfl⟩ := Option.map_eq_some_iff.mp h
      split at hmid
      · have hduck := (stepLoki_duck hmid).1
        simp [toDuck,Transition.exec,hduck]
      · cases hmid
        rfl
  | logged e =>
    simp only [step] at h
    split at h
    · obtain ⟨d,hd,rfl⟩ := Option.map_eq_some_iff.mp h
      simp [toDuck,Transition.exec,hd]
    · cases h
  | duck op =>
    simp only [step] at h
    split at h
    · cases h
    · obtain ⟨d,hd,rfl⟩ := Option.map_eq_some_iff.mp h
      simp [toDuck,Transition.exec,hd]
  | loki op =>
    simp only [step] at h
    split at h
    · cases h
    · have hduck := (stepLoki_duck h).1
      simp [toDuck,Transition.exec,hduck]

theorem step_loki {state : LokiState} {batchSize : ℕ} (hx : x.lokiSink = some (state,batchSize))
    {l : SinkRun LokiWorkerState} (hl : m.loki = some l) {op : ManagerOp} (h : m.step x op = some m') :
    ∃ l', m'.loki = some l' ∧
      Transition.exec (SinkRun.step (lokiWorker state batchSize)) l (toLoki op).toList = some l' := by
  have hloki (op : SinkOp LokiAnswer) (n : LogManager) (hn : m.stepLoki x op = some n) :
      ∃ l', n.loki = some l' ∧ l.step (lokiWorker state batchSize) op = some l' := by
    simp only [stepLoki,hx,hl] at hn
    obtain ⟨l',hl',rfl⟩ := Option.map_eq_some_iff.mp hn
    exact ⟨l',rfl,hl'⟩
  cases op with
  | log e =>
    simp only [step,hl] at h
    split at h
    · cases h
    · obtain ⟨mid,hmid,rfl⟩ := Option.map_eq_some_iff.mp h
      obtain ⟨l',hl',hstep⟩ := hloki (.send e) mid hmid
      exact ⟨l',hl',by simp [toLoki,Transition.exec,hstep]⟩
  | logged e =>
    simp only [step] at h
    split at h
    · obtain ⟨d,hd,rfl⟩ := Option.map_eq_some_iff.mp h
      exact ⟨l,hl,rfl⟩
    · cases h
  | duck op =>
    simp only [step] at h
    split at h
    · cases h
    · obtain ⟨d,hd,rfl⟩ := Option.map_eq_some_iff.mp h
      exact ⟨l,hl,rfl⟩
  | loki op =>
    simp only [step] at h
    split at h
    · cases h
    · obtain ⟨l',hl',hstep⟩ := hloki op m' h
      exact ⟨l',hl',by simp [toLoki,Transition.exec,hstep]⟩

theorem run_duck {ops : List ManagerOp} (h : Transition.exec (step x) m ops = some m') :
    Transition.exec (SinkRun.step x.worker) m.duck (ops.filterMap toDuck) = some m'.duck := by
  induction ops generalizing m with
  | nil =>
    obtain rfl := Option.some.inj h
    rfl
  | cons op ops ih =>
    obtain ⟨mid,hmid,hrest⟩ := Option.bind_eq_some_iff.mp h
    have hops : (op::ops).filterMap toDuck = (toDuck op).toList ++ ops.filterMap toDuck := by
      cases hop : toDuck op <;> simp [hop]
    rw [hops,Transition.exec_append,step_duck hmid]
    exact ih hrest

theorem run_loki {state : LokiState} {batchSize : ℕ} (hx : x.lokiSink = some (state,batchSize))
    {l : SinkRun LokiWorkerState} (hl : m.loki = some l) {ops : List ManagerOp}
    (h : Transition.exec (step x) m ops = some m') : ∃ l', m'.loki = some l' ∧
      Transition.exec (SinkRun.step (lokiWorker state batchSize)) l (ops.filterMap toLoki) =
        some l' := by
  induction ops generalizing m l with
  | nil =>
    obtain rfl := Option.some.inj h
    exact ⟨l,hl,rfl⟩
  | cons op ops ih =>
    obtain ⟨mid,hmid,hrest⟩ := Option.bind_eq_some_iff.mp h
    obtain ⟨l',hl',hstep⟩ := step_loki hx hl hmid
    obtain ⟨l'',hl'',hrun⟩ := ih hl' hrest
    have hops : (op::ops).filterMap toLoki = (toLoki op).toList ++ ops.filterMap toLoki := by
      cases hop : toLoki op <;> simp [hop]
    refine ⟨l'',hl'',?_⟩
    rw [hops,Transition.exec_append,hstep]
    exact hrun

def Answered (Q : DuckAnswers → Prop) : ManagerOp → Prop
  | .duck op => SinkRun.Answered Q op
  | _ => True

/-- The events whose `log_*` call came to DuckDB's channel, in that order. -/
def offered (ops : List ManagerOp) : List LogEvent := SinkRun.sends (ops.filterMap toDuck)

def pushed (ops : List ManagerOp) : List LogEvent := SinkRun.sends (ops.filterMap toLoki)

theorem answered_toDuck {Q : DuckAnswers → Prop} {ops : List ManagerOp} (h : ∀ op ∈ ops, Answered Q op) :
    ∀ op ∈ ops.filterMap toDuck, SinkRun.Answered Q op := by
  intro op hop
  obtain ⟨o,ho,hop⟩ := List.mem_filterMap.mp hop
  have hanswered := h o ho
  cases o with
  | logged e =>
    cases hop
    trivial
  | duck op' =>
    cases hop
    exact hanswered
  | _ => cases hop

theorem tables_kept (hkeep : Monotone x.keep) {latest : DateTime} {ops : List ManagerOp}
    (hnow : ∀ op ∈ ops, Answered (fun a => a.now ≤ latest) op)
    (hfine : ∀ op ∈ ops, Answered (fun a => a.Fine) op)
    (hrun : Transition.exec (step x) (start x) ops = some m) (table : LogTable) :
    (m.duck.worker.sink.duck.committed table).filter (recent x.keep x.retentionDays latest table) =
      (x.tables table ++ logRows x.keep m.duck.worker.sink.flushed table).filter
        (recent x.keep x.retentionDays latest table) := by
  let Q := fun a : DuckAnswers => a.now ≤ latest ∧ a.Fine
  have hops : ∀ op ∈ ops, Answered Q op := by
    intro op hop
    have hlatest := hnow op hop
    have hgood := hfine op hop
    cases op with
    | duck op => cases op with
      | timeout a | work a => exact ⟨hlatest,hgood⟩
      | _ => trivial
    | _ => trivial
  obtain ⟨script,hscript⟩ := SinkRun.exists_script duckWorker_lawful rfl (answered_toDuck hops)
    (run_duck hrun)
  have huntil : ∀ op ∈ script, Until latest op := by
    intro op hop
    have hanswered := hscript.answered op hop
    cases op with
    | timeout a | work a => exact hanswered.1
    | _ => trivial
  have hallFine : AllFine script := by
    intro op hop
    have hanswered := hscript.answered op hop
    cases op with
    | timeout a | work a => exact hanswered.2
    | _ => trivial
  obtain ⟨written,hholding⟩ := Holding.run hkeep huntil hscript.run
  have hkept := (hholding.left table).kept
  rw [(hholding.all hallFine).1] at hkept
  exact hkept

/-- Any number of threads log and shut down, any answers come from DuckDB and Loki. Each sink is
as if the other were not there, every call can end with the worker's steps, and when it is through
the sink has handed over, in their order and once each, the events accepted before the first
shutdown, unless the channel was full when the call's patience was over. Where DuckDB does not fail,
these events are the new rows of the tables, but for those that retention took. -/
theorem log_shutdown (x : LogSetup) (hkeep : Monotone x.keep) (latest : DateTime)
    (ops : List ManagerOp) (hnow : ∀ op ∈ ops, Answered (fun a => a.now ≤ latest) op) (m : LogManager)
    (hrun : Transition.exec (step x) (start x) ops = some m) :
    Transition.exec (SinkRun.step x.worker) (.start x.channelCap (.new x.tables))
        (ops.filterMap toDuck) = some m.duck ∧
      m.duck.Settled x.worker ∧ (∀ i, m.duck.calls i ≠ .idle → m.duck.Releases x.worker i) ∧
      (m.duck.worker.accepted.filter LogEvent.isEvent).Sublist (offered ops) ∧
      ((∀ op ∈ ops, Answered (fun a => a.Fine) op) → ∀ table,
        (m.duck.worker.sink.duck.committed table).filter (recent x.keep x.retentionDays latest table) =
          (x.tables table ++ logRows x.keep m.duck.worker.sink.flushed table).filter
            (recent x.keep x.retentionDays latest table)) ∧
      ∀ state batchSize, x.lokiSink = some (state,batchSize) → ∃ l, m.loki = some l ∧
        Transition.exec (SinkRun.step (lokiWorker state batchSize)) (.start lokiChannelCap .new)
          (ops.filterMap toLoki) = some l ∧
        l.Settled (lokiWorker state batchSize) ∧
        (∀ i, l.calls i ≠ .idle → l.Releases (lokiWorker state batchSize) i) ∧
        (l.worker.accepted.filter LogEvent.isEvent).Sublist (pushed ops) := by
  have hduck := run_duck hrun
  have hlawful : x.worker.Lawful := duckWorker_lawful
  have hsound := SinkRun.Sound.run hlawful rfl hduck
  refine ⟨hduck,hsound.settled,fun i hi => hsound.releases hlawful hi,?_,?_,?_⟩
  · exact SinkRun.accepted_sublist hlawful (.start x.channelCap _ rfl) hduck
  · exact fun hfine table => tables_kept hkeep hnow hfine hrun table
  · intro state batchSize hx
    have hstart : (start x).loki = some (.start lokiChannelCap .new) := by
      rw [start,hx,Option.map_some]
    obtain ⟨l,hl,hloki⟩ := run_loki hx hstart hrun
    have hlawful := lokiWorker_lawful state batchSize
    have hsound := SinkRun.Sound.run hlawful rfl hloki
    refine ⟨l,hl,hloki,hsound.settled,fun i hi => hsound.releases hlawful hi,?_⟩
    exact SinkRun.accepted_sublist hlawful (.start lokiChannelCap _ rfl) hloki

/-- An event and a shutdown, first of DuckDB's sink and then of Loki's. -/
def demoSetup : LogSetup where
  keep := id
  flushBatch := 2
  retentionEvery := 0
  retentionDays := 1
  channelCap := 2
  tables := fun _ => []
  client := ⟨fun _ => true,true⟩
  loki := ⟨⟨true,"http://loki/",5,1,5,none,none⟩,[("app","ait"),("no-name","x")],none⟩

def demoOps : List ManagerOp :=
  let fine : DuckAnswers := ⟨demoFlush,0,false,0,fun _ => true⟩
  let duck : ManagerOp := .duck (.work fine)
  let loki : ManagerOp := .loki (.work demoPush)
  [.log (demoAudit "m"),.logged (demoAudit "m"),.duck (.call 0 0),.duck (.advance 0 0),
    duck,duck,duck,duck,duck,.duck (.advance 0 0),.duck (.advance 0 0),
    .loki (.call 0 0),.loki (.advance 0 0),loki,loki,loki,loki,loki,
    .loki (.advance 0 0),.loki (.advance 0 0)]

theorem log_shutdown_audit : ∃ m, Transition.exec (step demoSetup) (start demoSetup) demoOps = some m ∧
    m.duck.calls 0 = .ended .joined ∧
    (m.duck.worker.sink.duck.committed .audit).filter (recent id 1 0 .audit) =
      (logRows id m.duck.worker.sink.flushed .audit).filter (recent id 1 0 .audit) ∧
    ∃ l, m.loki = some l ∧ l.calls 0 = .ended .joined ∧
      Worker.before l.worker.accepted <+: l.worker.sink.flushed.flatten := by
  have hops : ∀ op ∈ demoOps, Answered (fun a => a.now ≤ 0) op ∧ Answered (fun a => a.Fine) op := by
    have hfine : demoFlush.Fine := ⟨rfl,rfl,rfl,rfl,rfl⟩
    simp [demoOps,Answered,SinkRun.Answered,hfine]
  have hends : (Transition.exec (step demoSetup) (start demoSetup) demoOps).map (fun m =>
      (m.duck.calls 0,m.loki.map fun l => l.calls 0)) =
        some (.ended .joined,some (.ended .joined)) := by decide +kernel
  obtain ⟨m,hrun,hcalls⟩ := Option.map_eq_some_iff.mp hends
  obtain ⟨hcall,hloki⟩ := Prod.mk.inj hcalls
  obtain ⟨l,hl,hpushed⟩ := Option.map_eq_some_iff.mp hloki
  obtain ⟨-,-,-,-,htables,hloki⟩ := log_shutdown demoSetup monotone_id 0 demoOps
    (fun op hop => (hops op hop).1) m hrun
  obtain ⟨l',hl',-,hsettled,-⟩ := hloki _ 5 rfl
  rw [hl] at hl'
  cases hl'
  refine ⟨m,hrun,hcall,htables (fun op hop => (hops op hop).2) .audit,l,hl,hpushed,?_⟩
  obtain ⟨-,hbefore⟩ | ⟨called,gaveUp,heq,-⟩ := hsettled 0 .joined hpushed
  · exact hbefore
  · cases heq

end LogManager
end Ait
