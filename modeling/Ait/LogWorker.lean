import Ait.Sse
import Ait.Transition

/-!
# The loop of a log worker

Producers put events on a bounded channel and one worker takes them off into a buffer,
which it flushes on a timeout, when a batch is full, and before it returns. The two log
sinks run the same loop with different flushes, so the loop is one step function here
and a sink is a `Worker`. A worker starts where its loop does: the buffer it allocates
before, `Vec::with_capacity` of a whole batch, is not part of it (`ConfigLimits` says for
which batch sizes that does not panic).
-/

namespace Ait

structure AccessEvent where
  timestamp : ℤ
  requestId : String
  method : String
  path : String
  status : ℤ
  latencyMs : ℤ
  clientIp : Option String
  deriving DecidableEq

/-- A `ProxyEvent` with the fields that no handler changes after it is begun. -/
structure ProxyRow extends ProxyEvent where
  timestamp : ℤ
  requestId : String
  apiKeyName : Option String
  modelName : String
  providerName : String
  endpoint : String
  isStreaming : Bool
  upstreamModel : String
  providerType : String
  clientIp : Option String
  deriving DecidableEq

structure AuditEvent where
  timestamp : ℤ
  requestId : String
  action : String
  resource : String
  resourceId : String
  detail : Option String
  deriving DecidableEq

inductive LogEvent
  | access (e : AccessEvent)
  | proxy (e : ProxyRow)
  | audit (e : AuditEvent)
  | shutdown
  deriving DecidableEq

def LogEvent.isEvent : LogEvent → Bool
  | .shutdown => false
  | _ => true

/-- What a worker does with its buffer. `ω` is what the sink's environment answers to a flush. -/
structure Worker (σ ω : Type) where
  batchSize : ℕ
  /-- A flush on a timeout or a full batch, with the buffer it leaves. -/
  flush : ω → σ → List LogEvent → σ × List LogEvent
  /-- The flush of what is buffered when the worker is about to return. -/
  lastFlush : ω → σ → List LogEvent → σ × List LogEvent
  close : σ → σ
  /-- The batches that were handed to a flush attempt so far. -/
  handed : σ → List (List LogEvent)

/-- Where the worker is in its loop; `shutdown` is the local flag of the iteration. -/
inductive WorkerStage
  | receiving
  | draining (shutdown : Bool)
  | batching (shutdown : Bool)
  | leaving
  | returned
  deriving DecidableEq

structure WorkerRun (σ : Type) where
  capacity : ℕ
  queue : List LogEvent
  /-- Some sender is still there. -/
  connected : Bool
  stage : WorkerStage
  buffer : List LogEvent
  sink : σ
  /-- Everything the channel accepted, in order. -/
  accepted : List LogEvent
  /-- Everything the worker took off the channel, in order. -/
  received : List LogEvent

def WorkerRun.start {σ : Type} (capacity : ℕ) (sink : σ) : WorkerRun σ :=
  ⟨capacity,[],true,.receiving,[],sink,[],[]⟩

inductive WorkerOp (ω : Type)
  /-- `try_send` by some producer. -/
  | send (e : LogEvent)
  /-- The last sender is dropped. -/
  | hangUp
  /-- `recv_timeout` runs out of time. -/
  | timeout (answer : ω)
  /-- The worker goes on. -/
  | work (answer : ω)

namespace Worker

variable {σ ω : Type} (w : Worker σ ω)

def flushNonEmpty (flush : ω → σ → List LogEvent → σ × List LogEvent) (answer : ω)
    (r : WorkerRun σ) : WorkerRun σ :=
  if r.buffer = [] then r
  else
    let (sink,buffer) := flush answer r.sink r.buffer
    {r with sink,buffer}

def leave (answer : ω) (r : WorkerRun σ) : WorkerRun σ :=
  let r := flushNonEmpty w.lastFlush answer r
  {r with sink := w.close r.sink,stage := .returned}

def take (shutdown : Bool) (e : LogEvent) (rest : List LogEvent) (r : WorkerRun σ) : WorkerRun σ :=
  let r := {r with queue := rest,received := r.received ++ [e]}
  if e.isEvent then {r with buffer := r.buffer ++ [e],stage := .draining shutdown}
  else {r with stage := .draining true}

def step (r : WorkerRun σ) : WorkerOp ω → Option (WorkerRun σ)
  | .send e =>
    if ¬r.connected then none
    else if r.stage = .returned ∨ r.queue.length ≥ r.capacity then some r
    else some {r with queue := r.queue ++ [e],accepted := r.accepted ++ [e]}
  | .hangUp => some {r with connected := false}
  | .timeout answer =>
    match r.stage with
    | .receiving => some {flushNonEmpty w.flush answer r with stage := .draining false}
    | _ => none
  | .work answer =>
    match r.stage with
    | .receiving =>
      match r.queue with
      | e::rest => some (take false e rest r)
      -- an empty channel blocks the worker while a sender is left
      | [] => if r.connected then none else some (w.leave answer r)
    | .draining shutdown =>
      match r.queue with
      | e::rest => some (take shutdown e rest r)
      | [] => some {r with stage := .batching shutdown}
    | .batching shutdown =>
      let next := if shutdown then .leaving else .receiving
      if r.buffer.length ≥ w.batchSize then
        let (sink,buffer) := w.flush answer r.sink r.buffer
        some {r with sink,buffer,stage := next}
      else some {r with stage := next}
    | .leaving => some (w.leave answer r)
    | .returned => none

structure Lawful : Prop where
  flush_handed : ∀ answer sink buffer,
    w.handed (w.flush answer sink buffer).1 = w.handed sink ++ [buffer]
  flush_clears : ∀ answer sink buffer, (w.flush answer sink buffer).2 = []
  last_handed : ∀ answer sink buffer,
    w.handed (w.lastFlush answer sink buffer).1 = w.handed sink ++ [buffer]
  close_handed : ∀ sink, w.handed (w.close sink) = w.handed sink

def unflushed (r : WorkerRun σ) : List LogEvent := if r.stage = .returned then [] else r.buffer

/-- Whether the worker has come across the shutdown in this iteration, or is done. -/
def stopping : WorkerStage → Bool
  | .receiving => false
  | .draining shutdown => shutdown
  | .batching shutdown => shutdown
  | .leaving => true
  | .returned => true

/-- What was taken off the channel is in a batch or waits for one, in the order it was sent. -/
structure Accounted (r : WorkerRun σ) : Prop where
  channel : r.accepted = r.received ++ r.queue
  events : r.received.filter LogEvent.isEvent = (w.handed r.sink).flatten ++ unflushed r
  unseen : stopping r.stage = false → .shutdown ∉ r.received
  seen : stopping r.stage = true → .shutdown ∈ r.received ∨ r.stage = .returned ∧ r.queue = []

@[simp] theorem isEvent_eq_false {e : LogEvent} : e.isEvent = false ↔ e = .shutdown := by
  cases e <;> simp [LogEvent.isEvent]

variable {w} {r r' : WorkerRun σ}

theorem accounted_start (capacity : ℕ) (sink : σ) (h : w.handed sink = []) :
    w.Accounted (.start capacity sink) := by
  constructor <;> simp [WorkerRun.start,unflushed,stopping,h]

section Flushes

variable (hw : w.Lawful) (answer : ω)
include hw

@[simp] theorem flushNonEmpty_flatten (r : WorkerRun σ) :
    (w.handed (flushNonEmpty w.flush answer r).sink).flatten ++
        (flushNonEmpty w.flush answer r).buffer = (w.handed r.sink).flatten ++ r.buffer := by
  unfold flushNonEmpty
  by_cases hempty : r.buffer = []
  · simp [hempty]
  · simp [hempty,hw.flush_handed,hw.flush_clears]

@[simp] theorem leave_flatten (r : WorkerRun σ) :
    (w.handed (w.leave answer r).sink).flatten = (w.handed r.sink).flatten ++ r.buffer := by
  simp only [leave,hw.close_handed,flushNonEmpty]
  by_cases hempty : r.buffer = []
  · simp [hempty]
  · simp [hempty,hw.last_handed]

end Flushes

theorem flushNonEmpty_frame (flush : ω → σ → List LogEvent → σ × List LogEvent) (answer : ω)
    (r : WorkerRun σ) :
    (flushNonEmpty flush answer r).queue = r.queue ∧
      (flushNonEmpty flush answer r).accepted = r.accepted ∧
      (flushNonEmpty flush answer r).received = r.received := by
  unfold flushNonEmpty
  by_cases hempty : r.buffer = [] <;> simp [hempty]

theorem Accounted.take (h : w.Accounted r) {shutdown : Bool} {e : LogEvent} {rest : List LogEvent}
    (hstage : stopping r.stage = shutdown) (hlive : r.stage ≠ .returned) (hqueue : r.queue = e::rest) :
    w.Accounted (Worker.take shutdown e rest r) := by
  have hevents := h.events
  simp only [unflushed,if_neg hlive] at hevents
  cases hevent : e.isEvent with
  | true =>
    have hne : e ≠ .shutdown := by
      rintro rfl
      cases hevent
    constructor
    · simp [Worker.take,hevent,h.channel,hqueue]
    · simp [Worker.take,hevent,hevents,unflushed]
    · intro hstop
      simp only [Worker.take,hevent,if_true,stopping] at hstop
      have hunseen := h.unseen (hstage.trans hstop)
      simp [Worker.take,hevent,hunseen,hne.symm]
    · intro hstop
      simp only [Worker.take,hevent,if_true,stopping] at hstop
      have hseen := h.seen (hstage.trans hstop)
      simp only [hlive,false_and,or_false] at hseen
      simp [Worker.take,hevent,hseen]
  | false =>
    have hshut := isEvent_eq_false.mp hevent
    constructor
    · simp [Worker.take,hevent,h.channel,hqueue]
    · simp [Worker.take,hevent,hevents,unflushed]
    · intro hstop
      simp [Worker.take,hevent,stopping] at hstop
    · intro hstop
      left
      simp [Worker.take,hevent,← hshut]

theorem Accounted.leave (hw : w.Lawful) (answer : ω) (h : w.Accounted r)
    (hlive : r.stage ≠ .returned) (hwhy : .shutdown ∈ r.received ∨ r.queue = []) :
    w.Accounted (w.leave answer r) := by
  obtain ⟨hqueue,haccepted,hreceived⟩ := flushNonEmpty_frame w.lastFlush answer r
  have hevents := h.events
  simp only [unflushed,if_neg hlive] at hevents
  constructor
  · simp [Worker.leave,hqueue,haccepted,hreceived,h.channel]
  · rw [leave_flatten hw]
    simp [Worker.leave,hreceived,hevents,unflushed]
  · intro hstop
    cases hstop
  · intro hstop
    simpa [Worker.leave,hqueue,hreceived] using hwhy

theorem Accounted.move (h : w.Accounted r) (hlive : r.stage ≠ .returned)
    (hframe : r'.queue = r.queue ∧ r'.accepted = r.accepted ∧ r'.received = r.received)
    (hflat : (w.handed r'.sink).flatten ++ r'.buffer = (w.handed r.sink).flatten ++ r.buffer)
    (hnew : r'.stage ≠ .returned) (hstop : stopping r'.stage = stopping r.stage) :
    w.Accounted r' := by
  obtain ⟨hqueue,haccepted,hreceived⟩ := hframe
  have hevents := h.events
  simp only [unflushed,if_neg hlive] at hevents
  constructor
  · simp [hqueue,haccepted,hreceived,h.channel]
  · simp [unflushed,hnew,hreceived,hevents,hflat]
  · intro hno
    simpa [hreceived] using h.unseen (hstop ▸ hno)
  · intro hyes
    have hseen := h.seen (hstop ▸ hyes)
    simp only [hlive,false_and,or_false] at hseen
    exact .inl (by simpa [hreceived] using hseen)

theorem Accounted.send (h : w.Accounted r) {e : LogEvent} (hstep : w.step r (.send e) = some r') :
    w.Accounted r' := by
  simp only [Worker.step] at hstep
  by_cases hconn : r.connected = true
  · simp only [hconn,not_true,if_false] at hstep
    by_cases hfull : r.stage = .returned ∨ r.queue.length ≥ r.capacity
    · simp only [hfull,if_true,Option.some.injEq] at hstep
      exact hstep ▸ h
    · simp only [hfull,if_false,Option.some.injEq] at hstep
      subst hstep
      have hlive : r.stage ≠ .returned := fun hret => hfull (.inl hret)
      constructor
      · simp [h.channel]
      · exact h.events
      · exact h.unseen
      · intro hstop
        have hseen := h.seen hstop
        simp only [hlive,false_and,or_false] at hseen
        exact .inl hseen
  · simp [hconn] at hstep

theorem Accounted.batched (hw : w.Lawful) (h : w.Accounted r) {shutdown : Bool} {answer : ω}
    (hstage : r.stage = .batching shutdown) (hstep : w.step r (.work answer) = some r') :
    w.Accounted r' := by
  simp only [Worker.step,hstage] at hstep
  have hnew : (if shutdown then WorkerStage.leaving else .receiving) ≠ .returned := by
    cases shutdown <;> simp
  have hstop : stopping (if shutdown then .leaving else .receiving) = stopping r.stage := by
    rw [hstage]
    cases shutdown <;> rfl
  by_cases hfull : r.buffer.length ≥ w.batchSize
  · simp only [hfull,if_true,Option.some.injEq] at hstep
    subst hstep
    exact h.move (by simp [hstage]) ⟨rfl,rfl,rfl⟩
      (by simp [hw.flush_handed,hw.flush_clears]) hnew hstop
  · simp only [hfull,if_false,Option.some.injEq] at hstep
    subst hstep
    exact h.move (by simp [hstage]) ⟨rfl,rfl,rfl⟩ rfl hnew hstop

theorem Accounted.step (hw : w.Lawful) {op : WorkerOp ω} (h : w.Accounted r)
    (hstep : w.step r op = some r') : w.Accounted r' := by
  cases op with
  | send e => exact h.send hstep
  | hangUp =>
    obtain rfl := Option.some.inj hstep
    exact ⟨h.channel,h.events,h.unseen,h.seen⟩
  | timeout answer =>
    simp only [Worker.step] at hstep
    cases hstage : r.stage with
    | receiving =>
      simp only [hstage,Option.some.injEq] at hstep
      subst hstep
      exact h.move (by simp [hstage]) (flushNonEmpty_frame _ answer r)
        (flushNonEmpty_flatten hw answer r) (by simp) (by simp [hstage,stopping])
    | _ => simp [hstage] at hstep
  | work answer =>
    cases hstage : r.stage with
    | receiving =>
      simp only [Worker.step,hstage] at hstep
      cases hqueue : r.queue with
      | nil =>
        by_cases hconn : r.connected = true
        · simp [hqueue,hconn] at hstep
        · simp only [hqueue,hconn,Bool.false_eq_true,if_false,Option.some.injEq] at hstep
          exact hstep ▸ h.leave hw answer (by simp [hstage]) (.inr hqueue)
      | cons e rest =>
        simp only [hqueue,Option.some.injEq] at hstep
        exact hstep ▸ h.take (by simp [hstage,stopping]) (by simp [hstage]) hqueue
    | draining shutdown =>
      simp only [Worker.step,hstage] at hstep
      cases hqueue : r.queue with
      | nil =>
        simp only [hqueue,Option.some.injEq] at hstep
        subst hstep
        exact h.move (by simp [hstage]) ⟨hqueue.symm,rfl,rfl⟩ rfl (by simp) (by simp [hstage,stopping])
      | cons e rest =>
        simp only [hqueue,Option.some.injEq] at hstep
        exact hstep ▸ h.take (by simp [hstage,stopping]) (by simp [hstage]) hqueue
    | batching shutdown => exact h.batched hw hstage hstep
    | leaving =>
      simp only [Worker.step,hstage,Option.some.injEq] at hstep
      have hseen := h.seen (by simp [hstage,stopping])
      simp only [hstage,reduceCtorEq,false_and,or_false] at hseen
      exact hstep ▸ h.leave hw answer (by simp [hstage]) (.inl hseen)
    | returned => simp [Worker.step,hstage] at hstep

theorem Accounted.run (hw : w.Lawful) {capacity : ℕ} {sink : σ} (hsink : w.handed sink = [])
    {script : List (WorkerOp ω)}
    (hrun : Transition.exec w.step (.start capacity sink) script = some r) : w.Accounted r :=
  Transition.exec_preserves (fun _ _ _ hstep hs => hs.step hw hstep) hrun
    (accounted_start capacity sink hsink)

theorem takeWhile_prefix_filter (p : LogEvent → Bool) (es more : List LogEvent)
    (h : (∃ e ∈ es, p e = false) ∨ more = []) : (es ++ more).takeWhile p <+: es.filter p := by
  induction es with
  | nil =>
    rcases h with h | rfl
    · simp at h
    · simp
  | cons e es ih =>
    cases he : p e with
    | false => simp [he]
    | true =>
      have hrest : (∃ x ∈ es, p x = false) ∨ more = [] := by simpa [he] using h
      simpa [he] using ih hrest

def before (sent : List LogEvent) : List LogEvent := sent.takeWhile LogEvent.isEvent

/-- At any time: in batches, in the buffer and on the channel, in that order, nothing else. -/
theorem Accounted.fifo (h : w.Accounted r) :
    (w.handed r.sink).flatten ++ unflushed r ++ r.queue.filter LogEvent.isEvent =
      r.accepted.filter LogEvent.isEvent := by
  rw [h.channel,List.filter_append,h.events]

/-- A worker that has returned leaves nothing that was sent before the shutdown. -/
theorem Accounted.before_prefix (h : w.Accounted r) (hret : r.stage = .returned) :
    before r.accepted <+: (w.handed r.sink).flatten := by
  have hevents := h.events
  simp only [unflushed,hret,if_true,List.append_nil] at hevents
  rw [← hevents,h.channel]
  apply takeWhile_prefix_filter
  rcases h.seen (by simp [hret,stopping]) with hseen | ⟨-,hqueue⟩
  · exact .inl ⟨.shutdown,hseen,rfl⟩
  · exact .inr hqueue

/-- Steps the worker needs to return once the shutdown is on its way to it. -/
def remaining (r : WorkerRun σ) : ℕ :=
  match r.stage with
  | .receiving => r.queue.length+3
  | .draining _ => r.queue.length+3
  | .batching true => 2
  | .batching false => r.queue.length+4
  | .leaving => 1
  | .returned => 0

def Ends (r : WorkerRun σ) : Prop := stopping r.stage = true ∨ .shutdown ∈ r.queue

theorem ends_take {shutdown : Bool} {e : LogEvent} {rest : List LogEvent}
    (h : shutdown = true ∨ .shutdown ∈ e::rest) :
    Ends (Worker.take shutdown e rest r) ∧
      remaining (Worker.take shutdown e rest r) = rest.length+3 := by
  cases hevent : e.isEvent with
  | true =>
    have hne : e ≠ .shutdown := by
      rintro rfl
      cases hevent
    constructor
    · simpa [Worker.take,hevent,Ends,stopping,hne.symm] using h
    · simp [Worker.take,hevent,remaining]
  | false => simp [Worker.take,hevent,Ends,stopping,remaining]

theorem Ends.work {n : ℕ} (h : Ends r) (hn : remaining r = n+1) (answer : ω) :
    ∃ r', w.step r (.work answer) = some r' ∧ Ends r' ∧ remaining r' = n := by
  cases hstage : r.stage with
  | receiving =>
    simp only [Ends,hstage,stopping,Bool.false_eq_true,false_or] at h
    simp only [remaining,hstage] at hn
    cases hqueue : r.queue with
    | nil => simp [hqueue] at h
    | cons e rest =>
      rw [hqueue] at h hn
      have htaken : Ends (Worker.take false e rest r) ∧
          remaining (Worker.take false e rest r) = rest.length+3 := ends_take (.inr h)
      obtain ⟨hends,hrem⟩ := htaken
      refine ⟨_,by simp [Worker.step,hstage,hqueue],hends,?_⟩
      simp only [List.length_cons] at hn
      omega
  | draining shutdown =>
    simp only [Ends,hstage,stopping] at h
    simp only [remaining,hstage] at hn
    cases hqueue : r.queue with
    | nil =>
      rw [hqueue] at h hn
      have hshut : shutdown = true := by simpa using h
      subst hshut
      refine ⟨{r with stage := .batching true},by simp [Worker.step,hstage,hqueue],.inl rfl,?_⟩
      simp only [List.length_nil] at hn
      simp only [remaining]
      omega
    | cons e rest =>
      rw [hqueue] at h hn
      obtain ⟨hends,hrem⟩ := ends_take (r := r) h
      refine ⟨_,by simp [Worker.step,hstage,hqueue],hends,?_⟩
      simp only [List.length_cons] at hn
      omega
  | batching shutdown =>
    obtain ⟨sink,buffer,hwork⟩ : ∃ sink buffer, w.step r (.work answer) =
        some {r with sink,buffer,stage := if shutdown then .leaving else .receiving} := by
      by_cases hfull : r.buffer.length ≥ w.batchSize
      · exact ⟨_,_,by simp only [Worker.step,hstage,hfull,if_true]; rfl⟩
      · exact ⟨r.sink,r.buffer,by simp only [Worker.step,hstage,hfull,if_false]⟩
    refine ⟨_,hwork,?_,?_⟩
    · cases shutdown with
      | true => exact .inl rfl
      | false =>
        simp only [Ends,hstage,stopping,Bool.false_eq_true,false_or] at h
        exact .inr h
    · cases shutdown with
      | true =>
        simp only [remaining,hstage] at hn ⊢
        simp only [if_true]
        omega
      | false =>
        simp only [remaining,hstage] at hn ⊢
        simp only [Bool.false_eq_true,if_false]
        omega
  | leaving =>
    refine ⟨w.leave answer r,by simp [Worker.step,hstage],.inl rfl,?_⟩
    simp only [remaining,hstage] at hn
    simp only [remaining,Worker.leave]
    omega
  | returned => simp [remaining,hstage] at hn

@[simp] theorem remaining_eq_zero (h : remaining r = 0) : r.stage = .returned := by
  cases hstage : r.stage with
  | returned => rfl
  | batching shutdown => cases shutdown <;> simp [remaining,hstage] at h
  | _ => simp [remaining,hstage] at h

/-- With nothing but its own steps the worker returns, whatever its flushes answer. -/
theorem Ends.returns (h : Ends r) (answers : List ω) (hlen : answers.length = remaining r) :
    ∃ r', Transition.exec w.step r (answers.map .work) = some r' ∧ r'.stage = .returned := by
  induction answers generalizing r with
  | nil => exact ⟨r,rfl,remaining_eq_zero hlen.symm⟩
  | cons answer answers ih =>
    obtain ⟨mid,hmid,hends,hrem⟩ := h.work (w := w) hlen.symm answer
    obtain ⟨r',hrun,hret⟩ := ih hends hrem.symm
    exact ⟨r',by simp [Transition.exec,hmid,hrun],hret⟩

theorem Accounted.ends (h : w.Accounted r) (hsent : .shutdown ∈ r.accepted) : Ends r := by
  cases hstop : stopping r.stage with
  | true => exact .inl hstop
  | false =>
    rw [h.channel,List.mem_append] at hsent
    exact .inr (hsent.resolve_left (h.unseen hstop))

end Worker
end Ait
