import Ait.LogSinks
import Ait.AppState

/-!
# How long an event stays in the buffer

A worker waits for a message at most one interval at a time, and every message starts the wait
anew. Time passes only while it waits; flushes take none. An event that is buffered is therefore
flushed within the interval unless messages keep coming in, too few to fill a batch. As in
`LogWorker`, the worker has its buffer.
-/

namespace Ait
open Transition

structure PacedRun (σ : Type) where
  worker : WorkerRun σ
  now : Instant
  /-- When the worker last went to wait on its channel. -/
  waitingSince : Instant
  /-- When the oldest event in the buffer was taken off the channel. -/
  oldestTaken : Instant

inductive PacedOp (ω : Type)
  | act (op : WorkerOp ω)
  | advance (elapsed : ℕ)

namespace PacedRun

variable {σ ω : Type}

def start (capacity : ℕ) (sink : σ) (now : Instant) : PacedRun σ :=
  ⟨.start capacity sink,now,now,now⟩

def oldest (p : PacedRun σ) : Instant := if p.worker.buffer = [] then p.now else p.oldestTaken

def clocked (p : PacedRun σ) (r : WorkerRun σ) : PacedRun σ where
  worker := r
  now := p.now
  waitingSince :=
    if p.worker.stage ≠ .receiving ∧ r.stage = .receiving then p.now else p.waitingSince
  oldestTaken := p.oldest

/-- `recv_timeout` runs out once the interval is over and nothing has come. -/
def enabled (interval : ℕ) (p : PacedRun σ) : WorkerOp ω → Bool
  | .timeout _ => p.worker.queue.isEmpty && p.waitingSince+interval ≤ p.now
  | _ => true

/-- While the worker waits, the oldest event of its buffer was taken less than an interval before
the wait began. -/
def Prompt (interval : ℕ) (p : PacedRun σ) : Prop :=
  p.worker.stage = .receiving → p.worker.buffer ≠ [] → p.waitingSince < p.oldestTaken+interval

/-- The oldest event is less than an interval old, or what is on the channel fills the batch, or
the shutdown is on it. -/
def Settles (batchSize interval : ℕ) (p : PacedRun σ) : Prop :=
  p.now < p.oldest+interval ∨
    batchSize ≤ p.worker.buffer.length+(p.worker.queue.filter LogEvent.isEvent).length ∨
    .shutdown ∈ p.worker.queue

end PacedRun

namespace Worker

variable {σ ω : Type} (w : Worker σ ω)

def pacedStep (interval : ℕ) (p : PacedRun σ) : PacedOp ω → Option (PacedRun σ)
  | .act op => if p.enabled interval op then (w.step p.worker op).map p.clocked else none
  -- the wait ends with a message, with the last sender, or with the interval
  | .advance elapsed =>
    if p.worker.stage = .receiving ∧ p.worker.queue = [] ∧ p.worker.connected ∧
        p.now+elapsed ≤ p.waitingSince+interval then
      some { p with now := p.now+elapsed }
    else none

/-- No message ends the wait of a buffered event that is an interval old, unless the messages that
are there fill the batch or shut the worker down. -/
def Timely (interval : ℕ) (p : PacedRun σ) : PacedOp ω → Prop
  | .act (.work _) =>
    p.worker.stage = .receiving → p.worker.queue ≠ [] → p.Settles w.batchSize interval
  | _ => True

/-- What holds at each place in the loop while all messages are timely. -/
def Pace (interval : ℕ) (p : PacedRun σ) : Prop :=
  match p.worker.stage with
  | .receiving => p.worker.buffer ≠ [] → p.waitingSince < p.oldestTaken+interval
  | .draining false => p.Settles w.batchSize interval
  | .batching false => p.worker.buffer ≠ [] →
    p.now < p.oldestTaken+interval ∨ w.batchSize ≤ p.worker.buffer.length
  | _ => True

instance (interval : ℕ) (p : PacedRun σ) : (a : PacedOp ω) → Decidable (w.Timely interval p a)
  | .act (.work _) =>
    inferInstanceAs (Decidable (_ → _ → (_ ∨ _ ∨ _)))
  | .act (.send _) => .isTrue trivial
  | .act .hangUp => .isTrue trivial
  | .act (.timeout _) => .isTrue trivial
  | .advance _ => .isTrue trivial

/-- In every run whose messages are all timely the worker never waits with an event that is an
interval old; and after a message that is not, it does so before anything else has to happen. -/
def KeepsPace (interval : ℕ) (sink : σ) : Prop :=
  ∀ (capacity : ℕ) (now : Instant) (ops : List (PacedOp ω)) (p : PacedRun σ),
    exec (w.pacedStep interval) (.start capacity sink now) ops = some p →
      (Along (w.pacedStep interval) (w.Timely interval) (.start capacity sink now) ops →
        p.Prompt interval) ∧
      ∀ answer : ω, ¬w.Timely interval p (.act (.work answer)) →
        ∃ n p',
          exec (w.pacedStep interval) p (List.replicate n (.act (.work answer))) = some p' ∧
            ¬p'.Prompt interval

variable {w} {interval : ℕ} {p p' : PacedRun σ}

/-- A message that is taken counts for the batch as it did on the channel. -/
theorem Pace.take {shutdown : Bool} {e : LogEvent} {rest : List LogEvent}
    (hqueue : p.worker.queue = e::rest)
    (h : shutdown = false → p.Settles w.batchSize interval) :
    w.Pace interval (p.clocked (Worker.take shutdown e rest p.worker)) := by
  cases hevent : e.isEvent with
  | false => simp [Pace,PacedRun.clocked,Worker.take,hevent]
  | true =>
    cases shutdown with
    | true => simp [Pace,PacedRun.clocked,Worker.take,hevent]
    | false =>
      have hne : LogEvent.shutdown ≠ e := by
        rintro rfl
        cases hevent
      have hsettles := h rfl
      simp only [PacedRun.Settles,hqueue,List.filter_cons_of_pos hevent,List.length_cons,
        List.mem_cons,hne,false_or] at hsettles
      have hlen : p.worker.buffer.length+((rest.filter LogEvent.isEvent).length+1) =
          p.worker.buffer.length+1+(rest.filter LogEvent.isEvent).length := by omega
      rw [hlen] at hsettles
      simpa [Pace,PacedRun.Settles,PacedRun.clocked,PacedRun.oldest,Worker.take,hevent]
        using hsettles

/-- A full batch is flushed, and so the buffer is empty when the worker waits again. -/
theorem Pace.batch (hw : w.Lawful) {answer : ω} {r : WorkerRun σ}
    (hstage : p.worker.stage = .batching false) (h : w.Pace interval p)
    (hstep : w.step p.worker (.work answer) = some r) : w.Pace interval (p.clocked r) := by
  simp only [Pace,hstage] at h
  simp only [Worker.step,hstage] at hstep
  by_cases hfull : p.worker.buffer.length ≥ w.batchSize
  · simp only [hfull,if_true,Option.some.injEq] at hstep
    subst hstep
    simp [Pace,PacedRun.clocked,hw.flush_clears]
  · simp only [hfull,if_false,Option.some.injEq] at hstep
    subst hstep
    intro hne
    replace hne : p.worker.buffer ≠ [] := hne
    have hage := (h hne).resolve_right hfull
    simpa [PacedRun.clocked,PacedRun.oldest,hstage,hne] using hage

@[simp] theorem flushNonEmpty_buffer (hw : w.Lawful) (answer : ω) (r : WorkerRun σ) :
    (flushNonEmpty w.flush answer r).buffer = [] := by
  unfold flushNonEmpty
  by_cases hempty : r.buffer = []
  · rw [if_pos hempty]
    exact hempty
  · rw [if_neg hempty]
    exact hw.flush_clears answer r.sink r.buffer

theorem Pace.feed {r : WorkerRun σ} (h : w.Pace interval p) (hstage : r.stage = p.worker.stage)
    (hbuffer : r.buffer = p.worker.buffer) {more : List LogEvent}
    (hqueue : r.queue = p.worker.queue ++ more) : w.Pace interval (p.clocked r) := by
  simp only [Pace,PacedRun.clocked,hstage,hbuffer] at h ⊢
  cases hs : p.worker.stage with
  | receiving =>
    simp only [hs] at h ⊢
    intro hne
    simpa [PacedRun.oldest,hne] using h hne
  | draining shutdown =>
    cases shutdown with
    | true => trivial
    | false =>
      simp only [hs,PacedRun.Settles,PacedRun.oldest,hbuffer,hqueue,List.filter_append,
        List.length_append,List.mem_append] at h ⊢
      rcases h with hage | hfull | hshut
      · left
        by_cases hempty : p.worker.buffer = []
        · simpa [hempty] using hage
        · simpa [hempty] using hage
      · exact .inr (.inl (by omega))
      · exact .inr (.inr (.inl hshut))
  | batching shutdown =>
    cases shutdown with
    | true => trivial
    | false =>
      simp only [hs] at h ⊢
      intro hne
      simpa [PacedRun.oldest,hne] using h hne
  | leaving => trivial
  | returned => trivial

theorem Pace.work (hw : w.Lawful) {answer : ω} {r : WorkerRun σ}
    (hstep : w.step p.worker (.work answer) = some r)
    (htimely : w.Timely interval p (.act (.work answer))) (h : w.Pace interval p) :
    w.Pace interval (p.clocked r) := by
  cases hstage : p.worker.stage with
  | receiving =>
    simp only [Worker.step,hstage] at hstep
    cases hqueue : p.worker.queue with
    | nil =>
      simp only [hqueue] at hstep
      split at hstep
      · cases hstep
      · obtain rfl := Option.some.inj hstep
        trivial
    | cons e rest =>
      simp only [hqueue,Option.some.injEq] at hstep
      subst hstep
      exact Pace.take hqueue fun _ => htimely hstage (by simp [hqueue])
  | draining shutdown =>
    simp only [Worker.step,hstage] at hstep
    have hsettles : shutdown = false → p.Settles w.batchSize interval := by
      rintro rfl
      simpa only [Pace,hstage] using h
    cases hqueue : p.worker.queue with
    | cons e rest =>
      simp only [hqueue,Option.some.injEq] at hstep
      subst hstep
      exact Pace.take hqueue hsettles
    | nil =>
      simp only [hqueue,Option.some.injEq] at hstep
      subst hstep
      cases shutdown with
      | true => trivial
      | false =>
        intro hne
        replace hne : p.worker.buffer ≠ [] := hne
        have hdue := hsettles rfl
        simpa [PacedRun.Settles,PacedRun.clocked,PacedRun.oldest,hqueue,hne] using hdue
  | batching shutdown =>
    cases shutdown with
    | false => exact h.batch hw hstage hstep
    | true =>
      simp only [Worker.step,hstage,if_true] at hstep
      split at hstep
      · obtain rfl := Option.some.inj hstep
        trivial
      · obtain rfl := Option.some.inj hstep
        trivial
  | leaving =>
    simp only [Worker.step,hstage,Option.some.injEq] at hstep
    subst hstep
    trivial
  | returned => simp [Worker.step,hstage] at hstep

theorem Pace.step (hw : w.Lawful) (hpos : 0 < interval) {a : PacedOp ω}
    (hstep : w.pacedStep interval p a = some p') (htimely : w.Timely interval p a)
    (h : w.Pace interval p) : w.Pace interval p' := by
  cases a with
  | advance elapsed =>
    simp only [pacedStep] at hstep
    split at hstep
    · rename_i hwaits
      obtain rfl := Option.some.inj hstep
      simpa [Pace,hwaits.1] using h
    · cases hstep
  | act op =>
    simp only [pacedStep] at hstep
    split at hstep
    · obtain ⟨r,hr,rfl⟩ := Option.map_eq_some_iff.mp hstep
      cases op with
      | send e =>
        simp only [Worker.step] at hr
        split at hr
        · cases hr
        · split at hr
          · obtain rfl := Option.some.inj hr
            exact h.feed rfl rfl (List.append_nil _).symm
          · obtain rfl := Option.some.inj hr
            exact h.feed rfl rfl rfl
      | hangUp =>
        obtain rfl := Option.some.inj hr
        exact h.feed rfl rfl (List.append_nil _).symm
      | timeout answer =>
        simp only [Worker.step] at hr
        split at hr
        · obtain rfl := Option.some.inj hr
          left
          have hempty := flushNonEmpty_buffer hw answer p.worker
          simpa [PacedRun.clocked,PacedRun.oldest,hempty] using hpos
        · cases hr
      | work answer => exact h.work hw hr htimely
    · cases hstep

/-- In a run whose messages are all timely the worker never waits with an old event. -/
theorem Pace.run (hw : w.Lawful) (hpos : 0 < interval) {capacity : ℕ} {sink : σ} {now : Instant}
    {ops : List (PacedOp ω)}
    (hrun : exec (w.pacedStep interval) (.start capacity sink now) ops = some p)
    (htimely : Along (w.pacedStep interval) (w.Timely interval) (.start capacity sink now) ops) :
    p.Prompt interval := by
  have hstart : w.Pace interval (.start capacity sink now) := fun hne => absurd rfl hne
  have hpace := exec_invariant
    (fun _ _ _ hstep hok h => Pace.step hw hpos hstep hok h) hrun htimely hstart
  intro hstage hne
  simp only [Pace,hstage] at hpace
  exact hpace hne

/-- A worker that drains too few messages goes back to wait with its old event. -/
theorem drain_late (answer : ω) {queue : List LogEvent} (hstage : p.worker.stage = .draining false)
    (hqueue : p.worker.queue = queue) (hshut : .shutdown ∉ queue)
    (hlate : p.oldestTaken+interval ≤ p.now) (hne : p.worker.buffer ≠ [])
    (hfew : p.worker.buffer.length+(queue.filter LogEvent.isEvent).length < w.batchSize) :
    ∃ p', exec (w.pacedStep interval) p (List.replicate (queue.length+2) (.act (.work answer))) =
      some p' ∧ ¬p'.Prompt interval := by
  induction queue generalizing p with
  | nil =>
    have hshort : ¬p.worker.buffer.length ≥ w.batchSize := by simpa using hfew
    let idle : PacedRun σ :=
      ⟨{p.worker with stage := .receiving},p.now,p.now,p.oldestTaken⟩
    refine ⟨idle,?_,?_⟩
    · simp [List.replicate,exec,pacedStep,PacedRun.enabled,Worker.step,hstage,hqueue,hshort,
        PacedRun.clocked,PacedRun.oldest,hne,idle]
    · intro hprompt
      have hrecent : p.now < p.oldestTaken+interval := hprompt rfl hne
      exact absurd hrecent (Nat.not_lt.mpr hlate)
  | cons e rest ih =>
    obtain ⟨hnot,hrest⟩ : LogEvent.shutdown ≠ e ∧ .shutdown ∉ rest := by
      simpa [not_or] using hshut
    have hevent : e.isEvent = true := by
      rw [← Bool.not_eq_false,isEvent_eq_false]
      exact hnot.symm
    let taken := p.clocked (Worker.take false e rest p.worker)
    have hstep : w.pacedStep interval p (.act (.work answer)) = some taken := by
      simp [pacedStep,PacedRun.enabled,Worker.step,hstage,hqueue,taken]
    have hbuffer : taken.worker.buffer = p.worker.buffer ++ [e] := by
      simp [taken,PacedRun.clocked,Worker.take,hevent]
    have hold : taken.oldestTaken = p.oldestTaken := by
      simp [taken,PacedRun.clocked,PacedRun.oldest,hne]
    obtain ⟨p',hrun,hp'⟩ := ih (p := taken) (by simp [taken,PacedRun.clocked,Worker.take,hevent])
      (by simp [taken,PacedRun.clocked,Worker.take,hevent]) hrest
      (by rw [hold]; exact hlate) (by simp [hbuffer])
      (by
        rw [List.filter_cons_of_pos hevent,List.length_cons] at hfew
        rw [hbuffer,List.length_append,List.length_singleton]
        omega)
    refine ⟨p',?_,hp'⟩
    simpa [List.replicate_succ,exec,hstep] using hrun

/-- After a message that is not timely the worker comes to wait with an old event, whatever the
producers do not do. -/
theorem late_wake (hpos : 0 < interval) (answer : ω)
    (hlate : ¬w.Timely interval p (.act (.work answer))) :
    ∃ n p', exec (w.pacedStep interval) p (List.replicate n (.act (.work answer))) = some p' ∧
      ¬p'.Prompt interval := by
  simp only [Timely,PacedRun.Settles] at hlate
  push Not at hlate
  obtain ⟨hstage,hwaiting,hage,hfew,hshut⟩ := hlate
  have hne : p.worker.buffer ≠ [] := by
    intro hempty
    have hnow : p.now+interval ≤ p.now := by simpa only [PacedRun.oldest,hempty,if_true] using hage
    exact absurd hnow (Nat.not_le.mpr (Nat.lt_add_of_pos_right hpos))
  have hold : p.oldest = p.oldestTaken := if_neg hne
  obtain ⟨e,rest,hqueue⟩ := List.exists_cons_of_ne_nil hwaiting
  -- the message is taken like those of the drain that follows
  let draining : PacedRun σ :=
    ⟨{p.worker with stage := .draining false},p.now,p.waitingSince,p.oldestTaken⟩
  have hsame : w.pacedStep interval p (.act (.work answer)) =
      w.pacedStep interval draining (.act (.work answer)) := by
    cases hevent : e.isEvent <;>
      simp [pacedStep,PacedRun.enabled,Worker.step,hstage,hqueue,draining,Worker.take,hevent,
        PacedRun.clocked,PacedRun.oldest]
  obtain ⟨p',hrun,hp'⟩ := drain_late (p := draining) answer rfl hqueue (hqueue ▸ hshut)
    (hold ▸ hage) hne (hqueue ▸ hfew)
  refine ⟨rest.length+3,p',?_,hp'⟩
  rw [List.replicate_succ,exec,hsame]
  exact hrun

theorem Lawful.keepsPace (hw : w.Lawful) (hpos : 0 < interval) (sink : σ) :
    w.KeepsPace interval sink := by
  intro capacity now ops p hrun
  exact ⟨fun htimely => Pace.run hw hpos hrun htimely,fun answer => late_wake hpos answer⟩

end Worker

/-- Both log workers flush within the interval exactly as long as no message comes too late. -/
theorem log_workers_keep_pace (flushBatch retentionEvery retentionDays : ℕ) (state : LokiState)
    (batchSize : ℕ) {interval : ℕ} (hpos : 0 < interval) :
    (workerLoop flushBatch retentionEvery retentionDays).KeepsPace interval .new ∧
      (lokiWorker state batchSize).KeepsPace interval .new :=
  ⟨(workerLoop_lawful flushBatch retentionEvery retentionDays).keepsPace hpos .new,
    (lokiWorker_lawful state batchSize).keepsPace hpos .new⟩

def bufferedArrival {ω : Type} (answer : ω) (id : String) : List (PacedOp ω) :=
  .act (.send (demoAudit id))::List.replicate 3 (.act (.work answer))

def trickle {ω : Type} (answer : ω) : List String → List (PacedOp ω)
  | [] => []
  | id::ids => bufferedArrival answer id ++ .advance 6::trickle answer ids

def demoFlush : FlushAnswers := ⟨true,true,true,true,true⟩
def demoPush : LokiAnswer := ⟨⟨fun _ => "",0⟩,true⟩
def demoLoki : LokiState := ⟨"http://loki/loki/api/v1/push",[],none,none,none⟩

/-- One event every six seconds, with an interval of ten: the second is still in time. -/
theorem log_workers_keep_pace_pair :
    (∃ p, exec ((workerLoop 100 100 30).pacedStep 10) (.start 10000 .new 0)
        (trickle demoFlush ["a"] ++ bufferedArrival demoFlush "b") = some p ∧
      p.worker.buffer = [demoAudit "a",demoAudit "b"] ∧ p.Prompt 10) ∧
    ∃ p, exec ((lokiWorker demoLoki 100).pacedStep 10) (.start 10000 .new 0)
        (trickle demoPush ["a"] ++ bufferedArrival demoPush "b") = some p ∧
      p.worker.buffer = [demoAudit "a",demoAudit "b"] ∧ p.Prompt 10 := by
  have hpace := log_workers_keep_pace 100 100 30 demoLoki 100 (show 0 < 10 by decide)
  refine ⟨⟨_,rfl,rfl,?_⟩,⟨_,rfl,rfl,?_⟩⟩
  · refine (hpace.1 10000 0 (trickle demoFlush ["a"] ++ bufferedArrival demoFlush "b") _ rfl).1 ?_
    decide
  · refine (hpace.2 10000 0 (trickle demoPush ["a"] ++ bufferedArrival demoPush "b") _ rfl).1 ?_
    decide

/-- The third comes after twelve seconds, and both workers go back to wait with the first. -/
theorem trickle_postpones_flush :
    (∃ p, exec ((workerLoop 100 100 30).pacedStep 10) (.start 10000 .new 0)
        (trickle demoFlush ["a","b"] ++ bufferedArrival demoFlush "c") = some p ∧
      ¬p.Prompt 10) ∧
    ∃ p, exec ((lokiWorker demoLoki 100).pacedStep 10) (.start 10000 .new 0)
        (trickle demoPush ["a","b"] ++ bufferedArrival demoPush "c") = some p ∧ ¬p.Prompt 10 := by
  refine ⟨⟨_,rfl,?_⟩,⟨_,rfl,?_⟩⟩
  · intro hprompt
    exact absurd (hprompt rfl (by decide)) (by decide)
  · intro hprompt
    exact absurd (hprompt rfl (by decide)) (by decide)

end Ait
