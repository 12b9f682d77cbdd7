import Ait.LogStore

/-!
# Shutting a log sink down

Any number of threads may call `shutdown()` of a sink, whose worker reads from a bounded
channel. A call tries to send the shutdown until the channel takes it, the worker is gone or
its patience is over; then it takes the worker's handle out of its mutex and joins it there.
-/

namespace Ait

inductive SinkEnd
  | joined
  /-- Another call had taken the handle. -/
  | handleTaken
  | disconnected
  | undelivered (called gaveUp : Instant)
  deriving DecidableEq

/-- Where a call to `shutdown` is. -/
inductive SinkCall
  | idle
  | signalling (called : Instant)
  | locking
  /-- The call waits for the worker and holds the mutex of the handle. -/
  | joining
  | ended (how : SinkEnd)
  deriving DecidableEq

structure SinkRun (σ : Type) where
  worker : WorkerRun σ
  /-- The handle is still in its mutex. -/
  handle : Bool
  holder : Option ℕ
  calls : ℕ → SinkCall

def SinkRun.start {σ : Type} (capacity : ℕ) (sink : σ) : SinkRun σ :=
  ⟨.start capacity sink,true,none,fun _ => .idle⟩

/-- Every operation that reads the clock brings what it reads. -/
inductive SinkOp (ω : Type)
  | send (e : LogEvent)
  | timeout (answer : ω)
  | work (answer : ω)
  | call (i : ℕ) (now : Instant)
  | advance (i : ℕ) (now : Instant)

/-- How long `signal_shutdown` retries on a full channel. -/
def signalPatience : Instant := seconds 5

namespace SinkRun

variable {σ ω : Type}

def setCall (s : SinkRun σ) (i : ℕ) (c : SinkCall) : SinkRun σ :=
  { s with calls := Function.update s.calls i c }

/-- One `try_send` of `signal_shutdown`. -/
def signalShutdown (s : SinkRun σ) (i : ℕ) (called now : Instant) : SinkRun σ :=
  if s.worker.stage = .returned then s.setCall i (.ended .disconnected)
  else if s.worker.queue.length ≥ s.worker.capacity then
    if now < called+signalPatience then s else s.setCall i (.ended (.undelivered called now))
  else
    { s.setCall i .locking with
      worker :=
        { s.worker with
          queue := s.worker.queue ++ [.shutdown]
          accepted := s.worker.accepted ++ [.shutdown] } }

def lockHandle (s : SinkRun σ) (i : ℕ) : Option (SinkRun σ) :=
  if s.holder.isSome then none
  else if s.handle then some { s.setCall i .joining with handle := false,holder := some i }
  else some (s.setCall i (.ended .handleTaken))

def join (s : SinkRun σ) (i : ℕ) : Option (SinkRun σ) :=
  if s.worker.stage = .returned then some { s.setCall i (.ended .joined) with holder := none }
  else none

/-- Producers send events only, and some sender is there as long as the manager is. -/
def step (w : Worker σ ω) (s : SinkRun σ) : SinkOp ω → Option (SinkRun σ)
  | .send e =>
    if e.isEvent then (w.step s.worker (.send e)).map fun r => { s with worker := r } else none
  | .timeout answer => (w.step s.worker (.timeout answer)).map fun r => { s with worker := r }
  | .work answer => (w.step s.worker (.work answer)).map fun r => { s with worker := r }
  | .call i now => if s.calls i = .idle then some (s.setCall i (.signalling now)) else none
  | .advance i now =>
    match s.calls i with
    | .signalling called => some (s.signalShutdown i called now)
    | .locking => s.lockHandle i
    | .joining => s.join i
    | _ => none

end SinkRun

namespace Worker

variable {σ ω : Type} {w : Worker σ ω} {r r' : WorkerRun σ}

/-- Only the channel writes to what was accepted, and only its last sender disconnects it. -/
theorem work_frame {answer : ω} (h : w.step r (.work answer) = some r') :
    r'.accepted = r.accepted ∧ r'.connected = r.connected := by
  cases hstage : r.stage with
  | receiving =>
    cases hqueue : r.queue with
    | nil =>
      simp only [step,hstage,hqueue] at h
      split at h
      · cases h
      · cases h
        unfold leave flushNonEmpty
        split <;> exact ⟨rfl,rfl⟩
    | cons e rest =>
      simp only [step,hstage,hqueue,Option.some.injEq] at h
      subst h
      unfold take
      dsimp only
      split <;> exact ⟨rfl,rfl⟩
  | draining shutdown =>
    cases hqueue : r.queue with
    | nil =>
      simp only [step,hstage,hqueue,Option.some.injEq] at h
      subst h
      exact ⟨rfl,rfl⟩
    | cons e rest =>
      simp only [step,hstage,hqueue,Option.some.injEq] at h
      subst h
      unfold take
      dsimp only
      split <;> exact ⟨rfl,rfl⟩
  | batching shutdown =>
    simp only [step,hstage] at h
    split at h
    · cases h
      exact ⟨rfl,rfl⟩
    · cases h
      exact ⟨rfl,rfl⟩
  | leaving =>
    simp only [step,hstage,Option.some.injEq] at h
    subst h
    unfold leave flushNonEmpty
    split <;> exact ⟨rfl,rfl⟩
  | returned => simp [step,hstage] at h

theorem timeout_frame {answer : ω} (h : w.step r (.timeout answer) = some r') :
    r'.accepted = r.accepted ∧ r'.connected = r.connected := by
  cases hstage : r.stage with
  | receiving =>
    simp only [step,hstage,Option.some.injEq] at h
    subst h
    unfold flushNonEmpty
    split <;> exact ⟨rfl,rfl⟩
  | _ => simp [step,hstage] at h

theorem send_frame {e : LogEvent} (h : w.step r (.send e) = some r') :
    r.accepted <+: r'.accepted ∧ r'.connected = r.connected ∧ r'.stage = r.stage := by
  simp only [step] at h
  split at h
  · cases h
  split at h
  · cases h
    exact ⟨List.prefix_refl _,rfl,rfl⟩
  · cases h
    exact ⟨List.prefix_append _ _,rfl,rfl⟩

theorem work_returned {answer : ω} (h : r.stage = .returned) :
    w.step r (.work answer) = none ∧ w.step r (.timeout answer) = none := by
  simp [step,h]

end Worker

namespace SinkRun

variable {σ ω : Type}

structure Sound (w : Worker σ ω) (s : SinkRun σ) : Prop where
  accounted : w.Accounted s.worker
  connected : s.worker.connected = true
  holding : ∀ i, s.holder = some i ↔ s.calls i = .joining
  /-- Whoever finds the handle gone finds the worker gone. -/
  joined : s.handle = false → s.holder = none → s.worker.stage = .returned
  signalled : ∀ i, s.calls i = .locking ∨ s.calls i = .joining → .shutdown ∈ s.worker.accepted
  ended : ∀ i how, s.calls i = .ended how → s.worker.stage = .returned ∨
    ∃ called gaveUp, how = .undelivered called gaveUp ∧ called+signalPatience ≤ gaveUp

variable {w : Worker σ ω} {s t : SinkRun σ}

theorem Sound.start (capacity : ℕ) (sink : σ) (h : w.handed sink = []) :
    (SinkRun.start capacity sink).Sound w where
  accounted := Worker.accounted_start capacity sink h
  connected := rfl
  holding i := by simp [SinkRun.start]
  joined h := by cases h
  signalled i h := by simp [SinkRun.start] at h
  ended i how h := by cases h

theorem Sound.worker (h : s.Sound w) {r : WorkerRun σ} (haccounted : w.Accounted r)
    (hconnected : r.connected = s.worker.connected) (haccepted : s.worker.accepted <+: r.accepted)
    (hreturned : s.worker.stage = .returned → r.stage = .returned) :
    ({ s with worker := r } : SinkRun σ).Sound w where
  accounted := haccounted
  connected := hconnected.trans h.connected
  holding := h.holding
  joined hhandle hholder := hreturned (h.joined hhandle hholder)
  signalled i hi := haccepted.subset (h.signalled i hi)
  ended i how hi := (h.ended i how hi).imp_left hreturned

theorem Sound.setCall (h : s.Sound w) {i : ℕ} {c : SinkCall} (hfree : s.calls i ≠ .joining)
    (hc : c ≠ .joining) (hsignalled : c = .locking → .shutdown ∈ s.worker.accepted)
    (hended : ∀ how, c = .ended how → s.worker.stage = .returned ∨
      ∃ called gaveUp, how = .undelivered called gaveUp ∧ called+signalPatience ≤ gaveUp) :
    (s.setCall i c).Sound w where
  accounted := h.accounted
  connected := h.connected
  holding j := by
    by_cases hj : j = i
    · subst hj
      simp [SinkRun.setCall,hc,h.holding,hfree]
    · simp [SinkRun.setCall,hj,h.holding]
  joined := h.joined
  signalled j hj := by
    by_cases hji : j = i
    · subst hji
      simp only [SinkRun.setCall,Function.update_self,hc,or_false] at hj
      exact hsignalled hj
    · simp only [SinkRun.setCall,Function.update_of_ne hji] at hj
      exact h.signalled j hj
  ended j how hj := by
    by_cases hji : j = i
    · subst hji
      simp only [SinkRun.setCall,Function.update_self] at hj
      exact hended how hj
    · simp only [SinkRun.setCall,Function.update_of_ne hji] at hj
      exact h.ended j how hj

theorem send_shutdown (hconnected : s.worker.connected = true) (hlive : s.worker.stage ≠ .returned)
    (hroom : s.worker.queue.length < s.worker.capacity) : w.step s.worker (.send .shutdown) = some
      { s.worker with
        queue := s.worker.queue ++ [.shutdown]
        accepted := s.worker.accepted ++ [.shutdown] } := by
  have hfull : ¬(s.worker.stage = .returned ∨ s.worker.queue.length ≥ s.worker.capacity) := by
    rintro (hgone | hfull)
    · exact hlive hgone
    · omega
  simp only [Worker.step,hconnected,not_true_eq_false,if_false,if_neg hfull]

theorem Sound.signalShutdown (h : s.Sound w) {i : ℕ} {called : Instant} (now : Instant)
    (hi : s.calls i = .signalling called) : (s.signalShutdown i called now).Sound w := by
  have hfree : s.calls i ≠ .joining := by simp [hi]
  unfold SinkRun.signalShutdown
  by_cases hgone : s.worker.stage = .returned
  · rw [if_pos hgone]
    exact h.setCall hfree (by simp) (by simp) fun _ _ => .inl hgone
  · rw [if_neg hgone]
    by_cases hfull : s.worker.queue.length ≥ s.worker.capacity
    · rw [if_pos hfull]
      by_cases hlate : now < called+signalPatience
      · rwa [if_pos hlate]
      · rw [if_neg hlate]
        refine h.setCall hfree (by simp) (by simp) fun how heq => .inr ⟨called,now,?_,not_lt.mp hlate⟩
        exact (SinkCall.ended.inj heq).symm
    · rw [if_neg hfull]
      have hsent := send_shutdown (w := w) h.connected hgone (not_le.mp hfull)
      obtain ⟨haccepted,hconnected,hstage⟩ := Worker.send_frame hsent
      have hworker := h.worker (h.accounted.send hsent) hconnected haccepted fun hret => hstage.trans hret
      refine hworker.setCall hfree (by simp) (fun _ => ?_) (by simp)
      exact List.mem_append_right _ List.mem_cons_self

theorem Sound.lockHandle (h : s.Sound w) {i : ℕ} (hi : s.calls i = .locking)
    (hstep : s.lockHandle i = some t) : t.Sound w := by
  unfold SinkRun.lockHandle at hstep
  by_cases hheld : s.holder.isSome
  · rw [if_pos hheld] at hstep
    cases hstep
  · rw [if_neg hheld] at hstep
    have hnone : s.holder = none := by simpa using hheld
    by_cases hhandle : s.handle
    · rw [if_pos hhandle] at hstep
      cases hstep
      exact {
        accounted := h.accounted
        connected := h.connected
        holding j := by
          by_cases hj : j = i
          · subst hj
            simp [SinkRun.setCall]
          · have hfree : s.calls j ≠ .joining := fun hjoin => by
              rw [(h.holding j).mpr hjoin] at hnone
              cases hnone
            simp [SinkRun.setCall,hj,hfree,Ne.symm hj]
        joined _ hholder := by cases hholder
        signalled j hj := by
          by_cases hji : j = i
          · exact h.signalled i (.inl hi)
          · simp only [SinkRun.setCall,Function.update_of_ne hji] at hj
            exact h.signalled j hj
        ended j how hj := by
          by_cases hji : j = i
          · subst hji
            simp [SinkRun.setCall] at hj
          · simp only [SinkRun.setCall,Function.update_of_ne hji] at hj
            exact h.ended j how hj }
    · rw [if_neg hhandle] at hstep
      cases hstep
      have hgone := h.joined (by simpa using hhandle) hnone
      exact h.setCall (by simp [hi]) (by simp) (by simp) fun _ _ => .inl hgone

theorem Sound.join (h : s.Sound w) {i : ℕ} (hi : s.calls i = .joining)
    (hstep : s.join i = some t) : t.Sound w := by
  unfold SinkRun.join at hstep
  by_cases hgone : s.worker.stage = .returned
  · rw [if_pos hgone] at hstep
    cases hstep
    have hholder := (h.holding i).mpr hi
    exact {
      accounted := h.accounted
      connected := h.connected
      holding j := by
        by_cases hj : j = i
        · subst hj
          simp [SinkRun.setCall]
        · have hfree : s.calls j ≠ .joining := fun hjoin => by
            have hj' := (h.holding j).mpr hjoin
            rw [hholder] at hj'
            exact hj (Option.some.inj hj').symm
          simp [SinkRun.setCall,hj,hfree]
      joined _ _ := hgone
      signalled j hj := by
        by_cases hji : j = i
        · exact h.signalled i (.inr hi)
        · simp only [SinkRun.setCall,Function.update_of_ne hji] at hj
          exact h.signalled j hj
      ended _ _ _ := .inl hgone }
  · rw [if_neg hgone] at hstep
    cases hstep

theorem Sound.step (hw : w.Lawful) {op : SinkOp ω} (h : s.Sound w) (hstep : s.step w op = some t) :
    t.Sound w := by
  cases op with
  | send e =>
    simp only [SinkRun.step] at hstep
    split at hstep
    · obtain ⟨r,hr,rfl⟩ := Option.map_eq_some_iff.mp hstep
      obtain ⟨haccepted,hconnected,hstage⟩ := Worker.send_frame hr
      exact h.worker (h.accounted.send hr) hconnected haccepted fun hret => hstage.trans hret
    · cases hstep
  | timeout answer =>
    obtain ⟨r,hr,rfl⟩ := Option.map_eq_some_iff.mp hstep
    obtain ⟨haccepted,hconnected⟩ := Worker.timeout_frame hr
    refine h.worker (h.accounted.step hw hr) hconnected (haccepted ▸ List.prefix_refl _) fun hret => ?_
    rw [(Worker.work_returned hret).2] at hr
    cases hr
  | work answer =>
    obtain ⟨r,hr,rfl⟩ := Option.map_eq_some_iff.mp hstep
    obtain ⟨haccepted,hconnected⟩ := Worker.work_frame hr
    refine h.worker (h.accounted.step hw hr) hconnected (haccepted ▸ List.prefix_refl _) fun hret => ?_
    rw [(Worker.work_returned hret).1] at hr
    cases hr
  | call i now =>
    simp only [SinkRun.step] at hstep
    split at hstep
    · rename_i hidle
      cases hstep
      exact h.setCall (by simp [hidle]) (by simp) (by simp) (by simp)
    · cases hstep
  | advance i now =>
    cases hi : s.calls i with
    | signalling called =>
      simp only [SinkRun.step,hi] at hstep
      cases hstep
      exact h.signalShutdown now hi
    | locking =>
      simp only [SinkRun.step,hi] at hstep
      exact h.lockHandle hi hstep
    | joining =>
      simp only [SinkRun.step,hi] at hstep
      exact h.join hi hstep
    | _ => simp [SinkRun.step,hi] at hstep

theorem Sound.run (hw : w.Lawful) {capacity : ℕ} {sink : σ} (hsink : w.handed sink = [])
    {ops : List (SinkOp ω)} (hrun : Transition.exec (SinkRun.step w) (.start capacity sink) ops = some s) :
    s.Sound w :=
  Transition.exec_preserves (fun _ _ _ hstep hs => hs.step hw hstep) hrun (.start capacity sink hsink)

def Answered (Q : ω → Prop) : SinkOp ω → Prop
  | .timeout a | .work a => Q a
  | _ => True

structure Scripted (w : Worker σ ω) (Q : ω → Prop) (capacity : ℕ) (sink : σ) (s : SinkRun σ)
    (script : List (WorkerOp ω)) : Prop where
  run : Transition.exec w.step (.start capacity sink) script = some s.worker
  answered : ∀ op ∈ script, Worker.Answered Q op

theorem Scripted.snoc {Q : ω → Prop} {capacity : ℕ} {sink : σ} {script : List (WorkerOp ω)}
    (h : s.Scripted w Q capacity sink script) (op : WorkerOp ω) (hop : Worker.Answered Q op)
    (hstep : w.step s.worker op = some t.worker) : t.Scripted w Q capacity sink (script ++ [op]) where
  run := Transition.exec_snoc h.run hstep
  answered o ho := by
    obtain ho | ho := List.mem_append.mp ho
    · exact h.answered o ho
    · rwa [List.mem_singleton.mp ho]

theorem Scripted.of_eq {Q : ω → Prop} {capacity : ℕ} {sink : σ} {script : List (WorkerOp ω)}
    (h : s.Scripted w Q capacity sink script) (heq : t.worker = s.worker) :
    t.Scripted w Q capacity sink script := ⟨heq ▸ h.run,h.answered⟩

/-- A call writes to the worker's run with a `try_send` that is taken, or not at all. -/
theorem advance_worker (h : s.worker.connected = true) {i : ℕ} {now : Instant}
    (hstep : s.step w (.advance i now) = some t) :
    t.worker = s.worker ∨ w.step s.worker (.send .shutdown) = some t.worker := by
  cases hi : s.calls i with
  | signalling called =>
    simp only [SinkRun.step,hi] at hstep
    cases hstep
    unfold SinkRun.signalShutdown
    by_cases hgone : s.worker.stage = .returned
    · rw [if_pos hgone]
      exact .inl rfl
    · rw [if_neg hgone]
      by_cases hfull : s.worker.queue.length ≥ s.worker.capacity
      · rw [if_pos hfull]
        split
        · exact .inl rfl
        · exact .inl rfl
      · rw [if_neg hfull]
        exact .inr (send_shutdown h hgone (not_le.mp hfull))
  | locking =>
    simp only [SinkRun.step,hi,SinkRun.lockHandle] at hstep
    split at hstep
    · cases hstep
    · split at hstep
      · cases hstep
        exact .inl rfl
      · cases hstep
        exact .inl rfl
  | joining =>
    simp only [SinkRun.step,hi,SinkRun.join] at hstep
    split at hstep
    · cases hstep
      exact .inl rfl
    · cases hstep
  | _ => simp [SinkRun.step,hi] at hstep

/-- Whatever is proved of the worker's runs holds in every run with calls. -/
theorem exists_script (hw : w.Lawful) {Q : ω → Prop} {capacity : ℕ} {sink : σ}
    (hsink : w.handed sink = []) {ops : List (SinkOp ω)} (hops : ∀ op ∈ ops, Answered Q op)
    (hrun : Transition.exec (SinkRun.step w) (.start capacity sink) ops = some s) :
    ∃ script, s.Scripted w Q capacity sink script := by
  have hstep : ∀ s op t, SinkRun.step w s op = some t → Answered Q op →
      (s.Sound w ∧ ∃ script, s.Scripted w Q capacity sink script) →
      t.Sound w ∧ ∃ script, t.Scripted w Q capacity sink script := by
    rintro s op t hstep hop ⟨h,script,hscript⟩
    refine ⟨h.step hw hstep,?_⟩
    cases op with
    | send e =>
      simp only [SinkRun.step] at hstep
      split at hstep
      · obtain ⟨r,hr,rfl⟩ := Option.map_eq_some_iff.mp hstep
        exact ⟨_,hscript.snoc (.send e) trivial hr⟩
      · cases hstep
    | timeout answer =>
      obtain ⟨r,hr,rfl⟩ := Option.map_eq_some_iff.mp hstep
      exact ⟨_,hscript.snoc (.timeout answer) hop hr⟩
    | work answer =>
      obtain ⟨r,hr,rfl⟩ := Option.map_eq_some_iff.mp hstep
      exact ⟨_,hscript.snoc (.work answer) hop hr⟩
    | call i now =>
      simp only [SinkRun.step] at hstep
      split at hstep
      · cases hstep
        exact ⟨script,hscript.of_eq rfl⟩
      · cases hstep
    | advance i now =>
      obtain heq | hsend := advance_worker h.connected hstep
      · exact ⟨script,hscript.of_eq heq⟩
      · exact ⟨_,hscript.snoc (.send .shutdown) trivial hsend⟩
  refine (Transition.exec_invariant hstep hrun (Transition.along_of_mem hops _) ⟨?_,[],rfl,?_⟩).2
  · exact .start capacity sink hsink
  · exact fun op hop => absurd hop List.not_mem_nil

theorem exec_work {r : WorkerRun σ} {answers : List ω}
    (h : Transition.exec w.step s.worker (answers.map .work) = some r) :
    Transition.exec (SinkRun.step w) s (answers.map .work) = some { s with worker := r } := by
  induction answers generalizing s with
  | nil =>
    obtain rfl := Option.some.inj h
    rfl
  | cons a answers ih =>
    obtain ⟨r',hr',hrest⟩ := Option.bind_eq_some_iff.mp h
    have hnext : SinkRun.step w s (.work a) = some { s with worker := r' } := by
      simp only [SinkRun.step,hr',Option.map_some]
    simp only [List.map_cons,Transition.exec,hnext,Option.bind_some]
    exact ih (s := { s with worker := r' }) hrest

def advances {ω : Type} (now : Instant) (calls : List ℕ) : List (SinkOp ω) :=
  calls.map fun i => .advance i now

/-- Call `i` is through. -/
def Through (s : SinkRun σ) (i : ℕ) : Prop := ∃ how, s.calls i = .ended how

theorem exec_join (hgone : s.worker.stage = .returned) (now : Instant) {i : ℕ}
    (hi : s.calls i = .joining) : SinkRun.step w s (.advance i now) =
      some { s.setCall i (.ended .joined) with holder := none } := by
  simp only [SinkRun.step,hi,SinkRun.join,hgone,if_true]

theorem exec_lock_free (hgone : s.worker.stage = .returned) (hfree : s.holder = none) (now : Instant)
    {i : ℕ} (hi : s.calls i = .locking) : ∃ calls t, calls.length ≤ 2 ∧
      Transition.exec (SinkRun.step w) s (advances now calls) = some t ∧ t.Through i := by
  have hlocked : SinkRun.step w s (.advance i now) = s.lockHandle i := by
    simp only [SinkRun.step,hi]
  by_cases hhandle : s.handle
  · let mid : SinkRun σ := { s.setCall i .joining with handle := false,holder := some i }
    have hmid : s.lockHandle i = some mid := by
      simp [SinkRun.lockHandle,hfree,hhandle,mid]
    have hjoining : mid.calls i = .joining := by simp [mid,SinkRun.setCall]
    have hjoined := exec_join (w := w) (s := mid) hgone now hjoining
    refine ⟨[i,i],{ mid.setCall i (.ended .joined) with holder := none },le_rfl,?_,?_⟩
    · simp [advances,Transition.exec,hlocked,hmid,hjoined]
    · exact ⟨.joined,by simp [SinkRun.setCall]⟩
  · have htaken : s.lockHandle i = some (s.setCall i (.ended .handleTaken)) := by
      simp [SinkRun.lockHandle,hfree,hhandle]
    refine ⟨[i],s.setCall i (.ended .handleTaken),by simp,?_,?_⟩
    · simp [advances,Transition.exec,hlocked,htaken]
    · exact ⟨.handleTaken,by simp [SinkRun.setCall]⟩

/-- Once the worker is gone, whoever holds the handle's mutex lets go of it. -/
theorem Sound.exec_lock (h : s.Sound w) (hgone : s.worker.stage = .returned) (now : Instant) {i : ℕ}
    (hi : s.calls i = .locking ∨ s.calls i = .joining) : ∃ calls t, calls.length ≤ 3 ∧
      Transition.exec (SinkRun.step w) s (advances now calls) = some t ∧ t.Through i := by
  obtain hi | hi := hi
  · cases hholder : s.holder with
    | none =>
      obtain ⟨calls,t,hlen,hrun,hthrough⟩ := exec_lock_free (w := w) hgone hholder now hi
      exact ⟨calls,t,by omega,hrun,hthrough⟩
    | some j =>
      have hj := (h.holding j).mp hholder
      have hne : i ≠ j := by
        rintro rfl
        rw [hi] at hj
        cases hj
      have hjoined := exec_join (w := w) hgone now hj
      have hmid : ({ s.setCall j (.ended .joined) with holder := none } : SinkRun σ).calls i =
          .locking := by simp [SinkRun.setCall,hne,hi]
      obtain ⟨calls,t,hlen,hrun,hthrough⟩ := exec_lock_free (w := w)
        (s := { s.setCall j (.ended .joined) with holder := none }) hgone rfl now hmid
      refine ⟨j::calls,t,by rw [List.length_cons]; omega,?_,hthrough⟩
      simp only [advances,List.map_cons,Transition.exec,hjoined,Option.bind_some]
      exact hrun
  · have hjoined := exec_join (w := w) hgone now hi
    refine ⟨[i],{ s.setCall i (.ended .joined) with holder := none },by simp,?_,?_⟩
    · simp [advances,Transition.exec,hjoined]
    · exact ⟨.joined,by simp [SinkRun.setCall]⟩

theorem remaining_le (r : WorkerRun σ) : Worker.remaining r ≤ r.queue.length+4 := by
  unfold Worker.remaining
  split <;> omega

/-- A shutdown that the channel took ends its call, however many events wait before it and
whatever the flushes answer. -/
theorem Sound.releases_delivered (hw : w.Lawful) (h : s.Sound w) (now : Instant) (answers : ℕ → ω) {i : ℕ}
    (hi : s.calls i = .locking ∨ s.calls i = .joining) : ∃ n calls t,
      n ≤ s.worker.queue.length+4 ∧ calls.length ≤ 3 ∧
      Transition.exec (SinkRun.step w) s
        ((List.range n).map (fun k => .work (answers k)) ++ advances now calls) = some t ∧
      t.Through i := by
  have hends := h.accounted.ends (h.signalled i hi)
  let given := (List.range (Worker.remaining s.worker)).map answers
  obtain ⟨r,hrun,hret⟩ := hends.returns (w := w) given (by simp [given])
  have hwork := exec_work hrun
  have hsound : ({ s with worker := r } : SinkRun σ).Sound w :=
    Transition.exec_preserves (fun _ _ _ hstep hs => hs.step hw hstep) hwork h
  obtain ⟨calls,t,hlen,hlast,hthrough⟩ := hsound.exec_lock hret now hi
  refine ⟨Worker.remaining s.worker,calls,t,remaining_le s.worker,hlen,?_,hthrough⟩
  rw [Transition.exec_append]
  have hmap : (List.range (Worker.remaining s.worker)).map (fun k => SinkOp.work (answers k)) =
      given.map .work := by simp [given]
  rw [hmap,hwork]
  exact hlast

/-- Every call can end: its own steps and the worker's are enough, with at most two more for the
call that holds the mutex. -/
def Releases (w : Worker σ ω) (s : SinkRun σ) (i : ℕ) : Prop :=
  ∀ (now : Instant) (answers : ℕ → ω),
    (∀ called, s.calls i = .signalling called → called+signalPatience ≤ now) →
    ∃ first n last t, first.length ≤ 1 ∧ n ≤ s.worker.queue.length+5 ∧ last.length ≤ 3 ∧
      Transition.exec (SinkRun.step w) s (advances now first ++
        ((List.range n).map (fun k => .work (answers k)) ++ advances now last)) = some t ∧
      t.Through i

theorem signalShutdown_late {i : ℕ} {called now : Instant} (hlate : called+signalPatience ≤ now) :
    (s.signalShutdown i called now).Through i ∨
      (s.signalShutdown i called now).calls i = .locking ∧
        (s.signalShutdown i called now).worker.queue = s.worker.queue ++ [.shutdown] := by
  unfold SinkRun.signalShutdown
  by_cases hgone : s.worker.stage = .returned
  · rw [if_pos hgone]
    exact .inl ⟨.disconnected,by simp [SinkRun.setCall]⟩
  · rw [if_neg hgone]
    by_cases hfull : s.worker.queue.length ≥ s.worker.capacity
    · rw [if_pos hfull,if_neg (not_lt.mpr hlate)]
      exact .inl ⟨.undelivered called now,by simp [SinkRun.setCall]⟩
    · rw [if_neg hfull]
      exact .inr ⟨by simp [SinkRun.setCall],rfl⟩

theorem Sound.releases (hw : w.Lawful) (h : s.Sound w) {i : ℕ} (hi : s.calls i ≠ .idle) :
    s.Releases w i := by
  intro now answers hlate
  have hthrough (t : SinkRun σ) (first : List ℕ) (hlen : first.length ≤ 1)
      (hrun : Transition.exec (SinkRun.step w) s (advances now first) = some t) (ht : t.Through i) :
      ∃ first n last t, first.length ≤ 1 ∧ n ≤ s.worker.queue.length+5 ∧ last.length ≤ 3 ∧
        Transition.exec (SinkRun.step w) s (advances now first ++
          ((List.range n).map (fun k => .work (answers k)) ++ advances now last)) = some t ∧
        t.Through i := by
    refine ⟨first,0,[],t,hlen,by omega,by simp,?_,ht⟩
    simpa [advances] using hrun
  cases hcall : s.calls i with
  | idle => exact absurd hcall hi
  | ended how => exact hthrough s [] (by simp) rfl ⟨how,hcall⟩
  | signalling called =>
    have hstep : SinkRun.step w s (.advance i now) = some (s.signalShutdown i called now) := by
      simp only [SinkRun.step,hcall]
    obtain hend | ⟨hlocking,hqueue⟩ := signalShutdown_late (s := s) (i := i) (hlate called hcall)
    · refine hthrough (s.signalShutdown i called now) [i] (by simp) ?_ hend
      simp [advances,Transition.exec,hstep]
    · have hsound := h.signalShutdown now hcall
      obtain ⟨n,last,t,hn,hlast,hrun,ht⟩ := hsound.releases_delivered hw now answers (.inl hlocking)
      refine ⟨[i],n,last,t,le_rfl,?_,hlast,?_,ht⟩
      · rw [hqueue,List.length_append] at hn
        simp only [List.length_singleton] at hn
        omega
      · rw [Transition.exec_append]
        simp only [advances,List.map_cons,List.map_nil,Transition.exec,hstep,Option.bind_some]
        exact hrun
  | locking =>
    obtain ⟨n,last,t,hn,hlast,hrun,ht⟩ := h.releases_delivered hw now answers (.inl hcall)
    exact ⟨[],n,last,t,by simp,by omega,hlast,hrun,ht⟩
  | joining =>
    obtain ⟨n,last,t,hn,hlast,hrun,ht⟩ := h.releases_delivered hw now answers (.inr hcall)
    exact ⟨[],n,last,t,by simp,by omega,hlast,hrun,ht⟩

def sends (ops : List (SinkOp ω)) : List LogEvent := ops.filterMap fun op =>
  match op with
  | .send e => some e
  | _ => none

theorem step_accepted (hconnected : s.worker.connected = true) {op : SinkOp ω}
    (hstep : s.step w op = some t) : (t.worker.accepted.filter LogEvent.isEvent).Sublist
      (s.worker.accepted.filter LogEvent.isEvent ++ sends [op]) := by
  cases op with
  | send e =>
    simp only [SinkRun.step] at hstep
    split at hstep
    · rename_i hevent
      obtain ⟨r,hr,rfl⟩ := Option.map_eq_some_iff.mp hstep
      simp only [Worker.step] at hr
      split at hr
      · cases hr
      split at hr
      · cases hr
        exact List.sublist_append_left _ _
      · cases hr
        simp [sends,hevent]
    · cases hstep
  | timeout answer =>
    obtain ⟨r,hr,rfl⟩ := Option.map_eq_some_iff.mp hstep
    rw [(Worker.timeout_frame hr).1]
    exact List.sublist_append_left _ _
  | work answer =>
    obtain ⟨r,hr,rfl⟩ := Option.map_eq_some_iff.mp hstep
    rw [(Worker.work_frame hr).1]
    exact List.sublist_append_left _ _
  | call i now =>
    simp only [SinkRun.step] at hstep
    split at hstep
    · cases hstep
      exact List.sublist_append_left _ _
    · cases hstep
  | advance i now =>
    obtain heq | hsend := advance_worker hconnected hstep
    · rw [heq]
      exact List.sublist_append_left _ _
    · simp only [Worker.step] at hsend
      split at hsend
      · cases hsend
      split at hsend
      · rw [← Option.some.inj hsend]
        exact List.sublist_append_left _ _
      · rw [← Option.some.inj hsend]
        simp [LogEvent.isEvent,sends]

theorem accepted_sublist (hw : w.Lawful) (h : s.Sound w) {ops : List (SinkOp ω)}
    (hrun : Transition.exec (SinkRun.step w) s ops = some t) :
    (t.worker.accepted.filter LogEvent.isEvent).Sublist
      (s.worker.accepted.filter LogEvent.isEvent ++ sends ops) := by
  induction ops generalizing s with
  | nil =>
    obtain rfl := Option.some.inj hrun
    exact List.sublist_append_left _ _
  | cons op ops ih =>
    obtain ⟨u,hu,hrest⟩ := Option.bind_eq_some_iff.mp hrun
    have hsends : sends (op::ops) = sends [op] ++ sends ops := by
      rw [sends,sends,sends,← List.filterMap_append,List.singleton_append]
    rw [hsends,← List.append_assoc]
    exact (ih (h.step hw hu) hrest).trans ((step_accepted h.connected hu).append_right _)

/-- A call that is through leaves a worker that has handed over whatever the channel took before
the first shutdown, or found the channel full after its patience. -/
def Settled (w : Worker σ ω) (s : SinkRun σ) : Prop :=
  ∀ i how, s.calls i = .ended how →
    (s.worker.stage = .returned ∧ Worker.before s.worker.accepted <+: (w.handed s.worker.sink).flatten) ∨
      ∃ called gaveUp, how = .undelivered called gaveUp ∧ called+signalPatience ≤ gaveUp

theorem Sound.settled (h : s.Sound w) : s.Settled w := by
  intro i how hi
  exact (h.ended i how hi).imp_left fun hgone => ⟨hgone,h.accounted.before_prefix hgone⟩

end SinkRun
end Ait
