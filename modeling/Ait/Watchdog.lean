import Ait.Transition

/-!
# The query watchdog

A worker runs one operation after the other, each under a deadline kept in one atomic
word; the watchdog loads the word, compares it with the clock, interrupts the connection
and stores `IDLE`. These are separate steps, and the worker may be anywhere in between.
-/

namespace Ait

/-- `IDLE`, the largest `u64`. -/
def idleDeadline : ℕ := 2^64-1

/-- Where the worker is in `run`. -/
inductive WatchedOperation
  | none
  /-- The deadline is stored, the operation is still to start. -/
  | armed (due : ℕ)
  | inFlight (due : ℕ) (interrupted : Bool)
  /-- The operation has returned, its deadline is still stored. -/
  | returned
  deriving DecidableEq

/-- Where the watchdog is in its loop. -/
inductive WatchdogStage
  | polling
  | loaded (due : ℕ)
  | firing
  | disarming
  | stopped
  deriving DecidableEq

structure Watched where
  /-- `now_ms`. -/
  now : ℕ
  deadline : ℕ
  stop : Bool
  operation : WatchedOperation
  watchdog : WatchdogStage
  /-- The interrupts that hit an operation: its own deadline, and the time. -/
  hits : List (ℕ × ℕ)

inductive WatchedOp
  | tick
  /-- `run` stores the deadline. -/
  | run
  /-- `run` starts the operation. -/
  | begin
  | finish
  /-- `run` stores `IDLE`. -/
  | disarm
  | stop
  /-- The watchdog takes its next step. -/
  | watch
  deriving DecidableEq

namespace Watched

/-- `QueryWatchdog::spawn`. -/
def spawn : Watched := ⟨0,idleDeadline,false,.none,.polling,[]⟩

/-- What `interrupt` does to the connection. -/
def interrupt (w : Watched) : Watched :=
  match w.operation with
  | .inFlight due _ => {w with operation := .inFlight due true,hits := w.hits ++ [(due,w.now)]}
  | _ => w

def watch (w : Watched) : Option Watched :=
  match w.watchdog with
  | .polling =>
    if w.stop then some {w with watchdog := .stopped}
    else some {w with watchdog := .loaded w.deadline}
  | .loaded due =>
    if due ≠ idleDeadline ∧ w.now ≥ due then some {w with watchdog := .firing}
    else some {w with watchdog := .polling}
  | .firing => some {w.interrupt with watchdog := .disarming}
  | .disarming => some {w with deadline := idleDeadline,watchdog := .polling}
  | .stopped => none

def step (timeoutMs : ℕ) (w : Watched) : WatchedOp → Option Watched
  | .tick => some {w with now := w.now+1}
  | .run =>
    match w.operation with
    | .none =>
      -- `stop` takes the watchdog by value
      if w.stop then none
      else
        let due := min (w.now+timeoutMs) idleDeadline
        some {w with deadline := due,operation := .armed due}
    | _ => none
  | .begin =>
    match w.operation with
    | .armed due => some {w with operation := .inFlight due false}
    | _ => none
  | .finish =>
    match w.operation with
    | .inFlight _ _ => some {w with operation := .returned}
    | _ => none
  | .disarm =>
    match w.operation with
    | .returned => some {w with deadline := idleDeadline,operation := .none}
    | _ => none
  | .stop =>
    match w.operation with
    | .none => some {w with stop := true}
    | _ => none
  | .watch => w.watch

/-- Only overdue operations were interrupted, and one that was not has its deadline armed. -/
structure Orderly (w : Watched) : Prop where
  hits : ∀ hit ∈ w.hits, hit.1 ≤ hit.2
  armed : ∀ due, w.operation = .inFlight due false → w.deadline = due

/-- The watchdog acts on the operation it means: what it decides to interrupt is overdue, none is
started under its hands, and it takes no deadline away whose operation is still to start. -/
def undisturbed (w : Watched) : WatchedOp → Bool
  | .begin =>
    match w.watchdog,w.operation with
    | .firing,.armed due => due ≤ w.now
    | .disarming,.armed _ => false
    | _,_ => true
  | .watch =>
    match w.watchdog,w.operation with
    | .loaded due,.inFlight _ false => ¬(due ≠ idleDeadline ∧ due ≤ w.now) ∨ w.deadline ≤ w.now
    | .disarming,.armed _ => false
    | _,_ => true
  | _ => true

structure Guarded (w : Watched) : Prop extends w.Orderly where
  stored : ∀ due, w.operation = .armed due → w.deadline = due
  interrupted : ∀ due, w.operation = .inFlight due true → due ≤ w.now
  firing : w.watchdog = .firing → ∀ due b, w.operation = .inFlight due b → due ≤ w.now
  disarming : w.watchdog = .disarming → ∀ due, w.operation ≠ .inFlight due false

theorem guarded_spawn : spawn.Guarded := by
  constructor
  · constructor <;> simp [spawn]
  · simp [spawn]
  · simp [spawn]
  · simp [spawn]
  · simp [spawn]

section Steps

variable {timeoutMs : ℕ} {w t : Watched}

/-- Where the watchdog goes on to a stage that holds nothing of the operation. -/
theorem Guarded.stage (h : w.Guarded) {stage : WatchdogStage} (hfiring : stage ≠ .firing)
    (hdisarming : stage ≠ .disarming) : Guarded {w with watchdog := stage} :=
  ⟨⟨h.hits,h.armed⟩,h.stored,h.interrupted,fun hstage => absurd hstage hfiring,
    fun hstage => absurd hstage hdisarming⟩

theorem Guarded.decide (h : w.Guarded) {loaded : ℕ} (hstage : w.watchdog = .loaded loaded)
    (hdue : loaded ≠ idleDeadline ∧ w.now ≥ loaded) (hok : w.undisturbed .watch = true) :
    Guarded {w with watchdog := .firing} := by
  refine ⟨⟨h.hits,h.armed⟩,h.stored,h.interrupted,?_,by simp⟩
  intro _ own b hop
  have hop' : w.operation = .inFlight own b := hop
  cases b with
  | true => exact h.interrupted own hop'
  | false =>
    -- the deadline that is stored now is the operation's own
    have hlate : w.deadline ≤ w.now := by
      simpa [undisturbed,hstage,hop',hdue.1,hdue.2] using hok
    rw [h.armed own hop'] at hlate
    exact hlate

theorem Guarded.fire (h : w.Guarded) (hstage : w.watchdog = .firing) :
    Guarded {w.interrupt with watchdog := .disarming} := by
  cases hop : w.operation with
  | inFlight due b =>
    have hlate := h.firing hstage due b hop
    constructor
    · constructor
      · intro hit hmem
        simp only [interrupt,hop,List.mem_append,List.mem_singleton] at hmem
        rcases hmem with hmem | rfl
        · exact h.hits hit hmem
        · exact hlate
      · simp [interrupt,hop]
    · simp [interrupt,hop]
    · simp only [interrupt,hop,WatchedOperation.inFlight.injEq,and_true]
      rintro _ rfl
      exact hlate
    · simp
    · simp [interrupt,hop]
  | _ =>
    have hmiss : w.interrupt = w := by simp only [interrupt,hop]
    rw [hmiss]
    exact ⟨⟨h.hits,h.armed⟩,h.stored,h.interrupted,by simp,by simp [hop]⟩

theorem Guarded.idle (h : w.Guarded) (hstage : w.watchdog = .disarming)
    (hok : w.undisturbed .watch = true) :
    Guarded {w with deadline := idleDeadline,watchdog := .polling} := by
  refine ⟨⟨h.hits,?_⟩,?_,h.interrupted,by simp,by simp⟩
  · intro due hop
    exact absurd hop (h.disarming hstage due)
  · intro due hop
    have hop' : w.operation = .armed due := hop
    simp [undisturbed,hstage,hop'] at hok

theorem Guarded.watch (h : w.Guarded) (hok : w.undisturbed .watch = true)
    (hstep : w.watch = some t) : t.Guarded := by
  cases hstage : w.watchdog with
  | polling =>
    simp only [Watched.watch,hstage] at hstep
    by_cases hstop : w.stop = true
    · rw [if_pos hstop] at hstep
      obtain rfl := Option.some.inj hstep
      exact h.stage (by simp) (by simp)
    · rw [if_neg hstop] at hstep
      obtain rfl := Option.some.inj hstep
      exact h.stage (by simp) (by simp)
  | loaded due =>
    simp only [Watched.watch,hstage] at hstep
    by_cases hdue : due ≠ idleDeadline ∧ w.now ≥ due
    · rw [if_pos hdue] at hstep
      obtain rfl := Option.some.inj hstep
      exact h.decide hstage hdue hok
    · rw [if_neg hdue] at hstep
      obtain rfl := Option.some.inj hstep
      exact h.stage (by simp) (by simp)
  | firing =>
    simp only [Watched.watch,hstage,Option.some.injEq] at hstep
    exact hstep ▸ h.fire hstage
  | disarming =>
    simp only [Watched.watch,hstage,Option.some.injEq] at hstep
    exact hstep ▸ h.idle hstage hok
  | stopped => simp [Watched.watch,hstage] at hstep

/-- An operation starts under its own deadline, and not under the watchdog's hands. -/
theorem Guarded.begin (h : w.Guarded) {due : ℕ} (hop : w.operation = .armed due)
    (hok : w.undisturbed .begin = true) : Guarded {w with operation := .inFlight due false} := by
  refine ⟨⟨h.hits,?_⟩,by simp,by simp,?_,?_⟩
  · intro own hnew
    rw [← (WatchedOperation.inFlight.inj hnew).1]
    exact h.stored due hop
  · intro hstage own b hnew
    have hstage' : w.watchdog = .firing := hstage
    rw [← (WatchedOperation.inFlight.inj hnew).1]
    simpa [undisturbed,hstage',hop] using hok
  · intro hstage
    have hstage' : w.watchdog = .disarming := hstage
    simp [undisturbed,hstage',hop] at hok

theorem Guarded.step (h : w.Guarded) {op : WatchedOp} (hok : w.undisturbed op = true)
    (hstep : w.step timeoutMs op = some t) : t.Guarded := by
  cases op with
  | tick =>
    obtain rfl := Option.some.inj hstep
    refine ⟨⟨h.hits,h.armed⟩,h.stored,?_,?_,h.disarming⟩
    · intro due hop
      exact Nat.le_succ_of_le (h.interrupted due hop)
    · intro hstage due b hop
      exact Nat.le_succ_of_le (h.firing hstage due b hop)
  | run =>
    cases hop : w.operation with
    | none =>
      simp only [Watched.step,hop] at hstep
      cases hstop : w.stop with
      | true => simp [hstop] at hstep
      | false =>
        simp only [hstop,Bool.false_eq_true,if_false,Option.some.injEq] at hstep
        subst hstep
        exact ⟨⟨h.hits,by simp⟩,by simp,by simp,by simp,by simp⟩
    | _ => simp [Watched.step,hop] at hstep
  | begin =>
    cases hop : w.operation with
    | armed due =>
      simp only [Watched.step,hop,Option.some.injEq] at hstep
      exact hstep ▸ h.begin hop hok
    | _ => simp [Watched.step,hop] at hstep
  | finish =>
    cases hop : w.operation with
    | inFlight due b =>
      simp only [Watched.step,hop,Option.some.injEq] at hstep
      subst hstep
      exact ⟨⟨h.hits,by simp⟩,by simp,by simp,by simp,by simp⟩
    | _ => simp [Watched.step,hop] at hstep
  | disarm =>
    cases hop : w.operation with
    | returned =>
      simp only [Watched.step,hop,Option.some.injEq] at hstep
      subst hstep
      exact ⟨⟨h.hits,by simp⟩,by simp,by simp,by simp,by simp⟩
    | _ => simp [Watched.step,hop] at hstep
  | stop =>
    cases hop : w.operation with
    | none =>
      simp only [Watched.step,hop,Option.some.injEq] at hstep
      subst hstep
      exact ⟨⟨h.hits,by simp⟩,by simp,by simp,by simp,by simp⟩
    | _ => simp [Watched.step,hop] at hstep
  | watch => exact h.watch hok hstep

/-- Own deadlines lie before `IDLE`, unless the clock is at the end of its range. -/
structure Early (w : Watched) : Prop where
  armed : ∀ due, w.operation = .armed due → due < idleDeadline
  inFlight : ∀ due b, w.operation = .inFlight due b → due < idleDeadline

/-- A disturbed step is one step before an interrupt of an operation that is not overdue, or before
an operation in flight without its deadline. -/
theorem Guarded.disturbed (h : w.Guarded) (hearly : w.Early) {op : WatchedOp}
    (hbad : w.undisturbed op = false) (hstep : w.step timeoutMs op = some t) :
    ∃ next u, t.step timeoutMs next = some u ∧ ¬u.Orderly := by
  cases op with
  | begin =>
    cases hop : w.operation with
    | armed due =>
      simp only [Watched.step,hop,Option.some.injEq] at hstep
      subst hstep
      cases hstage : w.watchdog with
      | firing =>
        refine ⟨.watch,_,by simp only [Watched.step,Watched.watch]; rfl,?_⟩
        intro hgood
        have hlate := hgood.hits (due,w.now) (by simp [interrupt])
        simp only [undisturbed,hstage,hop,decide_eq_false_iff_not] at hbad
        exact hbad hlate
      | disarming =>
        refine ⟨.watch,_,by simp only [Watched.step,Watched.watch]; rfl,?_⟩
        intro hgood
        have harmed : idleDeadline = due := hgood.armed due rfl
        exact absurd harmed (hearly.armed due hop).ne'
      | _ => simp [undisturbed,hstage] at hbad
    | _ => simp [Watched.step,hop] at hstep
  | watch =>
    cases hstage : w.watchdog with
    | loaded due =>
      cases hop : w.operation with
      | inFlight own b =>
        cases b with
        | true => simp [undisturbed,hstage,hop] at hbad
        | false =>
          simp only [undisturbed,hstage,hop,decide_eq_false_iff_not,not_or,not_not] at hbad
          obtain ⟨hdue,hcome⟩ := hbad
          simp only [Watched.step,Watched.watch,hstage,ge_iff_le,if_pos hdue,Option.some.injEq]
            at hstep
          subst hstep
          refine ⟨.watch,_,by simp only [Watched.step,Watched.watch]; rfl,?_⟩
          intro hgood
          have hlate := hgood.hits (own,w.now) (by simp [interrupt,hop])
          rw [h.armed own hop] at hcome
          exact hcome hlate
      | _ => simp [undisturbed,hstage,hop] at hbad
    | disarming =>
      cases hop : w.operation with
      | armed due =>
        simp only [Watched.step,Watched.watch,hstage,Option.some.injEq] at hstep
        subst hstep
        refine ⟨.begin,_,by simp only [Watched.step,hop]; rfl,?_⟩
        intro hgood
        have harmed : idleDeadline = due := hgood.armed due rfl
        exact absurd harmed (hearly.armed due hop).ne'
      | _ => simp [undisturbed,hstage,hop] at hbad
    | _ => simp [undisturbed,hstage] at hbad
  | _ => simp [undisturbed] at hbad

end Steps

/-- In every run whose steps are undisturbed an interrupt hits an overdue operation only, and an
operation in flight that is not interrupted has its deadline stored. -/
theorem orderly_of_undisturbed (timeoutMs : ℕ) (script : List WatchedOp) (w : Watched)
    (hrun : Transition.exec (step timeoutMs) spawn script = some w)
    (hok : Transition.Along (step timeoutMs) (fun w op => w.undisturbed op = true) spawn script) :
    (∀ hit ∈ w.hits, hit.1 ≤ hit.2) ∧
      ∀ due, w.operation = .inFlight due false → w.deadline = due := by
  have h := Transition.exec_invariant (fun _ _ _ hstep hok hs => Guarded.step hs hok hstep) hrun hok
    guarded_spawn
  exact ⟨h.hits,h.armed⟩

/-- An operation that overruns is interrupted and the next one keeps its deadline. -/
theorem orderly_of_undisturbed_overrun :
    ∃ w, Transition.exec (step 3) spawn [.run,.tick,.begin,.tick,.tick,.watch,.watch,.watch,.finish,
        .watch,.disarm,.run,.begin] = some w ∧
      w.hits = [(3,3)] ∧ w.operation = .inFlight 6 false ∧ w.deadline = 6 := by
  have hview : (Transition.exec (step 3) spawn [.run,.tick,.begin,.tick,.tick,.watch,.watch,.watch,
      .finish,.watch,.disarm,.run,.begin]).map (fun w => (w.hits,w.operation)) =
      some ([(3,3)],.inFlight 6 false) := by decide
  obtain ⟨w,hrun,hw⟩ := Option.map_eq_some_iff.mp hview
  obtain ⟨hhits,hop⟩ := Prod.mk.inj hw
  have hgood := orderly_of_undisturbed 3 _ w hrun (by decide)
  exact ⟨w,hrun,hhits,hop,hgood.2 6 hop⟩

/-- The watchdog has loaded the deadline of one operation and interrupts the next one; it has
interrupted one operation and takes away the deadline of the next; or it fires between the store
of a deadline and the start of its operation, which then runs without. -/
theorem next_operation_disturbed :
    (∃ w, Transition.exec (step 3) spawn
        [.run,.begin,.tick,.tick,.tick,.watch,.finish,.disarm,.run,.begin,.watch,.watch] = some w ∧
      w.hits = [(6,3)] ∧ ¬w.Orderly) ∧
    (∃ w, Transition.exec (step 3) spawn [.run,.begin,.tick,.tick,.tick,.watch,.watch,.watch,
        .finish,.disarm,.run,.begin,.watch] = some w ∧
      w.operation = .inFlight 6 false ∧ w.deadline = idleDeadline ∧ ¬w.Orderly) ∧
    ∃ w, Transition.exec (step 3) spawn
        [.run,.tick,.tick,.tick,.watch,.watch,.watch,.watch,.begin] = some w ∧
      w.operation = .inFlight 3 false ∧ w.deadline = idleDeadline ∧ ¬w.Orderly := by
  have hmiss {w : Watched} {due : ℕ} (hop : w.operation = .inFlight due false)
      (hword : w.deadline = idleDeadline) (hne : idleDeadline ≠ due) : ¬w.Orderly := by
    intro hgood
    rw [hgood.armed due hop] at hword
    exact hne hword.symm
  refine ⟨?_,?_,?_⟩
  · have hview : (Transition.exec (step 3) spawn
        [.run,.begin,.tick,.tick,.tick,.watch,.finish,.disarm,.run,.begin,.watch,.watch]).map
        (fun w => w.hits) = some [(6,3)] := by decide
    obtain ⟨w,hrun,hhits⟩ := Option.map_eq_some_iff.mp hview
    refine ⟨w,hrun,hhits,fun hgood => ?_⟩
    have hlate := hgood.hits (6,3) (by simp [hhits])
    omega
  · have hview : (Transition.exec (step 3) spawn [.run,.begin,.tick,.tick,.tick,.watch,.watch,.watch,
        .finish,.disarm,.run,.begin,.watch]).map (fun w => (w.operation,w.deadline)) =
        some (.inFlight 6 false,idleDeadline) := by decide
    obtain ⟨w,hrun,hw⟩ := Option.map_eq_some_iff.mp hview
    obtain ⟨hop,hword⟩ := Prod.mk.inj hw
    exact ⟨w,hrun,hop,hword,hmiss hop hword (by decide)⟩
  · have hview : (Transition.exec (step 3) spawn
        [.run,.tick,.tick,.tick,.watch,.watch,.watch,.watch,.begin]).map
        (fun w => (w.operation,w.deadline)) = some (.inFlight 3 false,idleDeadline) := by decide
    obtain ⟨w,hrun,hw⟩ := Option.map_eq_some_iff.mp hview
    obtain ⟨hop,hword⟩ := Prod.mk.inj hw
    exact ⟨w,hrun,hop,hword,hmiss hop hword (by decide)⟩

end Watched
end Ait
