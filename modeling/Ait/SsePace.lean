import Ait.SseStops

/-!
# The idle deadline and the pace of the client

The deadline lies one idle timeout after the last poll that read a chunk. A poll looks
at it before the buffer and before upstream, so a client that polls late enough meets
it whatever lies ready.
-/

namespace Ait
open Transition Search SseTransformStream

namespace SseTransformStream

def ItemReady (s : SseTransformStream) : Prop := ∃ item rest, s.inner = item::rest ∧ item ≠ .pending

def Silent (s : SseTransformStream) : Prop := ¬HasBoundary s.buf ∧ ¬s.ItemReady

def EndedIdle (s : SseTransformStream) : Prop :=
  s.ended = some .timeout ∧ s.event.errorMessage = some "SSE stream idle timeout"

/-- From `s` to `t` chunks were read at `now`, or none were. -/
def Reads (now : Instant) (s t : SseTransformStream) : Prop :=
  ∃ new, t.accepted = s.accepted ++ new ∧ t.idleTimeout = s.idleTimeout ∧
    t.idleTimer = if new = [] then s.idleTimer else now+s.idleTimeout

section Poll

variable {s : SseTransformStream} {json : SerdeJson} {now : Instant}

theorem Reads.rules (json : SerdeJson) (s : SseTransformStream) (now : Instant) (cancelled : Bool) :
    PollRules json now cancelled (Reads now s) (Reads now s) fun answer =>
      answer.2.done = false → Reads now s answer.2 where
  split := fun _ _ h _ _ => h
  force := fun _ _ h _ _ _ _ => h
  oversize := fun _ _ _ _ _ _ => nofun
  search := fun _ h _ _ => h
  shutdown := fun t _ _ hopen => by
    rw [(finalizeStream_closed t json .shutdown now).2.1] at hopen
    cases hopen
  eof := fun t _ _ hopen => by
    rw [(finalizeStream_closed t json .eof now).2.1] at hopen
    cases hopen
  pending := fun _ _ h _ _ => h
  error := fun _ _ _ _ _ => nofun
  capped := fun _ _ _ _ _ _ _ => nofun
  feed := fun t rest bytes h _ _ => by
    obtain ⟨new,haccepted,htimeout,-⟩ := h
    refine ⟨new ++ [bytes],?_,htimeout,?_⟩
    · change t.accepted ++ [bytes] = _
      rw [haccepted,List.append_assoc]
    · change now+t.idleTimeout = _
      rw [if_neg (by simp),htimeout]

/-- A poll that leaves the stream open moves the deadline exactly if it read a chunk. -/
theorem reads_poll (json : SerdeJson) (s : SseTransformStream) (now : Instant) (cancelled : Bool)
    (hopen : (s.pollNext json now cancelled).2.done = false) :
    Reads now s (s.pollNext json now cancelled).2 := by
  have hself : Reads now s s := ⟨[],(List.append_nil _).symm,rfl,rfl⟩
  refine (Reads.rules json s now cancelled).poll (fun _ _ => hself) (fun _ => hself) ?_ hopen
  intro _ msg hdone
  have hclosed : (s.timeoutStream json msg now).2.done = true :=
    (finalizeStream_closed _ json .timeout now).2.1
  rw [hclosed] at hdone
  cases hdone

@[simp] theorem timeoutStream_message (json : SerdeJson) (s : SseTransformStream) (msg : String)
    (now : Instant) : (s.timeoutStream json msg now).2.event.errorMessage = some msg := by
  unfold timeoutStream finalizeStream
  dsimp only
  have hmsg : ∀ t : SseTransformStream, (t.finalizeLog now).event.errorMessage =
      t.event.errorMessage := by
    intro t
    unfold finalizeLog
    cases t.userTokens <;> rfl
  split
  · exact hmsg _
  · exact hmsg _

theorem endedIdle_iff (h : s.Poised) (hdone : s.done = false) (hlive : s.ended ≠ some .dropped)
    (json : SerdeJson) (now : Instant) (cancelled : Bool) :
    (s.pollNext json now cancelled).2.EndedIdle ↔
      ¬elapsed s.start now ≥ s.maxDuration ∧ now ≥ s.idleTimer := by
  by_cases hmax : elapsed s.start now ≥ s.maxDuration
  · have hpoll : s.pollNext json now cancelled =
        s.timeoutStream json "SSE stream exceeded max duration" now := by
      simp only [pollNext,hdone,Bool.false_eq_true,if_false,hmax,if_true]
    refine iff_of_false (fun hend => ?_) (fun hboth => hboth.1 hmax)
    have hmsg := hend.2
    rw [hpoll,timeoutStream_message] at hmsg
    simp at hmsg
  · by_cases hidle : now ≥ s.idleTimer
    · have hpoll : s.pollNext json now cancelled =
          s.timeoutStream json "SSE stream idle timeout" now := by
        simp only [pollNext,hdone,Bool.false_eq_true,if_false,hmax,hidle,if_true]
      rw [hpoll]
      exact iff_of_true ⟨(finalizeStream_closed _ json .timeout now).1,
        timeoutStream_message json s _ now⟩ ⟨hmax,hidle⟩
    · have hearly : ¬s.Expired now := not_or.mpr ⟨hmax,hidle⟩
      have hstop := h.stops hdone hlive json hearly cancelled
      exact iff_of_false (fun hend => hstop.not_timeout hend.1) (fun hboth => hidle hboth.2)

end Poll
end SseTransformStream

namespace Relay

/-- The last of the instants at which a poll of the run read a chunk. -/
def lastRead (json : SerdeJson) : Instant → Relay → List Op → Instant
  | opened, _, [] => opened
  | opened, w, op::ops =>
    match step json w op with
    | none => opened
    | some t =>
      match op with
      | .poll now _ =>
        lastRead json (if t.stream.accepted = w.stream.accepted then opened else now) t ops
      | .drop _ => lastRead json opened t ops

/-- As long as a stream is open its deadline lies one idle timeout behind `read`. -/
def Armed (timeout : ℕ) (read : Instant) (w : Relay) : Prop :=
  w.stream.done = false → w.stream.ended ≠ some .dropped →
    w.stream.idleTimeout = timeout ∧ w.stream.idleTimer = read+timeout

section Deadline

variable {json : SerdeJson} {timeout : ℕ} {read : Instant} {w t : Relay}

theorem armed_poll {now : Instant} {cancelled : Bool}
    (hst : step json w (.poll now cancelled) = some t) (h : w.Armed timeout read) :
    t.Armed timeout (if t.stream.accepted = w.stream.accepted then read else now) := by
  obtain ⟨hlive,⟨now',cancelled',hop,hstream,-⟩ | ⟨now',hop,-⟩⟩ := step_cases hst
  · obtain ⟨rfl,rfl⟩ := Op.poll.inj hop
    intro hopen _
    cases hdone : w.stream.done with
    | true =>
      rw [hstream,pollNext_done hdone,hdone] at hopen
      cases hopen
    | false =>
      obtain ⟨htimeout,htimer⟩ := h hdone hlive
      rw [hstream] at hopen ⊢
      obtain ⟨new,haccepted,hkept,hmoved⟩ := reads_poll json w.stream now cancelled hopen
      refine ⟨hkept.trans htimeout,?_⟩
      rw [hmoved,haccepted,htimeout,htimer]
      by_cases hnew : new = []
      · simp [hnew]
      · simp [hnew]
  · cases hop

theorem armed_run {ops : List Op} (hrun : exec (step json) w ops = some t)
    (h : w.Armed timeout read) : t.Armed timeout (lastRead json read w ops) := by
  induction ops generalizing w read with
  | nil =>
    obtain rfl := Option.some.inj hrun
    exact h
  | cons op ops ih =>
    obtain ⟨u,hst,hrest⟩ := Option.bind_eq_some_iff.mp hrun
    rw [lastRead,hst]
    cases op with
    | poll now cancelled => exact ih hrest (armed_poll hst h)
    | drop now =>
      refine ih hrest ?_
      obtain ⟨hlive,⟨now',cancelled',hop,-⟩ | ⟨now',hop,rfl⟩⟩ := step_cases hst
      · cases hop
      · obtain rfl := Op.drop.inj hop
        intro hdone hopen
        cases hwas : w.stream.done with
        | true => simp [dropStream,hwas] at hdone
        | false => simp [dropStream,hwas,finalizeLog] at hopen

end Deadline

/-- Every poll of an open stream in the run, with what was done before it, meets `P`. -/
def EveryPoll (json : SerdeJson) (begun : Relay) (ops : List Op)
    (P : List Op → SseTransformStream → Instant → Bool → Prop) : Prop :=
  ∀ before now cancelled after w, ops = before ++ .poll now cancelled::after →
    exec (step json) begun before = some w → w.stream.done = false →
    w.stream.ended ≠ some .dropped → P before w.stream now cancelled

/-- Over every run: the idle timeout fires only when no event is complete and upstream has nothing
ready, if and only if the client, as long as there is something for it, polls within one idle
timeout of the last poll that read a chunk (or of the opening), or not before the stream's
maximal duration is over. -/
theorem idle_fires_on_silence_iff (json : SerdeJson) (settings : SseSettings)
    (upstream : UpstreamProvider) (modelName : String) (event : ProxyEvent) (start opened : Instant)
    (script : List Inner) (ops : List Op) :
    let begun := Relay.start (openStream settings upstream modelName event start opened script)
    EveryPoll json begun ops (fun _ s now cancelled =>
      (s.pollNext json now cancelled).2.EndedIdle → s.Silent) ↔
    EveryPoll json begun ops (fun before s now _ => ¬s.Silent →
      elapsed s.start now ≥ s.maxDuration ∨
        now < lastRead json opened begun before+seconds settings.idleTimeoutSecs) := by
  intro begun
  have harmed : begun.Armed (seconds settings.idleTimeoutSecs) opened := fun _ _ => ⟨rfl,rfl⟩
  have hpoll : ∀ before w now cancelled, exec (step json) begun before = some w →
      w.stream.done = false → w.stream.ended ≠ some .dropped →
      (((w.stream.pollNext json now cancelled).2.EndedIdle → w.stream.Silent) ↔
        (¬w.stream.Silent → elapsed w.stream.start now ≥ w.stream.maxDuration ∨
          now < lastRead json opened begun before+seconds settings.idleTimeoutSecs)) := by
    intro before w now cancelled hrun hdone hlive
    have hpoised : w.stream.Poised :=
      exec_preserves (fun _ _ _ hst h => poised_step hst h) hrun
        (start_poised settings upstream modelName event start opened script)
    obtain ⟨-,htimer⟩ := armed_run hrun harmed hdone hlive
    rw [endedIdle_iff hpoised hdone hlive json now cancelled,htimer,← Nat.not_le]
    tauto
  constructor
  · intro hfires before now cancelled after w hops hrun hdone hlive
    exact (hpoll before w now cancelled hrun hdone hlive).mp
      (hfires before now cancelled after w hops hrun hdone hlive)
  · intro hpace before now cancelled after w hops hrun hdone hlive
    exact (hpoll before w now cancelled hrun hdone hlive).mpr
      (hpace before now cancelled after w hops hrun hdone hlive)

/-- Two events in one chunk, and a client that takes its time over the first. -/
theorem buffered_event_blamed :
    ¬ ∀ (json : SerdeJson) (settings : SseSettings) (upstream : UpstreamProvider)
      (modelName : String) (event : ProxyEvent) (start opened : Instant) (script : List Inner)
      (ops : List Op), EveryPoll json
        (Relay.start (openStream settings upstream modelName event start opened script)) ops
        fun _ s now cancelled => (s.pollNext json now cancelled).2.EndedIdle → s.Silent := by
  intro hfires
  let json : SerdeJson := ⟨fun _ => none,fun _ => none⟩
  let begun := Relay.start (demoStream [.chunk (utf8 "a\n\nb\n\n"),.pending])
  have hview : (exec (step json) begun [.poll 1 false]).map (fun w =>
      (w.stream.done,w.stream.ended,w.stream.buf,
        (w.stream.pollNext json (seconds 61) false).2.ended,
        (w.stream.pollNext json (seconds 61) false).2.event.errorMessage)) =
      some (false,none,utf8 "b\n\n",some .timeout,some "SSE stream idle timeout") := by
    decide +kernel
  obtain ⟨w,hrun,hw⟩ := Option.map_eq_some_iff.mp hview
  simp only [Prod.mk.injEq] at hw
  obtain ⟨hdone,hended,hbuf,hend,hmsg⟩ := hw
  have hsilent := hfires json ⟨60,0,0⟩ demoUpstream "ai" demoEvent 0 0 _
    [.poll 1 false,.poll (seconds 61) false] [.poll 1 false] (seconds 61) false [] w rfl hrun hdone
    (by simp [hended]) ⟨hend,hmsg⟩
  have hevent : HasBoundary (utf8 "b\n\n") := .inl ⟨utf8 "b",[],by decide +kernel⟩
  rw [← hbuf] at hevent
  exact hsilent.1 hevent

end Relay
end Ait
