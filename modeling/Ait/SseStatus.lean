import Ait.ProxyLog
import Ait.SseStops

/-!
# The status a stream is logged with

A streamed request is logged as `200` unless an exit of the stream wrote another status
into the event before. The deadlines, the caps and the drop do; an error of the inner
stream and a shutdown do not.
-/

namespace Ait
open Transition SseTransformStream

def Ending.status : Ending → String
  | .eof => "200"
  | .timeout => "504"
  | .shutdown => "200"
  | .failed => "502"
  | .error => "200"
  | .dropped => "499"

namespace SseTransformStream

/-- An open stream of a request that is going to be logged as a success. -/
structure Promising (s : SseTransformStream) : Prop where
  logged : s.logged = []
  status : s.event.status = "200"
  ended : s.ended = none
  done : s.done = false

/-- A stream that has ended, and was logged with the status that belongs to its end. -/
structure Reported (s : SseTransformStream) : Prop where
  closed : s.done = true ∨ s.ended = some .dropped
  log : ∃ why e, s.ended = some why ∧ s.logged = [e] ∧ e.status = why.status

section Exits

variable {s : SseTransformStream} {now : Instant}

theorem finalizeLog_status (h : s.logged = []) (now : Instant) :
    ∃ e, (s.finalizeLog now).logged = [e] ∧ e.status = s.event.status := by
  have hlogged : (s.finalizeLog now).logged = s.logged ++ [(s.finalizeLog now).event] := rfl
  refine ⟨_,by rw [hlogged,h]; rfl,?_⟩
  unfold finalizeLog
  cases s.userTokens <;> rfl

theorem finalizeStream_reported (h : s.logged = []) (why : Ending)
    (hstatus : s.event.status = why.status) (json : SerdeJson) (now : Instant) :
    (s.finalizeStream json why now).2.Reported := by
  obtain ⟨e,hlogged,he⟩ := finalizeLog_status
    (s := recordTtfb { s with done := true,ended := some why } now) h now
  unfold finalizeStream
  dsimp only
  split
  · exact ⟨.inl rfl,why,e,rfl,hlogged,he.trans hstatus⟩
  · exact ⟨.inl rfl,why,e,rfl,hlogged,he.trans hstatus⟩

theorem failStream_reported (h : s.logged = []) (msg : String) (now : Instant) :
    (s.failStream "502" msg now).2.Reported := by
  obtain ⟨e,hlogged,he⟩ := finalizeLog_status
    (s := { s with
      event := { s.event with status := "502",errorMessage := some msg }
      done := true
      ended := some .failed }) h now
  exact ⟨.inl rfl,.failed,e,rfl,hlogged,he⟩

theorem Promising.error (h : s.Promising) (rest : List Inner) (e : String) (now : Instant) :
    Reported { finalizeLog { s with
        inner := rest,event := { s.event with errorMessage := some e } } now with
      done := true,ended := some .error } := by
  obtain ⟨logged,hlogged,he⟩ := finalizeLog_status
    (s := { s with inner := rest,event := { s.event with errorMessage := some e } }) h.logged now
  exact ⟨.inl rfl,.error,logged,rfl,hlogged,he.trans h.status⟩

theorem Promising.rules (json : SerdeJson) (now : Instant) (cancelled : Bool) :
    PollRules json now cancelled Promising Promising fun answer =>
      answer.2.Promising ∨ answer.2.Reported where
  split := fun _ _ h _ => .inl ⟨h.logged,h.status,h.ended,h.done⟩
  force := fun _ _ h _ _ _ => .inl ⟨h.logged,h.status,h.ended,h.done⟩
  oversize := fun s msg h _ _ _ => .inr (failStream_reported (s := s.searched) h.logged msg now)
  search := fun _ h _ _ => ⟨h.logged,h.status,h.ended,h.done⟩
  shutdown := fun _ h _ => .inr (finalizeStream_reported h.logged .shutdown h.status json now)
  eof := fun _ h _ => .inr (finalizeStream_reported h.logged .eof h.status json now)
  pending := fun _ _ h _ => .inl ⟨h.logged,h.status,h.ended,h.done⟩
  error := fun _ rest e h _ => .inr (h.error rest e now)
  capped := fun s rest bytes msg h _ _ => .inr (failStream_reported
    (s := receive { s with inner := rest } bytes now) h.logged msg now)
  feed := fun _ _ _ h _ _ => ⟨h.logged,h.status,h.ended,h.done⟩

theorem Promising.poll (h : s.Promising) (json : SerdeJson) (now : Instant) (cancelled : Bool) :
    (s.pollNext json now cancelled).2.Promising ∨ (s.pollNext json now cancelled).2.Reported := by
  refine (Promising.rules json now cancelled).poll (fun _ => .inl h) (fun _ => h) fun _ msg => .inr ?_
  exact finalizeStream_reported
    (s := { s with event := { s.event with status := "504",errorMessage := some msg } })
    h.logged .timeout rfl json now

theorem Promising.drop (h : s.Promising) (now : Instant) : (s.dropStream now).Reported := by
  obtain ⟨e,hlogged,he⟩ := finalizeLog_status
    (s := { s with event := { s.event with status := "499" },ended := some .dropped }) h.logged now
  unfold dropStream
  rw [if_neg (by simp [h.done])]
  exact ⟨.inr rfl,.dropped,e,rfl,hlogged,he⟩

end Exits

end SseTransformStream

namespace Relay

/-- The log of a stream that has ended says `200` exactly when upstream was read to its end. -/
def StatusFaithful (w : Relay) : Prop :=
  ∀ why, w.stream.ended = some why → ∃ e, w.stream.logged = [e] ∧ (e.status = "200" ↔ why = .eof)

/-- This poll is not cut short by a shutdown or by an error of the inner stream. -/
def StopsReported (w : Relay) (op : Op) : Prop :=
  ∀ now cancelled, op = .poll now cancelled → w.stream.done = false → ¬w.stream.Expired now →
    w.stream.stop cancelled ≠ .shutdown ∧ w.stream.stop cancelled ≠ .error

/-- The ends that leave the status as it is, besides the proper one. -/
def EndsReported (w : Relay) : Prop :=
  w.stream.ended ≠ some .shutdown ∧ w.stream.ended ≠ some .error

theorem statusFaithful_iff {w : Relay} (h : w.stream.Promising ∨ w.stream.Reported) :
    w.StatusFaithful ↔ w.EndsReported := by
  unfold StatusFaithful EndsReported
  rcases h with h | h
  · simp [h.ended]
  · obtain ⟨why,e,hended,hlogged,hstatus⟩ := h.log
    simp only [hended,hlogged,Option.some.injEq,List.cons.injEq,and_true,forall_eq',exists_eq_left',
      hstatus]
    cases why <;> simp [Ending.status]

section Step

variable {json : SerdeJson} {w t : Relay} {op : Op}

theorem reported_step (hst : step json w op = some t)
    (h : w.stream.Promising ∨ w.stream.Reported) : t.stream.Promising ∨ t.stream.Reported := by
  obtain ⟨hlive,⟨now,cancelled,rfl,hstream,-⟩ | ⟨now,rfl,rfl⟩⟩ := step_cases hst
  · rw [hstream]
    rcases h with h | h
    · exact h.poll json now cancelled
    · have hdone := h.closed.resolve_right hlive
      rw [pollNext_done hdone]
      exact .inr h
  · rcases h with h | h
    · exact .inr (h.drop now)
    · have hdone := h.closed.resolve_right hlive
      rw [dropStream_done hdone]
      exact .inr h

theorem endsReported_poll (h : w.stream.Poised) (hdone : w.stream.done = false)
    (hlive : w.stream.ended ≠ some .dropped) {now : Instant} (hearly : ¬w.stream.Expired now)
    (cancelled : Bool) {received : List Bytes} :
    EndsReported ⟨(w.stream.pollNext json now cancelled).2,received⟩ ↔
      w.stream.stop cancelled ≠ .shutdown ∧ w.stream.stop cancelled ≠ .error := by
  have hstop := h.stops hdone hlive json hearly cancelled
  unfold EndsReported
  generalize (w.stream.pollNext json now cancelled).2 = t at hstop ⊢
  generalize w.stream.stop cancelled = stop at hstop ⊢
  cases hstop with
  | boundary _ _ _ _ _ hopen => simp [hopen.1]
  | forced _ _ _ _ _ _ hopen => simp [hopen.1]
  | oversized _ _ _ _ hended => simp [hended]
  | shutdown _ _ hended => simp [hended]
  | pending _ _ hopen => simp [hopen.1]
  | eof _ _ hended => simp [hended]
  | error _ _ hended => simp [hended]
  | capped _ _ hended => simp [hended]

theorem endsReported_step (hst : step json w op = some t) (h : w.stream.Poised)
    (howner : w.stream.Promising ∨ w.stream.Reported) :
    t.EndsReported ↔ w.EndsReported ∧ w.StopsReported op := by
  obtain ⟨hlive,⟨now,cancelled,rfl,hstream,-⟩ | ⟨now,rfl,rfl⟩⟩ := step_cases hst
  · have ht : t.EndsReported ↔
        EndsReported ⟨(w.stream.pollNext json now cancelled).2,t.received⟩ := by rw [← hstream]
    rw [ht]
    rcases howner with hpromise | hreport
    · have hwas : w.EndsReported := by simp [EndsReported,hpromise.ended]
      by_cases hlate : w.stream.Expired now
      · obtain ⟨msg,hpoll⟩ := pollNext_expired json cancelled hpromise.done hlate
        have hended : (w.stream.timeoutStream json msg now).2.ended = some .timeout :=
          (finalizeStream_closed _ json .timeout now).1
        rw [hpoll]
        refine iff_of_true (by simp [EndsReported,hended]) ⟨hwas,?_⟩
        intro now' cancelled' hop _ hearly
        obtain ⟨rfl,rfl⟩ := Op.poll.inj hop
        exact absurd hlate hearly
      · rw [endsReported_poll h hpromise.done hlive hlate]
        constructor
        · rintro hstop
          refine ⟨hwas,fun now' cancelled' hop _ _ => ?_⟩
          obtain ⟨rfl,rfl⟩ := Op.poll.inj hop
          exact hstop
        · exact fun hall => hall.2 now cancelled rfl hpromise.done hlate
    · have hdone := hreport.closed.resolve_right hlive
      rw [pollNext_done hdone]
      exact ⟨fun hall => ⟨hall,fun _ _ _ hopen => by rw [hdone] at hopen; cases hopen⟩,And.left⟩
  · have hno : w.StopsReported (.drop now) := fun _ _ hop => by cases hop
    cases hdone : w.stream.done with
    | true =>
      rw [dropStream_done hdone]
      exact ⟨fun hall => ⟨hall,hno⟩,And.left⟩
    | false =>
      have hended : (w.stream.dropStream now).ended = some .dropped := by
        rw [dropStream,hdone]
        rfl
      have hwas : w.stream.ended = none := by
        rcases howner with h | h
        · exact h.ended
        · exact (not_running h.closed hdone hlive).elim
      simp [EndsReported,hended,hwas,hno]

end Step

/-- Over every run: an ended stream's log says `200` exactly when it was read to its end, if and only
if no poll was cut short by a shutdown or by an error of the inner stream. -/
theorem status_faithful_iff (json : SerdeJson) (settings : SseSettings)
    (upstream : UpstreamProvider) (modelName : String) (promptTokens : Option ℤ)
    (start now : Instant) (script : List Inner) (ops : List Op) (w : Relay)
    (hrun : exec (step json) (Relay.start (openStream settings upstream modelName
      (ProxiedRequest.pendingEvent promptTokens "200") start now script)) ops = some w) :
    w.StatusFaithful ↔ Along (step json) StopsReported
      (Relay.start (openStream settings upstream modelName
        (ProxiedRequest.pendingEvent promptTokens "200") start now script)) ops := by
  have hstep : ∀ w op t, step json w op = some t →
      w.stream.Poised ∧ (w.stream.Promising ∨ w.stream.Reported) →
      (t.stream.Poised ∧ (t.stream.Promising ∨ t.stream.Reported)) ∧
        (t.EndsReported ↔ w.EndsReported ∧ w.StopsReported op) :=
    fun w op t hst h => ⟨⟨poised_step hst h.1,reported_step hst h.2⟩,endsReported_step hst h.1 h.2⟩
  have hpromising : (openStream settings upstream modelName
      (ProxiedRequest.pendingEvent promptTokens "200") start now script).Promising :=
    ⟨rfl,rfl,rfl,rfl⟩
  have hstart : (Relay.start (openStream settings upstream modelName
      (ProxiedRequest.pendingEvent promptTokens "200") start now script)).EndsReported :=
    ⟨nofun,nofun⟩
  have howner : w.stream.Promising ∨ w.stream.Reported :=
    exec_preserves (fun _ _ _ hst h => reported_step hst h) hrun (.inl hpromising)
  rw [statusFaithful_iff howner,
    exec_iff hstep hrun ⟨start_poised _ _ _ _ _ _ _,.inl hpromising⟩]
  exact and_iff_right hstart

/-- A stream that is read to its end. -/
theorem status_faithful_iff_finished :
    let json : SerdeJson := ⟨fun _ => none,fun _ => none⟩
    let begun := openStream ⟨60,0,0⟩ demoUpstream "ai" (ProxiedRequest.pendingEvent (some 7) "200") 0 0
      [.chunk (utf8 "data: hi\n\n")]
    let ops := [.poll 1 false,.poll 2 false]
    ∃ w, exec (step json) (Relay.start begun) ops = some w ∧ w.stream.ended = some .eof ∧
      (w.StatusFaithful ↔ Along (step json) StopsReported (Relay.start begun) ops) := by
  intro json begun ops
  have hview : (exec (step json) (Relay.start begun) ops).map (fun w => w.stream.ended) =
      some (some .eof) := by decide +kernel
  obtain ⟨w,hrun,hended⟩ := Option.map_eq_some_iff.mp hview
  exact ⟨w,hrun,hended,status_faithful_iff json ⟨60,0,0⟩ demoUpstream "ai" (some 7) 0 0 _ ops w hrun⟩

/-- A connection that breaks is logged as a success. -/
theorem broken_stream_logged_ok :
    ¬ ∀ (json : SerdeJson) (settings : SseSettings) (upstream : UpstreamProvider)
      (modelName : String) (promptTokens : Option ℤ) (start now : Instant) (script : List Inner)
      (ops : List Op) (w : Relay), exec (step json) (Relay.start (openStream settings upstream modelName
        (ProxiedRequest.pendingEvent promptTokens "200") start now script)) ops = some w →
      w.StatusFaithful := by
  intro hreported
  let json : SerdeJson := ⟨fun _ => none,fun _ => none⟩
  let begun := openStream ⟨60,0,0⟩ demoUpstream "ai" (ProxiedRequest.pendingEvent (some 7) "200") 0 0
    [.chunk (utf8 "data: hi\n\n"),.error "connection reset"]
  have hview : (exec (step json) (Relay.start begun) [.poll 1 false,.poll 2 false]).map (fun w =>
      (w.stream.ended,w.stream.logged.map ProxyEvent.status)) =
      some (some .error,["200"]) := by decide +kernel
  obtain ⟨w,hrun,hw⟩ := Option.map_eq_some_iff.mp hview
  obtain ⟨hended,hstatus⟩ := Prod.mk.inj hw
  obtain ⟨e,hlogged,hiff⟩ := hreported json ⟨60,0,0⟩ demoUpstream "ai" (some 7) 0 0 _ _ w hrun _ hended
  have hok : e.status = "200" := by simpa [hlogged] using hstatus
  exact absurd (hiff.mp hok) (by simp)

end Relay
end Ait
