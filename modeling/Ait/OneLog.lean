import Ait.ProxyLog

/-!
# One log event for each request

Until it has been logged a request is owed its event by exactly one owner: the guard of
the handler, or the response stream once the guard was suppressed. Whoever lets go of
it logs it.
-/

namespace Ait
open Transition SseTransformStream

namespace SseTransformStream

def Owing (s : SseTransformStream) : Prop := s.done = false ∧ s.logged = []

def Paid (s : SseTransformStream) : Prop := s.done = true ∧ ∃ e, s.logged = [e]

section Poll

variable {s : SseTransformStream} {now : Instant}

theorem finalizeLog_logged (h : s.logged = []) (now : Instant) :
    ∃ e, (s.finalizeLog now).logged = [e] := by
  unfold finalizeLog
  simp [h]

theorem finalizeStream_paid (h : s.logged = []) (json : SerdeJson) (why : Ending) (now : Instant) :
    (s.finalizeStream json why now).2.Paid := by
  have hlogged := finalizeLog_logged
    (s := recordTtfb { s with done := true,ended := some why } now) h now
  unfold finalizeStream
  dsimp only
  split
  · exact ⟨rfl,hlogged⟩
  · exact ⟨rfl,hlogged⟩

theorem failStream_paid (h : s.logged = []) (status msg : String) (now : Instant) :
    (s.failStream status msg now).2.Paid :=
  ⟨rfl,finalizeLog_logged (s := { s with
    event := { s.event with status := status,errorMessage := some msg }
    done := true
    ended := some .failed }) h now⟩

theorem Owing.rules (json : SerdeJson) (now : Instant) (cancelled : Bool) :
    PollRules json now cancelled Owing Owing fun answer => answer.2.Owing ∨ answer.2.Paid where
  split := fun _ _ h _ => .inl h
  force := fun _ _ h _ _ _ => .inl h
  oversize := fun _ msg h _ _ _ => .inr (failStream_paid h.2 "502" msg now)
  search := fun _ h _ _ => h
  shutdown := fun _ h _ => .inr (finalizeStream_paid h.2 json .shutdown now)
  eof := fun _ h _ => .inr (finalizeStream_paid h.2 json .eof now)
  pending := fun _ _ h _ => .inl h
  error := fun s rest e h _ => .inr ⟨rfl,finalizeLog_logged
    (s := { s with inner := rest,event := { s.event with errorMessage := some e } }) h.2 now⟩
  capped := fun _ _ _ msg h _ _ => .inr (failStream_paid h.2 "502" msg now)
  feed := fun _ _ _ h _ _ => h

theorem pollNext_logged (h : s.Owing ∨ s.Paid) (json : SerdeJson) (now : Instant)
    (cancelled : Bool) :
    (s.pollNext json now cancelled).2.Owing ∨ (s.pollNext json now cancelled).2.Paid := by
  refine (Owing.rules json now cancelled).poll (fun _ => h) ?_ ?_
  · intro hdone
    rcases h with h | h
    · exact h
    · simp [h.1] at hdone
  · intro hdone msg
    rcases h with h | h
    · exact .inr (finalizeStream_paid
        (s := { s with event := { s.event with status := "504",errorMessage := some msg } })
        h.2 json .timeout now)
    · simp [h.1] at hdone

theorem dropStream_logged (h : s.Owing ∨ s.Paid) (now : Instant) :
    ∃ e, (s.dropStream now).logged = [e] := by
  unfold dropStream
  rcases h with h | h
  · simp only [h.1,Bool.false_eq_true,if_false]
    exact finalizeLog_logged
      (s := { s with event := { s.event with status := "499" },ended := some .dropped }) h.2 now
  · simp only [h.1,if_true]
    exact h.2

end Poll
end SseTransformStream

namespace ProxiedRequest

def events (w : ProxiedRequest) : List ProxyEvent :=
  match w.stage with
  | .streaming stream => w.logged ++ stream.logged
  | _ => w.logged

/-- The handler has returned or was dropped, and so was its response stream or it has ended. -/
def Finished (w : ProxiedRequest) : Prop :=
  match w.stage with
  | .closed => True
  | .streaming stream => stream.done = true
  | _ => False

/-- Whoever holds the request owes it its event, and nobody owes a finished one anything. -/
def Accountable (w : ProxiedRequest) : Prop :=
  match w.stage with
  | .headers guard => guard.finalized = false ∧ w.logged = []
  | .errorBody guard _ => guard.finalized = false ∧ w.logged = []
  | .plainHeaders guard => guard.finalized = false ∧ w.logged = []
  | .plainBody guard _ _ _ => guard.finalized = false ∧ w.logged = []
  | .streaming stream => w.logged = [] ∧ (stream.Owing ∨ stream.Paid)
  | .closed => ∃ e, w.logged = [e]

section Step

variable {x : Exchange} {w t : ProxiedRequest} {guard : ProxyLogGuard} {logged : List ProxyEvent}
  {op : Op}

theorem close_accountable (h : logged = []) (guard : ProxyLogGuard) (usage : UsageTokens)
    (status : String) (now : Instant) : (close guard usage status now logged).Accountable := by
  subst h
  exact ⟨_,rfl⟩

theorem drop_accountable (h : guard.finalized = false ∧ logged = []) (now : Instant) :
    Accountable ⟨.closed,guard.drop now logged⟩ := by
  simp [Accountable,ProxyLogGuard.drop,h.1,h.2]

theorem streamedAnswer_accountable (h : guard.finalized = false ∧ logged = []) (now : Instant)
    (outcome : Execute) : (streamedAnswer x guard logged now outcome).Accountable := by
  cases outcome with
  | failed e => exact close_accountable h.2 _ _ _ _
  | timedOut => exact close_accountable h.2 _ _ _ _
  | response status script =>
    unfold streamedAnswer
    dsimp only
    split
    · exact close_accountable h.2 _ _ _ _
    · split
      · exact ⟨by simp [ProxyLogGuard.drop,ProxyLogGuard.suppressDropLog,h.2],.inl ⟨rfl,rfl⟩⟩
      · exact h

theorem plainAnswer_accountable (h : guard.finalized = false ∧ logged = []) (now : Instant)
    (outcome : Execute) : (plainAnswer x guard logged now outcome).Accountable := by
  cases outcome with
  | failed e => exact close_accountable h.2 _ _ _ _
  | timedOut => exact close_accountable h.2 _ _ _ _
  | response status script =>
    unfold plainAnswer
    dsimp only
    split
    · exact close_accountable h.2 _ _ _ _
    · exact h

theorem plainRead_accountable (h : guard.finalized = false ∧ logged = []) (status ttfb : ℕ)
    (body : Bytes) (now : Instant) (outcome : BodyRead) :
    (plainRead x guard status ttfb body logged now outcome).Accountable := by
  cases outcome with
  | chunk bytes =>
    unfold plainRead
    dsimp only
    split
    · exact close_accountable h.2 _ _ _ _
    · exact h
  | error => exact close_accountable h.2 _ _ _ _
  | timedOut => exact close_accountable h.2 _ _ _ _
  | finished =>
    unfold plainRead
    dsimp only
    split
    · exact close_accountable h.2 _ _ _ _
    · exact close_accountable h.2 _ _ _ _

theorem step_accountable (hst : step x w op = some t) (h : w.Accountable) : t.Accountable := by
  obtain ⟨stage,logged⟩ := w
  unfold step at hst
  cases stage with
  | headers guard =>
    cases op with
    | execute outcome now =>
      obtain rfl := Option.some.inj hst
      exact streamedAnswer_accountable h now outcome
    | drop now =>
      obtain rfl := Option.some.inj hst
      exact drop_accountable h now
    | _ => cases hst
  | errorBody guard status =>
    cases op with
    | text body now =>
      obtain rfl := Option.some.inj hst
      cases body with
      | none => exact drop_accountable h now
      | some body => exact close_accountable h.2 _ _ _ _
    | drop now =>
      obtain rfl := Option.some.inj hst
      exact drop_accountable h now
    | _ => cases hst
  | streaming stream =>
    obtain ⟨hnone,hstream⟩ := h
    cases op with
    | poll now cancelled =>
      obtain rfl := Option.some.inj hst
      exact ⟨hnone,pollNext_logged hstream x.json now cancelled⟩
    | drop now =>
      obtain rfl := Option.some.inj hst
      obtain ⟨e,he⟩ := dropStream_logged hstream now
      have hlogged : logged = [] := hnone
      exact ⟨e,by simp [hlogged,he]⟩
    | _ => cases hst
  | plainHeaders guard =>
    cases op with
    | execute outcome now =>
      obtain rfl := Option.some.inj hst
      exact plainAnswer_accountable h now outcome
    | drop now =>
      obtain rfl := Option.some.inj hst
      exact drop_accountable h now
    | _ => cases hst
  | plainBody guard status ttfb body =>
    cases op with
    | read outcome now =>
      obtain rfl := Option.some.inj hst
      exact plainRead_accountable h status ttfb body now outcome
    | drop now =>
      obtain rfl := Option.some.inj hst
      exact drop_accountable h now
    | _ => cases hst
  | closed => cases op <;> cases hst

theorem Accountable.events_length (h : w.Accountable) :
    w.Finished ∧ w.events.length = 1 ∨ ¬w.Finished ∧ w.events = [] := by
  obtain ⟨stage,logged⟩ := w
  cases stage with
  | streaming stream =>
    obtain ⟨hnone,⟨hdone,hs⟩ | ⟨hdone,e,hs⟩⟩ := h
    · have hlogged : logged = [] := hnone
      exact .inr ⟨by simp [Finished,hdone],by simp [events,hlogged,hs]⟩
    · have hlogged : logged = [] := hnone
      exact .inl ⟨hdone,by simp [events,hlogged,hs]⟩
  | closed =>
    obtain ⟨e,he⟩ := h
    exact .inl ⟨trivial,congrArg List.length he⟩
  | headers guard => exact .inr ⟨id,h.2⟩
  | errorBody guard status => exact .inr ⟨id,h.2⟩
  | plainHeaders guard => exact .inr ⟨id,h.2⟩
  | plainBody guard status ttfb body => exact .inr ⟨id,h.2⟩

theorem drop_finishes (h : ¬w.Finished) (now : Instant) :
    ∃ t, step x w (.drop now) = some t ∧ t.Finished := by
  obtain ⟨stage,logged⟩ := w
  cases stage with
  | closed => exact absurd trivial h
  | _ => exact ⟨_,rfl,trivial⟩

end Step

theorem begin_accountable (x : Exchange) (stream : Bool) (promptTokens : Option ℤ) :
    (begin x stream promptTokens).Accountable := by
  cases stream <;> exact ⟨rfl,rfl⟩

/-- Over every run a finished request has been logged exactly once and any other not yet; and
every request can be finished from wherever it waits. -/
theorem logged_once (x : Exchange) (stream : Bool) (promptTokens : Option ℤ) (ops : List Op)
    (w : ProxiedRequest) (hrun : exec (step x) (begin x stream promptTokens) ops = some w) :
    (w.Finished → w.events.length = 1) ∧
      (¬w.Finished → w.events = [] ∧ ∀ now, ∃ t, step x w (.drop now) = some t ∧ t.Finished) := by
  have hw : w.Accountable :=
    exec_preserves (fun w op t hst h => step_accountable hst h) hrun
      (begin_accountable x stream promptTokens)
  rcases hw.events_length with ⟨hfinished,hone⟩ | ⟨hopen,hnone⟩
  · exact ⟨fun _ => hone,fun hno => absurd hfinished hno⟩
  · exact ⟨fun hfinished => absurd hfinished hopen,
      fun _ => ⟨hnone,fun now => drop_finishes hopen now⟩⟩

/-- A stream that is polled again after its end, and dropped then. -/
theorem logged_once_polled_again :
    let x : Exchange := ⟨⟨fun _ => none,fun _ => none⟩,⟨60,0,0⟩,demoUpstream,"ai",0⟩
    let ops := [.execute (.response 200 [.chunk (utf8 "data: hi\n\n")]) 1,.poll 2 false,.poll 3 false,
      .poll 4 false,.drop 5]
    ∃ w, exec (step x) (begin x true (some 7)) ops = some w ∧ w.Finished ∧ w.events.length = 1 := by
  intro x ops
  have hview : (exec (step x) (begin x true (some 7)) ops).map (fun w =>
      match w.stage with
      | .closed => true
      | _ => false) = some true := by decide +kernel
  obtain ⟨w,hrun,hclosed⟩ := Option.map_eq_some_iff.mp hview
  have hfinished : w.Finished := by
    unfold Finished
    split at hclosed
    · rename_i hstage
      rw [hstage]
      trivial
    · cases hclosed
  exact ⟨w,hrun,hfinished,(logged_once x true (some 7) ops w hrun).1 hfinished⟩

end ProxiedRequest
end Ait
