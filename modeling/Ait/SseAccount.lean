import Ait.SseRun

/-!
# What a stream hands on and logs

What the consumer has received is the rewriting of the pieces taken out of the buffer,
and once the stream has ended there is one log event, whose token and size fields are
functions of these pieces.
-/

namespace Ait
open Transition SseTransformStream

section Output

variable (json : SerdeJson) (upstream : UpstreamProvider) (modelName : String)

def handed (piece : Bytes) : Bytes := (transformEvent json upstream modelName none piece).1

def residue (rest : Bytes) : List Bytes :=
  if rest = [] then [] else [upstream.transformResponse json rest modelName]

def tokensAfter (pieces : List Bytes) : Option UsageTokens :=
  pieces.foldl (fun tokens piece => (transformEvent json upstream modelName tokens piece).2) none

def sizeAfter (size : Option ℕ) (pieces : List Bytes) : Option ℕ :=
  pieces.foldl
    (fun size piece => some (size.getD 0 + (handed json upstream modelName piece).length)) size

variable {json upstream modelName}

theorem transformLine_fst {acc acc' : Bytes × Option UsageTokens} (h : acc.1 = acc'.1)
    (line : Bytes) : (transformLine json upstream modelName acc line).1 =
      (transformLine json upstream modelName acc' line).1 := by
  cases hpayload : dataPayload line with
  | some payload => rw [transformLine_payload hpayload,transformLine_payload hpayload,h]
  | none =>
    rw [transformLine_other hpayload,transformLine_other hpayload,h]
    split
    · rfl
    · exact h

theorem foldl_transformLine_fst (ls : List Bytes) {acc acc' : Bytes × Option UsageTokens}
    (h : acc.1 = acc'.1) : (ls.foldl (transformLine json upstream modelName) acc).1 =
      (ls.foldl (transformLine json upstream modelName) acc').1 := by
  induction ls generalizing acc acc' with
  | nil => exact h
  | cons line ls ih => exact ih (transformLine_fst h line)

@[simp] theorem transformEvent_fst (tokens : Option UsageTokens) (piece : Bytes) :
    (transformEvent json upstream modelName tokens piece).1 =
      handed json upstream modelName piece := by
  rw [handed,transformEvent_eq,transformEvent_eq]
  split
  · exact foldl_transformLine_fst _ rfl
  · rfl

end Output

def ProxyEvent.usage (e : ProxyEvent) : UsageTokens where
  promptTokens := e.promptTokens
  completionTokens := e.completionTokens
  totalTokens := e.totalTokens
  cachedTokens := e.cachedTokens

/-- The token fields logged for an event that was opened with `seeded`. -/
def loggedUsage (seeded : UsageTokens) : Option UsageTokens → UsageTokens
  | some found => { found with promptTokens := found.promptTokens.or seeded.promptTokens }
  | none => seeded

namespace SseTransformStream

structure Tally (json : SerdeJson) (event : ProxyEvent) (s : SseTransformStream) : Prop where
  tokens : s.userTokens = tokensAfter json s.upstream s.modelName s.taken
  size : s.event.responseBodySize =
    sizeAfter json s.upstream s.modelName event.responseBodySize s.taken
  usage : s.event.usage = event.usage
  logged : s.logged = []

def Logged (json : SerdeJson) (event : ProxyEvent) (s : SseTransformStream) : Prop :=
  ∃ e, s.logged = [e] ∧
    e.usage = loggedUsage event.usage (tokensAfter json s.upstream s.modelName s.taken) ∧
    e.responseBodySize = sizeAfter json s.upstream s.modelName event.responseBodySize s.taken

def Delivered (json : SerdeJson) (received : List Bytes) (s : SseTransformStream) : Prop :=
  received = s.taken.map (handed json s.upstream s.modelName) ++
    residue json s.upstream s.modelName s.flushed

def Serves (upstream : UpstreamProvider) (modelName : String) (s : SseTransformStream) : Prop :=
  s.upstream = upstream ∧ s.modelName = modelName

section Tally

variable {json : SerdeJson} {event : ProxyEvent} {s : SseTransformStream}

theorem Tally.finalizeLog (h : Tally json event s) (now : Instant) :
    Logged json event (s.finalizeLog now) := by
  have husage := h.usage
  refine ⟨_,by rw [SseTransformStream.finalizeLog,h.logged]; rfl,?_,?_⟩
  · cases hu : s.userTokens with
    | none =>
      have hnone := h.tokens
      rw [hu] at hnone
      simp only [SseTransformStream.finalizeLog,hu,← hnone,loggedUsage]
      exact husage
    | some found =>
      have hsome := h.tokens
      rw [hu] at hsome
      have hprompt : s.event.promptTokens = event.promptTokens :=
        congrArg UsageTokens.promptTokens husage
      simp [SseTransformStream.finalizeLog,hu,← hsome,loggedUsage,ProxyEvent.usage,hprompt]
  · refine Eq.trans ?_ h.size
    cases s.userTokens <;> rfl

theorem Tally.split (h : Tally json event s) (n : ℕ) :
    Tally json event (s.splitEvent json n).2 where
  tokens := by
    simp only [splitEvent,tokensAfter,List.foldl_append,List.foldl_cons,List.foldl_nil]
    rw [h.tokens]
    rfl
  size := by
    simp only [splitEvent,sizeAfter,List.foldl_append,List.foldl_cons,List.foldl_nil,
      transformEvent_fst]
    rw [h.size]
    rfl
  usage := h.usage
  logged := h.logged

end Tally

/-- A stream in the middle of a poll, its consumer having received `received`. -/
structure Accounted (json : SerdeJson) (upstream : UpstreamProvider) (modelName : String)
    (event : ProxyEvent) (received : List Bytes) (s : SseTransformStream) : Prop where
  serves : Serves upstream modelName s
  tally : Tally json event s
  delivered : Delivered json received s
  flushed : s.flushed = []
  ended : s.ended = none
  done : s.done = false

structure Settled (json : SerdeJson) (upstream : UpstreamProvider) (modelName : String)
    (event : ProxyEvent) (received : List Bytes) (s : SseTransformStream) : Prop where
  serves : Serves upstream modelName s
  delivered : Delivered json received s
  logged : s.ended ≠ none → Logged json event s
  running : s.done = false → s.ended ≠ some .dropped →
    Accounted json upstream modelName event received s

namespace Accounted

variable {json : SerdeJson} {upstream : UpstreamProvider} {modelName : String}
  {event : ProxyEvent} {received : List Bytes} {s : SseTransformStream}

theorem settled (h : Accounted json upstream modelName event received s) :
    Settled json upstream modelName event received s where
  serves := h.serves
  delivered := h.delivered
  logged := fun hended => absurd h.ended hended
  running := fun _ _ => h

theorem searched (h : Accounted json upstream modelName event received s) :
    Accounted json upstream modelName event received s.searched :=
  ⟨h.serves,⟨h.tally.tokens,h.tally.size,h.tally.usage,h.tally.logged⟩,h.delivered,h.flushed,h.ended,
    h.done⟩

theorem split (h : Accounted json upstream modelName event received s) (n : ℕ) :
    Accounted json upstream modelName event (received ++ (s.splitEvent json n).1.bytes)
      (s.splitEvent json n).2 where
  serves := h.serves
  tally := h.tally.split n
  delivered := by
    have hbefore := h.delivered
    simp only [Delivered,h.flushed,residue,if_true,List.append_nil] at hbefore
    simp only [Delivered,splitEvent,Poll.bytes,transformEvent_fst,h.flushed,residue,if_true,
      List.append_nil,List.map_append,List.map_cons,List.map_nil]
    rw [hbefore]
  flushed := h.flushed
  ended := h.ended
  done := h.done

theorem finalize (h : Accounted json upstream modelName event received s) (why : Ending)
    (now : Instant) :
    Settled json upstream modelName event
      (received ++ (s.finalizeStream json why now).1.bytes) (s.finalizeStream json why now).2 := by
  have htally : Tally json event (recordTtfb { s with done := true,ended := some why } now) :=
    ⟨h.tally.tokens,h.tally.size,h.tally.usage,h.tally.logged⟩
  have hlog := htally.finalizeLog now
  have hbefore := h.delivered
  simp only [Delivered,h.flushed,residue,if_true,List.append_nil] at hbefore
  unfold finalizeStream
  dsimp only
  split
  · rename_i hbuf
    refine ⟨h.serves,?_,fun _ => hlog,nofun⟩
    have hbuf' : s.buf ≠ [] := hbuf
    simp only [Delivered,residue,SseTransformStream.finalizeLog,recordTtfb,hbuf',if_false,
      Poll.bytes]
    rw [hbefore]
  · refine ⟨h.serves,?_,fun _ => hlog,nofun⟩
    simp only [Delivered,SseTransformStream.finalizeLog,recordTtfb,h.flushed,residue,if_true,
      Poll.bytes,List.append_nil]
    exact hbefore

theorem close (h : Accounted json upstream modelName event received s) {t : SseTransformStream}
    (hserves : t.upstream = s.upstream ∧ t.modelName = s.modelName) (htaken : t.taken = s.taken)
    (hflushed : t.flushed = s.flushed) (hlog : Logged json event t)
    (hclosed : t.done = true ∨ t.ended = some .dropped) :
    Settled json upstream modelName event received t where
  serves := ⟨hserves.1.trans h.serves.1,hserves.2.trans h.serves.2⟩
  delivered := by
    have hbefore := h.delivered
    simp only [Delivered,hserves.1,hserves.2,htaken,hflushed] at hbefore ⊢
    exact hbefore
  logged := fun _ => hlog
  running := fun hdone hlive => (not_running hclosed hdone hlive).elim

theorem fail (h : Accounted json upstream modelName event received s) (status msg : String)
    (now : Instant) : Settled json upstream modelName event
      (received ++ (s.failStream status msg now).1.bytes) (s.failStream status msg now).2 := by
  have htally : Tally json event { s with
      event := { s.event with status := status,errorMessage := some msg }
      done := true
      ended := some .failed } := ⟨h.tally.tokens,h.tally.size,h.tally.usage,h.tally.logged⟩
  have hbytes : (s.failStream status msg now).1.bytes = [] := rfl
  rw [hbytes,List.append_nil]
  exact h.close ⟨rfl,rfl⟩ rfl rfl (htally.finalizeLog now) (.inl rfl)

theorem rules (json : SerdeJson) (upstream : UpstreamProvider) (modelName : String)
    (event : ProxyEvent) (received : List Bytes) (now : Instant) (cancelled : Bool) :
    PollRules json now cancelled (Accounted json upstream modelName event received)
      (Accounted json upstream modelName event received) fun answer =>
        Settled json upstream modelName event (received ++ answer.1.bytes) answer.2 where
  split := fun s n h _ => (h.split n).settled
  force := fun s i h _ _ _ => (h.searched.split (i+1)).settled
  oversize := fun s msg h _ _ _ => h.searched.fail "502" msg now
  search := fun s h _ _ => h.searched
  shutdown := fun s h _ => h.finalize .shutdown now
  eof := fun s h _ => h.finalize .eof now
  pending := fun s rest h _ => by
    simp only [Poll.bytes_pending,List.append_nil]
    exact settled ⟨h.serves,⟨h.tally.tokens,h.tally.size,h.tally.usage,h.tally.logged⟩,h.delivered,
      h.flushed,h.ended,h.done⟩
  error := fun s rest e h _ => by
    have htally : Tally json event { s with
        inner := rest,event := { s.event with errorMessage := some e } } :=
      ⟨h.tally.tokens,h.tally.size,h.tally.usage,h.tally.logged⟩
    simp only [Poll.bytes_error,List.append_nil]
    exact h.close ⟨rfl,rfl⟩ rfl rfl (htally.finalizeLog now) (.inl rfl)
  capped := fun s rest bytes msg h _ _ =>
    fail (s := receive { s with inner := rest } bytes now)
      ⟨h.serves,⟨h.tally.tokens,h.tally.size,h.tally.usage,h.tally.logged⟩,h.delivered,h.flushed,
        h.ended,h.done⟩ "502" msg now
  feed := fun s rest bytes h _ _ =>
    ⟨h.serves,⟨h.tally.tokens,h.tally.size,h.tally.usage,h.tally.logged⟩,h.delivered,h.flushed,
      h.ended,h.done⟩

end Accounted

namespace Settled

variable {json : SerdeJson} {upstream : UpstreamProvider} {modelName : String}
  {event : ProxyEvent} {received : List Bytes} {s : SseTransformStream}

theorem poll (h : Settled json upstream modelName event received s) (now : Instant)
    (cancelled : Bool) (hlive : s.ended ≠ some .dropped) :
    Settled json upstream modelName event
      (received ++ (s.pollNext json now cancelled).1.bytes)
      (s.pollNext json now cancelled).2 := by
  refine (Accounted.rules json upstream modelName event received now cancelled).poll ?_ ?_ ?_
  · intro _
    simpa only [Poll.bytes_none,List.append_nil] using h
  · exact fun hdone => h.running hdone hlive
  · intro hdone msg
    have hopen := h.running hdone hlive
    exact Accounted.finalize
      (s := { s with event := { s.event with status := "504",errorMessage := some msg } })
      ⟨hopen.serves,⟨hopen.tally.tokens,hopen.tally.size,hopen.tally.usage,hopen.tally.logged⟩,
        hopen.delivered,hopen.flushed,hopen.ended,hopen.done⟩ .timeout now

theorem drop (h : Settled json upstream modelName event received s) (now : Instant)
    (hlive : s.ended ≠ some .dropped) :
    Settled json upstream modelName event received (s.dropStream now) := by
  unfold dropStream
  split
  · exact h
  · rename_i hdone
    have hopen := h.running (by simpa using hdone) hlive
    have htally : Tally json event
        { s with event := { s.event with status := "499" },ended := some .dropped } :=
      ⟨hopen.tally.tokens,hopen.tally.size,hopen.tally.usage,hopen.tally.logged⟩
    exact hopen.close ⟨rfl,rfl⟩ rfl rfl (htally.finalizeLog now) (.inr rfl)

end Settled
end SseTransformStream

theorem Relay.settled_run {json : SerdeJson} {settings : SseSettings} {upstream : UpstreamProvider}
    {modelName : String} {event : ProxyEvent} {start now : Instant} {script : List Inner}
    {ops : List Relay.Op} {w : Relay} (hrun : exec (Relay.step json)
      (Relay.start (openStream settings upstream modelName event start now script)) ops = some w) :
    Settled json upstream modelName event w.received w.stream := by
  have hstep : ∀ w op t, Relay.step json w op = some t →
      Settled json upstream modelName event w.received w.stream →
      Settled json upstream modelName event t.received t.stream := by
    intro w op t hst h
    obtain ⟨hlive,⟨now,cancelled,-,hstream,hreceived⟩ | ⟨now,-,rfl⟩⟩ := Relay.step_cases hst
    · rw [hstream,hreceived]
      exact h.poll now cancelled hlive
    · exact h.drop now hlive
  have hstart : Accounted json upstream modelName event []
      (openStream settings upstream modelName event start now script) :=
    ⟨⟨rfl,rfl⟩,⟨rfl,rfl,rfl,rfl⟩,rfl,rfl,rfl,rfl⟩
  exact exec_preserves hstep hrun hstart.settled

end Ait
