import Ait.OneLog
import Ait.SseUsage

/-!
# Streamed and plain responses are counted alike

A stream reads the usage of a payload before the payload is rewritten, a plain response
is parsed afterwards. No rewriting touches what the usage is looked up by, and both log
the counts under the same rule.
-/

namespace Ait
open Transition Search SseTransformStream

section Rewrite

variable {v w : Value} {key : String}

def valueUsage (v : Value) : UsageTokens := parseUsage ⟨fun _ => some v,fun _ => none⟩ []

theorem parseUsage_eq {json : SerdeJson} {body : Bytes} (h : json.fromSlice body = some v) :
    parseUsage json body = valueUsage v := by
  simp only [parseUsage,parseUsageWith,valueUsage,h]

theorem valueUsage_congr (husage : w.get "usage" = v.get "usage")
    (hresponse : w.get "response" = v.get "response") : valueUsage w = valueUsage v := by
  simp only [valueUsage,parseUsage,parseUsageWith,husage,hresponse]

@[simp] theorem get_injectDefaultShadow (modelName : String) (hmodel : key ≠ "model")
    (hprint : key ≠ "system_fingerprint") :
    (injectDefaultShadow v modelName).get key = v.get key := by
  cases v with
  | object m => simp [injectDefaultShadow,Value.get,hmodel,hprint]
  | _ => rfl

@[simp] theorem get_removeTimings (hkey : key ≠ "timings") :
    (removeTimings v).get key = v.get key := by
  cases v with
  | object m => simp [removeTimings,Value.get,hkey]
  | _ => rfl

@[simp] theorem get_renameReasoningKey (hkey : key ≠ "reasoning")
    (hkey' : key ≠ "reasoning_content") :
    (renameReasoningKey v).get key = (v.get key).map renameReasoningKey := by
  cases v with
  | object m => simp [renameReasoningKey,Value.get,get_renameKey hkey hkey',get_renameInFields]
  | _ => rfl

@[simp] theorem asI64_renameReasoningKey (v : Value) : (renameReasoningKey v).asI64 = v.asI64 := by
  cases v <;> rfl

/-- Every count is found where it was, at whatever depth keys are renamed. -/
@[simp] theorem valueUsage_renameReasoningKey (v : Value) :
    valueUsage (renameReasoningKey v) = valueUsage v := by
  have hcount : ∀ (u : Value) (key : String), key ≠ "reasoning" → key ≠ "reasoning_content" →
      (((renameReasoningKey u).get key).bind Value.asI64) = (u.get key).bind Value.asI64 := by
    intro u key hkey hkey'
    rw [get_renameReasoningKey hkey hkey']
    cases u.get key with
    | none => rfl
    | some n => exact asI64_renameReasoningKey n
  have husage : ((renameReasoningKey v).get "usage").or
      (((renameReasoningKey v).get "response").bind fun r => r.get "usage") =
      ((v.get "usage").or ((v.get "response").bind fun r => r.get "usage")).map
        renameReasoningKey := by
    rw [get_renameReasoningKey (by simp) (by simp),get_renameReasoningKey (by simp) (by simp)]
    cases v.get "usage" with
    | some u => rfl
    | none =>
      cases v.get "response" with
      | none => rfl
      | some r => exact get_renameReasoningKey (by simp) (by simp)
  simp only [valueUsage,parseUsage,parseUsageWith,husage]
  cases (v.get "usage").or ((v.get "response").bind fun r => r.get "usage") with
  | none => rfl
  | some u =>
    have hdetails : ∀ d : Option Value,
        ((d.map renameReasoningKey).bind fun d => (d.get "cached_tokens").bind Value.asI64) =
          d.bind fun d => (d.get "cached_tokens").bind Value.asI64 := by
      intro d
      cases d with
      | none => rfl
      | some d => exact hcount d _ (by simp) (by simp)
    have hprompt : ((renameReasoningKey u).get "prompt_tokens_details").or
        ((renameReasoningKey u).get "completion_tokens_details") =
        ((u.get "prompt_tokens_details").or (u.get "completion_tokens_details")).map
          renameReasoningKey := by
      rw [get_renameReasoningKey (by simp) (by simp),get_renameReasoningKey (by simp) (by simp)]
      cases u.get "prompt_tokens_details" <;> rfl
    have hinput : (renameReasoningKey u).get "input_tokens_details" =
        (u.get "input_tokens_details").map renameReasoningKey :=
      get_renameReasoningKey (by simp) (by simp)
    simp only [Option.map_some,Option.bind_some,hprompt,hinput,hdetails,
      hcount u "prompt_tokens" (by simp) (by simp),hcount u "input_tokens" (by simp) (by simp),
      hcount u "completion_tokens" (by simp) (by simp),
      hcount u "output_tokens" (by simp) (by simp),hcount u "total_tokens" (by simp) (by simp),
      hcount u "cached_tokens" (by simp) (by simp)]

@[simp] theorem valueUsage_rewrite (upstream : UpstreamProvider) (v : Value) (modelName : String) :
    valueUsage (upstream.rewrite v modelName) = valueUsage v := by
  have hinject : valueUsage (injectDefaultShadow v modelName) = valueUsage v :=
    valueUsage_congr (get_injectDefaultShadow modelName (by simp) (by simp))
      (get_injectDefaultShadow modelName (by simp) (by simp))
  cases upstream with
  | openAICompat _ => exact hinject
  | ollama _ => exact (valueUsage_renameReasoningKey _).trans hinject
  | llamacpp _ =>
    exact (valueUsage_congr (get_removeTimings (by simp)) (get_removeTimings (by simp))).trans
      hinject

end Rewrite

def TerminatedEvents (b : Bytes) : Prop :=
  ∃ events : List Bytes, b = events.flatten ∧
    ∀ event ∈ events, doubleNewline <:+ event ∨ doubleCrlf <:+ event

section Terminated

variable {b rest pat : Bytes}

theorem TerminatedEvents.ends (h : TerminatedEvents b) :
    b = [] ∨ doubleNewline <:+ b ∨ doubleCrlf <:+ b := by
  obtain ⟨events,rfl,hevents⟩ := h
  induction events using List.reverseRecOn with
  | nil => exact .inl rfl
  | append_singleton events event _ =>
    have hlast : event <:+ (events ++ [event]).flatten := ⟨events.flatten,by simp⟩
    rcases hevents event (by simp) with h | h
    · exact .inr (.inl (h.trans hlast))
    · exact .inr (.inr (h.trans hlast))

/-- An end of the bytes without the boundary they end with is part of that boundary. -/
theorem suffix_boundary (hend : pat <:+ b) (hrest : rest <:+ b) (hat : ∀ j, ¬At pat rest j) :
    rest <:+ pat := by
  rcases List.suffix_or_suffix_of_suffix hend hrest with h | h
  · obtain ⟨front,hfront⟩ := h
    refine absurd ?_ (hat front.length)
    rw [← hfront]
    simp [At]
  · exact h

theorem TerminatedEvents.payloads_rest (h : TerminatedEvents b) (hrest : rest <:+ b)
    (hnone : boundary rest = none) : payloads rest = [] := by
  have hlf : ∀ s ∈ doubleNewline.tails, payloads s = [] := by decide +kernel
  have hcrlf : ∀ s ∈ doubleCrlf.tails, payloads s = [] := by decide +kernel
  have hat := boundary_eq_none.mp hnone
  rcases h.ends with rfl | hend | hend
  · rw [List.suffix_nil.mp hrest]
    simp [payloads]
  · exact hlf _ ((List.mem_tails _ _).mpr (suffix_boundary hend hrest fun j => (hat j).2))
  · exact hcrlf _ ((List.mem_tails _ _).mpr (suffix_boundary hend hrest fun j => (hat j).1))

end Terminated

namespace Relay

/-- The token counts logged for a stream of whole events that was read to its end. -/
theorem usage_at_eof {json : SerdeJson} {settings : SseSettings} {upstream : UpstreamProvider}
    {modelName : String} {event : ProxyEvent} {start now : Instant} {script : List Inner}
    {ops : List Op} {w : Relay} (hutf8 : validUtf8 (chunks script).flatten = true)
    (hterm : TerminatedEvents (chunks script).flatten) (hrun : exec (step json)
      (Relay.start (openStream settings upstream modelName event start now script)) ops = some w)
    (heof : w.stream.ended = some .eof) :
    ∃ e, w.stream.logged = [e] ∧
      e.usage = loggedUsage event.usage (lastUsage json (payloads (chunks script).flatten)) := by
  obtain ⟨e,hlogged,husage,-⟩ := logged_at_eof hutf8 hrun heof
  have hall := bytes_at_eof hrun heof
  have hrest : payloads w.stream.flushed = [] :=
    hterm.payloads_rest ⟨_,hall.symm⟩ ((drained_run hrun).eof heof).2
  have hlines := (steady_run hrun).lines
  have hwhole := payloads_pieces hlines w.stream.flushed
  have htaken := payloads_pieces hlines []
  rw [hrest,List.append_nil,← hall] at hwhole
  simp only [List.append_nil,payloads,lines_nil,List.filterMap_nil] at htaken
  refine ⟨e,hlogged,?_⟩
  rw [husage,hwhole]
  simp only [payloads,htaken]

end Relay

namespace SseTransformStream

theorem pollNext_not_dropped {s : SseTransformStream} (h : s.ended ≠ some .dropped)
    (json : SerdeJson) (now : Instant) (cancelled : Bool) :
    (s.pollNext json now cancelled).2.ended ≠ some .dropped := by
  have hfinalize : ∀ (s : SseTransformStream) (why : Ending), why ≠ .dropped →
      (s.finalizeStream json why now).2.ended ≠ some .dropped := by
    intro s why hwhy
    rw [(finalizeStream_closed s json why now).1]
    simpa using hwhy
  have hrules : PollRules json now cancelled (fun s => s.ended ≠ some .dropped)
      (fun s => s.ended ≠ some .dropped) fun answer => answer.2.ended ≠ some .dropped :=
    { split := fun _ _ h _ => h
      force := fun _ _ h _ _ _ => h
      oversize := fun _ _ _ _ _ _ => by simp [failStream,finalizeLog]
      search := fun _ h _ _ => h
      shutdown := fun s _ _ => hfinalize s .shutdown (by simp)
      eof := fun s _ _ => hfinalize s .eof (by simp)
      pending := fun _ _ h _ => h
      error := fun _ _ _ _ _ => by simp
      capped := fun _ _ _ _ _ _ _ => by simp [failStream,finalizeLog]
      feed := fun _ _ _ h _ _ => h }
  exact hrules.poll (fun _ => h) (fun _ => h) fun _ msg => hfinalize _ .timeout (by simp)

end SseTransformStream

def Stage.ended : Stage → Option Ending
  | .streaming stream => stream.ended
  | _ => none

namespace ProxiedRequest

section Paths

variable {x : Exchange} {w : ProxiedRequest} {s t : SseTransformStream}
  {logged : List ProxyEvent} {ops : List Op}

theorem exec_closed (hrun : exec (step x) ⟨.closed,logged⟩ ops = some w) : ops = [] := by
  cases ops with
  | nil => rfl
  | cons op ops =>
    obtain ⟨t,hst,-⟩ := Option.bind_eq_some_iff.mp hrun
    cases op <;> cases hst

theorem streaming_run (hrun : exec (step x) ⟨.streaming s,logged⟩ ops = some w)
    (hstage : w.stage = .streaming t) (hlive : s.ended ≠ some .dropped) (received : List Bytes) :
    w.logged = logged ∧ ∃ polls received',
      exec (Relay.step x.json) ⟨s,received⟩ polls = some ⟨t,received'⟩ := by
  induction ops generalizing s received with
  | nil =>
    obtain rfl := Option.some.inj hrun
    obtain rfl := Stage.streaming.inj hstage
    exact ⟨rfl,[],received,rfl⟩
  | cons op ops ih =>
    obtain ⟨u,hst,hrest⟩ := Option.bind_eq_some_iff.mp hrun
    cases op with
    | poll now cancelled =>
      obtain rfl := Option.some.inj hst
      have hlive' := pollNext_not_dropped hlive x.json now cancelled
      obtain ⟨hlogged,polls,received',hpolls⟩ := ih hrest hlive'
        (received ++ (s.pollNext x.json now cancelled).1.bytes)
      refine ⟨hlogged,.poll now cancelled::polls,received',?_⟩
      have hfirst : Relay.step x.json ⟨s,received⟩ (.poll now cancelled) =
          some ⟨(s.pollNext x.json now cancelled).2,
            received ++ (s.pollNext x.json now cancelled).1.bytes⟩ := by
        simp [Relay.step,hlive]
      rw [exec,hfirst]
      exact hpolls
    | drop now =>
      obtain rfl := Option.some.inj hst
      obtain rfl := exec_closed hrest
      obtain rfl := Option.some.inj hrest
      cases hstage
    | _ => cases hst

theorem errorBody_run {guard : ProxyLogGuard} {status : ℕ}
    (hrun : exec (step x) ⟨.errorBody guard status,logged⟩ ops = some w) :
    w.stage ≠ .streaming t := by
  cases ops with
  | nil =>
    obtain rfl := Option.some.inj hrun
    simp
  | cons op ops =>
    obtain ⟨u,hst,hrest⟩ := Option.bind_eq_some_iff.mp hrun
    have hclosed : u.stage = .closed := by
      cases op with
      | text body now =>
        obtain rfl := Option.some.inj hst
        cases body <;> rfl
      | drop now =>
        obtain rfl := Option.some.inj hst
        rfl
      | _ => cases hst
    obtain ⟨stage,logged'⟩ := u
    obtain rfl : stage = .closed := hclosed
    obtain rfl := exec_closed hrest
    obtain rfl := Option.some.inj hrest
    simp

theorem streamed_run {seeded : Option ℤ} {status : ℕ} {script : List Inner} {now : Instant}
    (hrun : exec (step x) (begin x true seeded) (.execute (.response status script) now::ops) = some w)
    (hstage : w.stage = .streaming t) :
    w.logged = [] ∧ ∃ polls received, exec (Relay.step x.json)
      (Relay.start (openStream x.settings x.upstream x.modelName (pendingEvent seeded "200") x.start
        now script)) polls = some ⟨t,received⟩ := by
  obtain ⟨u,hst,hrest⟩ := Option.bind_eq_some_iff.mp hrun
  obtain rfl := Option.some.inj hst
  unfold streamedAnswer at hrest
  dsimp only at hrest
  split at hrest
  · obtain rfl := exec_closed hrest
    obtain rfl := Option.some.inj hrest
    cases hstage
  · split at hrest
    · exact streaming_run hrest hstage (by simp [openStream]) []
    · exact absurd hstage (errorBody_run hrest)

theorem reads_run {guard : ProxyLogGuard} {status ttfb : ℕ} {body : Bytes}
    {reads : List (Bytes × Instant)} {finished : Instant}
    (hrun : exec (step x) ⟨.plainBody guard status ttfb body,logged⟩
      (reads.map (fun r => .read (.chunk r.1) r.2) ++ [.read .finished finished]) = some w) :
    w = plainRead x guard status ttfb (body ++ (reads.map Prod.fst).flatten) logged finished
      .finished := by
  induction reads generalizing body with
  | nil =>
    obtain rfl := Option.some.inj hrun
    simp
  | cons r reads ih =>
    obtain ⟨u,hst,hrest⟩ := Option.bind_eq_some_iff.mp hrun
    obtain rfl := Option.some.inj hst
    unfold plainRead at hrest
    dsimp only at hrest
    split at hrest
    · have hnone := exec_closed hrest
      simp at hnone
    · simpa [List.append_assoc] using ih hrest

theorem plain_run {seeded : Option ℤ} {status : ℕ} {script : List Inner} {now : Instant}
    {reads : List (Bytes × Instant)} {finished : Instant} (hsuccess : isSuccess status = true)
    (hrun : exec (step x) (begin x false seeded)
      (.execute (.response status script) now::
        (reads.map (fun r => .read (.chunk r.1) r.2) ++ [.read .finished finished])) = some w) :
    ∃ e, w.events = [e] ∧ e.usage = loggedUsage (pendingEvent seeded "pending").usage
      (some (plainResponse x (reads.map Prod.fst).flatten).2.1) := by
  obtain ⟨u,hst,hrest⟩ := Option.bind_eq_some_iff.mp hrun
  obtain rfl := Option.some.inj hst
  have hredirect : isRedirection status = false := by
    simp only [isSuccess,Bool.and_eq_true,decide_eq_true_eq] at hsuccess
    simp only [isRedirection,Bool.and_eq_false_iff,decide_eq_false_iff_not]
    omega
  simp only [plainAnswer,hredirect,Bool.false_eq_true,if_false] at hrest
  rw [reads_run hrest]
  simp only [plainRead,hsuccess,if_true,List.nil_append]
  exact ⟨_,rfl,rfl⟩

end Paths

/-- A stream of whole events whose last payload with usage is the value `R` is logged with the
token counts of a response whose body is `R`. -/
theorem usage_agrees (x : Exchange) (seeded : Option ℤ) (R : Value)
    (hwritten : (x.json.toVec (x.upstream.rewrite R x.modelName)).bind x.json.fromSlice =
      some (x.upstream.rewrite R x.modelName))
    (status : ℕ) (script : List Inner) (now : Instant) (ops : List Op) (w : ProxiedRequest)
    (stream : SseTransformStream)
    (hrun : exec (step x) (begin x true seeded) (.execute (.response status script) now::ops) =
      some w)
    (hstage : w.stage = .streaming stream) (heof : stream.ended = some .eof)
    (hutf8 : validUtf8 (chunks script).flatten = true)
    (hterm : TerminatedEvents (chunks script).flatten) (payload : Bytes)
    (hlast : lastPayload x.json (payloads (chunks script).flatten) = some payload)
    (hpayload : x.json.fromSlice payload = some R)
    (status' : ℕ) (script' : List Inner) (now' : Instant) (reads : List (Bytes × Instant))
    (finished : Instant) (w' : ProxiedRequest) (hsuccess : isSuccess status' = true)
    (hrun' : exec (step x) (begin x false seeded)
      (.execute (.response status' script') now'::
        (reads.map (fun r => .read (.chunk r.1) r.2) ++ [.read .finished finished])) = some w')
    (hbody : x.json.fromSlice (reads.map Prod.fst).flatten = some R) :
    ∃ e e', w.events = [e] ∧ w'.events = [e'] ∧ e.usage = e'.usage := by
  obtain ⟨hnone,polls,received,hpolls⟩ := streamed_run hrun hstage
  obtain ⟨e,hlogged,husage⟩ := Relay.usage_at_eof hutf8 hterm hpolls heof
  obtain ⟨e',hevents',husage'⟩ := plain_run hsuccess hrun'
  refine ⟨e,e',?_,hevents',?_⟩
  · simp only [events,hstage,hnone,List.nil_append]
    exact hlogged
  -- the payload is parsed as it came, the body as it was written again
  have hstreamed : lastUsage x.json (payloads (chunks script).flatten) = some (valueUsage R) := by
    simp [lastUsage,hlast,parseUsage_eq hpayload]
  have hplain : (plainResponse x (reads.map Prod.fst).flatten).2.1 = valueUsage R := by
    obtain ⟨b,hb,hread⟩ := Option.bind_eq_some_iff.mp hwritten
    simp only [plainResponse,UpstreamProvider.transformResponse,hbody,hb,Option.getD_some]
    rw [parseUsage_eq hread,valueUsage_rewrite]
  rw [husage,hstreamed,husage',hplain]
  rfl

/-- Usage in an event, and in a body that comes in two chunks. -/
theorem usage_agrees_counted :
    let x : Exchange := ⟨usageJson,⟨60,0,0⟩,demoUpstream,"ai",0⟩
    let script := [.chunk (utf8 "data: " ++ usageText ++ utf8 "\n\n")]
    let ops := [.execute (.response 200 script) 1,.poll 2 false,.poll 3 false]
    let ops' := [.execute (.response 200 []) 1,.read (.chunk (usageText.take 9)) 2,
      .read (.chunk (usageText.drop 9)) 3,.read .finished 4]
    ∃ w w', exec (step x) (begin x true (some 7)) ops = some w ∧
      exec (step x) (begin x false (some 7)) ops' = some w' ∧
      ∃ e e', w.events = [e] ∧ w'.events = [e'] ∧ e.usage = e'.usage := by
  intro x script ops ops'
  have hview : (exec (step x) (begin x true (some 7)) ops).bind (fun w => w.stage.ended) =
      some .eof := by decide +kernel
  obtain ⟨w,hrun,hw⟩ := Option.bind_eq_some_iff.mp hview
  obtain ⟨stream,hstage,heof⟩ : ∃ stream, w.stage = .streaming stream ∧
      stream.ended = some .eof := by
    unfold Stage.ended at hw
    split at hw
    · rename_i stream hstage
      exact ⟨stream,hstage,hw⟩
    · cases hw
  have hview' : (exec (step x) (begin x false (some 7)) ops').isSome = true := by decide +kernel
  obtain ⟨w',hrun'⟩ := Option.isSome_iff_exists.mp hview'
  have hread : usageJson.fromSlice usageText = some usageValue := by simp [usageJson]
  have hsent : usageJson.fromSlice sentUsageText = some sentUsageValue := by
    have hne : sentUsageText ≠ usageText := by decide +kernel
    simp [usageJson,hne]
  have hrewrite : x.upstream.rewrite usageValue x.modelName = sentUsageValue := by
    have h1 : "model" < "usage" := by decide +kernel
    have h2 : "system_fingerprint" < "usage" := by decide +kernel
    have h3 : ¬"system_fingerprint" < "model" := by decide +kernel
    change injectDefaultShadow usageValue "ai" = sentUsageValue
    simp [usageValue,sentUsageValue,injectDefaultShadow,Fields.insert,h1,h2,h3]
  have hbytes : usageText.take 9 ++ usageText.drop 9 = usageText := List.take_append_drop 9 _
  refine ⟨w,w',hrun,hrun',usage_agrees x (some 7) usageValue ?_ 200 script 1
    [.poll 2 false,.poll 3 false] w stream hrun hstage heof (by decide +kernel) ?_ usageText
    (by decide +kernel) hread 200 [] 1 [(usageText.take 9,2),(usageText.drop 9,3)] 4 w' rfl hrun' ?_⟩
  · rw [hrewrite]
    exact hsent
  · have hend : doubleNewline <:+ utf8 "data: " ++ usageText ++ utf8 "\n\n" :=
      ⟨utf8 "data: " ++ usageText,by decide +kernel⟩
    exact ⟨[utf8 "data: " ++ usageText ++ utf8 "\n\n"],by simp [script,chunks],
      fun event hmem => .inl (List.mem_singleton.mp hmem ▸ hend)⟩
  · simpa [hbytes] using hread

end ProxiedRequest
end Ait
