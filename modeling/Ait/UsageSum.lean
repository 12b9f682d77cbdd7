import Ait.UsageFallbacks
import Ait.LogTable

/-!
# The sum of the token counts

A total that upstream does not report is added up from the two counts. A debug build checks the
addition and panics, a release build wraps. Both do what they should exactly for counts whose sum
fits.
-/

namespace Ait
open Transition SseTransformStream

/-- The build profiles; `dev` sets `overflow-checks`. -/
inductive BuildProfile
  | dev
  | release
  deriving DecidableEq

/-- `a + b` at `i64`; `none` is the panic of a checked addition. -/
def BuildProfile.add (profile : BuildProfile) (a b : ℤ) : Option ℤ :=
  match profile with
  | .dev => getI64 (a+b)
  | .release => some (wrappingAdd a b)

def BuildProfile.total (profile : BuildProfile) : Option ℤ → Option ℤ → Option ℤ →
    Option (Option ℤ) :=
  totalWith profile.add

def parseUsageIn (profile : BuildProfile) : SerdeJson → Bytes → Option UsageTokens :=
  parseUsageWith profile.add

def transformEventIn (profile : BuildProfile) : SerdeJson → UpstreamProvider → String →
    Option UsageTokens → Bytes → Option (Bytes × Option UsageTokens) :=
  transformEventWith profile.add

/-- A step of a stream in a build: the poll that takes an event off the buffer panics where its
transformation does. -/
def Relay.stepIn (profile : BuildProfile) (json : SerdeJson) (w : Relay) (op : Op) : Option Relay :=
  (step json w op).bind fun t =>
    if (t.stream.taken.drop w.stream.taken.length).all fun event =>
        (transformEventIn profile json w.stream.upstream w.stream.modelName w.stream.userTokens
          event).isSome
    then some t else none

def reportedTotal (json : SerdeJson) (body : Bytes) : Option ℤ :=
  (json.fromSlice body).bind fun v => v.firstUsage.bind fun u => u.count ["total_tokens"]

def exactSum : Option ℤ → Option ℤ → Option ℤ
  | some prompt,some completion => getI64 (prompt+completion)
  | _,_ => none

def UsageTokens.exactTotal (tokens : UsageTokens) (reported : Option ℤ) : Option ℤ :=
  reported.or (exactSum tokens.promptTokens tokens.completionTokens)

/-- `parse_usage` returns, and its total is exact. -/
def UsageExact (profile : BuildProfile) (json : SerdeJson) (body : Bytes) : Prop :=
  ∃ tokens, parseUsageIn profile json body = some tokens ∧
    tokens.totalTokens = tokens.exactTotal (reportedTotal json body)

def Value.promptCount (u : Value) : Option ℤ :=
  (u.count ["prompt_tokens"]).or (u.count ["input_tokens"])

def Value.completionCount (u : Value) : Option ℤ :=
  (u.count ["completion_tokens"]).or (u.count ["output_tokens"])

/-- A payload that gives both counts and no total gives counts whose sum fits. -/
def SumFits (json : SerdeJson) (body : Bytes) : Prop :=
  ∀ v u, json.fromSlice body = some v → v.firstUsage = some u → u.count ["total_tokens"] = none →
    ∀ prompt completion, u.promptCount = some prompt → u.completionCount = some completion →
      FitsI64 (prompt+completion)

section Sum

variable {json : SerdeJson} {body : Bytes}

@[simp] theorem wrappingAdd_of_fits {a b : ℤ} (h : FitsI64 (a+b)) : wrappingAdd a b = a+b := by
  obtain ⟨hlo,hhi⟩ := h
  exact Int.bmod_eq_of_le (by omega) (by omega)

@[simp] theorem BuildProfile.total_fits (profile : BuildProfile)
    {reported prompt completion : Option ℤ}
    (h : reported = none → ∀ a b, prompt = some a → completion = some b → FitsI64 (a+b)) :
    profile.total reported prompt completion = some (reported.or (exactSum prompt completion)) := by
  cases reported with
  | some total => rfl
  | none =>
    cases prompt with
    | none => rfl
    | some a =>
      cases completion with
      | none => rfl
      | some b =>
        have hfits := h rfl a b rfl rfl
        cases profile with
        | dev => simp [total,totalWith,add,exactSum,getI64_of_fits hfits]
        | release =>
          simp [total,totalWith,add,exactSum,getI64_of_fits hfits,wrappingAdd_of_fits hfits]

theorem BuildProfile.total_overflows {a b : ℤ} (h : ¬FitsI64 (a+b)) :
    dev.total none (some a) (some b) = none ∧
      release.total none (some a) (some b) = some (some (wrappingAdd a b)) ∧
      getI64 (a+b) = none := by
  have hnone : getI64 (a+b) = none := if_neg h
  exact ⟨by simp [total,totalWith,add,hnone],rfl,hnone⟩

theorem reportedTotal_eq {v : Value} (hbody : json.fromSlice body = some v) :
    reportedTotal json body =
      ((v.get "usage").or ((v.get "response").bind fun r => r.get "usage")).bind
        fun u => (u.get "total_tokens").bind Value.asI64 := by
  simp only [reportedTotal,hbody,Option.bind_some,firstUsage_eq,Value.count_cons]
  rfl

theorem parseUsageIn_eq (profile : BuildProfile) (json : SerdeJson) (body : Bytes) :
    parseUsageIn profile json body =
      (profile.total (reportedTotal json body) (parseUsage json body).promptTokens
        (parseUsage json body).completionTokens).map fun total =>
          { parseUsage json body with totalTokens := total } := by
  cases hbody : json.fromSlice body with
  | none =>
    simp [parseUsageIn,parseUsage,parseUsageWith,hbody,reportedTotal,BuildProfile.total,totalWith]
  | some v =>
    simp only [parseUsageIn,parseUsage,parseUsageWith,Id.run_bind,Id.run_pure,hbody,
      reportedTotal_eq hbody,Option.map_eq_bind]
    rfl

@[simp] theorem BuildProfile.total_release (reported prompt completion : Option ℤ) :
    release.total reported prompt completion =
      some (totalWith releaseAdd reported prompt completion).run := by
  cases reported with
  | some total => rfl
  | none => cases prompt <;> cases completion <;> rfl

/-- `parseUsage` is what a release build does. -/
@[simp] theorem parseUsageIn_release (json : SerdeJson) (body : Bytes) :
    parseUsageIn .release json body = some (parseUsage json body) := by
  rw [parseUsageIn_eq,BuildProfile.total_release,Option.map_some]
  cases hbody : json.fromSlice body with
  | none => simp [parseUsage,parseUsageWith,hbody,reportedTotal]
  | some v =>
    simp only [parseUsage,parseUsageWith,Id.run_bind,Id.run_pure,hbody,reportedTotal_eq hbody]

theorem sumFits_iff (json : SerdeJson) (body : Bytes) :
    SumFits json body ↔ (reportedTotal json body = none → ∀ a b,
      (parseUsage json body).promptTokens = some a →
        (parseUsage json body).completionTokens = some b → FitsI64 (a+b)) := by
  cases hbody : json.fromSlice body with
  | none => simp [SumFits,parseUsage,parseUsageWith,hbody]
  | some v =>
    rw [parseUsage_eq hbody]
    cases husage : v.firstUsage with
    | none =>
      have hprompt := field_of_none husage .promptTokens
      simp only [UsageTokens.field] at hprompt
      have hfits : SumFits json body := by
        intro v' u hv hu
        obtain rfl := Option.some.inj (hbody.symm.trans hv)
        rw [husage] at hu
        cases hu
      simp [hfits,hprompt]
    | some u =>
      obtain ⟨hprompt,hcompletion,-⟩ := valueUsage_of_some husage
      have hreported : reportedTotal json body = u.count ["total_tokens"] := by
        simp [reportedTotal,hbody,husage]
      rw [hprompt,hcompletion,hreported]
      constructor
      · intro h
        exact h v u hbody husage
      · intro h v' u' hv hu
        obtain rfl := Option.some.inj (hbody.symm.trans hv)
        obtain rfl := Option.some.inj (husage.symm.trans hu)
        exact h

theorem usageExact_iff (profile : BuildProfile) (json : SerdeJson) (body : Bytes) :
    UsageExact profile json body ↔ SumFits json body := by
  rw [sumFits_iff]
  constructor
  · rintro ⟨tokens,htokens,hexact⟩ hreported a b hprompt hcompletion
    by_contra hfits
    rw [parseUsageIn_eq,hreported,hprompt,hcompletion] at htokens
    obtain ⟨hdev,hrelease,hnone⟩ := BuildProfile.total_overflows hfits
    cases profile with
    | dev => simp [hdev] at htokens
    | release =>
      rw [hrelease] at htokens
      obtain rfl := Option.some.inj htokens
      simp [UsageTokens.exactTotal,exactSum,hreported,hprompt,hcompletion,hnone] at hexact
  · intro hfits
    exact ⟨_,by rw [parseUsageIn_eq,profile.total_fits hfits,Option.map_some],rfl⟩

end Sum

def extracted (pieces : List Bytes) : List Bytes := (pieces.filter validUtf8).flatMap payloads

section Streams

variable {profile : BuildProfile} {json : SerdeJson} {upstream : UpstreamProvider}
  {modelName : String}

theorem isSome_parseUsageIn (profile : BuildProfile) (json : SerdeJson) (body : Bytes) :
    (parseUsageIn profile json body).isSome = true ↔ profile = .release ∨ SumFits json body := by
  cases profile with
  | release => simp [parseUsageIn_release]
  | dev =>
    constructor
    · intro hsome
      right
      rw [sumFits_iff]
      intro hreported a b hprompt hcompletion
      by_contra hfits
      rw [parseUsageIn_eq,hreported,hprompt,hcompletion,(BuildProfile.total_overflows hfits).1] at hsome
      cases hsome
    · rintro (hrelease | hfits)
      · cases hrelease
      · obtain ⟨tokens,htokens,-⟩ := (usageExact_iff .dev json body).mpr hfits
        rw [htokens]
        rfl

theorem isSome_foldlM_transformLine (ls : List Bytes) (acc : Bytes × Option UsageTokens) :
    (ls.foldlM (transformLineWith profile.add json upstream modelName) acc).isSome = true ↔
      ∀ payload ∈ ls.filterMap dataPayload, (parseUsageIn profile json payload).isSome = true := by
  induction ls generalizing acc with
  | nil => simp
  | cons line ls ih =>
    rw [List.foldlM_cons]
    cases hp : dataPayload line with
    | none =>
      obtain ⟨acc',hacc⟩ : ∃ acc', transformLineWith profile.add json upstream modelName acc line =
          some acc' := by
        simp only [transformLineWith,hp]
        split
        · exact ⟨_,rfl⟩
        · exact ⟨_,rfl⟩
      simp [hacc,ih,hp]
    | some payload =>
      have hparse : parseUsageWith profile.add json payload = parseUsageIn profile json payload := rfl
      cases htokens : parseUsageIn profile json payload with
      | none => simp [transformLineWith,hp,extractUsageWith,hparse,htokens]
      | some tokens => simp [transformLineWith,hp,extractUsageWith,hparse,htokens,ih]

theorem isSome_transformEventIn (userTokens : Option UsageTokens) (event : Bytes) :
    (transformEventIn profile json upstream modelName userTokens event).isSome = true ↔
      profile = .release ∨ ∀ payload ∈ extracted [event], SumFits json payload := by
  by_cases hutf8 : validUtf8 event = true
  · have hpayloads : extracted [event] = (lines event).filterMap dataPayload := by
      simp [extracted,hutf8,payloads]
    simp only [transformEventIn,transformEventWith,hutf8,if_true,isSome_foldlM_transformLine,
      isSome_parseUsageIn,hpayloads]
    cases profile <;> simp
  · simp [transformEventIn,transformEventWith,extracted,hutf8]

@[simp] theorem tokensAfter_extracted (pieces : List Bytes) :
    tokensAfter json upstream modelName pieces = lastUsage json (extracted pieces) := by
  have hfilter : ∀ tokens, pieces.foldl
      (fun tokens piece => (transformEvent json upstream modelName tokens piece).2) tokens =
      (pieces.filter validUtf8).foldl
        (fun tokens piece => (transformEvent json upstream modelName tokens piece).2) tokens := by
    induction pieces with
    | nil => exact fun _ => rfl
    | cons piece pieces ih =>
      intro tokens
      by_cases hutf8 : validUtf8 piece = true
      · simpa [hutf8] using ih _
      · have hkept : (transformEvent json upstream modelName tokens piece).2 = tokens := by
          simp [transformEvent_eq,hutf8]
        simpa [hutf8,hkept] using ih tokens
  have hvalid : ∀ piece ∈ pieces.filter validUtf8, validUtf8 piece = true :=
    fun piece hmem => (List.mem_filter.mp hmem).2
  rw [extracted,← tokensAfter_eq hvalid]
  exact hfilter none

@[simp] theorem extracted_append (pieces more : List Bytes) :
    extracted (pieces ++ more) = extracted pieces ++ extracted more := by
  simp [extracted]

theorem pollNext_taken (s : SseTransformStream) (json : SerdeJson) (now : Instant)
    (cancelled : Bool) : s.taken <+: (s.pollNext json now cancelled).2.taken := by
  have hfinalize : ∀ (t : SseTransformStream) (why : Ending),
      (t.finalizeStream json why now).2.taken = t.taken := by
    intro t why
    unfold finalizeStream
    dsimp only
    split <;> rfl
  have hrules : PollRules json now cancelled (fun t => t.taken = s.taken)
      (fun t => t.taken = s.taken) fun answer => s.taken <+: answer.2.taken :=
    { split := fun t n h _ => ⟨[t.buf.take n],by rw [← h]; rfl⟩
      force := fun t i h _ _ _ => ⟨[t.buf.take (i+1)],by rw [← h]; rfl⟩
      oversize := fun t msg h _ _ _ => by rw [← h]; exact List.prefix_rfl
      search := fun t h _ _ => h
      shutdown := fun t h _ => by rw [hfinalize,h]
      eof := fun t h _ => by rw [hfinalize,h]
      pending := fun t rest h _ => by rw [← h]
      error := fun t rest e h _ => by rw [← h]; exact List.prefix_rfl
      capped := fun t rest bytes msg h _ _ => by rw [← h]; exact List.prefix_rfl
      feed := fun t rest bytes h _ _ => h }
  refine hrules.poll (fun _ => List.prefix_rfl) (fun _ => rfl) fun _ msg => ?_
  exact (hfinalize _ _).symm ▸ List.prefix_rfl

theorem step_taken {w t : Relay} {op : Relay.Op} (h : Relay.step json w op = some t) :
    w.stream.taken <+: t.stream.taken := by
  obtain ⟨-,⟨now,cancelled,-,hstream,-⟩ | ⟨now,-,rfl⟩⟩ := Relay.step_cases h
  · rw [hstream]
    exact pollNext_taken w.stream json now cancelled
  · simp

theorem exec_taken {w t : Relay} {ops : List Relay.Op} (h : exec (Relay.step json) w ops = some t) :
    w.stream.taken <+: t.stream.taken :=
  exec_preserves (fun _ _ _ hstep hprefix => List.IsPrefix.trans hprefix (step_taken hstep)) h
    (List.prefix_refl w.stream.taken)

/-- In a build the run goes on where it does in a release build and no payload panics. -/
def Survives (profile : BuildProfile) (json : SerdeJson) (w t : Relay) : Prop :=
  profile = .release ∨
    ∀ payload ∈ extracted (t.stream.taken.drop w.stream.taken.length), SumFits json payload

@[simp] theorem stepIn_eq_some {w t : Relay} {op : Relay.Op} :
    Relay.stepIn profile json w op = some t ↔
      Relay.step json w op = some t ∧ Survives profile json w t := by
  have hevents : ∀ events : List Bytes,
      (events.all fun event => (transformEventIn profile json w.stream.upstream w.stream.modelName
        w.stream.userTokens event).isSome) = true ↔
        profile = .release ∨ ∀ payload ∈ extracted events, SumFits json payload := by
    intro events
    induction events with
    | nil => simp [extracted]
    | cons event events ih =>
      rw [List.all_cons,Bool.and_eq_true,ih,isSome_transformEventIn]
      have happend := extracted_append [event] events
      rw [List.singleton_append] at happend
      rw [happend,List.forall_mem_append]
      tauto
  unfold Relay.stepIn Survives
  rw [Option.bind_eq_some_iff]
  constructor
  · rintro ⟨u,hstep,hu⟩
    rw [Option.ite_none_right_eq_some,Option.some.injEq] at hu
    obtain ⟨hall,rfl⟩ := hu
    exact ⟨hstep,(hevents _).mp hall⟩
  · rintro ⟨hstep,hsurvives⟩
    exact ⟨t,hstep,if_pos ((hevents _).mpr hsurvives)⟩

@[simp] theorem exec_stepIn {w t : Relay} {ops : List Relay.Op} :
    exec (Relay.stepIn profile json) w ops = some t ↔
      exec (Relay.step json) w ops = some t ∧ Survives profile json w t := by
  induction ops generalizing w with
  | nil =>
    simp only [exec,Option.some.injEq]
    constructor
    · rintro rfl
      exact ⟨rfl,.inr (by simp [extracted])⟩
    · exact fun h => h.1
  | cons op ops ih =>
    -- what the run takes is what its first step takes and what the rest takes
    have hsplit : ∀ u, Relay.step json w op = some u → exec (Relay.step json) u ops = some t →
        (Survives profile json w u ∧ Survives profile json u t ↔ Survives profile json w t) := by
      intro u hstep hrest
      obtain ⟨first,hfirst⟩ := step_taken hstep
      obtain ⟨second,hsecond⟩ := exec_taken hrest
      have hone : u.stream.taken.drop w.stream.taken.length = first := by
        rw [← hfirst,List.drop_left]
      have htwo : t.stream.taken.drop u.stream.taken.length = second := by
        rw [← hsecond,List.drop_left]
      have hboth : t.stream.taken.drop w.stream.taken.length = first ++ second := by
        rw [← hsecond,← hfirst,List.append_assoc,List.drop_left]
      simp only [Survives,hone,htwo,hboth,extracted_append,List.forall_mem_append]
      tauto
    simp only [exec,Option.bind_eq_some_iff,stepIn_eq_some,ih]
    constructor
    · rintro ⟨u,⟨hstep,hfirst⟩,hrest,hsecond⟩
      exact ⟨⟨u,hstep,hrest⟩,(hsplit u hstep hrest).mp ⟨hfirst,hsecond⟩⟩
    · rintro ⟨⟨u,hstep,hrest⟩,hsurvives⟩
      obtain ⟨hfirst,hsecond⟩ := (hsplit u hstep hrest).mpr hsurvives
      exact ⟨u,⟨hstep,hfirst⟩,hrest,hsecond⟩

end Streams

/-- A stream in a build goes as far as its payloads do not panic; its event has the total of the
last payload that reports usage, and that is exact exactly if the payload's sum fits. -/
def StreamSums (profile : BuildProfile) (json : SerdeJson) : Prop :=
  ∀ (settings : SseSettings) (upstream : UpstreamProvider) (modelName : String)
    (event : ProxyEvent) (start now : Instant) (script : List Inner) (ops : List Relay.Op)
    (w : Relay),
    let stream := openStream settings upstream modelName event start now script
    exec (Relay.step json) (.start stream) ops = some w →
      (exec (Relay.stepIn profile json) (.start stream) ops = some w ↔
        profile = .release ∨ ∀ payload ∈ extracted w.stream.taken, SumFits json payload) ∧
      (w.stream.ended ≠ none → ∃ e, w.stream.logged = [e] ∧
        e.usage = loggedUsage event.usage (lastUsage json (extracted w.stream.taken)) ∧
        ∀ payload, lastPayload json (extracted w.stream.taken) = some payload →
          (∀ tokens, parseUsageIn profile json payload = some tokens →
            e.totalTokens = tokens.totalTokens) ∧
          (e.totalTokens = (parseUsage json payload).exactTotal (reportedTotal json payload) ↔
            SumFits json payload))

def PlainSums (profile : BuildProfile) (x : Exchange) : Prop :=
  ∀ (seeded : Option ℤ) (status : ℕ) (script : List Inner) (now : Instant)
    (reads : List (Bytes × Instant)) (finished : Instant) (w : ProxiedRequest),
    isSuccess status = true →
      exec (ProxiedRequest.step x) (.begin x false seeded)
        (.execute (.response status script) now::
          (reads.map (fun r => .read (.chunk r.1) r.2) ++ [.read .finished finished])) = some w →
      let body := x.upstream.transformResponse x.json (reads.map Prod.fst).flatten x.modelName
      ∃ e, w.events = [e] ∧
        (∀ tokens, parseUsageIn profile x.json body = some tokens →
          e.totalTokens = tokens.totalTokens) ∧
        (e.totalTokens = (parseUsage x.json body).exactTotal (reportedTotal x.json body) ↔
          SumFits x.json body)

section Logged

variable {profile : BuildProfile} {json : SerdeJson} {body : Bytes}

theorem totalTokens_exact_iff (json : SerdeJson) (body : Bytes) :
    (parseUsage json body).totalTokens =
      (parseUsage json body).exactTotal (reportedTotal json body) ↔ SumFits json body := by
  rw [← usageExact_iff .release json body]
  simp [UsageExact,parseUsageIn_release]

theorem totalTokens_of_returned {tokens : UsageTokens}
    (h : parseUsageIn profile json body = some tokens) : tokens = parseUsage json body := by
  cases profile with
  | release => exact (Option.some.inj (h.symm.trans (parseUsageIn_release json body)))
  | dev =>
    have hsome : (parseUsageIn .dev json body).isSome = true := by rw [h]; rfl
    have hfits : SumFits json body :=
      ((isSome_parseUsageIn .dev json body).mp hsome).resolve_left (by simp)
    have hsame := parseUsageIn_release json body
    rw [parseUsageIn_eq,BuildProfile.total_fits _ ((sumFits_iff json body).mp hfits)] at h hsame
    exact Option.some.inj (h.symm.trans hsame)

theorem streamSums (profile : BuildProfile) (json : SerdeJson) : StreamSums profile json := by
  intro settings upstream modelName event start now script ops w stream hrun
  refine ⟨?_,fun hended => ?_⟩
  · rw [exec_stepIn,and_iff_right hrun]
    rfl
  · have hsettled := Relay.settled_run hrun
    obtain ⟨e,hlogged,husage,-⟩ := hsettled.logged hended
    rw [tokensAfter_extracted] at husage
    refine ⟨e,hlogged,husage,fun payload hlast => ?_⟩
    have htotal : e.totalTokens = (parseUsage json payload).totalTokens := by
      have htokens : e.usage.totalTokens = (parseUsage json payload).totalTokens := by
        rw [husage,lastUsage,hlast]
        rfl
      exact htokens
    refine ⟨fun tokens htokens => ?_,?_⟩
    · rw [htotal,totalTokens_of_returned htokens]
    · rw [htotal]
      exact totalTokens_exact_iff json payload

theorem plainSums (profile : BuildProfile) (x : Exchange) : PlainSums profile x := by
  intro seeded status script now reads finished w hsuccess hrun body
  obtain ⟨e,hevents,husage⟩ := ProxiedRequest.plain_run hsuccess hrun
  have htotal : e.totalTokens = (parseUsage x.json body).totalTokens :=
    congrArg UsageTokens.totalTokens husage
  refine ⟨e,hevents,fun tokens htokens => ?_,?_⟩
  · rw [htotal,totalTokens_of_returned htokens]
  · rw [htotal]
    exact totalTokens_exact_iff x.json body

end Logged

/-- In every build `parse_usage` returns an exact total exactly for payloads whose sum fits, and
the total it returns is the one that is logged. -/
theorem usage_sums_exact (profile : BuildProfile) (x : Exchange) :
    (∀ body, UsageExact profile x.json body ↔ SumFits x.json body) ∧
      StreamSums profile x.json ∧ PlainSums profile x :=
  ⟨usageExact_iff profile x.json,streamSums profile x.json,plainSums profile x⟩

def hugeUsageText : Bytes :=
  utf8 "\x7b\"usage\":\x7b\"prompt_tokens\":9223372036854775807,\"completion_tokens\":1\x7d\x7d"

def hugeUsageValue : Value := .object [("usage",.object
  [("completion_tokens",.number (.integer 1)),("prompt_tokens",.number (.integer (2^63-1)))])]

/-- The largest prompt count and one more token: a checked build panics in the poll that takes the
event, the other logs the least total there is. -/
theorem usage_sum_overflows :
    let json := readOnly hugeUsageText hugeUsageValue
    let start := Relay.start (demoStream [.chunk (utf8 "data: " ++ hugeUsageText ++ utf8 "\n\n")])
    ¬UsageExact .dev json hugeUsageText ∧ ¬UsageExact .release json hugeUsageText ∧
      Relay.stepIn .dev json start (.poll 1 false) = none ∧
      (exec (Relay.stepIn .release json) start [.poll 1 false,.poll 2 false]).map
        (fun w => w.stream.logged.map fun e => e.totalTokens) = some [some (-2^63)] := by
  intro json start
  have hoverflows : ¬SumFits json hugeUsageText := by
    rw [sumFits_iff]
    intro hfits
    have hsum := hfits (by decide +kernel) (2^63-1) 1 (by decide +kernel) (by decide +kernel)
    exact absurd hsum (by decide)
  refine ⟨?_,?_,?_,by decide +kernel⟩
  · rw [usageExact_iff]
    exact hoverflows
  · rw [usageExact_iff]
    exact hoverflows
  · rw [← Option.isNone_iff_eq_none]
    decide +kernel

end Ait
