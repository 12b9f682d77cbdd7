import Ait.Forward

/-!
# The response mode and the forwarded body

The handler decides whether it will read the response as a stream, the provider module
what the upstream is asked for. They agree unless the client asks for a stream where
the configuration turns streams off: nobody takes the client's `stream` out of the body.
-/

namespace Ait

/-- The upstream is asked for what the handler expects, by the model it knows, and everything else
is as the client sent it. -/
structure Dispatch.Faithful (d : Dispatch) (body : Value) : Prop where
  mode : d.request.sent.get "stream" = some (.bool true) ↔ d.streamed = true
  model : d.request.sent.get "model" = some (.string d.model.upstreamModel)
  rest : ∀ key, key ≠ "model" → key ≠ "stream" → key ≠ "stream_options" →
    d.request.sent.get key = body.get key

theorem streamMode_eq_true {settings : ProxySettings} {body : Value} :
    streamMode settings body = true ↔
      body.get "stream" = some (.bool true) ∧ settings.stream = true := by
  unfold streamMode
  cases h : body.get "stream" with
  | none => simp
  | some v => cases v <;> simp [Value.asBool]

section Accepted

variable {o : Outside} {settings : ProxySettings} {dlp : DlpScanner} {s t : AppState} {body : Value}
  {bodyLen : ℕ} {upstreamPath : String} {a : Answers} {d : Dispatch} {logged : List ProxyEvent}

theorem sent_get
    (h : proxyRequest o settings dlp s body bodyLen upstreamPath a = some (.ok d,t,logged)) :
    d.request.sent.get "model" = some (.string d.model.upstreamModel) ∧
      d.request.sent.get "stream" = (if d.streamed then some (.bool true) else body.get "stream") ∧
      ∀ key, key ≠ "model" → key ≠ "stream" → key ≠ "stream_options" →
        d.request.sent.get key = body.get key := by
  obtain ⟨-,modelName,m,rfl,-,-,-,hsent,-⟩ := proxyRequest_ok h
  rw [hsent]
  refine ⟨model_finalFields m,stream_finalFields m,?_⟩
  intro key hmodel hstream hoptions
  exact get_finalFields m hmodel hstream hoptions

end Accepted

/-- A request that is sent upstream carries the model its name was resolved to, and it agrees with
the response mode unless the client asked for a stream while streams are configured off. -/
theorem Dispatch.faithful_iff (o : Outside) (settings : ProxySettings) (dlp : DlpScanner)
    (s t : AppState) (body : Value) (bodyLen : ℕ) (upstreamPath : String) (a : Answers)
    (d : Dispatch) (logged : List ProxyEvent)
    (h : proxyRequest o settings dlp s body bodyLen upstreamPath a = some (.ok d,t,logged)) :
    (∃ modelName, body.get "model" = some (.string modelName) ∧
      (route s modelName upstreamPath a.order a.now).1 = .ok (d.model,d.provider,d.upstream)) ∧
    o.json.toVec d.request.sent = some d.request.body ∧
    (d.Faithful body ↔ ¬(body.get "stream" = some (.bool true) ∧ settings.stream = false)) := by
  obtain ⟨hmodel,hstream,hrest⟩ := sent_get h
  obtain ⟨-,modelName,m,hbody,hname,hroute,hmode,-,hbytes⟩ := proxyRequest_ok h
  refine ⟨⟨modelName,?_,hroute⟩,hbytes,?_⟩
  · subst hbody
    obtain ⟨v,hv,hstr⟩ := Option.bind_eq_some_iff.mp hname
    cases v with
    | string name =>
      obtain rfl := Option.some.inj hstr
      exact hv
    | _ => cases hstr
  · constructor
    · rintro hfaithful ⟨hclient,hoff⟩
      have hplain : d.streamed = false := by
        have hno : streamMode settings body ≠ true := by
          rw [ne_eq,streamMode_eq_true]
          simp [hoff]
        rw [hmode]
        simpa using hno
      rw [hplain,hclient] at hstream
      have hyes := hfaithful.mode.mp (by simpa using hstream)
      rw [hplain] at hyes
      cases hyes
    · intro hno
      refine ⟨⟨fun hasked => ?_,fun hyes => by rw [hstream,hyes]; rfl⟩,hmodel,hrest⟩
      by_contra hplain
      rw [hstream,if_neg hplain] at hasked
      have hon : settings.stream = true := by
        cases hs : settings.stream with
        | true => rfl
        | false => exact absurd ⟨hasked,hs⟩ hno
      exact hplain (hmode.trans (streamMode_eq_true.mpr ⟨hasked,hon⟩))

/-- A client that asks for a stream gets one. -/
theorem Dispatch.faithful_iff_streamed :
    let body : Value := .object [("input",.string "hi"),("model",.string "ai"),("stream",.bool true)]
    let dlp := DlpScanner.new ⟨fun _ => none⟩ { enabled := false,sensitiveValues := [],scanNumbers := false }
    ∃ d t, proxyRequest demoOutside ⟨0,true,4⟩ dlp demoApp body 44 "/responses" demoAnswers =
        some (.ok d,t,[]) ∧ d.streamed = true ∧ d.Faithful body := by
  intro body dlp
  have hok : ((proxyRequest demoOutside ⟨0,true,4⟩ dlp demoApp body 44 "/responses" demoAnswers).map
      fun r => (r.1.toOption.map Dispatch.streamed,r.2.2)) = some (some true,[]) := by decide +kernel
  obtain ⟨⟨r,t,logged⟩,hrun,hr⟩ := Option.map_eq_some_iff.mp hok
  obtain ⟨hstreamed,hlogged⟩ := Prod.mk.inj hr
  cases r with
  | error e => cases hstreamed
  | ok d =>
    dsimp only at hlogged
    subst hlogged
    have hmode : d.streamed = true := Option.some.inj hstreamed
    obtain ⟨-,-,hiff⟩ := Dispatch.faithful_iff _ _ _ _ _ _ _ _ _ d [] hrun
    exact ⟨d,t,hrun,hmode,hiff.mpr (by simp)⟩

/-- With streams configured off the upstream is still asked for one, and its answer is read as a
plain response. -/
theorem Dispatch.stream_asked_for_plain_response :
    ¬ ∀ (o : Outside) (settings : ProxySettings) (dlp : DlpScanner) (s t : AppState) (body : Value)
      (bodyLen : ℕ) (upstreamPath : String) (a : Answers) (d : Dispatch) (logged : List ProxyEvent),
      proxyRequest o settings dlp s body bodyLen upstreamPath a = some (.ok d,t,logged) →
        d.Faithful body := by
  intro hfaithful
  let body : Value := .object [("input",.string "hi"),("model",.string "ai"),("stream",.bool true)]
  let dlp := DlpScanner.new ⟨fun _ => none⟩ { enabled := false,sensitiveValues := [],scanNumbers := false }
  have hok : ((proxyRequest demoOutside ⟨0,false,4⟩ dlp demoApp body 44 "/responses" demoAnswers).map
      fun r => r.1.toOption.map Dispatch.streamed) = some (some false) := by decide +kernel
  obtain ⟨⟨r,t,logged⟩,hrun,hstreamed⟩ := Option.map_eq_some_iff.mp hok
  cases r with
  | error e => cases hstreamed
  | ok d =>
    have hplain : d.streamed = false := Option.some.inj hstreamed
    obtain ⟨-,hstream,-⟩ := sent_get hrun
    rw [hplain] at hstream
    have hasked : d.request.sent.get "stream" = some (.bool true) := hstream
    have hyes := (hfaithful _ _ _ _ _ _ _ _ _ d logged hrun).mode.mp hasked
    rw [hplain] at hyes
    cases hyes

end Ait
