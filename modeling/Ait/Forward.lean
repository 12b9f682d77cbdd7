import Ait.Dlp
import Ait.ProxyLog
import Ait.Resolve
import Ait.Ssrf

/-!
# From a client's request to the upstream's

`proxy_request` up to the point where a `ProxyLogGuard` is created: the size and DLP
checks, routing, the choice between a streamed and a plain response, the body that is
sent upstream, and the client it is sent with.
-/

namespace Ait

/-- What the libraries do: JSON texts, numbers as text, and building a POST request. -/
structure Outside where
  json : SerdeJson
  render : Number → String
  toVecError : String
  build : String → List (String × String) → Bytes → Except String Url

/-- `body[key] = new`, which makes an object of `null` and panics on any other value. -/
def Value.setField (v : Value) (key : String) (new : Value) : Option Value :=
  match v with
  | .null => some (.object [(key,new)])
  | .object m => some (.object (Fields.insert m key new))
  | _ => none

def Value.asStr : Value → Option String
  | .string s => some s
  | _ => none

def Value.asBool : Value → Option Bool
  | .bool b => some b
  | _ => none

structure UpstreamRequest where
  url : Url
  headers : List (String × String)
  body : Bytes
  -- not in the source: the value `body` is the text of
  sent : Value

def trimEndSlashes (s : String) : String :=
  String.ofList (s.toList.reverse.dropWhile (· = '/')).reverse

namespace ProviderCore

def upstreamUrl (core : ProviderCore) (path : String) : String :=
  trimEndSlashes core.provider.baseUrl ++ path

/-- What `finalize_request` makes of the body; `none` where it panics. -/
def finalizeBody (body : Value) (stream : Bool) (upstreamModel upstreamPath : String) :
    Option Value := do
  let body ←
    if ((body.get "model").bind Value.asStr).isSome then
      body.setField "model" (.string upstreamModel)
    else some body
  if stream then
    let body ← body.setField "stream" (.bool true)
    -- the Responses API has no such parameter
    if upstreamPath ≠ "/responses" then
      body.setField "stream_options" (.object [("include_usage",.bool true)])
    else some body
  else some body

def finalizeRequest (core : ProviderCore) (o : Outside) (body : Value) (stream : Bool)
    (upstreamModel upstreamPath : String) : Option (Except String UpstreamRequest) :=
  (finalizeBody body stream upstreamModel upstreamPath).map fun body =>
    match o.json.toVec body with
    | none => .error o.toVecError
    | some bodyBytes =>
      let headers := ("Content-Type","application/json")::
        (core.authHeaderValue.map fun value => ("Authorization",value)).toList
      match o.build (core.upstreamUrl upstreamPath) headers bodyBytes with
      | .error e => .error e
      | .ok url => .ok ⟨url,headers,bodyBytes,body⟩

end ProviderCore

namespace UpstreamProvider

def core : UpstreamProvider → ProviderCore
  | .ollama core => core
  | .llamacpp core => core
  | .openAICompat core => core

/-- The three implementations are the same. -/
def buildRequest (upstream : UpstreamProvider) (o : Outside) (body : Value) (stream : Bool)
    (upstreamModel upstreamPath : String) : Option (Except String UpstreamRequest) :=
  upstream.core.finalizeRequest o body stream upstreamModel upstreamPath

end UpstreamProvider

namespace ProviderType

def supportsEndpoint (t : ProviderType) (path : String) : Bool :=
  match t with
  | .deepSeek => path = "/chat/completions" || path = "/responses"
  | .zhipu => path = "/chat/completions" || path = "/embeddings"
  | _ => path = "/chat/completions" || path = "/completions" || path = "/embeddings" ||
    path = "/responses"

end ProviderType

/-- The proxy settings that are read before a request is sent; a size cap of zero is none. -/
structure ProxySettings where
  maxRequestBodyBytes : ℕ
  stream : Bool
  promptTokenDivisor : ℕ

def dlpEvent (matched : String) (elapsedMs : ℕ) : ProxyEvent where
  promptTokens := none
  completionTokens := none
  totalTokens := none
  cachedTokens := none
  latencyMs := elapsedMs
  status := "400"
  timeToFirstTokenMs := none
  responseBodySize := none
  errorMessage := some ("blocked by DLP: sensitive value '" ++ maskSensitiveValue matched 3 2 ++
    "' matched")

def admitBody (o : Outside) (settings : ProxySettings) (dlp : DlpScanner) (body : Value)
    (bodyLen elapsedMs : ℕ) : Except AitError String × List ProxyEvent :=
  if settings.maxRequestBodyBytes > 0 ∧ bodyLen > settings.maxRequestBodyBytes then
    (.error (.badRequest "request body exceeds max allowed size"),[])
  else
    match if dlp.isEnabled then dlp.scan o.render body else none with
    | some matched =>
      (.error (.badRequest "request blocked by sensitive data rule"),[dlpEvent matched elapsedMs])
    | none =>
      match (body.get "model").bind Value.asStr with
      | none => (.error (.badRequest "Missing 'model' field in request body"),[])
      | some modelName => (.ok modelName,[])

def unsupportedEndpoint (t : ProviderType) (upstreamPath : String) : AitError :=
  .badRequest ("provider type '" ++ t.toDb ++ "' does not support endpoint '" ++ upstreamPath ++ "'")

def route (s : AppState) (modelName upstreamPath : String) (order : IterationOrder)
    (now : Instant) : Except AitError (Model × Provider × UpstreamProvider) × AppState :=
  match resolveModelAndProvider s modelName order now with
  | (.error e,s) => (.error e,s)
  | (.ok (model,provider),s) =>
    if !provider.providerType.supportsEndpoint upstreamPath then
      (.error (unsupportedEndpoint provider.providerType upstreamPath),s)
    else
      let (upstream,s) := cachedUpstream s provider order now
      (.ok (model,provider,upstream),s)

def streamMode (settings : ProxySettings) (body : Value) : Bool :=
  ((body.get "stream").bind Value.asBool).getD false && settings.stream

def countPromptTokens (bodyLen divisor : ℕ) : Option ℤ :=
  if bodyLen = 0 then none else some (bodyLen/divisor : ℕ)

/-- A request on its way upstream; `streamed` tells `proxy_streamed` from `proxy_non_streamed`. -/
structure Dispatch where
  request : UpstreamRequest
  client : Client
  model : Model
  provider : Provider
  upstream : UpstreamProvider
  promptTokens : Option ℤ
  streamed : Bool

/-- What the clock, the resolver and the client builder answer to one request. -/
structure Answers where
  elapsedMs : ℕ
  order : IterationOrder
  now : Instant
  dns : Except String (List IpAddr)
  built : Bool

/-- `proxy_request` before the guard is created; `none` where it panics. -/
def proxyRequest (o : Outside) (settings : ProxySettings) (dlp : DlpScanner) (s : AppState)
    (body : Value) (bodyLen : ℕ) (upstreamPath : String) (a : Answers) :
    Option (Except AitError Dispatch × AppState × List ProxyEvent) :=
  match admitBody o settings dlp body bodyLen a.elapsedMs with
  | (.error e,logged) => some (.error e,s,logged)
  | (.ok modelName,_) =>
    match route s modelName upstreamPath a.order a.now with
    | (.error e,s) => some (.error e,s,[])
    | (.ok (model,provider,upstream),s) =>
      let stream := streamMode settings body
      match upstream.buildRequest o body stream model.upstreamModel upstreamPath with
      | none => none
      | some (.error e) => some (.error (.badRequest e),s,[])
      | some (.ok request) =>
        match s.checkSsrf request.url a.dns a.now with
        | (.error e,s) => some (.error e,s,[])
        | (.ok verifiedIps,s) =>
          match s.pinnedClient request.url verifiedIps a.built a.now with
          | (.error e,s) => some (.error e,s,[])
          | (.ok client,s) =>
            some (.ok ⟨request,client,model,provider,upstream,
              countPromptTokens bodyLen settings.promptTokenDivisor,stream⟩,s,[])

def finalFields (m : Fields) (stream : Bool) (upstreamModel upstreamPath : String) : Fields :=
  let m := m.insert "model" (.string upstreamModel)
  if stream then
    let m := m.insert "stream" (.bool true)
    if upstreamPath ≠ "/responses" then
      m.insert "stream_options" (.object [("include_usage",.bool true)])
    else m
  else m

section Sent

variable {body : Value} {stream : Bool} {upstreamModel upstreamPath name key : String}

theorem object_of_model (h : (body.get "model").bind Value.asStr = some name) :
    ∃ m, body = .object m := by
  cases body with
  | object m => exact ⟨m,rfl⟩
  | _ => cases h

theorem finalizeBody_object {m : Fields} (h : (Fields.get m "model").bind Value.asStr = some name) :
    ProviderCore.finalizeBody (.object m) stream upstreamModel upstreamPath =
      some (.object (finalFields m stream upstreamModel upstreamPath)) := by
  have hmodel : ((Value.get (.object m) "model").bind Value.asStr).isSome = true := by
    simp [Value.get,h]
  unfold ProviderCore.finalizeBody finalFields
  rw [if_pos hmodel]
  by_cases hstream : stream = true
  · by_cases hpath : upstreamPath = "/responses" <;> simp [hstream,hpath,Value.setField]
  · simp [hstream,Value.setField]

theorem get_finalFields (m : Fields) (hmodel : key ≠ "model") (hstream : key ≠ "stream")
    (hoptions : key ≠ "stream_options") :
    (finalFields m stream upstreamModel upstreamPath).get key = m.get key := by
  unfold finalFields
  by_cases hs : stream = true
  · by_cases hpath : upstreamPath = "/responses" <;>
      simp [hs,hpath,hmodel,hstream,hoptions]
  · simp [hs,hmodel]

@[simp] theorem model_finalFields (m : Fields) :
    (finalFields m stream upstreamModel upstreamPath).get "model" =
      some (.string upstreamModel) := by
  unfold finalFields
  by_cases hs : stream = true
  · by_cases hpath : upstreamPath = "/responses" <;> simp [hs,hpath]
  · simp [hs]

@[simp] theorem stream_finalFields (m : Fields) :
    (finalFields m stream upstreamModel upstreamPath).get "stream" =
      if stream then some (.bool true) else m.get "stream" := by
  unfold finalFields
  by_cases hs : stream = true
  · by_cases hpath : upstreamPath = "/responses" <;> simp [hs,hpath]
  · simp [hs]

theorem mem_finalFields {m : Fields} {f : String × Value}
    (h : f ∈ finalFields m stream upstreamModel upstreamPath) :
    f ∈ m ∨ f = ("model",.string upstreamModel) ∨ f = ("stream",.bool true) ∨
      f = ("stream_options",.object [("include_usage",.bool true)]) := by
  have hmodel : ∀ g, g ∈ m.insert "model" (.string upstreamModel) →
      g ∈ m ∨ g = ("model",.string upstreamModel) := fun g hg => (Fields.mem_insert hg).symm
  unfold finalFields at h
  dsimp only at h
  split at h
  · split at h
    · rcases Fields.mem_insert h with h | h
      · exact .inr (.inr (.inr h))
      · rcases Fields.mem_insert h with h | h
        · exact .inr (.inr (.inl h))
        · rcases hmodel f h with h | h
          · exact .inl h
          · exact .inr (.inl h)
    · rcases Fields.mem_insert h with h | h
      · exact .inr (.inr (.inl h))
      · rcases hmodel f h with h | h
        · exact .inl h
        · exact .inr (.inl h)
  · rcases hmodel f h with h | h
    · exact .inl h
    · exact .inr (.inl h)

end Sent

section Accepted

variable {o : Outside} {settings : ProxySettings} {dlp : DlpScanner} {s t : AppState} {body : Value}
  {bodyLen elapsedMs : ℕ} {upstreamPath modelName : String} {a : Answers} {d : Dispatch}
  {logged : List ProxyEvent}

theorem admitBody_ok (h : admitBody o settings dlp body bodyLen elapsedMs = (.ok modelName,logged)) :
    (dlp.isEnabled = true → dlp.scan o.render body = none) ∧
      (body.get "model").bind Value.asStr = some modelName := by
  unfold admitBody at h
  split at h
  · cases h
  · split at h
    · cases h
    · rename_i hscan
      split at h
      · cases h
      · rename_i hmodel
        cases h
        refine ⟨fun hon => ?_,hmodel⟩
        rw [if_pos hon] at hscan
        exact hscan

theorem buildRequest_ok {upstream : UpstreamProvider} {stream : Bool} {upstreamModel : String}
    {request : UpstreamRequest}
    (h : upstream.buildRequest o body stream upstreamModel upstreamPath = some (.ok request)) :
    ProviderCore.finalizeBody body stream upstreamModel upstreamPath = some request.sent ∧
      o.json.toVec request.sent = some request.body := by
  obtain ⟨sent,hsent,hrequest⟩ := Option.map_eq_some_iff.mp h
  dsimp only at hrequest
  cases hbytes : o.json.toVec sent with
  | none => rw [hbytes] at hrequest; cases hrequest
  | some bytes =>
    rw [hbytes] at hrequest
    dsimp only at hrequest
    split at hrequest
    · cases hrequest
    · obtain rfl := Except.ok.inj hrequest
      exact ⟨hsent,hbytes⟩

theorem proxyRequest_ok
    (h : proxyRequest o settings dlp s body bodyLen upstreamPath a = some (.ok d,t,logged)) :
    (dlp.isEnabled = true → dlp.scan o.render body = none) ∧
    ∃ modelName m, body = .object m ∧ (Fields.get m "model").bind Value.asStr = some modelName ∧
      (route s modelName upstreamPath a.order a.now).1 = .ok (d.model,d.provider,d.upstream) ∧
      d.streamed = streamMode settings body ∧
      d.request.sent = .object (finalFields m d.streamed d.model.upstreamModel upstreamPath) ∧
      o.json.toVec d.request.sent = some d.request.body := by
  unfold proxyRequest at h
  split at h
  · cases h
  · rename_i modelName _ hadmit
    obtain ⟨hscan,hmodel⟩ := admitBody_ok hadmit
    obtain ⟨m,rfl⟩ := object_of_model hmodel
    refine ⟨hscan,modelName,m,rfl,hmodel,?_⟩
    split at h
    · cases h
    · rename_i hroute
      dsimp only at h
      split at h
      · cases h
      · cases h
      · rename_i request hbuild
        obtain ⟨hsent,hbytes⟩ := buildRequest_ok hbuild
        rw [finalizeBody_object hmodel] at hsent
        split at h
        · cases h
        · split at h
          · cases h
          · cases h
            exact ⟨by rw [hroute],rfl,(Option.some.inj hsent).symm,hbytes⟩

end Accepted
def demoApp : AppState :=
  AppState.new
    { authEnabled := true,cacheMaxEntries := 10,connectTimeoutSecs := 5,ssrfAllowedCidrs := [] }
    { providers := [⟨"p1","local","openai_compat","http://1.1.1.1/v1/",none,true,0,0⟩]
      models := [⟨"m1","ai","p1","up",true,0,0⟩]
      apiKeys := []
      schema := by decide }

def demoUrl : Url := { scheme := "http",host := some (.ipv4 ⟨1,1,1,1⟩),port := none }

def demoOutside : Outside where
  json := ⟨fun _ => none,fun
    | .object [("input",.string "hi"),("model",.string "up")] =>
      some (utf8 "\x7b\"input\":\"hi\",\"model\":\"up\"\x7d")
    | .object [("input",.string "hi"),("model",.string "up"),("stream",.bool true)] =>
      some (utf8 "\x7b\"input\":\"hi\",\"model\":\"up\",\"stream\":true\x7d")
    | _ => some (utf8 "null")⟩
  render := fun _ => "0"
  toVecError := ""
  build := fun _ _ _ => .ok demoUrl

def demoAnswers : Answers where
  elapsedMs := 0
  order := ⟨fun _ => 0,fun _ => 0,fun _ => 0⟩
  now := 0
  dns := .ok [.v4 ⟨1,1,1,1⟩]
  built := true

end Ait
