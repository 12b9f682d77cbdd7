import Ait.DnsFreshness
import Ait.Egress
import Ait.Forward
import Ait.Provenance

/-!
# The gateway as a whole

Calls of the proxy endpoints run from `auth_middleware` to the dispatch of the upstream
request, one atomic step at a time, among the tasks of a `World` and the checks of provider
forms. Only the states they share are touched by more than one of them.
-/

namespace Ait
open Transition

structure Setting where
  hashKey : String → String
  outside : Outside
  proxy : ProxySettings
  dlp : DlpScanner

/-- The handlers that call `proxy_request`. -/
inductive Endpoint
  | chatCompletions
  | completions
  | embeddings
  | responses

def Endpoint.upstreamPath : Endpoint → String
  | chatCompletions => "/chat/completions"
  | completions => "/completions"
  | embeddings => "/embeddings"
  | responses => "/responses"

structure ClientRequest where
  authorization : Option String
  bytes : Bytes
  endpoint : Endpoint

def ClientRequest.upstreamPath (req : ClientRequest) : String := req.endpoint.upstreamPath

structure Parsed where
  body : Value
  bodyLen : ℕ

def parseBody (o : Outside) (bytes : Bytes) : Except AitError Parsed :=
  match o.json.fromSlice bytes with
  | some body => .ok ⟨body,bytes.length⟩
  | none => .error (.badRequest "invalid request body")

structure Draft where
  parsed : Parsed
  request : UpstreamRequest
  model : Model
  provider : Provider
  upstream : UpstreamProvider

inductive CallPhase
  | arrived
  | authenticating (token : String) (phase : AuthPhase)
  | admitted (context : ApiKeyContext)
  | routing (context : ApiKeyContext) (parsed : Parsed) (modelName : String) (phase : RoutePhase)
  | resolving (context : ApiKeyContext) (draft : Draft)
  | lookingUp (context : ApiKeyContext) (draft : Draft) (host : List Char)
  | verified (context : ApiKeyContext) (draft : Draft) (ips : List IpAddr)
  | dispatched (context : ApiKeyContext) (d : Dispatch)
  | refused (e : AitError)
  | panicked

namespace CallPhase

/-- An authentication that has come to its decision lets the call in or ends it. -/
def ofAuth (token : String) : AuthPhase → CallPhase
  | .decided _ (.ok context) => .admitted context
  | .decided _ (.error e) => .refused e
  | phase => .authenticating token phase

def ofRoute (context : ApiKeyContext) (parsed : Parsed) (modelName : String) : RoutePhase → CallPhase
  | .notFound => .refused (modelNotFound modelName)
  | phase => .routing context parsed modelName phase

end CallPhase

/-- The endpoint is checked between resolution and the choice of a client. -/
def RoutePhase.unsupported (upstreamPath : String) : RoutePhase → Option AitError
  | .knownUpstream _ p _ =>
    if p.providerType.supportsEndpoint upstreamPath then none
    else some (unsupportedEndpoint p.providerType upstreamPath)
  | _ => none

def RoutePhase.chosen : RoutePhase → Option (Model × Provider × UpstreamProvider)
  | .routed m p upstream => some (m,p,upstream)
  | _ => none

/-- The addresses of a host on their way into the DNS cache, or the refusal of the call. -/
def checkAddresses (s : AppState) (host : List Char) (ips : List IpAddr) (now : Instant)
    (context : ApiKeyContext) (draft : Draft) : CallPhase × AppState :=
  if ips.all fun ip => isAllowed ip s.config.ssrfAllowedCidrs then
    (.verified context draft ips,
      { s with ssrfDnsCache := s.ssrfDnsCache.insert (String.ofList host) (ips,now) })
  else (.refused upstreamRequestFailed,s)

namespace Setting

variable (x : Setting)

def build (req : ClientRequest) (context : ApiKeyContext) (parsed : Parsed) (m : Model)
    (p : Provider) (upstream : UpstreamProvider) : CallPhase :=
  match upstream.buildRequest x.outside parsed.body (streamMode x.proxy parsed.body)
      m.upstreamModel req.upstreamPath with
  | none => .panicked
  | some (.error e) => .refused (.badRequest e)
  | some (.ok request) => .resolving context ⟨parsed,request,m,p,upstream⟩

/-- The atomic steps of `auth_middleware` and `proxy_request` for one call. -/
def advance (req : ClientRequest) (version : ℕ) (s : AppState) (modelAt : String → ℕ)
    (a : Answers) (utc : DateTime) :
    CallPhase → Option (CallPhase × AppState × (String → ℕ) × List ProxyEvent)
  | .arrived =>
    if ¬ s.config.authEnabled then some (.admitted { name := none },s,modelAt,[])
    else match extractBearerToken req.authorization with
    | none => some (.refused invalidKey,s,modelAt,[])
    | some token => some (.authenticating token .negativeCheck,s,modelAt,[])
  | .authenticating token phase =>
    (phase.advance x.hashKey token version s ⟨a.now,utc,a.order⟩).map fun (phase,s) =>
      (.ofAuth token phase,s,modelAt,[])
  | .admitted context =>
    match parseBody x.outside req.bytes with
    | .error e => some (.refused e,s,modelAt,[])
    | .ok parsed =>
      match admitBody x.outside x.proxy x.dlp parsed.body parsed.bodyLen a.elapsedMs with
      | (.error e,logged) => some (.refused e,s,modelAt,logged)
      | (.ok modelName,_) => some (.routing context parsed modelName .negativeCheck,s,modelAt,[])
  | .routing context parsed modelName phase =>
    match phase.chosen with
    | some (m,p,upstream) => some (x.build req context parsed m p upstream,s,modelAt,[])
    | none =>
      match phase.unsupported req.upstreamPath with
      | some e => some (.refused e,s,modelAt,[])
      | none =>
        (phase.advance modelName version s modelAt ⟨a.now,utc,a.order⟩).map
          fun (phase,s,modelAt) => (.ofRoute context parsed modelName phase,s,modelAt,[])
  | .resolving context draft =>
    match draft.request.url.bareHost with
    | none => some (.refused upstreamRequestFailed,s,modelAt,[])
    | some host =>
      match cachedAddresses s.ssrfDnsCache (String.ofList host) a.now with
      | none => some (.lookingUp context draft host,s,modelAt,[])
      | some ips =>
        let (phase,s) := checkAddresses s host ips a.now context draft
        some (phase,s,modelAt,[])
  | .lookingUp context draft host =>
    match a.dns with
    | .error _ => some (.refused upstreamRequestFailed,s,modelAt,[])
    | .ok ips =>
      let (phase,s) := checkAddresses s host ips a.now context draft
      some (phase,s,modelAt,[])
  | .verified context draft ips =>
    match s.pinnedClient draft.request.url ips a.built a.now with
    | (.error e,s) => some (.refused e,s,modelAt,[])
    | (.ok client,s) =>
      some (.dispatched context ⟨draft.request,client,draft.model,draft.provider,draft.upstream,
        countPromptTokens draft.parsed.bodyLen x.proxy.promptTokenDivisor,
        streamMode x.proxy draft.parsed.body⟩,s,modelAt,[])
  | .dispatched _ _ => none
  | .refused _ => none
  | .panicked => none

end Setting

/-- The server's tasks and the calls in flight, with the events they have logged. -/
structure Gateway where
  world : World
  calls : ℕ → Option (ClientRequest × CallPhase)
  logged : List (ℕ × ProxyEvent)

namespace Gateway

inductive Event
  | world (l : Label)
  | checkConfig (url : Url) (answer : Except String (List IpAddr)) (now : Instant)
  | call (i : ℕ) (req : ClientRequest)
  | advance (i : ℕ) (a : Answers) (utc : DateTime)
  | drop (i : ℕ)

def start (config : ConfigApp) (db : Database) : Gateway :=
  ⟨World.start config db,fun _ => none,[]⟩

def setCall (g : Gateway) (i : ℕ) (call : Option (ClientRequest × CallPhase)) : Gateway :=
  { g with calls := Function.update g.calls i call }

def step (x : Setting) (g : Gateway) : Event → Option Gateway
  | .world l => (g.world.step x.hashKey l).map fun w => { g with world := w }
  | .checkConfig url answer now =>
    some { g with world := { g.world with app := (g.world.app.checkSsrfConfig url answer now).2 } }
  | .call i req => if (g.calls i).isNone then some (g.setCall i (some (req,.arrived))) else none
  | .advance i a utc =>
    (g.calls i).bind fun (req,phase) =>
      (x.advance req g.world.hist.version g.world.app g.world.modelAt a utc phase).map
        fun (phase,app,modelAt,logged) =>
          { g with
            world := { g.world with app := app,modelAt := modelAt }
            logged := logged.map (i,·) ++ g.logged }.setCall i (some (req,phase))
  -- the client went away
  | .drop i => (g.calls i).map fun _ => g.setCall i none

end Gateway

/-- How far a call has come, and what it has made of the shared state on its way. -/
structure Progress where
  phase : CallPhase
  app : AppState
  modelAt : String → ℕ
  logged : List ProxyEvent

namespace Setting

variable (x : Setting) (req : ClientRequest) (version : ℕ) (a : Answers) (utc : DateTime)

def Next (p q : Progress) : Prop :=
  ∃ logged, x.advance req version p.app p.modelAt a utc p.phase =
    some (q.phase,q.app,q.modelAt,logged) ∧ q.logged = logged ++ p.logged

/-- How `proxy_request` ends for a caller, when it does not panic. -/
def answer (context : ApiKeyContext) : Except AitError Dispatch → CallPhase
  | .ok d => .dispatched context d
  | .error e => .refused e

/-- `auth_middleware` and then the handler of the endpoint; `none` where it panics. -/
def serve (s : AppState) : Option (CallPhase × AppState × List ProxyEvent) :=
  match authMiddleware x.hashKey s req.authorization a.now utc with
  | (.error e,s) => some (.refused e,s,[])
  | (.ok context,s) =>
    match parseBody x.outside req.bytes with
    | .error e => some (.refused e,s,[])
    | .ok parsed =>
      (proxyRequest x.outside x.proxy x.dlp s parsed.body parsed.bodyLen req.upstreamPath a).map
        fun (r,s,logged) => (answer context r,s,logged)

variable {x req version a utc} {s s' : AppState} {modelAt : String → ℕ} {context : ApiKeyContext}
  {parsed : Parsed} {modelName : String} {draft : Draft}

/-- The call gets from one phase to another on its own, and logs nothing. -/
def Leads (x : Setting) (req : ClientRequest) (version : ℕ) (a : Answers) (utc : DateTime)
    (phase : CallPhase) (s : AppState) (modelAt : String → ℕ) (phase' : CallPhase) (s' : AppState) :
    Prop :=
  ∃ modelAt', Relation.ReflTransGen (x.Next req version a utc) ⟨phase,s,modelAt,[]⟩
    ⟨phase',s',modelAt',[]⟩

theorem Leads.refl (phase : CallPhase) : x.Leads req version a utc phase s modelAt phase s :=
  ⟨modelAt,.refl⟩

theorem Leads.head {phase next phase' : CallPhase} {app : AppState} {modelAt' : String → ℕ}
    (hadv : x.advance req version s modelAt a utc phase = some (next,app,modelAt',[]))
    (hrest : x.Leads req version a utc next app modelAt' phase' s') :
    x.Leads req version a utc phase s modelAt phase' s' := by
  obtain ⟨last,hrest⟩ := hrest
  exact ⟨last,.head ⟨[],hadv,rfl⟩ hrest⟩

theorem Leads.one {phase phase' : CallPhase} {modelAt' : String → ℕ}
    (hadv : x.advance req version s modelAt a utc phase = some (phase',s',modelAt',[])) :
    x.Leads req version a utc phase s modelAt phase' s' :=
  .head hadv (.refl phase')

theorem leads_auth {token : String} (fuel : ℕ) {phase : AuthPhase} {basis : Option ApiKeyInfo}
    {reply : Except AitError ApiKeyContext} (hopen : CallPhase.ofAuth token phase =
      .authenticating token phase)
    (halone : phase.alone x.hashKey token version ⟨a.now,utc,a.order⟩ fuel s =
      (.decided basis reply,s')) :
    x.Leads req version a utc (.authenticating token phase) s modelAt
      (.ofAuth token (.decided basis reply)) s' := by
  induction fuel generalizing phase s with
  | zero =>
    obtain ⟨rfl,rfl⟩ := Prod.mk.inj halone
    cases reply <;> cases hopen
  | succ fuel ih =>
    cases hadv : phase.advance x.hashKey token version s ⟨a.now,utc,a.order⟩ with
    | none =>
      simp only [AuthPhase.alone,hadv] at halone
      obtain ⟨rfl,rfl⟩ := Prod.mk.inj halone
      cases reply <;> cases hopen
    | some r =>
      obtain ⟨next,app⟩ := r
      simp only [AuthPhase.alone,hadv] at halone
      have hstep : x.advance req version s modelAt a utc (.authenticating token phase) =
          some (.ofAuth token next,app,modelAt,[]) := by simp [Setting.advance,hadv]
      refine .head hstep ?_
      cases next with
      | decided basis' reply' =>
        have hdone : AuthPhase.alone x.hashKey token version ⟨a.now,utc,a.order⟩ fuel
            (.decided basis' reply') app = (.decided basis' reply',app) := by
          cases fuel <;> rfl
        obtain ⟨hdecided,rfl⟩ := Prod.mk.inj (hdone.symm.trans halone)
        rw [hdecided]
        exact .refl _
      | _ => exact ih rfl halone

theorem advance_route {phase next : RoutePhase} {app : AppState} {modelAt' : String → ℕ}
    (hchosen : phase.chosen = none) (hchecked : phase.unsupported req.upstreamPath = none)
    (hadv : phase.advance modelName version s modelAt ⟨a.now,utc,a.order⟩ = some (next,app,modelAt')) :
    x.advance req version s modelAt a utc (.routing context parsed modelName phase) =
      some (.ofRoute context parsed modelName next,app,modelAt',[]) := by
  simp [Setting.advance,hchosen,hchecked,hadv]

section Routing

variable (r : Reading)

@[simp] theorem advance_unknown (hunknown : s.knownUnknown modelName r.now = true) :
    RoutePhase.advance modelName version s modelAt r .negativeCheck = some (.notFound,s,modelAt) := by
  rw [RoutePhase.advance,if_pos hunknown]

@[simp] theorem advance_notUnknown (hunknown : ¬s.knownUnknown modelName r.now = true) :
    RoutePhase.advance modelName version s modelAt r .negativeCheck = some (.cacheCheck,s,modelAt) := by
  rw [RoutePhase.advance,if_neg hunknown]

theorem advance_uncached {app : AppState} (hslid : s.cachedModel modelName r.now = (none,app)) :
    RoutePhase.advance modelName version s modelAt r .cacheCheck = some (.lookup,app,modelAt) := by
  simp only [RoutePhase.advance,hslid]

theorem advance_cached {app : AppState} {m : Model} {p : Provider}
    (hslid : s.cachedModel modelName r.now = (some (m,p),app)) :
    RoutePhase.advance modelName version s modelAt r .cacheCheck =
      some (.knownUpstream m p (modelAt modelName),app,modelAt) := by
  simp only [RoutePhase.advance,hslid]

@[simp] theorem advance_missing (hroute : s.db.resolveModel modelName = none) :
    RoutePhase.advance modelName version s modelAt r .lookup =
      some (.rememberUnknown version,s,modelAt) := by
  simp only [RoutePhase.advance,hroute]

theorem advance_found {m : Model} {p : Provider} (hroute : s.db.resolveModel modelName = some (m,p)) :
    RoutePhase.advance modelName version s modelAt r .lookup =
      some (.rememberUpstream m p version,s,modelAt) := by
  simp only [RoutePhase.advance,hroute]

theorem advance_unclient {app : AppState} {m : Model} {p : Provider} {readAt : ℕ}
    (hslid : s.knownUpstream p.id r.now = (none,app)) :
    RoutePhase.advance modelName version s modelAt r (.knownUpstream m p readAt) =
      some (.createUpstream m p readAt,app,modelAt) := by
  simp only [RoutePhase.advance,hslid]

theorem advance_client {app : AppState} {m : Model} {p : Provider} {readAt : ℕ}
    {upstream : UpstreamProvider} (hslid : s.knownUpstream p.id r.now = (some upstream,app)) :
    RoutePhase.advance modelName version s modelAt r (.knownUpstream m p readAt) =
      some (.routed m p upstream,app,modelAt) := by
  simp only [RoutePhase.advance,hslid]

end Routing

theorem leads_unresolved {e : AitError}
    (hresolve : resolveModelAndProvider s modelName a.order a.now = (.error e,s')) :
    x.Leads req version a utc (.routing context parsed modelName .negativeCheck) s modelAt (.refused e) s' := by
  unfold resolveModelAndProvider at hresolve
  split at hresolve
  · rename_i hunknown
    cases hresolve
    exact .one (advance_route rfl rfl (advance_unknown _ hunknown))
  · rename_i hunknown
    refine .head (advance_route rfl rfl (advance_notUnknown _ hunknown)) ?_
    split at hresolve
    · cases hresolve
    · rename_i app hslid
      refine .head (advance_route rfl rfl (advance_uncached _ hslid)) ?_
      split at hresolve
      · cases hresolve
      · rename_i hroute
        cases hresolve
        refine .head (advance_route rfl rfl (advance_missing _ hroute)) ?_
        exact .head (advance_route rfl rfl rfl) (.refl _)

theorem leads_resolved {m : Model} {p : Provider} {phase' : CallPhase} {last : AppState}
    (hresolve : resolveModelAndProvider s modelName a.order a.now = (.ok (m,p),s'))
    (hrest : ∀ readAt modelAt', x.Leads req version a utc
      (.routing context parsed modelName (.knownUpstream m p readAt)) s' modelAt' phase' last) :
    x.Leads req version a utc (.routing context parsed modelName .negativeCheck) s modelAt phase' last := by
  unfold resolveModelAndProvider at hresolve
  split at hresolve
  · cases hresolve
  · rename_i hunknown
    refine .head (advance_route rfl rfl (advance_notUnknown _ hunknown)) ?_
    split at hresolve
    · rename_i found app hslid
      cases hresolve
      exact .head (advance_route rfl rfl (advance_cached _ hslid)) (hrest _ modelAt)
    · rename_i app hslid
      refine .head (advance_route rfl rfl (advance_uncached _ hslid)) ?_
      split at hresolve
      · rename_i m' p' hroute
        cases hresolve
        refine .head (advance_route rfl rfl (advance_found _ hroute)) ?_
        refine .head (advance_route rfl rfl rfl) ?_
        exact .head (advance_route rfl rfl rfl) (hrest version _)
      · cases hresolve

theorem advance_unsupported {m : Model} {p : Provider} {readAt : ℕ}
    (hno : p.providerType.supportsEndpoint req.upstreamPath = false) :
    x.advance req version s modelAt a utc (.routing context parsed modelName (.knownUpstream m p readAt)) =
      some (.refused (unsupportedEndpoint p.providerType req.upstreamPath),s,modelAt,[]) := by
  simp [Setting.advance,RoutePhase.chosen,RoutePhase.unsupported,hno]

theorem leads_chosen {m : Model} {p : Provider} {readAt : ℕ} {phase' : CallPhase} {last : AppState}
    (hsupports : p.providerType.supportsEndpoint req.upstreamPath = true)
    (hrest : x.Leads req version a utc (x.build req context parsed m p (cachedUpstream s p a.order a.now).1)
      (cachedUpstream s p a.order a.now).2 modelAt phase' last) :
    x.Leads req version a utc (.routing context parsed modelName (.knownUpstream m p readAt)) s modelAt
      phase' last := by
  have hchecked : (RoutePhase.knownUpstream m p readAt).unsupported req.upstreamPath = none :=
    if_pos hsupports
  rcases hslid : s.knownUpstream p.id a.now with ⟨_ | upstream,app⟩
  · simp only [cachedUpstream,hslid] at hrest
    refine .head (advance_route rfl hchecked (advance_unclient _ hslid)) ?_
    refine .head (advance_route rfl rfl rfl) ?_
    exact .head rfl hrest
  · simp only [cachedUpstream,hslid] at hrest
    refine .head (advance_route rfl hchecked (advance_client _ hslid)) ?_
    exact .head rfl hrest

def checked (context : ApiKeyContext) (draft : Draft) : Except AitError (List IpAddr) → CallPhase
  | .ok ips => .verified context draft ips
  | .error e => .refused e

theorem checkAddresses_eq {host : List Char} {ips : List IpAddr}
    (hhost : draft.request.url.bareHost = some host)
    (hips : resolveWithCache (String.ofList host) s.ssrfDnsCache a.dns a.now = .ok ips) :
    checkAddresses s host ips a.now context draft =
      (checked context draft (s.checkSsrf draft.request.url a.dns a.now).1,
        (s.checkSsrf draft.request.url a.dns a.now).2) := by
  by_cases hall : (ips.all fun ip => isAllowed ip s.config.ssrfAllowedCidrs) = true
  · simp [checkAddresses,AppState.checkSsrf,resolveAndCheck,hhost,hips,hall,checked,Except.mapError]
  · simp [checkAddresses,AppState.checkSsrf,resolveAndCheck,hhost,hips,hall,checked,Except.mapError]

/-- The two steps to the addresses, from the cache or from a lookup, make up `check_ssrf`. -/
theorem leads_checked :
    x.Leads req version a utc (.resolving context draft) s modelAt
      (checked context draft (s.checkSsrf draft.request.url a.dns a.now).1)
      (s.checkSsrf draft.request.url a.dns a.now).2 := by
  cases hhost : draft.request.url.bareHost with
  | none =>
    have hcheck : s.checkSsrf draft.request.url a.dns a.now = (.error upstreamRequestFailed,s) := by
      simp [AppState.checkSsrf,resolveAndCheck,hhost,Except.mapError]
    rw [hcheck]
    exact .one (by simp only [Setting.advance,hhost]; rfl)
  | some host =>
    have hlookup (hmiss : cachedAddresses s.ssrfDnsCache (String.ofList host) a.now = none) :
        x.advance req version s modelAt a utc (.resolving context draft) =
          some (.lookingUp context draft host,s,modelAt,[]) := by
      simp only [Setting.advance,hhost,hmiss]
    cases hips : resolveWithCache (String.ofList host) s.ssrfDnsCache a.dns a.now with
    | error e =>
      have hcheck : s.checkSsrf draft.request.url a.dns a.now = (.error upstreamRequestFailed,s) := by
        simp [AppState.checkSsrf,resolveAndCheck,hhost,hips,Except.mapError]
      rw [resolveWithCache_eq] at hips
      split at hips
      · cases hips
      · rename_i hmiss
        cases hdns : a.dns with
        | ok found =>
          rw [hdns] at hips
          cases hips
        | error e' =>
          rw [hdns] at hcheck
          rw [hcheck]
          exact .head (hlookup hmiss) (.one (by simp only [Setting.advance,hdns]; rfl))
    | ok ips =>
      have heq : checkAddresses s host ips a.now context draft = _ := checkAddresses_eq hhost hips
      rw [resolveWithCache_eq] at hips
      split at hips
      · rename_i hcached
        cases hips
        exact .one (by simp only [Setting.advance,hhost,hcached,heq]; rfl)
      · rename_i hmiss
        cases hdns : a.dns with
        | error e =>
          rw [hdns] at hips
          cases hips
        | ok found =>
          rw [hdns] at hips heq
          cases hips
          exact .head (hlookup hmiss) (.one (by simp only [Setting.advance,hdns,heq]; rfl))

theorem Leads.trans {phase mid phase' : CallPhase} {app : AppState}
    (hfirst : x.Leads req version a utc phase s modelAt mid app)
    (hrest : ∀ modelAt', x.Leads req version a utc mid app modelAt' phase' s') :
    x.Leads req version a utc phase s modelAt phase' s' := by
  obtain ⟨modelAt',hfirst⟩ := hfirst
  obtain ⟨last,hrest⟩ := hrest modelAt'
  exact ⟨last,hfirst.trans hrest⟩

theorem leads_blocked {e : AitError} (hcheck : s.checkSsrf draft.request.url a.dns a.now = (.error e,s')) :
    x.Leads req version a utc (.resolving context draft) s modelAt (.refused e) s' := by
  have hchecked : x.Leads req version a utc (.resolving context draft) s modelAt _ _ := leads_checked
  rw [hcheck] at hchecked
  exact hchecked

theorem leads_verified {ips : List IpAddr} {app : AppState} {phase' : CallPhase}
    (hcheck : s.checkSsrf draft.request.url a.dns a.now = (.ok ips,app))
    (hpin : ∀ modelAt', x.advance req version app modelAt' a utc (.verified context draft ips) =
      some (phase',s',modelAt',[])) :
    x.Leads req version a utc (.resolving context draft) s modelAt phase' s' := by
  have hchecked : x.Leads req version a utc (.resolving context draft) s modelAt _ _ := leads_checked
  rw [hcheck] at hchecked
  exact hchecked.trans fun modelAt' => .one (hpin modelAt')

theorem build_ok {m : Model} {p : Provider} {upstream : UpstreamProvider} {request : UpstreamRequest}
    (hbuild : upstream.buildRequest x.outside parsed.body (streamMode x.proxy parsed.body) m.upstreamModel
      req.upstreamPath = some (.ok request)) :
    x.build req context parsed m p upstream = .resolving context ⟨parsed,request,m,p,upstream⟩ := by
  rw [Setting.build,hbuild]

theorem build_error {m : Model} {p : Provider} {upstream : UpstreamProvider} {e : String}
    (hbuild : upstream.buildRequest x.outside parsed.body (streamMode x.proxy parsed.body) m.upstreamModel
      req.upstreamPath = some (.error e)) :
    x.build req context parsed m p upstream = .refused (.badRequest e) := by
  rw [Setting.build,hbuild]

theorem route_unresolved {upstreamPath : String} {order : IterationOrder} {now : Instant} {e : AitError}
    (hresolve : resolveModelAndProvider s modelName order now = (.error e,s')) :
    route s modelName upstreamPath order now = (.error e,s') := by
  rw [route,hresolve]

theorem route_resolved {upstreamPath : String} {order : IterationOrder} {now : Instant} {m : Model}
    {p : Provider} (hresolve : resolveModelAndProvider s modelName order now = (.ok (m,p),s')) :
    route s modelName upstreamPath order now =
      if p.providerType.supportsEndpoint upstreamPath then
        (.ok (m,p,(cachedUpstream s' p order now).1),(cachedUpstream s' p order now).2)
      else (.error (unsupportedEndpoint p.providerType upstreamPath),s') := by
  simp only [route,hresolve]
  cases p.providerType.supportsEndpoint upstreamPath <;> simp

/-- From an admitted call on, the steps of the call make up `proxy_request`. -/
theorem leads_proxy {r : Except AitError Dispatch} {logged : List ProxyEvent}
    (hparsed : parseBody x.outside req.bytes = .ok parsed)
    (hproxy : proxyRequest x.outside x.proxy x.dlp s parsed.body parsed.bodyLen req.upstreamPath a =
      some (r,s',logged)) :
    ∃ modelAt', Relation.ReflTransGen (x.Next req version a utc) ⟨.admitted context,s,modelAt,[]⟩
      ⟨answer context r,s',modelAt',logged⟩ := by
  unfold proxyRequest at hproxy
  split at hproxy
  · rename_i e logged' hentry
    cases hproxy
    refine ⟨modelAt,.single ⟨logged,?_,by simp⟩⟩
    simp only [Setting.advance,hparsed,hentry]
    rfl
  · rename_i modelName _ hentry
    have hadv : x.advance req version s modelAt a utc (.admitted context) =
        some (.routing context parsed modelName .negativeCheck,s,modelAt,[]) := by
      simp only [Setting.advance,hparsed,hentry]
    suffices hleads : x.Leads req version a utc (.routing context parsed modelName .negativeCheck) s modelAt
        (answer context r) s' ∧ logged = [] by
      obtain ⟨⟨modelAt',hleads⟩,rfl⟩ := hleads
      exact ⟨modelAt',.head ⟨[],hadv,rfl⟩ hleads⟩
    rcases hresolve : resolveModelAndProvider s modelName a.order a.now with ⟨e | ⟨m,p⟩,app⟩
    · rw [route_unresolved hresolve] at hproxy
      cases hproxy
      exact ⟨leads_unresolved hresolve,rfl⟩
    · rw [route_resolved hresolve] at hproxy
      by_cases hsupports : p.providerType.supportsEndpoint req.upstreamPath = true
      · rw [if_pos hsupports] at hproxy
        dsimp only at hproxy
        suffices hrest : ∀ modelAt', x.Leads req version a utc
            (x.build req context parsed m p (cachedUpstream app p a.order a.now).1)
            (cachedUpstream app p a.order a.now).2 modelAt' (answer context r) s' ∧ logged = [] from
          ⟨leads_resolved hresolve fun readAt modelAt' => leads_chosen hsupports (hrest modelAt').1,
            (hrest modelAt).2⟩
        intro modelAt'
        split at hproxy
        · cases hproxy
        · rename_i hbuild
          cases hproxy
          rw [build_error hbuild]
          exact ⟨.refl _,rfl⟩
        · rename_i request hbuild
          rw [build_ok hbuild]
          split at hproxy
          · rename_i hcheck
            cases hproxy
            exact ⟨leads_blocked hcheck,rfl⟩
          · rename_i hcheck
            split at hproxy
            · rename_i hpin
              cases hproxy
              exact ⟨leads_verified hcheck fun modelAt' => by simp only [Setting.advance,hpin]; rfl,rfl⟩
            · rename_i hpin
              cases hproxy
              exact ⟨leads_verified hcheck fun modelAt' => by simp only [Setting.advance,hpin]; rfl,rfl⟩
      · rw [if_neg hsupports] at hproxy
        cases hproxy
        exact ⟨leads_resolved hresolve fun readAt modelAt' =>
          .one (advance_unsupported (by simpa using hsupports)),rfl⟩

theorem proxyRequest_isSome (o : Outside) (settings : ProxySettings) (dlp : DlpScanner) (s : AppState)
    (body : Value) (bodyLen : ℕ) (upstreamPath : String) (a : Answers) :
    ∃ r, proxyRequest o settings dlp s body bodyLen upstreamPath a = some r := by
  unfold proxyRequest
  split
  · exact ⟨_,rfl⟩
  · rename_i hentry
    obtain ⟨-,hmodel⟩ := admitBody_ok hentry
    obtain ⟨m,rfl⟩ := object_of_model hmodel
    split
    · exact ⟨_,rfl⟩
    · dsimp only
      split
      · rename_i hbuild
        have hnone := Option.map_eq_none_iff.mp hbuild
        rw [finalizeBody_object hmodel] at hnone
        cases hnone
      · exact ⟨_,rfl⟩
      · split
        · exact ⟨_,rfl⟩
        · split <;> exact ⟨_,rfl⟩

theorem authMiddleware_of_token {hashKey : String → String} {authorization : Option String}
    {token : String} {now : Instant} (htoken : extractBearerToken authorization = some token) :
    authMiddleware hashKey s authorization now utc =
      authMiddleware hashKey s (some ("Bearer " ++ token)) now utc := by
  simp only [authMiddleware,htoken,extractBearerToken_bearer]

/-- Where the verdict of `auth_middleware` takes the call. -/
def verdictPhase : Except AitError ApiKeyContext → CallPhase
  | .ok context => .admitted context
  | .error e => .refused e

@[simp] theorem ofAuth_decided {token : String} {basis : Option ApiKeyInfo}
    {reply : Except AitError ApiKeyContext} :
    CallPhase.ofAuth token (.decided basis reply) = verdictPhase reply := by
  cases reply <;> rfl

theorem leads_verdict :
    x.Leads req version a utc .arrived s modelAt
      (verdictPhase (authMiddleware x.hashKey s req.authorization a.now utc).1)
      (authMiddleware x.hashKey s req.authorization a.now utc).2 := by
  by_cases hauth : s.config.authEnabled = true
  · cases htoken : extractBearerToken req.authorization with
    | none =>
      have hverdict : authMiddleware x.hashKey s req.authorization a.now utc = (.error invalidKey,s) := by
        simp [authMiddleware,hauth,htoken]
      rw [hverdict]
      exact .one (by simp only [Setting.advance,hauth,htoken]; rfl)
    | some token =>
      rw [authMiddleware_of_token htoken]
      obtain ⟨basis,halone⟩ :=
        AuthPhase.alone_eq_authMiddleware hauth token version ⟨a.now,utc,a.order⟩
      have hstart : x.advance req version s modelAt a utc .arrived =
          some (.authenticating token .negativeCheck,s,modelAt,[]) := by
        simp [Setting.advance,hauth,htoken]
      have hrest : x.Leads req version a utc (.authenticating token .negativeCheck) s modelAt _ _ :=
        leads_auth 6 rfl halone
      rw [ofAuth_decided] at hrest
      exact .head hstart hrest
  · have hverdict : authMiddleware x.hashKey s req.authorization a.now utc = (.ok { name := none },s) := by
      simp [authMiddleware,hauth]
    rw [hverdict]
    exact .one (by simp only [Setting.advance,hauth]; rfl)

/-- A call that runs alone does what `auth_middleware` and then its handler do, and ends. -/
theorem alone_serves (x : Setting) (req : ClientRequest) (version : ℕ) (a : Answers) (utc : DateTime)
    (s : AppState) (modelAt : String → ℕ) :
    ∃ phase s' modelAt' logged, x.serve req a utc s = some (phase,s',logged) ∧
      Relation.ReflTransGen (x.Next req version a utc) ⟨.arrived,s,modelAt,[]⟩
        ⟨phase,s',modelAt',logged⟩ ∧
      ((∃ context d, phase = .dispatched context d) ∨ ∃ e, phase = .refused e) := by
  have hverdict : x.Leads req version a utc .arrived s modelAt _ _ := leads_verdict
  unfold serve
  generalize authMiddleware x.hashKey s req.authorization a.now utc = checked at hverdict ⊢
  obtain ⟨modelAt',hfirst⟩ := hverdict
  obtain ⟨e | context,app⟩ := checked
  · exact ⟨_,_,modelAt',[],rfl,hfirst,.inr ⟨e,rfl⟩⟩
  · cases hparsed : parseBody x.outside req.bytes with
    | error e =>
      have hrefused : x.Next req version a utc ⟨.admitted context,app,modelAt',[]⟩
          ⟨.refused e,app,modelAt',[]⟩ := ⟨[],by simp only [Setting.advance,hparsed],rfl⟩
      exact ⟨.refused e,app,modelAt',[],rfl,hfirst.tail hrefused,.inr ⟨e,rfl⟩⟩
    | ok parsed =>
      obtain ⟨⟨r,s',logged⟩,hproxy⟩ := proxyRequest_isSome x.outside x.proxy x.dlp app parsed.body
        parsed.bodyLen req.upstreamPath a
      obtain ⟨last,hrest⟩ : ∃ last, Relation.ReflTransGen (x.Next req version a utc)
          ⟨.admitted context,app,modelAt',[]⟩ ⟨answer context r,s',last,logged⟩ :=
        leads_proxy hparsed hproxy
      refine ⟨answer context r,s',last,logged,by simp only [hproxy]; rfl,hfirst.trans hrest,?_⟩
      cases r with
      | error e => exact .inr ⟨e,rfl⟩
      | ok d => exact .inl ⟨context,d,rfl⟩

end Setting
end Ait
