import Ait.Gateway

/-!
# What the gateway sends upstream

In every run, whatever calls, handlers, timeouts, cleanups and provider checks come between
the steps of a call: what is dispatched was let in by a stored key, carries a body that
passed the checks, goes to a stored route with the key of the very row its URL comes from,
and over a connection that can only reach allowed addresses.
-/

namespace Ait
open Transition History World

variable {x : Setting} {h h' : History Database} {config : ConfigApp} {client : Client}
  {s s' : AppState} {events : List Gateway.Event} {i : ℕ} {req : ClientRequest}

namespace Guarded

theorem of_eq (hs : Guarded config s) (hconfig : s'.config = s.config)
    (hdns : s'.ssrfDnsCache = s.ssrfDnsCache) (hclients : s'.pinnedClients = s.pinnedClients) :
    Guarded config s' where
  settings := hconfig.trans hs.settings
  dns := hdns ▸ hs.dns
  clients := hclients ▸ hs.clients

theorem apply (hs : Guarded config s) (j : Invalidation) : Guarded config (j.apply s) := by
  cases j with
  | pinnedClear => exact ⟨hs.settings,hs.dns,FiniteMap.Holds.empty⟩
  | _ => exact ⟨hs.settings,hs.dns,hs.clients⟩

theorem auth {hashKey : String → String} {token : String} {version : ℕ} {r : Reading}
    {phase phase' : AuthPhase} (hs : Guarded config s)
    (hadv : phase.advance hashKey token version s r = some (phase',s')) : Guarded config s' := by
  have hframe := authAdvance_frame hadv
  exact hs.of_eq (by rw [hframe]) (by rw [hframe]) (by rw [hframe])

theorem route {modelName : String} {version : ℕ} {r : Reading} {modelAt modelAt' : String → ℕ}
    {phase phase' : RoutePhase} (hs : Guarded config s)
    (hadv : phase.advance modelName version s modelAt r = some (phase',s',modelAt')) :
    Guarded config s' := by
  have hframe := routeAdvance_frame hadv
  exact hs.of_eq (by rw [hframe]) (by rw [hframe]) (by rw [hframe])

theorem world {hashKey : String → String} {w w' : World} {a : Label} (hw : Guarded config w.app)
    (hstep : Step hashKey w a w') : Guarded config w'.app := by
  cases hstep with
  | authenticate _ advance => exact hw.auth advance
  | route _ advance => exact hw.route advance
  | commit => exact hw.of_eq rfl rfl rfl
  | commitLate => exact hw.of_eq rfl rfl rfl
  | invalidate => exact hw.apply _
  | cleanup => exact ⟨hw.settings,holds_cleanupCache hw.dns _ _,hw.clients⟩
  | reap => exact ⟨hw.settings,hw.dns,hw.clients.retain _⟩
  | _ => exact hw

end Guarded

/-- What the calls share: the database, caches of what was stored, and guarded connections. -/
structure SharedSound (h : History Database) (config : ConfigApp) (client : Client) (s : AppState) :
    Prop where
  current : h.current = s.db
  caches : CachesStored h client s
  guarded : Guarded config s

namespace SharedSound

theorem withDns (hs : SharedSound h config client s) {dnsCache : DnsCache}
    (hdns : Guarded config { s with ssrfDnsCache := dnsCache }) :
    SharedSound h config client { s with ssrfDnsCache := dnsCache } :=
  ⟨hs.current,⟨hs.caches.origin,hs.caches.keys,hs.caches.models,hs.caches.providers⟩,hdns⟩

theorem insertAddresses (hs : SharedSound h config client s) {host : String} {ips : List IpAddr}
    (hips : ∀ ip ∈ ips, isAllowed ip config.ssrfAllowedCidrs) (now : Instant) :
    SharedSound h config client
      { s with ssrfDnsCache := s.ssrfDnsCache.insert host (ips,now) } :=
  hs.withDns ⟨hs.guarded.settings,hs.guarded.dns.insert hips,hs.guarded.clients⟩

theorem pin (hs : SharedSound h config client s) (url : Url) (ips : List IpAddr) (built : Bool)
    (now : Instant) : SharedSound h config client (s.pinnedClient url ips built now).2 := by
  have hframe : ∃ pinned, (s.pinnedClient url ips built now).2 = { s with pinnedClients := pinned } := by
    unfold AppState.pinnedClient
    split
    · exact ⟨_,rfl⟩
    · dsimp only
      split
      · exact ⟨_,rfl⟩
      · split
        · exact ⟨_,rfl⟩
        · split <;> exact ⟨_,rfl⟩
  have hguarded := hs.guarded.pin url ips built now
  obtain ⟨pinned,hframe⟩ := hframe
  rw [hframe] at hguarded ⊢
  exact ⟨hs.current,⟨hs.caches.origin,hs.caches.keys,hs.caches.models,hs.caches.providers⟩,hguarded⟩

end SharedSound

/-- A key stored at some time let the call in on a clock reading of the run; without
authentication the call has no name. -/
def Admitted (x : Setting) (h : History Database) (config : ConfigApp) (events : List Gateway.Event)
    (i : ℕ) (req : ClientRequest) (context : ApiKeyContext) : Prop :=
  if config.authEnabled then
    ∃ token info a utc, extractBearerToken req.authorization = some token ∧
      (h.Once fun db => db.keyInfo (x.hashKey token) = some info) ∧
      Gateway.Event.advance i a utc ∈ events ∧ verifyKey info utc = .ok context
  else context = { name := none }

/-- The body is small enough, nothing sensitive was found in it, and it names the model. -/
structure Clean (x : Setting) (req : ClientRequest) (body : Value) (modelName : String) : Prop where
  parsed : x.outside.json.fromSlice req.bytes = some body
  size : x.proxy.maxRequestBodyBytes = 0 ∨ req.bytes.length ≤ x.proxy.maxRequestBodyBytes
  dlp : x.dlp.isEnabled = true → x.dlp.scan x.outside.render body = none
  model : (body.get "model").bind Value.asStr = some modelName

/-- The route was stored, and the request was built for the upstream of a stored provider. -/
structure Drafted (x : Setting) (h : History Database) (client : Client) (req : ClientRequest)
    (draft : Draft) : Prop where
  route : ∃ modelName, Clean x req draft.parsed.body modelName ∧
    h.Once fun db => db.resolveModel modelName = some (draft.model,draft.provider)
  endpoint : draft.provider.providerType.supportsEndpoint req.upstreamPath = true
  upstream : ∃ q, (h.Once fun db => db.getProvider draft.provider.id = some q) ∧
    draft.upstream = createProvider q client
  request : draft.upstream.buildRequest x.outside draft.parsed.body
    (streamMode x.proxy draft.parsed.body) draft.model.upstreamModel req.upstreamPath =
      some (.ok draft.request)

/-- Past the endpoint check the provider is one that supports the endpoint. -/
def RoutePhase.Supported (upstreamPath : String) : RoutePhase → Prop
  | .createUpstream _ p _ | .routed _ p _ => p.providerType.supportsEndpoint upstreamPath = true
  | _ => True

/-- For a host without a colon the connection has addresses to go to, all of them allowed. -/
def Confined (config : ConfigApp) (url : Url) (client : Client) : Prop :=
  ∀ host, url.bareHost = some host → ':' ∉ host → client.addressesFor (String.ofList host) ≠ [] ∧
    ∀ ip ∈ client.addressesFor (String.ofList host), isAllowed ip config.ssrfAllowedCidrs

def CallSound (x : Setting) (h : History Database) (config : ConfigApp) (client : Client)
    (events : List Gateway.Event) (i : ℕ) (req : ClientRequest) : CallPhase → Prop
  | .arrived | .refused _ | .panicked => True
  | .authenticating token phase => config.authEnabled = true ∧
    extractBearerToken req.authorization = some token ∧ AuthStored x.hashKey h token phase
  | .admitted context => Admitted x h config events i req context
  | .routing context parsed modelName phase => Admitted x h config events i req context ∧
    Clean x req parsed.body modelName ∧ RouteStored h client modelName phase ∧
    phase.Supported req.upstreamPath
  | .resolving context draft | .lookingUp context draft _ =>
    Admitted x h config events i req context ∧ Drafted x h client req draft
  | .verified context draft ips => Admitted x h config events i req context ∧
    Drafted x h client req draft ∧ ∀ ip ∈ ips, isAllowed ip config.ssrfAllowedCidrs
  | .dispatched context d => Admitted x h config events i req context ∧
    ∃ parsed, Drafted x h client req ⟨parsed,d.request,d.model,d.provider,d.upstream⟩ ∧
      d.streamed = streamMode x.proxy parsed.body ∧ Confined config d.request.url d.client

section Extends

variable (hversion : h.version ≤ h'.version) (hpast : ∀ n, n ≤ h.version → h'.past n = h.past n)
include hversion hpast

theorem Admitted.extends {context : ApiKeyContext} (hc : Admitted x h config events i req context) :
    Admitted x h' config events i req context := by
  unfold Admitted at hc ⊢
  split
  · rename_i hauth
    rw [if_pos hauth] at hc
    obtain ⟨token,info,a,utc,htoken,honce,hmem,hverify⟩ := hc
    exact ⟨token,info,a,utc,htoken,honce.extends hversion hpast,hmem,hverify⟩
  · rename_i hauth
    rw [if_neg hauth] at hc
    exact hc

theorem Drafted.extends {draft : Draft} (hd : Drafted x h client req draft) :
    Drafted x h' client req draft where
  route := by
    obtain ⟨modelName,hclean,honce⟩ := hd.route
    exact ⟨modelName,hclean,honce.extends hversion hpast⟩
  endpoint := hd.endpoint
  upstream := by
    obtain ⟨q,honce,hq⟩ := hd.upstream
    exact ⟨q,honce.extends hversion hpast,hq⟩
  request := hd.request

theorem CallSound.extends {phase : CallPhase} (hc : CallSound x h config client events i req phase) :
    CallSound x h' config client events i req phase := by
  cases phase with
  | authenticating token phase => exact ⟨hc.1,hc.2.1,AuthStored.extends hversion hpast hc.2.2⟩
  | admitted context => exact Admitted.extends hversion hpast hc
  | routing context parsed modelName phase =>
    obtain ⟨hadmitted,hclean,hroute,hsupported⟩ := hc
    exact ⟨hadmitted.extends hversion hpast,hclean,hroute.extends hversion hpast,hsupported⟩
  | resolving context draft => exact ⟨hc.1.extends hversion hpast,hc.2.extends hversion hpast⟩
  | lookingUp context draft host => exact ⟨hc.1.extends hversion hpast,hc.2.extends hversion hpast⟩
  | verified context draft ips =>
    exact ⟨hc.1.extends hversion hpast,hc.2.1.extends hversion hpast,hc.2.2⟩
  | dispatched context d =>
    obtain ⟨hadmitted,parsed,hdraft,hrest⟩ := hc
    exact ⟨hadmitted.extends hversion hpast,parsed,hdraft.extends hversion hpast,hrest⟩
  | _ => trivial

end Extends

theorem parseBody_ok {o : Outside} {bytes : Bytes} {parsed : Parsed}
    (hparsed : parseBody o bytes = .ok parsed) :
    o.json.fromSlice bytes = some parsed.body ∧ parsed.bodyLen = bytes.length := by
  unfold parseBody at hparsed
  split at hparsed
  · rename_i hbody
    obtain rfl := Except.ok.inj hparsed
    exact ⟨hbody,rfl⟩
  · cases hparsed

theorem admitBody_clean {elapsedMs : ℕ} {parsed : Parsed} {modelName : String}
    {logged : List ProxyEvent} (hparsed : parseBody x.outside req.bytes = .ok parsed)
    (hentry : admitBody x.outside x.proxy x.dlp parsed.body parsed.bodyLen elapsedMs =
      (.ok modelName,logged)) : Clean x req parsed.body modelName := by
  obtain ⟨hdlp,hmodel⟩ := admitBody_ok hentry
  obtain ⟨hbody,hlen⟩ := parseBody_ok hparsed
  refine ⟨hbody,?_,hdlp,hmodel⟩
  rw [← hlen]
  unfold admitBody at hentry
  split at hentry
  · cases hentry
  · omega

theorem sound_ofAuth {token : String} {phase : AuthPhase} {a : Answers} {utc : DateTime}
    (hauth : config.authEnabled = true) (htoken : extractBearerToken req.authorization = some token)
    (hmem : .advance i a utc ∈ events) (hphase : AuthStored x.hashKey h token phase)
    (hdecided : ∀ basis context, phase = .decided basis (.ok context) → ∃ info,
      (h.Once fun db => db.keyInfo (x.hashKey token) = some info) ∧ verifyKey info utc = .ok context) :
    CallSound x h config client events i req (.ofAuth token phase) := by
  cases phase with
  | decided basis reply =>
    cases reply with
    | error e => trivial
    | ok context =>
      obtain ⟨info,honce,hverify⟩ := hdecided basis context rfl
      show Admitted x h config events i req context
      rw [Admitted,if_pos hauth]
      exact ⟨token,info,a,utc,htoken,honce,hmem,hverify⟩
  | _ => exact ⟨hauth,htoken,hphase⟩

theorem sound_ofRoute {context : ApiKeyContext} {parsed : Parsed} {modelName : String}
    {phase : RoutePhase} (hadmitted : Admitted x h config events i req context)
    (hclean : Clean x req parsed.body modelName)
    (hphase : RouteStored h client modelName phase) (hsupported : phase.Supported req.upstreamPath) :
    CallSound x h config client events i req (.ofRoute context parsed modelName phase) := by
  cases phase with
  | notFound => trivial
  | _ => exact ⟨hadmitted,hclean,hphase,hsupported⟩

/-- The endpoint is checked on the way to an upstream, and stays checked. -/
theorem supported_advance {modelName : String} {version : ℕ} {r : Reading}
    {modelAt modelAt' : String → ℕ} {phase phase' : RoutePhase}
    (hphase : phase.Supported req.upstreamPath) (hchecked : phase.unsupported req.upstreamPath = none)
    (hadv : phase.advance modelName version s modelAt r = some (phase',s',modelAt')) :
    phase'.Supported req.upstreamPath := by
  cases phase with
  | negativeCheck =>
    obtain ⟨-,-,⟨-,rfl⟩ | rfl⟩ := routeAdvance_negativeCheck hadv
    · trivial
    · trivial
  | cacheCheck =>
    obtain ⟨-,-,⟨m,p,-,rfl⟩ | rfl⟩ := routeAdvance_cacheCheck hadv
    · trivial
    · trivial
  | lookup =>
    obtain ⟨-,-,⟨m,p,-,rfl⟩ | ⟨-,rfl⟩⟩ := routeAdvance_lookup hadv
    · trivial
    · trivial
  | rememberUpstream m p readAt => cases hadv; trivial
  | rememberModel m p readAt => cases hadv; trivial
  | rememberUnknown readAt => cases hadv; trivial
  | knownUpstream m p readAt =>
    have hsupports : p.providerType.supportsEndpoint req.upstreamPath = true := by
      by_contra hno
      simp [RoutePhase.unsupported,hno] at hchecked
    obtain ⟨-,-,⟨upstream,-,rfl⟩ | rfl⟩ := routeAdvance_knownUpstream hadv
    · exact hsupports
    · exact hsupports
  | createUpstream m p readAt => cases hadv; exact hphase
  | routed m p upstream => cases hadv
  | notFound => cases hadv

theorem chosen_eq_some {phase : RoutePhase} {m : Model} {p : Provider} {upstream : UpstreamProvider}
    (hchosen : phase.chosen = some (m,p,upstream)) : phase = .routed m p upstream := by
  cases phase with
  | routed m' p' upstream' =>
    cases hchosen
    rfl
  | _ => cases hchosen

theorem sound_build {context : ApiKeyContext} {parsed : Parsed} {modelName : String} {m : Model}
    {p : Provider} {upstream : UpstreamProvider}
    (hadmitted : Admitted x h config events i req context)
    (hclean : Clean x req parsed.body modelName)
    (hroute : RouteStored h client modelName (.routed m p upstream))
    (hsupported : p.providerType.supportsEndpoint req.upstreamPath = true) :
    CallSound x h config client events i req (x.build req context parsed m p upstream) := by
  unfold Setting.build
  split
  · trivial
  · trivial
  · rename_i request hbuild
    exact ⟨hadmitted,⟨modelName,hclean,hroute.1⟩,hsupported,hroute.2,hbuild⟩

/-- Addresses are cached, and kept for the connection, when all of them are allowed. -/
theorem sound_checkAddresses {context : ApiKeyContext} {draft : Draft} {host : List Char}
    {ips : List IpAddr} {now : Instant} (hs : SharedSound h config client s)
    (hadmitted : Admitted x h config events i req context) (hdraft : Drafted x h client req draft) :
    SharedSound h config client (checkAddresses s host ips now context draft).2 ∧
      CallSound x h config client events i req (checkAddresses s host ips now context draft).1 := by
  unfold checkAddresses
  split
  · rename_i hall
    have hips : ∀ ip ∈ ips, isAllowed ip config.ssrfAllowedCidrs := by
      rw [← hs.guarded.settings]
      exact fun ip hip => List.all_eq_true.mp hall ip hip
    exact ⟨hs.insertAddresses hips now,hadmitted,hdraft,hips⟩
  · exact ⟨hs,trivial⟩

/-- A connection that is pinned to allowed addresses is confined to them. -/
theorem confined_of_pinned (hs : Guarded config s) {url : Url} {ips : List IpAddr} {built : Bool}
    {now : Instant} {pinned : Client} (hips : ∀ ip ∈ ips, isAllowed ip config.ssrfAllowedCidrs)
    (hpin : (s.pinnedClient url ips built now).1 = .ok pinned) : Confined config url pinned := by
  intro host hhost hcolon
  obtain ⟨hne,order,hperm,hbuilt⟩ := hs.pinnedClient_ok hhost hcolon hpin
  rw [hbuilt.addressesFor]
  refine ⟨?_,fun ip hip => hips ip (hperm.mem_iff.mp hip)⟩
  rintro rfl
  exact hne hperm.symm.eq_nil

theorem advance_sound {version : ℕ} {modelAt modelAt' : String → ℕ} {a : Answers} {utc : DateTime}
    {phase phase' : CallPhase} {logged : List ProxyEvent} (hs : SharedSound h config client s)
    (hcall : CallSound x h config client events i req phase) (hmem : .advance i a utc ∈ events)
    (hadv : x.advance req version s modelAt a utc phase = some (phase',s',modelAt',logged)) :
    SharedSound h config client s' ∧ CallSound x h config client events i req phase' := by
  cases phase with
  | arrived =>
    simp only [Setting.advance,hs.guarded.settings] at hadv
    split at hadv
    · rename_i hauth
      cases hadv
      refine ⟨hs,?_⟩
      show Admitted x h config events i req { name := none }
      rw [Admitted,if_neg hauth]
    · rename_i hauth
      have hauth : config.authEnabled = true := by simpa using hauth
      split at hadv
      · cases hadv
        exact ⟨hs,trivial⟩
      · rename_i token htoken
        cases hadv
        exact ⟨hs,hauth,htoken,trivial⟩
  | authenticating token phase =>
    obtain ⟨hauth,htoken,hphase⟩ := hcall
    obtain ⟨⟨next,app⟩,hauthAdv,heq⟩ := Option.map_eq_some_iff.mp hadv
    cases heq
    obtain ⟨hcaches,hnext,hdecided⟩ := authAdvance_stored hs.current hs.caches hphase hauthAdv
    have hdb := congrArg AppState.db (authAdvance_frame hauthAdv)
    exact ⟨⟨hs.current.trans hdb.symm,hcaches,hs.guarded.auth hauthAdv⟩,
      sound_ofAuth hauth htoken hmem hnext hdecided⟩
  | admitted context =>
    simp only [Setting.advance] at hadv
    split at hadv
    · cases hadv
      exact ⟨hs,trivial⟩
    · rename_i hparsed
      split at hadv
      · cases hadv
        exact ⟨hs,trivial⟩
      · rename_i hentry
        cases hadv
        exact ⟨hs,hcall,admitBody_clean hparsed hentry,trivial,trivial⟩
  | routing context parsed modelName phase =>
    obtain ⟨hadmitted,hclean,hroute,hsupported⟩ := hcall
    simp only [Setting.advance] at hadv
    split at hadv
    · rename_i m p upstream hchosen
      cases hadv
      obtain rfl := chosen_eq_some hchosen
      exact ⟨hs,sound_build hadmitted hclean hroute hsupported⟩
    · split at hadv
      · cases hadv
        exact ⟨hs,trivial⟩
      · rename_i hchecked
        obtain ⟨⟨next,app,modelAt'⟩,hrouteAdv,heq⟩ := Option.map_eq_some_iff.mp hadv
        cases heq
        obtain ⟨hcaches,hnext⟩ := routeAdvance_stored hs.current hs.caches hroute hrouteAdv
        have hdb := congrArg AppState.db (routeAdvance_frame hrouteAdv)
        exact ⟨⟨hs.current.trans hdb.symm,hcaches,hs.guarded.route hrouteAdv⟩,
          sound_ofRoute hadmitted hclean hnext (supported_advance hsupported hchecked hrouteAdv)⟩
  | resolving context draft =>
    simp only [Setting.advance] at hadv
    split at hadv
    · cases hadv
      exact ⟨hs,trivial⟩
    · split at hadv
      · cases hadv
        exact ⟨hs,hcall⟩
      · cases hadv
        exact sound_checkAddresses hs hcall.1 hcall.2
  | lookingUp context draft host =>
    simp only [Setting.advance] at hadv
    split at hadv
    · cases hadv
      exact ⟨hs,trivial⟩
    · cases hadv
      exact sound_checkAddresses hs hcall.1 hcall.2
  | verified context draft ips =>
    obtain ⟨hadmitted,hdraft,hips⟩ := hcall
    have hpinned := hs.pin draft.request.url ips a.built a.now
    simp only [Setting.advance] at hadv
    split at hadv
    · rename_i hpin
      cases hadv
      rw [hpin] at hpinned
      exact ⟨hpinned,trivial⟩
    · rename_i client hpin
      cases hadv
      have hconfined := confined_of_pinned hs.guarded hips (congrArg Prod.fst hpin)
      rw [hpin] at hpinned
      exact ⟨hpinned,hadmitted,draft.parsed,hdraft,rfl,hconfined⟩
  | dispatched context d => cases hadv
  | refused e => cases hadv
  | panicked => cases hadv

def CallPhase.sent : CallPhase → Option (ApiKeyContext × Dispatch)
  | .dispatched context d => some (context,d)
  | _ => none

theorem buildRequest_built {o : Outside} {body : Value} {stream : Bool}
    {upstreamModel upstreamPath : String} {upstream : UpstreamProvider} {request : UpstreamRequest}
    (hbuild : upstream.buildRequest o body stream upstreamModel upstreamPath = some (.ok request)) :
    request.headers = ("Content-Type","application/json")::
      (upstream.core.authHeaderValue.map fun value => ("Authorization",value)).toList ∧
    o.build (upstream.core.upstreamUrl upstreamPath) request.headers request.body =
      .ok request.url := by
  obtain ⟨sent,-,hrequest⟩ := Option.map_eq_some_iff.mp hbuild
  dsimp only at hrequest
  split at hrequest
  · cases hrequest
  · split at hrequest
    · cases hrequest
    · rename_i url hurl
      obtain rfl := Except.ok.inj hrequest
      exact ⟨rfl,hurl⟩

theorem resolved_enabled {db : Database} {modelName : String} {m : Model} {p : Provider}
    (hroute : db.resolveModel modelName = some (m,p)) :
    m.name = modelName ∧ m.enabled = true ∧ p.enabled = true ∧ m.providerId = p.id := by
  obtain ⟨r,-,q,-,hname,hmodelOn,hid,hproviderOn,rfl,rfl⟩ := Database.resolveModel_eq_some.mp hroute
  exact ⟨hname,hmodelOn,hproviderOn,hid.symm⟩

@[simp] theorem core_createProvider (q : Provider) (client : Client) :
    (createProvider q client).core = ProviderCore.new q client := by
  unfold createProvider
  cases q.providerType <;> rfl

namespace Gateway

variable {g g' : Gateway}

structure Sound (x : Setting) (config : ConfigApp) (client : Client) (events : List Event)
    (g : Gateway) : Prop where
  stored : g.world.Stored x.hashKey client
  guarded : Guarded config g.world.app
  calls : ∀ i req phase, g.calls i = some (req,phase) →
    CallSound x g.world.hist config client events i req phase

theorem Sound.shared (hg : Sound x config client events g) :
    SharedSound g.world.hist config client g.world.app :=
  ⟨hg.stored.current,hg.stored.caches,hg.guarded⟩

theorem Sound.start (db : Database) :
    Sound x config (AppState.new config db).httpClient events (start config db) where
  stored := Stored.start config db
  guarded := Guarded.new config db
  calls i req phase hcall := by cases hcall

theorem Sound.setCall (hg : Sound x config client events g) {call : Option (ClientRequest × CallPhase)}
    (hcall : ∀ req phase, call = some (req,phase) →
      CallSound x g.world.hist config client events i req phase) :
    Sound x config client events (g.setCall i call) where
  stored := hg.stored
  guarded := hg.guarded
  calls j req phase hj := by
    simp only [Gateway.setCall,Function.update_apply] at hj
    split at hj
    · rename_i hi
      subst hi
      exact hcall req phase hj
    · exact hg.calls j req phase hj

/-- A step on the shared state that keeps it sound keeps the gateway sound. -/
theorem Sound.withApp (hg : Sound x config client events g) {app : AppState}
    (happ : SharedSound g.world.hist config client app) (modelAt : String → ℕ)
    (logged : List (ℕ × ProxyEvent)) :
    Sound x config client events
      { g with world := { g.world with app := app,modelAt := modelAt },logged := logged } where
  stored := ⟨happ.current,happ.caches,hg.stored.tasks⟩
  guarded := happ.guarded
  calls := hg.calls

theorem Sound.step {e : Event} (hg : Sound x config client events g) (hmem : e ∈ events)
    (hstep : g.step x e = some g') : Sound x config client events g' := by
  cases e with
  | world l =>
    obtain ⟨w,hw,rfl⟩ := Option.map_eq_some_iff.mp hstep
    have hcases := step_cases hw
    have hext := hcases.extends
    exact ⟨hg.stored.step hcases,hg.guarded.world hcases,fun i req phase hcall =>
      (hg.calls i req phase hcall).extends hext.version hext.past⟩
  | checkConfig url answer now =>
    obtain rfl := Option.some.inj hstep
    exact hg.withApp (hg.shared.withDns (hg.guarded.resolve url answer now)) _ _
  | call i req =>
    simp only [Gateway.step] at hstep
    split at hstep
    · obtain rfl := Option.some.inj hstep
      refine hg.setCall fun req' phase heq => ?_
      cases heq
      trivial
    · cases hstep
  | advance i a utc =>
    obtain ⟨⟨req,phase⟩,hcall,hstep⟩ := Option.bind_eq_some_iff.mp hstep
    obtain ⟨⟨phase',app,modelAt,logged⟩,hadv,rfl⟩ := Option.map_eq_some_iff.mp hstep
    obtain ⟨happ,hphase⟩ := advance_sound hg.shared (hg.calls i req phase hcall) hmem hadv
    refine (hg.withApp happ modelAt _).setCall fun req' phase' heq => ?_
    cases heq
    exact hphase
  | drop i =>
    obtain ⟨call,hcall,rfl⟩ := Option.map_eq_some_iff.mp hstep
    refine hg.setCall fun req phase heq => ?_
    cases heq

theorem Sound.run {db : Database}
    (hrun : exec (Gateway.step x) (Gateway.start config db) events = some g) :
    Sound x config (AppState.new config db).httpClient events g := by
  have hok : Along (Gateway.step x) (fun _ e => e ∈ events) (Gateway.start config db) events :=
    along_of_mem (fun _ he => he) _
  exact exec_invariant (fun g e g' hstep hmem hg => Sound.step hg hmem hstep) hrun hok
    (Sound.start db)

/-- Whatever came between the steps of a call: one that is dispatched was let in by a stored
key, has a body that passed the checks, goes to a stored route of enabled rows with the model
rewritten, carries the key of the stored row its URL is built from, and cannot reach an address
that is not allowed. -/
theorem dispatched_sound {db : Database} {context : ApiKeyContext} {d : Dispatch}
    (hrun : exec (step x) (start config db) events = some g)
    (hcall : g.calls i = some (req,.dispatched context d)) :
    Admitted x g.world.hist config events i req context ∧
    ∃ modelName fields, Clean x req (.object fields) modelName ∧
      (g.world.hist.Once fun db => db.resolveModel modelName = some (d.model,d.provider)) ∧
      d.model.name = modelName ∧ d.model.enabled = true ∧ d.provider.enabled = true ∧
      d.model.providerId = d.provider.id ∧
      d.provider.providerType.supportsEndpoint req.upstreamPath = true ∧
      d.request.sent =
        .object (finalFields fields d.streamed d.model.upstreamModel req.upstreamPath) ∧
      x.outside.json.toVec d.request.sent = some d.request.body ∧
      (∃ q, (g.world.hist.Once fun db => db.getProvider d.provider.id = some q) ∧
        d.request.headers = ("Content-Type","application/json")::
          (q.apiKey.map fun key => ("Authorization","Bearer " ++ key)).toList ∧
        x.outside.build (trimEndSlashes q.baseUrl ++ req.upstreamPath) d.request.headers
          d.request.body = .ok d.request.url) ∧
      Confined config d.request.url d.client := by
  obtain ⟨hadmitted,⟨body,bodyLen⟩,hdraft,hstreamed,hconfined⟩ :=
    (Sound.run hrun).calls i req _ hcall
  obtain ⟨modelName,hclean,hroute⟩ := hdraft.route
  obtain ⟨fields,rfl⟩ : ∃ fields, body = .object fields := object_of_model hclean.model
  obtain ⟨n,hn,hrow⟩ := hroute
  obtain ⟨hname,hmodelOn,hproviderOn,hid⟩ := resolved_enabled hrow
  have hbuild := hdraft.request
  obtain ⟨hsent,hbytes⟩ := buildRequest_ok hbuild
  rw [finalizeBody_object hclean.model,← hstreamed] at hsent
  obtain ⟨q,hq,hupstream⟩ := hdraft.upstream
  obtain ⟨hheaders,hurl⟩ := buildRequest_built hbuild
  rw [hupstream,core_createProvider] at hheaders hurl
  refine ⟨hadmitted,modelName,fields,hclean,⟨n,hn,hrow⟩,hname,hmodelOn,hproviderOn,hid,
    hdraft.endpoint,(Option.some.inj hsent).symm,hbytes,⟨q,hq,?_,hurl⟩,hconfined⟩
  rw [hheaders]
  simp [ProviderCore.new,Option.map_map,Function.comp_def]

def demoTables : Database where
  providers := [⟨"p1","local","openai_compat","http://1.1.1.1/v1/",some "sk-up",true,0,0⟩]
  models := [⟨"m1","ai","p1","up",true,0,0⟩]
  apiKeys := [⟨"k1","sk-1","******","laptop",true,0,0,none⟩]
  schema := by decide

def demoAdvance : Event := .advance 0 demoAnswers 0

/-- The key is deleted while the call it let in is on its way. -/
theorem dispatched_sound_deleted :
    let dlp := DlpScanner.new ⟨fun _ => none⟩ { enabled := false,sensitiveValues := [],scanNumbers := false }
    let body : Value := .object [("input",.string "hi"),("model",.string "ai")]
    let outside : Outside := { demoOutside with json := ⟨fun _ => some body,demoOutside.json.toVec⟩ }
    let x : Setting := ⟨id,outside,⟨0,true,4⟩,dlp⟩
    let config : ConfigApp :=
      { authEnabled := true,cacheMaxEntries := 10,connectTimeoutSecs := 5,ssrfAllowedCidrs := [] }
    let req : ClientRequest :=
      ⟨some "Bearer sk-1",utf8 "\x7b\"input\":\"hi\",\"model\":\"ai\"\x7d",.responses⟩
    let events : List Event := .call 0 req::List.replicate 7 demoAdvance ++
      [.world (.mutate 1 (.deleteApiKey "k1")),.world (World.tick 1),.world (World.tick 1)] ++
      List.replicate 11 demoAdvance
    ∃ g sent context d, exec (step x) (start config demoTables) events = some g ∧
      g.calls 0 = some (sent,.dispatched context d) ∧ g.world.app.db.keyInfo "sk-1" = none ∧
      Admitted x g.world.hist config events 0 sent context ∧ Confined config d.request.url d.client := by
  intro dlp body outside x config req events
  have hok : (exec (step x) (start config demoTables) events).map
      (fun g => ((g.calls 0).map (fun call => call.2.sent.isSome),g.world.app.db.keyInfo "sk-1")) =
        some (some true,none) := by decide +kernel
  obtain ⟨g,hrun,hg⟩ := Option.map_eq_some_iff.mp hok
  obtain ⟨hsent,hkey⟩ := Prod.mk.inj hg
  obtain ⟨⟨sent,phase⟩,hcall,hphase⟩ := Option.map_eq_some_iff.mp hsent
  cases phase with
  | dispatched context d =>
    obtain ⟨hadmitted,-,-,-,-,-,-,-,-,-,-,-,-,hconfined⟩ := dispatched_sound hrun hcall
    exact ⟨g,sent,context,d,hrun,hcall,hkey,hadmitted,hconfined⟩
  | _ => cases hphase

end Gateway
end Ait
