import Ait.Auth
import Ait.Resolve
import Ait.Transition

/-!
# Requests run one at a time

When every request runs to completion before the next one starts, the caches are
invisible: authentication decides as the stored row does, and a resolved route is
the one the database gives. Each agreement is an invariant of the caches that every
operation restores.
-/

namespace Ait

/-- What the server does between two requests is an operation like the requests. -/
inductive Operation
  | write (m : Mutation)
  | authenticate (token : String)
  | route (modelName : String) (order order' : IterationOrder)
  | cleanup (maxEntries : ℕ)
  | reap
  | advance (elapsed : ℕ) (drift : ℤ)

/-- `presented` lists the tokens that requests carried so far. -/
structure Session where
  app : AppState
  now : Instant
  utc : DateTime
  presented : List String

def routeRequest (s : AppState) (modelName : String) (order order' : IterationOrder)
    (now : Instant) : Except AitError ((Model × Provider) × UpstreamProvider) × AppState :=
  match resolveModelAndProvider s modelName order now with
  | (.error e,s) => (.error e,s)
  | (.ok (m,p),s) =>
    let (upstream,s) := cachedUpstream s p order' now
    (.ok ((m,p),upstream),s)

def uncachedRoute (db : Database) (httpClient : Client) (modelName : String) :
    Except AitError ((Model × Provider) × UpstreamProvider) :=
  match db.resolveModel modelName with
  | some (m,p) => .ok ((m,p),createProvider p httpClient)
  | none => .error (modelNotFound modelName)

theorem routeRequest_frame (s : AppState) (modelName : String) (order order' : IterationOrder)
    (now : Instant) :
    ∃ modelCache negativeModelCache providerCache,
      (routeRequest s modelName order order' now).2 =
        { s with
          modelCache := modelCache
          negativeModelCache := negativeModelCache
          providerCache := providerCache } := by
  have hresolve := resolveModelAndProvider_frame s modelName order now
  unfold routeRequest
  generalize resolveModelAndProvider s modelName order now = resolved at hresolve ⊢
  obtain ⟨m,n,p,hresolve⟩ := hresolve
  rcases resolved with ⟨e | ⟨model,provider⟩,s'⟩
  · exact ⟨m,n,p,hresolve⟩
  · obtain ⟨p',hup⟩ := cachedUpstream_frame s' provider order' now
    refine ⟨m,n,p',?_⟩
    dsimp only at hresolve ⊢
    rw [hup,hresolve]

namespace Session

variable (hashKey : String → String)

def start (config : ConfigApp) (db : Database) (now : Instant) (utc : DateTime) : Session where
  app := AppState.new config db
  now := now
  utc := utc
  presented := []

def perform (s : Session) : Operation → Session
  | .write m =>
    match m.commit hashKey s.app.db with
    | .error _ => s
    | .ok c => { s with app := c.finish s.app }
  | .authenticate token =>
    { s with
      app := (authMiddleware hashKey s.app (some ("Bearer " ++ token)) s.now s.utc).2
      presented := token::s.presented }
  | .route modelName order order' =>
    { s with app := (routeRequest s.app modelName order order' s.now).2 }
  | .cleanup maxEntries => { s with app := cleanupCaches s.app s.now maxEntries }
  | .reap => { s with app := cleanupNegatives s.app s.now }
  | .advance elapsed drift => { s with now := s.now+elapsed,utc := s.utc+drift }

def step (s : Session) (a : Operation) : Option Session := some (s.perform hashKey a)

end Session

/-- The positive cache holds stored rows; the negative one hashes of presented
tokens that have no row. -/
structure KeysAgree (hashKey : String → String) (presented : List String) (s : AppState) :
    Prop where
  cached : s.apiKeyCache.Holds fun hash v => s.db.keyInfo hash = some v.1
  rejected : s.negativeKeyCache.Holds fun hash _ =>
    s.db.keyInfo hash = none ∧ ∃ token ∈ presented, hashKey token = hash

namespace KeysAgree

variable {hashKey : String → String} {presented : List String} {s : AppState}

theorem start (config : ConfigApp) (db : Database) :
    KeysAgree hashKey [] (AppState.new config db) :=
  ⟨.empty,.empty⟩

/-- A state with the same rows whose key caches only lost entries agrees. -/
theorem of_sub (h : KeysAgree hashKey presented s) {s' : AppState} (hdb : s'.db = s.db)
    (hcached : ∀ hash v, s'.apiKeyCache.get hash = some v →
      ∃ t, s.apiKeyCache.get hash = some (v.1,t))
    (hrejected : ∀ hash v, s'.negativeKeyCache.get hash = some v →
      s.negativeKeyCache.get hash = some v) : KeysAgree hashKey presented s' := by
  constructor
  · intro hash v hv
    obtain ⟨t,ht⟩ := hcached hash v hv
    rw [hdb]
    exact h.cached hash (v.1,t) ht
  · intro hash v hv
    rw [hdb]
    exact h.rejected hash v (hrejected hash v hv)

theorem write (h : KeysAgree hashKey presented s) {m : Mutation} {c : Committed Unit}
    (hc : m.commit hashKey s.db = .ok c)
    (hfresh : ∀ now input newId rawKey, m = .createApiKey now input newId rawKey →
      ∀ token ∈ presented, hashKey token ≠ hashKey rawKey) :
    KeysAgree hashKey presented (c.finish s) := by
  have heffect := Mutation.effect hc
  constructor
  · intro hash v hv
    have hkept := Committed.finish_apiKeyCache hv
    have hinfo := h.cached hash v hkept.1
    rcases heffect.keyInfo hinfo with hsame | ⟨i,hi,hdrops⟩
    · simpa using hsame
    · rw [hkept.2 i hi] at hdrops
      cases hdrops
  · intro hash v hv
    have hkept := Committed.finish_negativeKeyCache hv
    obtain ⟨habsent,token,htoken,hhash⟩ := h.rejected hash v hkept.1
    refine ⟨?_,token,htoken,hhash⟩
    rw [Committed.finish_db]
    refine heffect.noKeyInfo habsent fun now input newId rawKey hm heq => ?_
    exact hfresh now input newId rawKey hm token htoken (hhash.trans heq.symm)

theorem present (h : KeysAgree hashKey presented s) (token : String) :
    KeysAgree hashKey (token::presented) s := by
  refine ⟨h.cached,h.rejected.mono fun hash _ ⟨habsent,t,ht,hhash⟩ => ?_⟩
  exact ⟨habsent,t,List.mem_cons_of_mem token ht,hhash⟩

theorem remember (h : KeysAgree hashKey presented s) {token : String} (htoken : token ∈ presented)
    (stillCurrent : Bool) (now : Instant) :
    KeysAgree hashKey presented (s.rememberKey (hashKey token)
      (s.db.getApiKeyByRaw hashKey token) stillCurrent now) := by
  have hdb : (s.rememberKey (hashKey token) (s.db.getApiKeyByRaw hashKey token) stillCurrent
      now).db = s.db := by rw [AppState.rememberKey_frame]
  constructor
  · intro hash v hv
    rw [hdb]
    rcases AppState.rememberKey_apiKeyCache hv with hold | ⟨rfl,hfound,-⟩
    · exact h.cached hash v hold
    · exact hfound
  · intro hash v hv
    rw [hdb]
    rcases AppState.rememberKey_negativeKeyCache hv with hold | ⟨rfl,hfound,-⟩
    · exact h.rejected hash v hold
    · exact ⟨hfound,token,htoken,rfl⟩

/-- Over agreeing caches a request is decided by the stored row, and leaves agreeing caches. -/
theorem authenticate (h : KeysAgree hashKey presented s) (hauth : s.config.authEnabled = true)
    (token : String) (now : Instant) (utc : DateTime) :
    (authMiddleware hashKey s (some ("Bearer " ++ token)) now utc).1 =
        verdict (s.db.getApiKeyByRaw hashKey token) utc ∧
      KeysAgree hashKey (token::presented)
        (authMiddleware hashKey s (some ("Bearer " ++ token)) now utc).2 := by
  have hpresent := h.present token
  simp only [authMiddleware,hauth,extractBearerToken_bearer,not_true,if_false]
  split
  · rename_i hinvalid
    obtain ⟨seen,hseen⟩ := freshVerdict_entry hinvalid
    have habsent : s.db.getApiKeyByRaw hashKey token = none := (h.rejected _ _ hseen).1
    exact ⟨by rw [habsent]; rfl,hpresent⟩
  have hslide : KeysAgree hashKey (token::presented) (s.cachedKey (hashKey token) now).2 :=
    hpresent.of_sub rfl (fun _ _ hv => freshEntry_get hv) fun _ _ hv => hv
  have hdb : (s.cachedKey (hashKey token) now).2.db = s.db := rfl
  have hhit : ∀ cached, (s.cachedKey (hashKey token) now).1 = some cached →
      s.db.getApiKeyByRaw hashKey token = some cached := by
    intro cached hfound
    obtain ⟨t,ht⟩ := freshEntry_hit hfound
    exact h.cached _ _ ht
  generalize s.cachedKey (hashKey token) now = slid at hslide hdb hhit ⊢
  rcases slid with ⟨_ | cached,s'⟩
  · rw [← hdb]
    exact ⟨rfl,hslide.remember List.mem_cons_self _ now⟩
  · rw [hhit cached rfl]
    exact ⟨rfl,hslide⟩

end KeysAgree

/-- The model cache holds the routes the database gives, the negative cache names it
gives none for, and the provider cache clients built from stored rows. -/
structure RoutesAgree (s : AppState) : Prop where
  routes : s.modelCache.Holds fun name v => s.db.resolveModel name = some v.1
  unknown : s.negativeModelCache.Holds fun name _ => s.db.resolveModel name = none
  upstreams : s.providerCache.Holds fun id v =>
    ∃ p, s.db.getProvider id = some p ∧ v.1 = createProvider p s.httpClient

namespace RoutesAgree

variable {s : AppState}

theorem start (config : ConfigApp) (db : Database) : RoutesAgree (AppState.new config db) :=
  ⟨.empty,.empty,.empty⟩

/-- A state with the same rows whose routing caches only lost entries agrees. -/
theorem of_sub (h : RoutesAgree s) {s' : AppState} (hdb : s'.db = s.db)
    (hclient : s'.httpClient = s.httpClient)
    (hroutes : ∀ name v, s'.modelCache.get name = some v →
      ∃ t, s.modelCache.get name = some (v.1,t))
    (hunknown : ∀ name v, s'.negativeModelCache.get name = some v →
      s.negativeModelCache.get name = some v)
    (hupstreams : ∀ id v, s'.providerCache.get id = some v →
      ∃ t, s.providerCache.get id = some (v.1,t)) : RoutesAgree s' := by
  constructor
  · intro name v hv
    obtain ⟨t,ht⟩ := hroutes name v hv
    rw [hdb]
    exact h.routes name (v.1,t) ht
  · intro name v hv
    rw [hdb]
    exact h.unknown name v (hunknown name v hv)
  · intro id v hv
    obtain ⟨t,ht⟩ := hupstreams id v hv
    rw [hdb,hclient]
    exact h.upstreams id (v.1,t) ht

theorem write (h : RoutesAgree s) {hashKey : String → String} {m : Mutation} {c : Committed Unit}
    (hc : m.commit hashKey s.db = .ok c) : RoutesAgree (c.finish s) := by
  have heffect := Mutation.effect hc
  constructor
  · intro name v hv
    have hkept := Committed.finish_modelCache hv
    have hroute := h.routes name v hkept.1
    rcases heffect.resolveModel hroute with hsame | ⟨i,hi,hdrops⟩
    · simpa using hsame
    · rw [hkept.2 i hi] at hdrops
      cases hdrops
  · intro name v hv
    have hkept := Committed.finish_negativeModelCache hv
    have habsent := h.unknown name v hkept.1
    rcases heffect.noModel habsent with hsame | ⟨i,hi,hdrops⟩
    · simpa using hsame
    · rw [hkept.2 i hi] at hdrops
      cases hdrops
  · intro id v hv
    have hkept := Committed.finish_providerCache hv
    obtain ⟨p,hp,hclient⟩ := h.upstreams id v hkept.1
    rcases heffect.getProvider hp with hsame | ⟨i,hi,hdrops⟩
    · exact ⟨p,by simpa using hsame,by simpa using hclient⟩
    · rw [hkept.2 i hi] at hdrops
      cases hdrops

theorem rememberUpstream (h : RoutesAgree s) {p : Provider} (hp : s.db.getProvider p.id = some p)
    (order : IterationOrder) (now : Instant) : RoutesAgree (s.rememberUpstream p order now) := by
  refine ⟨h.routes,h.unknown,fun id v hv => ?_⟩
  rcases get_insertCapped hv with ⟨hold,-⟩ | ⟨rfl,rfl,-⟩
  · exact h.upstreams id v hold
  · exact ⟨p,hp,rfl⟩

theorem rememberModel (h : RoutesAgree s) {modelName : String} {route : Model × Provider}
    (hroute : s.db.resolveModel modelName = some route) (order : IterationOrder) (now : Instant) :
    RoutesAgree (s.rememberModel modelName route order now) := by
  refine ⟨fun name v hv => ?_,h.unknown,h.upstreams⟩
  rcases get_insertCapped hv with ⟨hold,-⟩ | ⟨rfl,rfl,-⟩
  · exact h.routes name v hold
  · exact hroute

theorem rememberUnknown (h : RoutesAgree s) {modelName : String}
    (habsent : s.db.resolveModel modelName = none) (order : IterationOrder) (now : Instant) :
    RoutesAgree (s.rememberUnknown modelName order now) := by
  refine ⟨h.routes,fun name v hv => ?_,h.upstreams⟩
  rcases get_insertCapped hv with ⟨hold,-⟩ | ⟨rfl,rfl,-⟩
  · exact h.unknown name v hold
  · exact habsent

/-- Over agreeing caches a model resolves as in the database, and agreement stays. -/
theorem resolve (h : RoutesAgree s) (modelName : String) (order : IterationOrder) (now : Instant) :
    (resolveModelAndProvider s modelName order now).1 =
        (match s.db.resolveModel modelName with
          | some route => .ok route
          | none => .error (modelNotFound modelName)) ∧
      RoutesAgree (resolveModelAndProvider s modelName order now).2 ∧
      (resolveModelAndProvider s modelName order now).2.db = s.db ∧
      (resolveModelAndProvider s modelName order now).2.httpClient = s.httpClient := by
  unfold resolveModelAndProvider
  split
  · rename_i hunknown
    obtain ⟨seen,hseen⟩ := freshVerdict_entry hunknown
    rw [h.unknown _ _ hseen]
    exact ⟨rfl,h,rfl,rfl⟩
  have hslide : RoutesAgree (s.cachedModel modelName now).2 :=
    h.of_sub rfl rfl (fun _ _ hv => freshEntry_get hv) (fun _ _ hv => hv) fun _ v hv => ⟨v.2,hv⟩
  have hdb : (s.cachedModel modelName now).2.db = s.db := rfl
  have hclient : (s.cachedModel modelName now).2.httpClient = s.httpClient := rfl
  have hhit : ∀ route, (s.cachedModel modelName now).1 = some route →
      s.db.resolveModel modelName = some route := fun route hfound =>
    have ⟨t,ht⟩ := freshEntry_hit hfound
    h.routes _ _ ht
  generalize s.cachedModel modelName now = slid at hslide hdb hclient hhit ⊢
  rcases slid with ⟨_ | route,s'⟩
  · rw [← hdb,← hclient]
    dsimp only
    split
    · rename_i m p hroute
      have hp := Database.getProvider_of_resolveModel hroute
      refine ⟨by rw [hroute],?_,rfl,rfl⟩
      exact (hslide.rememberUpstream hp order now).rememberModel hroute order now
    · rename_i habsent
      exact ⟨by rw [habsent],hslide.rememberUnknown habsent order now,rfl,rfl⟩
  · rw [hhit route rfl]
    exact ⟨rfl,hslide,hdb,hclient⟩

/-- Over agreeing caches the upstream client is the one the stored row gives. -/
theorem upstream (h : RoutesAgree s) {p : Provider} (hp : s.db.getProvider p.id = some p)
    (order : IterationOrder) (now : Instant) :
    (cachedUpstream s p order now).1 = createProvider p s.httpClient ∧
      RoutesAgree (cachedUpstream s p order now).2 := by
  unfold cachedUpstream
  have hslide : RoutesAgree (s.knownUpstream p.id now).2 :=
    h.of_sub rfl rfl (fun _ v hv => ⟨v.2,hv⟩) (fun _ _ hv => hv) fun _ _ hv => freshEntry_get hv
  have hdb : (s.knownUpstream p.id now).2.db = s.db := rfl
  have hclient : (s.knownUpstream p.id now).2.httpClient = s.httpClient := rfl
  have hhit : ∀ u, (s.knownUpstream p.id now).1 = some u → u = createProvider p s.httpClient := by
    intro u hfound
    obtain ⟨t,ht⟩ := freshEntry_hit hfound
    obtain ⟨q,hq,hu⟩ := h.upstreams _ _ ht
    obtain rfl := Option.some.inj (hp.symm.trans hq)
    exact hu
  generalize s.knownUpstream p.id now = slid at hslide hdb hclient hhit ⊢
  rcases slid with ⟨_ | u,s'⟩
  · rw [← hdb] at hp
    rw [← hclient]
    exact ⟨rfl,hslide.rememberUpstream hp order now⟩
  · exact ⟨hhit u rfl,hslide⟩

theorem route (h : RoutesAgree s) (modelName : String) (order order' : IterationOrder)
    (now : Instant) :
    (routeRequest s modelName order order' now).1 =
        uncachedRoute s.db s.httpClient modelName ∧
      RoutesAgree (routeRequest s modelName order order' now).2 := by
  obtain ⟨hreply,hagree,hdb,hclient⟩ := h.resolve modelName order now
  unfold routeRequest uncachedRoute
  generalize resolveModelAndProvider s modelName order now = resolved at hreply hagree hdb hclient ⊢
  rcases resolved with ⟨reply,s'⟩
  dsimp only at hreply hagree hdb hclient
  subst hreply
  cases hroute : s.db.resolveModel modelName with
  | none => exact ⟨rfl,hagree⟩
  | some route =>
    have hp : s'.db.getProvider route.2.id = some route.2 := by
      rw [hdb]
      exact Database.getProvider_of_resolveModel hroute
    have hup := hagree.upstream hp order' now
    rw [hclient] at hup
    refine ⟨?_,hup.2⟩
    dsimp only
    rw [hup.1]

end RoutesAgree

namespace Session

variable {hashKey : String → String}

def run (hashKey : String → String) (s : Session) (history : List Operation) : Session :=
  history.foldl (perform hashKey) s

/-- The raw value of a created key was never presented before. -/
def FreshKey (s : Session) : Operation → Prop
  | .write (.createApiKey _ _ _ rawKey) => rawKey ∉ s.presented
  | _ => True

/-- No presented token has the digest of a created key without being that key. -/
def NoCollision (hashKey : String → String) (s : Session) : Operation → Prop
  | .write (.createApiKey _ _ _ rawKey) =>
    ∀ token ∈ s.presented, hashKey token = hashKey rawKey → token = rawKey
  | _ => True

@[simp] theorem perform_config (s : Session) (a : Operation) :
    (s.perform hashKey a).app.config = s.app.config := by
  cases a with
  | write m =>
    simp only [perform]
    split <;> simp
  | authenticate token =>
    obtain ⟨k,n,h⟩ := authMiddleware_frame hashKey s.app (some ("Bearer " ++ token)) s.now s.utc
    simp only [perform,h]
  | route modelName order order' =>
    obtain ⟨m,n,p,h⟩ := routeRequest_frame s.app modelName order order' s.now
    simp only [perform,h]
  | cleanup maxEntries => rfl
  | reap => rfl
  | advance elapsed drift => rfl

theorem keysAgree_perform {s : Session} (hauth : s.app.config.authEnabled = true)
    (h : KeysAgree hashKey s.presented s.app) {a : Operation} (hfresh : FreshKey s a)
    (hdigest : NoCollision hashKey s a) :
    KeysAgree hashKey (s.perform hashKey a).presented (s.perform hashKey a).app := by
  cases a with
  | write m =>
    simp only [perform]
    split
    · exact h
    · rename_i c hc
      refine h.write hc fun now input newId rawKey hm token htoken hsame => ?_
      subst hm
      have heq := hdigest token htoken hsame
      exact hfresh (heq ▸ htoken)
  | authenticate token => exact (h.authenticate hauth token s.now s.utc).2
  | route modelName order order' =>
    obtain ⟨m,n,p,hframe⟩ := routeRequest_frame s.app modelName order order' s.now
    simp only [perform,hframe]
    exact h.of_sub rfl (fun _ v hv => ⟨v.2,hv⟩) fun _ _ hv => hv
  | cleanup maxEntries =>
    exact ⟨h.cached.retain _,h.rejected⟩
  | reap => exact ⟨h.cached,h.rejected.retain _⟩
  | advance elapsed drift => exact h

theorem routesAgree_perform {s : Session} (h : RoutesAgree s.app) (a : Operation) :
    RoutesAgree (s.perform hashKey a).app := by
  cases a with
  | write m =>
    simp only [perform]
    split
    · exact h
    · rename_i c hc
      exact h.write hc
  | authenticate token =>
    obtain ⟨k,n,hframe⟩ := authMiddleware_frame hashKey s.app (some ("Bearer " ++ token)) s.now s.utc
    simp only [perform,hframe]
    exact h.of_sub rfl rfl (fun _ v hv => ⟨v.2,hv⟩) (fun _ _ hv => hv) fun _ v hv => ⟨v.2,hv⟩
  | route modelName order order' => exact (h.route modelName order order' s.now).2
  | cleanup maxEntries => exact ⟨h.routes.retain _,h.unknown,h.upstreams.retain _⟩
  | reap => exact ⟨h.routes,h.unknown.retain _,h.upstreams⟩
  | advance elapsed drift => exact h

theorem keysAgree_run {s : Session} (hauth : s.app.config.authEnabled = true)
    (h : KeysAgree hashKey s.presented s.app) {history : List Operation}
    (hok : Transition.Along (step hashKey) (fun s a => FreshKey s a ∧ NoCollision hashKey s a) s
      history) :
    (s.run hashKey history).app.config.authEnabled = true ∧
      KeysAgree hashKey (s.run hashKey history).presented (s.run hashKey history).app := by
  have hstep : ∀ (s : Session) (a : Operation) (t : Session), step hashKey s a = some t →
      FreshKey s a ∧ NoCollision hashKey s a →
      s.app.config.authEnabled = true ∧ KeysAgree hashKey s.presented s.app →
      t.app.config.authEnabled = true ∧ KeysAgree hashKey t.presented t.app := by
    rintro s a t ht ⟨hfresh,hdigest⟩ ⟨hauth,h⟩
    obtain rfl := Option.some.inj ht
    exact ⟨by rwa [perform_config],keysAgree_perform hauth h hfresh hdigest⟩
  exact Transition.exec_invariant hstep (Transition.exec_total (perform hashKey) s history) hok
    ⟨hauth,h⟩

theorem routesAgree_run {s : Session} (h : RoutesAgree s.app) (history : List Operation) :
    RoutesAgree (s.run hashKey history).app := by
  induction history generalizing s with
  | nil => exact h
  | cons a history ih => exact ih (routesAgree_perform h a)

/-- However a history went, a token is admitted exactly when a stored row with its hash
is enabled and has not expired. -/
theorem admits_iff_stored {config : ConfigApp} (hauth : config.authEnabled = true)
    {db : Database} {now : Instant} {utc : DateTime} {history : List Operation}
    (hok : Transition.Along (step hashKey) (fun s a => FreshKey s a ∧ NoCollision hashKey s a)
      (start config db now utc) history) (token : String) :
    let s := (start config db now utc).run hashKey history
    Admits (authMiddleware hashKey s.app (some ("Bearer " ++ token)) s.now s.utc).1 ↔
      ∃ r ∈ s.app.db.apiKeys, r.keyHash = hashKey token ∧ r.enabled = true ∧
        ∀ e, optTs r.expiresAt = some e → s.utc < e := by
  intro s
  obtain ⟨henabled,hagree⟩ := keysAgree_run (s := start config db now utc) hauth
    (KeysAgree.start config db) hok
  rw [(hagree.authenticate henabled token s.now s.utc).1,admits_verdict_iff]
  constructor
  · rintro ⟨info,hinfo,hen,hexp⟩
    obtain ⟨r,hr,hhash,rfl⟩ := Database.keyInfo_eq_some.mp hinfo
    exact ⟨r,hr,hhash,hen,hexp⟩
  · rintro ⟨r,hr,hhash,hen,hexp⟩
    exact ⟨_,Database.keyInfo_eq_some.mpr ⟨r,hr,hhash,rfl⟩,hen,hexp⟩

/-- A rejected guess, a new key and a wall clock set back: the key is admitted. -/
theorem admits_iff_stored_laptop :
    let history := [.authenticate "sk-0",.write (.createApiKey 0 { name := "laptop" } "k1" "sk-1"),
      .authenticate "sk-1",.advance 5 (-3)]
    let config : ConfigApp :=
      { authEnabled := true,cacheMaxEntries := 10,connectTimeoutSecs := 5,ssrfAllowedCidrs := [] }
    let s := (start config ⟨⟨[],[],[]⟩,by decide⟩ 0 0).run id history
    Admits (authMiddleware id s.app (some ("Bearer " ++ "sk-1")) s.now s.utc).1 := by
  intro history config s
  have hok : Transition.Along (step id) (fun s a => FreshKey s a ∧ NoCollision id s a)
      (start config ⟨⟨[],[],[]⟩,by decide⟩ 0 0) history := by
    refine ⟨⟨trivial,trivial⟩,?_⟩
    rintro _ ⟨⟩
    refine ⟨⟨by simp [FreshKey,perform,start],fun token _ hsame => hsame⟩,?_⟩
    rintro _ ⟨⟩
    exact ⟨⟨trivial,trivial⟩,fun _ _ => ⟨⟨trivial,trivial⟩,fun _ _ => trivial⟩⟩
  have hrow : ∃ r ∈ s.app.db.apiKeys, r.keyHash = "sk-1" ∧ r.enabled = true ∧
      r.expiresAt = none := by decide
  obtain ⟨r,hr,hhash,hen,hexp⟩ := hrow
  refine (admits_iff_stored rfl hok "sk-1").mpr ⟨r,hr,hhash,hen,?_⟩
  rw [hexp]
  intro t ht
  cases ht

/-- However a history went, a model resolves to what the uncached database gives. -/
theorem route_eq_uncached (config : ConfigApp) (db : Database) (now : Instant) (utc : DateTime)
    (history : List Operation) (modelName : String) (order order' : IterationOrder) :
    let s := (start config db now utc).run hashKey history
    (routeRequest s.app modelName order order' s.now).1 =
      uncachedRoute s.app.db s.app.httpClient modelName :=
  ((routesAgree_run (RoutesAgree.start config db) history).route modelName order order' _).1

end Session
end Ait
