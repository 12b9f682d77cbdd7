import Ait.Ledger

/-!
# Routes under concurrency

Every entry of the three routing caches is witnessed by a database version that no
performed removal outdates, as long as no fill is overtaken by the removal of the
entry it makes. Routes, upstream clients and "unknown model" verdicts are then never
older than a mutation of the model or of the provider whose handler was over before
the request began.
-/

namespace Ait
namespace World

open CacheAside Invalidation

variable {hashKey : String → String} {w w' : World}

/-- A lookup read the database after every write among `before`. -/
def RouteRead (h : History Database) (before : List Write) (modelName : String)
    (answer : Option (Model × Provider)) (readAt : ℕ) : Prop :=
  readAt ≤ h.version ∧ (h.past readAt).resolveModel modelName = answer ∧
    ∀ x ∈ before, x.version ≤ readAt

/-- Version `n` gave the route, and no settled mutation of the model or the provider is newer. -/
def RouteBasis (h : History Database) (before : List Write) (modelName : String) (m : Model)
    (p : Provider) (n : ℕ) : Prop :=
  n ≤ h.version ∧ (h.past n).resolveModel modelName = some (m,p) ∧
    ∀ x ∈ before, (x.mutation.modelTarget = some modelName ∨
      x.mutation.providerTarget = some p.id) → x.version ≤ n

/-- The client is built from a row of the provider as new as its settled mutations. -/
def UpstreamBasis (h : History Database) (httpClient : Client) (before : List Write)
    (providerId : String) (upstream : UpstreamProvider) : Prop :=
  ∃ n q, n ≤ h.version ∧ (h.past n).getProvider providerId = some q ∧
    upstream = createProvider q httpClient ∧
      ∀ x ∈ before, x.mutation.providerTarget = some providerId → x.version ≤ n

/-- The model did not resolve at a version as new as every settled mutation of its name
and of any provider. -/
def UnknownBasis (h : History Database) (before : List Write) (modelName : String) : Prop :=
  ∃ n, n ≤ h.version ∧ (h.past n).resolveModel modelName = none ∧
    ∀ x ∈ before, (x.mutation.modelTarget = some modelName ∨
      ∃ id, x.mutation.providerTarget = some id) → x.version ≤ n

def RouteOk (h : History Database) (httpClient : Client) (before : List Write)
    (modelName : String) : RoutePhase → Prop
  | .rememberUpstream m p readAt => RouteRead h before modelName (some (m,p)) readAt
  | .rememberModel m p readAt => RouteRead h before modelName (some (m,p)) readAt
  | .rememberUnknown readAt => RouteRead h before modelName none readAt
  | .knownUpstream m p readAt => RouteBasis h before modelName m p readAt
  | .createUpstream m p readAt => RouteBasis h before modelName m p readAt
  | .routed m p upstream =>
    (∃ n, RouteBasis h before modelName m p n) ∧ UpstreamBasis h httpClient before p.id upstream
  | .notFound => UnknownBasis h before modelName
  | _ => True

/-- A fill of a routing cache has not been overtaken: the removal of that entry by any
write newer than what it read is still to come. -/
def routeFillCurrent (w : World) : Label → Bool
  | .advance i _ => w.app.config.cacheMaxEntries = 0 ||
    match w.tasks i with
    | some ⟨_,.request _ (.rememberUpstream _ p readAt)⟩ =>
      UpToDate w.performed (dropsProvider p.id) readAt
    | some ⟨_,.request modelName (.rememberModel _ p readAt)⟩ =>
      UpToDate w.performed (dropsModel modelName p.id) readAt
    | some ⟨_,.request modelName (.rememberUnknown readAt)⟩ =>
      UpToDate w.performed (dropsNegativeModel modelName) readAt
    | some ⟨_,.request _ (.createUpstream _ p readAt)⟩ =>
      UpToDate w.performed (dropsProvider p.id) readAt
    | _ => true
  | _ => true

/-- The removal drops the route of this name, through whatever provider. -/
def dropsRoute (modelName : String) : Invalidation → Bool
  | .modelRemove other => other = modelName
  | .modelRetain _ => true
  | _ => false

theorem dropsModel_route {modelName providerId : String} {i : Invalidation}
    (h : dropsModel modelName providerId i = true) : dropsRoute modelName i = true := by
  rcases of_decide_eq_true h with rfl | rfl <;> simp [dropsRoute]

/-- No earlier write still owes the removal of a route of this name. -/
def routesSettled (w : World) (modelName : String) : Bool :=
  w.writes.all fun y => y.stale.all fun i =>
    !dropsRoute modelName i || w.performed.contains (i,y.version)

/-- A model is created only after the routes its name had before have been removed:
creating a model removes none itself. -/
def createSettled (w : World) : Label → Bool
  | .advance i _ =>
    match w.tasks i with
    | some ⟨_,.handler (.running (.createModel _ input _))⟩ => w.routesSettled (trim input.name)
    | some ⟨_,.handler (.abandoned (.createModel _ input _))⟩ => w.routesSettled (trim input.name)
    | _ => true
  | _ => true

structure RoutesWitnessed (w : World) : Prop where
  routes : w.app.modelCache.Holds fun name v =>
    WitnessedAt w.hist w.performed (dropsModel name v.1.2.id)
      (fun db => db.resolveModel name = some v.1) (w.modelAt name)
  unknown : w.app.negativeModelCache.Holds fun name _ =>
    Witnessed w.hist w.performed (dropsNegativeModel name) fun db => db.resolveModel name = none
  upstreams : w.app.providerCache.Holds fun id v =>
    ∃ q, Witnessed w.hist w.performed (dropsProvider id) (fun db => db.getProvider id = some q) ∧
      v.1 = createProvider q w.app.httpClient
  created : ∀ x ∈ w.writes, ∀ now input newId, x.mutation = .createModel now input newId →
    ∀ y ∈ w.writes, y.version < x.version → ∀ i ∈ y.stale,
      dropsRoute (trim input.name) i = true → (i,y.version) ∈ w.performed
  task : ∀ i before modelName phase, w.tasks i = some ⟨before,.request modelName phase⟩ →
    RouteOk w.hist w.app.httpClient before modelName phase

section Extends

variable {before : List Write} {modelName : String}

theorem RouteRead.extends {answer : Option (Model × Provider)} {readAt : ℕ}
    (h : RouteRead w.hist before modelName answer readAt) (he : w.Extends w') :
    RouteRead w'.hist before modelName answer readAt := by
  obtain ⟨hle,hanswer,hbefore⟩ := h
  refine ⟨hle.trans he.version,?_,hbefore⟩
  rwa [he.past readAt hle]

theorem RouteBasis.extends {m : Model} {p : Provider} {n : ℕ}
    (h : RouteBasis w.hist before modelName m p n) (he : w.Extends w') :
    RouteBasis w'.hist before modelName m p n := by
  obtain ⟨hle,hroute,hall⟩ := h
  refine ⟨hle.trans he.version,?_,hall⟩
  rwa [he.past n hle]

theorem RouteOk.extends {phase : RoutePhase}
    (h : RouteOk w.hist w.app.httpClient before modelName phase) (he : w.Extends w') :
    RouteOk w'.hist w'.app.httpClient before modelName phase := by
  cases phase with
  | rememberUpstream m p readAt => exact RouteRead.extends h he
  | rememberModel m p readAt => exact RouteRead.extends h he
  | rememberUnknown readAt => exact RouteRead.extends h he
  | knownUpstream m p readAt => exact RouteBasis.extends h he
  | createUpstream m p readAt => exact RouteBasis.extends h he
  | routed m p upstream =>
    obtain ⟨⟨n,hn⟩,u,q,hu,hq,hclient,hall⟩ := h
    refine ⟨⟨n,RouteBasis.extends hn he⟩,u,q,hu.trans he.version,?_,?_,hall⟩
    · rwa [he.past u hu]
    · rwa [he.client]
  | notFound =>
    obtain ⟨n,hn,hunknown,hall⟩ := h
    refine ⟨n,hn.trans he.version,?_,hall⟩
    rwa [he.past n hn]
  | _ => trivial

end Extends

section Answers

variable {before : List Write} {modelName : String}

theorem RouteRead.basis {m : Model} {p : Provider} {readAt : ℕ}
    (h : RouteRead w.hist before modelName (some (m,p)) readAt) :
    RouteBasis w.hist before modelName m p readAt :=
  ⟨h.1,h.2.1,fun x hx _ => h.2.2 x hx⟩

/-- A cached route is as new as every settled mutation of its model or its provider. -/
theorem route_basis (hl : Ledger hashKey w) (hr : RoutesWitnessed w)
    (hdone : ∀ x ∈ before, w.Done x) {m : Model} {p : Provider} {n : ℕ}
    (hw : WitnessedAt w.hist w.performed (dropsModel modelName p.id)
      (fun db => db.resolveModel modelName = some (m,p)) n) :
    RouteBasis w.hist before modelName m p n := by
  obtain ⟨hn,hroute,hnew⟩ := hw
  refine ⟨hn,hroute,fun x hx ht => ?_⟩
  obtain ⟨hxw,hperformed⟩ := hdone x hx
  have heffect := hl.effect x hxw
  rcases ht with ht | ht
  · rcases (heffect.modelTarget_stale ht).1 with hstale | ⟨habsent,now,input,newId,hm⟩
    · exact hnew _ (hperformed _ hstale) (by simp [dropsModel])
    · -- the name had lost its route before it was created, through a removal already performed
      by_contra hlt
      have hxpos := hl.version x hxw
      have hname : trim input.name = modelName := by
        rw [hm] at ht
        exact Option.some.inj ht
      have hlater := History.persists
        (fun db : Database => db.resolveModel modelName = some (m,p))
        (fun v => ∃ y ∈ w.writes, y.version = v ∧ ∃ i ∈ y.stale, dropsModel modelName p.id i = true)
        hroute (show n ≤ x.version-1 by omega) fun v _ hv hstill => by
          obtain ⟨y,hy,hversion⟩ := hl.logged v (by omega)
          have hstep := hl.effect y hy
          rw [hversion,Nat.add_sub_cancel] at hstep
          exact (hstep.resolveModel hstill).imp_right fun hdrop => ⟨y,hy,hversion,hdrop⟩
      rcases hlater with hstill | ⟨v,hnv,hvx,y,hy,rfl,i,hi,hdrops⟩
      · rw [show (w.hist.past (x.version-1)).resolveModel modelName = none from habsent] at hstill
        cases hstill
      · have hgone := hr.created x hxw now input newId hm y hy (by omega) i hi
          (hname ▸ dropsModel_route hdrops)
        have hvn := hnew _ hgone hdrops
        omega
  · rw [heffect.providerTarget_stale ht] at hperformed
    exact hnew _ (hperformed (.modelRetain p.id) (by simp [providerStale])) (by simp [dropsModel])

theorem upstream_basis (hl : Ledger hashKey w) (hdone : ∀ x ∈ before, w.Done x)
    {providerId : String} {q : Provider}
    (hw : Witnessed w.hist w.performed (dropsProvider providerId)
      fun db => db.getProvider providerId = some q) :
    UpstreamBasis w.hist w.app.httpClient before providerId
      (createProvider q w.app.httpClient) := by
  obtain ⟨n,hn,hq,hnew⟩ := hw
  refine ⟨n,q,hn,hq,rfl,fun x hx ht => ?_⟩
  obtain ⟨hxw,hperformed⟩ := hdone x hx
  rw [(hl.effect x hxw).providerTarget_stale ht] at hperformed
  exact hnew _ (hperformed (.providerRemove providerId) (by simp [providerStale]))
    (by simp [dropsProvider])

/-- A cached "unknown" verdict was right after every settled mutation of the name and of
any provider. -/
theorem unknown_basis (hl : Ledger hashKey w) (hdone : ∀ x ∈ before, w.Done x)
    (hw : Witnessed w.hist w.performed (dropsNegativeModel modelName)
      fun db => db.resolveModel modelName = none) : UnknownBasis w.hist before modelName := by
  obtain ⟨n,hn,hunknown,hnew⟩ := hw
  let targets := before.filter fun x => x.mutation.modelTarget = some modelName
  have htargets : ∀ v ∈ targets.map Write.version, v ≤ n ∨
      v ≤ w.hist.version ∧ (w.hist.past v).resolveModel modelName = none := by
    intro v hv
    obtain ⟨x,hx,rfl⟩ := List.mem_map.mp hv
    obtain ⟨hx,ht⟩ := List.mem_filter.mp hx
    obtain ⟨hxw,hperformed⟩ := hdone x hx
    rcases ((hl.effect x hxw).modelTarget_stale (of_decide_eq_true ht)).2 with hstale | hgone
    · exact .inl (hnew _ (hperformed _ hstale) (by simp [dropsNegativeModel]))
    · exact .inr ⟨(hl.version x hxw).2,hgone⟩
  obtain ⟨k,hk,hunknown,hnk,hall⟩ :=
    History.exists_latest (fun db => db.resolveModel modelName = none) hunknown hn htargets
  refine ⟨k,hk,hunknown,fun x hx ht => ?_⟩
  rcases ht with ht | ⟨id,ht⟩
  · exact hall _ (List.mem_map_of_mem (List.mem_filter.mpr ⟨hx,decide_eq_true ht⟩))
  · obtain ⟨hxw,hperformed⟩ := hdone x hx
    rw [(hl.effect x hxw).providerTarget_stale ht] at hperformed
    have hle := hnew _ (hperformed .negativeModelClear (by simp [providerStale]))
      (by simp [dropsNegativeModel])
    exact hle.trans hnk

end Answers

/-- The invariants of the three routing caches, over the versions and removals of `w`. -/
structure CachesOk (w : World) (app : AppState) (modelAt : String → ℕ) : Prop where
  routes : app.modelCache.Holds fun name v =>
    WitnessedAt w.hist w.performed (dropsModel name v.1.2.id)
      (fun db => db.resolveModel name = some v.1) (modelAt name)
  unknown : app.negativeModelCache.Holds fun name _ =>
    Witnessed w.hist w.performed (dropsNegativeModel name) fun db => db.resolveModel name = none
  upstreams : app.providerCache.Holds fun id v =>
    ∃ q, Witnessed w.hist w.performed (dropsProvider id) (fun db => db.getProvider id = some q) ∧
      v.1 = createProvider q w.app.httpClient

theorem RoutesWitnessed.caches (hr : RoutesWitnessed w) : w.CachesOk w.app w.modelAt :=
  ⟨hr.routes,hr.unknown,hr.upstreams⟩

section Fills

variable {app : AppState} {modelAt : String → ℕ} {before : List Write} {modelName : String}

theorem CachesOk.rememberUpstream (h : w.CachesOk app modelAt)
    (hclient : app.httpClient = w.app.httpClient) {m : Model} {p : Provider} {readAt : ℕ}
    (hle : readAt ≤ w.hist.version)
    (hroute : (w.hist.past readAt).resolveModel modelName = some (m,p))
    (hnew : app.config.cacheMaxEntries ≠ 0 → UpToDate w.performed (dropsProvider p.id) readAt)
    (order : IterationOrder) (now : Instant) :
    w.CachesOk (app.rememberUpstream p order now) modelAt := by
  refine ⟨h.routes,h.unknown,fun id v hv => ?_⟩
  rcases get_insertCapped hv with ⟨hold,-⟩ | ⟨rfl,rfl,hmax⟩
  · exact h.upstreams id v hold
  · refine ⟨p,⟨readAt,hle,?_,hnew hmax⟩,by rw [hclient]⟩
    exact Database.getProvider_of_resolveModel hroute

theorem CachesOk.rememberModel (h : w.CachesOk app modelAt) {m : Model} {p : Provider}
    {readAt : ℕ} (hread : RouteRead w.hist before modelName (some (m,p)) readAt)
    (hnew : app.config.cacheMaxEntries ≠ 0 →
      UpToDate w.performed (dropsModel modelName p.id) readAt)
    (order : IterationOrder) (now : Instant) :
    w.CachesOk (app.rememberModel modelName (m,p) order now)
      (if app.config.cacheMaxEntries = 0 then modelAt
        else Function.update modelAt modelName readAt) := by
  refine ⟨fun name v hv => ?_,h.unknown,h.upstreams⟩
  rcases get_insertCapped hv with ⟨hold,hother⟩ | ⟨rfl,rfl,hmax⟩
  · have hkept : (if app.config.cacheMaxEntries = 0 then modelAt
        else Function.update modelAt modelName readAt) name = modelAt name := by
      rcases hother with hne | hmax
      · split
        · rfl
        · exact Function.update_of_ne hne _ _
      · rw [if_pos hmax]
    rw [hkept]
    exact h.routes name v hold
  · rw [if_neg hmax,Function.update_self]
    exact ⟨hread.1,hread.2.1,hnew hmax⟩

theorem CachesOk.rememberUnknown (h : w.CachesOk app modelAt) {readAt : ℕ}
    (hread : RouteRead w.hist before modelName none readAt)
    (hnew : app.config.cacheMaxEntries ≠ 0 →
      UpToDate w.performed (dropsNegativeModel modelName) readAt)
    (order : IterationOrder) (now : Instant) :
    w.CachesOk (app.rememberUnknown modelName order now) modelAt := by
  refine ⟨h.routes,fun name v hv => ?_,h.upstreams⟩
  rcases get_insertCapped hv with ⟨hold,-⟩ | ⟨rfl,-,hmax⟩
  · exact h.unknown name v hold
  · exact ⟨readAt,hread.1,hread.2.1,hnew hmax⟩

end Fills

theorem RoutesWitnessed.slideModel (hr : RoutesWitnessed w) (modelName : String) (now : Instant) :
    w.CachesOk (w.app.cachedModel modelName now).2 w.modelAt := by
  refine ⟨fun name v hv => ?_,hr.unknown,hr.upstreams⟩
  obtain ⟨t,ht⟩ := freshEntry_get hv
  exact hr.routes name (v.1,t) ht

theorem RoutesWitnessed.slideUpstream (hr : RoutesWitnessed w) (providerId : String)
    (now : Instant) : w.CachesOk (w.app.knownUpstream providerId now).2 w.modelAt := by
  refine ⟨hr.routes,hr.unknown,fun id v hv => ?_⟩
  obtain ⟨t,ht⟩ := freshEntry_get hv
  exact hr.upstreams id (v.1,t) ht

theorem cachedModel_basis (hl : Ledger hashKey w) (hr : RoutesWitnessed w)
    (hdone : ∀ x ∈ before, w.Done x) {now : Instant} {m : Model} {p : Provider}
    (h : (w.app.cachedModel modelName now).1 = some (m,p)) :
    RouteBasis w.hist before modelName m p (w.modelAt modelName) := by
  obtain ⟨t,ht⟩ := freshEntry_hit h
  exact route_basis hl hr hdone (hr.routes _ _ ht)

theorem knownUpstream_basis (hl : Ledger hashKey w) (hr : RoutesWitnessed w)
    (hdone : ∀ x ∈ before, w.Done x) {providerId : String} {now : Instant} {u : UpstreamProvider}
    (h : (w.app.knownUpstream providerId now).1 = some u) :
    UpstreamBasis w.hist w.app.httpClient before providerId u := by
  obtain ⟨t,ht⟩ := freshEntry_hit h
  obtain ⟨q,hq,hu⟩ := hr.upstreams _ _ ht
  have hu : u = createProvider q w.app.httpClient := hu
  exact hu ▸ upstream_basis hl hdone hq

/-- What a phase is about to enter into a cache: which removals concern it, and what it read. -/
def routeFill (modelName : String) : RoutePhase → Option ((Invalidation → Bool) × ℕ)
  | .rememberUpstream _ p readAt => some (dropsProvider p.id,readAt)
  | .rememberModel _ p readAt => some (dropsModel modelName p.id,readAt)
  | .rememberUnknown readAt => some (dropsNegativeModel modelName,readAt)
  | .createUpstream _ p readAt => some (dropsProvider p.id,readAt)
  | _ => none

/-- With caches that hold entries, a current fill is newer than the removals that concern it. -/
theorem upToDate_of_routeFillCurrent {i : ℕ} {r : Reading} {before : List Write}
    {modelName : String} {phase : RoutePhase} {drops : Invalidation → Bool} {readAt : ℕ}
    (ht : w.tasks i = some ⟨before,.request modelName phase⟩)
    (hfill : w.routeFillCurrent (.advance i r) = true)
    (hphase : routeFill modelName phase = some (drops,readAt))
    (hmax : w.app.config.cacheMaxEntries ≠ 0) : UpToDate w.performed drops readAt := by
  cases phase <;> cases hphase <;> simpa [routeFillCurrent,ht,hmax] using hfill

theorem routeAdvance_witnessed (hl : Ledger hashKey w) (hr : RoutesWitnessed w) {i : ℕ}
    {r : Reading} {before : List Write} {modelName : String} {phase phase' : RoutePhase}
    {app : AppState} {modelAt : String → ℕ}
    (ht : w.tasks i = some ⟨before,.request modelName phase⟩)
    (hadv : phase.advance modelName w.hist.version w.app w.modelAt r = some (phase',app,modelAt))
    (hfill : w.routeFillCurrent (.advance i r) = true) :
    w.CachesOk app modelAt ∧ RouteOk w.hist w.app.httpClient before modelName phase' := by
  have hdone := (hl.task i _ ht).before
  have hok := hr.task i before modelName phase ht
  have hcaches := hr.caches
  cases phase with
  | negativeCheck =>
    obtain ⟨rfl,rfl,⟨hunknown,rfl⟩ | rfl⟩ := routeAdvance_negativeCheck hadv
    · obtain ⟨seen,hseen⟩ := freshVerdict_entry hunknown
      exact ⟨hcaches,unknown_basis hl hdone (hr.unknown _ _ hseen)⟩
    · exact ⟨hcaches,trivial⟩
  | cacheCheck =>
    obtain ⟨rfl,rfl,⟨m,p,hfound,rfl⟩ | rfl⟩ := routeAdvance_cacheCheck hadv
    · exact ⟨hr.slideModel modelName r.now,cachedModel_basis hl hr hdone hfound⟩
    · exact ⟨hr.slideModel modelName r.now,trivial⟩
  | lookup =>
    have hread : RouteRead w.hist before modelName (w.app.db.resolveModel modelName)
        w.hist.version := by
      refine ⟨le_rfl,?_,hl.before_version ht⟩
      rw [← hl.current]
      rfl
    obtain ⟨rfl,rfl,⟨m,p,hroute,rfl⟩ | ⟨hunknown,rfl⟩⟩ := routeAdvance_lookup hadv
    · rw [hroute] at hread
      exact ⟨hcaches,hread⟩
    · rw [hunknown] at hread
      exact ⟨hcaches,hread⟩
  | rememberUpstream m p readAt =>
    cases hadv
    have hread : RouteRead w.hist before modelName (some (m,p)) readAt := hok
    have hnew := upToDate_of_routeFillCurrent ht hfill rfl
    exact ⟨hcaches.rememberUpstream rfl hread.1 hread.2.1 hnew r.order r.now,hread⟩
  | rememberModel m p readAt =>
    cases hadv
    have hread : RouteRead w.hist before modelName (some (m,p)) readAt := hok
    have hnew := upToDate_of_routeFillCurrent ht hfill rfl
    exact ⟨hcaches.rememberModel hread hnew r.order r.now,hread.basis⟩
  | rememberUnknown readAt =>
    cases hadv
    have hread : RouteRead w.hist before modelName none readAt := hok
    have hnew := upToDate_of_routeFillCurrent ht hfill rfl
    exact ⟨hcaches.rememberUnknown hread hnew r.order r.now,readAt,hread.1,hread.2.1,
      fun x hx _ => hread.2.2 x hx⟩
  | knownUpstream m p readAt =>
    have hbasis : RouteBasis w.hist before modelName m p readAt := hok
    obtain ⟨rfl,rfl,⟨u,hfound,rfl⟩ | rfl⟩ := routeAdvance_knownUpstream hadv
    · exact ⟨hr.slideUpstream p.id r.now,⟨readAt,hbasis⟩,knownUpstream_basis hl hr hdone hfound⟩
    · exact ⟨hr.slideUpstream p.id r.now,hbasis⟩
  | createUpstream m p readAt =>
    cases hadv
    have hbasis : RouteBasis w.hist before modelName m p readAt := hok
    have hnew := upToDate_of_routeFillCurrent ht hfill rfl
    refine ⟨hcaches.rememberUpstream rfl hbasis.1 hbasis.2.1 hnew r.order r.now,
      ⟨readAt,hbasis⟩,readAt,p,hbasis.1,?_,rfl,fun x hx hprovider => ?_⟩
    · exact Database.getProvider_of_resolveModel hbasis.2.1
    · exact hbasis.2.2 x hx (.inr hprovider)
  | routed m p upstream => cases hadv
  | notFound => cases hadv

namespace RoutesWitnessed

theorem start (config : ConfigApp) (db : Database) : RoutesWitnessed (World.start config db) where
  routes := .empty
  unknown := .empty
  upstreams := .empty
  created := by simp [World.start]
  task := by simp [World.start]

theorem tasks_extend (h : RoutesWitnessed w) (he : w.Extends w')
    (htask : ∀ i before modelName phase, w'.tasks i = some ⟨before,.request modelName phase⟩ →
      w.tasks i = some ⟨before,.request modelName phase⟩ ∨
        RouteOk w'.hist w'.app.httpClient before modelName phase) :
    ∀ i before modelName phase, w'.tasks i = some ⟨before,.request modelName phase⟩ →
      RouteOk w'.hist w'.app.httpClient before modelName phase := by
  intro i before modelName phase ht
  rcases htask i before modelName phase ht with hold | hok
  · exact (h.task i before modelName phase hold).extends he
  · exact hok

theorem setTask (h : RoutesWitnessed w) (i : ℕ) {t : Option Task}
    (ht : ∀ before modelName phase, t = some ⟨before,.request modelName phase⟩ →
      RouteOk w.hist w.app.httpClient before modelName phase) :
    RoutesWitnessed (w.setTask i t) := by
  refine ⟨h.routes,h.unknown,h.upstreams,h.created,
    h.tasks_extend (extends_setTask i t) fun j before modelName phase hj => ?_⟩
  rw [setTask_tasks] at hj
  split at hj
  · exact .inr (ht before modelName phase hj)
  · exact .inl hj

theorem app (h : RoutesWitnessed w) {app : AppState} {modelAt : String → ℕ}
    (hcaches : w.CachesOk app modelAt) (hclient : app.httpClient = w.app.httpClient) :
    RoutesWitnessed { w with app := app,modelAt := modelAt } := by
  refine ⟨hcaches.routes,hcaches.unknown,?_,h.created,?_⟩
  · intro id v hv
    obtain ⟨q,hq,hu⟩ := hcaches.upstreams id v hv
    exact ⟨q,hq,by rw [hu,hclient]⟩
  · intro i before modelName phase ht
    have hok := h.task i before modelName phase ht
    show RouteOk w.hist app.httpClient before modelName phase
    rwa [hclient]

theorem record (h : RoutesWitnessed w) (hl : Ledger hashKey w) {i : ℕ} {m : Mutation}
    {c : Committed Unit} (before : List Write) (phase : HandlerPhase)
    (hcreate : ∀ now input newId, m = .createModel now input newId →
      w.routesSettled (trim input.name) = true) :
    RoutesWitnessed ((w.record i m c).setTask i (some ⟨before,.handler phase⟩)) where
  routes := h.routes.mono fun _ _ hw => hw.write c.db
  unknown := h.unknown.mono fun _ _ hw => hw.write c.db
  upstreams := h.upstreams.mono fun _ _ ⟨q,hq,hu⟩ => ⟨q,hq.write c.db,hu⟩
  created := by
    intro x hx now input newId hm y hy hlt j hj hdrops
    rcases List.mem_cons.mp hx with rfl | hx
    · rcases List.mem_cons.mp hy with rfl | hy
      · exact absurd hlt (lt_irrefl _)
      · have hsettled := hcreate now input newId hm
        have hstale := List.all_eq_true.mp (List.all_eq_true.mp hsettled y hy) j hj
        have hgone : (j,y.version) ∈ w.performed := by simpa [hdrops] using hstale
        exact hgone
    · rcases List.mem_cons.mp hy with rfl | hy
      · have hle := (hl.version x hx).2
        have hlt : w.hist.version+1 < x.version := hlt
        omega
      · exact h.created x hx now input newId hm y hy hlt j hj hdrops
  task := by
    refine h.tasks_extend (extends_record i i m c _) fun j before modelName phase hj => ?_
    rw [setTask_tasks] at hj
    split at hj
    · cases hj
    · exact .inl hj

theorem perform (h : RoutesWitnessed w) (x : Write) (j : Invalidation) (i : ℕ)
    (before : List Write) (phase : HandlerPhase) :
    RoutesWitnessed ((w.perform x j).setTask i (some ⟨before,.handler phase⟩)) where
  routes := by
    intro name v hv
    obtain ⟨hold,hkept⟩ := apply_modelCache hv
    exact (h.routes name v hold).perform x.version hkept
  unknown := by
    intro name v hv
    obtain ⟨hold,hkept⟩ := apply_negativeModelCache hv
    exact (h.unknown name v hold).perform x.version hkept
  upstreams := by
    intro id v hv
    obtain ⟨hold,hkept⟩ := apply_providerCache hv
    obtain ⟨q,hq,hu⟩ := h.upstreams id v hold
    refine ⟨q,hq.perform x.version hkept,?_⟩
    show v.1 = createProvider q (j.apply w.app).httpClient
    rw [apply_httpClient,hu]
  created x' hx now input newId hm y hy hlt k hk hdrops :=
    List.mem_cons_of_mem _ (h.created x' hx now input newId hm y hy hlt k hk hdrops)
  task := by
    refine h.tasks_extend (extends_perform x j i _) fun k before modelName phase hk => ?_
    rw [setTask_tasks] at hk
    split at hk
    · cases hk
    · exact .inl hk

theorem step (h : RoutesWitnessed w) (hl : Ledger hashKey w) {a : Label}
    (hstep : Step hashKey w a w') (hfill : w.routeFillCurrent a = true)
    (hcreate : w.createSettled a = true) : RoutesWitnessed w' := by
  cases hstep with
  | @spawn a i work free initial =>
    refine h.setTask i fun before modelName phase ht => ?_
    obtain ⟨rfl,rfl⟩ := Task.mk.inj (Option.some.inj ht)
    cases phase with
    | negativeCheck => trivial
    | _ => exact initial.elim
  | @authenticate i r before token phase phase' app task advance =>
    have hframe := authAdvance_frame advance
    have hcaches : w.CachesOk app w.modelAt := by
      rw [hframe]
      exact ⟨h.routes,h.unknown,h.upstreams⟩
    exact (h.app hcaches (by rw [hframe])).setTask i fun _ _ _ he => by cases he
  | @route i r before modelName phase phase' app modelAt task advance =>
    obtain ⟨hcaches,hok⟩ := routeAdvance_witnessed hl h task advance hfill
    have hclient : app.httpClient = w.app.httpClient := by rw [routeAdvance_frame advance]
    refine (h.app hcaches hclient).setTask i fun before' modelName' phase1 ht => ?_
    obtain ⟨rfl,hwork⟩ := Task.mk.inj (Option.some.inj ht)
    obtain ⟨rfl,rfl⟩ := Work.request.inj hwork
    show RouteOk w.hist app.httpClient _ _ _
    rwa [hclient]
  | fail => exact h.setTask _ fun _ _ _ he => by cases he
  | commit task write =>
    refine h.record hl _ _ fun now input newId hm => ?_
    simpa [createSettled,task,hm] using hcreate
  | commitLate task write =>
    refine h.record hl _ _ fun now input newId hm => ?_
    simpa [createSettled,task,hm] using hcreate
  | resume => exact h.setTask _ fun _ _ _ he => by cases he
  | invalidate => exact h.perform _ _ _ _ _
  | finish => exact h.setTask _ fun _ _ _ he => by cases he
  | abandon => exact h.setTask _ fun _ _ _ he => by cases he
  | lose => exact h.setTask _ fun _ _ _ he => by cases he
  | drop => exact h.setTask _ fun _ _ _ he => by cases he
  | cleanup => exact h.app ⟨h.routes.retain _,h.unknown,h.upstreams.retain _⟩ rfl
  | reap => exact h.app ⟨h.routes,h.unknown.retain _,h.upstreams⟩ rfl

end RoutesWitnessed

/-- The run condition of routing: no write is orphaned, no fill is overtaken, and no model
is created while a route of its name is still to be removed. -/
def routesOrderly (hashKey : String → String) (w : World) (a : Label) : Bool :=
  w.kept hashKey a && w.routeFillCurrent a && w.createSettled a

theorem routes_run {config : ConfigApp} {db : Database} {as : List Label}
    (hrun : Transition.exec (step hashKey) (start config db) as = some w)
    (hok : Transition.Along (step hashKey) (fun w a => w.routesOrderly hashKey a = true)
      (start config db) as) : Ledger hashKey w ∧ RoutesWitnessed w := by
  have hstep : ∀ (w : World) (a : Label) (w' : World), w.step hashKey a = some w' →
      w.routesOrderly hashKey a = true → Ledger hashKey w ∧ RoutesWitnessed w →
      Ledger hashKey w' ∧ RoutesWitnessed w' := by
    rintro w a w' hstep horderly ⟨hl,hr⟩
    obtain ⟨hrest,hcreate⟩ := Bool.and_eq_true_iff.mp horderly
    obtain ⟨hkept,hfill⟩ := Bool.and_eq_true_iff.mp hrest
    have hcases := step_cases hstep
    exact ⟨hl.step hcases hkept,hr.step hl hcases hfill hcreate⟩
  exact Transition.exec_invariant hstep hrun hok
    ⟨Ledger.start config db,RoutesWitnessed.start config db⟩

/-- Every answered request rests on versions as new as the mutations of its model and of
its provider that were over when it began. -/
def NoStaleRoute (w : World) : Prop :=
  (∀ i before modelName m p upstream,
    w.tasks i = some ⟨before,.request modelName (.routed m p upstream)⟩ →
      (∃ n, RouteBasis w.hist before modelName m p n) ∧
        UpstreamBasis w.hist w.app.httpClient before p.id upstream) ∧
  ∀ i before modelName, w.tasks i = some ⟨before,.request modelName .notFound⟩ →
    UnknownBasis w.hist before modelName

theorem RoutesWitnessed.noStaleRoute (h : RoutesWitnessed w) : w.NoStaleRoute :=
  ⟨fun i before modelName _ _ _ ht => h.task i before modelName _ ht,
    fun i before modelName ht => h.task i before modelName _ ht⟩

/-- In an orderly run no request is routed by what a settled mutation replaced. -/
theorem orderly_routing {config : ConfigApp} {db : Database} {as : List Label}
    (hrun : Transition.exec (step hashKey) (start config db) as = some w)
    (hok : Transition.Along (step hashKey) (fun w a => w.routesOrderly hashKey a = true)
      (start config db) as) : w.NoStaleRoute :=
  (routes_run hrun hok).2.noStaleRoute

section Scenario

def gptDb : Database where
  providers := [⟨"p1","main","openai_compat","http://up",none,true,0,0⟩]
  models := [⟨"m1","gpt","p1","gpt-4",true,0,0⟩]
  apiKeys := []
  schema := by decide

/-- A model is used, disabled and asked for again. -/
theorem orderly_routing_disabled :
    let as := [.request 0 "gpt",tick 0,tick 0,tick 0,tick 0,tick 0,tick 0,
      .mutate 1 (.updateModel 0 "gpt" { enabled := some false }),tick 1,tick 1,tick 1,tick 1,tick 1,
      .request 2 "gpt",tick 2,tick 2,tick 2,tick 2]
    ∃ w, Transition.exec (step id) (start demoConfig gptDb) as = some w ∧
      w.hist.version = 1 ∧ w.NoStaleRoute := by
  intro as
  have hsome : (Transition.exec (step id) (start demoConfig gptDb) as).isSome = true := by decide
  have hrun := (Option.some_get hsome).symm
  exact ⟨_,hrun,rfl,orderly_routing hrun (by decide)⟩

/-- A lookup is overtaken by the whole deletion of the model it has read; it then caches
the deleted route, and a later request is routed by it. -/
theorem deleted_model_routed :
    ¬ ∀ (config : ConfigApp) (db : Database) (as : List Label) (w : World),
      Transition.exec (step id) (start config db) as = some w →
        Transition.Along (step id) (fun w a => w.kept id a = true) (start config db) as →
          w.NoStaleRoute := by
  intro hcoherent
  let as := [.request 0 "gpt",tick 0,tick 0,tick 0,
    .mutate 1 (.deleteModel "gpt"),tick 1,tick 1,tick 1,tick 1,tick 0,tick 0,
    .request 2 "gpt",tick 2,tick 2,tick 2]
  have hsome : (Transition.exec (step id) (start demoConfig gptDb) as).isSome = true := by decide
  have hrun := (Option.some_get hsome).symm
  generalize hw : (Transition.exec (step id) (start demoConfig gptDb) as).get hsome = w at hrun
  obtain ⟨hrouted,-⟩ := hcoherent demoConfig gptDb as w hrun (by decide)
  subst hw
  -- the answered request rests on the route of version 0, older than the deletion
  obtain ⟨⟨n,hn,hroute,hnew⟩,-⟩ := hrouted 2 _ "gpt" _ _ _ rfl
  have hdeleted : 1 ≤ n := hnew _ List.mem_cons_self (.inl rfl)
  have hlast : n ≤ 1 := hn
  obtain rfl : n = 1 := by omega
  cases hroute

end Scenario

end World
end Ait
