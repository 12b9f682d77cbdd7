import Ait.Ledger

/-!
# Where cached answers come from

Races may leave an answer in a cache that the store no longer gives, but never one that it
did not give at some time. What a task decides or routes on was stored as well.
-/

namespace Ait

namespace History

variable {D : Type} {h h' : History D} {P Q : D → Prop}

/-- Some version so far meets `P`. -/
def Once (h : History D) (P : D → Prop) : Prop := ∃ n, n ≤ h.version ∧ P (h.past n)

theorem Once.current (hP : P h.current) : h.Once P := ⟨h.version,le_rfl,hP⟩

theorem Once.mono (hP : h.Once P) (himp : ∀ d, P d → Q d) : h.Once Q := by
  obtain ⟨n,hn,hP⟩ := hP
  exact ⟨n,hn,himp _ hP⟩

theorem Once.extends (hP : h.Once P) (hversion : h.version ≤ h'.version)
    (hpast : ∀ n, n ≤ h.version → h'.past n = h.past n) : h'.Once P := by
  obtain ⟨n,hn,hP⟩ := hP
  refine ⟨n,hn.trans hversion,?_⟩
  rw [hpast n hn]
  exact hP

end History

open History World

variable {hashKey : String → String} {h h' : History Database} {client : Client} {s s' : AppState}

/-- The caches hold what was stored at some time, and upstreams of providers as they were. -/
structure CachesStored (h : History Database) (client : Client) (s : AppState) : Prop where
  origin : s.httpClient = client
  keys : s.apiKeyCache.Holds fun hash e => h.Once fun db => db.keyInfo hash = some e.1
  models : s.modelCache.Holds fun modelName e => h.Once fun db => db.resolveModel modelName = some e.1
  providers : s.providerCache.Holds fun id e => ∃ q,
    (h.Once fun db => db.getProvider id = some q) ∧ e.1 = createProvider q client

def AuthStored (hashKey : String → String) (h : History Database) (token : String) : AuthPhase → Prop
  | .rereadRevision _ found _ | .remember found _ _ =>
    ∀ info, found = some info → h.Once fun db => db.keyInfo (hashKey token) = some info
  | _ => True

def RouteStored (h : History Database) (client : Client) (modelName : String) : RoutePhase → Prop
  | .rememberUpstream m p _ | .rememberModel m p _ | .knownUpstream m p _ | .createUpstream m p _ =>
    h.Once fun db => db.resolveModel modelName = some (m,p)
  | .routed m p upstream =>
    (h.Once fun db => db.resolveModel modelName = some (m,p)) ∧
      ∃ q, (h.Once fun db => db.getProvider p.id = some q) ∧ upstream = createProvider q client
  | _ => True

section Extends

variable (hversion : h.version ≤ h'.version) (hpast : ∀ n, n ≤ h.version → h'.past n = h.past n)
include hversion hpast

theorem CachesStored.extends (hs : CachesStored h client s) : CachesStored h' client s where
  origin := hs.origin
  keys := hs.keys.mono fun _ _ ho => ho.extends hversion hpast
  models := hs.models.mono fun _ _ ho => ho.extends hversion hpast
  providers := hs.providers.mono fun _ _ ⟨q,ho,hq⟩ => ⟨q,ho.extends hversion hpast,hq⟩

theorem AuthStored.extends {token : String} {phase : AuthPhase} (hphase : AuthStored hashKey h token phase) :
    AuthStored hashKey h' token phase := by
  cases phase with
  | rereadRevision revision found readAt | remember found stillCurrent readAt =>
    exact fun info hinfo => (hphase info hinfo).extends hversion hpast
  | _ => trivial

theorem RouteStored.extends {modelName : String} {phase : RoutePhase}
    (hphase : RouteStored h client modelName phase) : RouteStored h' client modelName phase := by
  cases phase with
  | rememberUpstream m p readAt | rememberModel m p readAt | knownUpstream m p readAt
    | createUpstream m p readAt =>
    have ho : h.Once fun db => db.resolveModel modelName = some (m,p) := hphase
    exact ho.extends hversion hpast
  | routed m p upstream =>
    obtain ⟨hroute,q,hq,rfl⟩ := hphase
    exact ⟨hroute.extends hversion hpast,q,hq.extends hversion hpast,rfl⟩
  | _ => trivial

end Extends

section Advances

variable {token modelName : String} {version : ℕ} {r : Reading} {modelAt modelAt' : String → ℕ}

/-- Who is admitted had a stored key that stands under the clock of the decision. -/
theorem authAdvance_stored {phase phase' : AuthPhase} (hcurrent : h.current = s.db)
    (hs : CachesStored h client s) (hphase : AuthStored hashKey h token phase)
    (hadv : phase.advance hashKey token version s r = some (phase',s')) :
    CachesStored h client s' ∧ AuthStored hashKey h token phase' ∧
      ∀ basis context, phase' = .decided basis (.ok context) → ∃ info,
        (h.Once fun db => db.keyInfo (hashKey token) = some info) ∧ verifyKey info r.utc = .ok context := by
  have hframe := authAdvance_frame hadv
  have hkeys : s'.apiKeyCache.Holds (fun hash e => h.Once fun db => db.keyInfo hash = some e.1) →
      CachesStored h client s' := by
    intro hkeys
    rw [hframe] at hkeys ⊢
    exact ⟨hs.origin,hkeys,hs.models,hs.providers⟩
  cases phase with
  | negativeCheck =>
    obtain ⟨rfl,⟨-,rfl⟩ | rfl⟩ := authAdvance_negativeCheck hadv
    · refine ⟨hs,trivial,fun basis context heq => ?_⟩
      cases heq
    · refine ⟨hs,trivial,fun basis context heq => ?_⟩
      cases heq
  | cacheCheck =>
    obtain ⟨rfl,⟨cached,hcached,rfl⟩ | rfl⟩ := authAdvance_cacheCheck hadv
    · refine ⟨hkeys fun hash e he => ?_,trivial,fun basis context heq => ?_⟩
      · obtain ⟨t,ht⟩ := freshEntry_get he
        have hkey := hs.keys _ _ ht
        exact hkey
      · obtain ⟨t,ht⟩ := freshEntry_hit hcached
        obtain ⟨-,hverify⟩ := AuthPhase.decided.inj heq
        exact ⟨cached,hs.keys _ _ ht,hverify⟩
    · refine ⟨hkeys fun hash e he => ?_,trivial,fun basis context heq => ?_⟩
      · obtain ⟨t,ht⟩ := freshEntry_get he
        have hkey := hs.keys _ _ ht
        exact hkey
      · cases heq
  | readRevision =>
    cases hadv
    refine ⟨hs,trivial,fun basis context heq => ?_⟩
    cases heq
  | lookup revision =>
    cases hadv
    refine ⟨hs,fun info hinfo => .current ?_,fun basis context heq => ?_⟩
    · rw [hcurrent]
      exact hinfo
    · cases heq
  | rereadRevision revision found readAt =>
    cases hadv
    refine ⟨hs,hphase,fun basis context heq => ?_⟩
    cases heq
  | remember found stillCurrent readAt =>
    cases hadv
    refine ⟨hkeys fun hash e he => ?_,trivial,fun basis context heq => ?_⟩
    · obtain he | ⟨rfl,hfound,-⟩ := AppState.rememberKey_apiKeyCache he
      · exact hs.keys _ _ he
      · exact hphase _ hfound
    · obtain ⟨-,hverdict⟩ := AuthPhase.decided.inj heq
      cases found with
      | none => cases hverdict
      | some info => exact ⟨info,hphase info rfl,hverdict⟩
  | decided basis reply => cases hadv

theorem CachesStored.rememberUpstream (hs : CachesStored h client s) {p : Provider}
    (hp : h.Once fun db => db.getProvider p.id = some p) (order : IterationOrder) (now : Instant) :
    CachesStored h client (s.rememberUpstream p order now) where
  origin := hs.origin
  keys := hs.keys
  models := hs.models
  providers id e he := by
    obtain ⟨he,-⟩ | ⟨rfl,rfl,-⟩ := get_insertCapped he
    · exact hs.providers _ _ he
    · exact ⟨p,hp,by rw [hs.origin]⟩

theorem CachesStored.rememberModel (hs : CachesStored h client s) {route : Model × Provider}
    (hroute : h.Once fun db => db.resolveModel modelName = some route) (order : IterationOrder)
    (now : Instant) : CachesStored h client (s.rememberModel modelName route order now) where
  origin := hs.origin
  keys := hs.keys
  providers := hs.providers
  models name e he := by
    obtain ⟨he,-⟩ | ⟨rfl,rfl,-⟩ := get_insertCapped he
    · exact hs.models _ _ he
    · exact hroute

theorem once_provider {m : Model} {p : Provider}
    (hroute : h.Once fun db => db.resolveModel modelName = some (m,p)) :
    h.Once fun db => db.getProvider p.id = some p :=
  hroute.mono fun _ => Database.getProvider_of_resolveModel

/-- A route was stored, and its upstream is that of a stored provider with the route's id. -/
theorem routeAdvance_stored {phase phase' : RoutePhase} (hcurrent : h.current = s.db)
    (hs : CachesStored h client s) (hphase : RouteStored h client modelName phase)
    (hadv : phase.advance modelName version s modelAt r = some (phase',s',modelAt')) :
    CachesStored h client s' ∧ RouteStored h client modelName phase' := by
  cases phase with
  | negativeCheck =>
    obtain ⟨rfl,-,⟨-,rfl⟩ | rfl⟩ := routeAdvance_negativeCheck hadv
    · exact ⟨hs,trivial⟩
    · exact ⟨hs,trivial⟩
  | cacheCheck =>
    obtain ⟨rfl,-,hnext⟩ := routeAdvance_cacheCheck hadv
    have hcaches : CachesStored h client (s.cachedModel modelName r.now).2 := by
      refine ⟨hs.origin,hs.keys,fun name e he => ?_,hs.providers⟩
      obtain ⟨t,ht⟩ := freshEntry_get he
      have hmodel := hs.models _ _ ht
      exact hmodel
    obtain ⟨m,p,hcached,rfl⟩ | rfl := hnext
    · obtain ⟨t,ht⟩ := freshEntry_hit hcached
      exact ⟨hcaches,hs.models _ _ ht⟩
    · exact ⟨hcaches,trivial⟩
  | lookup =>
    obtain ⟨rfl,-,⟨m,p,hroute,rfl⟩ | ⟨-,rfl⟩⟩ := routeAdvance_lookup hadv
    · rw [← hcurrent] at hroute
      have ho : h.Once fun db => db.resolveModel modelName = some (m,p) := .current hroute
      exact ⟨hs,ho⟩
    · exact ⟨hs,trivial⟩
  | rememberUpstream m p readAt =>
    cases hadv
    exact ⟨hs.rememberUpstream (once_provider hphase) r.order r.now,hphase⟩
  | rememberModel m p readAt =>
    cases hadv
    exact ⟨hs.rememberModel hphase r.order r.now,hphase⟩
  | rememberUnknown readAt =>
    cases hadv
    exact ⟨⟨hs.origin,hs.keys,hs.models,hs.providers⟩,trivial⟩
  | knownUpstream m p readAt =>
    obtain ⟨rfl,-,hnext⟩ := routeAdvance_knownUpstream hadv
    have hcaches : CachesStored h client (s.knownUpstream p.id r.now).2 := by
      refine ⟨hs.origin,hs.keys,hs.models,fun id e he => ?_⟩
      obtain ⟨t,ht⟩ := freshEntry_get he
      have hprovider := hs.providers _ _ ht
      exact hprovider
    obtain ⟨upstream,hcached,rfl⟩ | rfl := hnext
    · obtain ⟨t,ht⟩ := freshEntry_hit hcached
      exact ⟨hcaches,hphase,hs.providers _ _ ht⟩
    · exact ⟨hcaches,hphase⟩
  | createUpstream m p readAt =>
    cases hadv
    have hp := once_provider hphase
    exact ⟨hs.rememberUpstream hp r.order r.now,hphase,p,hp,by rw [hs.origin]⟩
  | routed m p upstream => cases hadv
  | notFound => cases hadv

end Advances

theorem CachesStored.of_sub (hs : CachesStored h client s) (horigin : s'.httpClient = s.httpClient)
    (hkeys : ∀ k v, s'.apiKeyCache.get k = some v → s.apiKeyCache.get k = some v)
    (hmodels : ∀ k v, s'.modelCache.get k = some v → s.modelCache.get k = some v)
    (hproviders : ∀ k v, s'.providerCache.get k = some v → s.providerCache.get k = some v) :
    CachesStored h client s' where
  origin := horigin.trans hs.origin
  keys := hs.keys.of_sub hkeys
  models := hs.models.of_sub hmodels
  providers := hs.providers.of_sub hproviders

theorem CachesStored.apply (hs : CachesStored h client s) (i : Invalidation) :
    CachesStored h client (i.apply s) :=
  hs.of_sub Invalidation.apply_httpClient (fun _ _ he => (Invalidation.apply_apiKeyCache he).1)
    (fun _ _ he => (Invalidation.apply_modelCache he).1)
    fun _ _ he => (Invalidation.apply_providerCache he).1

theorem CachesStored.cleanup (hs : CachesStored h client s) (now : Instant) (maxEntries : ℕ) :
    CachesStored h client (cleanupCaches s now maxEntries) where
  origin := hs.origin
  keys := holds_cleanupCache hs.keys now maxEntries
  models := holds_cleanupCache hs.models now maxEntries
  providers := holds_cleanupCache hs.providers now maxEntries

theorem CachesStored.reap (hs : CachesStored h client s) (now : Instant) :
    CachesStored h client (cleanupNegatives s now) :=
  ⟨hs.origin,hs.keys,hs.models,hs.providers⟩

def WorkStored (hashKey : String → String) (h : History Database) (client : Client) : Work → Prop
  | .authentication token phase => AuthStored hashKey h token phase
  | .request modelName phase => RouteStored h client modelName phase
  | .handler _ => True

theorem WorkStored.of_initial {work : Work} (hinit : work.initial) :
    WorkStored hashKey h client work := by
  cases work with
  | authentication token phase => cases phase with
    | negativeCheck => trivial
    | _ => cases hinit
  | request modelName phase => cases phase with
    | negativeCheck => trivial
    | _ => cases hinit
  | handler phase => trivial

theorem WorkStored.extends {work : Work} (hwork : WorkStored hashKey h client work)
    (hversion : h.version ≤ h'.version) (hpast : ∀ n, n ≤ h.version → h'.past n = h.past n) :
    WorkStored hashKey h' client work := by
  cases work with
  | authentication token phase => exact AuthStored.extends hversion hpast hwork
  | request modelName phase => exact RouteStored.extends hversion hpast hwork
  | handler phase => trivial

namespace World

variable {w w' : World}

/-- The history leads to the database, and all that is cached or held comes from it. -/
structure Stored (hashKey : String → String) (client : Client) (w : World) : Prop where
  current : w.hist.current = w.app.db
  caches : CachesStored w.hist client w.app
  tasks : ∀ i t, w.tasks i = some t → WorkStored hashKey w.hist client t.work

theorem Stored.start (config : ConfigApp) (db : Database) :
    Stored hashKey (AppState.new config db).httpClient (World.start config db) where
  current := rfl
  caches := ⟨rfl,FiniteMap.Holds.empty,FiniteMap.Holds.empty,FiniteMap.Holds.empty⟩
  tasks i t ht := by cases ht

theorem Stored.setTask (hw : Stored hashKey client w) {i : ℕ} {t : Option Task}
    (ht : ∀ t', t = some t' → WorkStored hashKey w.hist client t'.work) :
    Stored hashKey client (w.setTask i t) where
  current := hw.current
  caches := hw.caches
  tasks j t' ht' := by
    rw [setTask_tasks] at ht'
    split at ht'
    · exact ht t' ht'
    · exact hw.tasks j t' ht'

theorem Stored.setWork (hw : Stored hashKey client w) {i : ℕ} {before : List Write} {work : Work}
    (hwork : WorkStored hashKey w.hist client work) :
    Stored hashKey client (w.setTask i (some ⟨before,work⟩)) := by
  refine hw.setTask fun t ht => ?_
  obtain rfl := Option.some.inj ht
  exact hwork

/-- The shared state may change while the database stays and the caches hold what was stored. -/
theorem Stored.withApp (hw : Stored hashKey client w) {app : AppState} (hdb : app.db = w.app.db)
    (hcaches : CachesStored w.hist client app) (modelAt : String → ℕ) :
    Stored hashKey client { w with app := app,modelAt := modelAt } where
  current := hw.current.trans hdb.symm
  caches := hcaches
  tasks := hw.tasks

theorem Stored.record (hw : Stored hashKey client w) (i : ℕ) (m : Mutation) (c : Committed Unit) :
    Stored hashKey client (w.record i m c) where
  current := History.write_current w.hist c.db
  caches := by
    have hlater := hw.caches.extends (Nat.le_succ _) fun _ hn => History.write_past_of_le hn c.db
    exact hlater.of_sub rfl (fun _ _ he => he) (fun _ _ he => he) fun _ _ he => he
  tasks j t ht := (hw.tasks j t ht).extends (Nat.le_succ _) fun _ hn =>
    History.write_past_of_le hn c.db

theorem Stored.perform (hw : Stored hashKey client w) (x : Write) (i : Invalidation) :
    Stored hashKey client (w.perform x i) where
  current := hw.current.trans Invalidation.apply_db.symm
  caches := hw.caches.apply i
  tasks := hw.tasks

/-- No step of the world puts anything in a cache, or before a task, that was never stored. -/
theorem Stored.step (hw : Stored hashKey client w) {a : Label} (hstep : Step hashKey w a w') :
    Stored hashKey client w' := by
  cases hstep with
  | spawn free initial => exact hw.setWork (.of_initial initial)
  | authenticate task advance =>
    obtain ⟨hcaches,hphase,-⟩ :=
      authAdvance_stored hw.current hw.caches (hw.tasks _ _ task) advance
    have hdb := congrArg AppState.db (authAdvance_frame advance)
    exact (hw.withApp hdb hcaches w.modelAt).setWork hphase
  | route task advance =>
    obtain ⟨hcaches,hphase⟩ := routeAdvance_stored hw.current hw.caches (hw.tasks _ _ task) advance
    have hdb := congrArg AppState.db (routeAdvance_frame advance)
    exact (hw.withApp hdb hcaches _).setWork hphase
  | fail => exact hw.setWork trivial
  | commit => exact (hw.record _ _ _).setWork trivial
  | commitLate => exact (hw.record _ _ _).setWork trivial
  | resume => exact hw.setWork trivial
  | invalidate => exact (hw.perform _ _).setWork trivial
  | finish => exact hw.setWork trivial
  | abandon => exact hw.setWork trivial
  | lose => exact hw.setWork trivial
  | drop =>
    refine hw.setTask fun t ht => ?_
    cases ht
  | @cleanup now maxEntries =>
    have hdb : (cleanupCaches w.app now maxEntries).db = w.app.db := rfl
    exact hw.withApp hdb (hw.caches.cleanup now maxEntries) w.modelAt
  | @reap now =>
    have hdb : (cleanupNegatives w.app now).db = w.app.db := rfl
    exact hw.withApp hdb (hw.caches.reap now) w.modelAt

end World
end Ait
