import Ait.Sequential
import Ait.Interference

/-!
# Floods of unknown tokens and names

Tokens without a row only reach the negative key cache, and names the database does not
resolve only the negative model cache. Neither cache is read for a token or a name that
exists, so a run goes as it would without them.
-/

namespace Ait

inductive Outcome
  | authenticated (answer : Except AitError ApiKeyContext)
  | routed (answer : Except AitError ((Model × Provider) × UpstreamProvider))
  /-- What the server does by itself answers nobody. -/
  | silent

namespace Session

def outcome (hashKey : String → String) (s : Session) : Operation → Outcome
  | .authenticate token =>
    .authenticated (authMiddleware hashKey s.app (some ("Bearer " ++ token)) s.now s.utc).1
  | .route modelName order order' =>
    .routed (routeRequest s.app modelName order order' s.now).1
  | _ => .silent

def machine (hashKey : String → String) : Machine Session Operation Outcome :=
  ⟨perform hashKey,outcome hashKey⟩

end Session

namespace Operation

def Reads : Operation → Prop
  | .write _ => False
  | _ => True

def bogusToken (hashKey : String → String) (db : Database) : Operation → Bool
  | .authenticate token => (db.getApiKeyByRaw hashKey token).isNone
  | _ => false

def bogusName (db : Database) : Operation → Bool
  | .route modelName _ _ => (db.resolveModel modelName).isNone
  | _ => false

end Operation

namespace AppState

def setNegativeKeys (s : AppState) (rejected : FiniteMap String Instant) : AppState :=
  { s with negativeKeyCache := rejected }

def setNegativeModels (s : AppState) (unknown : FiniteMap String Instant) : AppState :=
  { s with negativeModelCache := unknown }

end AppState

section Tokens

variable {hashKey : String → String} {s : AppState} {token : String} {now : Instant}
  {utc : DateTime} {presented others : List String}

theorem KeysAgree.kept (h : KeysAgree hashKey presented s) :
    KeysAgree hashKey (token::presented)
      (authMiddleware hashKey s (some ("Bearer " ++ token)) now utc).2 := by
  cases hauth : s.config.authEnabled with
  | true => exact (h.authenticate hauth token now utc).2
  | false =>
    rw [auth_disabled hauth]
    exact h.present token

theorem KeysAgree.not_rejected (h : KeysAgree hashKey presented s) {info : ApiKeyInfo}
    (hrow : s.db.getApiKeyByRaw hashKey token = some info) (now : Instant) :
    s.knownInvalid (hashKey token) now = false := by
  by_contra hinvalid
  rw [Bool.not_eq_false] at hinvalid
  obtain ⟨seen,hseen⟩ := freshVerdict_entry hinvalid
  have habsent := (h.rejected _ _ hseen).1
  cases hrow.symm.trans habsent

theorem KeysAgree.stale (h : KeysAgree hashKey presented s)
    (hrow : s.db.getApiKeyByRaw hashKey token = none) :
    (freshEntry s.apiKeyCache (hashKey token) now).1 = none := by
  cases hfresh : (freshEntry s.apiKeyCache (hashKey token) now).1 with
  | none => rfl
  | some info =>
    obtain ⟨t,ht⟩ := freshEntry_hit hfresh
    cases hrow.symm.trans (h.cached _ _ ht)

theorem auth_known (hs : KeysAgree hashKey presented s) {rejected : FiniteMap String Instant}
    (ht : KeysAgree hashKey others (s.setNegativeKeys rejected)) {info : ApiKeyInfo}
    (hrow : s.db.getApiKeyByRaw hashKey token = some info) (now : Instant) (utc : DateTime) :
    authMiddleware hashKey (s.setNegativeKeys rejected) (some ("Bearer " ++ token)) now utc =
      ((authMiddleware hashKey s (some ("Bearer " ++ token)) now utc).1,
        (authMiddleware hashKey s (some ("Bearer " ++ token)) now utc).2.setNegativeKeys
          rejected) := by
  cases hauth : s.config.authEnabled with
  | false => rw [auth_disabled hauth,auth_disabled (s := s.setNegativeKeys rejected) hauth]
  | true =>
    have hleft := hs.not_rejected hrow now
    have hright := ht.not_rejected hrow now
    cases hfresh : (freshEntry s.apiKeyCache (hashKey token) now).1 with
    | some cached =>
      rw [auth_hit hauth hleft hfresh,
        auth_hit (s := s.setNegativeKeys rejected) hauth hright hfresh]
      rfl
    | none =>
      rw [auth_read hauth hleft hfresh,
        auth_read (s := s.setNegativeKeys rejected) hauth hright hfresh]
      have hsame : (s.setNegativeKeys rejected).db.getApiKeyByRaw hashKey token = some info := hrow
      rw [hrow,hsame]
      rfl

theorem auth_unknown (hs : KeysAgree hashKey presented s)
    (hrow : s.db.getApiKeyByRaw hashKey token = none) (now : Instant) (utc : DateTime) :
    ∃ rejected, (authMiddleware hashKey s (some ("Bearer " ++ token)) now utc).2 =
      s.setNegativeKeys rejected := by
  cases hauth : s.config.authEnabled with
  | false => exact ⟨s.negativeKeyCache,by rw [auth_disabled hauth]; rfl⟩
  | true =>
    cases hinvalid : s.knownInvalid (hashKey token) now with
    | true => exact ⟨s.negativeKeyCache,by rw [auth_rejected hauth hinvalid]; rfl⟩
    | false =>
      rw [auth_read hauth hinvalid (hs.stale hrow),hrow,AppState.rememberKey]
      split
      · exact ⟨_,rfl⟩
      · exact ⟨s.negativeKeyCache,rfl⟩

@[simp] theorem auth_setNegativeModels (unknown : FiniteMap String Instant) :
    authMiddleware hashKey (s.setNegativeModels unknown) (some ("Bearer " ++ token)) now utc =
      ((authMiddleware hashKey s (some ("Bearer " ++ token)) now utc).1,
        (authMiddleware hashKey s (some ("Bearer " ++ token)) now utc).2.setNegativeModels
          unknown) := by
  cases hauth : s.config.authEnabled with
  | false => rw [auth_disabled hauth,auth_disabled (s := s.setNegativeModels unknown) hauth]
  | true =>
    cases hinvalid : s.knownInvalid (hashKey token) now with
    | true =>
      rw [auth_rejected hauth hinvalid,
        auth_rejected (s := s.setNegativeModels unknown) hauth hinvalid]
    | false =>
      cases hfresh : (freshEntry s.apiKeyCache (hashKey token) now).1 with
      | some cached =>
        rw [auth_hit hauth hinvalid hfresh,
          auth_hit (s := s.setNegativeModels unknown) hauth hinvalid hfresh]
        rfl
      | none =>
        rw [auth_read hauth hinvalid hfresh,
          auth_read (s := s.setNegativeModels unknown) hauth hinvalid hfresh]
        have hsame : (s.setNegativeModels unknown).db.getApiKeyByRaw hashKey token =
            s.db.getApiKeyByRaw hashKey token := rfl
        rw [hsame]
        cases s.db.getApiKeyByRaw hashKey token with
        | some info => rfl
        | none =>
          simp only [AppState.rememberKey,AppState.setNegativeModels]
          split <;> rfl

end Tokens

section Names

variable {s : AppState} {modelName : String} {order order' : IterationOrder} {now : Instant}

@[simp] theorem upstream_setNegativeKeys (rejected : FiniteMap String Instant) (p : Provider) :
    cachedUpstream (s.setNegativeKeys rejected) p order now =
      ((cachedUpstream s p order now).1,
        (cachedUpstream s p order now).2.setNegativeKeys rejected) := by
  cases hfresh : (freshEntry s.providerCache p.id now).1 with
  | some upstream =>
    rw [upstream_hit hfresh,upstream_hit (s := s.setNegativeKeys rejected) hfresh]
    rfl
  | none =>
    rw [upstream_miss hfresh,upstream_miss (s := s.setNegativeKeys rejected) hfresh]
    rfl

@[simp] theorem upstream_setNegativeModels (unknown : FiniteMap String Instant) (p : Provider) :
    cachedUpstream (s.setNegativeModels unknown) p order now =
      ((cachedUpstream s p order now).1,
        (cachedUpstream s p order now).2.setNegativeModels unknown) := by
  cases hfresh : (freshEntry s.providerCache p.id now).1 with
  | some upstream =>
    rw [upstream_hit hfresh,upstream_hit (s := s.setNegativeModels unknown) hfresh]
    rfl
  | none =>
    rw [upstream_miss hfresh,upstream_miss (s := s.setNegativeModels unknown) hfresh]
    rfl

@[simp] theorem resolve_setNegativeKeys (rejected : FiniteMap String Instant) :
    resolveModelAndProvider (s.setNegativeKeys rejected) modelName order now =
      ((resolveModelAndProvider s modelName order now).1,
        (resolveModelAndProvider s modelName order now).2.setNegativeKeys rejected) := by
  cases hknown : s.knownUnknown modelName now with
  | true => rw [resolve_rejected hknown,resolve_rejected (s := s.setNegativeKeys rejected) hknown]
  | false =>
    cases hfresh : (freshEntry s.modelCache modelName now).1 with
    | some route =>
      rw [resolve_hit hknown hfresh,resolve_hit (s := s.setNegativeKeys rejected) hknown hfresh]
      rfl
    | none =>
      cases hdb : s.db.resolveModel modelName with
      | some route =>
        rw [resolve_read hknown hfresh hdb,
          resolve_read (s := s.setNegativeKeys rejected) hknown hfresh hdb]
        rfl
      | none =>
        rw [resolve_unknown hknown hfresh hdb,
          resolve_unknown (s := s.setNegativeKeys rejected) hknown hfresh hdb]
        rfl

theorem RoutesAgree.not_unknown (h : RoutesAgree s) {route : Model × Provider}
    (hroute : s.db.resolveModel modelName = some route) (now : Instant) :
    s.knownUnknown modelName now = false := by
  by_contra hknown
  rw [Bool.not_eq_false] at hknown
  obtain ⟨seen,hseen⟩ := freshVerdict_entry hknown
  cases hroute.symm.trans (h.unknown _ _ hseen)

theorem RoutesAgree.stale (h : RoutesAgree s) (hroute : s.db.resolveModel modelName = none) :
    (freshEntry s.modelCache modelName now).1 = none := by
  cases hfresh : (freshEntry s.modelCache modelName now).1 with
  | none => rfl
  | some route =>
    obtain ⟨t,ht⟩ := freshEntry_hit hfresh
    cases hroute.symm.trans (h.routes _ _ ht)

/-- A name the database resolves is routed apart from the negative cache. -/
theorem resolve_known (hs : RoutesAgree s) {unknown : FiniteMap String Instant}
    (ht : RoutesAgree (s.setNegativeModels unknown)) {route : Model × Provider}
    (hroute : s.db.resolveModel modelName = some route) :
    resolveModelAndProvider (s.setNegativeModels unknown) modelName order now =
      ((resolveModelAndProvider s modelName order now).1,
        (resolveModelAndProvider s modelName order now).2.setNegativeModels unknown) := by
  have hleft := hs.not_unknown hroute now
  have hright := ht.not_unknown hroute now
  cases hfresh : (freshEntry s.modelCache modelName now).1 with
  | some cached =>
    rw [resolve_hit hleft hfresh,resolve_hit (s := s.setNegativeModels unknown) hright hfresh]
    rfl
  | none =>
    rw [resolve_read hleft hfresh hroute,
      resolve_read (s := s.setNegativeModels unknown) hright hfresh hroute]
    rfl

@[simp] theorem route_setNegativeKeys (rejected : FiniteMap String Instant) :
    routeRequest (s.setNegativeKeys rejected) modelName order order' now =
      ((routeRequest s modelName order order' now).1,
        (routeRequest s modelName order order' now).2.setNegativeKeys rejected) := by
  rw [routeRequest,resolve_setNegativeKeys,routeRequest]
  generalize resolveModelAndProvider s modelName order now = resolved
  rcases resolved with ⟨e | ⟨m,p⟩,s'⟩
  · rfl
  · simp only [upstream_setNegativeKeys]

theorem route_known (hs : RoutesAgree s) {unknown : FiniteMap String Instant}
    (ht : RoutesAgree (s.setNegativeModels unknown)) {route : Model × Provider}
    (hroute : s.db.resolveModel modelName = some route) (order order' : IterationOrder)
    (now : Instant) :
    routeRequest (s.setNegativeModels unknown) modelName order order' now =
      ((routeRequest s modelName order order' now).1,
        (routeRequest s modelName order order' now).2.setNegativeModels unknown) := by
  rw [routeRequest,resolve_known hs ht hroute,routeRequest]
  generalize resolveModelAndProvider s modelName order now = resolved
  rcases resolved with ⟨e | ⟨m,p⟩,s'⟩
  · rfl
  · simp only [upstream_setNegativeModels]

/-- A name the database does not resolve only reaches the negative cache. -/
theorem route_unknown (hs : RoutesAgree s) (hroute : s.db.resolveModel modelName = none)
    (order order' : IterationOrder) (now : Instant) :
    ∃ unknown, (routeRequest s modelName order order' now).2 = s.setNegativeModels unknown := by
  cases hknown : s.knownUnknown modelName now with
  | true => exact ⟨s.negativeModelCache,by rw [routeRequest,resolve_rejected hknown]; rfl⟩
  | false =>
    rw [routeRequest,resolve_unknown hknown (hs.stale hroute) hroute]
    exact ⟨_,rfl⟩

end Names

namespace Session

variable {hashKey : String → String} {db : Database}

@[simp] theorem perform_db {s : Session} {a : Operation} (ha : a.Reads) :
    (s.perform hashKey a).app.db = s.app.db := by
  cases a with
  | write m => exact ha.elim
  | authenticate token =>
    obtain ⟨k,n,h⟩ := authMiddleware_frame hashKey s.app (some ("Bearer " ++ token)) s.now s.utc
    simp only [perform,h]
  | route modelName order order' =>
    obtain ⟨m,n,p,h⟩ := routeRequest_frame s.app modelName order order' s.now
    simp only [perform,h]
  | cleanup maxEntries => rfl
  | reap => rfl
  | advance elapsed drift => rfl

theorem keysAgree_read {s : Session} (h : KeysAgree hashKey s.presented s.app) {a : Operation}
    (ha : a.Reads) :
    KeysAgree hashKey (s.perform hashKey a).presented (s.perform hashKey a).app := by
  cases a with
  | write m => exact ha.elim
  | authenticate token => exact h.kept
  | route modelName order order' =>
    obtain ⟨m,n,p,hframe⟩ := routeRequest_frame s.app modelName order order' s.now
    simp only [perform,hframe]
    exact h.of_sub rfl (fun _ v hv => ⟨v.2,hv⟩) fun _ _ hv => hv
  | cleanup maxEntries => exact ⟨h.cached.retain _,h.rejected⟩
  | reap => exact ⟨h.cached,h.rejected.retain _⟩
  | advance elapsed drift => exact h

theorem perform_clocks {s t : Session} (hnow : t.now = s.now) (hutc : t.utc = s.utc)
    {a : Operation} (ha : a.Reads) :
    (t.perform hashKey a).now = (s.perform hashKey a).now ∧
      (t.perform hashKey a).utc = (s.perform hashKey a).utc := by
  cases a with
  | write m => exact ha.elim
  | advance elapsed drift => simp only [perform,hnow,hutc,and_self]
  | authenticate token => exact ⟨hnow,hutc⟩
  | route modelName order order' => exact ⟨hnow,hutc⟩
  | cleanup maxEntries => exact ⟨hnow,hutc⟩
  | reap => exact ⟨hnow,hutc⟩

/-- Two sessions over one database that differ in what they rejected. -/
structure KeyTwins (hashKey : String → String) (db : Database) (s t : Session) : Prop where
  app : ∃ rejected, t.app = s.app.setNegativeKeys rejected
  now : t.now = s.now
  utc : t.utc = s.utc
  db : s.app.db = db
  left : KeysAgree hashKey s.presented s.app
  right : KeysAgree hashKey t.presented t.app

/-- An operation on twins makes twins, when it does the same to both but for what is rejected. -/
theorem KeyTwins.step {s t : Session} (h : KeyTwins hashKey db s t) {a : Operation} (ha : a.Reads)
    (happ : ∃ rejected, (t.perform hashKey a).app =
      (s.perform hashKey a).app.setNegativeKeys rejected) :
    KeyTwins hashKey db (s.perform hashKey a) (t.perform hashKey a) :=
  have hclocks := perform_clocks h.now h.utc ha
  ⟨happ,hclocks.1,hclocks.2,(perform_db ha).trans h.db,keysAgree_read h.left ha,
    keysAgree_read h.right ha⟩

theorem KeyTwins.kept {s t : Session} (h : KeyTwins hashKey db s t) {a : Operation} (ha : a.Reads)
    (hkept : a.bogusToken hashKey db = false) :
    KeyTwins hashKey db (s.perform hashKey a) (t.perform hashKey a) ∧
      outcome hashKey s a = outcome hashKey t a := by
  obtain ⟨rejected,happ⟩ := h.app
  have hright := h.right
  rw [happ] at hright
  cases a with
  | write m => exact ha.elim
  | authenticate token =>
    cases hrow : db.getApiKeyByRaw hashKey token with
    | none => simp [Operation.bogusToken,hrow] at hkept
    | some info =>
      have hknown := auth_known h.left hright (h.db ▸ hrow) s.now s.utc
      constructor
      · refine h.step ha ⟨rejected,?_⟩
        simp only [perform,happ,h.now,h.utc,hknown]
      · simp only [outcome,happ,h.now,h.utc,hknown]
  | route modelName order order' =>
    constructor
    · refine h.step ha ⟨rejected,?_⟩
      simp only [perform,happ,h.now,route_setNegativeKeys]
    · simp only [outcome,happ,h.now,route_setNegativeKeys]
  | cleanup maxEntries =>
    refine ⟨h.step ha ⟨rejected,?_⟩,rfl⟩
    simp only [perform,happ,h.now]
    rfl
  | reap =>
    let swept := rejected.retain fun _ v => elapsed v s.now < negativeCacheTtl
    refine ⟨h.step ha ⟨swept,?_⟩,rfl⟩
    simp only [perform,happ,h.now]
    rfl
  | advance elapsed drift => exact ⟨h.step ha ⟨rejected,happ⟩,rfl⟩

theorem KeyTwins.skipped {s t : Session} (h : KeyTwins hashKey db s t) {a : Operation}
    (ha : a.Reads) (hbogus : a.bogusToken hashKey db = true) :
    KeyTwins hashKey db (s.perform hashKey a) t := by
  cases a with
  | authenticate token =>
    have hrow : s.app.db.getApiKeyByRaw hashKey token = none := by
      rw [h.db]
      exact Option.isNone_iff_eq_none.mp hbogus
    obtain ⟨more,hmore⟩ := auth_unknown h.left hrow s.now s.utc
    obtain ⟨rejected,happ⟩ := h.app
    refine ⟨⟨rejected,?_⟩,h.now,h.utc,(perform_db ha).trans h.db,keysAgree_read h.left ha,h.right⟩
    simp only [perform,hmore]
    exact happ
  | write m => exact ha.elim
  | route modelName order order' => cases hbogus
  | cleanup maxEntries => cases hbogus
  | reap => cases hbogus
  | advance elapsed drift => cases hbogus

theorem unwinds_keys : (machine hashKey).Unwinds Operation.Reads
    (Operation.bogusToken hashKey db) (KeyTwins hashKey db) where
  kept _ _ _ ha h hkept := (h.kept ha hkept).1
  skipped _ _ _ ha h hbogus := h.skipped ha hbogus
  answers _ _ _ ha h hkept := (h.kept ha hkept).2

/-- Two sessions over one database that differ in the names they know to be unknown. -/
structure RouteTwins (db : Database) (s t : Session) : Prop where
  app : ∃ unknown, t.app = s.app.setNegativeModels unknown
  now : t.now = s.now
  utc : t.utc = s.utc
  db : s.app.db = db
  left : RoutesAgree s.app
  right : RoutesAgree t.app

theorem RouteTwins.step {s t : Session} (h : RouteTwins db s t) {a : Operation} (ha : a.Reads)
    (happ : ∃ unknown, (t.perform hashKey a).app =
      (s.perform hashKey a).app.setNegativeModels unknown) :
    RouteTwins db (s.perform hashKey a) (t.perform hashKey a) :=
  have hclocks := perform_clocks h.now h.utc ha
  ⟨happ,hclocks.1,hclocks.2,(perform_db ha).trans h.db,routesAgree_perform h.left a,
    routesAgree_perform h.right a⟩

theorem RouteTwins.kept {s t : Session} (h : RouteTwins db s t) {a : Operation} (ha : a.Reads)
    (hkept : a.bogusName db = false) :
    RouteTwins db (s.perform hashKey a) (t.perform hashKey a) ∧
      outcome hashKey s a = outcome hashKey t a := by
  obtain ⟨unknown,happ⟩ := h.app
  have hright := h.right
  rw [happ] at hright
  cases a with
  | write m => exact ha.elim
  | authenticate token =>
    constructor
    · refine h.step ha ⟨unknown,?_⟩
      simp only [perform,happ,h.now,h.utc,auth_setNegativeModels]
    · simp only [outcome,happ,h.now,h.utc,auth_setNegativeModels]
  | route modelName order order' =>
    cases hroute : db.resolveModel modelName with
    | none => simp [Operation.bogusName,hroute] at hkept
    | some route =>
      have hknown := route_known h.left hright (h.db ▸ hroute) order order' s.now
      constructor
      · refine h.step ha ⟨unknown,?_⟩
        simp only [perform,happ,h.now,hknown]
      · simp only [outcome,happ,h.now,hknown]
  | cleanup maxEntries =>
    refine ⟨h.step ha ⟨unknown,?_⟩,rfl⟩
    simp only [perform,happ,h.now]
    rfl
  | reap =>
    let swept := unknown.retain fun _ v => elapsed v s.now < negativeCacheTtl
    refine ⟨h.step ha ⟨swept,?_⟩,rfl⟩
    simp only [perform,happ,h.now]
    rfl
  | advance elapsed drift => exact ⟨h.step ha ⟨unknown,happ⟩,rfl⟩

theorem RouteTwins.skipped {s t : Session} (h : RouteTwins db s t) {a : Operation}
    (ha : a.Reads) (hbogus : a.bogusName db = true) :
    RouteTwins db (s.perform hashKey a) t := by
  cases a with
  | route modelName order order' =>
    have hroute : s.app.db.resolveModel modelName = none := by
      rw [h.db]
      exact Option.isNone_iff_eq_none.mp hbogus
    obtain ⟨more,hmore⟩ := route_unknown h.left hroute order order' s.now
    obtain ⟨unknown,happ⟩ := h.app
    refine ⟨⟨unknown,?_⟩,h.now,h.utc,(perform_db ha).trans h.db,routesAgree_perform h.left _,
      h.right⟩
    simp only [perform,hmore]
    exact happ
  | write m => exact ha.elim
  | authenticate token => cases hbogus
  | cleanup maxEntries => cases hbogus
  | reap => cases hbogus
  | advance elapsed drift => cases hbogus

theorem unwinds_routes : (machine hashKey).Unwinds Operation.Reads (Operation.bogusName db)
    (RouteTwins db) where
  kept _ _ _ ha h hkept := (h.kept ha hkept).1
  skipped _ _ _ ha h hbogus := h.skipped ha hbogus
  answers _ _ _ ha h hkept := (h.kept ha hkept).2

/-- Without the authentications of tokens that are in no row a run leaves the same key cache and
answers everything else alike; without the resolutions of names the database does not resolve it
leaves the same model and provider caches and answers everything else alike. -/
theorem floods_isolated (hashKey : String → String) (config : ConfigApp) (db : Database)
    (now : Instant) (utc : DateTime) (history : List Operation)
    (hreads : ∀ a ∈ history, a.Reads) :
    (machine hashKey).Isolated (Operation.bogusToken hashKey db) (fun s => s.app.apiKeyCache)
        (start config db now utc) history ∧
      (machine hashKey).Isolated (Operation.bogusName db)
        (fun s => (s.app.modelCache,s.app.providerCache)) (start config db now utc) history := by
  constructor
  · have hagree : KeysAgree hashKey [] (AppState.new config db) := KeysAgree.start config db
    refine unwinds_keys.isolated ?_ hreads ⟨⟨.empty,rfl⟩,rfl,rfl,rfl,hagree,hagree⟩
    intro s t h
    obtain ⟨rejected,happ⟩ := h.app
    rw [happ]
    rfl
  · have hagree := RoutesAgree.start config db
    refine unwinds_routes.isolated ?_ hreads ⟨⟨.empty,rfl⟩,rfl,rfl,rfl,hagree,hagree⟩
    intro s t h
    obtain ⟨unknown,happ⟩ := h.app
    rw [happ]
    rfl

/-- A guessed token and an unknown name before a rejected request and a sweep. -/
theorem floods_isolated_guess :
    let config : ConfigApp :=
      { authEnabled := true,cacheMaxEntries := 1,connectTimeoutSecs := 5,ssrfAllowedCidrs := [] }
    let order : IterationOrder := ⟨fun _ => 0,fun _ => 0,fun _ => 0⟩
    let db : Database := ⟨⟨[],[],[⟨"k1","sk-1","sk-1","laptop",true,0,0,none⟩]⟩,by decide⟩
    let history := [.authenticate "sk-0",.authenticate "sk-1",.route "gpt" order order,
      .advance 5 (-3),.reap,.cleanup 1,.authenticate "sk-1"]
    (machine id).Isolated (Operation.bogusToken id db) (fun s => s.app.apiKeyCache)
        (start config db 0 0) history ∧
      (machine id).Isolated (Operation.bogusName db)
        (fun s => (s.app.modelCache,s.app.providerCache)) (start config db 0 0) history ∧
      (history.filter fun a => !a.bogusToken id db).length = 6 ∧
      (history.filter fun a => !a.bogusName db).length = 6 := by
  intro config order db history
  have hreads : ∀ a ∈ history, a.Reads := by simp [history,Operation.Reads]
  obtain ⟨hkeys,hroutes⟩ := floods_isolated id config db 0 0 history hreads
  exact ⟨hkeys,hroutes,by decide,by decide⟩

end Session

end Ait
