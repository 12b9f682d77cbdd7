import Ait.Auth
import Ait.CacheAside
import Ait.Resolve
import Ait.Transition

/-!
# The server as interleaved tasks

Authentications, proxied requests and mutating handlers are tasks that share one
state and advance one atomic step at a time, in any order and under any clock
readings. A handler's write runs on a blocking thread: the handler gives up when
its timeout fires first, or is dropped when its client disconnects, and the write may
still take effect afterwards.

Beside the shared state a `World` records what the properties speak about: every
version of the database, the writes that produced them, and the removals performed.
-/

namespace Ait

/-- What one step reads from outside: the clocks and the order of map iterators. -/
structure Reading where
  now : Instant
  utc : DateTime
  order : IterationOrder

structure Write where
  handler : ℕ
  mutation : Mutation
  stale : List Invalidation
  version : ℕ

/-- `readAt` is the database version a lookup saw; `basis` is what the decision rests on. -/
inductive AuthPhase
  | negativeCheck
  | cacheCheck
  | readRevision
  | lookup (revision : ℕ)
  | rereadRevision (revision : ℕ) (found : Option ApiKeyInfo) (readAt : ℕ)
  | remember (found : Option ApiKeyInfo) (stillCurrent : Bool) (readAt : ℕ)
  | decided (basis : Option ApiKeyInfo) (reply : Except AitError ApiKeyContext)

/-- `readAt` is the database version the route was read at. -/
inductive RoutePhase
  | negativeCheck
  | cacheCheck
  | lookup
  | rememberUpstream (m : Model) (p : Provider) (readAt : ℕ)
  | rememberModel (m : Model) (p : Provider) (readAt : ℕ)
  | rememberUnknown (readAt : ℕ)
  | knownUpstream (m : Model) (p : Provider) (readAt : ℕ)
  | createUpstream (m : Model) (p : Provider) (readAt : ℕ)
  | routed (m : Model) (p : Provider) (upstream : UpstreamProvider)
  | notFound

/-- An abandoned handler has timed out, or its client has disconnected, while its closure is still
to run; a lost write took effect although its handler gave up. -/
inductive HandlerPhase
  | running (m : Mutation)
  | abandoned (m : Mutation)
  | committed (w : Write)
  | invalidating (w : Write) (pending : List Invalidation)
  | returned (w : Write)
  | lost (w : Write)
  | failed

def HandlerPhase.over : HandlerPhase → Bool
  | returned _ | lost _ | failed => true
  | _ => false

def HandlerPhase.write : HandlerPhase → Option Write
  | committed w | invalidating w _ | returned w | lost w => some w
  | _ => none

inductive Work
  | authentication (token : String) (phase : AuthPhase)
  | request (modelName : String) (phase : RoutePhase)
  | handler (phase : HandlerPhase)

def Work.isHandler : Work → Bool
  | handler _ => true
  | _ => false

def Work.over : Work → Bool
  | authentication _ (.decided _ _) => true
  | request _ (.routed _ _ _) | request _ .notFound => true
  | handler phase => phase.over
  | _ => false

/-- `before` lists the writes whose handlers were over when the task began. -/
structure Task where
  before : List Write
  work : Work

def Task.write (t : Task) : Option Write :=
  match t.work with
  | .handler phase => phase.write
  | _ => none

/-- The atomic steps of `authMiddleware`. -/
def AuthPhase.advance (hashKey : String → String) (token : String) (version : ℕ) (s : AppState)
    (r : Reading) : AuthPhase → Option (AuthPhase × AppState)
  | negativeCheck =>
    if s.knownInvalid (hashKey token) r.now then some (decided none (.error invalidKey),s)
    else some (cacheCheck,s)
  | cacheCheck =>
    match s.cachedKey (hashKey token) r.now with
    | (some cached,s) => some (decided (some cached) (verifyKey cached r.utc),s)
    | (none,s) => some (readRevision,s)
  | readRevision => some (lookup s.keyRevision,s)
  | lookup revision =>
    some (rereadRevision revision (s.db.getApiKeyByRaw hashKey token) version,s)
  | rereadRevision revision found readAt =>
    some (remember found (s.keyRevision == revision) readAt,s)
  | remember found stillCurrent _ =>
    some (decided found (verdict found r.utc),
      s.rememberKey (hashKey token) found stillCurrent r.now)
  | decided _ _ => none

/-- The atomic steps of `resolveModelAndProvider` and `cachedUpstream`. `modelAt` records
the version each entry of the model cache was read at. -/
def RoutePhase.advance (modelName : String) (version : ℕ) (s : AppState) (modelAt : String → ℕ)
    (r : Reading) : RoutePhase → Option (RoutePhase × AppState × (String → ℕ))
  | negativeCheck =>
    if s.knownUnknown modelName r.now then some (notFound,s,modelAt)
    else some (cacheCheck,s,modelAt)
  | cacheCheck =>
    match s.cachedModel modelName r.now with
    | (some (m,p),s) => some (knownUpstream m p (modelAt modelName),s,modelAt)
    | (none,s) => some (lookup,s,modelAt)
  | lookup =>
    match s.db.resolveModel modelName with
    | some (m,p) => some (rememberUpstream m p version,s,modelAt)
    | none => some (rememberUnknown version,s,modelAt)
  | rememberUpstream m p readAt =>
    some (rememberModel m p readAt,s.rememberUpstream p r.order r.now,modelAt)
  | rememberModel m p readAt =>
    some (knownUpstream m p readAt,s.rememberModel modelName (m,p) r.order r.now,
      if s.config.cacheMaxEntries = 0 then modelAt
      else Function.update modelAt modelName readAt)
  | rememberUnknown _ => some (notFound,s.rememberUnknown modelName r.order r.now,modelAt)
  | knownUpstream m p readAt =>
    match s.knownUpstream p.id r.now with
    | (some upstream,s) => some (routed m p upstream,s,modelAt)
    | (none,s) => some (createUpstream m p readAt,s,modelAt)
  | createUpstream m p _ =>
    some (routed m p (createProvider p s.httpClient),s.rememberUpstream p r.order r.now,modelAt)
  | routed _ _ _ => none
  | notFound => none

/-- Advance an authentication at most `fuel` steps with nothing in between. -/
def AuthPhase.alone (hashKey : String → String) (token : String) (version : ℕ) (r : Reading) :
    ℕ → AuthPhase → AppState → AuthPhase × AppState
  | 0, phase, s => (phase,s)
  | fuel+1, phase, s =>
    match phase.advance hashKey token version s r with
    | some (phase,s) => alone hashKey token version r fuel phase s
    | none => (phase,s)

def RoutePhase.alone (modelName : String) (version : ℕ) (r : Reading) :
    ℕ → RoutePhase → AppState → (String → ℕ) → RoutePhase × AppState
  | 0, phase, s, _ => (phase,s)
  | fuel+1, phase, s, modelAt =>
    match phase.advance modelName version s modelAt r with
    | some (phase,s,modelAt) => alone modelName version r fuel phase s modelAt
    | none => (phase,s)

theorem AuthPhase.alone_eq_authMiddleware {hashKey : String → String} {s : AppState}
    (hauth : s.config.authEnabled = true) (token : String) (version : ℕ) (r : Reading) :
    ∃ basis, alone hashKey token version r 6 .negativeCheck s =
      (.decided basis (authMiddleware hashKey s (some ("Bearer " ++ token)) r.now r.utc).1,
        (authMiddleware hashKey s (some ("Bearer " ++ token)) r.now r.utc).2) := by
  simp only [authMiddleware,hauth,extractBearerToken_bearer,not_true,if_false]
  by_cases hinvalid : s.knownInvalid (hashKey token) r.now = true
  · exact ⟨none,by simp [alone,advance,hinvalid]⟩
  · rcases hslid : s.cachedKey (hashKey token) r.now with ⟨_ | cached,s'⟩
    · exact ⟨s'.db.getApiKeyByRaw hashKey token,by simp [alone,advance,hinvalid,hslid]⟩
    · exact ⟨some cached,by simp [alone,advance,hinvalid,hslid]⟩

theorem RoutePhase.alone_succ {modelName : String} {version fuel : ℕ} {r : Reading}
    {phase phase' : RoutePhase} {s s' : AppState} {modelAt modelAt' : String → ℕ}
    (h : phase.advance modelName version s modelAt r = some (phase',s',modelAt')) :
    alone modelName version r (fuel+1) phase s modelAt =
      alone modelName version r fuel phase' s' modelAt' := by
  simp only [alone,h]

@[simp] theorem RoutePhase.alone_upstream (modelName : String) (version fuel : ℕ) (r : Reading)
    (s : AppState) (modelAt : String → ℕ) (m : Model) (p : Provider) (readAt : ℕ) :
    alone modelName version r (fuel+3) (.knownUpstream m p readAt) s modelAt =
      (.routed m p (cachedUpstream s p r.order r.now).1,
        (cachedUpstream s p r.order r.now).2) := by
  rcases hslid : s.knownUpstream p.id r.now with ⟨_ | u,s'⟩
  · simp [alone,advance,cachedUpstream,hslid]
  · simp [alone,advance,cachedUpstream,hslid]

/-- The steps of an undisturbed request make up resolution and the choice of a client. -/
theorem RoutePhase.alone_eq_resolve (s : AppState) (modelName : String) (version : ℕ)
    (modelAt : String → ℕ) (r : Reading) :
    alone modelName version r 8 .negativeCheck s modelAt =
      match resolveModelAndProvider s modelName r.order r.now with
      | (.error _,s) => (.notFound,s)
      | (.ok (m,p),s) =>
        (.routed m p (cachedUpstream s p r.order r.now).1,(cachedUpstream s p r.order r.now).2) := by
  by_cases hunknown : s.knownUnknown modelName r.now = true
  · simp [alone,advance,resolveModelAndProvider,hunknown]
  have hcheck : advance modelName version s modelAt r .negativeCheck =
      some (.cacheCheck,s,modelAt) := by simp [advance,hunknown]
  rw [alone_succ hcheck]
  rcases hslid : s.cachedModel modelName r.now with ⟨_ | ⟨m,p⟩,s'⟩
  · have hmiss : advance modelName version s modelAt r .cacheCheck = some (.lookup,s',modelAt) := by
      simp [advance,hslid]
    rw [alone_succ hmiss]
    cases hroute : s'.db.resolveModel modelName with
    | none => simp [alone,advance,resolveModelAndProvider,hunknown,hslid,hroute]
    | some route =>
      obtain ⟨m,p⟩ := route
      have hlookup : advance modelName version s' modelAt r .lookup =
          some (.rememberUpstream m p version,s',modelAt) := by simp [advance,hroute]
      rw [alone_succ hlookup,alone_succ rfl,alone_succ rfl,alone_upstream]
      simp [resolveModelAndProvider,hunknown,hslid,hroute]
  · have hhit : advance modelName version s modelAt r .cacheCheck =
        some (.knownUpstream m p (modelAt modelName),s',modelAt) := by simp [advance,hslid]
    rw [alone_succ hhit,alone_upstream]
    simp [resolveModelAndProvider,hunknown,hslid]

structure World where
  app : AppState
  tasks : ℕ → Option Task
  hist : History Database
  writes : List Write
  performed : List (Invalidation × ℕ)
  modelAt : String → ℕ

namespace World

def start (config : ConfigApp) (db : Database) : World where
  app := AppState.new config db
  tasks := fun _ => none
  hist := .start db
  writes := []
  performed := []
  modelAt := fun _ => 0

def setTask (w : World) (i : ℕ) (t : Option Task) : World :=
  { w with tasks := Function.update w.tasks i t }

def handlerOver (w : World) (i : ℕ) : Bool := (w.tasks i).any fun t => t.work.over

def settled (w : World) : List Write := w.writes.filter fun x => w.handlerOver x.handler

def spawn (w : World) (i : ℕ) (work : Work) : Option World :=
  if (w.tasks i).isNone then some (w.setTask i (some ⟨w.settled,work⟩)) else none

def record (w : World) (i : ℕ) (m : Mutation) (c : Committed Unit) : World :=
  { w with
    app := { w.app with db := c.db }
    hist := w.hist.write c.db
    writes := ⟨i,m,c.stale,w.hist.version+1⟩::w.writes }

/-- Run a mutation's closure on the blocking thread; `next` is where it leaves the handler. -/
def commit (hashKey : String → String) (w : World) (i : ℕ) (before : List Write) (m : Mutation)
    (next : Write → HandlerPhase) : World :=
  match m.commit hashKey w.app.db with
  | .error _ => w.setTask i (some ⟨before,.handler .failed⟩)
  | .ok c => (w.record i m c).setTask i
    (some ⟨before,.handler (next ⟨i,m,c.stale,w.hist.version+1⟩)⟩)

def perform (w : World) (x : Write) (i : Invalidation) : World :=
  { w with app := i.apply w.app,performed := (i,x.version)::w.performed }

def advanceHandler (hashKey : String → String) (w : World) (i : ℕ) (before : List Write) :
    HandlerPhase → Option World
  | .running m => some (w.commit hashKey i before m .committed)
  | .abandoned m => some (w.commit hashKey i before m .lost)
  | .committed x => some (w.setTask i (some ⟨before,.handler (.invalidating x x.stale)⟩))
  | .invalidating x (j::pending) =>
    some ((w.perform x j).setTask i (some ⟨before,.handler (.invalidating x pending)⟩))
  | .invalidating x [] => some (w.setTask i (some ⟨before,.handler (.returned x)⟩))
  | .returned _ | .lost _ | .failed => none

end World

inductive Label
  | authenticate (i : ℕ) (token : String)
  | request (i : ℕ) (modelName : String)
  | mutate (i : ℕ) (m : Mutation)
  | advance (i : ℕ) (r : Reading)
  | timeout (i : ℕ)
  | panic (i : ℕ)
  | drop (i : ℕ)
  | cleanup (now : Instant) (maxEntries : ℕ)
  | reap (now : Instant)

namespace World

def advance (hashKey : String → String) (w : World) (i : ℕ) (r : Reading) (t : Task) :
    Option World :=
  match t.work with
  | .authentication token phase =>
    (phase.advance hashKey token w.hist.version w.app r).map fun (phase,app) =>
      { w with app := app }.setTask i (some ⟨t.before,.authentication token phase⟩)
  | .request modelName phase =>
    (phase.advance modelName w.hist.version w.app w.modelAt r).map fun (phase,app,modelAt) =>
      { w with app := app,modelAt := modelAt }.setTask i
        (some ⟨t.before,.request modelName phase⟩)
  | .handler phase => w.advanceHandler hashKey i t.before phase

/-- The timeout, or a client that disconnects, ends the wait for the closure, which runs on. -/
def timeout (w : World) (i : ℕ) : Option World :=
  match w.tasks i with
  | some ⟨before,.handler (.running m)⟩ =>
    some (w.setTask i (some ⟨before,.handler (.abandoned m)⟩))
  | some ⟨before,.handler (.committed x)⟩ => some (w.setTask i (some ⟨before,.handler (.lost x)⟩))
  | _ => none

/-- A closure that panics has not written. -/
def closurePanic (w : World) (i : ℕ) : Option World :=
  match w.tasks i with
  | some ⟨before,.handler (.running _)⟩ => some (w.setTask i (some ⟨before,.handler .failed⟩))
  | some ⟨before,.handler (.abandoned _)⟩ => some (w.setTask i (some ⟨before,.handler .failed⟩))
  | _ => none

/-- A request whose lookup failed, or whose client went away, is never answered. -/
def drop (w : World) (i : ℕ) : Option World :=
  match w.tasks i with
  | some ⟨_,.authentication _ _⟩ => some (w.setTask i none)
  | some ⟨_,.request _ _⟩ => some (w.setTask i none)
  | _ => none

def step (hashKey : String → String) (w : World) : Label → Option World
  | .authenticate i token => w.spawn i (.authentication token .negativeCheck)
  | .request i modelName => w.spawn i (.request modelName .negativeCheck)
  | .mutate i m => w.spawn i (.handler (.running m))
  | .advance i r => (w.tasks i).bind (w.advance hashKey i r)
  | .timeout i => w.timeout i
  | .panic i => w.closurePanic i
  | .drop i => w.drop i
  | .cleanup now maxEntries => some { w with app := cleanupCaches w.app now maxEntries }
  | .reap now => some { w with app := cleanupNegatives w.app now }

/-- One step of task `i`, one nanosecond after the epoch. -/
def tick (i : ℕ) : Label := .advance i ⟨1,0,⟨fun _ => 0,fun _ => 0,fun _ => 0⟩⟩

def demoConfig : ConfigApp :=
  { authEnabled := true,cacheMaxEntries := 10,connectTimeoutSecs := 5,ssrfAllowedCidrs := [] }

end World
end Ait
