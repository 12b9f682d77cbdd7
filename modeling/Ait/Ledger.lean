import Ait.Server

/-!
# The ledger of writes and removals

`Step` lists what one step of the world can do. The `Ledger` ties every write to the
database version it made and to the handler that owes its removals; it is kept by
every step in which no write slips past its handler, and then the removals of every
settled write have been performed.
-/

namespace Ait

open Mutation (Effect)

def Work.initial : Work → Prop
  | .authentication _ .negativeCheck | .request _ .negativeCheck | .handler (.running _) => True
  | _ => False

namespace World

/-- Everything one step can do, by the task that takes it. -/
inductive Step (hashKey : String → String) (w : World) : Label → World → Prop
  | spawn {a : Label} {i : ℕ} {work : Work} (free : w.tasks i = none) (initial : work.initial) :
      Step hashKey w a (w.setTask i (some ⟨w.settled,work⟩))
  | authenticate {i : ℕ} {r : Reading} {before : List Write} {token : String}
      {phase phase' : AuthPhase} {app : AppState}
      (task : w.tasks i = some ⟨before,.authentication token phase⟩)
      (advance : phase.advance hashKey token w.hist.version w.app r = some (phase',app)) :
      Step hashKey w (.advance i r)
        ({ w with app := app }.setTask i (some ⟨before,.authentication token phase'⟩))
  | route {i : ℕ} {r : Reading} {before : List Write} {modelName : String}
      {phase phase' : RoutePhase} {app : AppState} {modelAt : String → ℕ}
      (task : w.tasks i = some ⟨before,.request modelName phase⟩)
      (advance : phase.advance modelName w.hist.version w.app w.modelAt r =
        some (phase',app,modelAt)) :
      Step hashKey w (.advance i r)
        ({ w with app := app,modelAt := modelAt }.setTask i
          (some ⟨before,.request modelName phase'⟩))
  | fail {a : Label} {i : ℕ} {before : List Write} {phase : HandlerPhase}
      (task : w.tasks i = some ⟨before,.handler phase⟩) (unwritten : phase.write = none) :
      Step hashKey w a (w.setTask i (some ⟨before,.handler .failed⟩))
  | commit {i : ℕ} {r : Reading} {before : List Write} {m : Mutation} {c : Committed Unit}
      (task : w.tasks i = some ⟨before,.handler (.running m)⟩)
      (write : m.commit hashKey w.app.db = .ok c) :
      Step hashKey w (.advance i r) ((w.record i m c).setTask i
        (some ⟨before,.handler (.committed ⟨i,m,c.stale,w.hist.version+1⟩)⟩))
  | commitLate {i : ℕ} {r : Reading} {before : List Write} {m : Mutation} {c : Committed Unit}
      (task : w.tasks i = some ⟨before,.handler (.abandoned m)⟩)
      (write : m.commit hashKey w.app.db = .ok c) :
      Step hashKey w (.advance i r) ((w.record i m c).setTask i
        (some ⟨before,.handler (.lost ⟨i,m,c.stale,w.hist.version+1⟩)⟩))
  | resume {i : ℕ} {r : Reading} {before : List Write} {x : Write}
      (task : w.tasks i = some ⟨before,.handler (.committed x)⟩) :
      Step hashKey w (.advance i r)
        (w.setTask i (some ⟨before,.handler (.invalidating x x.stale)⟩))
  | invalidate {i : ℕ} {r : Reading} {before : List Write} {x : Write} {j : Invalidation}
      {pending : List Invalidation}
      (task : w.tasks i = some ⟨before,.handler (.invalidating x (j::pending))⟩) :
      Step hashKey w (.advance i r)
        ((w.perform x j).setTask i (some ⟨before,.handler (.invalidating x pending)⟩))
  | finish {i : ℕ} {r : Reading} {before : List Write} {x : Write}
      (task : w.tasks i = some ⟨before,.handler (.invalidating x [])⟩) :
      Step hashKey w (.advance i r) (w.setTask i (some ⟨before,.handler (.returned x)⟩))
  | abandon {i : ℕ} {before : List Write} {m : Mutation}
      (task : w.tasks i = some ⟨before,.handler (.running m)⟩) :
      Step hashKey w (.timeout i) (w.setTask i (some ⟨before,.handler (.abandoned m)⟩))
  | lose {i : ℕ} {before : List Write} {x : Write}
      (task : w.tasks i = some ⟨before,.handler (.committed x)⟩) :
      Step hashKey w (.timeout i) (w.setTask i (some ⟨before,.handler (.lost x)⟩))
  | drop {a : Label} {i : ℕ} {t : Task} (task : w.tasks i = some t)
      (request : t.work.isHandler = false) : Step hashKey w a (w.setTask i none)
  | cleanup {now : Instant} {maxEntries : ℕ} :
      Step hashKey w (.cleanup now maxEntries)
        { w with app := cleanupCaches w.app now maxEntries }
  | reap {now : Instant} :
      Step hashKey w (.reap now) { w with app := cleanupNegatives w.app now }

variable {hashKey : String → String} {w w' : World}

theorem spawn_cases {a : Label} {i : ℕ} {work : Work} (h : w.spawn i work = some w')
    (hinit : work.initial) : Step hashKey w a w' := by
  unfold spawn at h
  split at h
  · rename_i hfree
    obtain rfl := Option.some.inj h
    exact .spawn (by simpa using hfree) hinit
  · cases h

theorem advance_cases {i : ℕ} {r : Reading} {t : Task} (ht : w.tasks i = some t)
    (h : w.advance hashKey i r t = some w') : Step hashKey w (.advance i r) w' := by
  obtain ⟨before,work⟩ := t
  cases work with
  | authentication token phase =>
    obtain ⟨⟨phase',app⟩,hadv,rfl⟩ := Option.map_eq_some_iff.mp h
    exact .authenticate ht hadv
  | request modelName phase =>
    obtain ⟨⟨phase',app,modelAt⟩,hadv,rfl⟩ := Option.map_eq_some_iff.mp h
    exact .route ht hadv
  | handler phase =>
    cases phase with
    | running m =>
      obtain rfl := Option.some.inj h
      unfold World.commit
      split
      · exact .fail ht rfl
      · exact .commit ht ‹_›
    | abandoned m =>
      obtain rfl := Option.some.inj h
      unfold World.commit
      split
      · exact .fail ht rfl
      · exact .commitLate ht ‹_›
    | committed x =>
      obtain rfl := Option.some.inj h
      exact .resume ht
    | invalidating x pending =>
      cases pending with
      | nil =>
        obtain rfl := Option.some.inj h
        exact .finish ht
      | cons j pending =>
        obtain rfl := Option.some.inj h
        exact .invalidate ht
    | returned x => cases h
    | lost x => cases h
    | failed => cases h

theorem timeout_cases {i : ℕ} (h : w.timeout i = some w') : Step hashKey w (.timeout i) w' := by
  unfold timeout at h
  split at h
  · rename_i ht
    obtain rfl := Option.some.inj h
    exact .abandon ht
  · rename_i ht
    obtain rfl := Option.some.inj h
    exact .lose ht
  · cases h

theorem closurePanic_cases {a : Label} {i : ℕ} (h : w.closurePanic i = some w') :
    Step hashKey w a w' := by
  unfold closurePanic at h
  split at h
  · rename_i ht
    obtain rfl := Option.some.inj h
    exact .fail ht rfl
  · rename_i ht
    obtain rfl := Option.some.inj h
    exact .fail ht rfl
  · cases h

theorem drop_cases {a : Label} {i : ℕ} (h : w.drop i = some w') : Step hashKey w a w' := by
  unfold World.drop at h
  split at h
  · rename_i ht
    obtain rfl := Option.some.inj h
    exact .drop ht rfl
  · rename_i ht
    obtain rfl := Option.some.inj h
    exact .drop ht rfl
  · cases h

theorem step_cases {a : Label} (h : w.step hashKey a = some w') : Step hashKey w a w' := by
  cases a with
  | authenticate i token => exact spawn_cases h trivial
  | request i modelName => exact spawn_cases h trivial
  | mutate i m => exact spawn_cases h trivial
  | advance i r =>
    obtain ⟨t,ht,h⟩ := Option.bind_eq_some_iff.mp h
    exact advance_cases ht h
  | timeout i => exact timeout_cases h
  | panic i => exact closurePanic_cases h
  | drop i => exact drop_cases h
  | cleanup now maxEntries =>
    obtain rfl := Option.some.inj h
    exact .cleanup
  | reap now =>
    obtain rfl := Option.some.inj h
    exact .reap

structure Extends (w w' : World) : Prop where
  version : w.hist.version ≤ w'.hist.version
  past : ∀ n, n ≤ w.hist.version → w'.hist.past n = w.hist.past n
  writes : ∀ x ∈ w.writes, x ∈ w'.writes
  performed : ∀ e ∈ w.performed, e ∈ w'.performed
  config : w'.app.config = w.app.config
  client : w'.app.httpClient = w.app.httpClient

@[simp] theorem setTask_tasks (i j : ℕ) (t : Option Task) :
    (w.setTask i t).tasks j = if j = i then t else w.tasks j := by
  simp [setTask,Function.update_apply]

theorem extends_setTask (i : ℕ) (t : Option Task) : w.Extends (w.setTask i t) :=
  ⟨le_rfl,fun _ _ => rfl,fun _ h => h,fun _ h => h,rfl,rfl⟩

/-- The shared state may change in any way that keeps what the properties read from it. -/
theorem extends_app {app : AppState} (hconfig : app.config = w.app.config)
    (hclient : app.httpClient = w.app.httpClient) (modelAt : String → ℕ) (i : ℕ)
    (t : Option Task) : w.Extends ({ w with app := app,modelAt := modelAt }.setTask i t) :=
  ⟨le_rfl,fun _ _ => rfl,fun _ h => h,fun _ h => h,hconfig,hclient⟩

theorem extends_record (i j : ℕ) (m : Mutation) (c : Committed Unit) (t : Option Task) :
    w.Extends ((w.record i m c).setTask j t) :=
  ⟨Nat.le_succ _,fun _ hn => History.write_past_of_le hn c.db,fun _ h => List.mem_cons_of_mem _ h,
    fun _ h => h,rfl,rfl⟩

theorem extends_perform (x : Write) (j : Invalidation) (i : ℕ) (t : Option Task) :
    w.Extends ((w.perform x j).setTask i t) :=
  ⟨le_rfl,fun _ _ => rfl,fun _ h => h,fun _ h => List.mem_cons_of_mem _ h,
    Invalidation.apply_config,Invalidation.apply_httpClient⟩

section Advances

variable {token modelName : String} {version : ℕ} {s s' : AppState} {r : Reading}
  {modelAt modelAt' : String → ℕ} {m : Model} {p : Provider} {readAt : ℕ}

theorem authAdvance_negativeCheck {phase' : AuthPhase}
    (h : AuthPhase.advance hashKey token version s r .negativeCheck = some (phase',s')) :
    s' = s ∧ (s.knownInvalid (hashKey token) r.now = true ∧
      phase' = .decided none (.error invalidKey) ∨ phase' = .cacheCheck) := by
  simp only [AuthPhase.advance] at h
  split at h
  · rename_i hinvalid
    cases h
    exact ⟨rfl,.inl ⟨hinvalid,rfl⟩⟩
  · cases h
    exact ⟨rfl,.inr rfl⟩

theorem authAdvance_cacheCheck {phase' : AuthPhase}
    (h : AuthPhase.advance hashKey token version s r .cacheCheck = some (phase',s')) :
    s' = (s.cachedKey (hashKey token) r.now).2 ∧
      ((∃ cached, (s.cachedKey (hashKey token) r.now).1 = some cached ∧
        phase' = .decided (some cached) (verifyKey cached r.utc)) ∨ phase' = .readRevision) := by
  simp only [AuthPhase.advance] at h
  generalize s.cachedKey (hashKey token) r.now = slid at h ⊢
  rcases slid with ⟨_ | cached,s1⟩
  · cases h
    exact ⟨rfl,.inr rfl⟩
  · cases h
    exact ⟨rfl,.inl ⟨cached,rfl,rfl⟩⟩

theorem routeAdvance_negativeCheck {phase' : RoutePhase}
    (h : RoutePhase.advance modelName version s modelAt r .negativeCheck =
      some (phase',s',modelAt')) :
    s' = s ∧ modelAt' = modelAt ∧ (s.knownUnknown modelName r.now = true ∧ phase' = .notFound ∨
      phase' = .cacheCheck) := by
  simp only [RoutePhase.advance] at h
  split at h
  · rename_i hunknown
    cases h
    exact ⟨rfl,rfl,.inl ⟨hunknown,rfl⟩⟩
  · cases h
    exact ⟨rfl,rfl,.inr rfl⟩

theorem routeAdvance_cacheCheck {phase' : RoutePhase}
    (h : RoutePhase.advance modelName version s modelAt r .cacheCheck =
      some (phase',s',modelAt')) :
    s' = (s.cachedModel modelName r.now).2 ∧ modelAt' = modelAt ∧
      ((∃ m p, (s.cachedModel modelName r.now).1 = some (m,p) ∧
        phase' = .knownUpstream m p (modelAt modelName)) ∨ phase' = .lookup) := by
  simp only [RoutePhase.advance] at h
  generalize s.cachedModel modelName r.now = slid at h ⊢
  rcases slid with ⟨_ | ⟨m,p⟩,s1⟩
  · cases h
    exact ⟨rfl,rfl,.inr rfl⟩
  · cases h
    exact ⟨rfl,rfl,.inl ⟨m,p,rfl,rfl⟩⟩

theorem routeAdvance_lookup {phase' : RoutePhase}
    (h : RoutePhase.advance modelName version s modelAt r .lookup = some (phase',s',modelAt')) :
    s' = s ∧ modelAt' = modelAt ∧
      ((∃ m p, s.db.resolveModel modelName = some (m,p) ∧
        phase' = .rememberUpstream m p version) ∨
      s.db.resolveModel modelName = none ∧ phase' = .rememberUnknown version) := by
  simp only [RoutePhase.advance] at h
  split at h
  · rename_i m p hroute
    cases h
    exact ⟨rfl,rfl,.inl ⟨m,p,hroute,rfl⟩⟩
  · rename_i hunknown
    cases h
    exact ⟨rfl,rfl,.inr ⟨hunknown,rfl⟩⟩

theorem routeAdvance_knownUpstream {phase' : RoutePhase}
    (h : RoutePhase.advance modelName version s modelAt r (.knownUpstream m p readAt) =
      some (phase',s',modelAt')) :
    s' = (s.knownUpstream p.id r.now).2 ∧ modelAt' = modelAt ∧
      ((∃ upstream, (s.knownUpstream p.id r.now).1 = some upstream ∧
        phase' = .routed m p upstream) ∨ phase' = .createUpstream m p readAt) := by
  simp only [RoutePhase.advance] at h
  generalize s.knownUpstream p.id r.now = slid at h ⊢
  rcases slid with ⟨_ | upstream,s1⟩
  · cases h
    exact ⟨rfl,rfl,.inr rfl⟩
  · cases h
    exact ⟨rfl,rfl,.inl ⟨upstream,rfl,rfl⟩⟩

theorem authAdvance_frame {phase phase' : AuthPhase}
    (h : phase.advance hashKey token version s r = some (phase',s')) :
    s' = { s with apiKeyCache := s'.apiKeyCache,negativeKeyCache := s'.negativeKeyCache } := by
  cases phase with
  | negativeCheck => rw [(authAdvance_negativeCheck h).1]
  | cacheCheck =>
    rw [(authAdvance_cacheCheck h).1]
    rfl
  | readRevision => cases h; rfl
  | lookup revision => cases h; rfl
  | rereadRevision revision found readAt => cases h; rfl
  | remember found stillCurrent readAt =>
    cases h
    exact AppState.rememberKey_frame found stillCurrent
  | decided basis reply => cases h

theorem routeAdvance_frame {phase phase' : RoutePhase}
    (h : phase.advance modelName version s modelAt r = some (phase',s',modelAt')) :
    s' = { s with
      modelCache := s'.modelCache
      negativeModelCache := s'.negativeModelCache
      providerCache := s'.providerCache } := by
  cases phase with
  | negativeCheck => rw [(routeAdvance_negativeCheck h).1]
  | cacheCheck =>
    rw [(routeAdvance_cacheCheck h).1]
    rfl
  | lookup => rw [(routeAdvance_lookup h).1]
  | rememberUpstream m p readAt => cases h; rfl
  | rememberModel m p readAt => cases h; rfl
  | rememberUnknown readAt => cases h; rfl
  | knownUpstream m p readAt =>
    rw [(routeAdvance_knownUpstream h).1]
    rfl
  | createUpstream m p readAt => cases h; rfl
  | routed m p upstream => cases h
  | notFound => cases h

end Advances

theorem Step.extends {a : Label} (h : Step hashKey w a w') : w.Extends w' := by
  cases h with
  | spawn => exact extends_setTask _ _
  | authenticate _ advance =>
    have hframe := authAdvance_frame advance
    exact extends_app (by rw [hframe]) (by rw [hframe]) _ _ _
  | route _ advance =>
    have hframe := routeAdvance_frame advance
    exact extends_app (by rw [hframe]) (by rw [hframe]) _ _ _
  | fail => exact extends_setTask _ _
  | commit => exact extends_record _ _ _ _ _
  | commitLate => exact extends_record _ _ _ _ _
  | resume => exact extends_setTask _ _
  | invalidate => exact extends_perform _ _ _ _
  | finish => exact extends_setTask _ _
  | abandon => exact extends_setTask _ _
  | lose => exact extends_setTask _ _
  | drop => exact extends_setTask _ _
  | cleanup => exact ⟨le_rfl,fun _ _ => rfl,fun _ h => h,fun _ h => h,rfl,rfl⟩
  | reap => exact ⟨le_rfl,fun _ _ => rfl,fun _ h => h,fun _ h => h,rfl,rfl⟩

def Done (w : World) (x : Write) : Prop :=
  x ∈ w.writes ∧ ∀ i ∈ x.stale, (i,x.version) ∈ w.performed

/-- What a handler still owes. No write is ever lost. -/
def HandlerOk (w : World) : HandlerPhase → Prop
  | .committed x => x ∈ w.writes
  | .invalidating x pending =>
    x ∈ w.writes ∧ ∀ i ∈ x.stale, i ∈ pending ∨ (i,x.version) ∈ w.performed
  | .returned x => w.Done x
  | .lost _ => False
  | _ => True

structure TaskOk (w : World) (t : Task) : Prop where
  before : ∀ x ∈ t.before, w.Done x
  handler : ∀ phase, t.work = .handler phase → w.HandlerOk phase

structure Ledger (hashKey : String → String) (w : World) : Prop where
  current : w.hist.current = w.app.db
  version : ∀ x ∈ w.writes, 0 < x.version ∧ x.version ≤ w.hist.version
  effect : ∀ x ∈ w.writes,
    Effect hashKey (w.hist.past (x.version-1)) x.mutation (w.hist.past x.version) x.stale
  logged : ∀ v < w.hist.version, ∃ x ∈ w.writes, x.version = v+1
  owner : ∀ x ∈ w.writes, ∃ t, w.tasks x.handler = some t ∧ t.write = some x
  performed : ∀ e ∈ w.performed, e.2 ≤ w.hist.version
  task : ∀ i t, w.tasks i = some t → w.TaskOk t

/-- No write takes effect behind a handler that has given up on it: neither a timeout nor a
disconnect comes after the commit, and an abandoned closure does not succeed. -/
def kept (hashKey : String → String) (w : World) : Label → Bool
  | .timeout i =>
    match w.tasks i with
    | some ⟨_,.handler (.committed _)⟩ => false
    | _ => true
  | .advance i _ =>
    match w.tasks i with
    | some ⟨_,.handler (.abandoned m)⟩ => !(m.commit hashKey w.app.db).isOk
    | _ => true
  | _ => true

theorem Done.extends {x : Write} (h : w.Done x) (he : w.Extends w') : w'.Done x :=
  ⟨he.writes x h.1,fun i hi => he.performed _ (h.2 i hi)⟩

theorem TaskOk.extends {t : Task} (h : w.TaskOk t) (he : w.Extends w') : w'.TaskOk t := by
  refine ⟨fun x hx => (h.before x hx).extends he,fun phase hphase => ?_⟩
  have hok := h.handler phase hphase
  cases phase with
  | running m => trivial
  | abandoned m => trivial
  | committed x => exact he.writes x hok
  | invalidating x pending =>
    exact ⟨he.writes x hok.1,fun i hi => (hok.2 i hi).imp_right (he.performed _)⟩
  | returned x => exact hok.extends he
  | lost x => exact hok
  | failed => trivial

namespace Ledger

theorem start (config : ConfigApp) (db : Database) : Ledger hashKey (World.start config db) where
  current := rfl
  version := by simp [World.start]
  effect := by simp [World.start]
  logged := by simp [World.start]
  owner := by simp [World.start]
  performed := by simp [World.start]
  task := by simp [World.start]

theorem before_version (h : Ledger hashKey w) {i : ℕ} {t : Task} (ht : w.tasks i = some t) :
    ∀ x ∈ t.before, x.version ≤ w.hist.version :=
  fun x hx => (h.version x ((h.task i t ht).before x hx).1).2

theorem setTask (h : Ledger hashKey w) {i : ℕ} {t : Option Task}
    (hown : ∀ x, (w.tasks i).bind Task.write = some x → t.bind Task.write = some x)
    (hok : ∀ t', t = some t' → w.TaskOk t') : Ledger hashKey (w.setTask i t) where
  current := h.current
  version := h.version
  effect := h.effect
  logged := h.logged
  performed := h.performed
  owner := by
    intro x hx
    obtain ⟨t',ht',hw⟩ := h.owner x hx
    rw [setTask_tasks]
    split
    · rename_i hi
      subst hi
      exact Option.bind_eq_some_iff.mp (hown x (Option.bind_eq_some_iff.mpr ⟨t',ht',hw⟩))
    · exact ⟨t',ht',hw⟩
  task := by
    intro j t' ht'
    rw [setTask_tasks] at ht'
    split at ht'
    · exact (hok t' ht').extends (extends_setTask i t)
    · exact (h.task j t' ht').extends (extends_setTask i t)

theorem app (h : Ledger hashKey w) (app : AppState) (hdb : app.db = w.app.db)
    (modelAt : String → ℕ) : Ledger hashKey { w with app := app,modelAt := modelAt } where
  current := h.current.trans hdb.symm
  version := h.version
  effect := h.effect
  logged := h.logged
  owner := h.owner
  performed := h.performed
  task i t ht := ⟨(h.task i t ht).before,fun phase hphase => by
    have hok := (h.task i t ht).handler phase hphase
    cases phase <;> exact hok⟩

/-- The write of a handler enters the ledger together with the handler that owes it. -/
theorem record (h : Ledger hashKey w) {i : ℕ} {m : Mutation} {c : Committed Unit} {t : Task}
    (hfree : (w.tasks i).bind Task.write = none) (hc : m.commit hashKey w.app.db = .ok c)
    (hown : t.write = some ⟨i,m,c.stale,w.hist.version+1⟩)
    (hok : ((w.record i m c).setTask i (some t)).TaskOk t) :
    Ledger hashKey ((w.record i m c).setTask i (some t)) where
  current := History.write_current w.hist c.db
  version := by
    intro x hx
    rcases List.mem_cons.mp hx with rfl | hx
    · exact ⟨Nat.succ_pos _,le_rfl⟩
    · exact ⟨(h.version x hx).1,(h.version x hx).2.trans (Nat.le_succ _)⟩
  effect := by
    intro x hx
    have heffect := Mutation.effect hc
    rcases List.mem_cons.mp hx with rfl | hx
    · have hold : (w.hist.write c.db).past w.hist.version = w.app.db :=
        (History.write_past_of_le le_rfl c.db).trans h.current
      have hnew : (w.hist.write c.db).past (w.hist.version+1) = c.db :=
        History.write_current w.hist c.db
      show Effect hashKey ((w.hist.write c.db).past w.hist.version) m
        ((w.hist.write c.db).past (w.hist.version+1)) c.stale
      rw [hold,hnew]
      exact heffect
    · obtain ⟨hpos,hle⟩ := h.version x hx
      have hold : (w.hist.write c.db).past (x.version-1) = w.hist.past (x.version-1) :=
        History.write_past_of_le ((Nat.sub_le _ _).trans hle) c.db
      have hnew : (w.hist.write c.db).past x.version = w.hist.past x.version :=
        History.write_past_of_le hle c.db
      show Effect hashKey ((w.hist.write c.db).past (x.version-1)) x.mutation
        ((w.hist.write c.db).past x.version) x.stale
      rw [hold,hnew]
      exact h.effect x hx
  logged := by
    intro v hv
    have hv : v < w.hist.version+1 := hv
    by_cases hlast : v = w.hist.version
    · exact ⟨_,List.mem_cons_self,by rw [hlast]⟩
    · obtain ⟨x,hx,hversion⟩ := h.logged v (by omega)
      exact ⟨x,List.mem_cons_of_mem _ hx,hversion⟩
  owner := by
    intro x hx
    rcases List.mem_cons.mp hx with rfl | hx
    · exact ⟨t,by simp,hown⟩
    · obtain ⟨t',ht',hw⟩ := h.owner x hx
      have hne : x.handler ≠ i := by
        rintro rfl
        rw [ht'] at hfree
        rw [show t'.write = none from hfree] at hw
        cases hw
      exact ⟨t',by rw [setTask_tasks,if_neg hne]; exact ht',hw⟩
  performed e he := (h.performed e he).trans (Nat.le_succ _)
  task := by
    intro j t' ht'
    rw [setTask_tasks] at ht'
    split at ht'
    · obtain rfl := Option.some.inj ht'
      exact hok
    · exact (h.task j t' ht').extends (extends_record i i m c _)

theorem perform (h : Ledger hashKey w) {x : Write} (hx : x ∈ w.writes) (j : Invalidation) :
    Ledger hashKey (w.perform x j) where
  current := h.current.trans Invalidation.apply_db.symm
  version := h.version
  effect := h.effect
  logged := h.logged
  owner := h.owner
  performed := by
    intro e he
    rcases List.mem_cons.mp he with rfl | he
    · exact (h.version x hx).2
    · exact h.performed e he
  task i t ht := (h.task i t ht).extends
    ⟨le_rfl,fun _ _ => rfl,fun _ h => h,fun _ h => List.mem_cons_of_mem _ h,
      Invalidation.apply_config,Invalidation.apply_httpClient⟩

theorem settled (h : Ledger hashKey w) {x : Write} (hx : x ∈ w.settled) : w.Done x := by
  obtain ⟨hx,hover⟩ := List.mem_filter.mp hx
  obtain ⟨t,ht,hw⟩ := h.owner x hx
  have hok := h.task _ _ ht
  obtain ⟨before,work⟩ := t
  cases work with
  | authentication token phase => cases hw
  | request modelName phase => cases hw
  | handler phase =>
    have hphase := hok.handler phase rfl
    have hover : phase.over = true := by simpa [handlerOver,ht,Work.over] using hover
    cases phase with
    | running m => cases hover
    | abandoned m => cases hover
    | committed y => cases hover
    | invalidating y pending => cases hover
    | returned y =>
      have hw : some y = some x := hw
      obtain rfl := Option.some.inj hw
      exact hphase
    | lost y => exact hphase.elim
    | failed => cases hw

theorem moveHandler (h : Ledger hashKey w) {i : ℕ} {before : List Write}
    {phase phase' : HandlerPhase} (ht : w.tasks i = some ⟨before,.handler phase⟩)
    (hown : phase.write = phase'.write) (hok : w.HandlerOk phase') :
    Ledger hashKey (w.setTask i (some ⟨before,.handler phase'⟩)) := by
  refine h.setTask (fun x hx => ?_) fun t ht' => ?_
  · rw [ht] at hx
    exact hown.symm.trans hx
  · obtain rfl := Option.some.inj ht'
    refine ⟨(h.task i _ ht).before,fun phase hphase => ?_⟩
    obtain rfl := Work.handler.inj hphase
    exact hok

theorem moveRequest (h : Ledger hashKey w) {i : ℕ} {before : List Write} {work work' : Work}
    (ht : w.tasks i = some ⟨before,work⟩) (hold : work.isHandler = false)
    (hnew : work'.isHandler = false) {app : AppState} (hdb : app.db = w.app.db)
    (modelAt : String → ℕ) :
    Ledger hashKey ({ w with app := app,modelAt := modelAt }.setTask i (some ⟨before,work'⟩)) := by
  refine (h.app app hdb modelAt).setTask (fun x hx => ?_) fun t ht' => ?_
  · have hx : (w.tasks i).bind Task.write = some x := hx
    rw [ht] at hx
    cases work with
    | handler phase => cases hold
    | authentication token phase => cases hx
    | request modelName phase => cases hx
  · obtain rfl := Option.some.inj ht'
    refine ⟨(h.task i _ ht).before,fun phase hphase => ?_⟩
    obtain rfl : work' = .handler phase := hphase
    cases hnew

theorem step (h : Ledger hashKey w) {a : Label} (hstep : Step hashKey w a w')
    (hkept : w.kept hashKey a = true) : Ledger hashKey w' := by
  cases hstep with
  | @spawn a i work free initial =>
    refine h.setTask (fun x hx => ?_) fun t ht => ?_
    · rw [free] at hx
      cases hx
    · obtain rfl := Option.some.inj ht
      refine ⟨fun x hx => h.settled hx,fun phase hphase => ?_⟩
      obtain rfl : work = .handler phase := hphase
      cases phase with
      | running m => trivial
      | _ => exact initial.elim
  | authenticate task advance =>
    exact h.moveRequest task rfl rfl (by rw [authAdvance_frame advance]) w.modelAt
  | route task advance =>
    exact h.moveRequest task rfl rfl (by rw [routeAdvance_frame advance]) _
  | fail task unwritten => exact h.moveHandler task unwritten trivial
  | @commit i r before m c task write =>
    refine h.record (by rw [task]; rfl) write rfl ⟨fun x hx => ?_,fun phase hphase => ?_⟩
    · exact ((h.task i _ task).before x hx).extends (extends_record i i m c _)
    · obtain rfl := Work.handler.inj hphase
      exact List.mem_cons_self
  | commitLate task write => simp [kept,task,write,Except.isOk,Except.toBool] at hkept
  | @resume i r before x task =>
    have hx : x ∈ w.writes := (h.task i _ task).handler _ rfl
    exact h.moveHandler task rfl ⟨hx,fun j hj => .inl hj⟩
  | @invalidate i r before x j pending task =>
    obtain ⟨hx,howed⟩ := (h.task i _ task).handler _ rfl
    refine (h.perform hx j).moveHandler task rfl ⟨hx,fun k hk => ?_⟩
    rcases howed k hk with hpending | hdone
    · rcases List.mem_cons.mp hpending with rfl | hpending
      · exact .inr List.mem_cons_self
      · exact .inl hpending
    · exact .inr (List.mem_cons_of_mem _ hdone)
  | @finish i r before x task =>
    obtain ⟨hx,howed⟩ := (h.task i _ task).handler _ rfl
    refine h.moveHandler task rfl ⟨hx,fun k hk => ?_⟩
    exact (howed k hk).resolve_left (List.not_mem_nil)
  | abandon task => exact h.moveHandler task rfl trivial
  | lose task => simp [kept,task] at hkept
  | @drop a i t task request =>
    refine h.setTask (fun x hx => ?_) fun t ht => by cases ht
    rw [task] at hx
    obtain ⟨before,work⟩ := t
    cases work with
    | handler phase => cases request
    | authentication token phase => cases hx
    | request modelName phase => cases hx
  | cleanup => exact h.app (cleanupCaches w.app _ _) rfl w.modelAt
  | reap => exact h.app (cleanupNegatives w.app _) rfl w.modelAt

theorem quiet_done (h : Ledger hashKey w) (hquiet : ∀ i t, w.tasks i = some t → t.work.over = true)
    {x : Write} (hx : x ∈ w.writes) : w.Done x := by
  obtain ⟨t,ht,-⟩ := h.owner x hx
  refine h.settled (List.mem_filter.mpr ⟨hx,?_⟩)
  simpa [handlerOver,ht] using hquiet _ t ht

end Ledger
end World
end Ait
