import Ait.Ledger

/-!
# Revoked keys under concurrency

Every entry of the two key caches is witnessed by a database version that no
performed removal outdates, as long as a lookup never remembers an answer that such
a removal has already outdated. Decisions are then never older than a deletion or an
update whose handler was over before the request began. The revision check does not
give that condition by itself: a handler may run to its end between the second
reading of the revision and the insertion.
-/

namespace Ait
namespace World

open CacheAside Invalidation

variable {hashKey : String → String} {w w' : World}

/-- The decision rests on a version of the row that is as new as every deletion and
update of the key among `before`. -/
def KeyDecision (hashKey : String → String) (h : History Database) (before : List Write)
    (token : String) (basis : Option ApiKeyInfo) : Prop :=
  ∃ n, n ≤ h.version ∧ (h.past n).getApiKeyByRaw hashKey token = basis ∧
    ∀ x ∈ before, x.mutation.keyTarget (h.past (x.version-1)) = some (hashKey token) →
      x.version ≤ n

/-- A lookup read the row after every write among `before`. -/
def KeyRead (hashKey : String → String) (h : History Database) (before : List Write)
    (token : String) (found : Option ApiKeyInfo) (readAt : ℕ) : Prop :=
  readAt ≤ h.version ∧ (h.past readAt).getApiKeyByRaw hashKey token = found ∧
    ∀ x ∈ before, x.version ≤ readAt

def AuthOk (hashKey : String → String) (h : History Database) (before : List Write)
    (token : String) : AuthPhase → Prop
  | .rereadRevision _ found readAt => KeyRead hashKey h before token found readAt
  | .remember found _ readAt => KeyRead hashKey h before token found readAt
  | .decided basis reply =>
    KeyDecision hashKey h before token basis ∧ ∃ utc, reply = verdict basis utc
  | _ => True

def fillDrops (hash : String) (found : Option ApiKeyInfo) : Invalidation → Bool :=
  match found with
  | some _ => dropsKey hash
  | none => dropsNegativeKey hash

/-- A lookup that remembers its answer has not been overtaken: the removal of that entry
by any write newer than the answer is still to come. -/
def keyFillCurrent (hashKey : String → String) (w : World) : Label → Bool
  | .advance i _ =>
    match w.tasks i with
    | some ⟨_,.authentication token (.remember found true readAt)⟩ =>
      UpToDate w.performed (fillDrops (hashKey token) found) readAt
    | _ => true
  | _ => true

structure KeysWitnessed (hashKey : String → String) (w : World) : Prop where
  cached : w.app.apiKeyCache.Holds fun hash v =>
    Witnessed w.hist w.performed (dropsKey hash) fun db => db.keyInfo hash = some v.1
  rejected : w.app.negativeKeyCache.Holds fun hash _ =>
    Witnessed w.hist w.performed (dropsNegativeKey hash) fun db => db.keyInfo hash = none
  task : ∀ i before token phase, w.tasks i = some ⟨before,.authentication token phase⟩ →
    AuthOk hashKey w.hist before token phase

theorem KeyRead.extends {before : List Write} {token : String} {found : Option ApiKeyInfo}
    {readAt : ℕ} (h : KeyRead hashKey w.hist before token found readAt) (he : w.Extends w') :
    KeyRead hashKey w'.hist before token found readAt := by
  obtain ⟨hle,hfound,hbefore⟩ := h
  refine ⟨hle.trans he.version,?_,hbefore⟩
  rwa [he.past readAt hle]

theorem KeyDecision.extends {before : List Write} {token : String} {basis : Option ApiKeyInfo}
    (h : KeyDecision hashKey w.hist before token basis) (he : w.Extends w')
    (hbefore : ∀ x ∈ before, x.version ≤ w.hist.version) :
    KeyDecision hashKey w'.hist before token basis := by
  obtain ⟨n,hn,hbasis,hall⟩ := h
  refine ⟨n,hn.trans he.version,?_,fun x hx ht => hall x hx ?_⟩
  · rwa [he.past n hn]
  · have hle : x.version-1 ≤ w.hist.version := (Nat.sub_le _ _).trans (hbefore x hx)
    rwa [he.past _ hle] at ht

theorem AuthOk.extends {before : List Write} {token : String} {phase : AuthPhase}
    (h : AuthOk hashKey w.hist before token phase) (he : w.Extends w')
    (hbefore : ∀ x ∈ before, x.version ≤ w.hist.version) :
    AuthOk hashKey w'.hist before token phase := by
  cases phase with
  | rereadRevision revision found readAt => exact KeyRead.extends h he
  | remember found stillCurrent readAt => exact KeyRead.extends h he
  | decided basis reply => exact ⟨KeyDecision.extends h.1 he hbefore,h.2⟩
  | _ => trivial

theorem KeyRead.decision {before : List Write} {token : String} {found : Option ApiKeyInfo}
    {readAt : ℕ} (h : KeyRead hashKey w.hist before token found readAt) :
    KeyDecision hashKey w.hist before token found :=
  ⟨readAt,h.1,h.2.1,fun x hx _ => h.2.2 x hx⟩

/-- A positive entry is newer than every settled deletion or update of its key. -/
theorem cached_decision (hl : Ledger hashKey w) {before : List Write} {token : String}
    (hdone : ∀ x ∈ before, w.Done x) {info : ApiKeyInfo}
    (hw : Witnessed w.hist w.performed (dropsKey (hashKey token))
      fun db => db.keyInfo (hashKey token) = some info) :
    KeyDecision hashKey w.hist before token (some info) := by
  obtain ⟨n,hn,hinfo,hnew⟩ := hw
  refine ⟨n,hn,hinfo,fun x hx ht => ?_⟩
  have hstale := ((hl.effect x (hdone x hx).1).keyTarget_stale ht).1
  exact hnew _ ((hdone x hx).2 _ hstale) (by simp [dropsKey])

/-- A negative entry was right after every settled deletion or update of its key: an
update lifts it, and a deletion confirms it. -/
theorem rejected_decision (hl : Ledger hashKey w) {before : List Write} {token : String}
    (hdone : ∀ x ∈ before, w.Done x)
    (hw : Witnessed w.hist w.performed (dropsNegativeKey (hashKey token))
      fun db => db.keyInfo (hashKey token) = none) :
    KeyDecision hashKey w.hist before token none := by
  obtain ⟨n,hn,habsent,hnew⟩ := hw
  let targets := before.filter fun x =>
    x.mutation.keyTarget (w.hist.past (x.version-1)) = some (hashKey token)
  have htargets : ∀ v ∈ targets.map Write.version, v ≤ n ∨
      v ≤ w.hist.version ∧ (w.hist.past v).keyInfo (hashKey token) = none := by
    intro v hv
    obtain ⟨x,hx,rfl⟩ := List.mem_map.mp hv
    obtain ⟨hx,ht⟩ := List.mem_filter.mp hx
    have hx' := hdone x hx
    rcases ((hl.effect x hx'.1).keyTarget_stale (of_decide_eq_true ht)).2.2 with hgone | hstale
    · exact .inr ⟨(hl.version x hx'.1).2,hgone⟩
    · exact .inl (hnew _ (hx'.2 _ hstale) (by simp [dropsNegativeKey]))
  obtain ⟨m,hm,habsent,-,hall⟩ :=
    History.exists_latest (fun db => db.keyInfo (hashKey token) = none) habsent hn htargets
  refine ⟨m,hm,habsent,fun x hx ht => hall _ (List.mem_map_of_mem (List.mem_filter.mpr ⟨hx,?_⟩))⟩
  exact decide_eq_true ht

theorem authAdvance_witnessed (hl : Ledger hashKey w) (hk : KeysWitnessed hashKey w) {i : ℕ}
    {r : Reading} {before : List Write} {token : String} {phase phase' : AuthPhase}
    {app : AppState} (ht : w.tasks i = some ⟨before,.authentication token phase⟩)
    (hadv : phase.advance hashKey token w.hist.version w.app r = some (phase',app))
    (hfill : w.keyFillCurrent hashKey (.advance i r) = true) :
    (app.apiKeyCache.Holds fun hash v =>
        Witnessed w.hist w.performed (dropsKey hash) fun db => db.keyInfo hash = some v.1) ∧
      (app.negativeKeyCache.Holds fun hash _ =>
        Witnessed w.hist w.performed (dropsNegativeKey hash) fun db => db.keyInfo hash = none) ∧
      AuthOk hashKey w.hist before token phase' := by
  have hdone := (hl.task i _ ht).before
  have hok := hk.task i before token phase ht
  cases phase with
  | negativeCheck =>
    obtain ⟨rfl,⟨hinvalid,rfl⟩ | rfl⟩ := authAdvance_negativeCheck hadv
    · obtain ⟨seen,hseen⟩ := freshVerdict_entry hinvalid
      exact ⟨hk.cached,hk.rejected,rejected_decision hl hdone (hk.rejected _ _ hseen),r.utc,rfl⟩
    · exact ⟨hk.cached,hk.rejected,trivial⟩
  | cacheCheck =>
    have hslide : (w.app.cachedKey (hashKey token) r.now).2.apiKeyCache.Holds fun hash v =>
        Witnessed w.hist w.performed (dropsKey hash) fun db => db.keyInfo hash = some v.1 := by
      intro hash v hv
      obtain ⟨t,ht⟩ := freshEntry_get hv
      exact hk.cached hash (v.1,t) ht
    obtain ⟨rfl,⟨cached,hfound,rfl⟩ | rfl⟩ := authAdvance_cacheCheck hadv
    · obtain ⟨t,ht⟩ := freshEntry_hit hfound
      exact ⟨hslide,hk.rejected,cached_decision hl hdone (hk.cached _ _ ht),r.utc,rfl⟩
    · exact ⟨hslide,hk.rejected,trivial⟩
  | readRevision =>
    cases hadv
    exact ⟨hk.cached,hk.rejected,trivial⟩
  | lookup revision =>
    cases hadv
    refine ⟨hk.cached,hk.rejected,le_rfl,?_,hl.before_version ht⟩
    rw [← hl.current]
    rfl
  | rereadRevision revision found readAt =>
    cases hadv
    exact ⟨hk.cached,hk.rejected,hok⟩
  | remember found stillCurrent readAt =>
    cases hadv
    have hread : KeyRead hashKey w.hist before token found readAt := hok
    have hcurrent : stillCurrent = true →
        UpToDate w.performed (fillDrops (hashKey token) found) readAt := by
      rintro rfl
      simpa [keyFillCurrent,ht] using hfill
    refine ⟨?_,?_,hread.decision,r.utc,rfl⟩
    · intro hash v hv
      rcases AppState.rememberKey_apiKeyCache hv with hold | ⟨rfl,rfl,hcur⟩
      · exact hk.cached hash v hold
      · exact ⟨readAt,hread.1,hread.2.1,hcurrent hcur⟩
    · intro hash v hv
      rcases AppState.rememberKey_negativeKeyCache hv with hold | ⟨rfl,rfl,hcur⟩
      · exact hk.rejected hash v hold
      · exact ⟨readAt,hread.1,hread.2.1,hcurrent hcur⟩
  | decided basis reply => cases hadv

namespace KeysWitnessed

theorem start (config : ConfigApp) (db : Database) :
    KeysWitnessed hashKey (World.start config db) where
  cached := .empty
  rejected := .empty
  task := by simp [World.start]

/-- A step that keeps the caches witnessed and moves no authentication keeps everything. -/
theorem keep (h : KeysWitnessed hashKey w) (hl : Ledger hashKey w) (he : w.Extends w')
    (hcached : w'.app.apiKeyCache.Holds fun hash v =>
      Witnessed w'.hist w'.performed (dropsKey hash) fun db => db.keyInfo hash = some v.1)
    (hrejected : w'.app.negativeKeyCache.Holds fun hash _ =>
      Witnessed w'.hist w'.performed (dropsNegativeKey hash) fun db => db.keyInfo hash = none)
    (htask : ∀ i before token phase, w'.tasks i = some ⟨before,.authentication token phase⟩ →
      w.tasks i = some ⟨before,.authentication token phase⟩ ∨
        AuthOk hashKey w'.hist before token phase) : KeysWitnessed hashKey w' where
  cached := hcached
  rejected := hrejected
  task i before token phase ht := by
    rcases htask i before token phase ht with hold | hok
    · exact (h.task i before token phase hold).extends he (hl.before_version hold)
    · exact hok

theorem setTask (h : KeysWitnessed hashKey w) (hl : Ledger hashKey w) (i : ℕ) {t : Option Task}
    (ht : ∀ before token phase, t = some ⟨before,.authentication token phase⟩ →
      AuthOk hashKey w.hist before token phase) : KeysWitnessed hashKey (w.setTask i t) := by
  refine h.keep hl (extends_setTask i t) h.cached h.rejected fun j before token phase hj => ?_
  rw [setTask_tasks] at hj
  split at hj
  · exact .inr (ht before token phase hj)
  · exact .inl hj

theorem app (h : KeysWitnessed hashKey w) {app : AppState} (modelAt : String → ℕ)
    (hcached : app.apiKeyCache.Holds fun hash v =>
      Witnessed w.hist w.performed (dropsKey hash) fun db => db.keyInfo hash = some v.1)
    (hrejected : app.negativeKeyCache.Holds fun hash _ =>
      Witnessed w.hist w.performed (dropsNegativeKey hash) fun db => db.keyInfo hash = none) :
    KeysWitnessed hashKey { w with app := app,modelAt := modelAt } :=
  ⟨hcached,hrejected,h.task⟩

theorem record (h : KeysWitnessed hashKey w) (hl : Ledger hashKey w) {i : ℕ} {m : Mutation}
    {c : Committed Unit} (before : List Write) (phase : HandlerPhase) :
    KeysWitnessed hashKey ((w.record i m c).setTask i (some ⟨before,.handler phase⟩)) := by
  refine h.keep hl (extends_record i i m c _) (h.cached.mono fun _ _ hw => hw.write c.db)
    (h.rejected.mono fun _ _ hw => hw.write c.db) fun j before token phase hj => ?_
  rw [setTask_tasks] at hj
  split at hj
  · cases hj
  · exact .inl hj

theorem perform (h : KeysWitnessed hashKey w) (hl : Ledger hashKey w) (x : Write)
    (j : Invalidation) (i : ℕ) (before : List Write) (phase : HandlerPhase) :
    KeysWitnessed hashKey ((w.perform x j).setTask i (some ⟨before,.handler phase⟩)) := by
  refine h.keep hl (extends_perform x j i _) ?_ ?_ fun k before token phase hk => ?_
  · intro hash v hv
    obtain ⟨hold,hkept⟩ := apply_apiKeyCache hv
    exact (h.cached hash v hold).perform x.version hkept
  · intro hash v hv
    obtain ⟨hold,hkept⟩ := apply_negativeKeyCache hv
    exact (h.rejected hash v hold).perform x.version hkept
  · rw [setTask_tasks] at hk
    split at hk
    · cases hk
    · exact .inl hk

theorem step (h : KeysWitnessed hashKey w) (hl : Ledger hashKey w) {a : Label}
    (hstep : Step hashKey w a w') (hfill : w.keyFillCurrent hashKey a = true) :
    KeysWitnessed hashKey w' := by
  cases hstep with
  | @spawn a i work free initial =>
    refine h.setTask hl i fun before token phase ht => ?_
    obtain ⟨rfl,rfl⟩ := Task.mk.inj (Option.some.inj ht)
    cases phase with
    | negativeCheck => trivial
    | _ => exact initial.elim
  | @authenticate i r before token phase phase' app task advance =>
    obtain ⟨hcached,hrejected,hok⟩ := authAdvance_witnessed hl h task advance hfill
    have hframe := authAdvance_frame advance
    refine h.keep hl (extends_app (by rw [hframe]) (by rw [hframe]) w.modelAt i _) hcached hrejected
      fun j before' token' phase1 hj => ?_
    rw [setTask_tasks] at hj
    split at hj
    · obtain ⟨rfl,hwork⟩ := Task.mk.inj (Option.some.inj hj)
      obtain ⟨rfl,rfl⟩ := Work.authentication.inj hwork
      exact .inr hok
    · exact .inl hj
  | @route i r before modelName phase phase' app modelAt task advance =>
    have hframe := routeAdvance_frame advance
    refine h.keep hl (extends_app (by rw [hframe]) (by rw [hframe]) modelAt i _) ?_ ?_
      fun j before' token' phase1 hj => ?_
    · show app.apiKeyCache.Holds _
      rw [hframe]
      exact h.cached
    · show app.negativeKeyCache.Holds _
      rw [hframe]
      exact h.rejected
    · rw [setTask_tasks] at hj
      split at hj
      · cases hj
      · exact .inl hj
  | fail => exact h.setTask hl _ fun _ _ _ he => by cases he
  | commit => exact h.record hl _ _
  | commitLate => exact h.record hl _ _
  | resume => exact h.setTask hl _ fun _ _ _ he => by cases he
  | invalidate => exact h.perform hl _ _ _ _ _
  | finish => exact h.setTask hl _ fun _ _ _ he => by cases he
  | abandon => exact h.setTask hl _ fun _ _ _ he => by cases he
  | lose => exact h.setTask hl _ fun _ _ _ he => by cases he
  | drop => exact h.setTask hl _ fun _ _ _ he => by cases he
  | cleanup => exact h.app w.modelAt (h.cached.retain _) h.rejected
  | reap => exact h.app w.modelAt h.cached (h.rejected.retain _)

end KeysWitnessed

theorem cached_current (hl : Ledger hashKey w) (hk : KeysWitnessed hashKey w)
    (hquiet : ∀ i t, w.tasks i = some t → t.work.over = true) {hash : String}
    {v : ApiKeyInfo × Instant} (hv : w.app.apiKeyCache.get hash = some v) :
    w.app.db.keyInfo hash = some v.1 := by
  have hcurrent : w.hist.current.keyInfo hash = some v.1 := by
    refine (hk.cached hash v hv).current fun u hu hinfo => ?_
    obtain ⟨x,hx,hversion⟩ := hl.logged u hu
    have heffect := hl.effect x hx
    rw [hversion,Nat.add_sub_cancel] at heffect
    refine (heffect.keyInfo hinfo).imp_right ?_
    rintro ⟨i,hi,hdrops⟩
    have hdone := (hl.quiet_done hquiet hx).2 i hi
    rw [hversion] at hdone
    exact ⟨i,hdrops,hdone⟩
  rwa [hl.current] at hcurrent

/-- The run condition of authentication: no write is orphaned and no fill is overtaken. -/
def keysOrderly (hashKey : String → String) (w : World) (a : Label) : Bool :=
  w.kept hashKey a && w.keyFillCurrent hashKey a

theorem keys_run {config : ConfigApp} {db : Database} {as : List Label}
    (hrun : Transition.exec (step hashKey) (start config db) as = some w)
    (hok : Transition.Along (step hashKey) (fun w a => w.keysOrderly hashKey a = true)
      (start config db) as) :
    Ledger hashKey w ∧ KeysWitnessed hashKey w := by
  have hstep : ∀ (w : World) (a : Label) (w' : World), w.step hashKey a = some w' →
      w.keysOrderly hashKey a = true → Ledger hashKey w ∧ KeysWitnessed hashKey w →
      Ledger hashKey w' ∧ KeysWitnessed hashKey w' := by
    rintro w a w' hstep horderly ⟨hl,hk⟩
    obtain ⟨hkept,hfill⟩ := Bool.and_eq_true_iff.mp horderly
    have hcases := step_cases hstep
    exact ⟨hl.step hcases hkept,hk.step hl hcases hfill⟩
  exact Transition.exec_invariant hstep hrun hok
    ⟨Ledger.start config db,KeysWitnessed.start config db⟩

/-- Every decided authentication rests on a row no older than the deletions and updates
of the key that were over when it began. -/
def NoStaleDecision (hashKey : String → String) (w : World) : Prop :=
  ∀ i before token basis reply,
    w.tasks i = some ⟨before,.authentication token (.decided basis reply)⟩ →
      KeyDecision hashKey w.hist before token basis ∧ ∃ utc, reply = verdict basis utc

/-- While nothing is in flight every cached key is the stored one. -/
def CachedKeysCurrent (w : World) : Prop :=
  (∀ i t, w.tasks i = some t → t.work.over = true) →
    ∀ hash v, w.app.apiKeyCache.get hash = some v → w.app.db.keyInfo hash = some v.1

/-- In an orderly run a revoked key stays out. -/
theorem orderly_revocation {config : ConfigApp} {db : Database} {as : List Label}
    (hrun : Transition.exec (step hashKey) (start config db) as = some w)
    (hok : Transition.Along (step hashKey) (fun w a => w.keysOrderly hashKey a = true)
      (start config db) as) :
    w.NoStaleDecision hashKey ∧ w.CachedKeysCurrent := by
  obtain ⟨hl,hk⟩ := keys_run hrun hok
  constructor
  · intro i before token basis reply ht
    exact hk.task i before token _ ht
  · intro hquiet hash v hv
    exact cached_current hl hk hquiet hv

section Scenario

def laptopDb : Database where
  providers := []
  models := []
  apiKeys := [⟨"k1","sk-1","******","laptop",true,0,0,none⟩]
  schema := by decide

/-- A key is used, deleted and used again, one request after the other. -/
theorem orderly_revocation_laptop :
    let as := [.authenticate 0 "sk-1",tick 0,tick 0,tick 0,tick 0,tick 0,tick 0,
      .mutate 1 (.deleteApiKey "k1"),tick 1,tick 1,tick 1,tick 1,tick 1,
      .authenticate 2 "sk-1",tick 2,tick 2,tick 2,tick 2,tick 2,tick 2]
    ∃ w, Transition.exec (step id) (start demoConfig laptopDb) as = some w ∧
      w.hist.version = 1 ∧ w.NoStaleDecision id ∧ w.CachedKeysCurrent := by
  intro as
  have hsome : (Transition.exec (step id) (start demoConfig laptopDb) as).isSome = true := by decide
  have hrun := (Option.some_get hsome).symm
  exact ⟨_,hrun,rfl,orderly_revocation hrun (by decide)⟩

/-- A lookup that has read the revision twice is overtaken by the whole deletion of its
key; it then caches the deleted row, and a later request is admitted by it. -/
theorem revoked_key_admitted :
    ¬ ∀ (config : ConfigApp) (db : Database) (as : List Label) (w : World),
      Transition.exec (step id) (start config db) as = some w →
        Transition.Along (step id) (fun w a => w.kept id a = true) (start config db) as →
          w.NoStaleDecision id ∧ w.CachedKeysCurrent := by
  intro hrevoked
  let as := [.authenticate 0 "sk-1",tick 0,tick 0,tick 0,tick 0,tick 0,
    .mutate 1 (.deleteApiKey "k1"),tick 1,tick 1,tick 1,tick 1,tick 1,tick 0,
    .authenticate 2 "sk-1",tick 2,tick 2]
  have hsome : (Transition.exec (step id) (start demoConfig laptopDb) as).isSome = true := by decide
  have hrun := (Option.some_get hsome).symm
  generalize hw : (Transition.exec (step id) (start demoConfig laptopDb) as).get hsome = w at hrun
  obtain ⟨hdecision,-⟩ := hrevoked demoConfig laptopDb as w hrun (by decide)
  subst hw
  -- the admitted request rests on the row of version 0, older than the deletion
  obtain ⟨⟨n,hn,hinfo,hnew⟩,-⟩ := hdecision 2 _ "sk-1" _ _ rfl
  have hdeleted : 1 ≤ n := hnew _ List.mem_cons_self rfl
  have hlast : n ≤ 1 := hn
  obtain rfl : n = 1 := by omega
  cases hinfo

end Scenario

end World
end Ait
