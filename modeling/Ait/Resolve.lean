import Ait.Staleness

/-!
# Model resolution

A request first resolves the model name it was given, through the negative cache,
the model cache and the database, and then takes the upstream client of the
resolved provider. All three caches are filled through `insertCapped`, which makes
room by evicting the oldest entry.
-/

namespace Ait

/-- Where each cache's iterator meets its keys; entries of one age are told apart by it. -/
structure IterationOrder where
  providers : String → ℕ
  models : String → ℕ
  unknown : String → ℕ

/-- The key of the oldest entry, the first one met among equally old ones. -/
def oldestKey {V : Type} (insertedAt : V → Instant) (order : String → ℕ) (m : FiniteMap String V) :
    Option String :=
  (m.toList.argmin fun e => toLex (insertedAt e.2,order e.1)).map Prod.fst

def insertCapped {V : Type} (insertedAt : V → Instant) (order : String → ℕ) (m : FiniteMap String V)
    (key : String) (entry : V) (maxEntries : ℕ) : FiniteMap String V :=
  if maxEntries = 0 then m
  else if m.contains key then m.insert key entry
  else
    let room :=
      if m.len ≥ maxEntries then
        match oldestKey insertedAt order m with
        | some oldest => m.remove oldest
        | none => m
      else m
    room.insert key entry

theorem get_insertCapped {V : Type} {insertedAt : V → Instant} {order : String → ℕ}
    {m : FiniteMap String V} {key other : String} {entry v : V} {maxEntries : ℕ}
    (h : (insertCapped insertedAt order m key entry maxEntries).get other = some v) :
    m.get other = some v ∧ (other ≠ key ∨ maxEntries = 0) ∨
      other = key ∧ v = entry ∧ maxEntries ≠ 0 := by
  have hroom {room : FiniteMap String V} (hmax : maxEntries ≠ 0)
      (hsub : ∀ k w, room.get k = some w → m.get k = some w)
      (h : (room.insert key entry).get other = some v) :
      m.get other = some v ∧ (other ≠ key ∨ maxEntries = 0) ∨
        other = key ∧ v = entry ∧ maxEntries ≠ 0 := by
    rw [FiniteMap.get_insert] at h
    split at h
    · rename_i hkey
      exact .inr ⟨hkey,(Option.some.inj h).symm,hmax⟩
    · rename_i hne
      exact .inl ⟨hsub _ _ h,.inl hne⟩
  unfold insertCapped at h
  split at h
  · rename_i hmax
    exact .inl ⟨h,.inr hmax⟩
  rename_i hmax
  split at h
  · exact hroom hmax (fun _ _ hk => hk) h
  · refine hroom hmax ?_ h
    intro k w hk
    split at hk
    · split at hk
      · rw [FiniteMap.get_remove] at hk
        split at hk
        · cases hk
        · exact hk
      · exact hk
    · exact hk

def modelNotFound (modelName : String) : AitError :=
  .notFound ("Model '" ++ modelName ++ "' not found or disabled")

namespace AppState

def knownUnknown (s : AppState) (modelName : String) (now : Instant) : Bool :=
  freshVerdict s.negativeModelCache modelName now

def cachedModel (s : AppState) (modelName : String) (now : Instant) :
    Option (Model × Provider) × AppState :=
  let (cached,modelCache) := freshEntry s.modelCache modelName now
  (cached,{ s with modelCache := modelCache })

def knownUpstream (s : AppState) (providerId : String) (now : Instant) :
    Option UpstreamProvider × AppState :=
  let (cached,providerCache) := freshEntry s.providerCache providerId now
  (cached,{ s with providerCache := providerCache })

def rememberUpstream (s : AppState) (p : Provider) (order : IterationOrder) (now : Instant) :
    AppState :=
  { s with
    providerCache := insertCapped Prod.snd order.providers s.providerCache p.id
      (createProvider p s.httpClient,now) s.config.cacheMaxEntries }

def rememberModel (s : AppState) (modelName : String) (route : Model × Provider)
    (order : IterationOrder) (now : Instant) : AppState :=
  { s with
    modelCache := insertCapped Prod.snd order.models s.modelCache modelName (route,now)
      s.config.cacheMaxEntries }

def rememberUnknown (s : AppState) (modelName : String) (order : IterationOrder) (now : Instant) :
    AppState :=
  { s with
    negativeModelCache := insertCapped id order.unknown s.negativeModelCache modelName now
      s.config.cacheMaxEntries }

end AppState

def resolveModelAndProvider (s : AppState) (modelName : String) (order : IterationOrder)
    (now : Instant) : Except AitError (Model × Provider) × AppState :=
  if s.knownUnknown modelName now then (.error (modelNotFound modelName),s)
  else match s.cachedModel modelName now with
  | (some found,s) => (.ok found,s)
  | (none,s) =>
    match s.db.resolveModel modelName with
    | some (m,p) =>
      (.ok (m,p),(s.rememberUpstream p order now).rememberModel modelName (m,p) order now)
    | none => (.error (modelNotFound modelName),s.rememberUnknown modelName order now)

def cachedUpstream (s : AppState) (provider : Provider) (order : IterationOrder) (now : Instant) :
    UpstreamProvider × AppState :=
  match s.knownUpstream provider.id now with
  | (some upstream,s) => (upstream,s)
  | (none,s) => (createProvider provider s.httpClient,s.rememberUpstream provider order now)

section Cases

variable {s : AppState} {modelName : String} {order : IterationOrder} {now : Instant}

@[simp] theorem resolve_rejected (hknown : s.knownUnknown modelName now = true) :
    resolveModelAndProvider s modelName order now = (.error (modelNotFound modelName),s) :=
  if_pos hknown

theorem resolve_hit {route : Model × Provider} (hknown : s.knownUnknown modelName now = false)
    (hfresh : (freshEntry s.modelCache modelName now).1 = some route) :
    resolveModelAndProvider s modelName order now =
      (.ok route,{ s with modelCache := (freshEntry s.modelCache modelName now).2 }) := by
  rw [resolveModelAndProvider,if_neg (by simp [hknown]),AppState.cachedModel]
  generalize freshEntry s.modelCache modelName now = looked at hfresh ⊢
  rcases looked with ⟨_ | found,slid⟩
  · cases hfresh
  · obtain rfl := Option.some.inj hfresh
    rfl

theorem resolve_read {m : Model} {p : Provider} (hknown : s.knownUnknown modelName now = false)
    (hstale : (freshEntry s.modelCache modelName now).1 = none)
    (hdb : s.db.resolveModel modelName = some (m,p)) :
    resolveModelAndProvider s modelName order now =
      (.ok (m,p),(s.rememberUpstream p order now).rememberModel modelName (m,p) order now) := by
  rw [resolveModelAndProvider,if_neg (by simp [hknown]),AppState.cachedModel,
    freshEntry_miss hstale]
  simp only [hdb]

theorem resolve_unknown (hknown : s.knownUnknown modelName now = false)
    (hstale : (freshEntry s.modelCache modelName now).1 = none)
    (hdb : s.db.resolveModel modelName = none) :
    resolveModelAndProvider s modelName order now =
      (.error (modelNotFound modelName),s.rememberUnknown modelName order now) := by
  rw [resolveModelAndProvider,if_neg (by simp [hknown]),AppState.cachedModel,
    freshEntry_miss hstale]
  simp only [hdb]

variable {provider : Provider}

theorem upstream_hit {upstream : UpstreamProvider}
    (hfresh : (freshEntry s.providerCache provider.id now).1 = some upstream) :
    cachedUpstream s provider order now =
      (upstream,{ s with providerCache := (freshEntry s.providerCache provider.id now).2 }) := by
  rw [cachedUpstream,AppState.knownUpstream]
  generalize freshEntry s.providerCache provider.id now = looked at hfresh ⊢
  rcases looked with ⟨_ | found,slid⟩
  · cases hfresh
  · obtain rfl := Option.some.inj hfresh
    rfl

@[simp] theorem upstream_miss (hstale : (freshEntry s.providerCache provider.id now).1 = none) :
    cachedUpstream s provider order now =
      (createProvider provider s.httpClient,s.rememberUpstream provider order now) := by
  rw [cachedUpstream,AppState.knownUpstream,freshEntry_miss hstale]

end Cases

theorem resolveModelAndProvider_frame (s : AppState) (modelName : String) (order : IterationOrder)
    (now : Instant) :
    ∃ modelCache negativeModelCache providerCache,
      (resolveModelAndProvider s modelName order now).2 =
        { s with
          modelCache := modelCache
          negativeModelCache := negativeModelCache
          providerCache := providerCache } := by
  unfold resolveModelAndProvider
  split
  · exact ⟨_,_,_,rfl⟩
  have hslid : ∃ m, (s.cachedModel modelName now).2 = { s with modelCache := m } := ⟨_,rfl⟩
  generalize s.cachedModel modelName now = slid at hslid ⊢
  obtain ⟨m,hslid⟩ := hslid
  rcases slid with ⟨_ | found,s'⟩
  · dsimp only at hslid ⊢
    subst hslid
    split <;> exact ⟨_,_,_,rfl⟩
  · exact ⟨m,_,_,hslid⟩

theorem cachedUpstream_frame (s : AppState) (provider : Provider) (order : IterationOrder)
    (now : Instant) :
    ∃ providerCache, (cachedUpstream s provider order now).2 =
      { s with providerCache := providerCache } := by
  unfold cachedUpstream
  have hslid : ∃ m, (s.knownUpstream provider.id now).2 = { s with providerCache := m } := ⟨_,rfl⟩
  generalize s.knownUpstream provider.id now = slid at hslid ⊢
  obtain ⟨m,hslid⟩ := hslid
  rcases slid with ⟨_ | found,s'⟩
  · dsimp only at hslid ⊢
    subst hslid
    exact ⟨_,rfl⟩
  · exact ⟨m,hslid⟩

end Ait
