import Ait.Mutation

/-!
# Which removal drops which entry

Five caches hold answers of the store. For each of them, a performed removal
leaves exactly the entries it does not drop, and a write changes an answer only
when one of the removals it leaves to do drops that answer's entry.
-/

namespace Ait
namespace Invalidation

def dropsKey (hash : String) (i : Invalidation) : Bool := i = .keyRemove hash

def dropsNegativeKey (hash : String) (i : Invalidation) : Bool := i = .negativeKeyRemove hash

/-- An entry of the model cache goes with its name or with its provider. -/
def dropsModel (name providerId : String) (i : Invalidation) : Bool :=
  i = .modelRemove name ∨ i = .modelRetain providerId

def dropsNegativeModel (name : String) (i : Invalidation) : Bool :=
  i = .negativeModelRemove name ∨ i = .negativeModelClear

def dropsProvider (providerId : String) (i : Invalidation) : Bool := i = .providerRemove providerId

variable {i : Invalidation} {s : AppState}

@[simp] theorem apply_db : (i.apply s).db = s.db := by cases i <;> rfl

@[simp] theorem apply_config : (i.apply s).config = s.config := by cases i <;> rfl

@[simp] theorem apply_httpClient : (i.apply s).httpClient = s.httpClient := by cases i <;> rfl

theorem apply_apiKeyCache {hash : String} {v : ApiKeyInfo × Instant}
    (h : (i.apply s).apiKeyCache.get hash = some v) :
    s.apiKeyCache.get hash = some v ∧ dropsKey hash i = false := by
  cases i with
  | keyRemove other =>
    simp only [apply,FiniteMap.get_remove] at h
    split at h
    · cases h
    · rename_i hne
      exact ⟨h,by simpa [dropsKey] using Ne.symm hne⟩
  | _ => exact ⟨h,rfl⟩

theorem apply_negativeKeyCache {hash : String} {v : Instant}
    (h : (i.apply s).negativeKeyCache.get hash = some v) :
    s.negativeKeyCache.get hash = some v ∧ dropsNegativeKey hash i = false := by
  cases i with
  | negativeKeyRemove other =>
    simp only [apply,FiniteMap.get_remove] at h
    split at h
    · cases h
    · rename_i hne
      exact ⟨h,by simpa [dropsNegativeKey] using Ne.symm hne⟩
  | _ => exact ⟨h,rfl⟩

theorem apply_modelCache {name : String} {v : (Model × Provider) × Instant}
    (h : (i.apply s).modelCache.get name = some v) :
    s.modelCache.get name = some v ∧ dropsModel name v.1.2.id i = false := by
  cases i with
  | modelRemove other =>
    simp only [apply,FiniteMap.get_remove] at h
    split at h
    · cases h
    · rename_i hne
      exact ⟨h,by simpa [dropsModel] using Ne.symm hne⟩
  | modelRetain providerId =>
    simp only [apply,FiniteMap.get_retain,Option.filter_eq_some_iff] at h
    obtain ⟨h,hne⟩ := h
    have hne : v.1.2.id ≠ providerId := by simpa using hne
    exact ⟨h,by simpa [dropsModel] using Ne.symm hne⟩
  | _ => exact ⟨h,rfl⟩

theorem apply_negativeModelCache {name : String} {v : Instant}
    (h : (i.apply s).negativeModelCache.get name = some v) :
    s.negativeModelCache.get name = some v ∧ dropsNegativeModel name i = false := by
  cases i with
  | negativeModelRemove other =>
    simp only [apply,FiniteMap.get_remove] at h
    split at h
    · cases h
    · rename_i hne
      exact ⟨h,by simpa [dropsNegativeModel] using Ne.symm hne⟩
  | negativeModelClear => simp [apply] at h
  | _ => exact ⟨h,rfl⟩

theorem apply_providerCache {id : String} {v : UpstreamProvider × Instant}
    (h : (i.apply s).providerCache.get id = some v) :
    s.providerCache.get id = some v ∧ dropsProvider id i = false := by
  cases i with
  | providerRemove other =>
    simp only [apply,FiniteMap.get_remove] at h
    split at h
    · cases h
    · rename_i hne
      exact ⟨h,by simpa [dropsProvider] using Ne.symm hne⟩
  | _ => exact ⟨h,rfl⟩

/-- Performing a list of removals leaves the entries that none of them drops. -/
theorem foldl_apply_get {V : Type} (get : AppState → Option V) (drops : V → Invalidation → Bool)
    (hone : ∀ i s v, get (i.apply s) = some v → get s = some v ∧ drops v i = false)
    {is : List Invalidation} {v : V} (h : get (is.foldl (fun s i => i.apply s) s) = some v) :
    get s = some v ∧ ∀ i ∈ is, drops v i = false := by
  induction is generalizing s with
  | nil => exact ⟨h,by simp⟩
  | cons i is ih =>
    have hrest := ih h
    have hfirst := hone i s v hrest.1
    refine ⟨hfirst.1,fun j hj => ?_⟩
    rcases List.mem_cons.mp hj with rfl | hj
    · exact hfirst.2
    · exact hrest.2 j hj

theorem foldl_apply_frame (is : List Invalidation) :
    (is.foldl (fun s i => i.apply s) s).db = s.db ∧
      (is.foldl (fun s i => i.apply s) s).config = s.config ∧
        (is.foldl (fun s i => i.apply s) s).httpClient = s.httpClient := by
  induction is generalizing s with
  | nil => exact ⟨rfl,rfl,rfl⟩
  | cons i is ih => simpa using ih (s := i.apply s)

end Invalidation

section Finish

variable {A : Type} {c : Committed A} {s : AppState}

@[simp] theorem Committed.finish_db : (c.finish s).db = c.db :=
  (Invalidation.foldl_apply_frame c.stale).1

@[simp] theorem Committed.finish_config : (c.finish s).config = s.config :=
  (Invalidation.foldl_apply_frame c.stale).2.1

@[simp] theorem Committed.finish_httpClient : (c.finish s).httpClient = s.httpClient :=
  (Invalidation.foldl_apply_frame c.stale).2.2

open Invalidation

theorem Committed.finish_apiKeyCache {hash : String} {v : ApiKeyInfo × Instant}
    (h : (c.finish s).apiKeyCache.get hash = some v) :
    s.apiKeyCache.get hash = some v ∧ ∀ i ∈ c.stale, dropsKey hash i = false :=
  foldl_apply_get (s := { s with db := c.db }) (fun s => s.apiKeyCache.get hash)
    (fun _ => dropsKey hash) (fun _ _ _ => apply_apiKeyCache) h

theorem Committed.finish_negativeKeyCache {hash : String} {v : Instant}
    (h : (c.finish s).negativeKeyCache.get hash = some v) :
    s.negativeKeyCache.get hash = some v ∧ ∀ i ∈ c.stale, dropsNegativeKey hash i = false :=
  foldl_apply_get (s := { s with db := c.db }) (fun s => s.negativeKeyCache.get hash)
    (fun _ => dropsNegativeKey hash) (fun _ _ _ => apply_negativeKeyCache) h

theorem Committed.finish_modelCache {name : String} {v : (Model × Provider) × Instant}
    (h : (c.finish s).modelCache.get name = some v) :
    s.modelCache.get name = some v ∧ ∀ i ∈ c.stale, dropsModel name v.1.2.id i = false :=
  foldl_apply_get (s := { s with db := c.db }) (fun s => s.modelCache.get name)
    (fun v => dropsModel name v.1.2.id) (fun _ _ _ => apply_modelCache) h

theorem Committed.finish_negativeModelCache {name : String} {v : Instant}
    (h : (c.finish s).negativeModelCache.get name = some v) :
    s.negativeModelCache.get name = some v ∧ ∀ i ∈ c.stale, dropsNegativeModel name i = false :=
  foldl_apply_get (s := { s with db := c.db }) (fun s => s.negativeModelCache.get name)
    (fun _ => dropsNegativeModel name) (fun _ _ _ => apply_negativeModelCache) h

theorem Committed.finish_providerCache {id : String} {v : UpstreamProvider × Instant}
    (h : (c.finish s).providerCache.get id = some v) :
    s.providerCache.get id = some v ∧ ∀ i ∈ c.stale, dropsProvider id i = false :=
  foldl_apply_get (s := { s with db := c.db }) (fun s => s.providerCache.get id)
    (fun _ => dropsProvider id) (fun _ _ _ => apply_providerCache) h

end Finish

namespace Mutation

/-- The hash of the stored key that a deletion or an update is about. -/
def keyTarget (db : Database) : Mutation → Option String
  | deleteApiKey keyId | updateApiKey _ keyId _ => (db.getApiKey keyId).map ApiKey.key
  | _ => none

def modelTarget : Mutation → Option String
  | createModel _ input _ => some (trim input.name)
  | deleteModel name => some name
  | updateModel _ name _ => some (trim name)
  | _ => none

def providerTarget : Mutation → Option String
  | updateProvider _ _ id _ | deleteProvider id => some id
  | _ => none

end Mutation

namespace Mutation.Effect

open Invalidation

variable {hashKey : String → String} {db db' : Database} {m : Mutation} {stale : List Invalidation}

theorem keyInfo (h : Effect hashKey db m db' stale) {hash : String} {info : ApiKeyInfo}
    (hinfo : db.keyInfo hash = some info) :
    db'.keyInfo hash = some info ∨ ∃ i ∈ stale, dropsKey hash i = true := by
  cases h with
  | @createApiKey _ _ _ rawKey _ frame absent =>
    have hne : hash ≠ hashKey rawKey := by
      rintro rfl
      rw [absent] at hinfo
      cases hinfo
    exact .inl ((frame.keyInfo hne).trans hinfo)
  | @deleteApiKey _ other _ _ frame _ =>
    by_cases hne : hash = other
    · exact .inr ⟨_,List.mem_cons_self,by simp [dropsKey,hne]⟩
    · exact .inl ((frame.keyInfo hne).trans hinfo)
  | @updateApiKey _ _ other _ _ _ frame _ =>
    by_cases hne : hash = other
    · exact .inr ⟨_,List.mem_cons_self,by simp [dropsKey,hne]⟩
    · exact .inl ((frame.keyInfo hne).trans hinfo)
  | createProvider frame => exact .inl ((Database.keyInfo_congr frame.keys hash).trans hinfo)
  | updateProvider frame => exact .inl ((Database.keyInfo_congr frame.keys hash).trans hinfo)
  | deleteProvider frame => exact .inl ((Database.keyInfo_congr frame.keys hash).trans hinfo)
  | createModel frame => exact .inl ((Database.keyInfo_congr frame.keys hash).trans hinfo)
  | deleteModel frame => exact .inl ((Database.keyInfo_congr frame.keys hash).trans hinfo)
  | updateModel frame => exact .inl ((Database.keyInfo_congr frame.keys hash).trans hinfo)

theorem noKeyInfo (h : Effect hashKey db m db' stale) {hash : String}
    (habsent : db.keyInfo hash = none)
    (hfresh : ∀ now input newId rawKey, m = .createApiKey now input newId rawKey →
      hashKey rawKey ≠ hash) : db'.keyInfo hash = none := by
  cases h with
  | createApiKey frame absent =>
    exact (frame.keyInfo (hfresh _ _ _ _ rfl).symm).trans habsent
  | @deleteApiKey _ other _ _ frame gone =>
    by_cases hne : hash = other
    · exact hne ▸ gone
    · exact (frame.keyInfo hne).trans habsent
  | @updateApiKey _ _ other _ _ _ frame present =>
    have hne : hash ≠ other := fun he => present (he ▸ habsent)
    exact (frame.keyInfo hne).trans habsent
  | createProvider frame => exact (Database.keyInfo_congr frame.keys hash).trans habsent
  | updateProvider frame => exact (Database.keyInfo_congr frame.keys hash).trans habsent
  | deleteProvider frame => exact (Database.keyInfo_congr frame.keys hash).trans habsent
  | createModel frame => exact (Database.keyInfo_congr frame.keys hash).trans habsent
  | deleteModel frame => exact (Database.keyInfo_congr frame.keys hash).trans habsent
  | updateModel frame => exact (Database.keyInfo_congr frame.keys hash).trans habsent

theorem resolveModel (h : Effect hashKey db m db' stale) {name : String} {r : Model} {p : Provider}
    (hroute : db.resolveModel name = some (r,p)) :
    db'.resolveModel name = some (r,p) ∨ ∃ i ∈ stale, dropsModel name p.id i = true := by
  have hprovider {id : String} (frame : db.ProviderFrame id db') :
      db'.resolveModel name = some (r,p) ∨ ∃ i ∈ providerStale id, dropsModel name p.id i = true := by
    by_cases hne : p.id = id
    · exact .inr ⟨.modelRetain id,by simp [providerStale],by simp [dropsModel,hne]⟩
    · exact .inl (frame.resolveModel hroute hne)
  cases h with
  | createApiKey frame =>
    exact .inl ((Database.resolveModel_congr frame.providers frame.models name).trans hroute)
  | deleteApiKey _ frame =>
    exact .inl ((Database.resolveModel_congr frame.providers frame.models name).trans hroute)
  | updateApiKey _ frame =>
    exact .inl ((Database.resolveModel_congr frame.providers frame.models name).trans hroute)
  | @createProvider _ _ _ _ id _ frame absent =>
    have hne : p.id ≠ id := by
      rintro rfl
      rw [Database.getProvider_of_resolveModel hroute] at absent
      cases absent
    exact .inl (frame.resolveModel hroute hne)
  | updateProvider frame => exact hprovider frame
  | deleteProvider frame => exact hprovider frame
  | @createModel _ input _ _ frame absent =>
    have hne : name ≠ trim input.name := by
      rintro rfl
      rw [absent] at hroute
      cases hroute
    exact .inl ((frame.resolveModel hne).trans hroute)
  | @deleteModel other _ frame _ =>
    by_cases hne : name = other
    · exact .inr ⟨_,List.mem_cons_self,by simp [dropsModel,hne]⟩
    · exact .inl ((frame.resolveModel hne).trans hroute)
  | @updateModel _ other _ _ frame =>
    by_cases hne : name = trim other
    · exact .inr ⟨_,List.mem_cons_self,by simp [dropsModel,hne]⟩
    · exact .inl ((frame.resolveModel hne).trans hroute)

theorem noModel (h : Effect hashKey db m db' stale) {name : String}
    (habsent : db.resolveModel name = none) :
    db'.resolveModel name = none ∨ ∃ i ∈ stale, dropsNegativeModel name i = true := by
  have hprovider {id : String} : ∃ i ∈ providerStale id, dropsNegativeModel name i = true :=
    ⟨.negativeModelClear,by simp [providerStale],by simp [dropsNegativeModel]⟩
  cases h with
  | createApiKey frame =>
    exact .inl ((Database.resolveModel_congr frame.providers frame.models name).trans habsent)
  | deleteApiKey _ frame =>
    exact .inl ((Database.resolveModel_congr frame.providers frame.models name).trans habsent)
  | updateApiKey _ frame =>
    exact .inl ((Database.resolveModel_congr frame.providers frame.models name).trans habsent)
  | createProvider frame absent models =>
    exact .inl (frame.resolveModel_none absent models habsent)
  | updateProvider frame => exact .inr hprovider
  | deleteProvider frame => exact .inr hprovider
  | @createModel _ input _ _ frame _ =>
    by_cases hne : name = trim input.name
    · exact .inr ⟨_,List.mem_cons_self,by simp [dropsNegativeModel,hne]⟩
    · exact .inl ((frame.resolveModel hne).trans habsent)
  | @deleteModel other _ frame gone =>
    by_cases hne : name = other
    · exact .inl (hne ▸ gone)
    · exact .inl ((frame.resolveModel hne).trans habsent)
  | @updateModel _ other _ _ frame =>
    by_cases hne : name = trim other
    · exact .inr ⟨.negativeModelRemove (trim other),by simp,by simp [dropsNegativeModel,hne]⟩
    · exact .inl ((frame.resolveModel hne).trans habsent)

theorem getProvider (h : Effect hashKey db m db' stale) {id : String} {p : Provider}
    (hp : db.getProvider id = some p) :
    db'.getProvider id = some p ∨ ∃ i ∈ stale, dropsProvider id i = true := by
  have hprovider {other : String} (frame : db.ProviderFrame other db') :
      db'.getProvider id = some p ∨ ∃ i ∈ providerStale other, dropsProvider id i = true := by
    by_cases hne : id = other
    · exact .inr ⟨_,List.mem_cons_self,by simp [dropsProvider,hne]⟩
    · exact .inl ((frame.getProvider hne).trans hp)
  cases h with
  | createApiKey frame => exact .inl ((Database.getProvider_congr frame.providers id).trans hp)
  | deleteApiKey _ frame => exact .inl ((Database.getProvider_congr frame.providers id).trans hp)
  | updateApiKey _ frame => exact .inl ((Database.getProvider_congr frame.providers id).trans hp)
  | @createProvider _ _ _ _ other _ frame absent =>
    have hne : id ≠ other := by
      rintro rfl
      rw [hp] at absent
      cases absent
    exact .inl ((frame.getProvider hne).trans hp)
  | updateProvider frame => exact hprovider frame
  | deleteProvider frame => exact hprovider frame
  | createModel frame => exact .inl ((Database.getProvider_congr frame.providers id).trans hp)
  | deleteModel frame => exact .inl ((Database.getProvider_congr frame.providers id).trans hp)
  | updateModel frame => exact .inl ((Database.getProvider_congr frame.providers id).trans hp)

/-- A deleted or updated key leaves the cache and bumps the revision; after a deletion
there is no row, and an update lifts the negative verdict. -/
theorem keyTarget_stale (h : Effect hashKey db m db' stale) {hash : String}
    (ht : m.keyTarget db = some hash) :
    .keyRemove hash ∈ stale ∧ .revisionBump ∈ stale ∧
      (db'.keyInfo hash = none ∨ .negativeKeyRemove hash ∈ stale) := by
  cases h with
  | deleteApiKey row frame gone =>
    obtain rfl := Option.some.inj (row.symm.trans ht)
    exact ⟨by simp,by simp,.inl gone⟩
  | updateApiKey row frame present =>
    obtain rfl := Option.some.inj (row.symm.trans ht)
    exact ⟨by simp,by simp,.inr (by simp)⟩
  | _ => cases ht

/-- What a mutation of a model leaves to do: its route goes unless there was none, and
the verdict "unknown" goes unless it now holds. -/
theorem modelTarget_stale (h : Effect hashKey db m db' stale) {name : String}
    (ht : m.modelTarget = some name) :
    (.modelRemove name ∈ stale ∨
        db.resolveModel name = none ∧ ∃ now input newId, m = .createModel now input newId) ∧
      (.negativeModelRemove name ∈ stale ∨ db'.resolveModel name = none) := by
  cases h with
  | createModel frame absent =>
    obtain rfl := Option.some.inj ht
    exact ⟨.inr ⟨absent,_,_,_,rfl⟩,.inl (by simp)⟩
  | deleteModel frame gone =>
    obtain rfl := Option.some.inj ht
    exact ⟨.inl (by simp),.inr gone⟩
  | updateModel frame =>
    obtain rfl := Option.some.inj ht
    exact ⟨.inl (by simp),.inl (by simp)⟩
  | _ => cases ht

theorem providerTarget_stale (h : Effect hashKey db m db' stale) {id : String}
    (ht : m.providerTarget = some id) : stale = providerStale id := by
  cases h with
  | updateProvider frame =>
    obtain rfl := Option.some.inj ht
    rfl
  | deleteProvider frame =>
    obtain rfl := Option.some.inj ht
    rfl
  | _ => cases ht

end Mutation.Effect
end Ait
