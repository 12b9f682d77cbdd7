import Ait.Handlers
import Ait.StoreQueries

/-!
# The nine writes and their removals

`Mutation.commit` is the write of each handler. `Effect` says, handler by
handler, which answers the write may change and which removals it leaves to do;
every cache invariant is derived from it. A removal `drops` an entry of a cache
when performing it takes the entry out.
-/

namespace Ait

/-- The mutating requests, with the clock reading and the values drawn for them. -/
inductive Mutation
  | createApiKey (now : DateTime) (input : CreateApiKeyRequest) (newId rawKey : String)
  | deleteApiKey (keyId : String)
  | updateApiKey (now : DateTime) (keyId : String) (input : UpdateApiKeyRequest)
  | createProvider (checks : UrlChecks) (now : DateTime) (input : CreateProviderRequest)
      (newId : String)
  | updateProvider (checks : UrlChecks) (now : DateTime) (id : String)
      (input : UpdateProviderRequest)
  | deleteProvider (id : String)
  | createModel (now : DateTime) (input : CreateModelRequest) (newId : String)
  | deleteModel (name : String)
  | updateModel (now : DateTime) (name : String) (input : UpdateModelRequest)

/-- Drop the reply, which no cache depends on. -/
def Committed.silent {A : Type} (c : Committed A) : Committed Unit := ⟨(),c.db,c.stale⟩

namespace Mutation

def commit (hashKey : String → String) : Mutation → Database → Except AitError (Committed Unit)
  | createApiKey now input newId rawKey,db =>
    (Ait.createApiKey hashKey now input newId rawKey db).map Committed.silent
  | deleteApiKey keyId,db => Ait.deleteApiKey keyId db
  | updateApiKey now keyId input,db => (Ait.updateApiKey now keyId input db).map Committed.silent
  | createProvider checks now input newId,db =>
    (createProviderHandler checks now input newId db).map Committed.silent
  | updateProvider checks now id input,db =>
    (Ait.updateProvider checks now id input db).map Committed.silent
  | deleteProvider id,db => Ait.deleteProvider id db
  | createModel now input newId,db => (Ait.createModel now input newId db).map Committed.silent
  | deleteModel name,db => Ait.deleteModel name db
  | updateModel now name input,db => (Ait.updateModel now name input db).map Committed.silent

/-- What a successful write did: the rows it may have touched, what it knows of the
old or new answer there, and the removals that follow. -/
inductive Effect (hashKey : String → String) (db : Database) :
    Mutation → Database → List Invalidation → Prop
  | createApiKey {now : DateTime} {input : CreateApiKeyRequest} {newId rawKey : String}
      {db' : Database} (frame : db.KeyFrame (hashKey rawKey) db')
      (absent : db.keyInfo (hashKey rawKey) = none) :
      Effect hashKey db (createApiKey now input newId rawKey) db' []
  | deleteApiKey {keyId hash : String} {db' : Database}
      (row : (db.getApiKey keyId).map ApiKey.key = some hash) (frame : db.KeyFrame hash db')
      (gone : db'.keyInfo hash = none) :
      Effect hashKey db (deleteApiKey keyId) db' [.keyRemove hash,.revisionBump]
  | updateApiKey {now : DateTime} {keyId hash : String} {input : UpdateApiKeyRequest}
      {db' : Database} (row : (db.getApiKey keyId).map ApiKey.key = some hash)
      (frame : db.KeyFrame hash db') (present : db.keyInfo hash ≠ none) :
      Effect hashKey db (updateApiKey now keyId input) db'
        [.keyRemove hash,.negativeKeyRemove hash,.revisionBump]
  | createProvider {checks : UrlChecks} {now : DateTime} {input : CreateProviderRequest}
      {newId id : String} {db' : Database} (frame : db.ProviderFrame id db')
      (absent : db.getProvider id = none) (models : db'.models = db.models) :
      Effect hashKey db (createProvider checks now input newId) db' []
  | updateProvider {checks : UrlChecks} {now : DateTime} {id : String}
      {input : UpdateProviderRequest} {db' : Database} (frame : db.ProviderFrame id db') :
      Effect hashKey db (updateProvider checks now id input) db' (providerStale id)
  | deleteProvider {id : String} {db' : Database} (frame : db.ProviderFrame id db') :
      Effect hashKey db (deleteProvider id) db' (providerStale id)
  | createModel {now : DateTime} {input : CreateModelRequest} {newId : String} {db' : Database}
      (frame : db.ModelFrame (trim input.name) db')
      (absent : db.resolveModel (trim input.name) = none) :
      Effect hashKey db (createModel now input newId) db' [.negativeModelRemove (trim input.name)]
  | deleteModel {name : String} {db' : Database} (frame : db.ModelFrame name db')
      (gone : db'.resolveModel name = none) :
      Effect hashKey db (deleteModel name) db' [.modelRemove name]
  | updateModel {now : DateTime} {name : String} {input : UpdateModelRequest} {db' : Database}
      (frame : db.ModelFrame (trim name) db') :
      Effect hashKey db (updateModel now name input) db'
        [.modelRemove (trim name),.negativeModelRemove (trim name)]

end Mutation

theorem validateString_ok {value fieldName trimmed : String} {max : ℕ} {allowed : Char → Bool}
    (h : validateString value fieldName max allowed = .ok trimmed) : trimmed = trim value := by
  unfold validateString at h
  dsimp only at h
  split at h
  · cases h
  split at h
  · cases h
  split at h
  · cases h
  · exact (Except.ok.inj h).symm

theorem createApiKey_ok {hashKey : String → String} {now : DateTime} {input : CreateApiKeyRequest}
    {newId rawKey : String} {db : Database} {c : Committed (ApiKey × String)}
    (h : createApiKey hashKey now input newId rawKey db = .ok c) :
    db.KeyFrame (hashKey rawKey) c.db ∧ db.keyInfo (hashKey rawKey) = none ∧ c.stale = [] := by
  simp only [createApiKey,bind_eq_ok] at h
  obtain ⟨expiresAt,-,name,-,h⟩ := h
  split at h
  · cases h
  · rename_i reply db' hdb
    cases h
    obtain ⟨hframe,habsent⟩ := Database.insertApiKey_ok hdb
    exact ⟨hframe,habsent,rfl⟩

theorem deleteApiKey_ok {keyId : String} {db : Database} {c : Committed Unit}
    (h : deleteApiKey keyId db = .ok c) :
    ∃ hash, (db.getApiKey keyId).map ApiKey.key = some hash ∧ db.KeyFrame hash c.db ∧
      c.db.keyInfo hash = none ∧ c.stale = [.keyRemove hash,.revisionBump] := by
  unfold deleteApiKey at h
  split at h
  · cases h
  · rename_i hash db' hdb
    cases h
    obtain ⟨hrow,hframe,hgone⟩ := Database.deleteApiKey_ok hdb
    exact ⟨hash,hrow,hframe,hgone,rfl⟩

theorem apiKeyPatch_id {keyId : String} {input : UpdateApiKeyRequest} {u : ApiKeyUpdate}
    (h : apiKeyPatch keyId input = .ok u) : u.id = keyId := by
  simp only [apiKeyPatch,bind_eq_ok] at h
  obtain ⟨name,-,expiresAt,-,h⟩ := h
  cases h
  rfl

theorem updateApiKey_ok {now : DateTime} {keyId : String} {input : UpdateApiKeyRequest}
    {db : Database} {c : Committed ApiKey} (h : updateApiKey now keyId input db = .ok c) :
    ∃ hash, (db.getApiKey keyId).map ApiKey.key = some hash ∧ db.KeyFrame hash c.db ∧
      db.keyInfo hash ≠ none ∧
        c.stale = [.keyRemove hash,.negativeKeyRemove hash,.revisionBump] := by
  simp only [updateApiKey,bind_eq_ok] at h
  obtain ⟨updates,hpatch,h⟩ := h
  split at h
  · cases h
  · rename_i updated hash db' hdb
    cases h
    obtain ⟨hrow,hframe,hpresent⟩ := Database.updateApiKey_ok hdb
    rw [apiKeyPatch_id hpatch] at hrow
    exact ⟨hash,hrow,hframe,hpresent,rfl⟩

theorem createProviderHandler_ok {checks : UrlChecks} {now : DateTime}
    {input : CreateProviderRequest} {newId : String} {db : Database} {c : Committed Provider}
    (h : createProviderHandler checks now input newId db = .ok c) :
    ∃ id, db.ProviderFrame id c.db ∧ db.getProvider id = none ∧ c.db.models = db.models ∧
      c.stale = [] := by
  simp only [createProviderHandler,bind_eq_ok] at h
  obtain ⟨name,-,url,-,_,-,apiKey,-,h⟩ := h
  split at h
  · cases h
  · rename_i inserted db' hdb
    cases h
    obtain ⟨hframe,habsent,hmodels⟩ := Database.insertProvider_ok hdb
    exact ⟨inserted.id,hframe,habsent,hmodels,rfl⟩

theorem providerPatch_id {checks : UrlChecks} {id : String} {input : UpdateProviderRequest}
    {u : ProviderUpdate} (h : providerPatch checks id input = .ok u) : u.id = id := by
  simp only [providerPatch,bind_eq_ok] at h
  obtain ⟨name,-,url,-,apiKey,-,_,-,h⟩ := h
  cases h
  rfl

theorem updateProvider_ok {checks : UrlChecks} {now : DateTime} {id : String}
    {input : UpdateProviderRequest} {db : Database} {c : Committed Provider}
    (h : updateProvider checks now id input db = .ok c) :
    db.ProviderFrame id c.db ∧ c.stale = providerStale id := by
  simp only [updateProvider,bind_eq_ok] at h
  obtain ⟨updates,hpatch,h⟩ := h
  split at h
  · cases h
  · rename_i provider db' hdb
    cases h
    have hframe := Database.updateProvider_ok hdb
    rw [providerPatch_id hpatch] at hframe
    exact ⟨hframe,rfl⟩

theorem deleteProvider_ok {id : String} {db : Database} {c : Committed Unit}
    (h : deleteProvider id db = .ok c) :
    db.ProviderFrame id c.db ∧ c.stale = providerStale id := by
  unfold deleteProvider at h
  split at h
  · cases h
  · rename_i db' hdb
    cases h
    exact ⟨Database.deleteProvider_ok hdb,rfl⟩

theorem createModel_ok {now : DateTime} {input : CreateModelRequest} {newId : String}
    {db : Database} {c : Committed Model} (h : createModel now input newId db = .ok c) :
    db.ModelFrame (trim input.name) c.db ∧ db.resolveModel (trim input.name) = none ∧
      c.stale = [.negativeModelRemove (trim input.name)] := by
  simp only [createModel,bind_eq_ok] at h
  obtain ⟨name,hname,providerId,-,upstreamModel,-,h⟩ := h
  obtain rfl := validateString_ok hname
  split at h
  · cases h
  · rename_i inserted db' hdb
    cases h
    obtain ⟨hinserted,hframe,habsent⟩ := Database.insertModel_ok hdb
    rw [hinserted] at hframe habsent ⊢
    exact ⟨hframe,habsent,rfl⟩

theorem deleteModel_ok {name : String} {db : Database} {c : Committed Unit}
    (h : deleteModel name db = .ok c) :
    db.ModelFrame name c.db ∧ c.db.resolveModel name = none ∧ c.stale = [.modelRemove name] := by
  unfold deleteModel at h
  split at h
  · cases h
  · rename_i db' hdb
    cases h
    obtain ⟨hframe,hgone⟩ := Database.deleteModel_ok hdb
    exact ⟨hframe,hgone,rfl⟩

theorem modelPatch_name {name : String} {input : UpdateModelRequest} {u : ModelUpdate}
    (h : modelPatch name input = .ok u) : u.name = trim name := by
  simp only [modelPatch,bind_eq_ok] at h
  obtain ⟨modelName,hname,providerId,-,upstreamModel,-,h⟩ := h
  cases h
  exact validateString_ok hname

theorem updateModel_ok {now : DateTime} {name : String} {input : UpdateModelRequest}
    {db : Database} {c : Committed Model} (h : updateModel now name input db = .ok c) :
    db.ModelFrame (trim name) c.db ∧
      c.stale = [.modelRemove (trim name),.negativeModelRemove (trim name)] := by
  simp only [updateModel,bind_eq_ok] at h
  obtain ⟨updates,hpatch,h⟩ := h
  split at h
  · cases h
  · rename_i model db' hdb
    cases h
    have hframe := Database.updateModel_ok hdb
    rw [modelPatch_name hpatch] at hframe ⊢
    exact ⟨hframe,rfl⟩

theorem Mutation.effect {hashKey : String → String} {m : Mutation} {db : Database}
    {c : Committed Unit} (h : m.commit hashKey db = .ok c) :
    Effect hashKey db m c.db c.stale := by
  cases m with
  | createApiKey now input newId rawKey =>
    obtain ⟨c,hc,rfl⟩ := map_eq_ok.mp h
    obtain ⟨hframe,habsent,hstale⟩ := createApiKey_ok hc
    exact hstale ▸ .createApiKey hframe habsent
  | deleteApiKey keyId =>
    obtain ⟨hash,hrow,hframe,hgone,hstale⟩ := deleteApiKey_ok h
    exact hstale ▸ .deleteApiKey hrow hframe hgone
  | updateApiKey now keyId input =>
    obtain ⟨c,hc,rfl⟩ := map_eq_ok.mp h
    obtain ⟨hash,hrow,hframe,hpresent,hstale⟩ := updateApiKey_ok hc
    exact hstale ▸ .updateApiKey hrow hframe hpresent
  | createProvider checks now input newId =>
    obtain ⟨c,hc,rfl⟩ := map_eq_ok.mp h
    obtain ⟨id,hframe,habsent,hmodels,hstale⟩ := createProviderHandler_ok hc
    exact hstale ▸ .createProvider hframe habsent hmodels
  | updateProvider checks now id input =>
    obtain ⟨c,hc,rfl⟩ := map_eq_ok.mp h
    obtain ⟨hframe,hstale⟩ := updateProvider_ok hc
    exact hstale ▸ .updateProvider hframe
  | deleteProvider id =>
    obtain ⟨hframe,hstale⟩ := deleteProvider_ok h
    exact hstale ▸ .deleteProvider hframe
  | createModel now input newId =>
    obtain ⟨c,hc,rfl⟩ := map_eq_ok.mp h
    obtain ⟨hframe,habsent,hstale⟩ := createModel_ok hc
    exact hstale ▸ .createModel hframe habsent
  | deleteModel name =>
    obtain ⟨hframe,hgone,hstale⟩ := deleteModel_ok h
    exact hstale ▸ .deleteModel hframe hgone
  | updateModel now name input =>
    obtain ⟨c,hc,rfl⟩ := map_eq_ok.mp h
    obtain ⟨hframe,hstale⟩ := updateModel_ok hc
    exact hstale ▸ .updateModel hframe

end Ait
