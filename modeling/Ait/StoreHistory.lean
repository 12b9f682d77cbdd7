import Ait.SqlSession
import Ait.StoreQueries
import Ait.Transition

/-!
# Histories of the store

The nine writes as the statements they send to SQLite, in a transaction where the source
opens one. A statement checks only the constraints it can break, and any call may fail.
Each write still does what the `Database` operation of its name does, or nothing.
-/

namespace Ait
open Sql

def constraintFailed : DbError := .storage "constraint failed"

namespace Tables

/-- `INSERT INTO providers`. -/
def insertProviderRow (row : ProviderRow) (t : Tables) : Except DbError (Unit × Tables) :=
  if conflicts [ProviderRow.id] t.providers row then .error constraintFailed
  else .ok ((),{ t with providers := t.providers ++ [row] })

/-- `UPDATE providers ... WHERE id = ?`, which sets no constrained column. -/
def updateProviderRows (id : String) (set : ProviderRow → ProviderRow) (t : Tables) :
    Except DbError (Unit × Tables) :=
  .ok ((),{ t with providers := t.providers.map fun r => if r.id = id then set r else r })

/-- `DELETE FROM providers WHERE id = ?`; the models of the deleted row follow it. -/
def deleteProviderRows (id : String) (t : Tables) : Except DbError (ℕ × Tables) :=
  .ok (t.providers.countP fun r => r.id == id,
    { t with
      providers := t.providers.filter fun r => r.id != id
      models := t.models.filter fun r => r.providerId != id })

def hasProvider (t : Tables) (id : String) : Bool := t.providers.any fun r => r.id == id

/-- `INSERT INTO models`. -/
def insertModelRow (row : ModelRow) (t : Tables) : Except DbError (Unit × Tables) :=
  if conflicts [ModelRow.id,ModelRow.name] t.models row then .error constraintFailed
  else if ¬t.hasProvider row.providerId then .error constraintFailed
  else .ok ((),{ t with models := t.models ++ [row] })

/-- `UPDATE models ... WHERE name = ?`, which may move them to a provider that is not there. -/
def updateModelRows (name : String) (set : ModelRow → ModelRow) (t : Tables) :
    Except DbError (Unit × Tables) :=
  if t.models.any fun r => r.name == name && !t.hasProvider (set r).providerId then
    .error constraintFailed
  else .ok ((),{ t with models := t.models.map fun r => if r.name = name then set r else r })

/-- `DELETE FROM models WHERE name = ?`. -/
def deleteModelRows (name : String) (t : Tables) : Except DbError (ℕ × Tables) :=
  .ok (t.models.countP fun r => r.name == name,
    { t with models := t.models.filter fun r => r.name != name })

/-- `INSERT INTO api_keys`. -/
def insertApiKeyRow (row : ApiKeyRow) (t : Tables) : Except DbError (Unit × Tables) :=
  if conflicts [ApiKeyRow.id,ApiKeyRow.keyHash] t.apiKeys row then .error constraintFailed
  else .ok ((),{ t with apiKeys := t.apiKeys ++ [row] })

/-- `UPDATE api_keys ... WHERE id = ?`, which sets no constrained column. -/
def updateApiKeyRows (id : String) (set : ApiKeyRow → ApiKeyRow) (t : Tables) :
    Except DbError (Unit × Tables) :=
  .ok ((),{ t with apiKeys := t.apiKeys.map fun r => if r.id = id then set r else r })

/-- `DELETE FROM api_keys WHERE id = ?`. -/
def deleteApiKeyRows (id : String) (t : Tables) : Except DbError (Unit × Tables) :=
  .ok ((),{ t with apiKeys := t.apiKeys.filter fun r => r.id != id })

/-- What a statement checks is what the schema asks of its outcome. -/
theorem schema_iff {t : Tables} : t.Schema ↔ UniqueColumns [ProviderRow.id] t.providers ∧
    UniqueColumns [ModelRow.id,ModelRow.name] t.models ∧
    (∀ m ∈ t.models, t.hasProvider m.providerId = true) ∧
    UniqueColumns [ApiKeyRow.id,ApiKeyRow.keyHash] t.apiKeys := by
  have hprovider (id : String) : t.hasProvider id = true ↔ id ∈ t.providers.map ProviderRow.id := by
    simp [hasProvider]
  simp only [UniqueColumns,List.mem_cons,List.not_mem_nil,or_false,forall_eq_or_imp,forall_eq,
    hprovider]
  constructor
  · intro h
    exact ⟨h.providerId,⟨h.modelId,h.modelName⟩,h.modelProvider,h.keyId,h.keyHash⟩
  · rintro ⟨h1,⟨h2,h3⟩,h4,h5,h6⟩
    exact ⟨h1,h2,h3,h4,h5,h6⟩

@[simp] theorem execute_map (t : Tables) :
    (execute t).map (fun db => ((),db.toTables)) =
      if t.Schema then .ok ((),t) else .error constraintFailed := by
  unfold execute
  split <;> rfl

section Checks

variable (db : Database)

theorem insertProviderRow_eq (row : ProviderRow) :
    insertProviderRow row db.toTables =
      (execute { db.toTables with providers := db.providers ++ [row] }).map
        fun db => ((),db.toTables) := by
  obtain ⟨hproviders,hmodels,hforeign,hkeys⟩ := schema_iff.mp db.schema
  have hkept : ∀ m ∈ db.models, hasProvider { db.toTables with providers := db.providers ++ [row] }
      m.providerId = true := by
    intro m hm
    have hthere := hforeign m hm
    simp only [hasProvider,List.any_append,Bool.or_eq_true] at hthere ⊢
    exact .inl hthere
  have hcheck : Schema { db.toTables with providers := db.providers ++ [row] } ↔
      conflicts [ProviderRow.id] db.providers row = false := by
    rw [schema_iff,← unique_append hproviders]
    exact ⟨fun h => h.1,fun h => ⟨h,hmodels,hkept,hkeys⟩⟩
  rw [execute_map,insertProviderRow]
  simp only [hcheck]
  cases conflicts [ProviderRow.id] db.providers row <;> rfl

theorem updateProviderRows_eq (id : String) (set : ProviderRow → ProviderRow)
    (hset : ∀ r, (set r).id = r.id) :
    updateProviderRows id set db.toTables =
      (execute { db.toTables with
        providers := db.providers.map fun r => if r.id = id then set r else r }).map
        fun db => ((),db.toTables) := by
  obtain ⟨hproviders,hmodels,hforeign,hkeys⟩ := schema_iff.mp db.schema
  have hids : (db.providers.map fun r => if r.id = id then set r else r).map ProviderRow.id =
      db.providers.map ProviderRow.id := by
    rw [List.map_map]
    refine List.map_congr_left fun r _ => ?_
    by_cases hr : r.id = id
    · simp [hr,hset]
    · simp [hr]
  have hschema : Schema { db.toTables with
      providers := db.providers.map fun r => if r.id = id then set r else r } := by
    refine ⟨?_,db.schema.modelId,db.schema.modelName,?_,db.schema.keyId,db.schema.keyHash⟩
    · rw [hids]
      exact db.schema.providerId
    · rw [hids]
      exact db.schema.modelProvider
  rw [execute_map,if_pos hschema,updateProviderRows]

theorem insertModelRow_eq (row : ModelRow) :
    insertModelRow row db.toTables =
      (execute { db.toTables with models := db.models ++ [row] }).map
        fun db => ((),db.toTables) := by
  obtain ⟨hproviders,hmodels,hforeign,hkeys⟩ := schema_iff.mp db.schema
  have hcheck : Schema { db.toTables with models := db.models ++ [row] } ↔
      conflicts [ModelRow.id,ModelRow.name] db.models row = false ∧
        hasProvider db.toTables row.providerId = true := by
    rw [schema_iff,← unique_append hmodels]
    constructor
    · rintro ⟨-,hunique,hall,-⟩
      exact ⟨hunique,hall row (by simp)⟩
    · rintro ⟨hunique,hthere⟩
      refine ⟨hproviders,hunique,fun m hm => ?_,hkeys⟩
      rcases List.mem_append.mp hm with hm | hm
      · exact hforeign m hm
      · obtain rfl := List.mem_singleton.mp hm
        exact hthere
  rw [execute_map,insertModelRow]
  simp only [hcheck]
  cases conflicts [ModelRow.id,ModelRow.name] db.models row with
  | true => simp
  | false => cases hasProvider db.toTables row.providerId <;> simp

theorem updateModelRows_eq (name : String) (set : ModelRow → ModelRow)
    (hset : ∀ r, (set r).id = r.id ∧ (set r).name = r.name) :
    updateModelRows name set db.toTables =
      (execute { db.toTables with
        models := db.models.map fun r => if r.name = name then set r else r }).map
        fun db => ((),db.toTables) := by
  obtain ⟨hproviders,hmodels,hforeign,hkeys⟩ := schema_iff.mp db.schema
  have hunique : UniqueColumns [ModelRow.id,ModelRow.name]
      (db.models.map fun r => if r.name = name then set r else r) := by
    refine hmodels.update fun col hcol r => ?_
    simp only [List.mem_cons,List.not_mem_nil,or_false] at hcol
    rcases hcol with rfl | rfl
    · exact (hset r).1
    · exact (hset r).2
  have hcheck : Schema { db.toTables with
      models := db.models.map fun r => if r.name = name then set r else r } ↔
      ∀ r ∈ db.models, r.name = name → hasProvider db.toTables (set r).providerId = true := by
    rw [schema_iff]
    constructor
    · rintro ⟨-,-,hall,-⟩ r hr hname
      have hrow := hall (set r) (List.mem_map.mpr ⟨r,hr,if_pos hname⟩)
      exact hrow
    · intro hall
      refine ⟨hproviders,hunique,fun m hm => ?_,hkeys⟩
      obtain ⟨r,hr,rfl⟩ := List.mem_map.mp hm
      by_cases hname : r.name = name
      · simp only [hname,if_true]
        exact hall r hr hname
      · simp only [hname,if_false]
        exact hforeign r hr
  have hany : (db.models.any fun r => r.name == name && !hasProvider db.toTables (set r).providerId) =
      false ↔ ∀ r ∈ db.models, r.name = name →
        hasProvider db.toTables (set r).providerId = true := by
    simp [List.any_eq_false]
  rw [execute_map,updateModelRows]
  simp only [hcheck,← hany]
  cases db.models.any fun r => r.name == name && !hasProvider db.toTables (set r).providerId <;> rfl

@[simp] theorem insertApiKeyRow_eq (row : ApiKeyRow) :
    insertApiKeyRow row db.toTables =
      (execute { db.toTables with apiKeys := db.apiKeys ++ [row] }).map
        fun db => ((),db.toTables) := by
  obtain ⟨hproviders,hmodels,hforeign,hkeys⟩ := schema_iff.mp db.schema
  have hcheck : Schema { db.toTables with apiKeys := db.apiKeys ++ [row] } ↔
      conflicts [ApiKeyRow.id,ApiKeyRow.keyHash] db.apiKeys row = false := by
    rw [schema_iff,← unique_append hkeys]
    exact ⟨fun h => h.2.2.2,fun h => ⟨hproviders,hmodels,hforeign,h⟩⟩
  rw [execute_map,insertApiKeyRow]
  simp only [hcheck]
  cases conflicts [ApiKeyRow.id,ApiKeyRow.keyHash] db.apiKeys row <;> rfl

theorem updateApiKeyRows_eq (id : String) (set : ApiKeyRow → ApiKeyRow)
    (hset : ∀ r, (set r).id = r.id ∧ (set r).keyHash = r.keyHash) :
    updateApiKeyRows id set db.toTables =
      (execute { db.toTables with
        apiKeys := db.apiKeys.map fun r => if r.id = id then set r else r }).map
        fun db => ((),db.toTables) := by
  obtain ⟨hproviders,hmodels,hforeign,hkeys⟩ := schema_iff.mp db.schema
  have hschema : Schema { db.toTables with
      apiKeys := db.apiKeys.map fun r => if r.id = id then set r else r } := by
    refine schema_iff.mpr ⟨hproviders,hmodels,hforeign,hkeys.update fun col hcol r => ?_⟩
    simp only [List.mem_cons,List.not_mem_nil,or_false] at hcol
    rcases hcol with rfl | rfl
    · exact (hset r).1
    · exact (hset r).2
  rw [execute_map,if_pos hschema,updateApiKeyRows]

end Checks
end Tables

namespace Writer

/-- `newId` is the generated UUID, used when the record brings none. -/
def insertProvider (newId : String) (now : DateTime) (provider : Provider) :
    Prog Tables DbError Provider :=
  let provider :=
    { provider with
      id := if provider.id = "" then newId else provider.id
      createdAt := now
      updatedAt := now }
  let row : ProviderRow :=
    { id := provider.id
      name := provider.name
      type := provider.providerType.toDb
      baseUrl := provider.baseUrl
      apiKey := provider.apiKey
      enabled := provider.enabled
      createdAt := timestamp provider.createdAt
      updatedAt := timestamp provider.updatedAt }
  do
    .perform (Tables.insertProviderRow row)
    return provider

def updateProvider (now : DateTime) (updates : ProviderUpdate) : Prog Tables DbError Provider := do
  let found ← .query fun t : Tables =>
    (t.providers.find? fun r => r.id == updates.id).map rowToProvider
  match found with
  | none => .throw (.notFound ("Provider '" ++ updates.id ++ "' not found"))
  | some provider =>
    let provider :=
      { provider with
        name := updates.name.getD provider.name
        providerType := updates.providerType.getD provider.providerType
        baseUrl := updates.baseUrl.getD provider.baseUrl
        apiKey := match updates.apiKey with
          | none => provider.apiKey
          | some s => if s = "" then none else some s
        enabled := updates.enabled.getD provider.enabled
        updatedAt := now }
    .perform (Tables.updateProviderRows provider.id fun r =>
      { r with
        name := provider.name
        type := provider.providerType.toDb
        baseUrl := provider.baseUrl
        apiKey := provider.apiKey
        enabled := provider.enabled
        updatedAt := timestamp provider.updatedAt })
    return provider

def deleteProvider (id : String) : Prog Tables DbError Bool := do
  let rows ← .perform (Tables.deleteProviderRows id)
  return rows > 0

def insertModel (newId : String) (now : DateTime) (model : Model) : Prog Tables DbError Model :=
  let model :=
    { model with
      id := if model.id = "" then newId else model.id
      createdAt := now
      updatedAt := now }
  let row : ModelRow :=
    { id := model.id
      name := model.name
      providerId := model.providerId
      upstreamModel := model.upstreamModel
      enabled := model.enabled
      createdAt := timestamp model.createdAt
      updatedAt := timestamp model.updatedAt }
  do
    let found ← .query fun t : Tables =>
      (t.hasProvider model.providerId,t.models.any fun r => r.name == model.name)
    if ¬found.1 then .throw (.notFound ("Provider '" ++ model.providerId ++ "' not found"))
    else if found.2 then .throw (.duplicate ("Model '" ++ model.name ++ "' already exists"))
    else do
      .perform (Tables.insertModelRow row)
      return model

def updateModel (now : DateTime) (updates : ModelUpdate) : Prog Tables DbError Model := do
  let found ← .query fun t : Tables =>
    (t.models.find? fun r => r.name == updates.name).map rowToModel
  match found with
  | none => .throw (.notFound ("Model '" ++ updates.name ++ "' not found"))
  | some model =>
    let model :=
      { model with
        providerId := updates.providerId.getD model.providerId
        upstreamModel := updates.upstreamModel.getD model.upstreamModel
        enabled := updates.enabled.getD model.enabled
        updatedAt := now }
    .perform (Tables.updateModelRows updates.name fun r =>
      { r with
        providerId := model.providerId
        upstreamModel := model.upstreamModel
        enabled := model.enabled
        updatedAt := timestamp model.updatedAt })
    return model

def deleteModel (name : String) : Prog Tables DbError Bool := do
  let rows ← .perform (Tables.deleteModelRows name)
  return rows > 0

/-- `rawKey` is the generated key and `newId` the generated UUID. -/
def insertApiKey (hashKey : String → String) (newId rawKey : String) (now : DateTime)
    (name : String) (expiresAt : Option DateTime) : Prog Tables DbError (ApiKey × String) :=
  let hash := hashKey rawKey
  let row : ApiKeyRow :=
    { id := newId
      keyHash := hash
      display := maskApiKey rawKey
      name := name
      enabled := true
      createdAt := timestamp now
      updatedAt := timestamp now
      expiresAt := expiresAt.map timestamp }
  let stored : ApiKey :=
    { id := newId
      key := hash
      display := maskApiKey rawKey
      name := name
      createdAt := now
      updatedAt := now
      enabled := true
      expiresAt := expiresAt }
  do
    .perform (Tables.insertApiKeyRow row)
    return (stored,rawKey)

def updateApiKey (now : DateTime) (updates : ApiKeyUpdate) :
    Prog Tables DbError (ApiKey × String) := do
  let found ← .query fun t : Tables => (t.apiKeys.find? fun r => r.id == updates.id).map rowToApiKey
  match found with
  | none => .throw (.notFound "API key not found")
  | some apiKey =>
    let apiKey :=
      { apiKey with
        name := updates.name.getD apiKey.name
        enabled := updates.enabled.getD apiKey.enabled
        expiresAt := match updates.expiresAt with
          | none => apiKey.expiresAt
          | some t => if timestamp t = 0 then none else some t
        updatedAt := now }
    .perform (Tables.updateApiKeyRows apiKey.id fun r =>
      { r with
        name := apiKey.name
        enabled := apiKey.enabled
        expiresAt := apiKey.expiresAt.map timestamp
        updatedAt := timestamp apiKey.updatedAt })
    return (apiKey,apiKey.key)

/-- Returns the hash of the deleted key. -/
def deleteApiKey (keyId : String) : Prog Tables DbError String := do
  let found ← .query fun t : Tables =>
    (t.apiKeys.find? fun r => r.id == keyId).map ApiKeyRow.keyHash
  match found with
  | none => .throw (.notFound "API key not found")
  | some hash =>
    .perform (Tables.deleteApiKeyRows keyId)
    return hash

section Denote

variable (db : Database)

def outcome {A : Type} (x : Except DbError (A × Database)) : Except DbError (A × Tables) :=
  x.map fun r => (r.1,r.2.toTables)

@[simp] theorem outcome_execute {A : Type} (t : Tables) (a : A) :
    (((execute t).map fun db => ((),db.toTables)).bind fun r =>
      (Pure.pure a : Prog Tables DbError A).denote r.2) =
      outcome ((execute t).map fun db => (a,db)) := by
  cases execute t <;> rfl

@[simp] theorem insertProvider_denote (newId : String) (now : DateTime) (provider : Provider) :
    (insertProvider newId now provider).denote db.toTables =
      outcome (db.insertProvider newId now provider) := by
  simp only [insertProvider,Prog.denote_perform,Tables.insertProviderRow_eq]
  exact outcome_execute _ _

@[simp] theorem updateProvider_denote (now : DateTime) (updates : ProviderUpdate) :
    (updateProvider now updates).denote db.toTables = outcome (db.updateProvider now updates) := by
  simp only [updateProvider,Database.updateProvider,Database.getProvider,Prog.denote_query]
  cases (db.providers.find? fun r => r.id == updates.id).map rowToProvider with
  | none => rfl
  | some provider =>
    simp only [Prog.denote_perform]
    rw [Tables.updateProviderRows_eq db]
    · exact outcome_execute _ _
    · exact fun _ => rfl

theorem decide_countP_pos {R : Type} (p : R → Bool) (rows : List R) :
    decide (rows.countP p > 0) = rows.any p := by
  rw [Bool.eq_iff_iff,decide_eq_true_eq,gt_iff_lt,List.countP_pos_iff,List.any_eq_true]

@[simp] theorem deleteProvider_denote (id : String) :
    (deleteProvider id).denote db.toTables = outcome (.ok (db.deleteProvider id)) := by
  simp only [deleteProvider,Prog.denote_perform,Tables.deleteProviderRows,Except.bind,
    decide_countP_pos]
  rfl

@[simp] theorem insertModel_denote (newId : String) (now : DateTime) (model : Model) :
    (insertModel newId now model).denote db.toTables =
      outcome (db.insertModel newId now model) := by
  simp only [insertModel,Database.insertModel,Prog.denote_query,Tables.hasProvider]
  split
  · rfl
  · split
    · rfl
    · simp only [Prog.denote_perform,Tables.insertModelRow_eq]
      exact outcome_execute _ _

@[simp] theorem updateModel_denote (now : DateTime) (updates : ModelUpdate) :
    (updateModel now updates).denote db.toTables = outcome (db.updateModel now updates) := by
  simp only [updateModel,Database.updateModel,Database.getModel,Prog.denote_query]
  cases (db.models.find? fun r => r.name == updates.name).map rowToModel with
  | none => rfl
  | some model =>
    simp only [Prog.denote_perform]
    rw [Tables.updateModelRows_eq db]
    · exact outcome_execute _ _
    · exact fun _ => ⟨rfl,rfl⟩

@[simp] theorem deleteModel_denote (name : String) :
    (deleteModel name).denote db.toTables = outcome (.ok (db.deleteModel name)) := by
  simp only [deleteModel,Prog.denote_perform,Tables.deleteModelRows,Except.bind,decide_countP_pos]
  rfl

@[simp] theorem insertApiKey_denote (hashKey : String → String) (newId rawKey : String)
    (now : DateTime)
    (name : String) (expiresAt : Option DateTime) :
    (insertApiKey hashKey newId rawKey now name expiresAt).denote db.toTables =
      outcome (db.insertApiKey hashKey newId rawKey now name expiresAt) := by
  simp only [insertApiKey,Prog.denote_perform,Tables.insertApiKeyRow_eq]
  exact outcome_execute _ _

@[simp] theorem updateApiKey_denote (now : DateTime) (updates : ApiKeyUpdate) :
    (updateApiKey now updates).denote db.toTables = outcome (db.updateApiKey now updates) := by
  simp only [updateApiKey,Database.updateApiKey,Database.getApiKey,Prog.denote_query]
  cases (db.apiKeys.find? fun r => r.id == updates.id).map rowToApiKey with
  | none => rfl
  | some apiKey =>
    simp only [Prog.denote_perform]
    rw [Tables.updateApiKeyRows_eq db]
    · exact outcome_execute _ _
    · exact fun _ => ⟨rfl,rfl⟩

@[simp] theorem deleteApiKey_denote (keyId : String) :
    (deleteApiKey keyId).denote db.toTables = outcome (db.deleteApiKey keyId) := by
  simp only [deleteApiKey,Database.deleteApiKey,Prog.denote_query]
  cases db.apiKeys.find? fun r => r.id == keyId <;> rfl

end Denote
end Writer

/-- A write with what its caller and the generators of ids and keys bring. -/
inductive StoreOp
  | insertProvider (newId : String) (now : DateTime) (provider : Provider)
  | updateProvider (now : DateTime) (updates : ProviderUpdate)
  | deleteProvider (id : String)
  | insertModel (newId : String) (now : DateTime) (model : Model)
  | updateModel (now : DateTime) (updates : ModelUpdate)
  | deleteModel (name : String)
  | insertApiKey (newId rawKey : String) (now : DateTime) (name : String)
      (expiresAt : Option DateTime)
  | updateApiKey (now : DateTime) (updates : ApiKeyUpdate)
  | deleteApiKey (keyId : String)

inductive StoreReply
  | provider (provider : Provider)
  | model (model : Model)
  | deleted (found : Bool)
  | apiKey (reply : ApiKey × String)
  | keyDeleted (hash : String)

namespace StoreOp

def answer {A : Type} (reply : A → StoreReply)
    (x : Connection Tables DbError → Except DbError A × Connection Tables DbError)
    (c : Connection Tables DbError) : Except DbError StoreReply × Connection Tables DbError :=
  ((x c).1.map reply,(x c).2)

/-- The writes of one statement and `delete_api_key` open no transaction. -/
def run (hashKey : String → String) :
    StoreOp → Connection Tables DbError → Except DbError StoreReply × Connection Tables DbError
  | .insertProvider newId now provider =>
    answer .provider (Connection.run (Writer.insertProvider newId now provider))
  | .updateProvider now updates =>
    answer .provider (Connection.transact (Writer.updateProvider now updates))
  | .deleteProvider id => answer .deleted (Connection.run (Writer.deleteProvider id))
  | .insertModel newId now model =>
    answer .model (Connection.transact (Writer.insertModel newId now model))
  | .updateModel now updates => answer .model (Connection.transact (Writer.updateModel now updates))
  | .deleteModel name => answer .deleted (Connection.run (Writer.deleteModel name))
  | .insertApiKey newId rawKey now name expiresAt =>
    answer .apiKey
      (Connection.transact (Writer.insertApiKey hashKey newId rawKey now name expiresAt))
  | .updateApiKey now updates =>
    answer .apiKey (Connection.transact (Writer.updateApiKey now updates))
  | .deleteApiKey keyId => answer .keyDeleted (Connection.run (Writer.deleteApiKey keyId))

/-- The same write on a `Database`. -/
def onDatabase (hashKey : String → String) (db : Database) :
    StoreOp → Except DbError (StoreReply × Database)
  | .insertProvider newId now provider =>
    (db.insertProvider newId now provider).map fun r => (.provider r.1,r.2)
  | .updateProvider now updates => (db.updateProvider now updates).map fun r => (.provider r.1,r.2)
  | .deleteProvider id => .ok (.deleted (db.deleteProvider id).1,(db.deleteProvider id).2)
  | .insertModel newId now model =>
    (db.insertModel newId now model).map fun r => (.model r.1,r.2)
  | .updateModel now updates => (db.updateModel now updates).map fun r => (.model r.1,r.2)
  | .deleteModel name => .ok (.deleted (db.deleteModel name).1,(db.deleteModel name).2)
  | .insertApiKey newId rawKey now name expiresAt =>
    (db.insertApiKey hashKey newId rawKey now name expiresAt).map fun r => (.apiKey r.1,r.2)
  | .updateApiKey now updates => (db.updateApiKey now updates).map fun r => (.apiKey r.1,r.2)
  | .deleteApiKey keyId => (db.deleteApiKey keyId).map fun r => (.keyDeleted r.1,r.2)

def perform (hashKey : String → String) (t : Tables) (op : StoreOp) (faults : List (Option String)) :
    Except DbError StoreReply × Tables :=
  let (reply,c) := op.run hashKey ⟨t,none,faults.map (Option.map DbError.storage)⟩
  (reply,c.committed)

/-- The content after a sequence of writes, each with the calls that fail in it. -/
def history (hashKey : String → String) (t : Tables)
    (ops : List (StoreOp × List (Option String))) : Tables :=
  ops.foldl (fun t op => (op.1.perform hashKey t op.2).2) t

section Simulation

variable {hashKey : String → String} {db : Database}

/-- The answer is that of `y` with its content committed, or an error that left the content. -/
def Simulates (db : Database) (y : Except DbError (StoreReply × Database))
    (x : Connection Tables DbError → Except DbError StoreReply × Connection Tables DbError) : Prop :=
  ∀ faults, ∃ rest,
    (∃ reply db', x ⟨db.toTables,none,faults⟩ = (.ok reply,⟨db'.toTables,none,rest⟩) ∧
      y = .ok (reply,db')) ∨
    ∃ e, x ⟨db.toTables,none,faults⟩ = (.error e,⟨db.toTables,none,rest⟩) ∧
      (some e ∈ faults ∨ y = .error e)

theorem simulates_of_atomic {A : Type}
    {x : Connection Tables DbError → Except DbError A × Connection Tables DbError}
    {f : Tables → Except DbError (A × Tables)} {y : Except DbError (A × Database)}
    (hx : Atomic x f) (hy : f db.toTables = Writer.outcome y) (reply : A → StoreReply) :
    Simulates db (y.map fun r => (reply r.1,r.2)) (answer reply x) := by
  intro faults
  obtain ⟨rest,-,⟨a,t',hrun,hf⟩ | ⟨e,hrun,hwhy⟩⟩ := hx db.toTables faults
  · obtain ⟨⟨a',db'⟩,rfl,hr⟩ := map_eq_ok.mp (hy.symm.trans hf)
    obtain ⟨rfl,rfl⟩ := Prod.mk.inj hr
    exact ⟨rest,.inl ⟨reply a',db',by simp only [answer,hrun]; rfl,rfl⟩⟩
  · refine ⟨rest,.inr ⟨e,by simp only [answer,hrun]; rfl,hwhy.imp_right fun hf => ?_⟩⟩
    rw [hy] at hf
    cases y with
    | ok r => cases hf
    | error e' =>
      obtain rfl := Except.error.inj hf
      rfl

theorem run_simulates (hashKey : String → String) (db : Database) (op : StoreOp) :
    Simulates db (op.onDatabase hashKey db) (op.run hashKey) := by
  cases op with
  | insertProvider newId now provider =>
    exact simulates_of_atomic (perform_atomic _ fun _ => _)
      (Writer.insertProvider_denote db newId now provider) _
  | updateProvider now updates =>
    exact simulates_of_atomic (transact_atomic _) (Writer.updateProvider_denote db now updates) _
  | deleteProvider id =>
    exact simulates_of_atomic (perform_atomic _ fun rows => decide (rows > 0))
      (Writer.deleteProvider_denote db id) _
  | insertModel newId now model =>
    exact simulates_of_atomic (transact_atomic _) (Writer.insertModel_denote db newId now model) _
  | updateModel now updates =>
    exact simulates_of_atomic (transact_atomic _) (Writer.updateModel_denote db now updates) _
  | deleteModel name =>
    exact simulates_of_atomic (perform_atomic _ fun rows => decide (rows > 0))
      (Writer.deleteModel_denote db name) _
  | insertApiKey newId rawKey now name expiresAt =>
    exact simulates_of_atomic (transact_atomic _)
      (Writer.insertApiKey_denote db hashKey newId rawKey now name expiresAt) _
  | updateApiKey now updates =>
    exact simulates_of_atomic (transact_atomic _) (Writer.updateApiKey_denote db now updates) _
  | deleteApiKey keyId =>
    refine simulates_of_atomic (query_atomic fun found => ?_) (Writer.deleteApiKey_denote db keyId) _
    cases found with
    | none => exact throw_atomic _
    | some hash => exact perform_atomic _ fun _ => hash

end Simulation

end StoreOp
end Ait
