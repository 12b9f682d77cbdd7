import Ait.Records

/-!
# The SQLite store

Three tables under the declared schema. A statement that would break a
constraint fails and changes nothing, so a `Database` carries the schema as a
field: a table content that violates it cannot be built.
-/

namespace Ait

theorem map_eq_ok {E A B : Type} {x : Except E A} {f : A → B} {b : B} :
    x.map f = .ok b ↔ ∃ a, x = .ok a ∧ f a = b := by
  cases x <;> simp [Except.map]

theorem bind_eq_ok {E A B : Type} {x : Except E A} {f : A → Except E B} {b : B} :
    (x >>= f) = .ok b ↔ ∃ a, x = .ok a ∧ f a = .ok b := by
  cases x <;> simp [bind,Except.bind]

structure ProviderRow where
  id : String
  name : String
  type : String
  baseUrl : String
  apiKey : Option String
  enabled : Bool
  createdAt : ℤ
  updatedAt : ℤ
  deriving DecidableEq

structure ModelRow where
  id : String
  name : String
  providerId : String
  upstreamModel : String
  enabled : Bool
  createdAt : ℤ
  updatedAt : ℤ
  deriving DecidableEq

structure ApiKeyRow where
  id : String
  keyHash : String
  display : String
  name : String
  enabled : Bool
  createdAt : ℤ
  updatedAt : ℤ
  expiresAt : Option ℤ
  deriving DecidableEq

structure Tables where
  providers : List ProviderRow
  models : List ModelRow
  apiKeys : List ApiKeyRow
  deriving DecidableEq

/-- `create_tables`: primary keys, `UNIQUE` columns and the one foreign key. -/
structure Tables.Schema (t : Tables) : Prop where
  providerId : (t.providers.map ProviderRow.id).Nodup
  modelId : (t.models.map ModelRow.id).Nodup
  modelName : (t.models.map ModelRow.name).Nodup
  modelProvider : ∀ m ∈ t.models, m.providerId ∈ t.providers.map ProviderRow.id
  keyId : (t.apiKeys.map ApiKeyRow.id).Nodup
  keyHash : (t.apiKeys.map ApiKeyRow.keyHash).Nodup

instance (t : Tables) : Decidable t.Schema :=
  decidable_of_iff
    ((t.providers.map ProviderRow.id).Nodup ∧ (t.models.map ModelRow.id).Nodup ∧
      (t.models.map ModelRow.name).Nodup ∧
      (∀ m ∈ t.models, m.providerId ∈ t.providers.map ProviderRow.id) ∧
      (t.apiKeys.map ApiKeyRow.id).Nodup ∧ (t.apiKeys.map ApiKeyRow.keyHash).Nodup)
    ⟨fun ⟨a,b,c,d,e,f⟩ => ⟨a,b,c,d,e,f⟩,fun ⟨a,b,c,d,e,f⟩ => ⟨a,b,c,d,e,f⟩⟩

structure Database extends Tables where
  schema : toTables.Schema

def execute (t : Tables) : Except DbError Database :=
  if h : t.Schema then .ok ⟨t,h⟩ else .error (.storage "constraint failed")

theorem execute_ok {t : Tables} {db : Database} (h : execute t = .ok db) :
    db.providers = t.providers ∧ db.models = t.models ∧ db.apiKeys = t.apiKeys := by
  unfold execute at h
  split at h
  · cases h
    exact ⟨rfl,rfl,rfl⟩
  · cases h

def ts (secs : ℤ) : DateTime := (fromTimestamp secs).getD unixEpoch

def optTs (secs : Option ℤ) : Option DateTime := secs.map ts

def rowToProvider (r : ProviderRow) : Provider where
  id := r.id
  name := r.name
  providerType := .fromDb r.type
  baseUrl := r.baseUrl
  apiKey := r.apiKey
  enabled := r.enabled
  createdAt := ts r.createdAt
  updatedAt := ts r.updatedAt

def rowToModel (r : ModelRow) : Model where
  id := r.id
  name := r.name
  providerId := r.providerId
  upstreamModel := r.upstreamModel
  enabled := r.enabled
  createdAt := ts r.createdAt
  updatedAt := ts r.updatedAt

def rowToApiKey (r : ApiKeyRow) : ApiKey where
  id := r.id
  key := r.keyHash
  display := r.display
  name := r.name
  createdAt := ts r.createdAt
  updatedAt := ts r.updatedAt
  enabled := r.enabled
  expiresAt := optTs r.expiresAt

def rowToApiKeyInfo (r : ApiKeyRow) : ApiKeyInfo where
  id := r.id
  name := r.name
  enabled := r.enabled
  expiresAt := optTs r.expiresAt
  createdAt := ts r.createdAt

namespace Database

def getProvider (db : Database) (id : String) : Option Provider :=
  (db.providers.find? fun r => r.id == id).map rowToProvider

/-- `newId` is the generated UUID, used when the record brings none. -/
def insertProvider (db : Database) (newId : String) (now : DateTime) (provider : Provider) :
    Except DbError (Provider × Database) :=
  let provider :=
    { provider with
      id := if provider.id = "" then newId else provider.id
      createdAt := now
      updatedAt := now }
  let row : ProviderRow :=
    { id := provider.id
      name := provider.name
      type := provider.providerType.toDb
      baseUrl := provider.baseUrl
      apiKey := provider.apiKey
      enabled := provider.enabled
      createdAt := timestamp provider.createdAt
      updatedAt := timestamp provider.updatedAt }
  (execute { db.toTables with providers := db.providers ++ [row] }).map fun db => (provider,db)

def updateProvider (db : Database) (now : DateTime) (updates : ProviderUpdate) :
    Except DbError (Provider × Database) :=
  match db.getProvider updates.id with
  | none => .error (.notFound ("Provider '" ++ updates.id ++ "' not found"))
  | some provider =>
    let provider :=
      { provider with
        name := updates.name.getD provider.name
        providerType := updates.providerType.getD provider.providerType
        baseUrl := updates.baseUrl.getD provider.baseUrl
        apiKey := match updates.apiKey with
          | none => provider.apiKey
          | some s => if s = "" then none else some s
        enabled := updates.enabled.getD provider.enabled
        updatedAt := now }
    let set (r : ProviderRow) : ProviderRow :=
      { r with
        name := provider.name
        type := provider.providerType.toDb
        baseUrl := provider.baseUrl
        apiKey := provider.apiKey
        enabled := provider.enabled
        updatedAt := timestamp provider.updatedAt }
    (execute
      { db.toTables with
        providers := db.providers.map fun r => if r.id = provider.id then set r else r }).map
      fun db => (provider,db)

/-- The models of the provider go with it (`ON DELETE CASCADE`). -/
def deleteProvider (db : Database) (id : String) : Bool × Database :=
  (db.providers.any fun r => r.id == id,
    { providers := db.providers.filter fun r => r.id != id
      models := db.models.filter fun r => r.providerId != id
      apiKeys := db.apiKeys
      schema :=
        { providerId := db.schema.providerId.sublist (List.filter_sublist.map _)
          modelId := db.schema.modelId.sublist (List.filter_sublist.map _)
          modelName := db.schema.modelName.sublist (List.filter_sublist.map _)
          modelProvider := by
            intro m hm
            obtain ⟨hm,hne⟩ := List.mem_filter.mp hm
            obtain ⟨r,hr,he⟩ := List.mem_map.mp (db.schema.modelProvider m hm)
            refine List.mem_map.mpr ⟨r,List.mem_filter.mpr ⟨hr,?_⟩,he⟩
            simpa [he] using hne
          keyId := db.schema.keyId
          keyHash := db.schema.keyHash } })

def getModel (db : Database) (name : String) : Option Model :=
  (db.models.find? fun r => r.name == name).map rowToModel

def insertModel (db : Database) (newId : String) (now : DateTime) (model : Model) :
    Except DbError (Model × Database) :=
  let model :=
    { model with
      id := if model.id = "" then newId else model.id
      createdAt := now
      updatedAt := now }
  if ¬ db.providers.any (fun r => r.id == model.providerId) then
    .error (.notFound ("Provider '" ++ model.providerId ++ "' not found"))
  else if db.models.any (fun r => r.name == model.name) then
    .error (.duplicate ("Model '" ++ model.name ++ "' already exists"))
  else
    let row : ModelRow :=
      { id := model.id
        name := model.name
        providerId := model.providerId
        upstreamModel := model.upstreamModel
        enabled := model.enabled
        createdAt := timestamp model.createdAt
        updatedAt := timestamp model.updatedAt }
    (execute { db.toTables with models := db.models ++ [row] }).map fun db => (model,db)

def updateModel (db : Database) (now : DateTime) (updates : ModelUpdate) :
    Except DbError (Model × Database) :=
  match db.getModel updates.name with
  | none => .error (.notFound ("Model '" ++ updates.name ++ "' not found"))
  | some model =>
    let model :=
      { model with
        providerId := updates.providerId.getD model.providerId
        upstreamModel := updates.upstreamModel.getD model.upstreamModel
        enabled := updates.enabled.getD model.enabled
        updatedAt := now }
    let set (r : ModelRow) : ModelRow :=
      { r with
        providerId := model.providerId
        upstreamModel := model.upstreamModel
        enabled := model.enabled
        updatedAt := timestamp model.updatedAt }
    (execute
      { db.toTables with
        models := db.models.map fun r => if r.name = updates.name then set r else r }).map
      fun db => (model,db)

def deleteModel (db : Database) (name : String) : Bool × Database :=
  (db.models.any fun r => r.name == name,
    { providers := db.providers
      models := db.models.filter fun r => r.name != name
      apiKeys := db.apiKeys
      schema :=
        { providerId := db.schema.providerId
          modelId := db.schema.modelId.sublist (List.filter_sublist.map _)
          modelName := db.schema.modelName.sublist (List.filter_sublist.map _)
          modelProvider := fun m hm => db.schema.modelProvider m (List.mem_filter.mp hm).1
          keyId := db.schema.keyId
          keyHash := db.schema.keyHash } })

/-- The join the proxy path resolves through: an enabled model of an enabled provider. -/
def resolveModel (db : Database) (modelName : String) : Option (Model × Provider) :=
  db.models.findSome? fun m =>
    if m.name = modelName ∧ m.enabled then
      (db.providers.find? fun p => p.id == m.providerId && p.enabled).map
        fun p => (rowToModel m,rowToProvider p)
    else none

/-- `SELECT ... FROM api_keys WHERE key_hash = ?1`. -/
def keyInfo (db : Database) (hash : String) : Option ApiKeyInfo :=
  (db.apiKeys.find? fun r => r.keyHash == hash).map rowToApiKeyInfo

section Hashed

variable (hashKey : String → String)

def getApiKeyByRaw (db : Database) (apiKey : String) : Option ApiKeyInfo :=
  db.keyInfo (hashKey apiKey)

/-- `rawKey` is the generated key and `newId` the generated UUID. -/
def insertApiKey (db : Database) (newId rawKey : String) (now : DateTime) (name : String)
    (expiresAt : Option DateTime) : Except DbError ((ApiKey × String) × Database) :=
  let hash := hashKey rawKey
  let row : ApiKeyRow :=
    { id := newId
      keyHash := hash
      display := maskApiKey rawKey
      name := name
      enabled := true
      createdAt := timestamp now
      updatedAt := timestamp now
      expiresAt := expiresAt.map timestamp }
  let stored : ApiKey :=
    { id := newId
      key := hash
      display := maskApiKey rawKey
      name := name
      createdAt := now
      updatedAt := now
      enabled := true
      expiresAt := expiresAt }
  (execute { db.toTables with apiKeys := db.apiKeys ++ [row] }).map fun db => ((stored,rawKey),db)

end Hashed

def getApiKey (db : Database) (id : String) : Option ApiKey :=
  (db.apiKeys.find? fun r => r.id == id).map rowToApiKey

/-- Returns the hash of the deleted key. -/
def deleteApiKey (db : Database) (keyId : String) : Except DbError (String × Database) :=
  match db.apiKeys.find? fun r => r.id == keyId with
  | none => .error (.notFound "API key not found")
  | some row => .ok (row.keyHash,
    { providers := db.providers
      models := db.models
      apiKeys := db.apiKeys.filter fun r => r.id != keyId
      schema :=
        { db.schema with
          keyId := db.schema.keyId.sublist (List.filter_sublist.map _)
          keyHash := db.schema.keyHash.sublist (List.filter_sublist.map _) } })

/-- Returns the updated key and its hash. -/
def updateApiKey (db : Database) (now : DateTime) (updates : ApiKeyUpdate) :
    Except DbError ((ApiKey × String) × Database) :=
  match db.getApiKey updates.id with
  | none => .error (.notFound "API key not found")
  | some apiKey =>
    let apiKey :=
      { apiKey with
        name := updates.name.getD apiKey.name
        enabled := updates.enabled.getD apiKey.enabled
        expiresAt := match updates.expiresAt with
          | none => apiKey.expiresAt
          | some t => if timestamp t = 0 then none else some t
        updatedAt := now }
    let set (r : ApiKeyRow) : ApiKeyRow :=
      { r with
        name := apiKey.name
        enabled := apiKey.enabled
        expiresAt := apiKey.expiresAt.map timestamp
        updatedAt := timestamp apiKey.updatedAt }
    (execute
      { db.toTables with
        apiKeys := db.apiKeys.map fun r => if r.id = apiKey.id then set r else r }).map
      fun db => ((apiKey,apiKey.key),db)

end Database
end Ait
