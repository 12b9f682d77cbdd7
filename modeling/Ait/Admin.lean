import Ait.LogWorker
import Ait.Mutation
import Ait.SharedStore

/-!
# The admin API

Every request on providers, models and API keys with its status, its body and the audit
event it leaves. A write is one of the nine mutations; the reads answer from the tables. What
`run_blocking` and SQLite may add to that, a timeout or a failing call, is left to `Server` and
to `SharedStore`.
-/

namespace Ait
open Grouping

/-- Times are told in seconds, and of the upstream key no more than its mask. -/
structure ProviderResponse where
  id : String
  name : String
  providerType : ProviderType
  baseUrl : String
  apiKey : Option String
  enabled : Bool
  createdAt : ℤ
  updatedAt : ℤ
  deriving DecidableEq

def ProviderResponse.ofProvider (p : Provider) : ProviderResponse where
  id := p.id
  name := p.name
  providerType := p.providerType
  baseUrl := p.baseUrl
  apiKey := p.apiKey.map maskApiKey
  enabled := p.enabled
  createdAt := timestamp p.createdAt
  updatedAt := timestamp p.updatedAt

structure ModelResponse where
  id : String
  name : String
  providerId : String
  upstreamModel : String
  enabled : Bool
  createdAt : ℤ
  updatedAt : ℤ
  deriving DecidableEq

def ModelResponse.ofModel (m : Model) : ModelResponse where
  id := m.id
  name := m.name
  providerId := m.providerId
  upstreamModel := m.upstreamModel
  enabled := m.enabled
  createdAt := timestamp m.createdAt
  updatedAt := timestamp m.updatedAt

structure ApiKeyResponse where
  id : String
  key : String
  name : String
  createdAt : ℤ
  updatedAt : ℤ
  enabled : Bool
  expiresAt : Option ℤ
  deriving DecidableEq

/-- `ApiKey::masked`. -/
def ApiKey.masked (k : ApiKey) : String := k.display

/-- `key` is the raw key when it was just created, and its mask afterwards. -/
def ApiKeyResponse.ofApiKey (key : String) (k : ApiKey) : ApiKeyResponse where
  id := k.id
  key := key
  name := k.name
  createdAt := timestamp k.createdAt
  updatedAt := timestamp k.updatedAt
  enabled := k.enabled
  expiresAt := k.expiresAt.map timestamp

inductive AdminBody
  | provider (p : ProviderResponse)
  | providers (items : List ProviderResponse)
  | model (m : ModelResponse)
  | models (items : List ModelResponse)
  | apiKey (k : ApiKeyResponse)
  | apiKeys (items : List ApiKeyResponse)
  | empty
  deriving DecidableEq

/-- What a write leaves in the audit log, next to its time and its request. -/
structure AuditEntry where
  action : String
  resource : String
  resourceId : String
  deriving DecidableEq

def AuditEntry.event (e : AuditEntry) (now : DateTime) (requestId : String) : AuditEvent where
  timestamp := now
  requestId := requestId
  action := e.action
  resource := e.resource
  resourceId := e.resourceId
  detail := none

structure AdminReply where
  status : ℕ
  body : AdminBody
  audit : Option AuditEntry
  deriving DecidableEq

def Committed.map {A B : Type} (f : A → B) (c : Committed A) : Committed B := ⟨f c.reply,c.db,c.stale⟩

namespace AdminReply

def created (resource resourceId : String) (body : AdminBody) : AdminReply :=
  ⟨201,body,some ⟨"create",resource,resourceId⟩⟩

def updated (resource resourceId : String) (body : AdminBody) : AdminReply :=
  ⟨200,body,some ⟨"update",resource,resourceId⟩⟩

def deleted (resource resourceId : String) : AdminReply :=
  ⟨204,.empty,some ⟨"delete",resource,resourceId⟩⟩

end AdminReply

namespace Mutation

/-- The write of a handler, with what the handler answers once it has removed what is stale. -/
def respond (hashKey : String → String) :
    Mutation → Database → Except AitError (Committed AdminReply)
  | createApiKey now input newId rawKey,db =>
    (Ait.createApiKey hashKey now input newId rawKey db).map (Committed.map fun (stored,rawKey) =>
      .created "api_key" stored.id (.apiKey (.ofApiKey rawKey stored)))
  | deleteApiKey keyId,db =>
    (Ait.deleteApiKey keyId db).map (Committed.map fun _ => .deleted "api_key" keyId)
  | updateApiKey now keyId input,db =>
    (Ait.updateApiKey now keyId input db).map (Committed.map fun updated =>
      .updated "api_key" keyId (.apiKey (.ofApiKey updated.masked updated)))
  | createProvider checks now input newId,db =>
    (createProviderHandler checks now input newId db).map (Committed.map fun inserted =>
      .created "provider" inserted.id (.provider (.ofProvider inserted)))
  | updateProvider checks now id input,db =>
    (Ait.updateProvider checks now id input db).map (Committed.map fun provider =>
      .updated "provider" id (.provider (.ofProvider provider)))
  | deleteProvider id,db =>
    (Ait.deleteProvider id db).map (Committed.map fun _ => .deleted "provider" id)
  | createModel now input newId,db =>
    (Ait.createModel now input newId db).map (Committed.map fun inserted =>
      .created "model" inserted.name (.model (.ofModel inserted)))
  | deleteModel name,db =>
    (Ait.deleteModel name db).map (Committed.map fun _ => .deleted "model" name)
  | updateModel now name input,db =>
    (Ait.updateModel now name input db).map (Committed.map fun model =>
      .updated "model" (trim name) (.model (.ofModel model)))

@[simp] theorem respond_silent (hashKey : String → String) (m : Mutation) (db : Database) :
    (m.respond hashKey db).map Committed.silent = m.commit hashKey db := by
  have hmap {A B : Type} (f : A → B) (x : Except AitError (Committed A)) :
      (x.map (Committed.map f)).map Committed.silent = x.map Committed.silent := by
    cases x <;> rfl
  have hunit (x : Except AitError (Committed Unit)) : x.map Committed.silent = x := by
    cases x <;> rfl
  cases m with
  | deleteApiKey | deleteProvider | deleteModel => exact (hmap _ _).trans (hunit _)
  | _ => exact hmap _ _

end Mutation

inductive AdminRequest
  | write (m : Mutation)
  | listProviders (scan : Scan ProviderRow)
  | getProvider (id : String)
  | listModels (scan : Scan ModelRow)
  | getModel (name : String)
  | listApiKeys (scan : Scan ApiKeyRow)

namespace AdminRequest

def handle (hashKey : String → String) (db : Database) :
    AdminRequest → Except AitError AdminReply × Database
  | write m =>
    match m.respond hashKey db with
    | .ok c => (.ok c.reply,c.db)
    | .error e => (.error e,db)
  | listProviders scan =>
    (.ok ⟨200,.providers ((db.listProviders scan).map .ofProvider),none⟩,db)
  | getProvider id =>
    match db.getProvider id with
    | some provider => (.ok ⟨200,.provider (.ofProvider provider),none⟩,db)
    | none => (.error (.notFound ("Provider '" ++ id ++ "' not found")),db)
  | listModels scan => (.ok ⟨200,.models ((db.listModels scan).map .ofModel),none⟩,db)
  | getModel name =>
    match db.getModel name with
    | some model => (.ok ⟨200,.model (.ofModel model),none⟩,db)
    | none => (.error (.notFound ("Model '" ++ name ++ "' not found")),db)
  | listApiKeys scan =>
    (.ok ⟨200,.apiKeys ((db.listApiKeys scan).map fun k => .ofApiKey k.masked k),none⟩,db)

section Write

variable {hashKey : String → String} {m : Mutation} {db : Database}

theorem handle_write_ok {c : Committed AdminReply} (h : m.respond hashKey db = .ok c) :
    (write m).handle hashKey db = (.ok c.reply,c.db) := by
  simp only [handle,h]

theorem handle_write_error {e : AitError} (h : m.respond hashKey db = .error e) :
    (write m).handle hashKey db = (.error e,db) := by
  simp only [handle,h]

end Write
end AdminRequest
end Ait
