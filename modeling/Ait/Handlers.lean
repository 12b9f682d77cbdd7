import Ait.AppState

/-!
# Mutating handlers

A handler validates its input, runs one database write on a blocking thread and
then removes the cache entries the write made stale. The write and the removals
are separate steps, so `Committed` hands over the list of removals still to do;
`Invalidation.apply` performs one of them.
-/

namespace Ait

/-- Unicode `White_Space`, as `str::trim` uses it. -/
def isWhitespace (c : Char) : Bool :=
  let n := c.toNat
  (9 ≤ n && n ≤ 13) || n == 0x20 || n == 0x85 || n == 0xA0 || n == 0x1680 ||
    (0x2000 ≤ n && n ≤ 0x200A) || n == 0x2028 || n == 0x2029 || n == 0x202F || n == 0x205F ||
    n == 0x3000

def trim (s : String) : String :=
  String.ofList ((s.toList.dropWhile isWhitespace).rdropWhile isWhitespace)

def validateString (value fieldName : String) (max : ℕ) (allowedChars : Char → Bool) :
    Except AitError String :=
  let trimmed := trim value
  if trimmed = "" then .error (.badRequest (fieldName ++ " must not be empty"))
  else if trimmed.utf8ByteSize > max then
    .error (.badRequest (fieldName ++ " must not exceed " ++ toString max ++ " characters"))
  else if ¬ trimmed.toList.all allowedChars then
    .error (.badRequest (fieldName ++ " contains invalid characters"))
  else .ok trimmed

def identChars (c : Char) : Bool := c.isAlphanum || [' ','_','-','.'].contains c

def modelNameChars (c : Char) : Bool := c.isAlphanum || [' ','_','-','.',':'].contains c

def upstreamModelChars (c : Char) : Bool :=
  c.isAlphanum || [' ','_','-','.',':','/','(',')','@'].contains c

def uuidChars (c : Char) : Bool :=
  c.isDigit || ('a' ≤ c && c ≤ 'f') || ('A' ≤ c && c ≤ 'F') || c == '-'

def validateOptional (value : Option String) (fieldName : String) (max : ℕ)
    (allowedChars : Char → Bool) : Except AitError (Option String) :=
  match value with
  | none => .ok none
  | some v => (validateString v fieldName max allowedChars).map some

/-- The verdicts of `validate_base_url` (the normalized URL) and of
`check_ssrf_config`; they rest on URL parsing and on DNS answers. -/
structure UrlChecks where
  validateBaseUrl : String → Except AitError String
  checkSsrfConfig : String → Except AitError Unit

inductive Invalidation
  | keyRemove (hash : String)
  | negativeKeyRemove (hash : String)
  | revisionBump
  | modelRemove (name : String)
  | modelRetain (providerId : String)
  | negativeModelRemove (name : String)
  | negativeModelClear
  | providerRemove (providerId : String)
  | pinnedClear
  deriving DecidableEq

namespace Invalidation

def apply : Invalidation → AppState → AppState
  | .keyRemove hash,s => { s with apiKeyCache := s.apiKeyCache.remove hash }
  | .negativeKeyRemove hash,s => { s with negativeKeyCache := s.negativeKeyCache.remove hash }
  | .revisionBump,s => { s with keyRevision := (s.keyRevision+1) % 2^64 }
  | .modelRemove name,s => { s with modelCache := s.modelCache.remove name }
  | .modelRetain providerId,s =>
    { s with modelCache := s.modelCache.retain fun _ v => v.1.2.id != providerId }
  | .negativeModelRemove name,s =>
    { s with negativeModelCache := s.negativeModelCache.remove name }
  | .negativeModelClear,s => { s with negativeModelCache := .empty }
  | .providerRemove providerId,s => { s with providerCache := s.providerCache.remove providerId }
  | .pinnedClear,s => { s with pinnedClients := .empty }

end Invalidation

/-- A write that took effect, and the removals its handler performs next. -/
structure Committed (A : Type) where
  reply : A
  db : Database
  stale : List Invalidation

def Committed.finish {A : Type} (c : Committed A) (s : AppState) : AppState :=
  c.stale.foldl (fun s i => i.apply s) { s with db := c.db }

structure CreateApiKeyRequest where
  name : String
  expiresAt : Option ℤ := none

structure UpdateApiKeyRequest where
  name : Option String := none
  expiresAt : Option ℤ := none
  enabled : Option Bool := none

def parseExpiresAt (secs : ℤ) : Except AitError DateTime :=
  match fromTimestamp secs with
  | some t => .ok t
  | none => .error (.badRequest "Invalid expires_at")

/-- A request that leaves the expiry out or sets it to zero asks for none. -/
def requestedExpiry (expiresAt : Option ℤ) : Except AitError (Option DateTime) :=
  match expiresAt.filter (· ≠ 0) with
  | none => .ok none
  | some secs => (parseExpiresAt secs).map some

/-- `rawKey` and `newId` are the values generated for the new row. -/
def createApiKey (hashKey : String → String) (now : DateTime) (input : CreateApiKeyRequest)
    (newId rawKey : String) (db : Database) : Except AitError (Committed (ApiKey × String)) := do
  let expiresAt ← requestedExpiry input.expiresAt
  let name ← validateString input.name "name" 128 identChars
  match db.insertApiKey hashKey newId rawKey now name expiresAt with
  | .error _ => throw .internalError
  | .ok (reply,db) => pure ⟨reply,db,[]⟩

def deleteApiKey (keyId : String) (db : Database) : Except AitError (Committed Unit) :=
  match db.deleteApiKey keyId with
  | .error e => .error (.fromDbError e)
  | .ok (hash,db) => .ok ⟨(),db,[.keyRemove hash,.revisionBump]⟩

/-- A blank name is ignored. -/
def patchedName (name : Option String) : Except AitError (Option String) :=
  match name with
  | none => .ok none
  | some n =>
    let t := trim n
    if t = "" then .ok none else (validateString t "name" 128 identChars).map some

/-- A zero expiry is passed on as the epoch, which clears the stored one. -/
def patchedExpiry (expiresAt : Option ℤ) : Except AitError (Option DateTime) :=
  match expiresAt with
  | none => .ok none
  | some secs => if secs = 0 then .ok (some unixEpoch) else (parseExpiresAt secs).map some

def apiKeyPatch (keyId : String) (input : UpdateApiKeyRequest) : Except AitError ApiKeyUpdate := do
  let name ← patchedName input.name
  let expiresAt ← patchedExpiry input.expiresAt
  pure { id := keyId,name := name,enabled := input.enabled,expiresAt := expiresAt }

def updateApiKey (now : DateTime) (keyId : String) (input : UpdateApiKeyRequest)
    (db : Database) : Except AitError (Committed ApiKey) := do
  let updates ← apiKeyPatch keyId input
  match db.updateApiKey now updates with
  | .error e => throw (.fromDbError e)
  | .ok ((updated,hash),db) =>
    pure ⟨updated,db,[.keyRemove hash,.negativeKeyRemove hash,.revisionBump]⟩

structure CreateProviderRequest where
  name : String
  providerType : ProviderType
  baseUrl : String
  apiKey : Option String
  enabled : Bool

structure UpdateProviderRequest where
  name : Option String := none
  providerType : Option ProviderType := none
  baseUrl : Option String := none
  apiKey : Option String := none
  enabled : Option Bool := none

def checkUpstreamKey (apiKey : Option String) : Except AitError (Option String) :=
  if apiKey.any (·.utf8ByteSize > 512) then
    .error (.badRequest "api_key must not exceed 512 characters")
  else .ok apiKey

def UrlChecks.baseUrl (checks : UrlChecks) (url : String) : Except AitError String := do
  checks.validateBaseUrl (← validateString url "base_url" 1024 fun _ => true)

def createProviderHandler (checks : UrlChecks) (now : DateTime) (input : CreateProviderRequest)
    (newId : String) (db : Database) : Except AitError (Committed Provider) := do
  let name ← validateString input.name "name" 128 identChars
  let url ← checks.baseUrl input.baseUrl
  checks.checkSsrfConfig url
  let apiKey ← checkUpstreamKey ((input.apiKey.map trim).filter (· ≠ ""))
  let provider : Provider :=
    { id := ""
      name := name
      providerType := input.providerType
      baseUrl := url
      apiKey := apiKey
      enabled := input.enabled
      createdAt := unixEpoch
      updatedAt := unixEpoch }
  match db.insertProvider newId now provider with
  | .error e => throw (.fromDbError e)
  | .ok (inserted,db) => pure ⟨inserted,db,[]⟩

def providerPatch (checks : UrlChecks) (id : String) (input : UpdateProviderRequest) :
    Except AitError ProviderUpdate := do
  let name ← validateOptional input.name "name" 128 identChars
  let url ← input.baseUrl.mapM checks.baseUrl
  let apiKey ← checkUpstreamKey (input.apiKey.map trim)
  url.forM checks.checkSsrfConfig
  pure
    { id := id
      name := name
      providerType := input.providerType
      baseUrl := url
      apiKey := apiKey
      enabled := input.enabled }

/-- What update and delete of a provider drop: its client, its models, every
"unknown model" verdict and all pinned clients. -/
def providerStale (id : String) : List Invalidation :=
  [.providerRemove id,.modelRetain id,.negativeModelClear,.pinnedClear]

def updateProvider (checks : UrlChecks) (now : DateTime) (id : String)
    (input : UpdateProviderRequest) (db : Database) : Except AitError (Committed Provider) := do
  let updates ← providerPatch checks id input
  match db.updateProvider now updates with
  | .error e => throw (.fromDbError e)
  | .ok (provider,db) => pure ⟨provider,db,providerStale id⟩

def deleteProvider (id : String) (db : Database) : Except AitError (Committed Unit) :=
  match db.deleteProvider id with
  | (false,_) => .error (.notFound ("Provider '" ++ id ++ "' not found"))
  | (true,db) => .ok ⟨(),db,providerStale id⟩

structure CreateModelRequest where
  name : String
  providerId : String
  upstreamModel : String
  enabled : Bool

structure UpdateModelRequest where
  providerId : Option String := none
  upstreamModel : Option String := none
  enabled : Option Bool := none

def createModel (now : DateTime) (input : CreateModelRequest) (newId : String)
    (db : Database) : Except AitError (Committed Model) := do
  let name ← validateString input.name "name" 128 modelNameChars
  let providerId ← validateString input.providerId "provider_id" 40 uuidChars
  let upstreamModel ← validateString input.upstreamModel "upstream_model" 128 upstreamModelChars
  let model : Model :=
    { id := ""
      name := name
      providerId := providerId
      upstreamModel := upstreamModel
      enabled := input.enabled
      createdAt := unixEpoch
      updatedAt := unixEpoch }
  match db.insertModel newId now model with
  | .error e => throw (.fromDbError e)
  | .ok (inserted,db) => pure ⟨inserted,db,[.negativeModelRemove inserted.name]⟩

def deleteModel (name : String) (db : Database) : Except AitError (Committed Unit) :=
  match db.deleteModel name with
  | (false,_) => .error (.notFound ("Model '" ++ name ++ "' not found"))
  | (true,db) => .ok ⟨(),db,[.modelRemove name]⟩

def modelPatch (name : String) (input : UpdateModelRequest) : Except AitError ModelUpdate := do
  let modelName ← validateString name "name" 128 modelNameChars
  let providerId ← validateOptional input.providerId "provider_id" 40 uuidChars
  let upstreamModel ← validateOptional input.upstreamModel "upstream_model" 128 upstreamModelChars
  pure
    { name := modelName
      providerId := providerId
      upstreamModel := upstreamModel
      enabled := input.enabled }

def updateModel (now : DateTime) (name : String) (input : UpdateModelRequest)
    (db : Database) : Except AitError (Committed Model) := do
  let updates ← modelPatch name input
  match db.updateModel now updates with
  | .error e => throw (.fromDbError e)
  | .ok (model,db) =>
    pure ⟨model,db,[.modelRemove updates.name,.negativeModelRemove updates.name]⟩

end Ait
