import Mathlib

/-!
# Records and errors

The records the database layer reads and writes, their partial updates, and the
errors the handlers answer with.
-/

namespace Ait

/-- A UTC instant, in nanoseconds since the epoch. -/
abbrev DateTime := ℤ

/-- Whole seconds since the epoch, rounded down. -/
def timestamp (t : DateTime) : ℤ := t / 1000000000

def unixEpoch : DateTime := 0

/-- `DateTime::from_timestamp(secs, 0)`; `none` outside the representable years. -/
def fromTimestamp (secs : ℤ) : Option DateTime :=
  if -8334601228800 ≤ secs ∧ secs ≤ 8210266876799 then some (secs*1000000000) else none

inductive ProviderType
  | openAICompat | deepSeek | zhipu | ollama | llamacpp
  deriving DecidableEq

namespace ProviderType

def toDb : ProviderType → String
  | .openAICompat => "openai_compat"
  | .deepSeek => "deepseek"
  | .zhipu => "zhipu"
  | .ollama => "ollama"
  | .llamacpp => "llamacpp"

/-- An unknown text reads as the default type. -/
def fromDb (s : String) : ProviderType :=
  if s = "deepseek" then .deepSeek
  else if s = "zhipu" then .zhipu
  else if s = "ollama" then .ollama
  else if s = "llamacpp" then .llamacpp
  else .openAICompat

@[simp] theorem fromDb_toDb (t : ProviderType) : fromDb t.toDb = t := by
  cases t <;> decide

end ProviderType

structure Provider where
  id : String
  name : String
  providerType : ProviderType
  baseUrl : String
  apiKey : Option String
  enabled : Bool
  createdAt : DateTime
  updatedAt : DateTime
  deriving DecidableEq

structure Model where
  id : String
  name : String
  providerId : String
  upstreamModel : String
  enabled : Bool
  createdAt : DateTime
  updatedAt : DateTime
  deriving DecidableEq

structure ApiKey where
  id : String
  key : String
  display : String
  name : String
  createdAt : DateTime
  updatedAt : DateTime
  enabled : Bool
  expiresAt : Option DateTime
  deriving DecidableEq

structure ApiKeyInfo where
  id : String
  name : String
  enabled : Bool
  expiresAt : Option DateTime
  createdAt : DateTime
  deriving DecidableEq

/-- Identity of the key that served a request; no name while authentication is off. -/
structure ApiKeyContext where
  name : Option String
  deriving DecidableEq

/-- Partial update of a provider; `apiKey := some ""` clears the stored key. -/
structure ProviderUpdate where
  id : String
  name : Option String := none
  providerType : Option ProviderType := none
  baseUrl : Option String := none
  apiKey : Option String := none
  enabled : Option Bool := none
  deriving DecidableEq

structure ModelUpdate where
  name : String
  providerId : Option String := none
  upstreamModel : Option String := none
  enabled : Option Bool := none
  deriving DecidableEq

/-- Partial update of a key; an `expiresAt` at the epoch clears the expiry. -/
structure ApiKeyUpdate where
  id : String
  name : Option String := none
  enabled : Option Bool := none
  expiresAt : Option DateTime := none
  deriving DecidableEq

inductive DbError
  | notFound (msg : String)
  | limitExceeded (msg : String)
  | duplicate (msg : String)
  | storage (msg : String)
  deriving DecidableEq

/-- The error body sent to clients; `detail` only reaches the logs. -/
structure AitError where
  message : String
  code : ℕ
  type : String
  detail : Option String := none
  deriving DecidableEq

namespace AitError

def badRequest (msg : String) : AitError :=
  { message := msg,code := 400,type := "invalid_request_error" }

def upstreamError (status : ℕ) (msg : String) : AitError :=
  { message := msg,code := status,type := "upstream_error" }

def fromDbError : DbError → AitError
  | .notFound msg => { message := msg,code := 404,type := "not_found_error" }
  | .limitExceeded msg => { message := msg,code := 409,type := "invalid_request_error" }
  | .duplicate msg => { message := msg,code := 409,type := "invalid_request_error" }
  | .storage msg => { message := msg,code := 500,type := "internal_error" }

/-- The cause is only logged. -/
def internalError : AitError :=
  { message := "Internal server error",code := 500,type := "internal_error" }

def notFound (msg : String) : AitError :=
  { message := msg,code := 404,type := "not_found_error" }

def unauthorized (msg : String) : AitError :=
  { message := msg,code := 401,type := "auth_error" }

end AitError

/-- Keep `prefixLen` leading and `suffixLen` trailing characters, or nothing at all
when the two would meet. -/
def maskSensitiveValue (value : String) (prefixLen suffixLen : ℕ) : String :=
  let chars := value.toList
  if chars.length ≤ prefixLen+suffixLen then "******"
  else String.ofList (chars.take prefixLen) ++ "******" ++
    String.ofList (chars.drop (chars.length-suffixLen))

def maskApiKey (key : String) : String := maskSensitiveValue key 6 3

example : maskApiKey "sk-abc1234567890xyz" = "sk-abc******xyz" := by decide

end Ait
