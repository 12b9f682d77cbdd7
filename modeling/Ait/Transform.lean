import Ait.AppState
import Ait.Json

/-!
# Rewriting upstream responses

Every provider puts the name the client asked for in place of the upstream's model
name. Ollama's reasoning fields are renamed and llama.cpp's timings dropped on the
way. `transformEvent` applies this to the `data:` lines of an event.
-/

namespace Ait

def injectDefaultShadow (val : Value) (modelName : String) : Value :=
  match val with
  | .object m =>
    .object ((Fields.insert m "model" (.string modelName)).insert "system_fingerprint"
      (.string "ait-proxy"))
  | val => val

/-- The old `reasoning_content` gives way where both keys are there. -/
def renameKey (m : Fields) : Fields :=
  match m.get "reasoning" with
  | some val => (m.remove "reasoning").insert "reasoning_content" val
  | none => m

mutual

/-- Renames inside the fields first; moving a field to its new key leaves its value alone. -/
def renameReasoningKey : Value → Value
  | .object m => .object (renameKey (renameInFields m))
  | .array items => .array (renameInItems items)
  | val => val

def renameInFields : List (String × Value) → List (String × Value)
  | [] => []
  | (key,val)::rest => (key,renameReasoningKey val)::renameInFields rest

def renameInItems : List Value → List Value
  | [] => []
  | val::rest => renameReasoningKey val::renameInItems rest

end

def removeTimings (val : Value) : Value :=
  match val with
  | .object m => .object (Fields.remove m "timings")
  | val => val

namespace UpstreamProvider

def rewrite (upstream : UpstreamProvider) (val : Value) (modelName : String) : Value :=
  match upstream with
  | .openAICompat _ => injectDefaultShadow val modelName
  | .ollama _ => renameReasoningKey (injectDefaultShadow val modelName)
  | .llamacpp _ => removeTimings (injectDefaultShadow val modelName)

/-- A body that is not JSON stays as it is. -/
def transformResponse (upstream : UpstreamProvider) (json : SerdeJson) (body : Bytes)
    (modelName : String) : Bytes :=
  match json.fromSlice body with
  | some val => (json.toVec (upstream.rewrite val modelName)).getD body
  | none => body

end UpstreamProvider

structure UsageTokens where
  promptTokens : Option ℤ := none
  completionTokens : Option ℤ := none
  totalTokens : Option ℤ := none
  cachedTokens : Option ℤ := none
  deriving DecidableEq

section Usage

/-- `total_tokens`: reported, or added up from both counts by the addition of a build. -/
def totalWith {m : Type → Type} [Monad m] (add : ℤ → ℤ → m ℤ)
    (reported prompt completion : Option ℤ) : m (Option ℤ) :=
  match reported,prompt,completion with
  | some total,_,_ => pure (some total)
  | none,some prompt,some completion => some <$> add prompt completion
  | none,_,_ => pure none

def parseUsageWith {m : Type → Type} [Monad m] (add : ℤ → ℤ → m ℤ) (json : SerdeJson)
    (body : Bytes) : m UsageTokens :=
  match json.fromSlice body with
  | none => pure {}
  | some val => do
    let usage := (val.get "usage").or ((val.get "response").bind fun r => r.get "usage")
    let count (key : String) : Option ℤ := usage.bind fun u => (u.get key).bind Value.asI64
    let promptTokens := (count "prompt_tokens").or (count "input_tokens")
    let completionTokens := (count "completion_tokens").or (count "output_tokens")
    let totalTokens ← totalWith add (count "total_tokens") promptTokens completionTokens
    let cached (details : Option Value) : Option ℤ :=
      details.bind fun d => (d.get "cached_tokens").bind Value.asI64
    let cachedTokens :=
      ((cached (usage.bind fun u =>
        (u.get "prompt_tokens_details").or (u.get "completion_tokens_details"))).or
      (cached (usage.bind fun u => u.get "input_tokens_details"))).or (cached usage)
    pure { promptTokens := promptTokens
           completionTokens := completionTokens
           totalTokens := totalTokens
           cachedTokens := cachedTokens }

/-- Addition of `i64` in a release build. -/
def wrappingAdd (a b : ℤ) : ℤ := Int.bmod (a+b) (2^64)

def releaseAdd (a b : ℤ) : Id ℤ := pure (wrappingAdd a b)

/-- `parse_usage` in a release build. -/
def parseUsage (json : SerdeJson) (body : Bytes) : UsageTokens :=
  (parseUsageWith releaseAdd json body).run

@[simp] theorem run_totalWith (reported prompt completion : Option ℤ) :
    (totalWith releaseAdd reported prompt completion).run =
      reported.or (prompt.bind fun a => completion.map fun b => wrappingAdd a b) := by
  cases reported with
  | some total => rfl
  | none => cases prompt <;> cases completion <;> rfl

end Usage

def UsageTokens.positive (tokens : UsageTokens) : Bool :=
  tokens.promptTokens.any (· > 0) || tokens.completionTokens.any (· > 0) ||
    tokens.totalTokens.any (· > 0)

def newline : UInt8 := 10

def carriageReturn : UInt8 := 13

def isTail (b : UInt8) : Bool := 0x80 ≤ b && b ≤ 0xBF

/-- `str::from_utf8` succeeds. -/
def validUtf8 : Bytes → Bool
  | [] => true
  | a::rest =>
    if a < 0x80 then validUtf8 rest
    else
      match rest with
      | [] => false
      | b::rest =>
        if 0xC2 ≤ a && a ≤ 0xDF then isTail b && validUtf8 rest
        else
          match rest with
          | [] => false
          | c::rest =>
            if a = 0xE0 then 0xA0 ≤ b && b ≤ 0xBF && isTail c && validUtf8 rest
            else if a = 0xED then 0x80 ≤ b && b ≤ 0x9F && isTail c && validUtf8 rest
            else if 0xE1 ≤ a && a ≤ 0xEF then isTail b && isTail c && validUtf8 rest
            else
              match rest with
              | [] => false
              | d::rest =>
                if a = 0xF0 then 0x90 ≤ b && b ≤ 0xBF && isTail c && isTail d && validUtf8 rest
                else if a = 0xF4 then
                  0x80 ≤ b && b ≤ 0x8F && isTail c && isTail d && validUtf8 rest
                else if 0xF1 ≤ a && a ≤ 0xF3 then
                  isTail b && isTail c && isTail d && validUtf8 rest
                else false

def stripSuffix (c : UInt8) (line : Bytes) : Bytes :=
  if line.getLast? = some c then line.dropLast else line

/-- `str::lines`: a line ends before `\n` or `\r\n`, and an empty last line does not count. -/
def lines (text : Bytes) : List Bytes :=
  let pieces := text.splitOn newline
  pieces.dropLast.map (stripSuffix carriageReturn) ++
    pieces.getLast?.toList.filter fun last => last ≠ []

def stripBytes (pre : Bytes) (line : Bytes) : Option Bytes :=
  if pre.isPrefixOf line then some (line.drop pre.length) else none

/-- `data:` -/
def dataPrefix : Bytes := [100,97,116,97,58]

/-- The payload of a `data:` line, without the one space that may separate it. -/
def dataPayload (line : Bytes) : Option Bytes :=
  (stripBytes dataPrefix line).map fun rest => (stripBytes [32] rest).getD rest

/-- `try_extract_usage_from`: usage replaces what was found before when some count is positive. -/
def extractUsageWith {m : Type → Type} [Monad m] (add : ℤ → ℤ → m ℤ) (json : SerdeJson)
    (userTokens : Option UsageTokens) (payload : Bytes) : m (Option UsageTokens) := do
  let tokens ← parseUsageWith add json payload
  pure (if tokens.positive then some tokens else userTokens)

def transformLineWith {m : Type → Type} [Monad m] (add : ℤ → ℤ → m ℤ) (json : SerdeJson)
    (upstream : UpstreamProvider) (modelName : String) (acc : Bytes × Option UsageTokens)
    (line : Bytes) : m (Bytes × Option UsageTokens) :=
  match dataPayload line with
  | some payload => do
    let userTokens ← extractUsageWith add json acc.2 payload
    pure (acc.1 ++ dataPrefix ++ [32] ++ upstream.transformResponse json payload modelName ++
      [newline],userTokens)
  | none =>
    if line ≠ [] ∨ ¬[newline,newline].isSuffixOf acc.1 then
      pure (acc.1 ++ line ++ [newline],acc.2)
    else pure acc

/-- An event that is not UTF-8 passes unchanged. -/
def transformEventWith {m : Type → Type} [Monad m] (add : ℤ → ℤ → m ℤ) (json : SerdeJson)
    (upstream : UpstreamProvider) (modelName : String) (userTokens : Option UsageTokens)
    (event : Bytes) : m (Bytes × Option UsageTokens) :=
  if validUtf8 event then
    (lines event).foldlM (transformLineWith add json upstream modelName) ([],userTokens)
  else pure (event,userTokens)

/-- In a release build, as what follows. -/
def extractUsage (json : SerdeJson) (userTokens : Option UsageTokens) (payload : Bytes) :
    Option UsageTokens :=
  (extractUsageWith releaseAdd json userTokens payload).run

def transformLine (json : SerdeJson) (upstream : UpstreamProvider) (modelName : String)
    (acc : Bytes × Option UsageTokens) (line : Bytes) : Bytes × Option UsageTokens :=
  (transformLineWith releaseAdd json upstream modelName acc line).run

def transformEvent (json : SerdeJson) (upstream : UpstreamProvider) (modelName : String)
    (userTokens : Option UsageTokens) (event : Bytes) : Bytes × Option UsageTokens :=
  (transformEventWith releaseAdd json upstream modelName userTokens event).run

section Release

variable {json : SerdeJson} {upstream : UpstreamProvider} {modelName : String}
  {acc : Bytes × Option UsageTokens} {line payload : Bytes}

theorem extractUsage_eq (json : SerdeJson) (userTokens : Option UsageTokens) (payload : Bytes) :
    extractUsage json userTokens payload =
      if (parseUsage json payload).positive then some (parseUsage json payload) else userTokens :=
  rfl

theorem transformLine_payload (h : dataPayload line = some payload) :
    transformLine json upstream modelName acc line =
      (acc.1 ++ dataPrefix ++ [32] ++ upstream.transformResponse json payload modelName ++ [newline],
        extractUsage json acc.2 payload) := by
  simp only [transformLine,transformLineWith,h]
  rfl

theorem transformLine_other (h : dataPayload line = none) :
    transformLine json upstream modelName acc line =
      if line ≠ [] ∨ ¬[newline,newline].isSuffixOf acc.1 then (acc.1 ++ line ++ [newline],acc.2)
      else acc := by
  simp only [transformLine,transformLineWith,h]
  split <;> rfl

theorem transformEvent_eq (json : SerdeJson) (upstream : UpstreamProvider) (modelName : String)
    (userTokens : Option UsageTokens) (event : Bytes) :
    transformEvent json upstream modelName userTokens event =
      if validUtf8 event then
        (lines event).foldl (transformLine json upstream modelName) ([],userTokens)
      else (event,userTokens) := by
  have hfold : ∀ (ls : List Bytes) (acc : Bytes × Option UsageTokens),
      (ls.foldlM (transformLineWith releaseAdd json upstream modelName) acc).run =
        ls.foldl (transformLine json upstream modelName) acc := by
    intro ls
    induction ls with
    | nil => exact fun _ => rfl
    | cons line ls ih => exact fun acc => ih _
  unfold transformEvent transformEventWith
  split
  · exact hfold _ _
  · rfl

end Release

end Ait
