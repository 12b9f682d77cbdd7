import Ait.Staleness

/-!
# API-key authentication

`authMiddleware` is composed of the steps it takes on shared state: the check of
the negative cache, the lookup that slides a cached key, the database lookup
between two reads of the key revision, and the insertion of what was found.
-/

namespace Ait

def stripPrefix (p s : String) : Option String :=
  if p.toList.isPrefixOf s.toList then some (String.ofList (s.toList.drop p.length)) else none

/-- The header is absent, or not readable as text, when `authorization` is `none`. -/
def extractBearerToken (authorization : Option String) : Option String :=
  authorization.bind (stripPrefix "Bearer ")

@[simp] theorem extractBearerToken_bearer (token : String) :
    extractBearerToken (some ("Bearer " ++ token)) = some token := by
  have hp : "Bearer ".toList.isPrefixOf ("Bearer " ++ token).toList = true := by
    rw [String.toList_append,List.isPrefixOf_iff_prefix]
    exact List.prefix_append _ _
  have hd : ("Bearer " ++ token).toList.drop "Bearer ".length = token.toList := by
    rw [String.toList_append]
    exact List.drop_left' rfl
  show (if _ then _ else _) = _
  rw [if_pos hp,hd,String.ofList_toList]

def invalidKey : AitError := .unauthorized "Unauthorized: invalid or missing API key"

def verifyKey (keyInfo : ApiKeyInfo) (utc : DateTime) : Except AitError ApiKeyContext :=
  if ¬ keyInfo.enabled then .error invalidKey
  else if keyInfo.expiresAt.any (· ≤ utc) then .error invalidKey
  else .ok { name := some keyInfo.name }

def verdict (found : Option ApiKeyInfo) (utc : DateTime) : Except AitError ApiKeyContext :=
  match found with
  | some info => verifyKey info utc
  | none => .error invalidKey

def Admits (r : Except AitError ApiKeyContext) : Prop := ∃ context, r = .ok context

theorem admits_verdict_iff {found : Option ApiKeyInfo} {utc : DateTime} :
    Admits (verdict found utc) ↔
      ∃ info, found = some info ∧ info.enabled = true ∧ ∀ e, info.expiresAt = some e → utc < e := by
  cases found with
  | none => simp [Admits,verdict]
  | some info =>
    by_cases hen : info.enabled
    · cases hexp : info.expiresAt with
      | none => simp [Admits,verdict,verifyKey,hen,hexp]
      | some e =>
        by_cases hle : e ≤ utc
        · simp [Admits,verdict,verifyKey,hen,hexp,hle]
        · simp [Admits,verdict,verifyKey,hen,hexp,hle,lt_of_not_ge hle]
    · simp [Admits,verdict,verifyKey,hen]

namespace AppState

def knownInvalid (s : AppState) (hash : String) (now : Instant) : Bool :=
  freshVerdict s.negativeKeyCache hash now

def cachedKey (s : AppState) (hash : String) (now : Instant) : Option ApiKeyInfo × AppState :=
  let (cached,apiKeyCache) := freshEntry s.apiKeyCache hash now
  (cached,{ s with apiKeyCache := apiKeyCache })

/-- What a lookup leaves in the caches, unless a key changed while it ran. -/
def rememberKey (s : AppState) (hash : String) (found : Option ApiKeyInfo) (stillCurrent : Bool)
    (now : Instant) : AppState :=
  match found with
  | some info =>
    if stillCurrent then { s with apiKeyCache := s.apiKeyCache.insert hash (info,now) } else s
  | none =>
    if stillCurrent ∧ s.negativeKeyCache.len < s.config.cacheMaxEntries then
      { s with negativeKeyCache := s.negativeKeyCache.insert hash now }
    else s

end AppState

def authMiddleware (hashKey : String → String) (s : AppState) (authorization : Option String)
    (now : Instant) (utc : DateTime) : Except AitError ApiKeyContext × AppState :=
  if ¬ s.config.authEnabled then (.ok { name := none },s)
  else match extractBearerToken authorization with
  | none => (.error invalidKey,s)
  | some token =>
    let hash := hashKey token
    if s.knownInvalid hash now then (.error invalidKey,s)
    else match s.cachedKey hash now with
    | (some cached,s) => (verifyKey cached utc,s)
    | (none,s) =>
      let revision := s.keyRevision
      let keyInfo := s.db.getApiKeyByRaw hashKey token
      let stillCurrent := s.keyRevision == revision
      (verdict keyInfo utc,s.rememberKey hash keyInfo stillCurrent now)

section Cases

variable {hashKey : String → String} {s : AppState} {token : String} {now : Instant}
  {utc : DateTime}

@[simp] theorem auth_disabled (hauth : s.config.authEnabled = false)
    (authorization : Option String) :
    authMiddleware hashKey s authorization now utc = (.ok { name := none },s) := by
  rw [authMiddleware,if_pos (by simp [hauth])]

@[simp] theorem auth_rejected (hauth : s.config.authEnabled = true)
    (hinvalid : s.knownInvalid (hashKey token) now = true) :
    authMiddleware hashKey s (some ("Bearer " ++ token)) now utc = (.error invalidKey,s) := by
  rw [authMiddleware,if_neg (by simp [hauth]),extractBearerToken_bearer]
  exact if_pos hinvalid

theorem auth_hit {info : ApiKeyInfo} (hauth : s.config.authEnabled = true)
    (hinvalid : s.knownInvalid (hashKey token) now = false)
    (hfresh : (freshEntry s.apiKeyCache (hashKey token) now).1 = some info) :
    authMiddleware hashKey s (some ("Bearer " ++ token)) now utc = (verifyKey info utc,
      { s with apiKeyCache := (freshEntry s.apiKeyCache (hashKey token) now).2 }) := by
  rw [authMiddleware,if_neg (by simp [hauth]),extractBearerToken_bearer]
  simp only [hinvalid,Bool.false_eq_true,if_false,AppState.cachedKey]
  generalize freshEntry s.apiKeyCache (hashKey token) now = looked at hfresh ⊢
  rcases looked with ⟨_ | found,slid⟩
  · cases hfresh
  · obtain rfl := Option.some.inj hfresh
    rfl

theorem auth_read (hauth : s.config.authEnabled = true)
    (hinvalid : s.knownInvalid (hashKey token) now = false)
    (hstale : (freshEntry s.apiKeyCache (hashKey token) now).1 = none) :
    authMiddleware hashKey s (some ("Bearer " ++ token)) now utc =
      (verdict (s.db.getApiKeyByRaw hashKey token) utc,
        s.rememberKey (hashKey token) (s.db.getApiKeyByRaw hashKey token) true now) := by
  rw [authMiddleware,if_neg (by simp [hauth]),extractBearerToken_bearer]
  simp only [hinvalid,Bool.false_eq_true,if_false,AppState.cachedKey,freshEntry_miss hstale,
    beq_self_eq_true]

end Cases

namespace AppState

variable {s : AppState} {hash : String} {now : Instant}

theorem rememberKey_frame (found : Option ApiKeyInfo) (stillCurrent : Bool) :
    s.rememberKey hash found stillCurrent now =
      { s with
        apiKeyCache := (s.rememberKey hash found stillCurrent now).apiKeyCache
        negativeKeyCache := (s.rememberKey hash found stillCurrent now).negativeKeyCache } := by
  unfold rememberKey
  split <;> split <;> rfl

theorem rememberKey_apiKeyCache {found : Option ApiKeyInfo} {stillCurrent : Bool} {other : String}
    {v : ApiKeyInfo × Instant}
    (h : (s.rememberKey hash found stillCurrent now).apiKeyCache.get other = some v) :
    s.apiKeyCache.get other = some v ∨ other = hash ∧ found = some v.1 ∧ stillCurrent = true := by
  unfold rememberKey at h
  split at h
  · rename_i info
    split at h
    · rename_i hcur
      rw [FiniteMap.get_insert] at h
      split at h
      · rename_i hsame
        obtain rfl := Option.some.inj h
        exact .inr ⟨hsame,rfl,hcur⟩
      · exact .inl h
    · exact .inl h
  · split at h <;> exact .inl h

theorem rememberKey_negativeKeyCache {found : Option ApiKeyInfo} {stillCurrent : Bool}
    {other : String} {v : Instant}
    (h : (s.rememberKey hash found stillCurrent now).negativeKeyCache.get other = some v) :
    s.negativeKeyCache.get other = some v ∨ other = hash ∧ found = none ∧ stillCurrent = true := by
  unfold rememberKey at h
  split at h
  · split at h <;> exact .inl h
  · split at h
    · rename_i hcur
      rw [FiniteMap.get_insert] at h
      split at h
      · rename_i hsame
        exact .inr ⟨hsame,rfl,hcur.1⟩
      · exact .inl h
    · exact .inl h

end AppState

theorem authMiddleware_frame (hashKey : String → String) (s : AppState)
    (authorization : Option String) (now : Instant) (utc : DateTime) :
    ∃ apiKeyCache negativeKeyCache, (authMiddleware hashKey s authorization now utc).2 =
      { s with apiKeyCache := apiKeyCache,negativeKeyCache := negativeKeyCache } := by
  unfold authMiddleware
  split
  · exact ⟨_,_,rfl⟩
  split
  · exact ⟨_,_,rfl⟩
  rename_i token _
  dsimp only
  split
  · exact ⟨_,_,rfl⟩
  have hslid : ∃ m, (s.cachedKey (hashKey token) now).2 = { s with apiKeyCache := m } := ⟨_,rfl⟩
  generalize s.cachedKey (hashKey token) now = slid at hslid ⊢
  obtain ⟨m,hslid⟩ := hslid
  rcases slid with ⟨_ | cached,s'⟩
  · dsimp only at hslid ⊢
    rw [AppState.rememberKey_frame,hslid]
    exact ⟨_,_,rfl⟩
  · exact ⟨m,_,hslid⟩

end Ait
