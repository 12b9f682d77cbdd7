import Ait.AdminReads

/-!
# Putting back what was read

What the API stores has passed its checks, and passes them again as it is. So a client that
reads a resource and puts it back unchanged is never refused, and changes nothing but the time
of the update. The `api_key` of a provider is not put back: the API shows a mask in its place,
and an update without the field keeps the key.
-/

namespace Ait

@[simp] theorem trim_trim (s : String) : trim (trim s) = trim s := by
  have hdrop (l : List Char) : ((l.dropWhile isWhitespace).rdropWhile isWhitespace).dropWhile
      isWhitespace = (l.dropWhile isWhitespace).rdropWhile isWhitespace := by
    rw [List.dropWhile_eq_self_iff]
    intro hpos
    have hinit : (l.dropWhile isWhitespace).rdropWhile isWhitespace <+: l.dropWhile isWhitespace :=
      List.rdropWhile_prefix _ _
    rw [hinit.getElem hpos]
    exact List.dropWhile_get_zero_not _ l (hpos.trans_le hinit.length_le)
  unfold trim
  rw [String.toList_ofList,hdrop,List.rdropWhile_idempotent]

theorem validateString_again {value fieldName trimmed : String} {max : ℕ} {allowed : Char → Bool}
    (h : validateString value fieldName max allowed = .ok trimmed) :
    validateString trimmed fieldName max allowed = .ok trimmed := by
  obtain rfl := validateString_ok h
  unfold validateString at h ⊢
  rwa [trim_trim]

structure ProviderRow.Clean (r : ProviderRow) : Prop where
  name : validateString r.name "name" 128 identChars = .ok r.name
  type : (ProviderType.fromDb r.type).toDb = r.type

structure ModelRow.Clean (r : ModelRow) : Prop where
  name : validateString r.name "name" 128 modelNameChars = .ok r.name
  providerId : validateString r.providerId "provider_id" 40 uuidChars = .ok r.providerId
  upstreamModel :
    validateString r.upstreamModel "upstream_model" 128 upstreamModelChars = .ok r.upstreamModel

structure ApiKeyRow.Clean (r : ApiKeyRow) : Prop where
  name : validateString r.name "name" 128 identChars = .ok r.name
  /-- Zero would ask for no expiry. -/
  expiresAt : ∀ secs ∈ r.expiresAt, (fromTimestamp secs).isSome ∧ secs ≠ 0

/-- Every row passes the checks of the requests that could write it. -/
structure Tables.Clean (t : Tables) : Prop where
  providers : ∀ r ∈ t.providers, r.Clean
  models : ∀ r ∈ t.models, r.Clean
  apiKeys : ∀ r ∈ t.apiKeys, r.Clean

namespace Tables.Clean

variable {t t' : Tables} (h : t.Clean)
include h

theorem setProviders (hm : t'.models = t.models) (hk : t'.apiKeys = t.apiKeys)
    (hp : ∀ r ∈ t'.providers, r.Clean) : t'.Clean :=
  ⟨hp,hm ▸ h.models,hk ▸ h.apiKeys⟩

theorem setModels (hp : t'.providers = t.providers) (hk : t'.apiKeys = t.apiKeys)
    (hm : ∀ r ∈ t'.models, r.Clean) : t'.Clean :=
  ⟨hp ▸ h.providers,hm,hk ▸ h.apiKeys⟩

theorem setApiKeys (hp : t'.providers = t.providers) (hm : t'.models = t.models)
    (hk : ∀ r ∈ t'.apiKeys, r.Clean) : t'.Clean :=
  ⟨hp ▸ h.providers,hm ▸ h.models,hk⟩

end Tables.Clean

theorem forall_patchRows {ρ : Type} {key : ρ → String} {k : String} {f : ρ → ρ} {P : ρ → Prop}
    {l : List ρ} (h : ∀ r ∈ l, P r) (hf : ∀ r, P r → P (f r)) :
    ∀ r ∈ patchRows key k f l, P r := by
  intro r hr
  obtain ⟨a,ha,rfl⟩ := List.mem_map.mp hr
  by_cases hk : key a = k
  · simpa only [hk,if_true] using hf a (h a ha)
  · simpa only [hk,if_false] using h a ha

namespace Database

variable {db db' : Database} {now : DateTime}

theorem updateProvider_tables {u : ProviderUpdate} {p : Provider}
    (h : db.updateProvider now u = .ok (p,db')) : db'.toTables =
      { db.toTables with providers := patchRows ProviderRow.id u.id (u.patch now) db.providers } := by
  by_cases hrow : ∃ row ∈ db.providers, row.id = u.id
  · obtain ⟨row,hrow,hid⟩ := hrow
    obtain ⟨x,db'',hok,htables⟩ := updateProvider_row now hrow hid
    rw [h] at hok
    cases hok
    exact htables
  · rw [updateProvider_unknown now fun r hr hid => hrow ⟨r,hr,hid⟩] at h
    cases h

theorem updateModel_tables {u : ModelUpdate} {m : Model}
    (h : db.updateModel now u = .ok (m,db')) : db'.toTables =
      { db.toTables with models := patchRows ModelRow.name u.name (u.patch now) db.models } := by
  by_cases hrow : ∃ row ∈ db.models, row.name = u.name
  · obtain ⟨row,hrow,hname⟩ := hrow
    by_cases hknown : db.KnowsProvider u
    · obtain ⟨x,db'',hok,htables⟩ := updateModel_row now hrow hname hknown
      rw [h] at hok
      cases hok
      exact htables
    · rw [updateModel_orphan now hrow hname hknown] at h
      cases h
  · rw [updateModel_unknown now fun r hr hname => hrow ⟨r,hr,hname⟩] at h
    cases h

theorem updateApiKey_tables {u : ApiKeyUpdate} {k : ApiKey × String}
    (h : db.updateApiKey now u = .ok (k,db')) : db'.toTables =
      { db.toTables with apiKeys := patchRows ApiKeyRow.id u.id (u.patch now) db.apiKeys } := by
  by_cases hrow : ∃ row ∈ db.apiKeys, row.id = u.id
  · obtain ⟨row,hrow,hid⟩ := hrow
    obtain ⟨x,db'',hok,htables⟩ := updateApiKey_row now hrow hid
    rw [h] at hok
    cases hok
    exact htables
  · rw [updateApiKey_unknown now fun r hr hid => hrow ⟨r,hr,hid⟩] at h
    cases h

end Database

theorem forall_getD {A : Type} {P : A → Prop} {o : Option A} {a : A} (ha : P a) (ho : ∀ b ∈ o, P b) :
    P (o.getD a) := by
  cases o with
  | none => exact ha
  | some b => exact ho b rfl

theorem ProviderRow.Clean.patch {r : ProviderRow} (h : r.Clean) (now : DateTime) {u : ProviderUpdate}
    (hname : ∀ n ∈ u.name, validateString n "name" 128 identChars = .ok n) : (u.patch now r).Clean where
  name := forall_getD (P := fun n => validateString n "name" 128 identChars = .ok n) h.name hname
  type := by simp only [ProviderUpdate.patch,ProviderType.fromDb_toDb]

structure ModelUpdate.Clean (u : ModelUpdate) : Prop where
  providerId : ∀ p ∈ u.providerId, validateString p "provider_id" 40 uuidChars = .ok p
  upstreamModel : ∀ m ∈ u.upstreamModel,
    validateString m "upstream_model" 128 upstreamModelChars = .ok m

theorem ModelRow.Clean.patch {r : ModelRow} (h : r.Clean) (now : DateTime) {u : ModelUpdate}
    (hu : u.Clean) : (u.patch now r).Clean where
  name := h.name
  providerId := forall_getD
    (P := fun p => validateString p "provider_id" 40 uuidChars = .ok p) h.providerId hu.providerId
  upstreamModel := forall_getD
    (P := fun m => validateString m "upstream_model" 128 upstreamModelChars = .ok m)
    h.upstreamModel hu.upstreamModel

theorem ApiKeyRow.Clean.expiry {r : ApiKeyRow} (h : r.Clean) :
    (optTs r.expiresAt).map timestamp = r.expiresAt := by
  cases he : r.expiresAt with
  | none => rfl
  | some secs => exact congrArg some (timestamp_ts (h.expiresAt secs he).1)

theorem ApiKeyRow.Clean.patch {r : ApiKeyRow} (h : r.Clean) (now : DateTime) {u : ApiKeyUpdate}
    (hname : ∀ n ∈ u.name, validateString n "name" 128 identChars = .ok n) (hyears : u.InYears) :
    (u.patch now r).Clean where
  name := forall_getD (P := fun n => validateString n "name" 128 identChars = .ok n) h.name hname
  expiresAt := by
    intro secs hsecs
    cases he : u.expiresAt with
    | none =>
      simp only [ApiKeyUpdate.patch,he,h.expiry] at hsecs
      exact h.expiresAt secs hsecs
    | some t =>
      simp only [ApiKeyUpdate.patch,he] at hsecs
      obtain ⟨hne,heq⟩ := Option.ite_none_left_eq_some.mp hsecs
      obtain rfl := Option.some.inj heq
      exact ⟨hyears t he,hne⟩

theorem validateOptional_ok {value out : Option String} {fieldName : String} {max : ℕ}
    {allowed : Char → Bool} (h : validateOptional value fieldName max allowed = .ok out) :
    ∀ v ∈ out, validateString v fieldName max allowed = .ok v := by
  cases value with
  | none =>
    cases h
    exact fun v hv => by cases hv
  | some s =>
    obtain ⟨v,hv,rfl⟩ := map_eq_ok.mp h
    intro w hw
    cases hw
    exact validateString_again hv

theorem providerPatch_name {checks : UrlChecks} {id : String} {input : UpdateProviderRequest}
    {u : ProviderUpdate} (h : providerPatch checks id input = .ok u) :
    ∀ n ∈ u.name, validateString n "name" 128 identChars = .ok n := by
  simp only [providerPatch,bind_eq_ok] at h
  obtain ⟨name,hname,url,-,apiKey,-,_,-,h⟩ := h
  cases h
  exact validateOptional_ok hname

theorem modelPatch_clean {name : String} {input : UpdateModelRequest} {u : ModelUpdate}
    (h : modelPatch name input = .ok u) : u.Clean := by
  simp only [modelPatch,bind_eq_ok] at h
  obtain ⟨modelName,-,providerId,hprovider,upstreamModel,hupstream,h⟩ := h
  cases h
  exact ⟨validateOptional_ok hprovider,validateOptional_ok hupstream⟩

theorem patchedName_ok {name out : Option String} (h : patchedName name = .ok out) :
    ∀ n ∈ out, validateString n "name" 128 identChars = .ok n := by
  cases name with
  | none =>
    cases h
    exact fun n hn => by cases hn
  | some s =>
    simp only [patchedName] at h
    split at h
    · cases h
      exact fun n hn => by cases hn
    · obtain ⟨v,hv,rfl⟩ := map_eq_ok.mp h
      intro w hw
      cases hw
      exact validateString_again hv

theorem apiKeyPatch_name {keyId : String} {input : UpdateApiKeyRequest} {u : ApiKeyUpdate}
    (h : apiKeyPatch keyId input = .ok u) :
    ∀ n ∈ u.name, validateString n "name" 128 identChars = .ok n := by
  simp only [apiKeyPatch,bind_eq_ok] at h
  obtain ⟨name,hname,expiresAt,-,h⟩ := h
  cases h
  exact patchedName_ok hname

theorem timestamp_fromTimestamp {secs : ℤ} {t : DateTime} (h : fromTimestamp secs = some t) :
    timestamp t = secs := by
  have hts : ts secs = t := by rw [ts,h,Option.getD_some]
  rw [← hts,timestamp_ts (Option.isSome_of_eq_some h)]

theorem requestedExpiry_ne_zero {expiresAt : Option ℤ} {e : Option DateTime}
    (h : requestedExpiry expiresAt = .ok e) : ∀ t ∈ e, timestamp t ≠ 0 := by
  unfold requestedExpiry at h
  split at h
  · cases h
    exact fun t ht => by cases ht
  · rename_i secs hsecs
    obtain ⟨t,ht,rfl⟩ := map_eq_ok.mp h
    intro t' ht'
    cases ht'
    have hne := (Option.filter_eq_some_iff.mp hsecs).2
    unfold parseExpiresAt at ht
    split at ht
    · rename_i t' hread
      cases ht
      rw [timestamp_fromTimestamp hread]
      simpa using hne
    · cases ht

theorem Mutation.respond_clean {hashKey : String → String} {m : Mutation} {db : Database}
    {c : Committed AdminReply} (hdb : db.Clean) (h : m.respond hashKey db = .ok c) : c.db.Clean := by
  cases m with
  | createApiKey now input newId rawKey =>
    obtain ⟨c,hc,rfl⟩ := map_eq_ok.mp h
    simp only [Ait.createApiKey,bind_eq_ok] at hc
    obtain ⟨expiresAt,hexpiry,name,hname,hc⟩ := hc
    split at hc
    · cases hc
    · rename_i stored db' hstored
      cases hc
      obtain ⟨_,hexec,he⟩ := map_eq_ok.mp hstored
      cases he
      obtain ⟨hp,hm,hk⟩ := execute_ok hexec
      refine hdb.setApiKeys hp hm fun r (hr : r ∈ db'.apiKeys) => ?_
      rw [hk] at hr
      obtain hold | hnew := List.mem_append.mp hr
      · exact hdb.apiKeys r hold
      · obtain rfl := List.mem_singleton.mp hnew
        refine ⟨validateString_again hname,fun secs hsecs => ?_⟩
        obtain ⟨t,ht,rfl⟩ := Option.map_eq_some_iff.mp hsecs
        exact ⟨requestedExpiry_inYears hexpiry t ht,requestedExpiry_ne_zero hexpiry t ht⟩
  | deleteApiKey keyId =>
    obtain ⟨c,hc,rfl⟩ := map_eq_ok.mp h
    unfold Ait.deleteApiKey at hc
    split at hc
    · cases hc
    · rename_i hash db' hgone
      cases hc
      unfold Database.deleteApiKey at hgone
      split at hgone
      · cases hgone
      · cases hgone
        exact hdb.setApiKeys rfl rfl fun r hr => hdb.apiKeys r (List.mem_filter.mp hr).1
  | updateApiKey now keyId input =>
    obtain ⟨c,hc,rfl⟩ := map_eq_ok.mp h
    simp only [Ait.updateApiKey,bind_eq_ok] at hc
    obtain ⟨u,hpatch,hc⟩ := hc
    split at hc
    · cases hc
    · rename_i updated hash db' hupdated
      cases hc
      show db'.Clean
      rw [Database.updateApiKey_tables hupdated]
      refine hdb.setApiKeys rfl rfl (forall_patchRows hdb.apiKeys fun r hr => ?_)
      exact hr.patch now (apiKeyPatch_name hpatch) (apiKeyPatch_inYears hpatch)
  | createProvider checks now input newId =>
    obtain ⟨c,hc,rfl⟩ := map_eq_ok.mp h
    simp only [createProviderHandler,bind_eq_ok] at hc
    obtain ⟨name,hname,url,-,_,-,apiKey,-,hc⟩ := hc
    split at hc
    · cases hc
    · rename_i inserted db' hstored
      cases hc
      obtain ⟨_,hexec,he⟩ := map_eq_ok.mp hstored
      cases he
      obtain ⟨hp,hm,hk⟩ := execute_ok hexec
      refine hdb.setProviders hm hk fun r (hr : r ∈ db'.providers) => ?_
      rw [hp] at hr
      obtain hold | hnew := List.mem_append.mp hr
      · exact hdb.providers r hold
      · obtain rfl := List.mem_singleton.mp hnew
        exact ⟨validateString_again hname,by simp only [ProviderType.fromDb_toDb]⟩
  | updateProvider checks now id input =>
    obtain ⟨c,hc,rfl⟩ := map_eq_ok.mp h
    simp only [Ait.updateProvider,bind_eq_ok] at hc
    obtain ⟨u,hpatch,hc⟩ := hc
    split at hc
    · cases hc
    · rename_i provider db' hupdated
      cases hc
      show db'.Clean
      rw [Database.updateProvider_tables hupdated]
      refine hdb.setProviders rfl rfl (forall_patchRows hdb.providers fun r hr => ?_)
      exact hr.patch now (providerPatch_name hpatch)
  | deleteProvider id =>
    obtain ⟨c,hc,rfl⟩ := map_eq_ok.mp h
    unfold Ait.deleteProvider at hc
    split at hc
    · cases hc
    · rename_i db' hgone
      cases hc
      obtain rfl : (db.deleteProvider id).2 = db' := congrArg Prod.snd hgone
      exact ⟨fun r hr => hdb.providers r (List.mem_filter.mp hr).1,
        fun r hr => hdb.models r (List.mem_filter.mp hr).1,hdb.apiKeys⟩
  | createModel now input newId =>
    obtain ⟨c,hc,rfl⟩ := map_eq_ok.mp h
    simp only [Ait.createModel,bind_eq_ok] at hc
    obtain ⟨name,hname,providerId,hprovider,upstreamModel,hupstream,hc⟩ := hc
    split at hc
    · cases hc
    · rename_i inserted db' hstored
      cases hc
      unfold Database.insertModel at hstored
      dsimp only at hstored
      split at hstored
      · cases hstored
      split at hstored
      · cases hstored
      obtain ⟨_,hexec,he⟩ := map_eq_ok.mp hstored
      cases he
      obtain ⟨hp,hm,hk⟩ := execute_ok hexec
      refine hdb.setModels hp hk fun r (hr : r ∈ db'.models) => ?_
      rw [hm] at hr
      obtain hold | hnew := List.mem_append.mp hr
      · exact hdb.models r hold
      · obtain rfl := List.mem_singleton.mp hnew
        exact ⟨validateString_again hname,validateString_again hprovider,
          validateString_again hupstream⟩
  | deleteModel name =>
    obtain ⟨c,hc,rfl⟩ := map_eq_ok.mp h
    unfold Ait.deleteModel at hc
    split at hc
    · cases hc
    · rename_i db' hgone
      cases hc
      obtain rfl : (db.deleteModel name).2 = db' := congrArg Prod.snd hgone
      exact hdb.setModels rfl rfl fun r hr => hdb.models r (List.mem_filter.mp hr).1
  | updateModel now name input =>
    obtain ⟨c,hc,rfl⟩ := map_eq_ok.mp h
    simp only [Ait.updateModel,bind_eq_ok] at hc
    obtain ⟨u,hpatch,hc⟩ := hc
    split at hc
    · cases hc
    · rename_i model db' hupdated
      cases hc
      show db'.Clean
      rw [Database.updateModel_tables hupdated]
      exact hdb.setModels rfl rfl
        (forall_patchRows hdb.models fun r hr => hr.patch now (modelPatch_clean hpatch))

/-- One request leaves clean tables clean, whatever it is and whether it is refused. -/
theorem AdminRequest.handle_clean (hashKey : String → String) {db : Database} (hdb : db.Clean)
    (r : AdminRequest) : (r.handle hashKey db).2.Clean := by
  cases r with
  | write m =>
    cases hm : m.respond hashKey db with
    | ok c =>
      rw [handle_write_ok hm]
      exact m.respond_clean hdb hm
    | error e =>
      rw [handle_write_error hm]
      exact hdb
  | getProvider id =>
    simp only [handle]
    cases db.getProvider id with
    | some p => exact hdb
    | none => exact hdb
  | getModel name =>
    simp only [handle]
    cases db.getModel name with
    | some m => exact hdb
    | none => exact hdb
  | listProviders => exact hdb
  | listModels => exact hdb
  | listApiKeys => exact hdb

/-- The mask stays out of it: a key that is left out is kept. -/
def ProviderResponse.putBack (p : ProviderResponse) : UpdateProviderRequest where
  name := some p.name
  providerType := some p.providerType
  baseUrl := some p.baseUrl
  enabled := some p.enabled

def ModelResponse.putBack (m : ModelResponse) : UpdateModelRequest where
  providerId := some m.providerId
  upstreamModel := some m.upstreamModel
  enabled := some m.enabled

def ApiKeyResponse.putBack (k : ApiKeyResponse) : UpdateApiKeyRequest where
  name := some k.name
  expiresAt := k.expiresAt
  enabled := some k.enabled

namespace Tables

variable (now : DateTime)

def touchProvider (id : String) (t : Tables) : Tables :=
  { t with
    providers := patchRows ProviderRow.id id (fun r => { r with updatedAt := timestamp now }) t.providers }

def touchModel (name : String) (t : Tables) : Tables :=
  { t with
    models := patchRows ModelRow.name name (fun r => { r with updatedAt := timestamp now }) t.models }

def touchApiKey (id : String) (t : Tables) : Tables :=
  { t with
    apiKeys := patchRows ApiKeyRow.id id (fun r => { r with updatedAt := timestamp now }) t.apiKeys }

end Tables

namespace Database

variable {db db' : Database} {now : DateTime}

theorem updateProvider_reply {u : ProviderUpdate} {p : Provider} {row : ProviderRow}
    (hrow : row ∈ db.providers) (hid : row.id = u.id) (h : db.updateProvider now u = .ok (p,db')) :
    ProviderResponse.ofProvider p =
      { (u.patch now row).shown with updatedAt := timestamp now } := by
  have hget : db.getProvider u.id = some (rowToProvider row) :=
    getProvider_eq_some.mpr ⟨row,hrow,hid,rfl⟩
  unfold updateProvider at h
  rw [hget] at h
  obtain ⟨_,-,he⟩ := map_eq_ok.mp h
  cases he
  cases hkey : u.apiKey <;>
    simp only [ProviderRow.shown,ProviderResponse.ofProvider,rowToProvider,ProviderUpdate.patch,
      ProviderType.fromDb_toDb,hkey]

theorem updateModel_reply {u : ModelUpdate} {m : Model} {row : ModelRow} (hrow : row ∈ db.models)
    (hname : row.name = u.name) (h : db.updateModel now u = .ok (m,db')) :
    ModelResponse.ofModel m = { (u.patch now row).shown with updatedAt := timestamp now } := by
  have hget : db.getModel u.name = some (rowToModel row) :=
    getModel_eq_some.mpr ⟨row,hrow,hname,rfl⟩
  unfold updateModel at h
  rw [hget] at h
  obtain ⟨_,-,he⟩ := map_eq_ok.mp h
  cases he
  rfl

theorem updateApiKey_reply {u : ApiKeyUpdate} {k : ApiKey × String} {row : ApiKeyRow}
    (hrow : row ∈ db.apiKeys) (hid : row.id = u.id) (hu : u.InYears)
    (h : db.updateApiKey now u = .ok (k,db')) : ApiKeyResponse.ofApiKey k.1.masked k.1 =
      { (u.patch now row).shown with updatedAt := timestamp now } := by
  have hget : db.getApiKey u.id = some (rowToApiKey row) :=
    getApiKey_eq_some.mpr ⟨row,hrow,hid,rfl⟩
  unfold updateApiKey at h
  rw [hget] at h
  obtain ⟨_,-,he⟩ := map_eq_ok.mp h
  cases he
  have hpatch : (u.patch now row).expiresAt = (u.expiryOver (optTs row.expiresAt)).map timestamp := by
    cases he : u.expiresAt with
    | none => simp only [ApiKeyUpdate.patch,ApiKeyUpdate.expiryOver,he]
    | some t => by_cases hclear : timestamp t = 0 <;>
        simp [ApiKeyUpdate.patch,ApiKeyUpdate.expiryOver,he,hclear]
  have hread := expiry_read (hu.expiryOver_read row.expiresAt)
  simp only [ApiKeyRow.shown,ApiKeyResponse.ofApiKey,rowToApiKey,hpatch,hread]
  cases he : u.expiresAt <;>
    simp only [ApiKeyUpdate.patch,ApiKeyUpdate.expiryOver,ApiKey.masked,he]

end Database

/-- The write is answered with `reply` and leaves the tables `t`. -/
def Mutation.Yields (hashKey : String → String) (db : Database) (m : Mutation) (reply : AdminReply)
    (t : Tables) : Prop :=
  ∃ db', (AdminRequest.write m).handle hashKey db = (.ok reply,db') ∧ db'.toTables = t

section PutBack

variable {hashKey : String → String} {db : Database} (hdb : db.Clean) (now : DateTime)
include hdb

/-- The address is the one field that is checked against the outside again. -/
theorem ProviderRow.putBack {r : ProviderRow} {checks : UrlChecks} (hr : r ∈ db.providers)
    (hurl : checks.baseUrl r.baseUrl = .ok r.baseUrl)
    (hssrf : checks.checkSsrfConfig r.baseUrl = .ok ()) :
    Mutation.Yields hashKey db (.updateProvider checks now r.id r.shown.putBack)
      (.updated "provider" r.id (.provider { r.shown with updatedAt := timestamp now }))
      (db.touchProvider now r.id) := by
  obtain ⟨hname,htype⟩ := hdb.providers r hr
  let u : ProviderUpdate :=
    { id := r.id
      name := some r.name
      providerType := some (.fromDb r.type)
      baseUrl := some r.baseUrl
      apiKey := none
      enabled := some r.enabled }
  have hpatch : providerPatch checks r.id r.shown.putBack = .ok u := by
    have hname' : validateOptional r.shown.putBack.name "name" 128 identChars = .ok (some r.name) :=
      congrArg (Except.map some) hname
    have hurl' : r.shown.putBack.baseUrl.mapM checks.baseUrl = .ok (some r.baseUrl) := by
      show (checks.baseUrl r.baseUrl).map some = _
      rw [hurl]
      rfl
    unfold providerPatch
    rw [hname',hurl']
    show ((checks.checkSsrfConfig r.baseUrl).bind fun _ => Except.ok u) = .ok u
    rw [hssrf]
    rfl
  have hpatched : u.patch now r = { r with updatedAt := timestamp now } := by
    simp only [u,ProviderUpdate.patch,Option.getD_some,htype]
  obtain ⟨p,db',hok,htables⟩ := Database.updateProvider_row now hr (u := u) rfl
  have hreply := Database.updateProvider_reply hr rfl hok
  rw [hpatched] at hreply
  have hrespond : (Mutation.updateProvider checks now r.id r.shown.putBack).respond hashKey db =
      .ok ⟨.updated "provider" r.id (.provider (.ofProvider p)),db',providerStale r.id⟩ := by
    simp only [Mutation.respond,updateProvider,hpatch,bind,Except.bind]
    rw [hok]
    rfl
  refine ⟨db',?_,?_⟩
  · rw [AdminRequest.handle_write_ok hrespond,hreply]
    rfl
  · exact htables.trans (congrArg (fun rows => { db.toTables with providers := rows })
      (patchRows_at (g := fun r => { r with updatedAt := timestamp now }) db.schema.providerId hr rfl
        hpatched))

theorem ModelRow.putBack {r : ModelRow} (hr : r ∈ db.models) :
    Mutation.Yields hashKey db (.updateModel now r.name r.shown.putBack)
      (.updated "model" r.name (.model { r.shown with updatedAt := timestamp now }))
      (db.touchModel now r.name) := by
  obtain ⟨hname,hprovider,hupstream⟩ := hdb.models r hr
  let u : ModelUpdate :=
    { name := r.name
      providerId := some r.providerId
      upstreamModel := some r.upstreamModel
      enabled := some r.enabled }
  have hpatch : modelPatch r.name r.shown.putBack = .ok u := by
    have hprovider' : validateOptional r.shown.putBack.providerId "provider_id" 40 uuidChars =
        .ok (some r.providerId) := congrArg (Except.map some) hprovider
    have hupstream' : validateOptional r.shown.putBack.upstreamModel "upstream_model" 128
        upstreamModelChars = .ok (some r.upstreamModel) := congrArg (Except.map some) hupstream
    unfold modelPatch
    rw [hname,hprovider',hupstream']
    rfl
  have hknown : db.KnowsProvider u := by
    intro id hid
    obtain rfl := Option.some.inj hid
    exact List.mem_map.mp (db.schema.modelProvider r hr)
  obtain ⟨m,db',hok,htables⟩ := Database.updateModel_row now hr rfl hknown
  have hreply := Database.updateModel_reply hr rfl hok
  have hrespond : (Mutation.updateModel now r.name r.shown.putBack).respond hashKey db =
      .ok ⟨.updated "model" (trim r.name) (.model (.ofModel m)),db',
        [.modelRemove r.name,.negativeModelRemove r.name]⟩ := by
    simp only [Mutation.respond,updateModel,hpatch,bind,Except.bind]
    rw [hok]
    rfl
  refine ⟨db',?_,?_⟩
  · rw [AdminRequest.handle_write_ok hrespond,hreply,← validateString_ok hname]
    rfl
  · exact htables.trans (congrArg (fun rows => { db.toTables with models := rows })
      (patchRows_at (f := u.patch now) (g := fun r => { r with updatedAt := timestamp now })
        db.schema.modelName hr rfl rfl))

theorem ApiKeyRow.putBack {r : ApiKeyRow} (hr : r ∈ db.apiKeys) :
    Mutation.Yields hashKey db (.updateApiKey now r.id r.shown.putBack)
      (.updated "api_key" r.id (.apiKey { r.shown with updatedAt := timestamp now }))
      (db.touchApiKey now r.id) := by
  have hclean := hdb.apiKeys r hr
  let u : ApiKeyUpdate :=
    { id := r.id
      name := some r.name
      enabled := some r.enabled
      expiresAt := optTs r.expiresAt }
  have hname : patchedName (some r.name) = .ok (some r.name) := by
    have htrim : trim r.name = r.name := (validateString_ok hclean.name).symm
    have hpresent : ¬trim r.name = "" := by
      intro hempty
      have hbad := hclean.name
      rw [validateString,if_pos hempty] at hbad
      cases hbad
    simp only [patchedName,if_neg hpresent]
    rw [htrim,hclean.name]
    rfl
  have hexpiry : patchedExpiry r.shown.expiresAt = .ok (optTs r.expiresAt) := by
    show patchedExpiry ((optTs r.expiresAt).map timestamp) = _
    rw [hclean.expiry]
    cases he : r.expiresAt with
    | none => rfl
    | some secs =>
      obtain ⟨hread,hne⟩ := hclean.expiresAt secs he
      obtain ⟨t,ht⟩ := Option.isSome_iff_exists.mp hread
      simp only [patchedExpiry,if_neg hne,parseExpiresAt,ht]
      exact congrArg (fun t => Except.ok (some t)) (by rw [ts,ht,Option.getD_some])
  have hpatch : apiKeyPatch r.id r.shown.putBack = .ok u := by
    unfold apiKeyPatch
    show ((patchedName (some r.name)).bind fun name =>
      (patchedExpiry r.shown.expiresAt).bind fun expiresAt => _) = _
    rw [hname,hexpiry]
    rfl
  have hyears : u.InYears := apiKeyPatch_inYears hpatch
  have hpatched : u.patch now r = { r with updatedAt := timestamp now } := by
    have hkept : (u.patch now r).expiresAt = r.expiresAt := by
      cases he : r.expiresAt with
      | none =>
        have hnone : u.expiresAt = none := congrArg optTs he
        simp only [ApiKeyUpdate.patch,hnone,he]
        rfl
      | some secs =>
        obtain ⟨hread,hne⟩ := hclean.expiresAt secs he
        have hsome : u.expiresAt = some (ts secs) := congrArg optTs he
        simp only [ApiKeyUpdate.patch,hsome,timestamp_ts hread,if_neg hne]
    exact congrArg (fun e => { r with expiresAt := e,updatedAt := timestamp now }) hkept
  obtain ⟨k,db',hok,htables⟩ := Database.updateApiKey_row now hr (u := u) rfl
  have hreply := Database.updateApiKey_reply hr rfl hyears hok
  rw [hpatched] at hreply
  have hrespond : (Mutation.updateApiKey now r.id r.shown.putBack).respond hashKey db =
      .ok ⟨.updated "api_key" r.id (.apiKey (.ofApiKey k.1.masked k.1)),db',
        [.keyRemove k.2,.negativeKeyRemove k.2,.revisionBump]⟩ := by
    simp only [Mutation.respond,updateApiKey,hpatch,bind,Except.bind]
    rw [hok]
    rfl
  refine ⟨db',?_,?_⟩
  · rw [AdminRequest.handle_write_ok hrespond,hreply]
    rfl
  · exact htables.trans (congrArg (fun rows => { db.toTables with apiKeys := rows })
      (patchRows_at (g := fun r => { r with updatedAt := timestamp now }) db.schema.keyId hr rfl
        hpatched))

end PutBack

/-- After any requests every row passes the checks again, and whatever is shown, but for the masked
`api_key` of a provider, can be put back as it is: the answer shows it again, and the tables keep
everything but the time of its last update. -/
theorem put_back (hashKey : String → String) (db : Database) (hdb : db.Clean)
    (rs : List AdminRequest) (checks : UrlChecks) (now : DateTime) :
    let db := after (AdminRequest.handle hashKey) db rs
    let catalog := Catalog.shown db.toTables
    db.Clean ∧
    (∀ p ∈ catalog.providers, checks.baseUrl p.baseUrl = .ok p.baseUrl →
      checks.checkSsrfConfig p.baseUrl = .ok () →
      Mutation.Yields hashKey db (.updateProvider checks now p.id p.putBack)
        (.updated "provider" p.id (.provider { p with updatedAt := timestamp now }))
        (db.touchProvider now p.id)) ∧
    (∀ m ∈ catalog.models, Mutation.Yields hashKey db (.updateModel now m.name m.putBack)
      (.updated "model" m.name (.model { m with updatedAt := timestamp now }))
      (db.touchModel now m.name)) ∧
    ∀ k ∈ catalog.apiKeys, Mutation.Yields hashKey db (.updateApiKey now k.id k.putBack)
      (.updated "api_key" k.id (.apiKey { k with updatedAt := timestamp now }))
      (db.touchApiKey now k.id) := by
  intro last catalog
  have hlast : last.Clean :=
    after_inv (fun db : Database => db.Clean) (fun _ r hdb => r.handle_clean hashKey hdb) hdb rs
  refine ⟨hlast,fun p hp hurl hssrf => ?_,fun m hm => ?_,fun k hk => ?_⟩
  · obtain ⟨r,hr,rfl⟩ := List.mem_map.mp hp
    exact ProviderRow.putBack hlast now hr hurl hssrf
  · obtain ⟨r,hr,rfl⟩ := List.mem_map.mp hm
    exact ModelRow.putBack hlast now hr
  · obtain ⟨r,hr,rfl⟩ := List.mem_map.mp hk
    exact ApiKeyRow.putBack hlast now hr

def demoCreates : List AdminRequest :=
  [.write (.createProvider ⟨.ok,fun _ => .ok ()⟩ 4000000000
      ⟨" p ",.ollama,"http://u",some "sk",true⟩ "a"),
    .write (.createModel 5000000000 ⟨"m","a","up",true⟩ "b"),
    .write (.createApiKey 6500000000 ⟨"k",some 9⟩ "c" "ait-0123456789abc")]

theorem put_back_created :
    let db := after (AdminRequest.handle id) ⟨⟨[],[],[]⟩,by decide⟩ demoCreates
    db.Clean ∧
    Mutation.Yields id db (.updateProvider ⟨.ok,fun _ => .ok ()⟩ 7000000000 "a"
        { name := some "p",providerType := some .ollama,baseUrl := some "http://u",enabled := some true })
      (.updated "provider" "a" (.provider ⟨"a","p",.ollama,"http://u",some "******",true,4,7⟩))
      (db.touchProvider 7000000000 "a") ∧
    Mutation.Yields id db (.updateModel 7000000000 "m"
        { providerId := some "a",upstreamModel := some "up",enabled := some true })
      (.updated "model" "m" (.model ⟨"b","m","a","up",true,5,7⟩)) (db.touchModel 7000000000 "m") ∧
    Mutation.Yields id db (.updateApiKey 7000000000 "c"
        { name := some "k",expiresAt := some 9,enabled := some true })
      (.updated "api_key" "c" (.apiKey ⟨"c","ait-01******abc","k",6,7,true,some 9⟩))
      (db.touchApiKey 7000000000 "c") := by
  intro db
  have hempty : Tables.Clean ⟨[],[],[]⟩ := ⟨by simp,by simp,by simp⟩
  obtain ⟨hclean,hproviders,hmodels,hkeys⟩ := put_back id ⟨⟨[],[],[]⟩,by decide⟩ hempty
    demoCreates ⟨.ok,fun _ => .ok ()⟩ 7000000000
  have hshown : Catalog.shown db.toTables =
      ⟨[⟨"a","p",.ollama,"http://u",some "******",true,4,4⟩],[⟨"b","m","a","up",true,5,5⟩],
        [⟨"c","ait-01******abc","k",6,6,true,some 9⟩]⟩ := by decide +kernel
  simp only [db] at hshown ⊢
  rw [hshown] at hproviders hmodels hkeys
  exact ⟨hclean,hproviders _ List.mem_cons_self (by decide) (by decide),hmodels _ List.mem_cons_self,
    hkeys _ List.mem_cons_self⟩

end Ait
