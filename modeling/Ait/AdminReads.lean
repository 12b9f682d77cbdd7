import Ait.Admin
import Ait.Patches
import Ait.Relational

/-!
# Reads follow writes

A client that files the body of every write's answer, and strikes out what it deleted, holds
exactly what the server stores as far as the API shows it. Each `get` and each list answers
from that catalog, so that a write is read back as it was answered until the next one. Every
request is answered by its handler: no `run_blocking` times out and no SQLite call fails.
-/

namespace Ait
open Grouping

structure Catalog where
  providers : List ProviderResponse
  models : List ModelResponse
  apiKeys : List ApiKeyResponse
  deriving DecidableEq

def replaceBy {A B : Type} [DecidableEq B] (key : A → B) (a : A) (l : List A) : List A :=
  l.map fun b => if key b = key a then a else b

def ProviderRow.shown (r : ProviderRow) : ProviderResponse := .ofProvider (rowToProvider r)

def ModelRow.shown (r : ModelRow) : ModelResponse := .ofModel (rowToModel r)

def ApiKeyRow.shown (r : ApiKeyRow) : ApiKeyResponse := .ofApiKey r.display (rowToApiKey r)

namespace Catalog

def shown (t : Tables) : Catalog where
  providers := t.providers.map ProviderRow.shown
  models := t.models.map ModelRow.shown
  apiKeys := t.apiKeys.map ApiKeyRow.shown

/-- The one answer with a raw key is filed under its mask. -/
def record (c : Catalog) : AdminRequest × Except AitError AdminReply → Catalog
  | (.write (.createProvider ..),.ok ⟨_,.provider p,_⟩) => { c with providers := c.providers ++ [p] }
  | (.write (.updateProvider ..),.ok ⟨_,.provider p,_⟩) =>
    { c with providers := replaceBy ProviderResponse.id p c.providers }
  | (.write (.deleteProvider id),.ok _) =>
    { c with
      providers := c.providers.filter fun p => p.id != id
      models := c.models.filter fun m => m.providerId != id }
  | (.write (.createModel ..),.ok ⟨_,.model m,_⟩) => { c with models := c.models ++ [m] }
  | (.write (.updateModel ..),.ok ⟨_,.model m,_⟩) =>
    { c with models := replaceBy ModelResponse.name m c.models }
  | (.write (.deleteModel name),.ok _) => { c with models := c.models.filter fun m => m.name != name }
  | (.write (.createApiKey ..),.ok ⟨_,.apiKey k,_⟩) =>
    { c with apiKeys := c.apiKeys ++ [{ k with key := maskApiKey k.key }] }
  | (.write (.updateApiKey ..),.ok ⟨_,.apiKey k,_⟩) =>
    { c with apiKeys := replaceBy ApiKeyResponse.id k c.apiKeys }
  | (.write (.deleteApiKey id),.ok _) => { c with apiKeys := c.apiKeys.filter fun k => k.id != id }
  | _ => c

/-- The answer a catalog gives to a read. A list comes sorted, but for equal names or times. -/
def Tells (c : Catalog) : AdminRequest → Except AitError AdminReply → Prop
  | .listProviders _,a => ∃ l, a = .ok ⟨200,.providers l,none⟩ ∧ l.Perm c.providers ∧
      l.Pairwise fun p q => p.name ≤ q.name
  | .getProvider id,a => a = match c.providers.find? fun p => p.id == id with
    | some p => .ok ⟨200,.provider p,none⟩
    | none => .error (.notFound ("Provider '" ++ id ++ "' not found"))
  | .listModels _,a => ∃ l, a = .ok ⟨200,.models l,none⟩ ∧ l.Perm c.models ∧
      l.Pairwise fun m n => m.name ≤ n.name
  | .getModel name,a => a = match c.models.find? fun m => m.name == name with
    | some m => .ok ⟨200,.model m,none⟩
    | none => .error (.notFound ("Model '" ++ name ++ "' not found"))
  | .listApiKeys _,a => ∃ l, a = .ok ⟨200,.apiKeys l,none⟩ ∧ l.Perm c.apiKeys ∧
      l.Pairwise fun k j => k.createdAt ≤ j.createdAt
  | .write _,_ => True

end Catalog

section Rows

variable {ρ β : Type} (view : ρ → β) (key : ρ → String) (name : β → String) {l : List ρ}

theorem map_replaceBy (hname : ∀ r, name (view r) = key r) {set : ρ → ρ} {b : β} {k : String}
    (hb : name b = k) (hset : ∀ r ∈ l, key r = k → view (set r) = b) :
    (l.map fun r => if key r = k then set r else r).map view = replaceBy name b (l.map view) := by
  subst hb
  rw [replaceBy,List.map_map,List.map_map]
  refine List.map_congr_left fun r hr => ?_
  show view (if key r = name b then set r else r) = if name (view r) = name b then b else view r
  rw [hname]
  by_cases hk : key r = name b
  · rw [if_pos hk,if_pos hk,hset r hr hk]
  · rw [if_neg hk,if_neg hk]

theorem map_filter_ne (hname : ∀ r, name (view r) = key r) (k : String) :
    (l.filter fun r => key r != k).map view = (l.map view).filter fun b => name b != k := by
  rw [List.filter_map]
  congr 1
  refine List.filter_congr fun r _ => ?_
  show (key r != k) = (name (view r) != k)
  rw [hname]

theorem find?_map_view (hname : ∀ r, name (view r) = key r) (k : String) :
    (l.find? fun r => key r == k).map view = (l.map view).find? fun b => name b == k := by
  rw [List.find?_map]
  congr 2
  refine funext fun r => ?_
  show (key r == k) = (name (view r) == k)
  rw [hname]

/-- A query with `ORDER BY` shows every row once, in the order of what it sorts by. -/
theorem orderBy_shown {κ : Type} [LinearOrder κ] {f : ρ → κ} {g : β → κ} (scan : Scan ρ)
    [DecidableRel fun a b => f a ≤ f b] (hfg : ∀ r ∈ l, g (view r) = f r) :
    ((scan.orderBy (fun a b => f a ≤ f b) l).map view).Perm (l.map view) ∧
      ((scan.orderBy (fun a b => f a ≤ f b) l).map view).Pairwise fun a b => g a ≤ g b := by
  have hperm := scan.orderBy_perm (fun a b => f a ≤ f b) l
  have htotal : Std.Total fun a b : ρ => f a ≤ f b := ⟨fun a b => le_total (f a) (f b)⟩
  have htrans : IsTrans ρ fun a b => f a ≤ f b := ⟨fun a b c => le_trans⟩
  refine ⟨hperm.map view,List.pairwise_map.mpr ?_⟩
  refine (scan.orderBy_pairwise (fun a b => f a ≤ f b) l).imp_of_mem fun ha hb hab => ?_
  rwa [hfg _ (hperm.mem_iff.mp ha),hfg _ (hperm.mem_iff.mp hb)]

end Rows

/-- A clock reading that `DateTime` has a year for. -/
def InYears (now : DateTime) : Prop := (fromTimestamp (timestamp now)).isSome

instance (now : DateTime) : Decidable (InYears now) :=
  inferInstanceAs (Decidable ((fromTimestamp (timestamp now)).isSome = true))

theorem InYears.read {now : DateTime} (h : InYears now) : timestamp (ts (timestamp now)) = timestamp now :=
  timestamp_ts h

@[simp] theorem expiry_read {e : Option DateTime}
    (h : ∀ t ∈ e, timestamp (ts (timestamp t)) = timestamp t) :
    (optTs (e.map timestamp)).map timestamp = e.map timestamp := by
  cases e with
  | none => rfl
  | some t => exact congrArg some (h t rfl)

def ApiKeyUpdate.expiryOver (u : ApiKeyUpdate) (stored : Option DateTime) : Option DateTime :=
  match u.expiresAt with
  | none => stored
  | some t => if timestamp t = 0 then none else some t

theorem ApiKeyUpdate.InYears.expiryOver_read {u : ApiKeyUpdate} (hu : u.InYears) (stored : Option ℤ) :
    ∀ t ∈ u.expiryOver (optTs stored), timestamp (ts (timestamp t)) = timestamp t := by
  intro t ht
  unfold expiryOver at ht
  cases hexpiry : u.expiresAt with
  | none =>
    rw [hexpiry] at ht
    obtain ⟨secs,-,rfl⟩ := Option.map_eq_some_iff.mp ht
    exact timestamp_ts_ts secs
  | some t' =>
    rw [hexpiry] at ht
    obtain ⟨-,heq⟩ := Option.ite_none_left_eq_some.mp ht
    obtain rfl : t' = t := Option.some.inj heq
    exact timestamp_ts (hu t' hexpiry)

namespace Catalog

variable {db db' : Database} {now : DateTime}

theorem shown_insertProvider {newId : String} {p stored : Provider} (hnow : InYears now)
    (h : db.insertProvider newId now p = .ok (stored,db')) : shown db'.toTables =
      { shown db.toTables with
        providers := (shown db.toTables).providers ++ [.ofProvider stored] } := by
  obtain ⟨_,hexec,he⟩ := map_eq_ok.mp h
  cases he
  obtain ⟨hproviders,hmodels,hkeys⟩ := execute_ok hexec
  simp only [shown,hproviders,hmodels,hkeys,List.map_append,List.map_cons,List.map_nil]
  simp only [ProviderRow.shown,ProviderResponse.ofProvider,rowToProvider,ProviderType.fromDb_toDb,hnow.read]

theorem shown_updateProvider {u : ProviderUpdate} {p : Provider} (hnow : InYears now)
    (h : db.updateProvider now u = .ok (p,db')) : shown db'.toTables =
      { shown db.toTables with
        providers := replaceBy ProviderResponse.id (.ofProvider p) (shown db.toTables).providers } := by
  unfold Database.updateProvider at h
  cases hget : db.getProvider u.id with
  | none => rw [hget] at h; cases h
  | some old =>
    rw [hget] at h
    obtain ⟨row,hrow,-,hold⟩ := Database.getProvider_eq_some.mp hget
    obtain ⟨_,hexec,he⟩ := map_eq_ok.mp h
    cases he
    obtain ⟨hproviders,hmodels,hkeys⟩ := execute_ok hexec
    simp only [shown,hproviders,hmodels,hkeys]
    congr 1
    refine map_replaceBy ProviderRow.shown ProviderRow.id ProviderResponse.id (fun _ => rfl) rfl fun r hr hkey => ?_
    obtain rfl := List.inj_on_of_nodup_map db.schema.providerId hr hrow
      (hkey.trans (congrArg Provider.id hold).symm)
    subst hold
    simp only [ProviderRow.shown,ProviderResponse.ofProvider,rowToProvider,ProviderType.fromDb_toDb,hnow.read]

@[simp] theorem shown_deleteProvider (id : String) : shown (db.deleteProvider id).2.toTables =
    { shown db.toTables with
      providers := (shown db.toTables).providers.filter fun p => p.id != id
      models := (shown db.toTables).models.filter fun m => m.providerId != id } := by
  simp only [shown,Database.deleteProvider]
  congr 1
  · exact map_filter_ne ProviderRow.shown ProviderRow.id ProviderResponse.id (fun _ => rfl) id
  · exact map_filter_ne ModelRow.shown ModelRow.providerId ModelResponse.providerId (fun _ => rfl) id

theorem shown_insertModel {newId : String} {m stored : Model} (hnow : InYears now)
    (h : db.insertModel newId now m = .ok (stored,db')) : shown db'.toTables =
      { shown db.toTables with models := (shown db.toTables).models ++ [.ofModel stored] } := by
  unfold Database.insertModel at h
  dsimp only at h
  split at h
  · cases h
  · split at h
    · cases h
    · obtain ⟨_,hexec,he⟩ := map_eq_ok.mp h
      cases he
      obtain ⟨hproviders,hmodels,hkeys⟩ := execute_ok hexec
      simp only [shown,hproviders,hmodels,hkeys,List.map_append,List.map_cons,List.map_nil]
      simp only [ModelRow.shown,ModelResponse.ofModel,rowToModel,hnow.read]

theorem shown_updateModel {u : ModelUpdate} {m : Model} (hnow : InYears now)
    (h : db.updateModel now u = .ok (m,db')) : shown db'.toTables =
      { shown db.toTables with
        models := replaceBy ModelResponse.name (.ofModel m) (shown db.toTables).models } := by
  unfold Database.updateModel at h
  cases hget : db.getModel u.name with
  | none => rw [hget] at h; cases h
  | some old =>
    rw [hget] at h
    obtain ⟨row,hrow,hname,hold⟩ := Database.getModel_eq_some.mp hget
    obtain ⟨_,hexec,he⟩ := map_eq_ok.mp h
    cases he
    obtain ⟨hproviders,hmodels,hkeys⟩ := execute_ok hexec
    subst hold
    rw [← hname] at hmodels
    simp only [shown,hproviders,hmodels,hkeys]
    congr 1
    refine map_replaceBy ModelRow.shown ModelRow.name ModelResponse.name (fun _ => rfl) rfl fun r hr hkey => ?_
    obtain rfl := List.inj_on_of_nodup_map db.schema.modelName hr hrow hkey
    simp only [ModelRow.shown,ModelResponse.ofModel,rowToModel,hnow.read]

@[simp] theorem shown_deleteModel (name : String) : shown (db.deleteModel name).2.toTables =
    { shown db.toTables with
      models := (shown db.toTables).models.filter fun m => m.name != name } := by
  simp only [shown,Database.deleteModel]
  congr 1
  exact map_filter_ne ModelRow.shown ModelRow.name ModelResponse.name (fun _ => rfl) name

theorem shown_insertApiKey {hashKey : String → String} {newId rawKey name : String}
    {expiresAt : Option DateTime} {stored : ApiKey × String} (hnow : InYears now)
    (hexpires : ∀ t ∈ expiresAt, InYears t)
    (h : db.insertApiKey hashKey newId rawKey now name expiresAt = .ok (stored,db')) :
    shown db'.toTables =
      { shown db.toTables with
        apiKeys := (shown db.toTables).apiKeys ++ [.ofApiKey (maskApiKey stored.2) stored.1] } := by
  obtain ⟨_,hexec,he⟩ := map_eq_ok.mp h
  cases he
  obtain ⟨hproviders,hmodels,hkeys⟩ := execute_ok hexec
  have hread := expiry_read fun t ht => (hexpires t ht).read
  simp only [shown,hproviders,hmodels,hkeys,List.map_append,List.map_cons,List.map_nil]
  simp only [ApiKeyRow.shown,ApiKeyResponse.ofApiKey,rowToApiKey,hnow.read,hread]

theorem shown_updateApiKey {u : ApiKeyUpdate} {k : ApiKey × String} (hnow : InYears now)
    (hu : u.InYears) (h : db.updateApiKey now u = .ok (k,db')) : shown db'.toTables =
      { shown db.toTables with
        apiKeys := replaceBy ApiKeyResponse.id (.ofApiKey k.1.masked k.1)
          (shown db.toTables).apiKeys } := by
  unfold Database.updateApiKey at h
  cases hget : db.getApiKey u.id with
  | none => rw [hget] at h; cases h
  | some old =>
    rw [hget] at h
    obtain ⟨row,hrow,-,hold⟩ := Database.getApiKey_eq_some.mp hget
    obtain ⟨_,hexec,he⟩ := map_eq_ok.mp h
    cases he
    obtain ⟨hproviders,hmodels,hkeys⟩ := execute_ok hexec
    subst hold
    simp only [shown,hproviders,hmodels,hkeys]
    congr 1
    refine map_replaceBy ApiKeyRow.shown ApiKeyRow.id ApiKeyResponse.id (fun _ => rfl) rfl fun r hr hkey => ?_
    obtain rfl := List.inj_on_of_nodup_map db.schema.keyId hr hrow hkey
    simp only [ApiKeyRow.shown,ApiKeyResponse.ofApiKey,ApiKey.masked,rowToApiKey,hnow.read]
    exact congrArg _ (expiry_read (hu.expiryOver_read r.expiresAt))

theorem shown_deleteApiKey {keyId hash : String} (h : db.deleteApiKey keyId = .ok (hash,db')) :
    shown db'.toTables =
      { shown db.toTables with
        apiKeys := (shown db.toTables).apiKeys.filter fun k => k.id != keyId } := by
  unfold Database.deleteApiKey at h
  split at h
  · cases h
  · cases h
    simp only [shown]
    congr 1
    exact map_filter_ne ApiKeyRow.shown ApiKeyRow.id ApiKeyResponse.id (fun _ => rfl) keyId

end Catalog

theorem fromTimestamp_inYears {secs : ℤ} {t : DateTime} (h : fromTimestamp secs = some t) :
    InYears t := by
  have hsome : (fromTimestamp secs).isSome := Option.isSome_of_eq_some h
  have hts : ts secs = t := by rw [ts,h,Option.getD_some]
  unfold InYears
  rwa [← hts,timestamp_ts hsome]

theorem parseExpiresAt_inYears {secs : ℤ} {t : DateTime} (h : parseExpiresAt secs = .ok t) :
    InYears t := by
  unfold parseExpiresAt at h
  split at h
  · rename_i t' ht
    cases h
    exact fromTimestamp_inYears ht
  · cases h

theorem requestedExpiry_inYears {expiresAt : Option ℤ} {e : Option DateTime}
    (h : requestedExpiry expiresAt = .ok e) : ∀ t ∈ e, InYears t := by
  unfold requestedExpiry at h
  split at h
  · cases h
    intro t ht
    cases ht
  · obtain ⟨t,ht,rfl⟩ := map_eq_ok.mp h
    intro t' ht'
    cases ht'
    exact parseExpiresAt_inYears ht

theorem patchedExpiry_inYears {expiresAt : Option ℤ} {e : Option DateTime}
    (h : patchedExpiry expiresAt = .ok e) : ∀ t ∈ e, InYears t := by
  unfold patchedExpiry at h
  split at h
  · cases h
    intro t ht
    cases ht
  · split at h
    · cases h
      intro t ht
      cases ht
      decide
    · obtain ⟨t,ht,rfl⟩ := map_eq_ok.mp h
      intro t' ht'
      cases ht'
      exact parseExpiresAt_inYears ht

theorem apiKeyPatch_inYears {keyId : String} {input : UpdateApiKeyRequest} {u : ApiKeyUpdate}
    (h : apiKeyPatch keyId input = .ok u) : u.InYears := by
  simp only [apiKeyPatch,bind_eq_ok] at h
  obtain ⟨name,-,expiresAt,hexpiry,h⟩ := h
  cases h
  exact patchedExpiry_inYears hexpiry

namespace Mutation

def clock : Mutation → Option DateTime
  | createApiKey now .. => some now
  | updateApiKey now .. => some now
  | createProvider _ now .. => some now
  | updateProvider _ now .. => some now
  | createModel now .. => some now
  | updateModel now .. => some now
  | _ => none

end Mutation

namespace Catalog

theorem shown_respond {hashKey : String → String} {m : Mutation} {db : Database}
    {c : Committed AdminReply} (hm : ∀ now ∈ m.clock, InYears now) (h : m.respond hashKey db = .ok c) :
    shown c.db.toTables = (shown db.toTables).record (.write m,.ok c.reply) := by
  cases m with
  | createApiKey now input newId rawKey =>
    obtain ⟨c,hc,rfl⟩ := map_eq_ok.mp h
    simp only [Ait.createApiKey,bind_eq_ok] at hc
    obtain ⟨expiresAt,hexpiry,name,-,hc⟩ := hc
    split at hc
    · cases hc
    · rename_i stored db' hdb
      cases hc
      exact shown_insertApiKey (hm now rfl) (requestedExpiry_inYears hexpiry) hdb
  | deleteApiKey keyId =>
    obtain ⟨c,hc,rfl⟩ := map_eq_ok.mp h
    unfold Ait.deleteApiKey at hc
    split at hc
    · cases hc
    · rename_i hash db' hdb
      cases hc
      exact shown_deleteApiKey hdb
  | updateApiKey now keyId input =>
    obtain ⟨c,hc,rfl⟩ := map_eq_ok.mp h
    simp only [Ait.updateApiKey,bind_eq_ok] at hc
    obtain ⟨u,hpatch,hc⟩ := hc
    split at hc
    · cases hc
    · rename_i updated hash db' hdb
      cases hc
      exact shown_updateApiKey (hm now rfl) (apiKeyPatch_inYears hpatch) hdb
  | createProvider checks now input newId =>
    obtain ⟨c,hc,rfl⟩ := map_eq_ok.mp h
    simp only [createProviderHandler,bind_eq_ok] at hc
    obtain ⟨name,-,url,-,_,-,apiKey,-,hc⟩ := hc
    split at hc
    · cases hc
    · rename_i inserted db' hdb
      cases hc
      exact shown_insertProvider (hm now rfl) hdb
  | updateProvider checks now id input =>
    obtain ⟨c,hc,rfl⟩ := map_eq_ok.mp h
    simp only [Ait.updateProvider,bind_eq_ok] at hc
    obtain ⟨u,-,hc⟩ := hc
    split at hc
    · cases hc
    · rename_i provider db' hdb
      cases hc
      exact shown_updateProvider (hm now rfl) hdb
  | deleteProvider id =>
    obtain ⟨c,hc,rfl⟩ := map_eq_ok.mp h
    unfold Ait.deleteProvider at hc
    split at hc
    · cases hc
    · rename_i db' hdb
      cases hc
      obtain rfl : (db.deleteProvider id).2 = db' := congrArg Prod.snd hdb
      exact shown_deleteProvider id
  | createModel now input newId =>
    obtain ⟨c,hc,rfl⟩ := map_eq_ok.mp h
    simp only [Ait.createModel,bind_eq_ok] at hc
    obtain ⟨name,-,providerId,-,upstreamModel,-,hc⟩ := hc
    split at hc
    · cases hc
    · rename_i inserted db' hdb
      cases hc
      exact shown_insertModel (hm now rfl) hdb
  | deleteModel name =>
    obtain ⟨c,hc,rfl⟩ := map_eq_ok.mp h
    unfold Ait.deleteModel at hc
    split at hc
    · cases hc
    · rename_i db' hdb
      cases hc
      obtain rfl : (db.deleteModel name).2 = db' := congrArg Prod.snd hdb
      exact shown_deleteModel name
  | updateModel now name input =>
    obtain ⟨c,hc,rfl⟩ := map_eq_ok.mp h
    simp only [Ait.updateModel,bind_eq_ok] at hc
    obtain ⟨u,-,hc⟩ := hc
    split at hc
    · cases hc
    · rename_i model db' hdb
      cases hc
      exact shown_updateModel (hm now rfl) hdb

end Catalog

def Tables.Dated (t : Tables) : Prop := ∀ r ∈ t.apiKeys, timestamp (ts r.createdAt) = r.createdAt

theorem Tables.Dated.of_eq {t t' : Tables} (h : t.Dated) (heq : t'.apiKeys = t.apiKeys) : t'.Dated := by
  unfold Tables.Dated
  rw [heq]
  exact h

namespace Database

variable {db db' : Database} {now : DateTime}

theorem insertApiKey_dated {hashKey : String → String} {newId rawKey name : String}
    {expiresAt : Option DateTime} {stored : ApiKey × String} (hdb : db.Dated) (hnow : InYears now)
    (h : db.insertApiKey hashKey newId rawKey now name expiresAt = .ok (stored,db')) : db'.Dated := by
  obtain ⟨_,hexec,he⟩ := map_eq_ok.mp h
  cases he
  obtain ⟨-,-,hkeys⟩ := execute_ok hexec
  intro r hr
  rw [hkeys] at hr
  obtain hold | hnew := List.mem_append.mp hr
  · exact hdb r hold
  · obtain rfl := List.mem_singleton.mp hnew
    exact hnow.read

theorem updateApiKey_dated {u : ApiKeyUpdate} {k : ApiKey × String} (hdb : db.Dated)
    (h : db.updateApiKey now u = .ok (k,db')) : db'.Dated := by
  unfold updateApiKey at h
  split at h
  · cases h
  · obtain ⟨_,hexec,he⟩ := map_eq_ok.mp h
    cases he
    obtain ⟨-,-,hk⟩ := execute_ok hexec
    have hset : ∃ (id : String) (set : ApiKeyRow → ApiKeyRow),
        (db'.apiKeys = db.apiKeys.map fun r => if r.id = id then set r else r) ∧
          ∀ r, (set r).createdAt = r.createdAt := ⟨_,_,hk,fun _ => rfl⟩
    obtain ⟨id,set,hkeys,hset⟩ := hset
    intro r hr
    rw [hkeys] at hr
    obtain ⟨r,hold,rfl⟩ := List.mem_map.mp hr
    by_cases hid : r.id = id
    · rw [if_pos hid,hset]
      exact hdb r hold
    · rw [if_neg hid]
      exact hdb r hold

theorem deleteApiKey_dated {keyId hash : String} (hdb : db.Dated)
    (h : db.deleteApiKey keyId = .ok (hash,db')) : db'.Dated := by
  unfold deleteApiKey at h
  split at h
  · cases h
  · cases h
    exact fun r hr => hdb r (List.mem_filter.mp hr).1

end Database

theorem Mutation.respond_dated {hashKey : String → String} {m : Mutation} {db : Database}
    {c : Committed AdminReply} (hdb : db.Dated) (hm : ∀ now ∈ m.clock, InYears now)
    (h : m.respond hashKey db = .ok c) : c.db.Dated := by
  cases m with
  | createApiKey now input newId rawKey =>
    obtain ⟨c,hc,rfl⟩ := map_eq_ok.mp h
    simp only [Ait.createApiKey,bind_eq_ok] at hc
    obtain ⟨expiresAt,-,name,-,hc⟩ := hc
    split at hc
    · cases hc
    · rename_i stored db' hstored
      cases hc
      exact Database.insertApiKey_dated hdb (hm now rfl) hstored
  | deleteApiKey keyId =>
    obtain ⟨c,hc,rfl⟩ := map_eq_ok.mp h
    unfold Ait.deleteApiKey at hc
    split at hc
    · cases hc
    · rename_i hash db' hgone
      cases hc
      exact Database.deleteApiKey_dated hdb hgone
  | updateApiKey now keyId input =>
    obtain ⟨c,hc,rfl⟩ := map_eq_ok.mp h
    simp only [Ait.updateApiKey,bind_eq_ok] at hc
    obtain ⟨u,-,hc⟩ := hc
    split at hc
    · cases hc
    · rename_i updated hash db' hupdated
      cases hc
      exact Database.updateApiKey_dated hdb hupdated
  | createProvider =>
    obtain ⟨c,hc,rfl⟩ := map_eq_ok.mp h
    obtain ⟨id,hframe,-⟩ := createProviderHandler_ok hc
    exact hdb.of_eq hframe.keys
  | updateProvider =>
    obtain ⟨c,hc,rfl⟩ := map_eq_ok.mp h
    exact hdb.of_eq (updateProvider_ok hc).1.keys
  | deleteProvider =>
    obtain ⟨c,hc,rfl⟩ := map_eq_ok.mp h
    exact hdb.of_eq (deleteProvider_ok hc).1.keys
  | createModel =>
    obtain ⟨c,hc,rfl⟩ := map_eq_ok.mp h
    exact hdb.of_eq (createModel_ok hc).1.keys
  | deleteModel =>
    obtain ⟨c,hc,rfl⟩ := map_eq_ok.mp h
    exact hdb.of_eq (deleteModel_ok hc).1.keys
  | updateModel =>
    obtain ⟨c,hc,rfl⟩ := map_eq_ok.mp h
    exact hdb.of_eq (updateModel_ok hc).1.keys

/-- The clock of a request reads a year that `DateTime` has. -/
def AdminRequest.Clocked : AdminRequest → Prop
  | .write m => ∀ now ∈ m.clock, InYears now
  | _ => True

instance : DecidablePred AdminRequest.Clocked
  | .write m => inferInstanceAs (Decidable (∀ now ∈ m.clock, InYears now))
  | .listProviders _ => inferInstanceAs (Decidable True)
  | .getProvider _ => inferInstanceAs (Decidable True)
  | .listModels _ => inferInstanceAs (Decidable True)
  | .getModel _ => inferInstanceAs (Decidable True)
  | .listApiKeys _ => inferInstanceAs (Decidable True)

namespace Catalog

theorem shown_handle (hashKey : String → String) (db : Database) (r : AdminRequest)
    (hdb : db.Dated) (hr : r.Clocked) : (r.handle hashKey db).2.Dated ∧
      shown (r.handle hashKey db).2.toTables =
        (shown db.toTables).record (r,(r.handle hashKey db).1) := by
  cases r with
  | write m =>
    cases hm : m.respond hashKey db with
    | ok c =>
      rw [AdminRequest.handle_write_ok hm]
      exact ⟨Mutation.respond_dated hdb hr hm,shown_respond hr hm⟩
    | error e =>
      rw [AdminRequest.handle_write_error hm]
      refine ⟨hdb,?_⟩
      cases m <;> rfl
  | getProvider id =>
    simp only [AdminRequest.handle]
    cases db.getProvider id with
    | some p => exact ⟨hdb,rfl⟩
    | none => exact ⟨hdb,rfl⟩
  | getModel name =>
    simp only [AdminRequest.handle]
    cases db.getModel name with
    | some m => exact ⟨hdb,rfl⟩
    | none => exact ⟨hdb,rfl⟩
  | listProviders => exact ⟨hdb,rfl⟩
  | listModels => exact ⟨hdb,rfl⟩
  | listApiKeys => exact ⟨hdb,rfl⟩

theorem shown_tells (hashKey : String → String) {db : Database} (hdb : db.Dated) (r : AdminRequest) :
    (shown db.toTables).Tells r (r.handle hashKey db).1 := by
  cases r with
  | write m => exact trivial
  | getProvider id =>
    have hfind := find?_map_view ProviderRow.shown ProviderRow.id ProviderResponse.id
      (fun _ => rfl) id (l := db.providers)
    unfold Tells AdminRequest.handle Database.getProvider
    show _ = _
    simp only [shown,← hfind]
    cases db.providers.find? fun r => r.id == id with
    | some row => rfl
    | none => rfl
  | getModel name =>
    have hfind := find?_map_view ModelRow.shown ModelRow.name ModelResponse.name
      (fun _ => rfl) name (l := db.models)
    unfold Tells AdminRequest.handle Database.getModel
    show _ = _
    simp only [shown,← hfind]
    cases db.models.find? fun r => r.name == name with
    | some row => rfl
    | none => rfl
  | listProviders scan =>
    refine ⟨_,rfl,?_⟩
    simp only [Tables.listProviders,List.map_map]
    exact orderBy_shown ProviderRow.shown scan fun _ _ => rfl
  | listModels scan =>
    refine ⟨_,rfl,?_⟩
    simp only [Tables.listModels,List.map_map]
    exact orderBy_shown ModelRow.shown scan fun _ _ => rfl
  | listApiKeys scan =>
    refine ⟨_,rfl,?_⟩
    simp only [Tables.listApiKeys,List.map_map]
    exact orderBy_shown ApiKeyRow.shown scan hdb

end Catalog

/-- Whatever is asked from whatever tables, each read answers from what the answers so far made
of the catalog the server showed at the start. -/
theorem reads_follow_writes (hashKey : String → String) (db : Database) (hdb : db.Dated)
    (rs : List AdminRequest) (hrs : ∀ r ∈ rs, r.Clocked) (read : AdminRequest) :
    ((rs.zip (answers (AdminRequest.handle hashKey) db rs)).foldl Catalog.record
        (.shown db.toTables)).Tells read
      (read.handle hashKey (after (AdminRequest.handle hashKey) db rs)).1 := by
  obtain ⟨hlast,hshown⟩ := view_after (fun db : Database => Catalog.shown db.toTables)
    (Catalog.shown_handle hashKey) hdb hrs
  rw [← hshown]
  exact Catalog.shown_tells hashKey hlast read

/-- A key is created and renamed next to a provider that is deleted with its model. -/
def demoWrites : List AdminRequest :=
  [.write (.createProvider ⟨.ok,fun _ => .ok ()⟩ 4000000000 ⟨"p",.ollama,"http://u",none,true⟩ "a"),
    .write (.createModel 5000000000 ⟨"m","a","up",true⟩ "b"),
    .write (.createApiKey 6500000000 ⟨"k",none⟩ "c" "ait-0123456789abc"),
    .write (.deleteProvider "a"),
    .write (.updateApiKey 7000000000 "c" { name := some " renamed ",expiresAt := some 9 })]

theorem reads_follow_writes_renamed :
    let db : Database := ⟨⟨[],[],[]⟩,by decide⟩
    let last := after (AdminRequest.handle id) db demoWrites
    ((AdminRequest.getModel "m").handle id last).1 =
        .error (.notFound "Model 'm' not found") ∧
      ∃ l, ((AdminRequest.listApiKeys .stored).handle id last).1 = .ok ⟨200,.apiKeys l,none⟩ ∧
        l.Perm [⟨"c","ait-01******abc","renamed",6,7,true,some 9⟩] := by
  intro db last
  have hclocked : ∀ r ∈ demoWrites, r.Clocked := by decide
  have hdated : db.Dated := fun r hr => absurd hr List.not_mem_nil
  have hmodel := reads_follow_writes id db hdated demoWrites hclocked (.getModel "m")
  have hkeys := reads_follow_writes id db hdated demoWrites hclocked (.listApiKeys .stored)
  have hfiled : (demoWrites.zip (answers (AdminRequest.handle id) db demoWrites)).foldl
      Catalog.record (.shown db.toTables) =
        ⟨[],[],[⟨"c","ait-01******abc","renamed",6,7,true,some 9⟩]⟩ := by decide +kernel
  rw [hfiled] at hmodel hkeys
  obtain ⟨l,hl,hperm,-⟩ := hkeys
  exact ⟨hmodel,l,hl,hperm⟩

end Ait
