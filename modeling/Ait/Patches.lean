import Ait.StoreHistory

/-!
# Partial updates

An update reads the one row it names, puts the fields of the patch into it and writes the row back.
Two patches of a row do what the one patch does in which the fields of the second override
those of the first.
-/

namespace Ait

section Rows

variable {ρ : Type} {key : ρ → String} {k : String} {f g : ρ → ρ} {l : List ρ}

def patchRows (key : ρ → String) (k : String) (f : ρ → ρ) (l : List ρ) : List ρ :=
  l.map fun r => if key r = k then f r else r

theorem patchRows_congr (h : ∀ r ∈ l, key r = k → f r = g r) :
    patchRows key k f l = patchRows key k g l := by
  refine List.map_congr_left fun r hr => ?_
  by_cases hk : key r = k
  · simp [hk,h r hr hk]
  · simp [hk]

theorem patchRows_at {row : ρ} (hnodup : (l.map key).Nodup) (hrow : row ∈ l) (hk : key row = k)
    (h : f row = g row) : patchRows key k f l = patchRows key k g l := by
  refine patchRows_congr fun r hr hkey => ?_
  obtain rfl := List.inj_on_of_nodup_map hnodup hr hrow (hkey.trans hk.symm)
  exact h

@[simp] theorem patchRows_patchRows (hf : ∀ r, key (f r) = key r) :
    patchRows key k g (patchRows key k f l) = patchRows key k (fun r => g (f r)) l := by
  rw [patchRows,patchRows,List.map_map]
  refine List.map_congr_left fun r _ => ?_
  by_cases hk : key r = k
  · simp [hk,hf]
  · simp [hk]

/-- What a view of the rows does not show of a rewriting, it does not show of the rewritten rows. -/
theorem map_patchRows {β : Type} {view : ρ → β} (h : ∀ r, view (f r) = view (g r)) :
    (patchRows key k f l).map view = (patchRows key k g l).map view := by
  rw [patchRows,patchRows,List.map_map,List.map_map]
  refine List.map_congr_left fun r _ => ?_
  by_cases hk : key r = k
  · simp [hk,h]
  · simp [hk]

@[simp] theorem exists_patchRows (hf : ∀ r, key (f r) = key r) :
    (∃ r ∈ patchRows key k f l, key r = k) ↔ ∃ r ∈ l, key r = k := by
  constructor
  · rintro ⟨r,hr,hk⟩
    obtain ⟨a,ha,rfl⟩ := List.mem_map.mp hr
    by_cases hak : key a = k
    · exact ⟨a,ha,hak⟩
    · simp [hak] at hk
  · rintro ⟨r,hr,hk⟩
    exact ⟨f r,List.mem_map.mpr ⟨r,hr,if_pos hk⟩,(hf r).trans hk⟩

end Rows

namespace ProviderUpdate

def patch (now : DateTime) (u : ProviderUpdate) (r : ProviderRow) : ProviderRow :=
  { r with
    name := u.name.getD r.name
    type := (u.providerType.getD (.fromDb r.type)).toDb
    baseUrl := u.baseUrl.getD r.baseUrl
    apiKey := match u.apiKey with
      | none => r.apiKey
      | some s => if s = "" then none else some s
    enabled := u.enabled.getD r.enabled
    updatedAt := timestamp now }

/-- Every field of `q` that is present overrides the one of `p`. -/
def override (p q : ProviderUpdate) : ProviderUpdate where
  id := p.id
  name := q.name.or p.name
  providerType := q.providerType.or p.providerType
  baseUrl := q.baseUrl.or p.baseUrl
  apiKey := q.apiKey.or p.apiKey
  enabled := q.enabled.or p.enabled

/-- A clearing value of the first patch is kept where the second is silent. -/
@[simp] theorem patch_patch (now₁ now₂ : DateTime) (p q : ProviderUpdate) (r : ProviderRow) :
    q.patch now₂ (p.patch now₁ r) = (p.override q).patch now₂ r := by
  simp only [patch,override,Option.getD_or,ProviderRow.mk.injEq,true_and,and_true]
  refine ⟨?_,?_⟩
  · cases q.providerType with
    | some t => rfl
    | none => simp
  · cases q.apiKey <;> rfl

end ProviderUpdate

namespace ModelUpdate

def patch (now : DateTime) (u : ModelUpdate) (r : ModelRow) : ModelRow :=
  { r with
    providerId := u.providerId.getD r.providerId
    upstreamModel := u.upstreamModel.getD r.upstreamModel
    enabled := u.enabled.getD r.enabled
    updatedAt := timestamp now }

def override (p q : ModelUpdate) : ModelUpdate where
  name := p.name
  providerId := q.providerId.or p.providerId
  upstreamModel := q.upstreamModel.or p.upstreamModel
  enabled := q.enabled.or p.enabled

@[simp] theorem patch_patch (now₁ now₂ : DateTime) (p q : ModelUpdate) (r : ModelRow) :
    q.patch now₂ (p.patch now₁ r) = (p.override q).patch now₂ r := by
  simp only [patch,override,Option.getD_or]

end ModelUpdate

namespace ApiKeyUpdate

def patch (now : DateTime) (u : ApiKeyUpdate) (r : ApiKeyRow) : ApiKeyRow :=
  { r with
    name := u.name.getD r.name
    enabled := u.enabled.getD r.enabled
    expiresAt := match u.expiresAt with
      | none => (optTs r.expiresAt).map timestamp
      | some t => if timestamp t = 0 then none else some (timestamp t)
    updatedAt := timestamp now }

def override (p q : ApiKeyUpdate) : ApiKeyUpdate where
  id := p.id
  name := q.name.or p.name
  enabled := q.enabled.or p.enabled
  expiresAt := q.expiresAt.or p.expiresAt

/-- The times a patch holds are `DateTime`s, which end with the representable years. -/
def InYears (u : ApiKeyUpdate) : Prop := ∀ t ∈ u.expiresAt, (fromTimestamp (timestamp t)).isSome

end ApiKeyUpdate

@[simp] theorem timestamp_ts {secs : ℤ} (h : (fromTimestamp secs).isSome) :
    timestamp (ts secs) = secs := by
  unfold fromTimestamp at h
  split at h
  · rename_i hrange
    rw [ts,fromTimestamp,if_pos hrange,Option.getD_some,timestamp]
    exact Int.mul_ediv_cancel _ (by decide)
  · cases h

@[simp] theorem timestamp_ts_ts (secs : ℤ) :
    timestamp (ts (timestamp (ts secs))) = timestamp (ts secs) := by
  refine timestamp_ts ?_
  by_cases h : (fromTimestamp secs).isSome
  · rwa [timestamp_ts h]
  · rw [ts,Option.not_isSome_iff_eq_none.mp h]
    decide

@[simp] theorem ApiKeyUpdate.patch_patch (now₁ now₂ : DateTime) {p : ApiKeyUpdate} (hp : p.InYears)
    (q : ApiKeyUpdate) (r : ApiKeyRow) :
    q.patch now₂ (p.patch now₁ r) = (p.override q).patch now₂ r := by
  simp only [patch,override,Option.getD_or,ApiKeyRow.mk.injEq,true_and]
  cases q.expiresAt with
  | some t => rfl
  | none =>
    cases ht : p.expiresAt with
    | some t =>
      by_cases hclear : timestamp t = 0
      · simp [hclear,optTs]
      · simp [hclear,optTs,timestamp_ts (hp t ht)]
    | none => cases r.expiresAt <;> simp [optTs]

namespace Database

variable {db : Database} (now : DateTime)

theorem updateProvider_row {u : ProviderUpdate} {row : ProviderRow} (hrow : row ∈ db.providers)
    (hid : row.id = u.id) : ∃ x db', db.updateProvider now u = .ok (x,db') ∧
      db'.toTables =
        { db.toTables with
          providers := patchRows ProviderRow.id u.id (u.patch now) db.providers } := by
  have hget : db.getProvider u.id = some (rowToProvider row) :=
    getProvider_eq_some.mpr ⟨row,hrow,hid,rfl⟩
  have hcheck := Tables.updateProviderRows_eq db u.id (u.patch now) fun _ => rfl
  obtain ⟨db',hexec,htables⟩ := map_eq_ok.mp hcheck.symm
  have hrows : (patchRows ProviderRow.id row.id (fun r =>
      { r with
        name := u.name.getD row.name
        type := (u.providerType.getD (.fromDb row.type)).toDb
        baseUrl := u.baseUrl.getD row.baseUrl
        apiKey := match u.apiKey with
          | none => row.apiKey
          | some s => if s = "" then none else some s
        enabled := u.enabled.getD row.enabled
        updatedAt := timestamp now }) db.providers) =
      patchRows ProviderRow.id u.id (u.patch now) db.providers := by
    rw [hid]
    exact patchRows_at db.schema.providerId hrow hid rfl
  unfold updateProvider
  rw [hget]
  refine ⟨_,db',map_eq_ok.mpr ⟨db',?_,rfl⟩,(Prod.mk.inj htables).2⟩
  rw [← hexec]
  exact congrArg (fun rows => execute { db.toTables with providers := rows }) hrows

@[simp] theorem updateProvider_unknown {u : ProviderUpdate} (h : ∀ r ∈ db.providers, r.id ≠ u.id) :
    db.updateProvider now u = .error (.notFound ("Provider '" ++ u.id ++ "' not found")) := by
  have hget : db.getProvider u.id = none := by
    rw [Option.eq_none_iff_forall_ne_some]
    intro x hx
    obtain ⟨r,hr,hid,-⟩ := getProvider_eq_some.mp hx
    exact h r hr hid
  rw [updateProvider,hget]

@[simp] theorem getModel_eq_some {name : String} {m : Model} :
    db.getModel name = some m ↔ ∃ r ∈ db.models, r.name = name ∧ rowToModel r = m := by
  simp only [getModel,Option.map_eq_some_iff,find?_key_iff db.schema.modelName,and_assoc]

/-- The update of a model that is there is the statement that writes its row. -/
theorem updateModel_eq {u : ModelUpdate} {row : ModelRow} (hrow : row ∈ db.models)
    (hname : row.name = u.name) : ∃ x, db.updateModel now u =
      (execute
        { db.toTables with
          models := patchRows ModelRow.name u.name (u.patch now) db.models }).map (x,·) := by
  have hget : db.getModel u.name = some (rowToModel row) :=
    getModel_eq_some.mpr ⟨row,hrow,hname,rfl⟩
  have hrows : (patchRows ModelRow.name u.name (fun r =>
      { r with
        providerId := u.providerId.getD row.providerId
        upstreamModel := u.upstreamModel.getD row.upstreamModel
        enabled := u.enabled.getD row.enabled
        updatedAt := timestamp now }) db.models) =
      patchRows ModelRow.name u.name (u.patch now) db.models :=
    patchRows_at db.schema.modelName hrow hname rfl
  unfold updateModel
  rw [hget]
  exact ⟨_,congrArg (fun rows => (execute { db.toTables with models := rows }).map _) hrows⟩

def KnowsProvider (db : Database) (u : ModelUpdate) : Prop :=
  ∀ id ∈ u.providerId, ∃ p ∈ db.providers, p.id = id

theorem updateModel_row {u : ModelUpdate} {row : ModelRow} (hrow : row ∈ db.models)
    (hname : row.name = u.name) (hknown : db.KnowsProvider u) :
    ∃ x db', db.updateModel now u = .ok (x,db') ∧
      db'.toTables =
        { db.toTables with models := patchRows ModelRow.name u.name (u.patch now) db.models } := by
  obtain ⟨x,heq⟩ := updateModel_eq now hrow hname
  have hcheck := Tables.updateModelRows_eq db u.name (u.patch now) fun _ => ⟨rfl,rfl⟩
  have hpass : db.models.any (fun r => r.name == u.name &&
      !Tables.hasProvider db.toTables (u.patch now r).providerId) = false := by
    rw [List.any_eq_false]
    intro r hr hbad
    simp only [Bool.and_eq_true,Bool.not_eq_true',Tables.hasProvider,List.any_eq_false] at hbad
    obtain ⟨p,hp,hid⟩ : ∃ p ∈ db.providers, p.id = (u.patch now r).providerId := by
      cases hprovider : u.providerId with
      | some id =>
        obtain ⟨p,hp,hid⟩ := hknown id hprovider
        exact ⟨p,hp,by simp [ModelUpdate.patch,hprovider,hid]⟩
      | none =>
        obtain ⟨p,hp,hid⟩ := List.mem_map.mp (db.schema.modelProvider r hr)
        exact ⟨p,hp,by simp [ModelUpdate.patch,hprovider,hid]⟩
    exact hbad.2 p hp (by simpa using hid)
  rw [Tables.updateModelRows,if_neg (by simp [hpass])] at hcheck
  obtain ⟨db',hexec,htables⟩ := map_eq_ok.mp hcheck.symm
  refine ⟨x,db',?_,(Prod.mk.inj htables).2⟩
  rw [heq]
  exact map_eq_ok.mpr ⟨db',hexec,rfl⟩

theorem updateModel_orphan {u : ModelUpdate} {row : ModelRow} (hrow : row ∈ db.models)
    (hname : row.name = u.name) (horphan : ¬db.KnowsProvider u) :
    db.updateModel now u = .error constraintFailed := by
  obtain ⟨x,heq⟩ := updateModel_eq now hrow hname
  have hcheck := Tables.updateModelRows_eq db u.name (u.patch now) fun _ => ⟨rfl,rfl⟩
  have hfail : db.models.any (fun r => r.name == u.name &&
      !Tables.hasProvider db.toTables (u.patch now r).providerId) = true := by
    simp only [KnowsProvider,not_forall] at horphan
    obtain ⟨id,hid,hnone⟩ := horphan
    refine List.any_eq_true.mpr ⟨row,hrow,?_⟩
    have hmoved : (u.patch now row).providerId = id := by
      simp [ModelUpdate.patch,Option.mem_def.mp hid]
    rw [hmoved]
    simpa [hname,Tables.hasProvider] using hnone
  rw [Tables.updateModelRows,if_pos hfail] at hcheck
  have hexec : execute
      { db.toTables with models := patchRows ModelRow.name u.name (u.patch now) db.models } =
        .error constraintFailed := by
    generalize hres : execute
      { db.toTables with models := patchRows ModelRow.name u.name (u.patch now) db.models } = res
    rw [patchRows] at hres
    rw [hres] at hcheck
    cases res with
    | ok db' => cases hcheck
    | error e => exact congrArg Except.error (Except.error.inj hcheck).symm
  rw [heq,hexec]
  rfl

@[simp] theorem updateModel_unknown {u : ModelUpdate} (h : ∀ r ∈ db.models, r.name ≠ u.name) :
    db.updateModel now u = .error (.notFound ("Model '" ++ u.name ++ "' not found")) := by
  have hget : db.getModel u.name = none := by
    rw [Option.eq_none_iff_forall_ne_some]
    intro x hx
    obtain ⟨r,hr,hname,-⟩ := getModel_eq_some.mp hx
    exact h r hr hname
  rw [updateModel,hget]

@[simp] theorem getApiKey_eq_some {id : String} {k : ApiKey} :
    db.getApiKey id = some k ↔ ∃ r ∈ db.apiKeys, r.id = id ∧ rowToApiKey r = k := by
  simp only [getApiKey,Option.map_eq_some_iff,find?_key_iff db.schema.keyId,and_assoc]

theorem updateApiKey_row {u : ApiKeyUpdate} {row : ApiKeyRow} (hrow : row ∈ db.apiKeys)
    (hid : row.id = u.id) : ∃ x db', db.updateApiKey now u = .ok (x,db') ∧
      db'.toTables =
        { db.toTables with
          apiKeys := patchRows ApiKeyRow.id u.id (u.patch now) db.apiKeys } := by
  have hget : db.getApiKey u.id = some (rowToApiKey row) :=
    getApiKey_eq_some.mpr ⟨row,hrow,hid,rfl⟩
  have hcheck := Tables.updateApiKeyRows_eq db u.id (u.patch now) fun _ => ⟨rfl,rfl⟩
  obtain ⟨db',hexec,htables⟩ := map_eq_ok.mp hcheck.symm
  have hexpiry : (match u.expiresAt with
      | none => optTs row.expiresAt
      | some t => if timestamp t = 0 then none else some t).map timestamp =
      match u.expiresAt with
        | none => (optTs row.expiresAt).map timestamp
        | some t => if timestamp t = 0 then none else some (timestamp t) := by
    cases u.expiresAt with
    | none => rfl
    | some t => by_cases hclear : timestamp t = 0 <;> simp [hclear]
  have hrows : (patchRows ApiKeyRow.id row.id (fun r =>
      { r with
        name := u.name.getD row.name
        enabled := u.enabled.getD row.enabled
        expiresAt := (match u.expiresAt with
          | none => optTs row.expiresAt
          | some t => if timestamp t = 0 then none else some t).map timestamp
        updatedAt := timestamp now }) db.apiKeys) =
      patchRows ApiKeyRow.id u.id (u.patch now) db.apiKeys := by
    rw [hid,hexpiry]
    exact patchRows_at db.schema.keyId hrow hid rfl
  unfold updateApiKey
  rw [hget]
  refine ⟨_,db',map_eq_ok.mpr ⟨db',?_,rfl⟩,(Prod.mk.inj htables).2⟩
  rw [← hexec]
  exact congrArg (fun rows => execute { db.toTables with apiKeys := rows }) hrows

@[simp] theorem updateApiKey_unknown {u : ApiKeyUpdate} (h : ∀ r ∈ db.apiKeys, r.id ≠ u.id) :
    db.updateApiKey now u = .error (.notFound "API key not found") := by
  have hget : db.getApiKey u.id = none := by
    rw [Option.eq_none_iff_forall_ne_some]
    intro x hx
    obtain ⟨r,hr,hid,-⟩ := getApiKey_eq_some.mp hx
    exact h r hr hid
  rw [updateApiKey,hget]

end Database

structure RowUpdate (U A ρ F O : Type) where
  update : Database → DateTime → U → Except DbError (A × Database)
  target : U → String
  override : U → U → U
  /-- What is asked of a patch. -/
  fits : Tables → U → Prop
  rows : Tables → List ρ
  key : ρ → String
  /-- The columns no patch reaches. -/
  fixed : ρ → F
  /-- A row but for the time of its last update. -/
  unaged : ρ → ρ
  others : Tables → O

namespace RowUpdate

variable {U A ρ F O : Type}

def after (S : RowUpdate U A ρ F O) (db : Database) (now : DateTime) (u : U) : Database :=
  match S.update db now u with
  | .ok (_,db') => db'
  | .error _ => db

/-- Two patches of a row compose; nothing but the row they name changes, and of that row no fixed
column; without such a row nothing is done. -/
structure PartialUpdates (S : RowUpdate U A ρ F O) : Prop where
  compose : ∀ (db : Database) (now₁ now₂ now : DateTime) (p q : U), S.target q = S.target p →
    (∃ r ∈ S.rows db.toTables, S.key r = S.target p) →
    S.fits db.toTables p → S.fits db.toTables q →
      ∃ x₁ db₁ x₂ db₂ x db', S.update db now₁ p = .ok (x₁,db₁) ∧
        S.update db₁ now₂ q = .ok (x₂,db₂) ∧ S.update db now (S.override p q) = .ok (x,db') ∧
        (S.rows db₂.toTables).map S.unaged = (S.rows db'.toTables).map S.unaged
  unchanged : ∀ (db : Database) (now : DateTime) (u : U) (x : A) (db' : Database),
    S.update db now u = .ok (x,db') → S.others db'.toTables = S.others db.toTables ∧
      List.Forall₂ (fun r r' => S.fixed r' = S.fixed r ∧ (S.key r ≠ S.target u → r' = r))
        (S.rows db.toTables) (S.rows db'.toTables)
  unknown : ∀ (db : Database) (now : DateTime) (u : U),
    (∀ r ∈ S.rows db.toTables, S.key r ≠ S.target u) →
      ∃ msg, S.update db now u = .error (.notFound msg)

/-- An update that rewrites its row by `patch`. -/
structure Patches (S : RowUpdate U A ρ F O) (patch : DateTime → U → ρ → ρ) : Prop where
  found : ∀ db now u, (∃ r ∈ S.rows db.toTables, S.key r = S.target u) → S.fits db.toTables u →
    ∃ x db', S.update db now u = .ok (x,db')
  written : ∀ db now u x db', S.update db now u = .ok (x,db') →
    S.rows db'.toTables = patchRows S.key (S.target u) (patch now u) (S.rows db.toTables) ∧
      S.others db'.toTables = S.others db.toTables
  missing : ∀ db now u, (∀ r ∈ S.rows db.toTables, S.key r ≠ S.target u) →
    ∃ msg, S.update db now u = .error (.notFound msg)
  key : ∀ now u r, S.key (patch now u r) = S.key r
  fixed : ∀ now u r, S.fixed (patch now u r) = S.fixed r
  unaged : ∀ now now' u r, S.unaged (patch now u r) = S.unaged (patch now' u r)
  twice : ∀ now₁ now₂ t p q r, S.fits t p →
    patch now₂ q (patch now₁ p r) = patch now₂ (S.override p q) r
  target : ∀ p q, S.target (S.override p q) = S.target p
  fits : ∀ t p q, S.fits t p → S.fits t q → S.fits t (S.override p q)
  fits_others : ∀ t t' u, S.others t' = S.others t → S.fits t u → S.fits t' u

theorem Patches.partialUpdates {S : RowUpdate U A ρ F O} {patch : DateTime → U → ρ → ρ}
    (h : S.Patches patch) : S.PartialUpdates where
  unknown := h.missing
  unchanged db now u x db' hok := by
    obtain ⟨hrows,hothers⟩ := h.written db now u x db' hok
    refine ⟨hothers,?_⟩
    rw [hrows,patchRows,List.forall₂_map_right_iff]
    refine List.forall₂_same.mpr fun r _ => ?_
    by_cases hk : S.key r = S.target u
    · simp [hk,h.fixed]
    · simp [hk]
  compose db now₁ now₂ now p q htarget hrow hp hq := by
    obtain ⟨x₁,db₁,hfirst⟩ := h.found db now₁ p hrow hp
    obtain ⟨hrows₁,hothers₁⟩ := h.written db now₁ p x₁ db₁ hfirst
    have hrow₁ : ∃ r ∈ S.rows db₁.toTables, S.key r = S.target q := by
      rw [hrows₁,htarget]
      exact (exists_patchRows (h.key now₁ p)).mpr hrow
    obtain ⟨x₂,db₂,hsecond⟩ :=
      h.found db₁ now₂ q hrow₁ (h.fits_others _ _ q hothers₁ hq)
    obtain ⟨hrows₂,-⟩ := h.written db₁ now₂ q x₂ db₂ hsecond
    have hrow' : ∃ r ∈ S.rows db.toTables, S.key r = S.target (S.override p q) := by
      rw [h.target]
      exact hrow
    obtain ⟨x,db',hmerged⟩ := h.found db now (S.override p q) hrow' (h.fits _ p q hp hq)
    obtain ⟨hrows',-⟩ := h.written db now (S.override p q) x db' hmerged
    refine ⟨x₁,db₁,x₂,db₂,x,db',hfirst,hsecond,hmerged,?_⟩
    rw [hrows₂,hrows₁,hrows',htarget,h.target,patchRows_patchRows (h.key now₁ p)]
    refine map_patchRows fun r => ?_
    rw [h.twice now₁ now₂ _ p q r hp]
    exact h.unaged now₂ now _ r

end RowUpdate

def providerUpdates :
    RowUpdate ProviderUpdate Provider ProviderRow (String × ℤ)
      (List ModelRow × List ApiKeyRow) where
  update := Database.updateProvider
  target := ProviderUpdate.id
  override := ProviderUpdate.override
  fits _ _ := True
  rows := Tables.providers
  key := ProviderRow.id
  fixed r := (r.id,r.createdAt)
  unaged r := { r with updatedAt := 0 }
  others t := (t.models,t.apiKeys)

def modelUpdates :
    RowUpdate ModelUpdate Model ModelRow (String × String × ℤ)
      (List ProviderRow × List ApiKeyRow) where
  update := Database.updateModel
  target := ModelUpdate.name
  override := ModelUpdate.override
  fits t u := ∀ id ∈ u.providerId, ∃ p ∈ t.providers, p.id = id
  rows := Tables.models
  key := ModelRow.name
  fixed r := (r.id,r.name,r.createdAt)
  unaged r := { r with updatedAt := 0 }
  others t := (t.providers,t.apiKeys)

def apiKeyUpdates :
    RowUpdate ApiKeyUpdate (ApiKey × String) ApiKeyRow (String × String × String × ℤ)
      (List ProviderRow × List ModelRow) where
  update := Database.updateApiKey
  target := ApiKeyUpdate.id
  override := ApiKeyUpdate.override
  fits _ u := u.InYears
  rows := Tables.apiKeys
  key := ApiKeyRow.id
  fixed r := (r.id,r.keyHash,r.display,r.createdAt)
  unaged r := { r with updatedAt := 0 }
  others t := (t.providers,t.models)

theorem providerUpdates_patches : providerUpdates.Patches fun now u => u.patch now where
  found db now u := by
    rintro ⟨row,hrow,hid⟩ -
    obtain ⟨x,db',hok,-⟩ := Database.updateProvider_row now hrow hid
    exact ⟨x,db',hok⟩
  written db now u x db' hok := by
    by_cases hthere : ∃ r ∈ db.providers, r.id = u.id
    · obtain ⟨row,hrow,hid⟩ := hthere
      obtain ⟨x',db'',hok',htables⟩ := Database.updateProvider_row now hrow hid
      obtain ⟨-,rfl⟩ := Prod.mk.inj (Except.ok.inj (hok'.symm.trans hok))
      simp only [providerUpdates,htables,and_self]
    · push Not at hthere
      cases (Database.updateProvider_unknown _ hthere).symm.trans hok
  missing _ _ _ h := ⟨_,Database.updateProvider_unknown _ h⟩
  key _ _ _ := rfl
  fixed _ _ _ := rfl
  unaged _ _ _ _ := rfl
  twice now₁ now₂ _ p q r _ := p.patch_patch now₁ now₂ q r
  target _ _ := rfl
  fits _ _ _ _ _ := trivial
  fits_others _ _ _ _ _ := trivial

theorem modelUpdates_patches : modelUpdates.Patches fun now u => u.patch now where
  found db now u := by
    rintro ⟨row,hrow,hname⟩ hknown
    obtain ⟨x,db',hok,-⟩ := Database.updateModel_row now hrow hname hknown
    exact ⟨x,db',hok⟩
  written db now u x db' hok := by
    by_cases hthere : ∃ r ∈ db.models, r.name = u.name
    · obtain ⟨row,hrow,hname⟩ := hthere
      by_cases hknown : db.KnowsProvider u
      · obtain ⟨x',db'',hok',htables⟩ := Database.updateModel_row now hrow hname hknown
        obtain ⟨-,rfl⟩ := Prod.mk.inj (Except.ok.inj (hok'.symm.trans hok))
        simp only [modelUpdates,htables,and_self]
      · cases (Database.updateModel_orphan _ hrow hname hknown).symm.trans hok
    · push Not at hthere
      cases (Database.updateModel_unknown _ hthere).symm.trans hok
  missing _ _ _ h := ⟨_,Database.updateModel_unknown _ h⟩
  key _ _ _ := rfl
  fixed _ _ _ := rfl
  unaged _ _ _ _ := rfl
  twice now₁ now₂ _ p q r _ := p.patch_patch now₁ now₂ q r
  target _ _ := rfl
  fits t p q hp hq := by
    intro id hid
    cases hprovider : q.providerId with
    | some other =>
      refine hq id ?_
      simpa [modelUpdates,ModelUpdate.override,hprovider] using hid
    | none =>
      refine hp id ?_
      simpa [modelUpdates,ModelUpdate.override,hprovider] using hid
  fits_others t t' u hothers hfits := by
    have hproviders : t'.providers = t.providers := (Prod.mk.inj hothers).1
    intro id hid
    rw [hproviders]
    exact hfits id hid

theorem apiKeyUpdates_patches : apiKeyUpdates.Patches fun now u => u.patch now where
  found db now u := by
    rintro ⟨row,hrow,hid⟩ -
    obtain ⟨x,db',hok,-⟩ := Database.updateApiKey_row now hrow hid
    exact ⟨x,db',hok⟩
  written db now u x db' hok := by
    by_cases hthere : ∃ r ∈ db.apiKeys, r.id = u.id
    · obtain ⟨row,hrow,hid⟩ := hthere
      obtain ⟨x',db'',hok',htables⟩ := Database.updateApiKey_row now hrow hid
      obtain ⟨-,rfl⟩ := Prod.mk.inj (Except.ok.inj (hok'.symm.trans hok))
      simp only [apiKeyUpdates,htables,and_self]
    · push Not at hthere
      cases (Database.updateApiKey_unknown _ hthere).symm.trans hok
  missing _ _ _ h := ⟨_,Database.updateApiKey_unknown _ h⟩
  key _ _ _ := rfl
  fixed _ _ _ := rfl
  unaged _ _ _ _ := rfl
  twice now₁ now₂ _ p q r hp := ApiKeyUpdate.patch_patch now₁ now₂ hp q r
  target _ _ := rfl
  fits _ p q hp hq := by
    intro t ht
    cases hexpiry : q.expiresAt with
    | some other =>
      refine hq t ?_
      simpa [apiKeyUpdates,ApiKeyUpdate.override,hexpiry] using ht
    | none =>
      refine hp t ?_
      simpa [apiKeyUpdates,ApiKeyUpdate.override,hexpiry] using ht
  fits_others _ _ _ _ h := h

/-- Partial updates of providers, of models and of keys compose; for models this is about patches
that name no unknown provider. -/
theorem partial_updates_compose : providerUpdates.PartialUpdates ∧ modelUpdates.PartialUpdates ∧
    apiKeyUpdates.PartialUpdates :=
  ⟨providerUpdates_patches.partialUpdates,modelUpdates_patches.partialUpdates,
    apiKeyUpdates_patches.partialUpdates⟩

/-- A key with an expiry: the first patch disables the key and moves its expiry, the second clears
it. -/
theorem partial_updates_compose_cleared :
    let db : Database := ⟨⟨[],[],[⟨"k1","sk-1","sk","laptop",true,0,0,some 60⟩]⟩,by decide⟩
    let p : ApiKeyUpdate := { id := "k1",enabled := some false,expiresAt := some 90000000000 }
    let q : ApiKeyUpdate := { id := "k1",expiresAt := some 500000000 }
    ∃ x₁ db₁ x₂ db₂ x db', db.updateApiKey 1 p = .ok (x₁,db₁) ∧
      db₁.updateApiKey 2 q = .ok (x₂,db₂) ∧ db.updateApiKey 3 (p.override q) = .ok (x,db') ∧
      db₂.apiKeys.map (fun r => { r with updatedAt := 0 }) =
        db'.apiKeys.map fun r => { r with updatedAt := 0 } := by
  intro db p q
  have hp : p.InYears := by
    rintro t ⟨⟩
    decide
  have hq : q.InYears := by
    rintro t ⟨⟩
    decide
  exact partial_updates_compose.2.2.compose db 1 2 3 p q rfl ⟨_,List.mem_cons_self,rfl⟩ hp hq

/-- A patch that moves a model to an unknown provider is rejected, also as part of another patch;
then what the second patch asks for alone is lost. -/
theorem rejected_patch_not_composed : ¬∀ (db : Database) (now : DateTime) (p q : ModelUpdate),
    q.name = p.name →
      let step := modelUpdates.after
      (step (step db now p) now q).models.map modelUpdates.unaged =
        (step db now (p.override q)).models.map modelUpdates.unaged := by
  intro h
  let db : Database :=
    ⟨⟨[⟨"p1","local","ollama","http://ai",none,true,0,0⟩],[⟨"m1","gpt","p1","gpt-4",true,0,0⟩],[]⟩,
      by decide⟩
  have hrows := h db 0 { name := "gpt",providerId := some "p0" }
    { name := "gpt",enabled := some false } rfl
  exact absurd hrows (by decide)

end Ait
