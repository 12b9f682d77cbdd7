import Ait.Store

/-!
# What each write leaves unchanged

The three queries that caches hold answers of (a key by hash, a provider by id,
a model by name) are first read as membership in the tables. Each write is then
described by the answers it cannot change; every cache argument rests on these.
-/

namespace Ait
namespace Database

/-- Under a key without duplicates a search finds exactly the row with that key. -/
theorem find?_key_iff {A B : Type} [DecidableEq B] {f : A → B} {l : List A}
    (hnd : (l.map f).Nodup) {k : B} {a : A} :
    (l.find? fun x => f x == k) = some a ↔ a ∈ l ∧ f a = k := by
  constructor
  · intro h
    exact ⟨List.mem_of_find?_eq_some h,by simpa using List.find?_some h⟩
  · rintro ⟨ha,rfl⟩
    cases h : l.find? fun x => f x == f a with
    | none => simpa using List.find?_eq_none.mp h a ha
    | some b =>
      have hb : f b = f a := by simpa using List.find?_some h
      rw [List.inj_on_of_nodup_map hnd (List.mem_of_find?_eq_some h) ha hb]

@[simp] theorem keyInfo_eq_some {db : Database} {hash : String} {info : ApiKeyInfo} :
    db.keyInfo hash = some info ↔
      ∃ r ∈ db.apiKeys, r.keyHash = hash ∧ rowToApiKeyInfo r = info := by
  simp only [keyInfo,Option.map_eq_some_iff,find?_key_iff db.schema.keyHash,and_assoc]

@[simp] theorem getProvider_eq_some {db : Database} {id : String} {p : Provider} :
    db.getProvider id = some p ↔ ∃ r ∈ db.providers, r.id = id ∧ rowToProvider r = p := by
  simp only [getProvider,Option.map_eq_some_iff,find?_key_iff db.schema.providerId,and_assoc]

/-- The join returns a pair exactly when the model and its provider are both enabled. -/
@[simp] theorem resolveModel_eq_some {db : Database} {name : String} {m : Model} {p : Provider} :
    db.resolveModel name = some (m,p) ↔
      ∃ r ∈ db.models, ∃ q ∈ db.providers, r.name = name ∧ r.enabled = true ∧
        q.id = r.providerId ∧ q.enabled = true ∧ rowToModel r = m ∧ rowToProvider q = p := by
  have henabled (r : ModelRow) (q : ProviderRow) :
      (db.providers.find? fun q => q.id == r.providerId && q.enabled) = some q ↔
        q ∈ db.providers ∧ q.id = r.providerId ∧ q.enabled = true := by
    constructor
    · intro h
      exact ⟨List.mem_of_find?_eq_some h,by simpa using List.find?_some h⟩
    · rintro ⟨hq,hid,hen⟩
      cases h : db.providers.find? fun q => q.id == r.providerId && q.enabled with
      | none => simpa [hid,hen] using List.find?_eq_none.mp h q hq
      | some b =>
        have hb : b.id = r.providerId ∧ b.enabled = true := by simpa using List.find?_some h
        rw [List.inj_on_of_nodup_map db.schema.providerId (List.mem_of_find?_eq_some h) hq
          (hb.1.trans hid.symm)]
  constructor
  · intro h
    obtain ⟨r,hr,h⟩ := List.exists_of_findSome?_eq_some h
    split at h
    case isFalse => cases h
    case isTrue hname =>
      obtain ⟨q,hq,he⟩ := Option.map_eq_some_iff.mp h
      obtain ⟨hq,hid,hen⟩ := (henabled r q).mp hq
      obtain ⟨rfl,rfl⟩ := Prod.mk.inj he
      exact ⟨r,hr,q,hq,hname.1,hname.2,hid,hen,rfl,rfl⟩
  · rintro ⟨r,hr,q,hq,hname,hren,hid,hqen,rfl,rfl⟩
    have hval : (if r.name = name ∧ r.enabled then
        (db.providers.find? fun p => p.id == r.providerId && p.enabled).map
          fun p => (rowToModel r,rowToProvider p) else none) =
        some (rowToModel r,rowToProvider q) := by
      rw [if_pos ⟨hname,hren⟩,(henabled r q).mpr ⟨hq,hid,hqen⟩,Option.map_some]
    cases h : db.resolveModel name with
    | none =>
      have hnone := List.findSome?_eq_none_iff.mp h r hr
      rw [hval] at hnone
      cases hnone
    | some mp =>
      obtain ⟨r',hr',h'⟩ := List.exists_of_findSome?_eq_some h
      split at h'
      case isFalse => cases h'
      case isTrue hname' =>
        obtain rfl := List.inj_on_of_nodup_map db.schema.modelName hr' hr
          (hname'.1.trans hname.symm)
        rw [if_pos ⟨hname,hren⟩] at hval
        exact h'.symm.trans hval

theorem getProvider_of_resolveModel {db : Database} {name : String} {m : Model} {p : Provider}
    (h : db.resolveModel name = some (m,p)) : db.getProvider p.id = some p := by
  obtain ⟨r,-,q,hq,-,-,-,-,-,rfl⟩ := resolveModel_eq_some.mp h
  exact getProvider_eq_some.mpr ⟨q,hq,rfl,rfl⟩

/-- A frame names the rows a write may touch; every other row is the same before and after. -/
structure KeyFrame (hash : String) (db db' : Database) : Prop where
  providers : db'.providers = db.providers
  models : db'.models = db.models
  keys : ∀ r, r.keyHash ≠ hash → (r ∈ db'.apiKeys ↔ r ∈ db.apiKeys)

structure ModelFrame (name : String) (db db' : Database) : Prop where
  providers : db'.providers = db.providers
  models : ∀ r, r.name ≠ name → (r ∈ db'.models ↔ r ∈ db.models)
  keys : db'.apiKeys = db.apiKeys

structure ProviderFrame (id : String) (db db' : Database) : Prop where
  providers : ∀ r, r.id ≠ id → (r ∈ db'.providers ↔ r ∈ db.providers)
  models : ∀ r, r.providerId ≠ id → (r ∈ db'.models ↔ r ∈ db.models)
  keys : db'.apiKeys = db.apiKeys

theorem keyInfo_congr {db db' : Database} (h : db'.apiKeys = db.apiKeys) (hash : String) :
    db'.keyInfo hash = db.keyInfo hash := by
  simp only [keyInfo,h]

theorem getProvider_congr {db db' : Database} (h : db'.providers = db.providers) (id : String) :
    db'.getProvider id = db.getProvider id := by
  simp only [getProvider,h]

theorem resolveModel_congr {db db' : Database} (hp : db'.providers = db.providers)
    (hm : db'.models = db.models) (name : String) :
    db'.resolveModel name = db.resolveModel name := by
  simp only [resolveModel,hp,hm]

theorem KeyFrame.keyInfo {hash : String} {db db' : Database} (h : KeyFrame hash db db')
    {other : String} (hne : other ≠ hash) : db'.keyInfo other = db.keyInfo other := by
  apply Option.ext
  intro info
  rw [keyInfo_eq_some,keyInfo_eq_some]
  constructor
  · rintro ⟨r,hr,rfl,hi⟩
    exact ⟨r,(h.keys r hne).mp hr,rfl,hi⟩
  · rintro ⟨r,hr,rfl,hi⟩
    exact ⟨r,(h.keys r hne).mpr hr,rfl,hi⟩

theorem ModelFrame.resolveModel {name : String} {db db' : Database} (h : ModelFrame name db db')
    {other : String} (hne : other ≠ name) : db'.resolveModel other = db.resolveModel other := by
  apply Option.ext
  rintro ⟨m,p⟩
  rw [resolveModel_eq_some,resolveModel_eq_some,h.providers]
  constructor
  · rintro ⟨r,hr,q,hq,rfl,hrest⟩
    exact ⟨r,(h.models r hne).mp hr,q,hq,rfl,hrest⟩
  · rintro ⟨r,hr,q,hq,rfl,hrest⟩
    exact ⟨r,(h.models r hne).mpr hr,q,hq,rfl,hrest⟩

theorem ProviderFrame.getProvider {id : String} {db db' : Database} (h : ProviderFrame id db db')
    {other : String} (hne : other ≠ id) : db'.getProvider other = db.getProvider other := by
  apply Option.ext
  intro p
  rw [getProvider_eq_some,getProvider_eq_some]
  constructor
  · rintro ⟨r,hr,rfl,hp⟩
    exact ⟨r,(h.providers r hne).mp hr,rfl,hp⟩
  · rintro ⟨r,hr,rfl,hp⟩
    exact ⟨r,(h.providers r hne).mpr hr,rfl,hp⟩

theorem ProviderFrame.resolveModel {id : String} {db db' : Database} (h : ProviderFrame id db db')
    {name : String} {m : Model} {p : Provider} (hres : db.resolveModel name = some (m,p))
    (hne : p.id ≠ id) : db'.resolveModel name = some (m,p) := by
  obtain ⟨r,hr,q,hq,hname,hren,hid,hqen,rfl,rfl⟩ := resolveModel_eq_some.mp hres
  have hq' : q ∈ db'.providers := (h.providers q hne).mpr hq
  have hr' : r ∈ db'.models := (h.models r (hid ▸ hne)).mpr hr
  exact resolveModel_eq_some.mpr ⟨r,hr',q,hq',hname,hren,hid,hqen,rfl,rfl⟩

/-- No model points at a provider that was not there, so inserting one adds no route. -/
theorem ProviderFrame.resolveModel_none {id : String} {db db' : Database}
    (h : ProviderFrame id db db') (habsent : db.getProvider id = none)
    (hmodels : db'.models = db.models) {name : String} (hnone : db.resolveModel name = none) :
    db'.resolveModel name = none := by
  rw [Option.eq_none_iff_forall_ne_some] at hnone ⊢
  rintro ⟨m,p⟩ hmp
  obtain ⟨r,hr,q,hq,hname,hren,hid,hqen,rfl,rfl⟩ := resolveModel_eq_some.mp hmp
  rw [hmodels] at hr
  have hne : q.id ≠ id := by
    intro he
    obtain ⟨q',hq',he'⟩ := List.mem_map.mp (db.schema.modelProvider r hr)
    have hsome := getProvider_eq_some.mpr ⟨q',hq',he'.trans (hid.symm.trans he),rfl⟩
    rw [habsent] at hsome
    cases hsome
  exact hnone _ (resolveModel_eq_some.mpr
    ⟨r,hr,q,(h.providers q hne).mp hq,hname,hren,hid,hqen,rfl,rfl⟩)

theorem mem_append_other {A B : Type} {f : A → B} {l : List A} {a r : A} (h : f r ≠ f a) :
    r ∈ l ++ [a] ↔ r ∈ l := by
  have hra : r ≠ a := fun e => h (congrArg f e)
  simp [hra]

/-- Rewriting the rows under one key, keeping that key, leaves the others as they were. -/
theorem mem_map_other {A B : Type} [DecidableEq B] {f : A → B} {set : A → A} {l : List A} {k : B}
    (hset : ∀ a, f (set a) = f a) {r : A} (h : f r ≠ k) :
    (r ∈ l.map fun a => if f a = k then set a else a) ↔ r ∈ l := by
  constructor
  · intro hr
    obtain ⟨a,ha,he⟩ := List.mem_map.mp hr
    split at he
    case isTrue hk => exact absurd ((congrArg f he).symm.trans ((hset a).trans hk)) h
    case isFalse => exact he ▸ ha
  · intro hr
    exact List.mem_map.mpr ⟨r,hr,if_neg h⟩

theorem new_of_nodup_append {A B : Type} {f : A → B} {l : List A} {a : A}
    (h : ((l ++ [a]).map f).Nodup) {r : A} (hr : r ∈ l) : f r ≠ f a := by
  rw [List.map_append,List.nodup_append] at h
  exact h.2.2 (f r) (List.mem_map_of_mem hr) (f a) (by simp)

theorem insertApiKey_ok {hashKey : String → String} {db db' : Database}
    {newId rawKey name : String} {now : DateTime} {expiresAt : Option DateTime}
    {reply : ApiKey × String}
    (h : db.insertApiKey hashKey newId rawKey now name expiresAt = .ok (reply,db')) :
    KeyFrame (hashKey rawKey) db db' ∧ db.keyInfo (hashKey rawKey) = none := by
  obtain ⟨_,hexec,he⟩ := map_eq_ok.mp h
  cases he
  obtain ⟨hp,hm,hk⟩ := execute_ok hexec
  have hkeys : ∃ row : ApiKeyRow, row.keyHash = hashKey rawKey ∧
      db'.apiKeys = db.apiKeys ++ [row] := ⟨_,rfl,hk⟩
  obtain ⟨row,hhash,hkeys⟩ := hkeys
  have hnew := db'.schema.keyHash
  rw [hkeys] at hnew
  rw [← hhash]
  refine ⟨⟨hp,hm,fun r hr => ?_⟩,?_⟩
  · rw [hkeys]
    exact mem_append_other hr
  · rw [Option.eq_none_iff_forall_ne_some]
    intro info hinfo
    obtain ⟨r,hr,hhash,-⟩ := keyInfo_eq_some.mp hinfo
    exact new_of_nodup_append hnew hr hhash

theorem deleteApiKey_ok {db db' : Database} {keyId hash : String}
    (h : db.deleteApiKey keyId = .ok (hash,db')) :
    (db.getApiKey keyId).map ApiKey.key = some hash ∧ KeyFrame hash db db' ∧
      db'.keyInfo hash = none := by
  unfold deleteApiKey at h
  split at h
  · cases h
  rename_i row hrow
  obtain ⟨hmem,hid⟩ := (find?_key_iff db.schema.keyId).mp hrow
  cases h
  have hkey : (db.getApiKey keyId).map ApiKey.key = some row.keyHash := by
    rw [getApiKey,hrow]
    rfl
  -- the deleted row is the only one with its id, and the only one with its hash
  have hsame : ∀ r ∈ db.apiKeys, r.id = keyId ↔ r.keyHash = row.keyHash := by
    intro r hr
    constructor
    · intro hk
      rw [List.inj_on_of_nodup_map db.schema.keyId hr hmem (hk.trans hid.symm)]
    · intro hk
      rw [List.inj_on_of_nodup_map db.schema.keyHash hr hmem hk,hid]
  refine ⟨hkey,⟨rfl,rfl,fun r hr => ?_⟩,?_⟩
  · rw [List.mem_filter]
    refine ⟨And.left,fun hm => ⟨hm,?_⟩⟩
    simpa using fun hk => hr ((hsame r hm).mp hk)
  · rw [Option.eq_none_iff_forall_ne_some]
    intro info hinfo
    obtain ⟨r,hr,hhash,-⟩ := keyInfo_eq_some.mp hinfo
    obtain ⟨hm,hne⟩ := List.mem_filter.mp hr
    simp [(hsame r hm).mpr hhash] at hne

theorem updateApiKey_ok {db db' : Database} {now : DateTime} {updates : ApiKeyUpdate}
    {apiKey : ApiKey} {hash : String}
    (h : db.updateApiKey now updates = .ok ((apiKey,hash),db')) :
    (db.getApiKey updates.id).map ApiKey.key = some hash ∧ KeyFrame hash db db' ∧
      db.keyInfo hash ≠ none := by
  unfold updateApiKey at h
  split at h
  · cases h
  rename_i stored hstored
  have hkey := congrArg (Option.map ApiKey.key) hstored
  obtain ⟨row,hrow,rfl⟩ := Option.map_eq_some_iff.mp hstored
  obtain ⟨hmem,hid⟩ := (find?_key_iff db.schema.keyId).mp hrow
  obtain ⟨_,hexec,he⟩ := map_eq_ok.mp h
  cases he
  obtain ⟨hp,hm,hk⟩ := execute_ok hexec
  have hset : ∃ set : ApiKeyRow → ApiKeyRow,
      (db'.apiKeys = db.apiKeys.map fun r => if r.id = row.id then set r else r) ∧
        ∀ r, (set r).keyHash = r.keyHash := ⟨_,hk,fun _ => rfl⟩
  obtain ⟨set,hkeys,hset⟩ := hset
  have hrow : ∀ r ∈ db.apiKeys, r.id = row.id → r = row := fun r hr hid =>
    List.inj_on_of_nodup_map db.schema.keyId hr hmem hid
  refine ⟨hkey,⟨hp,hm,fun r hr => ?_⟩,?_⟩
  · rw [hkeys]
    constructor
    · intro h
      obtain ⟨a,ha,he⟩ := List.mem_map.mp h
      split at he
      · rename_i hid
        have hhash : r.keyHash = row.keyHash := by rw [← he,hset,hrow a ha hid]
        exact absurd hhash hr
      · exact he ▸ ha
    · intro h
      exact List.mem_map.mpr ⟨r,h,if_neg fun hid => hr (congrArg ApiKeyRow.keyHash (hrow r h hid))⟩
  · rw [Option.ne_none_iff_exists']
    exact ⟨_,keyInfo_eq_some.mpr ⟨row,hmem,rfl,rfl⟩⟩

theorem insertProvider_ok {db db' : Database} {newId : String} {now : DateTime}
    {provider inserted : Provider} (h : db.insertProvider newId now provider = .ok (inserted,db')) :
    ProviderFrame inserted.id db db' ∧ db.getProvider inserted.id = none ∧
      db'.models = db.models := by
  obtain ⟨_,hexec,he⟩ := map_eq_ok.mp h
  cases he
  obtain ⟨hp,hm,hk⟩ := execute_ok hexec
  generalize hid : (if provider.id = "" then newId else provider.id) = id at hp ⊢
  have hrow : ∃ row : ProviderRow, row.id = id ∧ db'.providers = db.providers ++ [row] :=
    ⟨_,rfl,hp⟩
  obtain ⟨row,rfl,hproviders⟩ := hrow
  have hnew := db'.schema.providerId
  rw [hproviders] at hnew
  refine ⟨⟨fun r hr => ?_,fun r _ => by rw [hm],hk⟩,?_,hm⟩
  · rw [hproviders]
    exact mem_append_other hr
  · rw [Option.eq_none_iff_forall_ne_some]
    intro p hp
    obtain ⟨r,hr,hid,-⟩ := getProvider_eq_some.mp hp
    exact new_of_nodup_append hnew hr hid

theorem updateProvider_ok {db db' : Database} {now : DateTime} {updates : ProviderUpdate}
    {provider : Provider} (h : db.updateProvider now updates = .ok (provider,db')) :
    ProviderFrame updates.id db db' := by
  unfold updateProvider at h
  split at h
  · cases h
  rename_i stored hstored
  obtain ⟨row,hrow,hid,rfl⟩ := getProvider_eq_some.mp hstored
  obtain ⟨_,hexec,he⟩ := map_eq_ok.mp h
  cases he
  obtain ⟨hp,hm,hk⟩ := execute_ok hexec
  have hset : ∃ set : ProviderRow → ProviderRow,
      (db'.providers = db.providers.map fun r => if r.id = row.id then set r else r) ∧
        ∀ r, (set r).id = r.id := ⟨_,hp,fun _ => rfl⟩
  obtain ⟨set,hproviders,hset⟩ := hset
  refine ⟨fun r hr => ?_,fun r _ => by rw [hm],hk⟩
  rw [hproviders]
  exact mem_map_other hset (hid ▸ hr)

theorem deleteProvider_ok {db db' : Database} {id : String} {found : Bool}
    (h : db.deleteProvider id = (found,db')) : ProviderFrame id db db' := by
  cases h
  refine ⟨fun r hr => ?_,fun r hr => ?_,rfl⟩
  · simp [List.mem_filter,hr]
  · simp [List.mem_filter,hr]

theorem insertModel_ok {db db' : Database} {newId : String} {now : DateTime}
    {model inserted : Model} (h : db.insertModel newId now model = .ok (inserted,db')) :
    inserted.name = model.name ∧ ModelFrame inserted.name db db' ∧
      db.resolveModel inserted.name = none := by
  unfold insertModel at h
  dsimp only at h
  split at h
  · cases h
  split at h
  · cases h
  rename_i hname
  obtain ⟨_,hexec,he⟩ := map_eq_ok.mp h
  cases he
  obtain ⟨hp,hm,hk⟩ := execute_ok hexec
  refine ⟨rfl,⟨hp,fun r hr => ?_,hk⟩,?_⟩
  · rw [hm]
    exact mem_append_other hr
  · rw [Option.eq_none_iff_forall_ne_some]
    rintro ⟨m,p⟩ hmp
    obtain ⟨r,hr,q,-,hrn,-⟩ := resolveModel_eq_some.mp hmp
    exact hname (List.any_eq_true.mpr ⟨r,hr,by simpa using hrn⟩)

theorem updateModel_ok {db db' : Database} {now : DateTime} {updates : ModelUpdate}
    {model : Model} (h : db.updateModel now updates = .ok (model,db')) :
    ModelFrame updates.name db db' := by
  unfold updateModel at h
  split at h
  · cases h
  obtain ⟨_,hexec,he⟩ := map_eq_ok.mp h
  cases he
  obtain ⟨hp,hm,hk⟩ := execute_ok hexec
  have hset : ∃ set : ModelRow → ModelRow,
      (db'.models = db.models.map fun r => if r.name = updates.name then set r else r) ∧
        ∀ r, (set r).name = r.name := ⟨_,hm,fun _ => rfl⟩
  obtain ⟨set,hmodels,hset⟩ := hset
  refine ⟨hp,fun r hr => ?_,hk⟩
  rw [hmodels]
  exact mem_map_other hset hr

theorem deleteModel_ok {db db' : Database} {name : String} {found : Bool}
    (h : db.deleteModel name = (found,db')) :
    ModelFrame name db db' ∧ db'.resolveModel name = none := by
  cases h
  refine ⟨⟨rfl,fun r hr => ?_,rfl⟩,?_⟩
  · simp [List.mem_filter,hr]
  · rw [Option.eq_none_iff_forall_ne_some]
    rintro ⟨m,p⟩ hmp
    obtain ⟨r,hr,q,-,hrn,-⟩ := resolveModel_eq_some.mp hmp
    have hne := (List.mem_filter.mp hr).2
    simp [hrn] at hne

end Database
end Ait
