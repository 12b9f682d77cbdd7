import Ait.Admin
import Ait.Relational

/-!
# Upstream keys stay inside

Two databases, and two sequences of admin requests, that differ in upstream keys only, under
the same masks: every answer is the same. So the mask is all the admin API ever tells of a key.
-/

namespace Ait
open Grouping

def SameMask (r r' : ProviderRow) : Prop :=
  { r with apiKey := r.apiKey.map maskApiKey } = { r' with apiKey := r'.apiKey.map maskApiKey }

def SameMasked (p p' : Provider) : Prop :=
  { p with apiKey := p.apiKey.map maskApiKey } = { p' with apiKey := p'.apiKey.map maskApiKey }

structure SameMasks (t t' : Tables) : Prop where
  providers : List.Forall₂ SameMask t.providers t'.providers
  models : t.models = t'.models
  apiKeys : t.apiKeys = t'.apiKeys

theorem SameMask.refl (r : ProviderRow) : SameMask r r := rfl

theorem sameMask_iff {r r' : ProviderRow} : SameMask r r' ↔
    r.id = r'.id ∧ r.name = r'.name ∧ r.type = r'.type ∧ r.baseUrl = r'.baseUrl ∧
      r.apiKey.map maskApiKey = r'.apiKey.map maskApiKey ∧ r.enabled = r'.enabled ∧
      r.createdAt = r'.createdAt ∧ r.updatedAt = r'.updatedAt := by
  simp [SameMask]

theorem sameMasked_iff {p p' : Provider} : SameMasked p p' ↔
    p.id = p'.id ∧ p.name = p'.name ∧ p.providerType = p'.providerType ∧ p.baseUrl = p'.baseUrl ∧
      p.apiKey.map maskApiKey = p'.apiKey.map maskApiKey ∧ p.enabled = p'.enabled ∧
      p.createdAt = p'.createdAt ∧ p.updatedAt = p'.updatedAt := by
  simp [SameMasked]

theorem SameMask.rowToProvider {r r' : ProviderRow} (h : SameMask r r') :
    SameMasked (rowToProvider r) (rowToProvider r') := by
  obtain ⟨hid,hname,htype,hurl,hkey,hon,hcreated,hupdated⟩ := sameMask_iff.mp h
  refine sameMasked_iff.mpr ⟨hid,hname,?_,hurl,hkey,hon,?_,?_⟩
  · simp only [Ait.rowToProvider,htype]
  · simp only [Ait.rowToProvider,hcreated]
  · simp only [Ait.rowToProvider,hupdated]

theorem SameMasked.response {p p' : Provider} (h : SameMasked p p') :
    ProviderResponse.ofProvider p = ProviderResponse.ofProvider p' := by
  obtain ⟨hid,hname,htype,hurl,hkey,hon,hcreated,hupdated⟩ := sameMasked_iff.mp h
  simp only [ProviderResponse.ofProvider,hid,hname,htype,hurl,hkey,hon,hcreated,hupdated]

namespace SameMasks

variable {t t' : Tables} {db db' : Database}

theorem refl (t : Tables) : SameMasks t t :=
  ⟨List.forall₂_same.mpr fun r _ => SameMask.refl r,rfl,rfl⟩

theorem ids (h : SameMasks t t') : t.providers.map ProviderRow.id = t'.providers.map ProviderRow.id := by
  have hids := h.providers.imp fun r r' hr => (sameMask_iff.mp hr).1
  rw [← List.forall₂_eq_eq_eq,List.forall₂_map_left_iff,List.forall₂_map_right_iff]
  exact hids

theorem schema_iff (h : SameMasks t t') : t.Schema ↔ t'.Schema := by
  constructor
  · rintro ⟨hp,hm,hname,hfk,hk,hhash⟩
    rw [h.ids] at hp hfk
    rw [h.models] at hm hname hfk
    rw [h.apiKeys] at hk hhash
    exact ⟨hp,hm,hname,hfk,hk,hhash⟩
  · rintro ⟨hp,hm,hname,hfk,hk,hhash⟩
    rw [← h.ids] at hp hfk
    rw [← h.models] at hm hname hfk
    rw [← h.apiKeys] at hk hhash
    exact ⟨hp,hm,hname,hfk,hk,hhash⟩

theorem execute (h : SameMasks t t') :
    Agree (fun db db' => SameMasks db.toTables db'.toTables) (Ait.execute t) (Ait.execute t') := by
  unfold Ait.execute
  by_cases ht : t.Schema
  · rw [dif_pos ht,dif_pos (h.schema_iff.mp ht)]
    exact h
  · rw [dif_neg ht,dif_neg fun ht' => ht (h.schema_iff.mpr ht')]
    rfl

theorem getProvider (h : SameMasks db.toTables db'.toTables) (id : String) :
    Option.Rel SameMasked (db.getProvider id) (db'.getProvider id) := by
  have hfind := forall₂_find? (p := fun r => r.id == id) (q := fun r => r.id == id)
    (fun r r' hr => by rw [(sameMask_iff.mp hr).1]) h.providers
  unfold Database.getProvider
  generalize db.providers.find? (fun r => r.id == id) = found at hfind ⊢
  generalize db'.providers.find? (fun r => r.id == id) = found' at hfind ⊢
  cases hfind with
  | none => exact .none
  | some hr => exact .some hr.rowToProvider

theorem getModel (h : SameMasks db.toTables db'.toTables) (name : String) :
    db.getModel name = db'.getModel name := by
  unfold Database.getModel
  rw [h.models]

theorem getApiKey (h : SameMasks db.toTables db'.toTables) (id : String) :
    db.getApiKey id = db'.getApiKey id := by
  unfold Database.getApiKey
  rw [h.apiKeys]

theorem hasProvider (h : SameMasks t t') (id : String) :
    (t.providers.any fun r => r.id == id) = t'.providers.any fun r => r.id == id := by
  have hany (l : List ProviderRow) :
      (l.any fun r => r.id == id) = (l.map ProviderRow.id).any fun i => i == id := by
    rw [List.any_map]
    rfl
  rw [hany,hany,h.ids]

end SameMasks

/-- Two keys of a patch that clear, keep or set a key with one mask. -/
def SameSecret : Option String → Option String → Prop
  | none,none => True
  | some k,some k' => (k = "" ↔ k' = "") ∧ maskApiKey k = maskApiKey k'
  | _,_ => False

def patchedKey (update stored : Option String) : Option String :=
  match update with
  | none => stored
  | some s => if s = "" then none else some s

instance : ∀ k k' : Option String, Decidable (SameSecret k k')
  | none,none => inferInstanceAs (Decidable True)
  | some k,some k' => inferInstanceAs (Decidable ((k = "" ↔ k' = "") ∧ maskApiKey k = maskApiKey k'))
  | none,some _ => inferInstanceAs (Decidable False)
  | some _,none => inferInstanceAs (Decidable False)

theorem SameSecret.patched {k k' stored stored' : Option String} (h : SameSecret k k')
    (hstored : stored.map maskApiKey = stored'.map maskApiKey) :
    (patchedKey k stored).map maskApiKey = (patchedKey k' stored').map maskApiKey := by
  cases k with
  | none => cases k' with
    | none => exact hstored
    | some k' => exact h.elim
  | some k => cases k' with
    | none => exact h.elim
    | some k' =>
      obtain ⟨hempty,hmask⟩ := h
      by_cases hk : k = ""
      · simp [patchedKey,hk,hempty.mp hk]
      · have hk' : ¬k' = "" := fun hk' => hk (hempty.mpr hk')
        simp [patchedKey,hk,hk',hmask]

/-- A created provider is answered under its mask, and audited by its id. -/
theorem SameMasked.created {p p' : Provider} (h : SameMasked p p') :
    AdminReply.created "provider" p.id (.provider (.ofProvider p)) =
      .created "provider" p'.id (.provider (.ofProvider p')) := by
  rw [h.response,(sameMasked_iff.mp h).1]

theorem SameMasked.keyed {p : Provider} {k k' : Option String} (h : k.map maskApiKey = k'.map maskApiKey) :
    SameMasked { p with apiKey := k } { p with apiKey := k' } :=
  sameMasked_iff.mpr ⟨rfl,rfl,rfl,rfl,h,rfl,rfl,rfl⟩

structure SameUpdate (u u' : ProviderUpdate) : Prop where
  id : u.id = u'.id
  name : u.name = u'.name
  providerType : u.providerType = u'.providerType
  baseUrl : u.baseUrl = u'.baseUrl
  apiKey : SameSecret u.apiKey u'.apiKey
  enabled : u.enabled = u'.enabled

def SameResult {A : Type} (R : A → A → Prop) (x y : A × Database) : Prop :=
  R x.1 y.1 ∧ SameMasks x.2.toTables y.2.toTables

theorem SameMasks.write {A : Type} {R : A → A → Prop} {t t' : Tables} (ht : SameMasks t t') {a a' : A}
    (ha : R a a') : Agree (SameResult R) ((Ait.execute t).map fun db => (a,db))
      ((Ait.execute t').map fun db => (a',db)) :=
  ht.execute.map fun _ _ hdb => ⟨ha,hdb⟩

namespace SameMasks

section Fields

variable {t t' : Tables} (h : SameMasks t t')
include h

theorem withProviders {ps ps' : List ProviderRow} (hps : List.Forall₂ SameMask ps ps') :
    SameMasks { t with providers := ps } { t' with providers := ps' } :=
  ⟨hps,h.models,h.apiKeys⟩

theorem withModels (ms : List ModelRow) :
    SameMasks { t with models := ms } { t' with models := ms } :=
  ⟨h.providers,rfl,h.apiKeys⟩

theorem withApiKeys (ks : List ApiKeyRow) :
    SameMasks { t with apiKeys := ks } { t' with apiKeys := ks } :=
  ⟨h.providers,h.models,rfl⟩

end Fields

variable {db db' : Database} (h : SameMasks db.toTables db'.toTables)
include h

theorem insertProvider (newId : String) (now : DateTime) {p p' : Provider} (hp : SameMasked p p') :
    Agree (SameResult SameMasked) (db.insertProvider newId now p) (db'.insertProvider newId now p') := by
  obtain ⟨hid,hname,htype,hurl,hkey,hon,-,-⟩ := sameMasked_iff.mp hp
  refine SameMasks.write (h.withProviders (List.rel_append h.providers (.cons ?_ .nil))) ?_
  · exact sameMask_iff.mpr ⟨by simp only [hid],hname,by simp only [htype],hurl,hkey,hon,rfl,rfl⟩
  · exact sameMasked_iff.mpr ⟨by simp only [hid],hname,htype,hurl,hkey,hon,rfl,rfl⟩

theorem updateProvider (now : DateTime) {u u' : ProviderUpdate} (hu : SameUpdate u u') :
    Agree (SameResult SameMasked) (db.updateProvider now u) (db'.updateProvider now u') := by
  obtain ⟨hid,hname,htype,hurl,hkey,hon⟩ := hu
  have hget := h.getProvider u.id
  unfold Database.updateProvider
  rw [← hid]
  generalize db.getProvider u.id = found at hget ⊢
  generalize db'.getProvider u.id = found' at hget ⊢
  cases hget with
  | none => rfl
  | @some p p' hp =>
    obtain ⟨hid,hpname,hptype,hpurl,hpkey,hpon,hcreated,-⟩ := sameMasked_iff.mp hp
    have hpatched := hkey.patched hpkey
    have hname' : u.name.getD p.name = u'.name.getD p'.name := by rw [hname,hpname]
    have htype' : u.providerType.getD p.providerType = u'.providerType.getD p'.providerType := by
      rw [htype,hptype]
    have hurl' : u.baseUrl.getD p.baseUrl = u'.baseUrl.getD p'.baseUrl := by rw [hurl,hpurl]
    have hon' : u.enabled.getD p.enabled = u'.enabled.getD p'.enabled := by rw [hon,hpon]
    refine SameMasks.write (h.withProviders (List.rel_map ?_ h.providers)) ?_
    · intro r r' hr
      obtain ⟨hrid,hrname,hrtype,hrurl,hrkey,hron,hrcreated,hrupdated⟩ := sameMask_iff.mp hr
      show SameMask (if r.id = p.id then _ else r) (if r'.id = p'.id then _ else r')
      rw [← hrid,← hid]
      by_cases hsame : r.id = p.id
      · rw [if_pos hsame,if_pos hsame]
        exact sameMask_iff.mpr ⟨hrid,hname',congrArg ProviderType.toDb htype',hurl',hpatched,hon',hrcreated,rfl⟩
      · rw [if_neg hsame,if_neg hsame]
        exact hr
    · exact sameMasked_iff.mpr ⟨hid,hname',htype',hurl',hpatched,hon',hcreated,rfl⟩

theorem deleteProvider (id : String) :
    SameResult Eq (db.deleteProvider id) (db'.deleteProvider id) := by
  refine ⟨h.hasProvider id,List.rel_filter ?_ h.providers,?_,h.apiKeys⟩
  · intro r r' hr
    show (r.id != id) = true ↔ (r'.id != id) = true
    rw [(sameMask_iff.mp hr).1]
  · show db.models.filter _ = db'.models.filter _
    rw [h.models]

theorem insertModel (newId : String) (now : DateTime) (m : Model) :
    Agree (SameResult Eq) (db.insertModel newId now m) (db'.insertModel newId now m) := by
  simp only [Database.insertModel,← h.hasProvider,← h.models]
  split
  · rfl
  · split
    · rfl
    · exact SameMasks.write (h.withModels _) rfl

theorem updateModel (now : DateTime) (u : ModelUpdate) :
    Agree (SameResult Eq) (db.updateModel now u) (db'.updateModel now u) := by
  unfold Database.updateModel
  rw [← h.getModel,← h.models]
  split
  · rfl
  · exact SameMasks.write (h.withModels _) rfl

theorem deleteModel (name : String) : SameResult Eq (db.deleteModel name) (db'.deleteModel name) := by
  refine ⟨?_,h.providers,?_,h.apiKeys⟩
  · show db.models.any _ = db'.models.any _
    rw [h.models]
  · show db.models.filter _ = db'.models.filter _
    rw [h.models]

theorem insertApiKey (hashKey : String → String) (newId rawKey : String) (now : DateTime)
    (name : String) (expiresAt : Option DateTime) :
    Agree (SameResult Eq) (db.insertApiKey hashKey newId rawKey now name expiresAt)
      (db'.insertApiKey hashKey newId rawKey now name expiresAt) := by
  unfold Database.insertApiKey
  rw [← h.apiKeys]
  exact SameMasks.write (h.withApiKeys _) rfl

theorem updateApiKey (now : DateTime) (u : ApiKeyUpdate) :
    Agree (SameResult Eq) (db.updateApiKey now u) (db'.updateApiKey now u) := by
  unfold Database.updateApiKey
  rw [← h.getApiKey,← h.apiKeys]
  split
  · rfl
  · exact SameMasks.write (h.withApiKeys _) rfl

theorem deleteApiKey (keyId : String) :
    Agree (SameResult Eq) (db.deleteApiKey keyId) (db'.deleteApiKey keyId) := by
  have hfind : db.apiKeys.find? (fun r => r.id == keyId) = db'.apiKeys.find? fun r => r.id == keyId := by
    rw [h.apiKeys]
  unfold Database.deleteApiKey
  rw [← hfind]
  cases db.apiKeys.find? fun r => r.id == keyId with
  | none => rfl
  | some row =>
    refine ⟨rfl,h.providers,h.models,?_⟩
    show db.apiKeys.filter _ = db'.apiKeys.filter _
    rw [h.apiKeys]

end SameMasks

/-- Two keys of a request that validation and mask cannot tell apart. -/
structure SameInput (k k' : Option String) : Prop where
  secret : SameSecret (k.map trim) (k'.map trim)
  long : (k.map trim).any (·.utf8ByteSize > 512) = (k'.map trim).any (·.utf8ByteSize > 512)

structure SameCreate (i i' : CreateProviderRequest) : Prop where
  name : i.name = i'.name
  providerType : i.providerType = i'.providerType
  baseUrl : i.baseUrl = i'.baseUrl
  apiKey : SameInput i.apiKey i'.apiKey
  enabled : i.enabled = i'.enabled

structure SamePatch (i i' : UpdateProviderRequest) : Prop where
  name : i.name = i'.name
  providerType : i.providerType = i'.providerType
  baseUrl : i.baseUrl = i'.baseUrl
  apiKey : SameInput i.apiKey i'.apiKey
  enabled : i.enabled = i'.enabled

theorem Agree.checkUpstreamKey {P : Option String → Option String → Prop} {k k' : Option String}
    (hlong : k.any (·.utf8ByteSize > 512) = k'.any (·.utf8ByteSize > 512)) (h : P k k') :
    Agree P (Ait.checkUpstreamKey k) (Ait.checkUpstreamKey k') := by
  unfold Ait.checkUpstreamKey
  rw [← hlong]
  split
  · rfl
  · exact h

theorem filter_eq_patchedKey (k : Option String) : k.filter (· ≠ "") = patchedKey k none := by
  cases k with
  | none => rfl
  | some s =>
    by_cases hs : s = ""
    · simp [patchedKey,hs]
    · simp [patchedKey,hs]

theorem any_patchedKey (k : Option String) :
    (patchedKey k none).any (·.utf8ByteSize > 512) = k.any (·.utf8ByteSize > 512) := by
  cases k with
  | none => rfl
  | some s =>
    by_cases hs : s = ""
    · simp [patchedKey,hs]
    · simp [patchedKey,hs]

theorem SameInput.created {k k' : Option String} (h : SameInput k k') :
    Agree (fun k k' => k.map maskApiKey = k'.map maskApiKey)
      (checkUpstreamKey ((k.map trim).filter (· ≠ "")))
      (checkUpstreamKey ((k'.map trim).filter (· ≠ ""))) := by
  rw [filter_eq_patchedKey,filter_eq_patchedKey]
  refine Agree.checkUpstreamKey ?_ (h.secret.patched rfl)
  rw [any_patchedKey,any_patchedKey,h.long]

theorem SamePatch.providerPatch (checks : UrlChecks) (id : String) {i i' : UpdateProviderRequest}
    (h : SamePatch i i') :
    Agree SameUpdate (providerPatch checks id i) (providerPatch checks id i') := by
  obtain ⟨hname,htype,hurl,hkey,hon⟩ := h
  unfold Ait.providerPatch
  rw [← hname,← hurl]
  refine (Agree.of_eq _).bind fun name name' heq => ?_
  subst heq
  refine (Agree.of_eq _).bind fun url url' heq => ?_
  subst heq
  refine (Agree.checkUpstreamKey hkey.long hkey.secret).bind fun apiKey apiKey' hsecret => ?_
  refine (Agree.of_eq _).bind fun _ _ _ => ?_
  exact ⟨rfl,rfl,htype,rfl,hsecret,hon⟩

theorem SameSecret.refl (k : Option String) : SameSecret k k := by
  cases k with
  | none => exact trivial
  | some k => exact ⟨.rfl,rfl⟩

theorem SameInput.refl (k : Option String) : SameInput k k := ⟨.refl _,rfl⟩

theorem SameCreate.refl (i : CreateProviderRequest) : SameCreate i i := ⟨rfl,rfl,rfl,.refl _,rfl⟩

theorem SamePatch.refl (i : UpdateProviderRequest) : SamePatch i i := ⟨rfl,rfl,rfl,.refl _,rfl⟩

/-- Two writes that answer alike and leave databases that are the same under their masks. -/
def SameCommit {A : Type} (R : A → A → Prop) (c c' : Committed A) : Prop :=
  R c.reply c'.reply ∧ SameMasks c.db.toTables c'.db.toTables

theorem SameCommit.map {A B : Type} {R : A → A → Prop} {f : A → B} (hf : ∀ a a', R a a' → f a = f a')
    {x x' : Except AitError (Committed A)} (h : Agree (SameCommit R) x x') :
    Agree (SameCommit Eq) (x.map (Committed.map f)) (x'.map (Committed.map f)) :=
  h.map fun _ _ ⟨hreply,hdb⟩ => ⟨hf _ _ hreply,hdb⟩

namespace SameMasks

variable {db db' : Database} (h : SameMasks db.toTables db'.toTables)
include h

theorem createProviderHandler (checks : UrlChecks) (now : DateTime) (newId : String)
    {i i' : CreateProviderRequest} (hi : SameCreate i i') :
    Agree (SameCommit SameMasked) (Ait.createProviderHandler checks now i newId db)
      (Ait.createProviderHandler checks now i' newId db') := by
  obtain ⟨hname,htype,hurl,hkey,hon⟩ := hi
  unfold Ait.createProviderHandler
  rw [← hname,← hurl,← htype,← hon]
  refine (Agree.of_eq _).bind fun name name' heq => ?_
  subst heq
  refine (Agree.of_eq _).bind fun url url' heq => ?_
  subst heq
  refine (Agree.of_eq _).bind fun _ _ _ => ?_
  refine hkey.created.bind fun apiKey apiKey' hmask => ?_
  have hkeyed := SameMasked.keyed
    (p := ⟨"",name,i.providerType,url,none,i.enabled,unixEpoch,unixEpoch⟩) hmask
  have hinserted := h.insertProvider newId now hkeyed
  dsimp only at hinserted ⊢
  obtain ⟨e,hx,hx'⟩ | ⟨⟨p,d⟩,⟨p',d'⟩,hx,hx',hp,hd⟩ := hinserted.cases
  · rw [hx,hx']
    rfl
  · rw [hx,hx']
    exact ⟨hp,hd⟩

theorem updateProviderHandler (checks : UrlChecks) (now : DateTime) (id : String)
    {i i' : UpdateProviderRequest} (hi : SamePatch i i') :
    Agree (SameCommit SameMasked) (Ait.updateProvider checks now id i db)
      (Ait.updateProvider checks now id i' db') := by
  unfold Ait.updateProvider
  refine (hi.providerPatch checks id).bind fun u u' hu => ?_
  obtain ⟨e,hx,hx'⟩ | ⟨⟨p,d⟩,⟨p',d'⟩,hx,hx',hp,hd⟩ := (h.updateProvider now hu).cases
  · rw [hx,hx']
    rfl
  · rw [hx,hx']
    exact ⟨hp,hd⟩

theorem deleteProviderHandler (id : String) :
    Agree (SameCommit Eq) (Ait.deleteProvider id db) (Ait.deleteProvider id db') := by
  obtain ⟨hgone,hd⟩ := h.deleteProvider id
  unfold Ait.deleteProvider
  generalize db.deleteProvider id = x at hgone hd ⊢
  generalize db'.deleteProvider id = x' at hgone hd ⊢
  obtain ⟨gone,d⟩ := x
  obtain ⟨gone',d'⟩ := x'
  obtain rfl : gone = gone' := hgone
  cases gone with
  | false => rfl
  | true => exact ⟨rfl,hd⟩

theorem createModelHandler (now : DateTime) (input : CreateModelRequest) (newId : String) :
    Agree (SameCommit Eq) (Ait.createModel now input newId db) (Ait.createModel now input newId db') := by
  unfold Ait.createModel
  refine (Agree.of_eq _).bind fun name name' heq => ?_
  subst heq
  refine (Agree.of_eq _).bind fun providerId providerId' heq => ?_
  subst heq
  refine (Agree.of_eq _).bind fun upstreamModel upstreamModel' heq => ?_
  subst heq
  have hinserted := h.insertModel newId now
    ⟨"",name,providerId,upstreamModel,input.enabled,unixEpoch,unixEpoch⟩
  dsimp only
  obtain ⟨e,hx,hx'⟩ | ⟨⟨m,d⟩,⟨m',d'⟩,hx,hx',hm,hd⟩ := hinserted.cases
  · rw [hx,hx']
    rfl
  · rw [hx,hx']
    exact ⟨hm,hd⟩

theorem deleteModelHandler (name : String) :
    Agree (SameCommit Eq) (Ait.deleteModel name db) (Ait.deleteModel name db') := by
  obtain ⟨hgone,hd⟩ := h.deleteModel name
  unfold Ait.deleteModel
  generalize db.deleteModel name = x at hgone hd ⊢
  generalize db'.deleteModel name = x' at hgone hd ⊢
  obtain ⟨gone,d⟩ := x
  obtain ⟨gone',d'⟩ := x'
  obtain rfl : gone = gone' := hgone
  cases gone with
  | false => rfl
  | true => exact ⟨rfl,hd⟩

theorem updateModelHandler (now : DateTime) (name : String) (input : UpdateModelRequest) :
    Agree (SameCommit Eq) (Ait.updateModel now name input db)
      (Ait.updateModel now name input db') := by
  unfold Ait.updateModel
  refine (Agree.of_eq _).bind fun u u' heq => ?_
  subst heq
  obtain ⟨e,hx,hx'⟩ | ⟨⟨m,d⟩,⟨m',d'⟩,hx,hx',hm,hd⟩ := (h.updateModel now u).cases
  · rw [hx,hx']
    rfl
  · rw [hx,hx']
    exact ⟨hm,hd⟩

theorem createApiKeyHandler (hashKey : String → String) (now : DateTime)
    (input : CreateApiKeyRequest) (newId rawKey : String) :
    Agree (SameCommit Eq) (Ait.createApiKey hashKey now input newId rawKey db)
      (Ait.createApiKey hashKey now input newId rawKey db') := by
  unfold Ait.createApiKey
  refine (Agree.of_eq _).bind fun expiresAt expiresAt' heq => ?_
  subst heq
  refine (Agree.of_eq _).bind fun name name' heq => ?_
  subst heq
  obtain ⟨e,hx,hx'⟩ | ⟨⟨k,d⟩,⟨k',d'⟩,hx,hx',hk,hd⟩ :=
    (h.insertApiKey hashKey newId rawKey now name expiresAt).cases
  · rw [hx,hx']
    rfl
  · rw [hx,hx']
    exact ⟨hk,hd⟩

theorem updateApiKeyHandler (now : DateTime) (keyId : String) (input : UpdateApiKeyRequest) :
    Agree (SameCommit Eq) (Ait.updateApiKey now keyId input db)
      (Ait.updateApiKey now keyId input db') := by
  unfold Ait.updateApiKey
  refine (Agree.of_eq _).bind fun u u' heq => ?_
  subst heq
  obtain ⟨e,hx,hx'⟩ | ⟨⟨⟨k,hash⟩,d⟩,⟨⟨k',hash'⟩,d'⟩,hx,hx',hk,hd⟩ := (h.updateApiKey now u).cases
  · rw [hx,hx']
    rfl
  · rw [hx,hx']
    exact ⟨congrArg Prod.fst hk,hd⟩

theorem deleteApiKeyHandler (keyId : String) :
    Agree (SameCommit Eq) (Ait.deleteApiKey keyId db) (Ait.deleteApiKey keyId db') := by
  unfold Ait.deleteApiKey
  obtain ⟨e,hx,hx'⟩ | ⟨⟨hash,d⟩,⟨hash',d'⟩,hx,hx',hk,hd⟩ := (h.deleteApiKey keyId).cases
  · rw [hx,hx']
    rfl
  · rw [hx,hx']
    exact ⟨rfl,hd⟩

end SameMasks

/-- Two requests, the same but for the upstream key one of a provider's writes brings. A list
meets the rows in an order that does not come from their keys. -/
inductive AdminRequest.Alike : AdminRequest → AdminRequest → Prop
  | same {r : AdminRequest} (h : ∀ scan, r ≠ .listProviders scan) : Alike r r
  | createProvider {checks : UrlChecks} {now : DateTime} {newId : String}
      {i i' : CreateProviderRequest} (h : SameCreate i i') :
      Alike (.write (.createProvider checks now i newId)) (.write (.createProvider checks now i' newId))
  | updateProvider {checks : UrlChecks} {now : DateTime} {id : String} {i i' : UpdateProviderRequest}
      (h : SamePatch i i') :
      Alike (.write (.updateProvider checks now id i)) (.write (.updateProvider checks now id i'))
  | listProviders {scan scan' : Scan ProviderRow} (h : ∀ l l', List.Forall₂ SameMask l l' →
      List.Forall₂ SameMask (scan.arrange l) (scan'.arrange l')) :
      Alike (.listProviders scan) (.listProviders scan')

theorem SameMasks.respond {db db' : Database} (h : SameMasks db.toTables db'.toTables)
    (hashKey : String → String) (m : Mutation) :
    Agree (SameCommit Eq) (m.respond hashKey db) (m.respond hashKey db') := by
  cases m with
  | createApiKey now input newId rawKey =>
    exact SameCommit.map (fun _ _ heq => by rw [heq])
      (h.createApiKeyHandler hashKey now input newId rawKey)
  | deleteApiKey keyId => exact SameCommit.map (fun _ _ _ => rfl) (h.deleteApiKeyHandler keyId)
  | updateApiKey now keyId input =>
    exact SameCommit.map (fun _ _ heq => by rw [heq]) (h.updateApiKeyHandler now keyId input)
  | createProvider checks now input newId =>
    exact SameCommit.map (fun _ _ hp => hp.created) (h.createProviderHandler checks now newId (SameCreate.refl input))
  | updateProvider checks now id input =>
    exact SameCommit.map (fun _ _ hp => by rw [hp.response]) (h.updateProviderHandler checks now id (SamePatch.refl input))
  | deleteProvider id => exact SameCommit.map (fun _ _ _ => rfl) (h.deleteProviderHandler id)
  | createModel now input newId =>
    exact SameCommit.map (fun _ _ heq => by rw [heq]) (h.createModelHandler now input newId)
  | deleteModel name => exact SameCommit.map (fun _ _ _ => rfl) (h.deleteModelHandler name)
  | updateModel now name input =>
    exact SameCommit.map (fun _ _ heq => by rw [heq]) (h.updateModelHandler now name input)

theorem SameMasks.handle_write {db db' : Database} (h : SameMasks db.toTables db'.toTables)
    (hashKey : String → String) {m m' : Mutation}
    (hm : Agree (SameCommit Eq) (m.respond hashKey db) (m'.respond hashKey db')) :
    ((AdminRequest.write m).handle hashKey db).1 = ((AdminRequest.write m').handle hashKey db').1 ∧
      SameMasks ((AdminRequest.write m).handle hashKey db).2.toTables
        ((AdminRequest.write m').handle hashKey db').2.toTables := by
  obtain ⟨e,hx,hx'⟩ | ⟨c,c',hx,hx',hreply,hc⟩ := hm.cases
  · rw [AdminRequest.handle_write_error hx,AdminRequest.handle_write_error hx']
    exact ⟨rfl,h⟩
  · rw [AdminRequest.handle_write_ok hx,AdminRequest.handle_write_ok hx',hreply]
    exact ⟨rfl,hc⟩

theorem SameMasks.listProviders {t t' : Tables} (h : SameMasks t t') {scan scan' : Scan ProviderRow}
    (hscan : ∀ l l', List.Forall₂ SameMask l l' →
      List.Forall₂ SameMask (scan.arrange l) (scan'.arrange l')) :
    (t.listProviders scan).map ProviderResponse.ofProvider =
      (t'.listProviders scan').map ProviderResponse.ofProvider := by
  have hsorted : List.Forall₂ SameMask (scan.orderBy (fun r r' => r.name ≤ r'.name) t.providers)
      (scan'.orderBy (fun r r' => r.name ≤ r'.name) t'.providers) := by
    refine forall₂_insertionSort (fun a a' b b' ha hb => ?_) (hscan _ _ h.providers)
    rw [(sameMask_iff.mp ha).2.1,(sameMask_iff.mp hb).2.1]
  unfold Tables.listProviders
  rw [List.map_map,List.map_map,← List.forall₂_eq_eq_eq,List.forall₂_map_left_iff,
    List.forall₂_map_right_iff]
  exact hsorted.imp fun r r' hr => hr.rowToProvider.response

theorem AdminRequest.Alike.handle {r r' : AdminRequest} (hr : r.Alike r') (hashKey : String → String)
    {db db' : Database} (h : SameMasks db.toTables db'.toTables) :
    (r.handle hashKey db).1 = (r'.handle hashKey db').1 ∧
      SameMasks (r.handle hashKey db).2.toTables (r'.handle hashKey db').2.toTables := by
  cases hr with
  | createProvider hi =>
    exact h.handle_write hashKey (SameCommit.map (fun _ _ hp => hp.created)
      (h.createProviderHandler _ _ _ hi))
  | updateProvider hi =>
    exact h.handle_write hashKey (SameCommit.map (fun _ _ hp => by rw [hp.response])
      (h.updateProviderHandler _ _ _ hi))
  | listProviders hscan =>
    refine ⟨?_,h⟩
    show Except.ok _ = Except.ok _
    rw [h.listProviders hscan]
  | same hlist =>
    cases r with
    | write m => exact h.handle_write hashKey (h.respond hashKey m)
    | listProviders scan => exact absurd rfl (hlist scan)
    | getProvider id =>
      have hget := h.getProvider id
      simp only [AdminRequest.handle]
      generalize db.getProvider id = found at hget ⊢
      generalize db'.getProvider id = found' at hget ⊢
      cases hget with
      | none => exact ⟨rfl,h⟩
      | some hp =>
        dsimp only
        exact ⟨by rw [hp.response],h⟩
    | listModels scan =>
      refine ⟨?_,h⟩
      simp only [AdminRequest.handle,Tables.listModels,h.models]
    | getModel name =>
      simp only [AdminRequest.handle,← h.getModel name]
      split
      · exact ⟨rfl,h⟩
      · exact ⟨rfl,h⟩
    | listApiKeys scan =>
      refine ⟨?_,h⟩
      simp only [AdminRequest.handle,Tables.listApiKeys,h.apiKeys]

/-- Whatever is asked, the answers, the audit log and the errors come out the same for upstream
keys of the same masks. -/
theorem admin_tells_masks (hashKey : String → String) {db db' : Database}
    (hdb : SameMasks db.toTables db'.toTables) {rs rs' : List AdminRequest}
    (hrs : List.Forall₂ AdminRequest.Alike rs rs') :
    answers (AdminRequest.handle hashKey) db rs =
        answers (AdminRequest.handle hashKey) db' rs' ∧
      SameMasks (after (AdminRequest.handle hashKey) db rs).toTables
        (after (AdminRequest.handle hashKey) db' rs').toTables :=
  answers_eq (R := fun (d d' : Database) => SameMasks d.toTables d'.toTables)
    (fun _ _ _ _ hd hr => hr.handle hashKey hd) hdb hrs

def demoRequests (created patched : String) : List AdminRequest :=
  let checks : UrlChecks := ⟨.ok,fun _ => .ok ()⟩
  [.write (.createProvider checks 5 ⟨"p",.ollama,"http://u",some created,true⟩ "a"),
    .listProviders .stored,
    .write (.updateProvider checks 6 "a" { apiKey := some patched }),
    .getProvider "a"]

theorem admin_tells_masks_created :
    answers (AdminRequest.handle id) ⟨⟨[],[],[]⟩,by decide⟩ (demoRequests "sk-abc1234567890xyz" "short") =
      answers (AdminRequest.handle id) ⟨⟨[],[],[]⟩,by decide⟩
        (demoRequests " sk-abc77xyz" "other ") := by
  have hcreated : SameInput (some "sk-abc1234567890xyz") (some " sk-abc77xyz") :=
    ⟨by decide +kernel,by decide +kernel⟩
  have hpatched : SameInput (some "short") (some "other ") :=
    ⟨by decide +kernel,by decide +kernel⟩
  have hrs : List.Forall₂ AdminRequest.Alike (demoRequests "sk-abc1234567890xyz" "short")
      (demoRequests " sk-abc77xyz" "other ") :=
    .cons (.createProvider ⟨rfl,rfl,rfl,hcreated,rfl⟩) (.cons (.listProviders fun _ _ h => h)
      (.cons (.updateProvider ⟨rfl,rfl,rfl,hpatched,rfl⟩) (.cons (.same (by simp)) .nil)))
  exact (admin_tells_masks id (.refl _) hrs).1

end Ait
