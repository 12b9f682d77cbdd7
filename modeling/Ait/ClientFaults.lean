import Ait.Patches

/-!
# Faults of the client

A write that names what is not there, or a name that is taken, is a fault of the client. Each
write looks for the rows it needs before it changes any; only the update of a model leaves the
provider it moves to for the foreign key to find.
-/

namespace Ait
namespace StoreOp

/-- The input names an unknown row, an unknown provider or a taken model name. -/
def ClientFault (t : Tables) : StoreOp → Prop
  | .insertProvider .. => False
  | .updateProvider _ updates => ∀ r ∈ t.providers, r.id ≠ updates.id
  | .deleteProvider id => ∀ r ∈ t.providers, r.id ≠ id
  | .insertModel _ _ model =>
    (∀ p ∈ t.providers, p.id ≠ model.providerId) ∨ ∃ r ∈ t.models, r.name = model.name
  | .updateModel _ updates => (∀ r ∈ t.models, r.name ≠ updates.name) ∨
    ∃ id ∈ updates.providerId, ∀ p ∈ t.providers, p.id ≠ id
  | .deleteModel name => ∀ r ∈ t.models, r.name ≠ name
  | .insertApiKey .. => False
  | .updateApiKey _ updates => ∀ r ∈ t.apiKeys, r.id ≠ updates.id
  | .deleteApiKey keyId => ∀ r ∈ t.apiKeys, r.id ≠ keyId

def MovesToUnknown (t : Tables) : StoreOp → Prop
  | .updateModel _ updates => (∃ r ∈ t.models, r.name = updates.name) ∧
    ∃ id ∈ updates.providerId, ∀ p ∈ t.providers, p.id ≠ id
  | _ => False

def ToldToClient : Except DbError StoreReply → Prop
  | .ok (.deleted false) => True
  | .error (.notFound _) => True
  | .error (.duplicate _) => True
  | _ => False

def Reported (hashKey : String → String) (t : Tables) (op : StoreOp) : Prop :=
  ToldToClient (op.perform hashKey t []).1 ∧ (op.perform hashKey t []).2 = t

variable {hashKey : String → String} {db : Database}

/-- Without faults of SQLite a write answers what the `Database` operation does. -/
theorem perform_error {op : StoreOp} {e : DbError} (h : op.onDatabase hashKey db = .error e) :
    op.perform hashKey db.toTables [] = (.error e,db.toTables) := by
  obtain ⟨rest,⟨reply,db',-,hop⟩ | ⟨e',hrun,hwhy⟩⟩ := run_simulates hashKey db op []
  · cases h.symm.trans hop
  · have herror := hwhy.resolve_left List.not_mem_nil
    obtain rfl := Except.error.inj (h.symm.trans herror)
    rw [perform,List.map_nil,hrun]

theorem perform_ok {op : StoreOp} {reply : StoreReply} {db' : Database}
    (h : op.onDatabase hashKey db = .ok (reply,db')) :
    op.perform hashKey db.toTables [] = (.ok reply,db'.toTables) := by
  obtain ⟨rest,⟨reply',db'',hrun,hop⟩ | ⟨e,-,hwhy⟩⟩ := run_simulates hashKey db op []
  · obtain ⟨rfl,rfl⟩ := Prod.mk.inj (Except.ok.inj (h.symm.trans hop))
    rw [perform,List.map_nil,hrun]
  · have herror := hwhy.resolve_left List.not_mem_nil
    cases h.symm.trans herror

theorem reported_of_error (hashKey : String → String) (op : StoreOp) {e : DbError}
    (h : op.onDatabase hashKey db = .error e) :
    op.Reported hashKey db.toTables ↔ ToldToClient (.error e) := by
  rw [Reported,perform_error h]
  exact and_iff_left rfl

@[simp] theorem insertModel_orphan (newId : String) (now : DateTime) {model : Model}
    (h : ∀ p ∈ db.providers, p.id ≠ model.providerId) :
    db.insertModel newId now model =
      .error (.notFound ("Provider '" ++ model.providerId ++ "' not found")) := by
  refine if_pos ?_
  simpa [List.any_eq_false] using h

theorem insertModel_taken (newId : String) (now : DateTime) {model : Model}
    (hprovider : ∃ p ∈ db.providers, p.id = model.providerId)
    (h : ∃ r ∈ db.models, r.name = model.name) :
    db.insertModel newId now model =
      .error (.duplicate ("Model '" ++ model.name ++ "' already exists")) := by
  have hthere : db.providers.any (fun r => r.id == model.providerId) = true := by
    simpa [List.any_eq_true] using hprovider
  have htaken : db.models.any (fun r => r.name == model.name) = true := by
    simpa [List.any_eq_true] using h
  refine (if_neg ?_).trans (if_pos htaken)
  exact not_not.mpr hthere

theorem deleteProvider_unknown {id : String} (h : ∀ r ∈ db.providers, r.id ≠ id) :
    ∃ db', db.deleteProvider id = (false,db') ∧ db'.toTables = db.toTables := by
  have hnone : (db.providers.any fun r => r.id == id) = false := by
    simpa [List.any_eq_false] using h
  have hproviders : (db.providers.filter fun r => r.id != id) = db.providers := by
    rw [List.filter_eq_self]
    simpa using h
  -- no model points at a provider that is not there
  have hmodels : (db.models.filter fun r => r.providerId != id) = db.models := by
    rw [List.filter_eq_self]
    intro m hm
    obtain ⟨p,hp,hid⟩ := List.mem_map.mp (db.schema.modelProvider m hm)
    have hne := h p hp
    rw [hid] at hne
    simpa using hne
  refine ⟨(db.deleteProvider id).2,Prod.ext hnone rfl,?_⟩
  show (⟨db.providers.filter _,db.models.filter _,db.apiKeys⟩ : Tables) = db.toTables
  rw [hproviders,hmodels]

theorem deleteModel_unknown {name : String} (h : ∀ r ∈ db.models, r.name ≠ name) :
    ∃ db', db.deleteModel name = (false,db') ∧ db'.toTables = db.toTables := by
  have hnone : (db.models.any fun r => r.name == name) = false := by
    simpa [List.any_eq_false] using h
  have hmodels : (db.models.filter fun r => r.name != name) = db.models := by
    rw [List.filter_eq_self]
    simpa using h
  refine ⟨(db.deleteModel name).2,Prod.ext hnone rfl,?_⟩
  show (⟨db.providers,db.models.filter _,db.apiKeys⟩ : Tables) = db.toTables
  rw [hmodels]

@[simp] theorem deleteApiKey_unknown {keyId : String} (h : ∀ r ∈ db.apiKeys, r.id ≠ keyId) :
    db.deleteApiKey keyId = .error (.notFound "API key not found") := by
  have hnone : (db.apiKeys.find? fun r => r.id == keyId) = none := by
    rw [List.find?_eq_none]
    simpa using h
  rw [Database.deleteApiKey,hnone]

/-- A fault of the client is told to it, unless a model is moved to a provider that is not there. -/
theorem client_faults_reported_iff (hashKey : String → String) (db : Database) (op : StoreOp)
    (hfault : op.ClientFault db.toTables) :
    op.Reported hashKey db.toTables ↔ ¬op.MovesToUnknown db.toTables := by
  cases op with
  | insertProvider newId now provider => exact hfault.elim
  | insertApiKey newId rawKey now name expiresAt => exact hfault.elim
  | updateProvider now updates =>
    have hop := Database.updateProvider_unknown now hfault
    have hreported := reported_of_error hashKey
      (.updateProvider now updates) (congrArg (Except.map _) hop)
    exact iff_of_true (hreported.mpr trivial) id
  | deleteProvider id =>
    obtain ⟨db',hop,hsame⟩ := deleteProvider_unknown hfault
    have hdatabase : onDatabase hashKey db (.deleteProvider id) = .ok (.deleted false,db') := by
      rw [onDatabase,hop]
    refine iff_of_true ?_ not_false
    rw [Reported,perform_ok hdatabase]
    exact ⟨trivial,hsame⟩
  | insertModel newId now model =>
    refine iff_of_true ?_ id
    by_cases hprovider : ∃ p ∈ db.providers, p.id = model.providerId
    · have htaken := hfault.resolve_left (by push Not; exact hprovider)
      have hop := insertModel_taken newId now hprovider htaken
      exact (reported_of_error hashKey (.insertModel newId now model)
        (congrArg (Except.map _) hop)).mpr trivial
    · push Not at hprovider
      have hop := insertModel_orphan newId now hprovider
      exact (reported_of_error hashKey (.insertModel newId now model)
        (congrArg (Except.map _) hop)).mpr trivial
  | updateModel now updates =>
    by_cases hthere : ∃ r ∈ db.models, r.name = updates.name
    · have hnames := hfault.resolve_left (by push Not; exact hthere)
      obtain ⟨row,hrow,hname⟩ := hthere
      have horphan : ¬db.KnowsProvider updates := by
        obtain ⟨id,hid,hnone⟩ := hnames
        intro hknown
        obtain ⟨p,hp,hpid⟩ := hknown id hid
        exact hnone p hp hpid
      have hop := Database.updateModel_orphan now hrow hname horphan
      rw [reported_of_error hashKey (.updateModel now updates) (congrArg (Except.map _) hop)]
      exact iff_of_false id (not_not.mpr ⟨⟨row,hrow,hname⟩,hnames⟩)
    · have hnone := hthere
      push Not at hnone
      have hop := Database.updateModel_unknown now hnone
      rw [reported_of_error hashKey (.updateModel now updates) (congrArg (Except.map _) hop)]
      exact iff_of_true trivial fun hmoves => hthere hmoves.1
  | deleteModel name =>
    obtain ⟨db',hop,hsame⟩ := deleteModel_unknown hfault
    have hdatabase : onDatabase hashKey db (.deleteModel name) = .ok (.deleted false,db') := by
      rw [onDatabase,hop]
    refine iff_of_true ?_ not_false
    rw [Reported,perform_ok hdatabase]
    exact ⟨trivial,hsame⟩
  | updateApiKey now updates =>
    have hop := Database.updateApiKey_unknown now hfault
    have hreported := reported_of_error hashKey
      (.updateApiKey now updates) (congrArg (Except.map _) hop)
    exact iff_of_true (hreported.mpr trivial) id
  | deleteApiKey keyId =>
    have hreported := reported_of_error hashKey (.deleteApiKey keyId)
      (congrArg (Except.map _) (deleteApiKey_unknown hfault))
    exact iff_of_true (hreported.mpr trivial) id

/-- A second model of the same name. -/
theorem client_faults_reported_taken :
    let db : Database :=
      ⟨⟨[⟨"p1","local","ollama","http://ai",none,true,0,0⟩],
        [⟨"m1","gpt","p1","gpt-4",true,0,0⟩],[]⟩,by decide⟩
    Reported id db.toTables (.insertModel "m2" 0 ⟨"","gpt","p1","gpt-4",true,0,0⟩) := by
  intro db
  refine (client_faults_reported_iff id db _ ?_).mpr id
  exact .inr ⟨_,List.mem_cons_self,rfl⟩

/-- Moving a model to a provider that does not exist is answered with a storage fault, a 500. -/
theorem unknown_provider_storage_fault :
    let db : Database :=
      ⟨⟨[⟨"p1","local","ollama","http://ai",none,true,0,0⟩],
        [⟨"m1","gpt","p1","gpt-4",true,0,0⟩],[]⟩,by decide⟩
    let op : StoreOp := .updateModel 0 { name := "gpt",providerId := some "p0" }
    op.ClientFault db.toTables ∧ ¬op.Reported id db.toTables ∧
      ∃ msg, (op.perform id db.toTables []).1 = .error (.storage msg) ∧
        (AitError.fromDbError (.storage msg)).code = 500 := by
  intro db op
  have horphan : ¬db.KnowsProvider { name := "gpt",providerId := some "p0" } := by
    intro hknown
    obtain ⟨p,hp,hid⟩ := hknown "p0" rfl
    obtain rfl := List.mem_singleton.mp hp
    exact absurd hid (by decide)
  have hmove := Database.updateModel_orphan 0 List.mem_cons_self rfl horphan
  have hdatabase : onDatabase id db op = .error constraintFailed :=
    congrArg (Except.map fun r => (StoreReply.model r.1,r.2)) hmove
  have hop := perform_error hdatabase
  refine ⟨.inr ⟨"p0",rfl,?_⟩,?_,_,congrArg Prod.fst hop,rfl⟩
  · intro p hp
    obtain rfl := List.mem_singleton.mp hp
    decide
  · rintro ⟨htold,-⟩
    rw [hop] at htold
    exact htold

end StoreOp
end Ait
