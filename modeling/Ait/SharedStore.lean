import Ait.Grouping
import Ait.SharedConnection
import Ait.StoreHistory

/-!
# The store under concurrent calls

Every request works on the store from a thread of its own: the writes take turns on the one
writer, the reads go on beside them on the readers of the pool. Whatever the interleaving, the
answers are those of the `Database` operations in one order, which keeps the order of calls that do
not overlap; only a list may come without rows that SQLite failed to step to or to decode.
-/

namespace Ait
open Sql Grouping

/-- The queries; a `list` meets the rows in some order. -/
inductive StoreRead
  | getProvider (id : String)
  | countProviders
  | listProviders (scan : Scan ProviderRow)
  | getModel (name : String)
  | countModels
  | listModels (scan : Scan ModelRow)
  | resolveModel (modelName : String)
  | getApiKeyByRaw (apiKey : String)
  | listApiKeys (scan : Scan ApiKeyRow)

inductive StoreAnswer
  | written (reply : StoreReply)
  | provider (found : Option Provider)
  | model (found : Option Model)
  | route (found : Option (Model × Provider))
  | apiKey (found : Option ApiKeyInfo)
  | count (rows : ℕ)
  | providers (items : List Provider)
  | models (items : List Model)
  | apiKeys (items : List ApiKey)

namespace Tables

/-- `ORDER BY name`. -/
def listProviders (scan : Scan ProviderRow) (t : Tables) : List Provider :=
  (scan.orderBy (fun r r' => r.name ≤ r'.name) t.providers).map rowToProvider

/-- `ORDER BY name`. -/
def listModels (scan : Scan ModelRow) (t : Tables) : List Model :=
  (scan.orderBy (fun r r' => r.name ≤ r'.name) t.models).map rowToModel

/-- `ORDER BY created_at`. -/
def listApiKeys (scan : Scan ApiKeyRow) (t : Tables) : List ApiKey :=
  (scan.orderBy (fun r r' => r.createdAt ≤ r'.createdAt) t.apiKeys).map rowToApiKey

/-- `SELECT ... FROM models m JOIN providers p ON p.id = m.provider_id`. -/
def resolveModel (modelName : String) (t : Tables) : Option (Model × Provider) :=
  t.models.findSome? fun m =>
    if m.name = modelName ∧ m.enabled then
      (t.providers.find? fun p => p.id == m.providerId && p.enabled).map
        fun p => (rowToModel m,rowToProvider p)
    else none

end Tables

def StoreRead.answer (hashKey : String → String) (t : Tables) : StoreRead → StoreAnswer
  | .getProvider id => .provider ((t.providers.find? fun r => r.id == id).map rowToProvider)
  | .countProviders => .count t.providers.length
  | .listProviders scan => .providers (t.listProviders scan)
  | .getModel name => .model ((t.models.find? fun r => r.name == name).map rowToModel)
  | .countModels => .count t.models.length
  | .listModels scan => .models (t.listModels scan)
  | .resolveModel modelName => .route (t.resolveModel modelName)
  | .getApiKeyByRaw apiKey =>
    .apiKey ((t.apiKeys.find? fun r => r.keyHash == hashKey apiKey).map rowToApiKeyInfo)
  | .listApiKeys scan => .apiKeys (t.listApiKeys scan)

/-- How a call into SQLite fails: with a text, or, in the loop over the rows of a list, at rows that
could not be decoded (`false`) and at a step behind those named. -/
inductive SqliteFailure
  | error (reason : String)
  | rows (reason : String) (read : List Bool)

namespace SqliteFailure

/-- `DbError::Storage(e.to_string())`. -/
def storage : SqliteFailure → DbError
  | error reason | rows reason _ => .storage reason

end SqliteFailure

/-- The rows that could be read; a list logs the others with `warn!` and leaves them out. -/
def keepRead {A : Type} : List A → List Bool → List A
  | a :: items,true :: read => a :: keepRead items read
  | _ :: items,false :: read => keepRead items read
  | _,_ => []

theorem keepRead_sublist {A : Type} (items : List A) (read : List Bool) :
    (keepRead items read).Sublist items := by
  induction items,read using keepRead.induct with
  | case1 a items read ih => exact ih.cons_cons a
  | case2 a items read ih => exact ih.cons a
  | case3 items read _ _ =>
    rw [keepRead]
    · exact List.nil_sublist items
    all_goals assumption

namespace StoreAnswer

def keep (read : List Bool) : StoreAnswer → StoreAnswer
  | providers items => .providers (keepRead items read)
  | models items => .models (keepRead items read)
  | apiKeys items => .apiKeys (keepRead items read)
  | answer => answer

end StoreAnswer

/-- What a query answers under a failure: the lists swallow it in their loop. -/
def StoreRead.outcome (hashKey : String → String) (query : StoreRead)
    (fault : Option SqliteFailure) (t : Tables) : Except DbError StoreAnswer :=
  match fault,query with
  | none,_ => .ok (query.answer hashKey t)
  | some (.rows _ read),.listProviders _ | some (.rows _ read),.listModels _
  | some (.rows _ read),.listApiKeys _ => .ok ((query.answer hashKey t).keep read)
  | some failure,_ => .error failure.storage

inductive StoreCall
  | write (op : StoreOp)
  | read (query : StoreRead)

namespace StoreOp

/-- A write as its client runs it; the writes of one statement and `delete_api_key` open no
transaction. -/
def job (hashKey : String → String) : StoreOp → Job Tables DbError StoreAnswer SqliteFailure
  | .insertProvider newId now provider =>
    .run ((fun p => .written (.provider p)) <$> Writer.insertProvider newId now provider)
  | .updateProvider now updates =>
    .transact ((fun p => .written (.provider p)) <$> Writer.updateProvider now updates)
  | .deleteProvider id => .run ((fun b => .written (.deleted b)) <$> Writer.deleteProvider id)
  | .insertModel newId now model =>
    .transact ((fun m => .written (.model m)) <$> Writer.insertModel newId now model)
  | .updateModel now updates =>
    .transact ((fun m => .written (.model m)) <$> Writer.updateModel now updates)
  | .deleteModel name => .run ((fun b => .written (.deleted b)) <$> Writer.deleteModel name)
  | .insertApiKey newId rawKey now name expiresAt =>
    .transact ((fun k => .written (.apiKey k)) <$>
      Writer.insertApiKey hashKey newId rawKey now name expiresAt)
  | .updateApiKey now updates =>
    .transact ((fun k => .written (.apiKey k)) <$> Writer.updateApiKey now updates)
  | .deleteApiKey keyId => .run ((fun h => .written (.keyDeleted h)) <$> Writer.deleteApiKey keyId)

end StoreOp

namespace StoreCall

def job (hashKey : String → String) : StoreCall → Job Tables DbError StoreAnswer SqliteFailure
  | .write op => op.job hashKey
  | .read query => .read (query.outcome hashKey)

/-- The same call on a `Database`. -/
def onDatabase (hashKey : String → String) (db : Database) :
    StoreCall → Except DbError (StoreAnswer × Database)
  | .write op => (op.onDatabase hashKey db).map fun r => (.written r.1,r.2)
  | .read (.getProvider id) => .ok (.provider (db.getProvider id),db)
  | .read (.getModel name) => .ok (.model (db.getModel name),db)
  | .read (.resolveModel modelName) => .ok (.route (db.resolveModel modelName),db)
  | .read (.getApiKeyByRaw apiKey) => .ok (.apiKey (db.getApiKeyByRaw hashKey apiKey),db)
  | .read query => .ok (query.answer hashKey db.toTables,db)

section Jobs

variable (hashKey : String → String)

theorem job_whole (call : StoreCall) : (call.job hashKey).Whole := by
  cases call with
  | read query => trivial
  | write op =>
    cases op with
    | insertProvider newId now provider => exact .last _ _
    | deleteProvider id => exact .last _ _
    | deleteModel name => exact .last _ _
    | deleteApiKey keyId =>
      refine .query _ fun found => ?_
      cases found with
      | none => exact .throw _
      | some hash => exact .last _ _
    | updateProvider | insertModel | updateModel | insertApiKey | updateApiKey => trivial

theorem map_denote {A : Type} {p : Prog Tables DbError A} {db : Database}
    {y : Except DbError (A × Database)} (h : p.denote db.toTables = Writer.outcome y)
    (reply : A → StoreReply) :
    ((fun a => StoreAnswer.written (reply a)) <$> p).denote db.toTables =
      Writer.outcome ((y.map fun r => (reply r.1,r.2)).map fun r => (.written r.1,r.2)) := by
  rw [Prog.denote_map,h]
  cases y <;> rfl

@[simp] theorem job_denote (db : Database) (call : StoreCall) :
    (call.job hashKey).denote db.toTables = Writer.outcome (call.onDatabase hashKey db) := by
  cases call with
  | read query => cases query <;> rfl
  | write op =>
    cases op with
    | insertProvider newId now provider =>
      exact map_denote (Writer.insertProvider_denote db newId now provider) _
    | updateProvider now updates => exact map_denote (Writer.updateProvider_denote db now updates) _
    | deleteProvider id => exact map_denote (Writer.deleteProvider_denote db id) _
    | insertModel newId now model => exact map_denote (Writer.insertModel_denote db newId now model) _
    | updateModel now updates => exact map_denote (Writer.updateModel_denote db now updates) _
    | deleteModel name => exact map_denote (Writer.deleteModel_denote db name) _
    | insertApiKey newId rawKey now name expiresAt =>
      exact map_denote (Writer.insertApiKey_denote db hashKey newId rawKey now name expiresAt) _
    | updateApiKey now updates => exact map_denote (Writer.updateApiKey_denote db now updates) _
    | deleteApiKey keyId => exact map_denote (Writer.deleteApiKey_denote db keyId) _

end Jobs
end StoreCall

abbrev StoreLog := List (Entry DbError StoreAnswer StoreCall)

/-- The calls one after the other; a call that fails changes nothing, and a list may be short. -/
inductive Serial (hashKey : String → String) (db₀ : Database) : StoreLog → Database → Prop
  | start : Serial hashKey db₀ [] db₀
  | done {log : StoreLog} {db db' : Database} {a : StoreAnswer} (i : ℕ) (call : StoreCall)
      (before : Serial hashKey db₀ log db) (answer : call.onDatabase hashKey db = .ok (a,db')) :
      Serial hashKey db₀ (log ++ [⟨i,call,.ok a⟩]) db'
  | refused {log : StoreLog} {db : Database} {e : DbError} (i : ℕ) (call : StoreCall)
      (before : Serial hashKey db₀ log db) (answer : call.onDatabase hashKey db = .error e) :
      Serial hashKey db₀ (log ++ [⟨i,call,.error e⟩]) db
  | failed {log : StoreLog} {db : Database} (i : ℕ) (call : StoreCall) (reason : String)
      (before : Serial hashKey db₀ log db) :
      Serial hashKey db₀ (log ++ [⟨i,call,.error (.storage reason)⟩]) db
  | short {log : StoreLog} {db : Database} (i : ℕ) (query : StoreRead) (read : List Bool)
      (before : Serial hashKey db₀ log db) :
      Serial hashKey db₀
        (log ++ [⟨i,.read query,.ok ((query.answer hashKey db.toTables).keep read)⟩]) db

namespace Store

abbrev State := Shared Tables DbError StoreAnswer StoreCall

abbrev Op := SharedOp StoreCall SqliteFailure

/-- `pool` is `database.reader_pool_size`. -/
def run (pool : ℕ+) (hashKey : String → String) (s : State) (ops : List Op) : Option State :=
  s.run pool SqliteFailure.storage (StoreCall.job hashKey) ops

section Runs

variable {hashKey : String → String} {db₀ : Database}

theorem serial_faulty {log : StoreLog} {db : Database} (h : Serial hashKey db₀ log db) (i : ℕ)
    (query : StoreRead) (x : SqliteFailure) :
    Serial hashKey db₀ (log ++ [⟨i,.read query,query.outcome hashKey (some x) db.toTables⟩]) db := by
  cases x with
  | error reason => cases query <;> exact .failed i _ reason h
  | rows reason read =>
    cases query <;> first | exact .failed i _ reason h | exact .short i _ read h

theorem serial_of_replays {log : StoreLog} {t : Tables}
    (h : Replays SqliteFailure.storage (StoreCall.job hashKey) db₀.toTables log t) :
    ∃ db : Database, db.toTables = t ∧ Serial hashKey db₀ log db := by
  induction h with
  | start => exact ⟨db₀,rfl,.start⟩
  | next before legal ih =>
    rename_i log t t' e
    obtain ⟨db,rfl,hserial⟩ := ih
    obtain ⟨i,call,r⟩ := e
    have hjob := StoreCall.job_denote hashKey db call
    cases legal with
    | done all =>
      obtain ⟨⟨a',db'⟩,hop,hr⟩ := map_eq_ok.mp (hjob.symm.trans all)
      obtain ⟨rfl,rfl⟩ := Prod.mk.inj hr
      exact ⟨db',rfl,.done i call hserial hop⟩
    | refused all =>
      rw [hjob] at all
      cases hop : call.onDatabase hashKey db with
      | ok r =>
        rw [hop] at all
        cases all
      | error e' =>
        rw [hop] at all
        obtain rfl := Except.error.inj all
        exact ⟨db,rfl,.refused i call hserial hop⟩
    | failed x => cases x <;> exact ⟨db,rfl,.failed i call _ hserial⟩
    | faulty reads x =>
      cases call with
      | read query =>
        obtain rfl := Job.read.inj reads
        exact ⟨db,rfl,serial_faulty hserial i query x⟩
      | write op => cases op <;> cases reads

end Runs

/-- However the calls interleave, fail and panic: the committed tables and the answers are those of
the `Database` operations in one order, but for rows left out of a list; a call takes part at most
once, it does so when its caller has an answer, and behind every call answered before it began.
A connection serves one call at a time, and no panic leaves the others stuck: who has no answer goes
on, or waits for a connection whose holder does. -/
theorem store_linearizable (pool : ℕ+) (hashKey : String → String) (db₀ : Database)
    (ops ops' : List Op) (s t : State) (hs : run pool hashKey (.start db₀.toTables) ops = some s)
    (ht : run pool hashKey s ops' = some t) :
    (∃ db : Database, db.toTables = t.conn.committed ∧ Serial hashKey db₀ t.log db) ∧
      (t.log.map Entry.client).Nodup ∧
      (∀ i c r, t.clients i = some c → c.phase.answer = some r → ⟨i,c.call,r⟩ ∈ t.log) ∧
      (∀ i j c r, s.clients i = some c → c.phase.answer = some r → s.clients j = none →
        ∃ n : ℕ, t.log[n]? = some ⟨i,c.call,r⟩ ∧
          ∀ (m : ℕ) e, t.log[m]? = some e → e.client = j → n < m) ∧
      (∀ i j c d, t.clients i = some c → t.clients j = some d →
        (c.phase.Holds ∧ d.phase.Holds ∨
          ∃ index, c.phase.reader = some index ∧ d.phase.reader = some index) → i = j) ∧
      ∀ i c, t.clients i = some c → c.phase ≠ .panicked → (∀ r, c.phase ≠ .returned r) →
        ∃ j, (j = i ∨ t.Blocks j c) ∧ ∃ u, run pool hashKey t [.work j none] = some u := by
  have hwhole := StoreCall.job_whole hashKey
  have hsound := (Sound.start db₀.toTables).run hwhole hs
  have hafter := hsound.run hwhole ht
  refine ⟨serial_of_replays hafter.replays,hafter.once,?_,?_,?_,?_⟩
  · exact fun i c r hc hr => (hafter.stands i c hc).fixed r hr
  · exact fun i j c r hc hr hj => hsound.later ht hc hr hj
  · exact fun i j c d hc hd hsame => hafter.alone hc hd hsame
  · intro i c hc hpanicked hreturned
    obtain ⟨j,hj,u,hstep⟩ := hafter.progress pool hc ⟨hpanicked,hreturned⟩
    refine ⟨j,hj,u,?_⟩
    rw [run,Shared.run,List.foldlM_cons,hstep]
    rfl

/-- With one reader: an update panics inside its transaction and a model is inserted all the same;
the route of the model is looked up before, while the providers are listed, which leaves out the
second row, and after. -/
theorem store_linearizable_panic :
    let row : String → ProviderRow := fun id => ⟨id,id,"openai_compat","https://p1",none,true,0,0⟩
    let db : Database := ⟨⟨[row "p1",row "p2"],[],[]⟩,by decide⟩
    let update : StoreOp := .updateProvider 5 ⟨"p1",none,none,none,none,some false⟩
    let insert : StoreOp := .insertModel "m1" 7 ⟨"","gpt","p1","gpt-4o",true,0,0⟩
    let early : List Op := [.call 0 (.write update),.work 0 none,.call 1 (.write insert),.work 0 none,
      .work 0 none,.panic 0,.call 4 (.read (.listProviders .stored)),.work 4 none,.work 4 none,
      .call 2 (.read (.resolveModel "gpt")),.work 2 none,.work 2 none,.work 2 none,
      .work 4 (some (.rows "disk I/O error" [true])),.work 4 none,.work 2 none,.work 2 none,.work 2 none]
    let late : List Op := [.call 3 (.read (.resolveModel "gpt")),.work 1 none,.work 1 none,
      .work 1 none,.work 1 none,.work 1 none,.work 3 none,.work 3 none,.work 3 none]
    ∃ s t : State, run 1 id (.start db.toTables) early = some s ∧ run 1 id s late = some t ∧
      (∃ db' : Database, db'.toTables = t.conn.committed ∧ Serial id db t.log db') ∧
      t.log.map Entry.client = [4,2,1,3] ∧
      ∃ n : ℕ, (t.log[n]?).map Entry.client = some 2 ∧
        ∀ (m : ℕ) e, t.log[m]? = some e → e.client = 3 → n < m := by
  intro row db update insert early late
  have hruns : (run 1 id (.start db.toTables) early).bind (fun s => (run 1 id s late).map fun t =>
      (((s.clients 2).bind fun c => c.phase.answer).isSome,(s.clients 3).isNone,
        t.log.map Entry.client)) = some (true,true,[4,2,1,3]) := by decide +kernel
  obtain ⟨s,hs,hruns⟩ := Option.bind_eq_some_iff.mp hruns
  obtain ⟨t,ht,hruns⟩ := Option.map_eq_some_iff.mp hruns
  rw [Prod.mk.injEq,Prod.mk.injEq] at hruns
  obtain ⟨hanswer,hnew,hlog⟩ := hruns
  have h := store_linearizable 1 id db early late s t hs ht
  obtain ⟨r,hr⟩ := Option.isSome_iff_exists.mp hanswer
  obtain ⟨c,hc,hr⟩ := Option.bind_eq_some_iff.mp hr
  obtain ⟨n,hn,hlater⟩ := h.2.2.2.1 2 3 c r hc hr (Option.isNone_iff_eq_none.mp hnew)
  exact ⟨s,t,hs,ht,h.1,hlog,n,by rw [hn]; rfl,hlater⟩

end Store
end Ait
