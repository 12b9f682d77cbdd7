import Ait.Transition

/-!
# The analytics workers and their shutdown

A fixed number of workers take requests off one queue, one of them at a time waiting at it.
`shutdown` sends one `Shutdown` for each worker handle and then joins the workers, holding
the lock on the handles; it may be called any number of times and by several threads at once.
-/

namespace Ait

inductive Unwind (α : Type)
  | returned (a : α)
  | unwound

/-- `std::panic::catch_unwind`. -/
def catchUnwind {α : Type} : Unwind α → Unwind (Option α)
  | .returned a => .returned (some a)
  | .unwound => .returned none

def Unwind.andThen {α β : Type} (x : Unwind α) (f : α → Unwind β) : Unwind β :=
  match x with
  | .returned a => f a
  | .unwound => .unwound

inductive AnalyticsError
  | timeout
  | unavailable
  | failed
  deriving DecidableEq

section Query

variable {ρ : Type}

/-- A panic is contained; the query's answer is `none` then. -/
def runGuarded (query : Unwind (Except String ρ)) : Unwind (Option (Except String ρ)) :=
  catchUnwind query

def sendResult (query : Unwind (Except String ρ)) : Unwind (Option (Except AnalyticsError ρ)) :=
  (runGuarded query).andThen fun result =>
    match result with
    | some (.ok value) => .returned (some (.ok value))
    | some (.error _) => .returned (some (.error .failed))
    | none => .returned none

/-- The watchdog, armed or not, runs the query and hands its result through. -/
def runQuery (query : Unwind (Except String ρ)) : Unwind (Option (Except AnalyticsError ρ)) :=
  sendResult query

end Query

inductive AnalyticsQuery
  | requests
  | tokens
  | modelDist
  | tokenDist
  | queryProxyLogs
  | overview
  deriving DecidableEq

/-- A request carries the sender of its reply, which `resp` stands for. -/
inductive AnalyticsRequest
  | query (kind : AnalyticsQuery) (resp : ℕ)
  | shutdown
  deriving DecidableEq

inductive PoolWorker
  /-- Wants the guard of the queue. -/
  | parked
  /-- Holds the guard, in `recv`. -/
  | waiting
  | busy (resp : ℕ)
  /-- Took a `Shutdown` and checkpoints. -/
  | closing
  | exited
  deriving DecidableEq

/-- A call of `shutdown`; `count` is the number of handles it found. -/
inductive ShutdownCall
  | counting
  | sending (count left : ℕ)
  | joining (count : ℕ)
  | done
  deriving DecidableEq

structure Pool (ρ : Type) where
  queue : List AnalyticsRequest
  /-- Some `Analytics` is still there. -/
  connected : Bool
  /-- The worker that holds the guard of the queue. -/
  guard : Option ℕ
  workers : List PoolWorker
  /-- The workers that nobody has joined. -/
  handles : List ℕ
  /-- The call that holds the lock on the handles. -/
  locked : Option ℕ
  callers : List ShutdownCall
  replies : List (ℕ × Except AnalyticsError ρ)
  /-- Everything the channel accepted, in order. -/
  sent : List AnalyticsRequest
  /-- Everything that was taken off the channel, and by whom. -/
  dequeued : List (ℕ × AnalyticsRequest)

inductive PoolOp (ρ : Type)
  | request (kind : AnalyticsQuery) (resp : ℕ)
  /-- The last `Analytics` is dropped. -/
  | hangUp
  /-- A worker goes on; a query it runs gives this answer. -/
  | worker (i : ℕ) (answer : Unwind (Except String ρ))
  | call
  /-- A call of `shutdown` goes on. -/
  | caller (k : ℕ)

namespace Pool

variable {ρ : Type}

def start (ρ : Type) (n : ℕ) : Pool ρ where
  queue := []
  connected := true
  guard := none
  workers := List.replicate n .parked
  handles := List.range n
  locked := none
  callers := []
  replies := []
  sent := []
  dequeued := []

def alive (p : Pool ρ) : Bool := p.workers.any (· ≠ .exited)

def send (p : Pool ρ) (m : AnalyticsRequest) : Pool ρ :=
  if p.alive then {p with queue := p.queue ++ [m],sent := p.sent ++ [m]} else p

def setWorker (p : Pool ρ) (i : ℕ) (s : PoolWorker) : Pool ρ :=
  {p with workers := p.workers.set i s}

def setCaller (p : Pool ρ) (k : ℕ) (s : ShutdownCall) : Pool ρ :=
  {p with callers := p.callers.set k s}

def received : AnalyticsRequest → PoolWorker
  | .query _ resp => .busy resp
  | .shutdown => .closing

def stepWorker (p : Pool ρ) (i : ℕ) (answer : Unwind (Except String ρ)) : Option (Pool ρ) :=
  match p.workers[i]? with
  | some .parked => if p.guard = none then some {p.setWorker i .waiting with guard := some i} else none
  | some .waiting =>
    match p.queue with
    | m::rest =>
      -- the guard is released before the request is looked at
      some {p.setWorker i (received m) with
        guard := none,queue := rest,dequeued := p.dequeued ++ [(i,m)]}
    | [] => if p.connected then none else some {p.setWorker i .exited with guard := none}
  | some (.busy resp) =>
    match runQuery answer with
    | .returned reply =>
      some {p.setWorker i .parked with replies := p.replies ++ reply.toList.map fun r => (resp,r)}
    | .unwound => some (p.setWorker i .exited)
  | some .closing => some (p.setWorker i .exited)
  | _ => none

/-- `Analytics::shutdown`. -/
def stepCaller (p : Pool ρ) (k : ℕ) : Option (Pool ρ) :=
  match p.callers[k]? with
  | some .counting =>
    if p.locked = none then some (p.setCaller k (.sending p.handles.length p.handles.length))
    else none
  | some (.sending count (left+1)) => some ((p.send .shutdown).setCaller k (.sending count left))
  | some (.sending count 0) =>
    if p.locked = none then some {p.setCaller k (.joining count) with locked := some k} else none
  | some (.joining _) =>
    match p.handles with
    | i::rest => if p.workers[i]? = some .exited then some {p with handles := rest} else none
    | [] => some {p.setCaller k .done with locked := none}
  | _ => none

def step (p : Pool ρ) : PoolOp ρ → Option (Pool ρ)
  | .request kind resp => if p.connected then some (p.send (.query kind resp)) else none
  -- a call of `shutdown` borrows its `Analytics`
  | .hangUp => if p.callers.all (· = .done) then some {p with connected := false} else none
  | .worker i answer => p.stepWorker i answer
  | .call => if p.connected then some {p with callers := p.callers ++ [.counting]} else none
  | .caller k => p.stepCaller k

theorem runQuery_returns (query : Unwind (Except String ρ)) :
    ∃ reply, runQuery query = .returned reply := by
  rcases query with (_ | _) | _
  · exact ⟨_,rfl⟩
  · exact ⟨_,rfl⟩
  · exact ⟨_,rfl⟩

inductive Own (p : Pool ρ) : Pool ρ → Prop
  | guard (i : ℕ) : p.workers[i]? = some .parked → p.guard = none →
      Own p {p.setWorker i .waiting with guard := some i}
  | receive (i : ℕ) (m : AnalyticsRequest) (rest : List AnalyticsRequest) :
      p.workers[i]? = some .waiting → p.queue = m::rest →
      Own p {p.setWorker i (received m) with
        guard := none,queue := rest,dequeued := p.dequeued ++ [(i,m)]}
  | closed (i : ℕ) : p.workers[i]? = some .waiting → p.queue = [] → p.connected = false →
      Own p {p.setWorker i .exited with guard := none}
  | reply (i resp : ℕ) (replies : List (ℕ × Except AnalyticsError ρ)) :
      p.workers[i]? = some (.busy resp) → Own p {p.setWorker i .parked with replies}
  | exit (i : ℕ) : p.workers[i]? = some .closing → Own p (p.setWorker i .exited)
  | count (k : ℕ) : p.callers[k]? = some .counting → p.locked = none →
      Own p (p.setCaller k (.sending p.handles.length p.handles.length))
  | shutdown (k count left : ℕ) : p.callers[k]? = some (.sending count (left+1)) →
      Own p ((p.send .shutdown).setCaller k (.sending count left))
  | lock (k count : ℕ) : p.callers[k]? = some (.sending count 0) → p.locked = none →
      Own p {p.setCaller k (.joining count) with locked := some k}
  | join (k count i : ℕ) (rest : List ℕ) : p.callers[k]? = some (.joining count) →
      p.handles = i::rest → p.workers[i]? = some .exited → Own p {p with handles := rest}
  | done (k count : ℕ) : p.callers[k]? = some (.joining count) → p.handles = [] →
      Own p {p.setCaller k .done with locked := none}

theorem own_of_stepWorker {p q : Pool ρ} {i : ℕ} {answer : Unwind (Except String ρ)}
    (h : p.stepWorker i answer = some q) : Own p q := by
  unfold stepWorker at h
  cases hi : p.workers[i]? with
  | none => simp [hi] at h
  | some s =>
    cases s with
    | parked =>
      by_cases hguard : p.guard = none
      · simp only [hi,hguard,if_true,Option.some.injEq] at h
        exact h ▸ .guard i hi hguard
      · simp [hi,hguard] at h
    | waiting =>
      cases hqueue : p.queue with
      | nil =>
        by_cases hconn : p.connected = true
        · simp [hi,hqueue,hconn] at h
        · simp only [hi,hqueue,hconn,Bool.false_eq_true,if_false,Option.some.injEq] at h
          exact h ▸ .closed i hi hqueue (by simpa using hconn)
      | cons m rest =>
        simp only [hi,hqueue,Option.some.injEq] at h
        exact h ▸ .receive i m rest hi hqueue
    | busy resp =>
      obtain ⟨reply,hreply⟩ := runQuery_returns answer
      simp only [hi,hreply,Option.some.injEq] at h
      exact h ▸ .reply i resp _ hi
    | closing =>
      simp only [hi,Option.some.injEq] at h
      exact h ▸ .exit i hi
    | exited => simp [hi] at h

theorem own_of_stepCaller {p q : Pool ρ} {k : ℕ} (h : p.stepCaller k = some q) : Own p q := by
  unfold stepCaller at h
  cases hk : p.callers[k]? with
  | none => simp [hk] at h
  | some s =>
    cases s with
    | counting =>
      by_cases hlock : p.locked = none
      · simp only [hk,hlock,if_true,Option.some.injEq] at h
        exact h ▸ .count k hk hlock
      · simp [hk,hlock] at h
    | sending count left =>
      cases left with
      | zero =>
        by_cases hlock : p.locked = none
        · simp only [hk,hlock,if_true,Option.some.injEq] at h
          exact h ▸ .lock k count hk hlock
        · simp [hk,hlock] at h
      | succ left =>
        simp only [hk,Option.some.injEq] at h
        exact h ▸ .shutdown k count left hk
    | joining count =>
      cases hhandles : p.handles with
      | nil =>
        simp only [hk,hhandles,Option.some.injEq] at h
        exact h ▸ .done k count hk hhandles
      | cons i rest =>
        by_cases hi : p.workers[i]? = some .exited
        · simp only [hk,hhandles,hi,if_true,Option.some.injEq] at h
          exact h ▸ .join k count i rest hk hhandles hi
        · simp [hk,hhandles,hi] at h
    | done => simp [hk] at h

def leaving : PoolWorker → Bool
  | .closing => true
  | .exited => true
  | _ => false

/-- The number of `Shutdown`s worker `i` took, by what it is doing. -/
def Eaten (p : Pool ρ) (i : ℕ) : Option PoolWorker → Prop
  | some .closing => p.dequeued.count (i,.shutdown) = 1
  | some .exited =>
    p.dequeued.count (i,.shutdown) = 1 ∨
      p.dequeued.count (i,.shutdown) = 0 ∧ p.connected = false ∧ p.queue = []
  | _ => p.dequeued.count (i,.shutdown) = 0

/-- The queue hands everything to one worker, and a worker takes one `Shutdown` at most. -/
structure Served (n : ℕ) (p : Pool ρ) : Prop where
  size : p.workers.length = n
  fifo : p.sent = p.dequeued.map Prod.snd ++ p.queue
  guard : ∀ i, p.guard = some i ↔ p.workers[i]? = some .waiting
  eaten : ∀ i, p.Eaten i p.workers[i]?
  total : p.connected = true →
    (p.dequeued.map Prod.snd).count .shutdown = p.workers.countP leaving

section Steps

variable {n i k : ℕ} {p q : Pool ρ}

theorem served_start (n : ℕ) : Served n (start ρ n) := by
  constructor
  · simp [start]
  · simp [start]
  · intro i
    simp [start,List.getElem?_replicate]
  · intro i
    simp only [start,List.getElem?_replicate]
    by_cases hi : i < n <;> simp [hi,Eaten]
  · simp [start,List.countP_replicate,leaving]

theorem lt_of_worker {s : PoolWorker} (hi : p.workers[i]? = some s) : i < p.workers.length :=
  (List.getElem?_eq_some_iff.mp hi).1

theorem set_self {s : PoolWorker} (hi : p.workers[i]? = some s) (t : PoolWorker) :
    (p.workers.set i t)[i]? = some t := by
  simp [lt_of_worker hi]

@[simp] theorem countP_setWorker {s : PoolWorker} (hi : p.workers[i]? = some s) (t : PoolWorker) :
    (p.workers.set i t).countP leaving + (leaving s).toNat =
      p.workers.countP leaving + (leaving t).toNat := by
  have hlt := lt_of_worker hi
  have hget : p.workers[i] = s := (List.getElem?_eq_some_iff.mp hi).2
  rw [List.countP_set hlt,hget]
  have hpos : leaving s = true → 0 < p.workers.countP leaving := fun hs =>
    List.countP_pos_iff.mpr ⟨s,List.mem_of_getElem? hi,hs⟩
  cases hs : leaving s with
  | false => cases leaving t <;> simp
  | true =>
    have hone := hpos hs
    cases leaving t <;> simp only [if_true,Bool.toNat_true,Bool.toNat_false,Bool.false_eq_true,if_false] <;> omega

theorem Served.congr (h : Served n p) (hqueue : q.queue = p.queue)
    (hconn : q.connected = p.connected) (hguard : q.guard = p.guard)
    (hworkers : q.workers = p.workers) (hsent : q.sent = p.sent)
    (hdequeued : q.dequeued = p.dequeued) : Served n q := by
  constructor
  · rw [hworkers,h.size]
  · rw [hsent,hdequeued,hqueue,h.fifo]
  · intro i
    rw [hguard,hworkers,h.guard i]
  · intro i
    have heaten := h.eaten i
    unfold Eaten at heaten ⊢
    rwa [hworkers,hdequeued,hqueue,hconn]
  · rw [hconn,hdequeued,hworkers]
    exact h.total

theorem Served.send (h : Served n p) (hconn : p.connected = true) (m : AnalyticsRequest) :
    Served n (p.send m) := by
  unfold Pool.send
  by_cases halive : p.alive = true
  · rw [if_pos halive]
    constructor
    · exact h.size
    · simp [h.fifo]
    · exact h.guard
    · intro i
      have heaten := h.eaten i
      unfold Eaten at heaten ⊢
      rcases hi : p.workers[i]? with _ | (_ | _ | _ | _ | _) <;> simp_all
    · exact h.total
  · rwa [if_neg halive]

theorem Served.setWorker (h : Served n p) {s : PoolWorker} (t : PoolWorker)
    (hi : p.workers[i]? = some s)
    (hleaving : leaving s = leaving t) (heaten : p.Eaten i (some s) → p.Eaten i (some t))
    {guard : Option ℕ}
    (hguard : ∀ j, guard = some j ↔ (p.workers.set i t)[j]? = some .waiting)
    {replies : List (ℕ × Except AnalyticsError ρ)} :
    Served n {p.setWorker i t with guard,replies} := by
  constructor
  · simp [Pool.setWorker,h.size]
  · exact h.fifo
  · exact hguard
  · intro j
    have hj := h.eaten j
    by_cases hij : i = j
    · subst hij
      rw [hi] at hj
      simp only [Pool.setWorker,set_self hi]
      exact heaten hj
    · have hset : (p.workers.set i t)[j]? = p.workers[j]? := List.getElem?_set_ne hij
      simp only [Pool.setWorker,hset]
      exact hj
  · intro hconn
    have hcount := countP_setWorker hi t
    have htotal := h.total hconn
    simp only [Pool.setWorker]
    rw [hleaving] at hcount
    omega

/-- Nobody holds the guard but a waiting worker, also after another one has moved. -/
theorem Served.guard_set (h : Served n p) {s t : PoolWorker} (hi : p.workers[i]? = some s)
    (hs : s ≠ .waiting) (ht : t ≠ .waiting) (j : ℕ) :
    p.guard = some j ↔ (p.workers.set i t)[j]? = some .waiting := by
  rw [h.guard j]
  by_cases hij : i = j
  · subst hij
    rw [set_self hi,hi]
    simp [hs,ht]
  · rw [List.getElem?_set_ne hij]

theorem Served.guard_released (h : Served n p) {t : PoolWorker} (hi : p.workers[i]? = some .waiting)
    (ht : t ≠ .waiting) (j : ℕ) :
    (none : Option ℕ) = some j ↔ (p.workers.set i t)[j]? = some .waiting := by
  by_cases hij : i = j
  · subst hij
    rw [set_self hi]
    simp [ht]
  · rw [List.getElem?_set_ne hij,← h.guard j,(h.guard i).mpr hi]
    simp [hij]

theorem Served.receive (h : Served n p) {m : AnalyticsRequest} {rest : List AnalyticsRequest}
    (hi : p.workers[i]? = some .waiting) (hqueue : p.queue = m::rest) :
    Served n {p.setWorker i (received m) with
      guard := none,queue := rest,dequeued := p.dequeued ++ [(i,m)]} := by
  have hnew : received m ≠ .waiting := by cases m <;> simp [received]
  constructor
  · simp [Pool.setWorker,h.size]
  · simp [h.fifo,hqueue,Pool.setWorker]
  · exact h.guard_released hi hnew
  · intro j
    have hj := h.eaten j
    by_cases hij : i = j
    · subst hij
      rw [hi] at hj
      simp only [Pool.setWorker,set_self hi]
      cases m with
      | query kind resp => simpa [Eaten,received] using hj
      | shutdown => simpa [Eaten,received] using hj
    · have hset : (p.workers.set i (received m))[j]? = p.workers[j]? := List.getElem?_set_ne hij
      simp only [Pool.setWorker,hset]
      have hcount : (p.dequeued ++ [(i,m)]).count (j,.shutdown) = p.dequeued.count (j,.shutdown) := by
        simp [hij]
      unfold Eaten at hj ⊢
      rw [hcount]
      rcases hs : p.workers[j]? with _ | (_ | _ | _ | _ | _) <;> simp_all
  · intro hconn
    have hcount := countP_setWorker hi (received m)
    have htotal := h.total hconn
    simp only [Pool.setWorker,List.map_append,List.map_cons,List.map_nil,List.count_append]
    cases m with
    | query kind resp =>
      simp [received,leaving] at hcount ⊢
      omega
    | shutdown =>
      simp [received,leaving] at hcount ⊢
      omega

theorem Served.own (h : Served n p)
    (hactive : ∀ s ∈ p.callers, s ≠ .done → p.connected = true) (hown : Own p q) : Served n q := by
  cases hown with
  | guard i hi hguard =>
    refine h.setWorker .waiting hi rfl id fun j => ?_
    by_cases hij : i = j
    · subst hij
      rw [set_self hi]
      simp
    · rw [List.getElem?_set_ne hij,← h.guard j,hguard]
      simp [hij]
  | receive i m rest hi hqueue => exact h.receive hi hqueue
  | closed i hi hqueue hconn =>
    constructor
    · simp [Pool.setWorker,h.size]
    · exact h.fifo
    · exact h.guard_released hi (by simp)
    · intro j
      have hj := h.eaten j
      by_cases hij : i = j
      · subst hij
        rw [hi] at hj
        simp only [Pool.setWorker,set_self hi]
        exact .inr ⟨hj,hconn,hqueue⟩
      · have hset : (p.workers.set i .exited)[j]? = p.workers[j]? := List.getElem?_set_ne hij
        simp only [Pool.setWorker,hset]
        exact hj
    · intro hopen
      have hopen' : p.connected = true := hopen
      rw [hconn] at hopen'
      cases hopen'
  | reply i resp replies hi =>
    exact h.setWorker .parked hi rfl id (h.guard_set hi (by simp) (by simp))
  | exit i hi =>
    exact h.setWorker .exited hi rfl Or.inl (h.guard_set hi (by simp) (by simp))
  | count k hk hlock => exact h.congr rfl rfl rfl rfl rfl rfl
  | shutdown k count left hk =>
    have hconn := hactive _ (List.mem_of_getElem? hk) (by simp)
    exact (h.send hconn .shutdown).congr rfl rfl rfl rfl rfl rfl
  | lock k count hk hlock => exact h.congr rfl rfl rfl rfl rfl rfl
  | join k count i rest hk hhandles hi => exact h.congr rfl rfl rfl rfl rfl rfl
  | done k count hk hhandles => exact h.congr rfl rfl rfl rfl rfl rfl

/-- The handles a call found, and how many `Shutdown`s it has yet to send. -/
def owed : ShutdownCall → Option (ℕ × ℕ)
  | .sending count left => some (count,left)
  | .joining count => some (count,0)
  | _ => none

/-- A call sends a `Shutdown` for every worker before it joins, unless there is no one to join. -/
structure Promised (n : ℕ) (p : Pool ρ) : Prop where
  active : ∀ s ∈ p.callers, s ≠ .done → p.connected = true
  lock : ∀ k, p.locked = some k ↔ ∃ count, p.callers[k]? = some (.joining count)
  whole : p.locked = none → p.handles.length = n ∨ p.handles = []
  joined : ∀ i < n, i ∈ p.handles ∨ p.workers[i]? = some .exited
  known : ∀ i ∈ p.handles, i < n
  owed : ∀ s ∈ p.callers, ∀ count left, Pool.owed s = some (count,left) →
    (count = n ∨ p.handles = []) ∧ (p.alive = true → count ≤ p.sent.count .shutdown+left)
  finished : .done ∈ p.callers → p.handles = []

theorem promised_start (n : ℕ) : Promised n (start ρ n) := by
  constructor
  · simp [start]
  · simp [start]
  · simp [start]
  · intro i hi
    exact .inl (List.mem_range.mpr hi)
  · simp [start]
  · simp [start]
  · simp [start]

theorem alive_of_worker {s : PoolWorker} (hi : p.workers[i]? = some s) (hs : s ≠ .exited) :
    p.alive = true := by
  rw [alive,List.any_eq_true]
  exact ⟨s,List.mem_of_getElem? hi,by simpa using hs⟩

theorem exited_set {s t : PoolWorker} (hi : p.workers[i]? = some s) (hs : s ≠ .exited) {j : ℕ}
    (hj : p.workers[j]? = some .exited) : (p.workers.set i t)[j]? = some .exited := by
  have hij : i ≠ j := by
    rintro rfl
    rw [hi] at hj
    exact hs (Option.some.inj hj)
  rw [List.getElem?_set_ne hij,hj]

theorem Promised.worker (h : Promised n p) {s t : PoolWorker} (hi : p.workers[i]? = some s)
    (hs : s ≠ .exited) (hworkers : q.workers = p.workers.set i t) (hcallers : q.callers = p.callers)
    (hhandles : q.handles = p.handles) (hlocked : q.locked = p.locked)
    (hconn : q.connected = p.connected) (hsent : q.sent = p.sent) : Promised n q := by
  constructor
  · rw [hcallers,hconn]
    exact h.active
  · rw [hlocked,hcallers]
    exact h.lock
  · rw [hlocked,hhandles]
    exact h.whole
  · intro j hj
    rw [hhandles,hworkers]
    exact (h.joined j hj).imp_right (exited_set hi hs)
  · rw [hhandles]
    exact h.known
  · intro s' hs' count left howed
    rw [hcallers] at hs'
    obtain ⟨hcount,hsum⟩ := h.owed s' hs' count left howed
    rw [hhandles,hsent]
    exact ⟨hcount,fun _ => hsum (alive_of_worker hi hs)⟩
  · rw [hcallers,hhandles]
    exact h.finished

theorem send_frame (p : Pool ρ) (m : AnalyticsRequest) :
    (p.send m).workers = p.workers ∧ (p.send m).callers = p.callers ∧
      (p.send m).handles = p.handles ∧ (p.send m).locked = p.locked ∧
      (p.send m).connected = p.connected ∧ (p.send m).alive = p.alive := by
  unfold send alive
  split <;> simp

@[simp] theorem sent_send (p : Pool ρ) (m : AnalyticsRequest) (halive : p.alive = true) :
    (p.send m).sent = p.sent ++ [m] := by
  simp [send,halive]

theorem Promised.send (h : Promised n p) (m : AnalyticsRequest) : Promised n (p.send m) := by
  obtain ⟨hworkers,hcallers,hhandles,hlocked,hconn,halive⟩ := send_frame p m
  constructor
  · rw [hcallers,hconn]
    exact h.active
  · rw [hlocked,hcallers]
    exact h.lock
  · rw [hlocked,hhandles]
    exact h.whole
  · rw [hhandles,hworkers]
    exact h.joined
  · rw [hhandles]
    exact h.known
  · intro s hs count left howed
    rw [hcallers] at hs
    obtain ⟨hcount,hsum⟩ := h.owed s hs count left howed
    rw [hhandles,halive]
    refine ⟨hcount,fun hp => ?_⟩
    have hsum := hsum hp
    rw [sent_send p m hp,List.count_append]
    omega
  · rw [hcallers,hhandles]
    exact h.finished

theorem Promised.setCaller (h : Promised n p) {s t : ShutdownCall} (hk : p.callers[k]? = some s)
    (hs : ∀ count, s ≠ .joining count) (ht : ∀ count, t ≠ .joining count) (hdone : s ≠ .done)
    (hdone' : t ≠ .done)
    (howed : ∀ count left, Pool.owed t = some (count,left) →
      (count = n ∨ p.handles = []) ∧ (p.alive = true → count ≤ p.sent.count .shutdown+left)) :
    Promised n (p.setCaller k t) := by
  have hmem : ∀ s' ∈ p.callers.set k t, s' ∈ p.callers ∨ s' = t := fun s' hs' =>
    List.mem_or_eq_of_mem_set hs'
  constructor
  · intro s' hs' hne
    exact (hmem s' hs').elim (fun hold => h.active s' hold hne)
      fun _ => h.active s (List.mem_of_getElem? hk) hdone
  · intro j
    simp only [Pool.setCaller]
    rw [h.lock j]
    by_cases hkj : k = j
    · subst hkj
      have hset : (p.callers.set k t)[k]? = some t := by
        simp [(List.getElem?_eq_some_iff.mp hk).1]
      simp [hset,hk,hs,ht]
    · rw [List.getElem?_set_ne hkj]
  · exact h.whole
  · exact h.joined
  · exact h.known
  · intro s' hs' count left howed'
    rcases hmem s' hs' with hold | rfl
    · exact h.owed s' hold count left howed'
    · exact howed count left howed'
  · intro hfin
    rcases hmem _ hfin with hold | heq
    · exact h.finished hold
    · exact absurd heq.symm hdone'

theorem Promised.takeLock (h : Promised n p) {count : ℕ}
    (hk : p.callers[k]? = some (.sending count 0)) (hlock : p.locked = none) :
    Promised n {p.setCaller k (.joining count) with locked := some k} := by
  have hnone : ∀ j c : ℕ, p.callers[j]? ≠ some (.joining c) := by
    intro j c hj
    have hlocked := (h.lock j).mpr ⟨c,hj⟩
    rw [hlock] at hlocked
    cases hlocked
  constructor
  · intro s hs hne
    rcases List.mem_or_eq_of_mem_set hs with hold | rfl
    · exact h.active s hold hne
    · exact h.active _ (List.mem_of_getElem? hk) (by simp)
  · intro j
    simp only [Pool.setCaller]
    by_cases hkj : k = j
    · subst hkj
      simp [(List.getElem?_eq_some_iff.mp hk).1]
    · rw [List.getElem?_set_ne hkj]
      simp [hkj,hnone]
  · intro hno
    cases hno
  · exact h.joined
  · exact h.known
  · intro s hs count' left' howed
    rcases List.mem_or_eq_of_mem_set hs with hold | rfl
    · exact h.owed s hold count' left' howed
    · exact h.owed _ (List.mem_of_getElem? hk) count' left' howed
  · intro hfin
    rcases List.mem_or_eq_of_mem_set hfin with hold | heq
    · exact h.finished hold
    · cases heq

theorem Promised.joinWorker (h : Promised n p) {count i : ℕ} {rest : List ℕ}
    (hk : p.callers[k]? = some (.joining count)) (hhandles : p.handles = i::rest)
    (hi : p.workers[i]? = some .exited) : Promised n {p with handles := rest} := by
  have hlocked := (h.lock k).mpr ⟨count,hk⟩
  have hne : p.handles ≠ [] := by simp [hhandles]
  constructor
  · exact h.active
  · exact h.lock
  · intro hno
    have hno' : p.locked = none := hno
    rw [hlocked] at hno'
    cases hno'
  · intro j hj
    rcases h.joined j hj with hmem | hexited
    · rw [hhandles] at hmem
      rcases List.mem_cons.mp hmem with rfl | hmem
      · exact .inr hi
      · exact .inl hmem
    · exact .inr hexited
  · intro j hj
    exact h.known j (by rw [hhandles]; exact List.mem_cons_of_mem i hj)
  · intro s hs count' left' howed
    obtain ⟨hcount,hsum⟩ := h.owed s hs count' left' howed
    exact ⟨.inl (hcount.resolve_right hne),hsum⟩
  · intro hfin
    exact absurd (h.finished hfin) hne

theorem Promised.release (h : Promised n p) {count : ℕ}
    (hk : p.callers[k]? = some (.joining count)) (hhandles : p.handles = []) :
    Promised n {p.setCaller k .done with locked := none} := by
  have hlocked := (h.lock k).mpr ⟨count,hk⟩
  constructor
  · intro s hs hne
    rcases List.mem_or_eq_of_mem_set hs with hold | rfl
    · exact h.active s hold hne
    · exact absurd rfl hne
  · intro j
    simp only [Pool.setCaller]
    by_cases hkj : k = j
    · subst hkj
      simp [(List.getElem?_eq_some_iff.mp hk).1]
    · rw [List.getElem?_set_ne hkj,← h.lock j,hlocked]
      simp [hkj]
  · exact fun _ => .inr hhandles
  · exact h.joined
  · exact h.known
  · intro s hs count' left' howed
    rcases List.mem_or_eq_of_mem_set hs with hold | rfl
    · exact h.owed s hold count' left' howed
    · cases howed
  · exact fun _ => hhandles

theorem Promised.own (h : Promised n p) (hown : Own p q) : Promised n q := by
  cases hown with
  | guard i hi _ => exact h.worker hi (by simp) rfl rfl rfl rfl rfl rfl
  | receive i m rest hi _ => exact h.worker hi (by simp) rfl rfl rfl rfl rfl rfl
  | closed i hi _ _ => exact h.worker hi (by simp) rfl rfl rfl rfl rfl rfl
  | reply i resp replies hi => exact h.worker hi (by simp) rfl rfl rfl rfl rfl rfl
  | exit i hi => exact h.worker hi (by simp) rfl rfl rfl rfl rfl rfl
  | count k hk hlock =>
    refine h.setCaller hk (by simp) (by simp) (by simp) (by simp) ?_
    intro count left howed
    obtain ⟨rfl,rfl⟩ : p.handles.length = count ∧ p.handles.length = left := by
      simpa [Pool.owed] using howed
    exact ⟨h.whole hlock,fun _ => by omega⟩
  | shutdown k count left hk =>
    obtain ⟨hworkers,hcallers,hhandles,hlocked,hconn,halive⟩ := send_frame p .shutdown
    refine (h.send .shutdown).setCaller (by rw [hcallers]; exact hk) (by simp) (by simp) (by simp)
      (by simp) ?_
    intro count' left' howed
    obtain ⟨rfl,rfl⟩ : count = count' ∧ left = left' := by simpa [Pool.owed] using howed
    obtain ⟨hcount,hsum⟩ := h.owed _ (List.mem_of_getElem? hk) count (left+1) rfl
    rw [hhandles,halive]
    refine ⟨hcount,fun hp => ?_⟩
    have hsum := hsum hp
    rw [sent_send p _ hp,List.count_append]
    simp only [List.count_singleton_self]
    omega
  | lock k count hk hlock => exact h.takeLock hk hlock
  | join k count i rest hk hhandles hi => exact h.joinWorker hk hhandles hi
  | done k count hk hhandles => exact h.release hk hhandles

structure Reached (n : ℕ) (p : Pool ρ) : Prop where
  served : Served n p
  promised : Promised n p

theorem Served.hangUp (h : Served n p) : Served n {p with connected := false} := by
  constructor
  · exact h.size
  · exact h.fifo
  · exact h.guard
  · intro i
    have heaten := h.eaten i
    unfold Eaten at heaten ⊢
    cases hi : p.workers[i]? with
    | none => simpa [hi] using heaten
    | some s =>
      rw [hi] at heaten
      cases s with
      | exited => exact heaten.imp_right fun hzero => ⟨hzero.1,rfl,hzero.2.2⟩
      | _ => exact heaten
  · intro hno
    cases hno

theorem Promised.call (h : Promised n p) (hconn : p.connected = true) :
    Promised n {p with callers := p.callers ++ [.counting]} := by
  constructor
  · exact fun _ _ _ => hconn
  · intro k
    rw [h.lock k]
    by_cases hk : k < p.callers.length
    · simp [List.getElem?_append_left hk]
    · have hnone : p.callers[k]? = none := List.getElem?_eq_none (by omega)
      rw [hnone,List.getElem?_append_right (by omega)]
      cases hsub : k-p.callers.length <;> simp
  · exact h.whole
  · exact h.joined
  · exact h.known
  · intro s hs count left howed
    rcases List.mem_append.mp hs with hold | hnew
    · exact h.owed s hold count left howed
    · obtain rfl := List.mem_singleton.mp hnew
      cases howed
  · intro hfin
    rcases List.mem_append.mp hfin with hold | hnew
    · exact h.finished hold
    · cases List.mem_singleton.mp hnew

theorem Reached.step (h : Reached n p) {op : PoolOp ρ} (hstep : p.step op = some q) :
    Reached n q := by
  have hserved := h.served
  have hpromised := h.promised
  cases op with
  | request kind resp =>
    simp only [Pool.step] at hstep
    by_cases hconn : p.connected = true
    · simp only [hconn,if_true,Option.some.injEq] at hstep
      exact hstep ▸ ⟨hserved.send hconn _,hpromised.send _⟩
    · simp [hconn] at hstep
  | hangUp =>
    simp only [Pool.step] at hstep
    by_cases hidle : p.callers.all (· = .done) = true
    · simp only [hidle,if_true,Option.some.injEq] at hstep
      subst hstep
      have hdone : ∀ s ∈ p.callers, s = .done := fun s hs => by
        simpa using List.all_eq_true.mp hidle s hs
      exact ⟨hserved.hangUp,fun s hs hne => absurd (hdone s hs) hne,hpromised.lock,hpromised.whole,
        hpromised.joined,hpromised.known,hpromised.owed,hpromised.finished⟩
    · simp [hidle] at hstep
  | worker i answer =>
    have hown := own_of_stepWorker hstep
    exact ⟨hserved.own hpromised.active hown,hpromised.own hown⟩
  | call =>
    simp only [Pool.step] at hstep
    by_cases hconn : p.connected = true
    · rw [if_pos hconn] at hstep
      obtain rfl := Option.some.inj hstep
      exact ⟨hserved.congr rfl rfl rfl rfl rfl rfl,hpromised.call hconn⟩
    · simp [hconn] at hstep
  | caller k =>
    have hown := own_of_stepCaller hstep
    exact ⟨hserved.own hpromised.active hown,hpromised.own hown⟩

theorem reached_of_run {script : List (PoolOp ρ)}
    (hrun : Transition.exec Pool.step (start ρ n) script = some p) : Reached n p :=
  Transition.exec_preserves (fun _ _ _ hstep hs => hs.step hstep) hrun
    ⟨served_start n,promised_start n⟩

/-- While a call joins, every worker that has not taken a `Shutdown` has one waiting for it. -/
theorem Reached.enough (h : Reached n p) {count : ℕ} (hk : p.callers[k]? = some (.joining count))
    (hwait : p.handles ≠ []) :
    p.workers.countP (fun s => !leaving s) ≤ p.queue.count .shutdown := by
  by_cases halive : p.alive = true
  · obtain ⟨hcount,hsum⟩ := h.promised.owed _ (List.mem_of_getElem? hk) count 0 rfl
    have hconn := h.promised.active _ (List.mem_of_getElem? hk) (by simp)
    have hsent := hsum halive
    rw [h.served.fifo,List.count_append,h.served.total hconn] at hsent
    have hn := hcount.resolve_right hwait
    have hsplit := List.length_eq_countP_add_countP leaving (l := p.workers)
    have hnot : p.workers.countP (fun s => !leaving s) =
        p.workers.countP (fun s => decide ¬leaving s = true) := by
      congr 1
      funext s
      cases leaving s <;> rfl
    have hsize := h.served.size
    omega
  · have hzero : p.workers.countP (fun s => !leaving s) = 0 := by
      rw [List.countP_eq_zero]
      intro s hs hlive
      apply halive
      rw [alive,List.any_eq_true]
      refine ⟨s,hs,?_⟩
      cases s <;> simp_all [leaving]
    omega

theorem Reached.queue_ne_nil (h : Reached n p) {count : ℕ}
    (hk : p.callers[k]? = some (.joining count)) (hwait : p.handles ≠ [])
    (hi : p.workers[i]? = some .waiting) : p.queue ≠ [] := by
  intro hempty
  have henough := h.enough hk hwait
  have hpos : 0 < p.workers.countP (fun s => !leaving s) :=
    List.countP_pos_iff.mpr ⟨.waiting,List.mem_of_getElem? hi,rfl⟩
  rw [hempty,List.count_nil] at henough
  omega

/-- The moves of workers and of calls in progress; their answers do not matter. -/
def PoolOp.isOwn : PoolOp ρ → Bool
  | .worker _ _ => true
  | .caller _ => true
  | _ => false

/-- A worker that somebody joins can go on, or the one that holds the guard can. -/
theorem Reached.worker_goes_on (h : Reached n p) {count : ℕ}
    (hk : p.callers[k]? = some (.joining count)) (hwait : p.handles ≠ []) {s : PoolWorker}
    (hi : p.workers[i]? = some s) (hs : s ≠ .exited) (answer : Unwind (Except String ρ)) :
    ∃ j q, p.stepWorker j answer = some q := by
  have hrecv : ∀ j, p.workers[j]? = some .waiting → ∃ q, p.stepWorker j answer = some q := by
    intro j hj
    cases hqueue : p.queue with
    | nil => exact absurd hqueue (h.queue_ne_nil hk hwait hj)
    | cons m rest => exact ⟨_,by simp only [stepWorker,hj,hqueue]; rfl⟩
  cases s with
  | parked =>
    cases hguard : p.guard with
    | none => exact ⟨i,_,by simp only [stepWorker,hi,hguard,if_true]; rfl⟩
    | some j => exact ⟨j,hrecv j ((h.served.guard j).mp hguard)⟩
  | waiting => exact ⟨i,hrecv i hi⟩
  | busy resp =>
    obtain ⟨reply,hreply⟩ := runQuery_returns answer
    exact ⟨i,_,by simp only [stepWorker,hi,hreply]; rfl⟩
  | closing => exact ⟨i,_,by simp only [stepWorker,hi]; rfl⟩
  | exited => exact absurd rfl hs

/-- As long as a call of `shutdown` has not returned, a worker or a call can go on. -/
theorem Reached.goes_on (h : Reached n p) {s : ShutdownCall} (hk : p.callers[k]? = some s)
    (hs : s ≠ .done) (answer : Unwind (Except String ρ)) :
    (∃ j q, p.stepWorker j answer = some q) ∨ ∃ j q, p.stepCaller j = some q := by
  cases hlock : p.locked with
  | none =>
    right
    cases s with
    | counting => exact ⟨k,_,by simp only [stepCaller,hk,hlock,if_true]; rfl⟩
    | sending count left =>
      cases left with
      | zero => exact ⟨k,_,by simp only [stepCaller,hk,hlock,if_true]; rfl⟩
      | succ left => exact ⟨k,_,by simp only [stepCaller,hk]; rfl⟩
    | joining count =>
      have hlocked := (h.promised.lock k).mpr ⟨count,hk⟩
      rw [hlock] at hlocked
      cases hlocked
    | done => exact absurd rfl hs
  | some j =>
    obtain ⟨count,hj⟩ := (h.promised.lock j).mp hlock
    cases hhandles : p.handles with
    | nil => exact .inr ⟨j,_,by simp only [stepCaller,hj,hhandles]; rfl⟩
    | cons i rest =>
      by_cases hexited : p.workers[i]? = some .exited
      · exact .inr ⟨j,_,by simp only [stepCaller,hj,hhandles,hexited,if_true]; rfl⟩
      · cases hi : p.workers[i]? with
        | none =>
          have hlt := h.promised.known i (by simp [hhandles])
          rw [← h.served.size] at hlt
          rw [List.getElem?_eq_none_iff] at hi
          omega
        | some s =>
          have hne : s ≠ .exited := by
            rintro rfl
            exact hexited hi
          exact .inl (h.worker_goes_on hj (by simp [hhandles]) hi hne answer)

def workerWeight : PoolWorker → ℕ
  | .parked => 3
  | .waiting => 2
  | .busy _ => 5
  | .closing => 1
  | .exited => 0

def callerWeight (n : ℕ) : ShutdownCall → ℕ
  | .counting => 5*n+3
  | .sending _ left => 5*left+2
  | .joining _ => 1
  | .done => 0

def measure (p : Pool ρ) : ℕ :=
  4*p.queue.length + (p.workers.map workerWeight).sum +
    (p.callers.map (callerWeight p.workers.length)).sum + p.handles.length

theorem sum_map_set {α : Type} (f : α → ℕ) {l : List α} {i : ℕ} {a : α} (h : l[i]? = some a)
    (b : α) : ((l.set i b).map f).sum + f a = (l.map f).sum + f b := by
  induction l generalizing i with
  | nil => simp at h
  | cons x l ih =>
    cases i with
    | zero =>
      obtain rfl : x = a := by simpa using h
      simp
      omega
    | succ i =>
      have hrest := ih (i := i) (by simpa using h)
      simp only [List.set_cons_succ,List.map_cons,List.sum_cons]
      omega

theorem measure_send (p : Pool ρ) (m : AnalyticsRequest) : (p.send m).measure ≤ p.measure+4 := by
  unfold send measure
  split
  · simp
    omega
  · simp

/-- A worker that changes its state changes the bound by the difference of the weights. -/
@[simp] theorem measure_setWorker {i : ℕ} {s : PoolWorker} (hi : p.workers[i]? = some s)
    (s' : PoolWorker) :
    (p.setWorker i s').measure+workerWeight s = p.measure+workerWeight s' := by
  have hsum := sum_map_set workerWeight hi s'
  simp only [Pool.measure,Pool.setWorker,List.length_set]
  omega

@[simp] theorem measure_setCaller {k : ℕ} {c : ShutdownCall} (hk : p.callers[k]? = some c)
    (c' : ShutdownCall) :
    (p.setCaller k c').measure+callerWeight p.workers.length c =
      p.measure+callerWeight p.workers.length c' := by
  have hsum := sum_map_set (callerWeight p.workers.length) hk c'
  simp only [Pool.measure,Pool.setCaller]
  omega

theorem received_weight (m : AnalyticsRequest) : workerWeight (received m) < 6 := by
  cases m with
  | query kind resp => exact Nat.lt_succ_self 5
  | shutdown => decide

theorem Own.measure (h : Reached n p) (hown : Own p q) : q.measure < p.measure := by
  cases hown with
  | guard i hi hguard =>
    have hset : (p.setWorker i .waiting).measure+3 = p.measure+2 := measure_setWorker hi .waiting
    change (p.setWorker i .waiting).measure < p.measure
    omega
  | receive i m rest hi hqueue =>
    have hset : (p.setWorker i (received m)).measure+2 = p.measure+workerWeight (received m) :=
      measure_setWorker hi (received m)
    have hweight := received_weight m
    simp only [Pool.measure,Pool.setWorker,hqueue,List.length_cons] at hset ⊢
    omega
  | closed i hi hqueue hconn =>
    have hset : (p.setWorker i .exited).measure+2 = p.measure+0 := measure_setWorker hi .exited
    change (p.setWorker i .exited).measure < p.measure
    omega
  | reply i resp replies hi =>
    have hset : (p.setWorker i .parked).measure+5 = p.measure+3 := measure_setWorker hi .parked
    change (p.setWorker i .parked).measure < p.measure
    omega
  | exit i hi =>
    have hset : (p.setWorker i .exited).measure+1 = p.measure+0 := measure_setWorker hi .exited
    omega
  | count k hk hlock =>
    have hset : (p.setCaller k (.sending p.handles.length p.handles.length)).measure+
        (5*p.workers.length+3) = p.measure+(5*p.handles.length+2) := measure_setCaller hk _
    have hlen : p.handles.length ≤ p.workers.length := by
      rw [h.served.size]
      rcases h.promised.whole hlock with hfull | hnone
      · omega
      · simp [hnone]
    omega
  | shutdown k count left hk =>
    have hcallers : (p.send .shutdown).callers[k]? = some (.sending count (left+1)) := by
      rw [(send_frame p .shutdown).2.1]
      exact hk
    have hset : ((p.send .shutdown).setCaller k (.sending count left)).measure+(5*(left+1)+2) =
        (p.send .shutdown).measure+(5*left+2) := measure_setCaller hcallers _
    have hsend := measure_send p .shutdown
    omega
  | lock k count hk hlock =>
    have hset : (p.setCaller k (.joining count)).measure+(5*0+2) = p.measure+1 :=
      measure_setCaller hk _
    change (p.setCaller k (.joining count)).measure < p.measure
    omega
  | join k count i rest hk hhandles hi =>
    simp only [Pool.measure,hhandles,List.length_cons]
    omega
  | done k count hk hhandles =>
    have hset : (p.setCaller k .done).measure+1 = p.measure+0 := measure_setCaller hk .done
    change (p.setCaller k .done).measure < p.measure
    omega

theorem own_of_step {op : PoolOp ρ} (hop : PoolOp.isOwn op = true) (h : p.step op = some q) :
    Own p q := by
  cases op with
  | worker i answer => exact own_of_stepWorker h
  | caller k => exact own_of_stepCaller h
  | _ => cases hop

theorem Reached.stops (h : Reached n p) {more : List (PoolOp ρ)}
    (hown : ∀ op ∈ more, PoolOp.isOwn op = true)
    (hrun : Transition.exec Pool.step p more = some q) :
    more.length + q.measure ≤ p.measure := by
  induction more generalizing p with
  | nil =>
    obtain rfl := Option.some.inj hrun
    simp
  | cons op more ih =>
    obtain ⟨mid,hmid,hrest⟩ := Option.bind_eq_some_iff.mp hrun
    have hless := (own_of_step (hown op (by simp)) hmid).measure h
    have hbound := ih (h.step hmid) (fun op hop => hown op (by simp [hop])) hrest
    simp only [List.length_cons]
    omega

theorem takeWhile_prefix_of_mem {α : Type} (f : α → Bool) {as bs : List α}
    (h : (∃ a ∈ as, f a = false) ∨ bs = []) : (as ++ bs).takeWhile f <+: as := by
  rcases h with ⟨a,ha,hfa⟩ | rfl
  · rw [List.takeWhile_append]
    split
    · rename_i hall
      have hfull := (List.takeWhile_prefix f).eq_of_length hall
      rw [List.takeWhile_eq_self_iff] at hfull
      rw [hfull a ha] at hfa
      cases hfa
    · exact List.takeWhile_prefix f
  · simpa using List.takeWhile_prefix f

/-- A worker that is gone leaves no request that was sent before the first `Shutdown`. -/
theorem Reached.requests_taken (h : Reached n p) (hi : p.workers[i]? = some .exited) :
    p.sent.takeWhile (· ≠ .shutdown) <+: p.dequeued.map Prod.snd := by
  have heaten := h.served.eaten i
  rw [hi] at heaten
  rw [h.served.fifo]
  apply takeWhile_prefix_of_mem
  rcases heaten with hone | ⟨-,-,hempty⟩
  · have hmem : (i,AnalyticsRequest.shutdown) ∈ p.dequeued := by
      rw [← List.count_pos_iff,hone]
      decide
    exact .inl ⟨.shutdown,List.mem_map.mpr ⟨_,hmem,rfl⟩,by simp⟩
  · exact .inr hempty

theorem Reached.eaten_le_one (h : Reached n p) (i : ℕ) : p.dequeued.count (i,.shutdown) ≤ 1 := by
  have heaten := h.served.eaten i
  unfold Eaten at heaten
  split at heaten <;> omega

end Steps

/-- In every run of a pool with any number of workers: a worker takes one `Shutdown` at most, and
is gone only after one or on a closed channel; what was sent is taken once and in order, the
requests before the first `Shutdown` before any worker is gone; a query leaves its worker
in service whatever becomes of it; while a call joins, no worker is without a `Shutdown`; and
left to themselves the workers and calls come to a stop, which is when every call has returned,
and then every worker is gone. -/
theorem shutdown_protocol (n : ℕ) (script : List (PoolOp ρ)) (p : Pool ρ)
    (hrun : Transition.exec Pool.step (start ρ n) script = some p) :
    (∀ i : ℕ, p.dequeued.count (i,.shutdown) ≤ 1) ∧
    (∀ i : ℕ, p.workers[i]? = some .exited → p.dequeued.count (i,.shutdown) = 1 ∨
      p.connected = false ∧ p.queue = []) ∧
    p.sent = p.dequeued.map Prod.snd ++ p.queue ∧
    (∀ i : ℕ, p.workers[i]? = some .exited →
      p.sent.takeWhile (· ≠ .shutdown) <+: p.dequeued.map Prod.snd) ∧
    (∀ (i resp : ℕ) answer, p.workers[i]? = some (.busy resp) →
      ∃ q, p.step (.worker i answer) = some q ∧ q.workers[i]? = some .parked) ∧
    (∀ k count : ℕ, p.callers[k]? = some (.joining count) → p.handles ≠ [] →
      p.workers.countP (fun s => !leaving s) ≤ p.queue.count .shutdown) ∧
    (∀ more q, (∀ op ∈ more, PoolOp.isOwn op = true) → Transition.exec Pool.step p more = some q →
      more.length + q.measure ≤ p.measure) ∧
    (∀ (k : ℕ) s, p.callers[k]? = some s → s ≠ .done →
      ∃ op, PoolOp.isOwn op = true ∧ (p.step op).isSome = true) ∧
    (.done ∈ p.callers → ∀ s ∈ p.workers, s = .exited) := by
  have h := reached_of_run hrun
  refine ⟨h.eaten_le_one,?_,h.served.fifo,fun i => h.requests_taken,?_,fun k count => h.enough,
    fun more q => h.stops,?_,?_⟩
  · intro i hi
    have heaten := h.served.eaten i
    rw [hi] at heaten
    exact heaten.imp_right And.right
  · intro i resp answer hi
    obtain ⟨reply,hreply⟩ := runQuery_returns answer
    refine ⟨_,by simp only [Pool.step,stepWorker,hi,hreply]; rfl,?_⟩
    exact set_self hi .parked
  · intro k s hk hs
    rcases h.goes_on hk hs .unwound with ⟨j,q,hstep⟩ | ⟨j,q,hstep⟩
    · exact ⟨.worker j .unwound,rfl,by simp [Pool.step,hstep]⟩
    · exact ⟨.caller j,rfl,by simp [Pool.step,hstep]⟩
  · intro hdone s hs
    obtain ⟨i,hi⟩ := List.mem_iff_getElem?.mp hs
    have hlt := lt_of_worker hi
    rw [h.served.size] at hlt
    have hgone := (h.promised.joined i hlt).resolve_left (by simp [h.promised.finished hdone])
    rw [hi] at hgone
    exact Option.some.inj hgone

/-- Two workers, a query that panics, and two calls of `shutdown` at once. -/
def demoScript : List (PoolOp Unit) :=
  [.request .overview 7,.worker 0 .unwound,.worker 0 .unwound,.worker 0 .unwound,.call,.call,
    .caller 0,.caller 1,.caller 0,.caller 0,.caller 0,.worker 1 .unwound,.worker 1 .unwound,
    .caller 1,.worker 1 .unwound,.worker 0 .unwound,.worker 0 .unwound,.worker 0 .unwound,.caller 0,
    .caller 0,.caller 0,.caller 1,.caller 1,.caller 1]

theorem shutdown_protocol_concurrent :
    ∃ p : Pool Unit, Transition.exec Pool.step (start Unit 2) demoScript = some p ∧
      p.callers = [.done,.done] ∧ ∀ s ∈ p.workers, s = .exited := by
  have hview : (Transition.exec Pool.step (start Unit 2) demoScript).map (fun p => p.callers) =
      some [.done,.done] := by decide +kernel
  obtain ⟨p,hrun,hcallers⟩ := Option.map_eq_some_iff.mp hview
  obtain ⟨-,-,-,-,-,-,-,-,hgone⟩ := shutdown_protocol 2 demoScript p hrun
  exact ⟨p,hrun,hcallers,hgone (by simp [hcallers])⟩

end Pool
end Ait
