import Ait.SqlSession
import Mathlib.Data.PNat.Basic

/-!
# One connection shared by many clients

Clients take turns on a connection for writing, behind a lock, and each goes on one call at
a time while others wait or read. A read sees what is committed, also in the middle of a
transaction; it has a connection of its own from a pool, where it takes a free one or queues
for the one at which its search began. Any call may fail and any client may panic. The answers
are still those of the programs run one after the other, in an order that respects which of
them were over before others began.
-/

namespace Ait
namespace Sql
open Connection

variable {T E A B Q F : Type}

@[simp] theorem Prog.denote_map (f : A → B) (p : Prog T E A) (t : T) :
    (f <$> p).denote t = (p.denote t).map fun r => (f r.1,r.2) := by
  induction p generalizing t with
  | pure a => rfl
  | throw e => rfl
  | statement g k ih =>
    have hmap : f <$> Prog.statement g k = .statement g fun b => f <$> k b := rfl
    rw [hmap,Prog.denote,Prog.denote]
    cases g t with
    | error e => rfl
    | ok bt => exact ih bt.1 bt.2

/-- What a client asks for: a program in a transaction, the same without one, or a read, which says
itself what it answers when it fails. -/
inductive Job (T E A F : Type) : Type 1
  | transact (p : Prog T E A)
  | run (p : Prog T E A)
  | read (q : Option F → T → Except E A)

namespace Job

def denote : Job T E A F → T → Except E (A × T)
  | .transact p => p.denote
  | .run p => p.denote
  | .read q => fun t => (q none t).map fun a => (a,t)

end Job

/-- After some queries one statement with an effect, if any, and nothing behind it. -/
inductive OneEffect : Prog T E A → Prop
  | pure (a : A) : OneEffect (.pure a)
  | throw (e : E) : OneEffect (.throw e)
  | query {B : Type} (q : T → B) {k : B → Prog T E A} (rest : ∀ b, OneEffect (k b)) :
      OneEffect (.statement (fun t => .ok (q t,t)) k)
  | last {B : Type} (f : T → Except E (B × T)) (reply : B → A) :
      OneEffect (.statement f fun b => .pure (reply b))

/-- Outside a transaction a program must not be seen half done. -/
def Job.Whole : Job T E A F → Prop
  | .run p => OneEffect p
  | _ => True

/-- Where a client stands. From `beginning` to `answered` it holds the lock; in `reading` and
`closing` it holds the reader named there. -/
inductive Phase (T E A : Type) : Type 1
  | waiting
  /-- `k` readers were tried, the first of them by the ticket. -/
  | seeking (ticket k : ℕ)
  | queued (index : ℕ)
  | reading (index : ℕ)
  | closing (index : ℕ) (r : Except E A)
  | beginning (p : Prog T E A)
  | inside (p : Prog T E A)
  | plain (p : Prog T E A)
  | answered (r : Except E A)
  | returned (r : Except E A)
  | panicked

namespace Phase

def Holds : Phase T E A → Prop
  | beginning _ | inside _ | plain _ | answered _ => True
  | _ => False

def reader : Phase T E A → Option ℕ
  | reading index | closing index _ => some index
  | _ => none

def Reads : Phase T E A → Prop
  | seeking _ _ | queued _ | reading _ => True
  | _ => False

/-- There is nothing left to answer. -/
def Past : Phase T E A → Prop
  | closing _ _ | answered _ | returned _ | panicked => True
  | _ => False

def answer : Phase T E A → Option (Except E A)
  | closing _ r | answered r | returned r => some r
  | _ => none

theorem Holds.reader {phase : Phase T E A} (h : phase.Holds) : phase.reader = none := by
  cases phase <;> first | rfl | exact h.elim

theorem Holds.not_reads {phase : Phase T E A} (h : phase.Holds) : ¬phase.Reads := by
  cases phase <;> first | exact id | exact h.elim

theorem Past.not_reads {phase : Phase T E A} (h : phase.Past) : ¬phase.Reads := by
  cases phase <;> first | exact id | exact h.elim

theorem Reads.away {phase : Phase T E A} (h : phase.Reads) : ¬phase.Holds ∧ ¬phase.Past := by
  cases phase <;> first | exact ⟨id,id⟩ | exact h.elim

end Phase

structure Client (T E A Q : Type) : Type 1 where
  call : Q
  phase : Phase T E A

structure Entry (E A Q : Type) where
  client : ℕ
  call : Q
  answer : Except E A

/-- `log` lists the answers in the order in which they were fixed; `tickets` counts the searches for
a reader in a machine word. -/
structure Shared (T E A Q : Type) : Type 1 where
  conn : Connection T E
  owner : Option ℕ
  readers : ℕ → Option ℕ
  tickets : ℕ
  clients : ℕ → Option (Client T E A Q)
  log : List (Entry E A Q)

inductive SharedOp (Q F : Type)
  /-- A new client. -/
  | call (i : ℕ) (q : Q)
  /-- A client goes on; `fault` is a failure of the call it makes. -/
  | work (i : ℕ) (fault : Option F)
  | panic (i : ℕ)

namespace Shared

def start (t : T) : Shared T E A Q := ⟨⟨t,none,[]⟩,none,fun _ => none,0,fun _ => none,[]⟩

def setPhase (s : Shared T E A Q) (i : ℕ) (c : Client T E A Q) (phase : Phase T E A) :
    Shared T E A Q :=
  { s with clients := Function.update s.clients i (some { c with phase := phase }) }

def faulty (s : Shared T E A Q) (fault : Option E) : Connection T E :=
  { s.conn with faults := [fault] }

def answer (s : Shared T E A Q) (i : ℕ) (c : Client T E A Q) (conn : Connection T E)
    (r : Except E A) : Shared T E A Q :=
  { s.setPhase i c (.answered r) with conn := conn,log := s.log ++ [⟨i,c.call,r⟩] }

/-- Go on without a transaction; a program that is over has its answer. -/
def goOn (s : Shared T E A Q) (i : ℕ) (c : Client T E A Q) (conn : Connection T E)
    (p : Prog T E A) : Shared T E A Q :=
  match p with
  | .pure a => s.answer i c conn (.ok a)
  | .throw e => s.answer i c conn (.error e)
  | .statement f k => { s.setPhase i c (.plain (.statement f k)) with conn := conn }

def workInside (s : Shared T E A Q) (i : ℕ) (c : Client T E A Q) (fault : Option E) :
    Prog T E A → Shared T E A Q
  | .pure a =>
    match (s.faulty fault).commit with
    | (.ok (),conn) => s.answer i c conn (.ok a)
    | (.error e,conn) => s.answer i c conn.rollback (.error e)
  | .throw e => s.answer i c s.conn.rollback (.error e)
  | .statement f k =>
    match (s.faulty fault).call (effect f) with
    | (.ok b,conn) => { s.setPhase i c (.inside (k b)) with conn := conn }
    | (.error e,conn) => s.answer i c conn.rollback (.error e)

def workPlain (s : Shared T E A Q) (i : ℕ) (c : Client T E A Q) (fault : Option E) :
    Prog T E A → Shared T E A Q
  | .statement f k =>
    match (s.faulty fault).call (effect f) with
    | (.ok b,conn) => s.goOn i c conn (k b)
    | (.error e,conn) => s.answer i c conn (.error e)
  | p => s.goOn i c s.conn p

/-- The `k`-th reader of a search, in the arithmetic of a machine word. -/
def readerIndex (pool : ℕ+) (ticket k : ℕ) : ℕ := (ticket + k) % 2 ^ 64 % pool

def takeReader (s : Shared T E A Q) (i : ℕ) (c : Client T E A Q) (index : ℕ) : Shared T E A Q :=
  { s.setPhase i c (.reading index) with readers := Function.update s.readers index (some i) }

def takeLock (s : Shared T E A Q) (i : ℕ) (c : Client T E A Q) (phase : Phase T E A) :
    Option (Shared T E A Q) :=
  if s.owner = none then some { s.setPhase i c phase with owner := some i } else none

def work (pool : ℕ+) (jobs : Q → Job T E A F) (s : Shared T E A Q) (i : ℕ) (c : Client T E A Q)
    (raise : F → E) (fault : Option F) : Option (Shared T E A Q) :=
  match c.phase with
  | .waiting =>
    match jobs c.call with
    | .read _ =>
      some { s.setPhase i c (.seeking s.tickets 0) with tickets := (s.tickets + 1) % 2 ^ 64 }
    | .transact p => s.takeLock i c (.beginning p)
    | .run p => s.takeLock i c (.plain p)
  | .seeking ticket k =>
    if k < pool then
      if s.readers (readerIndex pool ticket k) = none then
        some (s.takeReader i c (readerIndex pool ticket k))
      else some (s.setPhase i c (.seeking ticket (k + 1)))
    else some (s.setPhase i c (.queued (readerIndex pool ticket 0)))
  | .queued index => if s.readers index = none then some (s.takeReader i c index) else none
  | .reading index =>
    match jobs c.call with
    | .read q =>
      some { s.setPhase i c (.closing index (q fault s.conn.committed)) with
        log := s.log ++ [⟨i,c.call,q fault s.conn.committed⟩] }
    | _ => none
  | .closing index r =>
    some { s.setPhase i c (.returned r) with readers := Function.update s.readers index none }
  | .beginning p =>
    match (s.faulty (fault.map raise)).begin with
    | (.ok (),conn) => some { s.setPhase i c (.inside p) with conn := conn }
    | (.error e,conn) => some (s.answer i c conn (.error e))
  | .inside p => some (s.workInside i c (fault.map raise) p)
  | .plain p => some (s.workPlain i c (fault.map raise) p)
  | .answered r => some { s.setPhase i c (.returned r) with owner := none }
  | .returned _ | .panicked => none

/-- A panic drops the transaction and what the client holds, which the next one takes all the same. -/
def panic (s : Shared T E A Q) (i : ℕ) (c : Client T E A Q) : Option (Shared T E A Q) :=
  match c.phase with
  | .returned _ | .panicked => none
  | .waiting | .seeking _ _ | .queued _ => some (s.setPhase i c .panicked)
  | .reading index | .closing index _ =>
    some { s.setPhase i c .panicked with readers := Function.update s.readers index none }
  | .beginning _ | .inside _ | .plain _ | .answered _ =>
    some { s.setPhase i c .panicked with conn := s.conn.rollback,owner := none }

/-- `raise` makes an error of a failure. -/
def step (pool : ℕ+) (raise : F → E) (jobs : Q → Job T E A F) (s : Shared T E A Q) :
    SharedOp Q F → Option (Shared T E A Q)
  | .call i q =>
    match s.clients i with
    | none => some (s.setPhase i ⟨q,.waiting⟩ .waiting)
    | some _ => none
  | .work i fault => (s.clients i).bind fun c => s.work pool jobs i c raise fault
  | .panic i => (s.clients i).bind fun c => s.panic i c

def run (pool : ℕ+) (raise : F → E) (jobs : Q → Job T E A F) (s : Shared T E A Q)
    (ops : List (SharedOp Q F)) : Option (Shared T E A Q) :=
  ops.foldlM (step pool raise jobs) s

/-- `j` holds what `c` waits for. -/
def Blocks (s : Shared T E A Q) (j : ℕ) (c : Client T E A Q) : Prop :=
  c.phase = .waiting ∧ s.owner = some j ∨ ∃ index, c.phase = .queued index ∧ s.readers index = some j

end Shared

/-- One job at once: it is done or refused, or it fails and changes nothing; a read that fails
answers as it says. -/
inductive Legal (raise : F → E) (job : Job T E A F) (t : T) : Except E A → T → Prop
  | done {a : A} {t' : T} (all : job.denote t = .ok (a,t')) : Legal raise job t (.ok a) t'
  | refused {e : E} (all : job.denote t = .error e) : Legal raise job t (.error e) t
  | failed (x : F) : Legal raise job t (.error (raise x)) t
  | faulty {q : Option F → T → Except E A} (reads : job = .read q) (x : F) :
      Legal raise job t (q (some x) t) t

theorem legal_read {raise : F → E} {job : Job T E A F} {q : Option F → T → Except E A}
    (hjob : job = .read q) (t : T) : Legal raise job t (q none t) t := by
  subst hjob
  cases hq : q none t with
  | ok a => exact .done (by simp only [Job.denote,hq,Except.map])
  | error e => exact .refused (by simp only [Job.denote,hq,Except.map])

/-- The answers are those of the jobs run one after the other from `t₀`. -/
inductive Replays (raise : F → E) (jobs : Q → Job T E A F) (t₀ : T) : List (Entry E A Q) → T → Prop
  | start : Replays raise jobs t₀ [] t₀
  | next {log : List (Entry E A Q)} {t t' : T} {e : Entry E A Q} (before : Replays raise jobs t₀ log t)
      (legal : Legal raise (jobs e.call) t e.answer t') : Replays raise jobs t₀ (log ++ [e]) t'

/-- Who holds the lock computes what its job computes on the committed content. -/
def OnCourse (jobs : Q → Job T E A F) (conn : Connection T E) (c : Client T E A Q) : Prop :=
  match c.phase with
  | .beginning p => conn.working = none ∧ (jobs c.call).denote conn.committed = p.denote conn.committed
  | .inside p => ∃ w, conn.working = some w ∧ (jobs c.call).denote conn.committed = p.denote w
  | .plain p => conn.working = none ∧ OneEffect p ∧
      (jobs c.call).denote conn.committed = p.denote conn.committed
  | .answered _ => conn.working = none
  | _ => False

theorem OnCourse.holds {jobs : Q → Job T E A F} {conn : Connection T E} {c : Client T E A Q}
    (h : OnCourse jobs conn c) : c.phase.Holds := by
  rw [OnCourse] at h
  cases hphase : c.phase <;> rw [hphase] at h <;> first | exact h.elim | trivial

/-- What holds of every client; the log has its answer. -/
structure Stands (jobs : Q → Job T E A F) (log : List (Entry E A Q)) (i : ℕ) (c : Client T E A Q) :
    Prop where
  reads : c.phase.Reads → ∃ q, jobs c.call = .read q
  fixed : ∀ r, c.phase.answer = some r → ⟨i,c.call,r⟩ ∈ log

theorem Stands.append {jobs : Q → Job T E A F} {log : List (Entry E A Q)} {i : ℕ}
    {c : Client T E A Q} (h : Stands jobs log i c) (e : Entry E A Q) :
    Stands jobs (log ++ [e]) i c where
  reads := h.reads
  fixed r hr := List.mem_append_left _ (h.fixed r hr)

theorem clients_update {i j : ℕ} {clients : ℕ → Option (Client T E A Q)} {d x : Client T E A Q}
    (h : Function.update clients i (some x) j = some d) :
    j = i ∧ d = x ∨ j ≠ i ∧ clients j = some d := by
  by_cases hj : j = i
  · subst hj
    rw [Function.update_self] at h
    exact .inl ⟨rfl,(Option.some.inj h).symm⟩
  · rw [Function.update_of_ne hj] at h
    exact .inr ⟨hj,h⟩

/-- A reader is held by the one client that stands at it. -/
def Held (readers : ℕ → Option ℕ) (clients : ℕ → Option (Client T E A Q)) : Prop :=
  ∀ index i, readers index = some i ↔ ∃ c, clients i = some c ∧ c.phase.reader = some index

namespace Held

variable {readers readers' : ℕ → Option ℕ} {clients : ℕ → Option (Client T E A Q)} {i index : ℕ}
  {c d : Client T E A Q}

theorem self (h : Held readers clients) (hc : clients i = some c) (index : ℕ) :
    readers index = some i ↔ c.phase.reader = some index := by
  refine (h index i).trans ⟨?_,fun hreader => ⟨c,hc,hreader⟩⟩
  rintro ⟨d,hd,hreader⟩
  obtain rfl := Option.some.inj (hd.symm.trans hc)
  exact hreader

theorem update (h : Held readers clients)
    (hself : ∀ index, readers' index = some i ↔ d.phase.reader = some index)
    (hothers : ∀ index j, j ≠ i → (readers' index = some j ↔ readers index = some j)) :
    Held readers' (Function.update clients i (some d)) := by
  intro index j
  by_cases hj : j = i
  · subst hj
    rw [hself,Function.update_self]
    refine ⟨fun hreader => ⟨d,rfl,hreader⟩,?_⟩
    rintro ⟨_,hd,hreader⟩
    exact Option.some.inj hd ▸ hreader
  · rw [hothers index j hj,Function.update_of_ne hj]
    exact h index j

theorem keep (h : Held readers clients) (hc : clients i = some c)
    (hsame : d.phase.reader = c.phase.reader) :
    Held readers (Function.update clients i (some d)) := by
  refine h.update (fun index => ?_) fun _ _ _ => Iff.rfl
  rw [hsame]
  exact h.self hc index

theorem new (h : Held readers clients) (hnew : clients i = none) (hd : d.phase.reader = none) :
    Held readers (Function.update clients i (some d)) := by
  refine h.update (fun index => ?_) fun _ _ _ => Iff.rfl
  rw [hd,h index i,hnew]
  constructor
  · rintro ⟨_,hc,-⟩
    cases hc
  · intro hnone
    cases hnone

theorem take (h : Held readers clients) (hc : clients i = some c) (hbefore : c.phase.reader = none)
    (hfree : readers index = none) (hd : d.phase.reader = some index) :
    Held (Function.update readers index (some i)) (Function.update clients i (some d)) := by
  refine h.update (fun other => ?_) fun other j hj => ?_
  · rw [hd]
    by_cases heq : other = index
    · simp [heq]
    · rw [Function.update_of_ne heq,h.self hc,hbefore]
      simp [Ne.symm heq]
  · by_cases heq : other = index
    · simp [heq,hfree,Ne.symm hj]
    · rw [Function.update_of_ne heq]

theorem drop (h : Held readers clients) (hc : clients i = some c)
    (hbefore : c.phase.reader = some index) (hd : d.phase.reader = none) :
    Held (Function.update readers index none) (Function.update clients i (some d)) := by
  have howner := (h.self hc index).mpr hbefore
  refine h.update (fun other => ?_) fun other j hj => ?_
  · rw [hd]
    by_cases heq : other = index
    · simp [heq]
    · rw [Function.update_of_ne heq,h.self hc,hbefore]
      simp [Ne.symm heq]
  · by_cases heq : other = index
    · simp [heq,howner,Ne.symm hj]
    · rw [Function.update_of_ne heq]

end Held

structure Sound (raise : F → E) (jobs : Q → Job T E A F) (t₀ : T) (s : Shared T E A Q) : Prop where
  replays : Replays raise jobs t₀ s.log s.conn.committed
  owned : ∀ i c, s.clients i = some c → c.phase.Holds → s.owner = some i
  idle : s.owner = none → s.conn.working = none
  holder : ∀ i, s.owner = some i → ∃ c, s.clients i = some c ∧ OnCourse jobs s.conn c
  held : Held s.readers s.clients
  stands : ∀ i c, s.clients i = some c → Stands jobs s.log i c
  logged : ∀ e ∈ s.log, ∃ c, s.clients e.client = some c ∧ c.phase.Past
  once : (s.log.map Entry.client).Nodup

namespace Sound

variable {raise : F → E} {jobs : Q → Job T E A F} {t₀ : T} {s t : Shared T E A Q} {i : ℕ}
  {c : Client T E A Q} {phase : Phase T E A} {conn : Connection T E}

theorem start (t₀ : T) : Sound raise jobs t₀ (.start t₀) where
  replays := .start
  owned i c h := by cases h
  idle _ := rfl
  holder i h := by cases h
  held index i := by simp [Shared.start]
  stands i c h := by cases h
  logged e h := by cases h
  once := List.nodup_nil

theorem not_logged (h : Sound raise jobs t₀ s) (hc : s.clients i = some c) (hlive : ¬c.phase.Past) :
    i ∉ s.log.map Entry.client := by
  intro hmem
  obtain ⟨e,he,rfl⟩ := List.mem_map.mp hmem
  obtain ⟨d,hd,hpast⟩ := h.logged e he
  rw [hc] at hd
  exact hlive (Option.some.inj hd ▸ hpast)

theorem logged_update (h : Sound raise jobs t₀ s) (hc : s.clients i = some c)
    (hpast : c.phase.Past → phase.Past) :
    ∀ e ∈ s.log, ∃ d, Function.update s.clients i (some { c with phase := phase }) e.client = some d ∧
      d.phase.Past := by
  intro e he
  obtain ⟨d,hd,hdpast⟩ := h.logged e he
  by_cases hi : e.client = i
  · subst hi
    obtain rfl := Option.some.inj (hd.symm.trans hc)
    exact ⟨_,Function.update_self ..,hpast hdpast⟩
  · exact ⟨d,by rw [Function.update_of_ne hi,hd],hdpast⟩

theorem owner_holds (h : Sound raise jobs t₀ s) (hc : s.clients i = some c)
    (howner : s.owner = some i) : c.phase.Holds := by
  obtain ⟨d,hd,hcourse⟩ := h.holder i howner
  obtain rfl := Option.some.inj (hd.symm.trans hc)
  exact hcourse.holds

theorem others (h : Sound raise jobs t₀ s) (howner : s.owner = some i) (j : ℕ)
    (d : Client T E A Q) (hj : j ≠ i) (hd : s.clients j = some d) : ¬d.phase.Holds := by
  intro hholds
  have heq := h.owned j d hd hholds
  rw [howner] at heq
  exact hj (Option.some.inj heq).symm

theorem setPhase (h : Sound raise jobs t₀ s) (hc : s.clients i = some c) (conn : Connection T E)
    (owner : Option ℕ) (readers : ℕ → Option ℕ) (tickets : ℕ)
    (hcommitted : conn.committed = s.conn.committed) (hpast : c.phase.Past → phase.Past)
    (hothers : ∀ j d, j ≠ i → s.clients j = some d → d.phase.Holds → owner = some j)
    (howned : phase.Holds → owner = some i)
    (hidle : owner = none → conn.working = none)
    (hholder : ∀ j, owner = some j → ∃ d,
      Function.update s.clients i (some { c with phase := phase }) j = some d ∧ OnCourse jobs conn d)
    (hheld : Held readers (Function.update s.clients i (some { c with phase := phase })))
    (hreads : phase.Reads → ∃ q, jobs c.call = .read q)
    (hfixed : ∀ r, phase.answer = some r → c.phase.answer = some r) :
    Sound raise jobs t₀ ⟨conn,owner,readers,tickets,
      Function.update s.clients i (some { c with phase := phase }),s.log⟩ where
  replays := by
    change Replays raise jobs t₀ s.log conn.committed
    rw [hcommitted]
    exact h.replays
  owned j d hd hholds := by
    obtain ⟨rfl,rfl⟩ | ⟨hj,hd⟩ := clients_update hd
    · exact howned hholds
    · exact hothers j d hj hd hholds
  idle := hidle
  holder := hholder
  held := hheld
  stands j d hd := by
    obtain ⟨rfl,rfl⟩ | ⟨-,hd⟩ := clients_update hd
    · exact ⟨hreads,fun r hr => (h.stands j c hc).fixed r (hfixed r hr)⟩
    · exact h.stands j d hd
  logged := h.logged_update hc hpast
  once := h.once

/-- Who is not the owner changes its phase: the owner's course is as it was. -/
theorem holder_away (h : Sound raise jobs t₀ s) (hc : s.clients i = some c) (haway : ¬c.phase.Holds)
    (j : ℕ) (hj : s.owner = some j) : ∃ d,
      Function.update s.clients i (some { c with phase := phase }) j = some d ∧
        OnCourse jobs s.conn d := by
  obtain ⟨d,hd,hcourse⟩ := h.holder j hj
  have hne : j ≠ i := by
    rintro rfl
    exact haway (h.owner_holds hc hj)
  exact ⟨d,(Function.update_of_ne hne ..).trans hd,hcourse⟩

theorem away (h : Sound raise jobs t₀ s) (hc : s.clients i = some c) (haway : ¬c.phase.Holds)
    (readers : ℕ → Option ℕ) (tickets : ℕ) (hpast : c.phase.Past → phase.Past)
    (hnext : ¬phase.Holds)
    (hheld : Held readers (Function.update s.clients i (some { c with phase := phase })))
    (hreads : phase.Reads → ∃ q, jobs c.call = .read q)
    (hfixed : ∀ r, phase.answer = some r → c.phase.answer = some r) :
    Sound raise jobs t₀ { s.setPhase i c phase with readers := readers,tickets := tickets } :=
  h.setPhase hc s.conn s.owner readers tickets rfl hpast (fun j d _ hd => h.owned j d hd)
    (fun hholds => absurd hholds hnext) h.idle (h.holder_away hc haway) hheld hreads hfixed

theorem move (h : Sound raise jobs t₀ s) (hc : s.clients i = some c) (howner : s.owner = some i)
    (hcommitted : conn.committed = s.conn.committed) (hlive : ¬c.phase.Past)
    (hcourse : OnCourse jobs conn { c with phase := phase }) (hopen : phase.answer = none) :
    Sound raise jobs t₀ { s.setPhase i c phase with conn := conn } := by
  refine h.setPhase hc conn s.owner s.readers s.tickets hcommitted (fun hp => absurd hp hlive) ?_
    (fun _ => howner) ?_ ?_ ?_ (fun hr => absurd hr hcourse.holds.not_reads) ?_
  · exact fun j d hj hd hholds => absurd hholds (h.others howner j d hj hd)
  · intro hnone
    rw [howner] at hnone
    cases hnone
  · intro j hj
    rw [howner] at hj
    obtain rfl := Option.some.inj hj
    exact ⟨_,Function.update_self ..,hcourse⟩
  · exact h.held.keep hc (hcourse.holds.reader.trans (h.owner_holds hc howner).reader.symm)
  · intro r hr
    rw [hopen] at hr
    cases hr

section Answers

variable {r : Except E A}

theorem stands_answered (h : Sound raise jobs t₀ s) (hphase : phase.answer = some r) (j : ℕ)
    (d : Client T E A Q)
    (hd : Function.update s.clients i (some { c with phase := phase }) j = some d) :
    Stands jobs (s.log ++ [⟨i,c.call,r⟩]) j d := by
  obtain ⟨rfl,rfl⟩ | ⟨-,hd⟩ := clients_update hd
  · refine ⟨fun hr => ?_,fun r' hr' => ?_⟩
    · cases phase <;> first | cases (show none = some r from hphase) | exact (show False from hr).elim
    · obtain rfl := Option.some.inj (hphase.symm.trans hr')
      exact List.mem_append_right _ List.mem_cons_self
  · exact (h.stands j d hd).append _

theorem logged_answered (h : Sound raise jobs t₀ s) (hc : s.clients i = some c) (hpast : phase.Past) :
    ∀ e ∈ s.log ++ [⟨i,c.call,r⟩], ∃ d,
      Function.update s.clients i (some { c with phase := phase }) e.client = some d ∧
        d.phase.Past := by
  intro e he
  obtain he | he := List.mem_append.mp he
  · exact h.logged_update hc (fun _ => hpast) e he
  · obtain rfl := List.mem_singleton.mp he
    exact ⟨_,Function.update_self ..,hpast⟩

theorem once_answered (h : Sound raise jobs t₀ s) (hc : s.clients i = some c) (hlive : ¬c.phase.Past) :
    ((s.log ++ [(⟨i,c.call,r⟩ : Entry E A Q)]).map Entry.client).Nodup := by
  have hnew := h.not_logged hc hlive
  rw [List.map_append,List.map_singleton]
  exact List.nodup_append.mpr ⟨h.once,List.nodup_singleton i,fun j hj k hk heq =>
    hnew (by rw [show i = k from (List.mem_singleton.mp hk).symm,← heq]; exact hj)⟩

theorem answer (h : Sound raise jobs t₀ s) (hc : s.clients i = some c) (howner : s.owner = some i)
    (hlive : ¬c.phase.Past) (hworking : conn.working = none)
    (hlegal : Legal raise (jobs c.call) s.conn.committed r conn.committed) :
    Sound raise jobs t₀ (s.answer i c conn r) where
  replays := .next (e := ⟨i,c.call,r⟩) h.replays hlegal
  owned j d hd hholds := by
    obtain ⟨rfl,rfl⟩ | ⟨hj,hd⟩ := clients_update hd
    · exact howner
    · exact absurd hholds (h.others howner j d hj hd)
  idle hnone := hworking
  holder j hj := by
    have heq : s.owner = some j := hj
    rw [howner] at heq
    obtain rfl := Option.some.inj heq
    exact ⟨_,Function.update_self ..,hworking⟩
  held := h.held.keep hc (h.owner_holds hc howner).reader.symm
  stands := h.stands_answered rfl
  logged := h.logged_answered hc trivial
  once := h.once_answered hc hlive

theorem read (h : Sound raise jobs t₀ s) (hc : s.clients i = some c) {index : ℕ}
    (hphase : c.phase = .reading index)
    (hlegal : Legal raise (jobs c.call) s.conn.committed r s.conn.committed) :
    Sound raise jobs t₀
      { s.setPhase i c (.closing index r) with log := s.log ++ [⟨i,c.call,r⟩] } where
  replays := .next (e := ⟨i,c.call,r⟩) h.replays hlegal
  owned j d hd hholds := by
    obtain ⟨rfl,rfl⟩ | ⟨-,hd⟩ := clients_update hd
    · cases hholds
    · exact h.owned j d hd hholds
  idle := h.idle
  holder := h.holder_away hc (by rw [hphase]; exact id)
  held := h.held.keep hc (by rw [hphase]; rfl)
  stands := h.stands_answered rfl
  logged := h.logged_answered hc trivial
  once := h.once_answered hc (by rw [hphase]; exact id)

end Answers

section Steps

variable {pool : ℕ+} {fault : Option F}

theorem faulty_call (raise : F → E) (s : Shared T E A Q) (fault : Option F)
    (act : Connection T E → Except E B × Connection T E) :
    (∃ x, (s.faulty (fault.map raise)).call act = (.error (raise x),{ s.conn with faults := [] })) ∨
      (s.faulty (fault.map raise)).call act = act { s.conn with faults := [] } := by
  cases fault with
  | none => exact .inr rfl
  | some x => exact .inl ⟨x,rfl⟩

theorem workInside (h : Sound raise jobs t₀ s) (hc : s.clients i = some c)
    (howner : s.owner = some i) {p : Prog T E A} (hphase : c.phase = .inside p)
    (hcourse : OnCourse jobs s.conn c) (fault : Option F) :
    Sound raise jobs t₀ (s.workInside i c (fault.map raise) p) := by
  have hlive : ¬c.phase.Past := by rw [hphase]; exact id
  rw [OnCourse,hphase] at hcourse
  obtain ⟨w,hworking,hdenote⟩ := hcourse
  cases p with
  | pure a =>
    rw [Shared.workInside,Connection.commit]
    obtain ⟨x,hcall⟩ | hcall := faulty_call raise s fault fun c =>
      ((.ok (),{ c with committed := c.working.getD c.committed,working := none }) :
        Except E Unit × Connection T E)
    · rw [hcall]
      exact h.answer hc howner hlive rfl (.failed x)
    · rw [hcall]
      refine h.answer hc howner hlive rfl (.done ?_)
      rw [hdenote,hworking]
      rfl
  | throw e => exact h.answer hc howner hlive rfl (.refused hdenote)
  | statement f k =>
    rw [Shared.workInside]
    obtain ⟨x,hcall⟩ | hcall := faulty_call raise s fault (effect f)
    · rw [hcall]
      exact h.answer hc howner hlive rfl (.failed x)
    · rw [hcall,effect,hworking]
      rw [Prog.denote] at hdenote
      cases hf : f w with
      | error e =>
        rw [hf] at hdenote
        simp only [hf]
        exact h.answer hc howner hlive rfl (.refused hdenote)
      | ok bw =>
        rw [hf] at hdenote
        have hcourse : OnCourse jobs { s.conn with working := some bw.2,faults := [] }
            { c with phase := .inside (k bw.1) } := ⟨bw.2,rfl,hdenote⟩
        simp only [hf]
        exact h.move hc howner rfl hlive hcourse rfl

theorem goOn (h : Sound raise jobs t₀ s) (hc : s.clients i = some c) (howner : s.owner = some i)
    (hlive : ¬c.phase.Past) {p : Prog T E A} (hone : OneEffect p) (hworking : conn.working = none) (hcommitted : conn.committed = s.conn.committed)
    (hdenote : (jobs c.call).denote s.conn.committed = p.denote s.conn.committed) :
    Sound raise jobs t₀ (s.goOn i c conn p) := by
  cases p with
  | pure a =>
    refine h.answer hc howner hlive hworking (.done ?_)
    rw [hdenote,hcommitted]
    rfl
  | throw e =>
    refine h.answer hc howner hlive hworking ?_
    rw [hcommitted]
    exact .refused hdenote
  | statement f k =>
    have hcourse : OnCourse jobs conn { c with phase := .plain (.statement f k) } := by
      refine ⟨hworking,hone,?_⟩
      rw [hcommitted]
      exact hdenote
    exact h.move hc howner hcommitted hlive hcourse rfl

theorem workPlain (h : Sound raise jobs t₀ s) (hc : s.clients i = some c)
    (howner : s.owner = some i) {p : Prog T E A} (hphase : c.phase = .plain p)
    (hcourse : OnCourse jobs s.conn c) (fault : Option F) :
    Sound raise jobs t₀ (s.workPlain i c (fault.map raise) p) := by
  have hlive : ¬c.phase.Past := by rw [hphase]; exact id
  rw [OnCourse,hphase] at hcourse
  obtain ⟨hworking,hone,hdenote⟩ := hcourse
  cases hone with
  | pure a => exact h.goOn hc howner hlive (.pure a) hworking rfl hdenote
  | throw e => exact h.goOn hc howner hlive (.throw e) hworking rfl hdenote
  | query q rest =>
    rename_i C k
    rw [Shared.workPlain]
    obtain ⟨x,hcall⟩ | hcall := faulty_call raise s fault (effect fun t => .ok (q t,t))
    · rw [hcall]
      exact h.answer hc howner hlive hworking (.failed x)
    · rw [hcall,effect,hworking]
      exact h.goOn hc howner hlive (rest _) rfl rfl hdenote
  | last f reply =>
    rw [Shared.workPlain]
    obtain ⟨x,hcall⟩ | hcall := faulty_call raise s fault (effect f)
    · rw [hcall]
      exact h.answer hc howner hlive hworking (.failed x)
    · rw [hcall,effect,hworking]
      rw [Prog.denote] at hdenote
      cases hf : f s.conn.committed with
      | error e =>
        rw [hf] at hdenote
        exact h.answer hc howner hlive hworking (.refused hdenote)
      | ok bt =>
        rw [hf] at hdenote
        exact h.answer hc howner hlive rfl (.done hdenote)

theorem takeLock (h : Sound raise jobs t₀ s) (hc : s.clients i = some c) (hphase : c.phase = .waiting)
    (phase : Phase T E A)
    (hcourse : s.conn.working = none → OnCourse jobs s.conn { c with phase := phase })
    (hopen : phase.answer = none) (htake : s.takeLock i c phase = some t) : Sound raise jobs t₀ t := by
  rw [Shared.takeLock] at htake
  split at htake
  · rename_i hfree
    obtain rfl := Option.some.inj htake
    have hcourse := hcourse (h.idle hfree)
    refine h.setPhase hc s.conn (some i) s.readers s.tickets rfl ?_ ?_ (fun _ => rfl) ?_ ?_ ?_
      (fun hr => absurd hr hcourse.holds.not_reads) ?_
    · intro hp
      rw [hphase] at hp
      cases hp
    · intro j d _ hd hholds
      have howner := h.owned j d hd hholds
      rw [hfree] at howner
      cases howner
    · intro hnone
      cases hnone
    · intro j hj
      obtain rfl := Option.some.inj hj
      exact ⟨_,Function.update_self ..,hcourse⟩
    · refine h.held.keep hc ?_
      rw [hphase]
      exact hcourse.holds.reader
    · intro r hr
      rw [hopen] at hr
      cases hr
  · cases htake

theorem release (h : Sound raise jobs t₀ s) (hc : s.clients i = some c) (conn : Connection T E)
    (howner : s.owner = some i) (hcommitted : conn.committed = s.conn.committed)
    (hworking : conn.working = none) (hpast : phase.Past) (hholds : ¬phase.Holds) (hnext : phase.reader = none)
    (hfixed : ∀ r, phase.answer = some r → c.phase.answer = some r) :
    Sound raise jobs t₀ { s.setPhase i c phase with conn := conn,owner := none } := by
  refine h.setPhase hc conn none s.readers s.tickets hcommitted (fun _ => hpast) ?_
    (fun hp => absurd hp hholds) (fun _ => hworking) ?_
    (h.held.keep hc (hnext.trans (h.owner_holds hc howner).reader.symm))
    (fun hr => absurd hr hpast.not_reads) hfixed
  · exact fun j d hj hd hd' => absurd hd' (h.others howner j d hj hd)
  · intro j hj
    cases hj

theorem takeReader (h : Sound raise jobs t₀ s) (hc : s.clients i = some c) (hreads : c.phase.Reads)
    (hreader : c.phase.reader = none) {index : ℕ} (hfree : s.readers index = none) :
    Sound raise jobs t₀ (s.takeReader i c index) := by
  refine h.away hc hreads.away.1 _ s.tickets (fun hp => absurd hp hreads.away.2) id
    (h.held.take hc hreader hfree rfl) (fun _ => (h.stands i c hc).reads hreads) ?_
  intro r hr
  cases hr

theorem dropReader (h : Sound raise jobs t₀ s) (hc : s.clients i = some c) {index : ℕ}
    (hreader : c.phase.reader = some index) (hpast : phase.Past) (hholds : ¬phase.Holds)
    (hnext : phase.reader = none) (hfixed : ∀ r, phase.answer = some r → c.phase.answer = some r) :
    Sound raise jobs t₀
      { s.setPhase i c phase with readers := Function.update s.readers index none } := by
  have haway : ¬c.phase.Holds := by
    intro hholds
    rw [hholds.reader] at hreader
    cases hreader
  exact h.away hc haway _ s.tickets (fun _ => hpast) hholds (h.held.drop hc hreader hnext)
    (fun hr => absurd hr hpast.not_reads) hfixed

theorem search (h : Sound raise jobs t₀ s) (hc : s.clients i = some c)
    (hbefore : ¬c.phase.Holds ∧ ¬c.phase.Past ∧ c.phase.reader = none)
    (hread : ∃ q, jobs c.call = .read q) (tickets : ℕ)
    (hnext : ¬phase.Holds ∧ phase.reader = none ∧ phase.answer = none) :
    Sound raise jobs t₀ { s.setPhase i c phase with tickets := tickets } := by
  refine h.away hc hbefore.1 s.readers tickets (fun hp => absurd hp hbefore.2.1) hnext.1
    (h.held.keep hc (hnext.2.1.trans hbefore.2.2.symm)) (fun _ => hread) ?_
  intro r hr
  rw [hnext.2.2] at hr
  cases hr

theorem call (h : Sound raise jobs t₀ s) (hnew : s.clients i = none) (q : Q) :
    Sound raise jobs t₀ (s.setPhase i ⟨q,.waiting⟩ .waiting) where
  replays := h.replays
  owned j d hd hholds := by
    obtain ⟨rfl,rfl⟩ | ⟨-,hd⟩ := clients_update hd
    · cases hholds
    · exact h.owned j d hd hholds
  idle := h.idle
  holder j hj := by
    obtain ⟨d,hd,hcourse⟩ := h.holder j hj
    have hne : j ≠ i := by
      rintro rfl
      rw [hnew] at hd
      cases hd
    exact ⟨d,(Function.update_of_ne hne ..).trans hd,hcourse⟩
  held := h.held.new hnew rfl
  stands j d hd := by
    obtain ⟨rfl,rfl⟩ | ⟨-,hd⟩ := clients_update hd
    · refine ⟨fun hr => ?_,fun r hr => ?_⟩
      · cases hr
      · cases hr
    · exact h.stands j d hd
  logged e he := by
    obtain ⟨d,hd,hpast⟩ := h.logged e he
    have hne : e.client ≠ i := by
      intro heq
      rw [heq,hnew] at hd
      cases hd
    exact ⟨d,(Function.update_of_ne hne ..).trans hd,hpast⟩
  once := h.once

theorem work (h : Sound raise jobs t₀ s) (hjobs : ∀ q, (jobs q).Whole) (hc : s.clients i = some c)
    (hwork : s.work pool jobs i c raise fault = some t) : Sound raise jobs t₀ t := by
  have howned : c.phase.Holds → s.owner = some i ∧ OnCourse jobs s.conn c := by
    intro hholds
    have howner := h.owned i c hc hholds
    obtain ⟨d,hd,hcourse⟩ := h.holder i howner
    obtain rfl := Option.some.inj (hd.symm.trans hc)
    exact ⟨howner,hcourse⟩
  have hreads := (h.stands i c hc).reads
  cases hphase : c.phase with
  | waiting =>
    simp only [Shared.work,hphase] at hwork
    split at hwork
    · rename_i q hjob
      obtain rfl := Option.some.inj hwork
      exact h.search hc (by rw [hphase]; exact ⟨id,id,rfl⟩) ⟨q,hjob⟩ _ ⟨id,rfl,rfl⟩
    · rename_i p hjob
      refine h.takeLock hc hphase (.beginning p) (fun hnone => ⟨hnone,?_⟩) rfl hwork
      dsimp only
      rw [hjob]
      rfl
    · rename_i p hjob
      have hwhole := hjobs c.call
      rw [hjob] at hwhole
      refine h.takeLock hc hphase (.plain p) (fun hnone => ⟨hnone,hwhole,?_⟩) rfl hwork
      dsimp only
      rw [hjob]
      rfl
  | seeking ticket k =>
    have hread := hreads (by rw [hphase]; trivial)
    have hbefore : ¬c.phase.Holds ∧ ¬c.phase.Past ∧ c.phase.reader = none := by
      rw [hphase]
      exact ⟨id,id,rfl⟩
    simp only [Shared.work,hphase] at hwork
    split at hwork
    · split at hwork
      · rename_i hfree
        obtain rfl := Option.some.inj hwork
        exact h.takeReader hc (by rw [hphase]; trivial) hbefore.2.2 hfree
      · obtain rfl := Option.some.inj hwork
        exact h.search hc hbefore hread s.tickets ⟨id,rfl,rfl⟩
    · obtain rfl := Option.some.inj hwork
      exact h.search hc hbefore hread s.tickets ⟨id,rfl,rfl⟩
  | queued index =>
    simp only [Shared.work,hphase] at hwork
    split at hwork
    · rename_i hfree
      obtain rfl := Option.some.inj hwork
      exact h.takeReader hc (by rw [hphase]; trivial) (by rw [hphase]; rfl) hfree
    · cases hwork
  | reading index =>
    simp only [Shared.work,hphase] at hwork
    split at hwork
    · rename_i q hjob
      obtain rfl := Option.some.inj hwork
      refine h.read hc hphase ?_
      cases fault with
      | none => exact legal_read hjob _
      | some x => exact .faulty hjob x
    · cases hwork
  | closing index r =>
    simp only [Shared.work,hphase] at hwork
    obtain rfl := Option.some.inj hwork
    refine h.dropReader hc (by rw [hphase]; rfl) trivial id rfl fun r' hr' => ?_
    rw [hphase]
    exact hr'
  | beginning p =>
    obtain ⟨howner,hcourse⟩ := howned (by rw [hphase]; trivial)
    have hlive : ¬c.phase.Past := by rw [hphase]; exact id
    rw [OnCourse,hphase] at hcourse
    simp only [Shared.work,hphase,Connection.begin] at hwork
    obtain ⟨x,hcall⟩ | hcall := faulty_call raise s fault fun c =>
      ((.ok (),{ c with working := some c.committed }) : Except E Unit × Connection T E)
    · rw [hcall] at hwork
      obtain rfl := Option.some.inj hwork
      exact h.answer hc howner hlive hcourse.1 (.failed x)
    · rw [hcall] at hwork
      obtain rfl := Option.some.inj hwork
      have hnext : OnCourse jobs { s.conn with working := some s.conn.committed,faults := [] }
          { c with phase := .inside p } := ⟨_,rfl,hcourse.2⟩
      exact h.move hc howner rfl hlive hnext rfl
  | inside p =>
    obtain ⟨howner,hcourse⟩ := howned (by rw [hphase]; trivial)
    simp only [Shared.work,hphase] at hwork
    obtain rfl := Option.some.inj hwork
    exact h.workInside hc howner hphase hcourse fault
  | plain p =>
    obtain ⟨howner,hcourse⟩ := howned (by rw [hphase]; trivial)
    simp only [Shared.work,hphase] at hwork
    obtain rfl := Option.some.inj hwork
    exact h.workPlain hc howner hphase hcourse fault
  | answered r =>
    obtain ⟨howner,hcourse⟩ := howned (by rw [hphase]; trivial)
    rw [OnCourse,hphase] at hcourse
    simp only [Shared.work,hphase] at hwork
    obtain rfl := Option.some.inj hwork
    refine h.release hc s.conn howner rfl hcourse trivial id rfl fun r' hr' => ?_
    rw [hphase]
    exact hr'
  | returned r =>
    simp only [Shared.work,hphase] at hwork
    cases hwork
  | panicked =>
    simp only [Shared.work,hphase] at hwork
    cases hwork

theorem panic (h : Sound raise jobs t₀ s) (hc : s.clients i = some c)
    (hpanic : s.panic i c = some t) : Sound raise jobs t₀ t := by
  have hfixed : ∀ r, (Phase.panicked : Phase T E A).answer = some r → c.phase.answer = some r := by
    intro r hr
    cases hr
  cases hphase : c.phase with
  | waiting | seeking | queued =>
    simp only [Shared.panic,hphase] at hpanic
    obtain rfl := Option.some.inj hpanic
    refine h.away hc (by rw [hphase]; exact id) s.readers s.tickets (fun _ => trivial) id
      (h.held.keep hc ?_) (fun hr => hr.elim) hfixed
    rw [hphase]
    rfl
  | reading | closing =>
    simp only [Shared.panic,hphase] at hpanic
    obtain rfl := Option.some.inj hpanic
    exact h.dropReader hc (by rw [hphase]; rfl) trivial id rfl hfixed
  | returned r | panicked =>
    simp only [Shared.panic,hphase] at hpanic
    cases hpanic
  | beginning p | inside p | plain p | answered r =>
    simp only [Shared.panic,hphase] at hpanic
    obtain rfl := Option.some.inj hpanic
    have howner := h.owned i c hc (by rw [hphase]; trivial)
    exact h.release hc s.conn.rollback howner rfl rfl trivial id rfl hfixed

theorem step (h : Sound raise jobs t₀ s) (hjobs : ∀ q, (jobs q).Whole) {op : SharedOp Q F}
    (hstep : s.step pool raise jobs op = some t) : Sound raise jobs t₀ t := by
  cases op with
  | call i q =>
    simp only [Shared.step] at hstep
    split at hstep
    · rename_i hnew
      obtain rfl := Option.some.inj hstep
      exact h.call hnew q
    · cases hstep
  | work i fault =>
    obtain ⟨c,hc,hwork⟩ := Option.bind_eq_some_iff.mp hstep
    exact h.work hjobs hc hwork
  | panic i =>
    obtain ⟨c,hc,hpanic⟩ := Option.bind_eq_some_iff.mp hstep
    exact h.panic hc hpanic

end Steps

theorem run {pool : ℕ+} (h : Sound raise jobs t₀ s) (hjobs : ∀ q, (jobs q).Whole)
    {ops : List (SharedOp Q F)} (hrun : s.run pool raise jobs ops = some t) : Sound raise jobs t₀ t := by
  induction ops generalizing s with
  | nil =>
    obtain rfl := Option.some.inj hrun
    exact h
  | cons op ops ih =>
    obtain ⟨u,hstep,hrest⟩ := Option.bind_eq_some_iff.mp hrun
    exact ih (h.step hjobs hstep) hrest

theorem holder_step {pool : ℕ+} (h : Sound raise jobs t₀ s) (hc : s.clients i = some c)
    (hholds : c.phase.Holds ∨ c.phase.reader ≠ none) :
    ∃ t, s.step pool raise jobs (.work i (none : Option F)) = some t := by
  simp only [Shared.step,hc,Option.bind_some,Shared.work]
  cases hphase : c.phase with
  | waiting | seeking | queued | returned | panicked =>
    rw [hphase] at hholds
    exact (hholds.elim id fun hnone => hnone rfl).elim
  | reading index =>
    obtain ⟨q,hjob⟩ := (h.stands i c hc).reads (by rw [hphase]; trivial)
    dsimp only
    rw [hjob]
    exact ⟨_,rfl⟩
  | beginning p =>
    dsimp only
    split <;> exact ⟨_,rfl⟩
  | closing | inside | plain | answered => exact ⟨_,rfl⟩

/-- Who is not over can go on, or what it waits for is held by one who can. -/
theorem progress (pool : ℕ+) (h : Sound raise jobs t₀ s) (hc : s.clients i = some c)
    (hover : c.phase ≠ .panicked ∧ ∀ r, c.phase ≠ .returned r) :
    ∃ j, (j = i ∨ s.Blocks j c) ∧
      ∃ t, s.step pool raise jobs (.work j (none : Option F)) = some t := by
  have hself : s.work pool jobs i c raise none ≠ none →
      ∃ j, (j = i ∨ s.Blocks j c) ∧ ∃ t, s.step pool raise jobs (.work j (none : Option F)) = some t := by
    intro hsome
    refine ⟨i,.inl rfl,?_⟩
    simp only [Shared.step,hc,Option.bind_some]
    exact Option.ne_none_iff_exists'.mp hsome
  cases hphase : c.phase with
  | waiting =>
    cases howner : s.owner with
    | some j =>
      obtain ⟨d,hd,hcourse⟩ := h.holder j howner
      exact ⟨j,.inr (.inl ⟨hphase,howner⟩),h.holder_step hd (.inl hcourse.holds)⟩
    | none =>
      cases hjob : jobs c.call with
      | read q => exact hself (by simp [Shared.work,hphase,hjob])
      | transact p => exact hself (by simp [Shared.work,hphase,hjob,Shared.takeLock,howner])
      | run p => exact hself (by simp [Shared.work,hphase,hjob,Shared.takeLock,howner])
  | seeking ticket k =>
    refine hself ?_
    simp only [Shared.work,hphase]
    split
    · split <;> simp
    · simp
  | queued index =>
    cases hreader : s.readers index with
    | some j =>
      obtain ⟨d,hd,hholds⟩ := (h.held index j).mp hreader
      exact ⟨j,.inr (.inr ⟨index,hphase,hreader⟩),h.holder_step hd (.inr (by simp [hholds]))⟩
    | none => exact hself (by simp [Shared.work,hphase,hreader])
  | reading | closing => exact ⟨i,.inl rfl,h.holder_step hc (.inr (by simp [hphase,Phase.reader]))⟩
  | beginning | inside | plain | answered =>
    exact ⟨i,.inl rfl,h.holder_step hc (.inl (by rw [hphase]; trivial))⟩
  | returned r => exact absurd hphase (hover.2 r)
  | panicked => exact absurd hphase hover.1

theorem alone (h : Sound raise jobs t₀ s) {j : ℕ} {d : Client T E A Q} (hc : s.clients i = some c)
    (hd : s.clients j = some d)
    (hsame : c.phase.Holds ∧ d.phase.Holds ∨
      ∃ index, c.phase.reader = some index ∧ d.phase.reader = some index) : i = j := by
  obtain ⟨hi,hj⟩ | ⟨index,hi,hj⟩ := hsame
  · exact Option.some.inj ((h.owned i c hc hi).symm.trans (h.owned j d hd hj))
  · have howner := (h.held index i).mpr ⟨c,hc,hi⟩
    rw [(h.held index j).mpr ⟨d,hd,hj⟩] at howner
    exact (Option.some.inj howner).symm

end Sound

section Order

variable {pool : ℕ+} {raise : F → E} {jobs : Q → Job T E A F} {t₀ : T} {s t : Shared T E A Q}

theorem Shared.work_log {i : ℕ} {c : Client T E A Q} {fault : Option F}
    (h : s.work pool jobs i c raise fault = some t) : s.log <+: t.log := by
  have hanswer : ∀ (conn : Connection T E) (r : Except E A), s.log <+: (s.answer i c conn r).log :=
    fun _ _ => List.prefix_append ..
  have hgoOn : ∀ (conn : Connection T E) (p : Prog T E A), s.log <+: (s.goOn i c conn p).log := by
    intro conn p
    cases p with
    | pure a => exact hanswer ..
    | throw e => exact hanswer ..
    | statement f k => exact List.prefix_rfl
  have htakeLock : ∀ phase, s.takeLock i c phase = some t → s.log <+: t.log := by
    intro phase htake
    rw [Shared.takeLock] at htake
    split at htake
    · obtain rfl := Option.some.inj htake
      exact List.prefix_rfl
    · cases htake
  rw [Shared.work] at h
  split at h
  · split at h
    · obtain rfl := Option.some.inj h
      exact List.prefix_rfl
    · exact htakeLock _ h
    · exact htakeLock _ h
  · split at h
    · split at h <;> obtain rfl := Option.some.inj h <;> exact List.prefix_rfl
    · obtain rfl := Option.some.inj h
      exact List.prefix_rfl
  · split at h
    · obtain rfl := Option.some.inj h
      exact List.prefix_rfl
    · cases h
  · split at h
    · obtain rfl := Option.some.inj h
      exact List.prefix_append ..
    · cases h
  · obtain rfl := Option.some.inj h
    exact List.prefix_rfl
  · split at h
    · obtain rfl := Option.some.inj h
      exact List.prefix_rfl
    · obtain rfl := Option.some.inj h
      exact hanswer ..
  · obtain rfl := Option.some.inj h
    rename_i p _
    cases p with
    | pure a =>
      rw [Shared.workInside]
      split <;> exact hanswer ..
    | throw e => exact hanswer ..
    | statement f k =>
      rw [Shared.workInside]
      split
      · exact List.prefix_rfl
      · exact hanswer ..
  · obtain rfl := Option.some.inj h
    rename_i p _
    cases p with
    | pure a => exact hgoOn ..
    | throw e => exact hgoOn ..
    | statement f k =>
      rw [Shared.workPlain]
      split
      · exact hgoOn ..
      · exact hanswer ..
  · obtain rfl := Option.some.inj h
    exact List.prefix_rfl
  · cases h
  · cases h

theorem Shared.panic_log {i : ℕ} {c : Client T E A Q} (h : s.panic i c = some t) :
    t.log = s.log := by
  rw [Shared.panic] at h
  split at h
  · cases h
  · cases h
  all_goals
    obtain rfl := Option.some.inj h
    rfl

theorem Shared.step_log {op : SharedOp Q F} (h : s.step pool raise jobs op = some t) :
    s.log <+: t.log := by
  cases op with
  | call i q =>
    rw [Shared.step] at h
    split at h
    · obtain rfl := Option.some.inj h
      exact List.prefix_rfl
    · cases h
  | work i fault =>
    obtain ⟨c,-,hwork⟩ := Option.bind_eq_some_iff.mp h
    exact Shared.work_log hwork
  | panic i =>
    obtain ⟨c,-,hpanic⟩ := Option.bind_eq_some_iff.mp h
    rw [Shared.panic_log hpanic]

theorem Shared.run_log {ops : List (SharedOp Q F)} (h : s.run pool raise jobs ops = some t) :
    s.log <+: t.log := by
  induction ops generalizing s with
  | nil =>
    obtain rfl := Option.some.inj h
    exact List.prefix_rfl
  | cons op ops ih =>
    obtain ⟨u,hstep,hrest⟩ := Option.bind_eq_some_iff.mp h
    exact (Shared.step_log hstep).trans (ih hrest)

theorem Sound.later (h : Sound raise jobs t₀ s) {ops : List (SharedOp Q F)}
    (hrun : s.run pool raise jobs ops = some t) {i j : ℕ} {c : Client T E A Q} {r : Except E A}
    (hc : s.clients i = some c) (hr : c.phase.answer = some r) (hj : s.clients j = none) :
    ∃ n : ℕ, t.log[n]? = some ⟨i,c.call,r⟩ ∧
      ∀ (m : ℕ) e, t.log[m]? = some e → e.client = j → n < m := by
  obtain ⟨rest,hlog⟩ := Shared.run_log hrun
  obtain ⟨n,hn,hget⟩ := List.mem_iff_getElem.mp ((h.stands i c hc).fixed r hr)
  rw [← hlog]
  refine ⟨n,?_,fun m e hm he => ?_⟩
  · rw [List.getElem?_append_left hn,List.getElem?_eq_getElem hn,hget]
  · by_contra hle
    rw [List.getElem?_append_left (by omega)] at hm
    obtain ⟨d,hd,-⟩ := h.logged e (List.mem_of_getElem? hm)
    rw [he,hj] at hd
    cases hd

end Order
end Sql
end Ait
