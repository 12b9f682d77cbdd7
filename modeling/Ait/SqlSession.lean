import Mathlib

/-!
# Programs on a database connection

A `Prog` is a sequence of statements with early returns. `denote` says what it computes
on the content of a database; `run` executes it on a connection, where every call may
also fail for a reason of its own. A transaction commits the whole program or nothing.
-/

namespace Ait
namespace Sql

/-- Each statement sees the content the one before it left; a statement that fails leaves none. -/
inductive Prog (T E A : Type) : Type 1
  | pure (a : A)
  | throw (e : E)
  | statement {B : Type} (f : T → Except E (B × T)) (k : B → Prog T E A)

/-- What is committed, what the statements of an open transaction work on, and which of the
calls to come fail. -/
structure Connection (T E : Type) where
  committed : T
  working : Option T
  faults : List (Option E)

variable {T E A B : Type}

namespace Prog

def bind : Prog T E A → (A → Prog T E B) → Prog T E B
  | .pure a, g => g a
  | .throw e, _ => .throw e
  | .statement f k, g => .statement f fun b => (k b).bind g

instance : Monad (Prog T E) where
  pure := .pure
  bind := .bind

def perform (f : T → Except E (A × T)) : Prog T E A := .statement f .pure

def query (f : T → A) : Prog T E A := .statement (fun t => .ok (f t,t)) .pure

def denote : Prog T E A → T → Except E (A × T)
  | .pure a, t => .ok (a,t)
  | .throw e, _ => .error e
  | .statement f k, t =>
    match f t with
    | .ok (b,t) => (k b).denote t
    | .error e => .error e

section Denote

variable {t : T}

@[simp] theorem denote_query (q : T → B) (k : B → Prog T E A) :
    (query q >>= k).denote t = (k (q t)).denote t := rfl

@[simp] theorem denote_perform (f : T → Except E (B × T)) (k : B → Prog T E A) :
    (perform f >>= k).denote t = (f t).bind fun r => (k r.1).denote r.2 := by
  have hprog : (perform f >>= k) = .statement f fun b => k b := rfl
  rw [hprog,denote]
  cases f t <;> rfl

end Denote
end Prog

namespace Connection

/-- Whether a call fails is decided before it has an effect. -/
def call (c : Connection T E)
    (act : Connection T E → Except E A × Connection T E) : Except E A × Connection T E :=
  match c.faults with
  | some e::faults => (.error e,{ c with faults := faults })
  | none::faults => act { c with faults := faults }
  | [] => act c

/-- Outside a transaction a statement commits at once. -/
def effect (f : T → Except E (A × T)) (c : Connection T E) : Except E A × Connection T E :=
  match c.working with
  | some t =>
    match f t with
    | .ok (a,t) => (.ok a,{ c with working := some t })
    | .error e => (.error e,c)
  | none =>
    match f c.committed with
    | .ok (a,t) => (.ok a,{ c with committed := t })
    | .error e => (.error e,c)

def begin (c : Connection T E) : Except E Unit × Connection T E :=
  c.call fun c => (.ok (),{ c with working := some c.committed })

def commit (c : Connection T E) : Except E Unit × Connection T E :=
  c.call fun c => (.ok (),{ c with committed := c.working.getD c.committed,working := none })

def rollback (c : Connection T E) : Connection T E := { c with working := none }

def run : Prog T E A → Connection T E → Except E A × Connection T E
  | .pure a, c => (.ok a,c)
  | .throw e, c => (.error e,c)
  | .statement f k, c =>
    match c.call (effect f) with
    | (.ok b,c) => run (k b) c
    | (.error e,c) => (.error e,c)

def transact (p : Prog T E A) (c : Connection T E) : Except E A × Connection T E :=
  match c.begin with
  | (.error e,c) => (.error e,c)
  | (.ok (),c) =>
    match run p c with
    | (.error e,c) => (.error e,c.rollback)
    | (.ok a,c) =>
      match c.commit with
      | (.error e,c) => (.error e,c.rollback)
      | (.ok (),c) => (.ok a,c)

end Connection

open Connection

theorem call_cases (base : T) (working : Option T) (faults : List (Option E))
    (act : Connection T E → Except E A × Connection T E) :
    ∃ rest, rest <:+ faults ∧
      ((∃ e, some e ∈ faults ∧
        call ⟨base,working,faults⟩ act = (.error e,⟨base,working,rest⟩)) ∨
      call ⟨base,working,faults⟩ act = act ⟨base,working,rest⟩) := by
  cases faults with
  | nil => exact ⟨[],List.suffix_refl [],.inr rfl⟩
  | cons fault rest =>
    refine ⟨rest,List.suffix_cons fault rest,?_⟩
    cases fault with
    | some e => exact .inl ⟨e,List.mem_cons_self,rfl⟩
    | none => exact .inr rfl

/-- In a transaction a program works on the transaction's content, unless a call fails. -/
theorem run_working (p : Prog T E A) (base t : T) (faults : List (Option E)) :
    ∃ t' rest, rest <:+ faults ∧
      ((∃ a, run p ⟨base,some t,faults⟩ = (.ok a,⟨base,some t',rest⟩) ∧
        p.denote t = .ok (a,t')) ∨
      ∃ e, run p ⟨base,some t,faults⟩ = (.error e,⟨base,some t',rest⟩) ∧
        (some e ∈ faults ∨ p.denote t = .error e)) := by
  induction p generalizing t faults with
  | pure a => exact ⟨t,faults,List.suffix_refl _,.inl ⟨a,rfl,rfl⟩⟩
  | throw e => exact ⟨t,faults,List.suffix_refl _,.inr ⟨e,rfl,.inr rfl⟩⟩
  | statement f k ih =>
    obtain ⟨rest,hrest,⟨e,hmem,hcall⟩ | hcall⟩ := call_cases base (some t) faults (effect f)
    · refine ⟨t,rest,hrest,.inr ⟨e,?_,.inl hmem⟩⟩
      simp only [run,hcall]
    · cases hf : f t with
      | error e =>
        refine ⟨t,rest,hrest,.inr ⟨e,?_,.inr ?_⟩⟩
        · simp only [run,hcall,effect,hf]
        · simp only [Prog.denote,hf]
      | ok bt =>
        obtain ⟨b,u⟩ := bt
        have hrun : run (.statement f k) ⟨base,some t,faults⟩ = run (k b) ⟨base,some u,rest⟩ := by
          simp only [run,hcall,effect,hf]
        have hdenote : (Prog.statement f k).denote t = (k b).denote u := by
          simp only [Prog.denote,hf]
        rw [hrun,hdenote]
        obtain ⟨t',rest',hrest',hanswer⟩ := ih b u rest
        refine ⟨t',rest',hrest'.trans hrest,?_⟩
        rcases hanswer with hok | ⟨e,herror,hwhy⟩
        · exact .inl hok
        · exact .inr ⟨e,herror,hwhy.imp_left fun hmem => hrest.mem hmem⟩

/-- On a connection without a transaction `x` commits what `f` computes, or it fails and leaves
the content alone. -/
def Atomic (x : Connection T E → Except E A × Connection T E) (f : T → Except E (A × T)) : Prop :=
  ∀ t faults, ∃ rest, rest <:+ faults ∧
    ((∃ a t', x ⟨t,none,faults⟩ = (.ok a,⟨t',none,rest⟩) ∧ f t = .ok (a,t')) ∨
    ∃ e, x ⟨t,none,faults⟩ = (.error e,⟨t,none,rest⟩) ∧ (some e ∈ faults ∨ f t = .error e))

theorem transact_atomic (p : Prog T E A) : Atomic (transact p) p.denote := by
  intro t faults
  obtain ⟨rest,hrest,⟨e,hmem,hcall⟩ | hbegin⟩ := call_cases t none faults fun c =>
    ((.ok (),{ c with working := some c.committed }) : Except E Unit × Connection T E)
  · refine ⟨rest,hrest,.inr ⟨e,?_,.inl hmem⟩⟩
    simp only [transact,begin,hcall]
  obtain ⟨t',rest',hrest',⟨a,hrun,hdenote⟩ | ⟨e,hrun,hwhy⟩⟩ := run_working p t t rest
  · obtain ⟨rest'',hrest'',⟨e,hmem,hcall⟩ | hcommit⟩ := call_cases t (some t') rest' fun c =>
      ((.ok (),{ c with committed := c.working.getD c.committed,working := none }) :
        Except E Unit × Connection T E)
    · refine ⟨rest'',(hrest''.trans hrest').trans hrest,.inr ⟨e,?_,.inl ?_⟩⟩
      · simp only [transact,begin,hbegin,hrun,commit,hcall,rollback]
      · exact (hrest'.trans hrest).mem hmem
    · refine ⟨rest'',(hrest''.trans hrest').trans hrest,.inl ⟨a,t',?_,hdenote⟩⟩
      simp only [transact,begin,hbegin,hrun,commit,hcommit,Option.getD_some]
  · refine ⟨rest',hrest'.trans hrest,.inr ⟨e,?_,hwhy.imp_left fun hmem => hrest.mem hmem⟩⟩
    simp only [transact,begin,hbegin,hrun,rollback]

theorem perform_atomic (f : T → Except E (B × T)) (reply : B → A) :
    Atomic (run (Prog.perform f >>= fun b => pure (reply b)))
      (Prog.perform f >>= fun b => pure (reply b)).denote := by
  intro t faults
  have hprog : (Prog.perform f >>= fun b => pure (reply b)) =
      .statement f fun b => .pure (reply b) := rfl
  rw [hprog]
  obtain ⟨rest,hrest,⟨e,hmem,hcall⟩ | hcall⟩ := call_cases t none faults (effect f)
  · refine ⟨rest,hrest,.inr ⟨e,?_,.inl hmem⟩⟩
    simp only [run,hcall]
  · refine ⟨rest,hrest,?_⟩
    cases hf : f t with
    | error e =>
      refine .inr ⟨e,?_,.inr ?_⟩
      · simp only [run,hcall,effect,hf]
      · simp only [Prog.denote,hf]
    | ok bt =>
      refine .inl ⟨reply bt.1,bt.2,?_,?_⟩
      · simp only [run,hcall,effect,hf]
      · simp only [Prog.denote,hf]

theorem query_atomic {q : T → B} {k : B → Prog T E A}
    (hk : ∀ b, Atomic (run (k b)) (k b).denote) :
    Atomic (run (Prog.query q >>= k)) (Prog.query q >>= k).denote := by
  intro t faults
  obtain ⟨rest,hrest,⟨e,hmem,hcall⟩ | hcall⟩ :=
    call_cases t none faults (effect fun t => .ok (q t,t))
  · refine ⟨rest,hrest,.inr ⟨e,?_,.inl hmem⟩⟩
    change run (.statement _ k) _ = _
    simp only [run,hcall]
  · obtain ⟨rest',hrest',hanswer⟩ := hk (q t) t rest
    have hrun : run (Prog.query q >>= k) ⟨t,none,faults⟩ = run (k (q t)) ⟨t,none,rest⟩ := by
      change run (.statement _ k) _ = _
      simp only [run,hcall,effect]
    rw [hrun]
    refine ⟨rest',hrest'.trans hrest,?_⟩
    rcases hanswer with hok | ⟨e,herror,hwhy⟩
    · exact .inl hok
    · exact .inr ⟨e,herror,hwhy.imp_left fun hmem => hrest.mem hmem⟩

theorem throw_atomic (e : E) : Atomic (run (.throw e : Prog T E A)) (Prog.throw e).denote :=
  fun _ faults => ⟨faults,List.suffix_refl _,.inr ⟨e,rfl,.inr rfl⟩⟩

section Unique

variable {R K : Type} [DecidableEq K] {columns : List (R → K)} {rows : List R}

def UniqueColumns (columns : List (R → K)) (rows : List R) : Prop :=
  ∀ col ∈ columns, (rows.map col).Nodup

def conflicts (columns : List (R → K)) (rows : List R) (row : R) : Bool :=
  columns.any fun col => rows.any fun r => col r == col row

omit [DecidableEq K] in
theorem UniqueColumns.update (h : UniqueColumns columns rows) {p : R → Prop} [DecidablePred p] {set : R → R}
    (hset : ∀ col ∈ columns, ∀ r, col (set r) = col r) :
    UniqueColumns columns (rows.map fun r => if p r then set r else r) := by
  intro col hcol
  have hsame : (rows.map fun r => if p r then set r else r).map col = rows.map col := by
    rw [List.map_map]
    refine List.map_congr_left fun r _ => ?_
    by_cases hp : p r
    · simp [hp,hset col hcol]
    · simp [hp]
  rw [hsame]
  exact h col hcol

theorem unique_append (h : UniqueColumns columns rows) (row : R) :
    UniqueColumns columns (rows ++ [row]) ↔ conflicts columns rows row = false := by
  simp only [UniqueColumns,conflicts,List.any_eq_false,beq_iff_eq,Bool.not_eq_true]
  constructor
  · intro hall col hcol r hr heq
    have hnd := hall col hcol
    rw [List.map_append,List.nodup_append] at hnd
    exact hnd.2.2 (col r) (List.mem_map_of_mem hr) (col row) (by simp) heq
  · intro hnew col hcol
    rw [List.map_append,List.nodup_append]
    refine ⟨h col hcol,by simp,?_⟩
    intro a ha b hb heq
    obtain ⟨r,hr,rfl⟩ := List.mem_map.mp ha
    obtain rfl : b = col row := by simpa using hb
    exact hnew col hcol r hr heq

end Unique
end Sql
end Ait
