import Mathlib

/-!
# Two runs side by side

Computations that agree up to a relation on their results, lists whose elements correspond,
and runs that answer alike because related states answer related requests alike.
-/

namespace Ait

variable {A A' B B' E : Type} {R : A → A' → Prop} {S : B → B' → Prop}

def Agree (R : A → A' → Prop) : Except E A → Except E A' → Prop
  | .ok a,.ok b => R a b
  | .error e,.error e' => e = e'
  | _,_ => False

section Agree

variable {x : Except E A} {y : Except E A'}

theorem Agree.bind {f : A → Except E B} {g : A' → Except E B'} (h : Agree R x y)
    (hfg : ∀ a a', R a a' → Agree S (f a) (g a')) : Agree S (x >>= f) (y >>= g) := by
  cases x with
  | error e => cases y with
    | error e' => exact h
    | ok b => exact h.elim
  | ok a => cases y with
    | error e' => exact h.elim
    | ok b => exact hfg a b h

theorem Agree.map {f : A → B} {g : A' → B'} (h : Agree R x y)
    (hfg : ∀ a a', R a a' → S (f a) (g a')) : Agree S (x.map f) (y.map g) := by
  cases x with
  | error e => cases y with
    | error e' => exact h
    | ok b => exact h.elim
  | ok a => cases y with
    | error e' => exact h.elim
    | ok b => exact hfg a b h

theorem Agree.cases (h : Agree R x y) :
    (∃ e, x = .error e ∧ y = .error e) ∨ ∃ a a', x = .ok a ∧ y = .ok a' ∧ R a a' := by
  cases x with
  | error e => cases y with
    | error e' => exact .inl ⟨e,rfl,congrArg _ (Eq.symm h)⟩
    | ok b => exact h.elim
  | ok a => cases y with
    | error e' => exact h.elim
    | ok b => exact .inr ⟨a,b,rfl,rfl,h⟩

theorem Agree.of_eq (x : Except E A) : Agree Eq x x := by
  cases x with
  | error e => rfl
  | ok a => rfl

end Agree

open List

theorem forall₂_find? {p : A → Bool} {q : A' → Bool} (hpq : ∀ a a', R a a' → p a = q a') {l : List A}
    {l' : List A'} (h : Forall₂ R l l') : Option.Rel R (l.find? p) (l'.find? q) := by
  induction h with
  | nil => exact .none
  | @cons a a' l l' ha h ih =>
    rw [List.find?_cons,List.find?_cons,← hpq a a' ha]
    cases p a with
    | true => exact .some ha
    | false => exact ih

section Sorting

variable {le : A → A → Prop} {le' : A' → A' → Prop} [DecidableRel le] [DecidableRel le']
  (hle : ∀ a a' b b', R a a' → R b b' → (le a b ↔ le' a' b'))
include hle

theorem forall₂_orderedInsert {a : A} {a' : A'} (ha : R a a') {l : List A} {l' : List A'}
    (h : Forall₂ R l l') : Forall₂ R (l.orderedInsert le a) (l'.orderedInsert le' a') := by
  induction h with
  | nil => exact .cons ha .nil
  | @cons b b' l l' hb h ih =>
    by_cases hab : le a b
    · rw [orderedInsert_cons_of_le le l hab,
        orderedInsert_cons_of_le le' l' ((hle a a' b b' ha hb).mp hab)]
      exact .cons ha (.cons hb h)
    · rw [orderedInsert_of_not_le le l hab,
        orderedInsert_of_not_le le' l' fun hab' => hab ((hle a a' b b' ha hb).mpr hab')]
      exact .cons hb ih

theorem forall₂_insertionSort {l : List A} {l' : List A'} (h : Forall₂ R l l') :
    Forall₂ R (l.insertionSort le) (l'.insertionSort le') := by
  induction h with
  | nil => exact .nil
  | cons ha h ih => exact forall₂_orderedInsert hle ha ih

end Sorting

section Runs

variable {D L O : Type} {R : D → D → Prop} {Q : L → L → Prop} {handle : D → L → O × D}

def after (handle : D → L → O × D) (d : D) (as : List L) : D := as.foldl (fun d a => (handle d a).2) d

def answers (handle : D → L → O × D) : D → List L → List O
  | _, [] => []
  | d, a::as => (handle d a).1::answers handle (handle d a).2 as

theorem answers_eq (hstep : ∀ d d' a a', R d d' → Q a a' →
      (handle d a).1 = (handle d' a').1 ∧ R (handle d a).2 (handle d' a').2)
    {d d' : D} (hd : R d d') {as as' : List L} (has : Forall₂ Q as as') :
    answers handle d as = answers handle d' as' ∧ R (after handle d as) (after handle d' as') := by
  induction has generalizing d d' with
  | nil => exact ⟨rfl,hd⟩
  | @cons a a' as as' ha has ih =>
    obtain ⟨hanswer,hnext⟩ := hstep d d' a a' hd ha
    obtain ⟨hrest,hlast⟩ := ih hnext
    exact ⟨by rw [answers,answers,hanswer,hrest],hlast⟩

theorem after_inv (Inv : D → Prop) (hstep : ∀ d a, Inv d → Inv (handle d a).2) {d : D} (hd : Inv d)
    (as : List L) : Inv (after handle d as) := by
  induction as generalizing d with
  | nil => exact hd
  | cons a as ih => exact ih (hstep d a hd)

/-- Where every answer tells what the step did to a view of the state, the transcript of a run
tells the view of the state it ends in. -/
theorem view_after {V : Type} (view : D → V) {record : V → L × O → V} {Inv : D → Prop}
    {Fits : L → Prop} (hstep : ∀ d a, Inv d → Fits a → Inv (handle d a).2 ∧
      view (handle d a).2 = record (view d) (a,(handle d a).1)) {d : D} (hd : Inv d) {as : List L}
    (has : ∀ a ∈ as, Fits a) : Inv (after handle d as) ∧
      view (after handle d as) = (as.zip (answers handle d as)).foldl record (view d) := by
  induction as generalizing d with
  | nil => exact ⟨hd,rfl⟩
  | cons a as ih =>
    obtain ⟨hnext,hview⟩ := hstep d a hd (has a List.mem_cons_self)
    obtain ⟨hlast,hrest⟩ := ih hnext fun b hb => has b (List.mem_cons_of_mem a hb)
    refine ⟨hlast,hrest.trans ?_⟩
    rw [answers,List.zip_cons_cons,List.foldl_cons,hview]

end Runs
end Ait
