import Mathlib

/-!
# Runs of a labelled transition function

`exec step` follows a list of labels and stops at a label that is not enabled.
`Along step ok` says that each step taken on the way is taken from a state that
meets `ok`; `exec_invariant` is the one induction every run result uses.
-/

namespace Ait
namespace Transition

variable {S L : Type}

/-- Follow the labels; `none` when a label is not enabled where it is met. -/
def exec (step : S → L → Option S) : S → List L → Option S
  | s, [] => some s
  | s, a::as => (step s a).bind fun t => exec step t as

/-- Every step of the run is taken from a state that meets `ok`. -/
def Along (step : S → L → Option S) (ok : S → L → Prop) : S → List L → Prop
  | _, [] => True
  | s, a::as => ok s a ∧ ∀ t, step s a = some t → Along step ok t as

theorem along_of_forall {step : S → L → Option S} {ok : S → L → Prop} (h : ∀ s a, ok s a)
    (s : S) (as : List L) : Along step ok s as := by
  induction as generalizing s with
  | nil => trivial
  | cons a as ih => exact ⟨h s a,fun t _ => ih t⟩

theorem along_of_mem {step : S → L → Option S} {ok : L → Prop} {as : List L} (h : ∀ a ∈ as, ok a)
    (s : S) : Along step (fun _ a => ok a) s as := by
  induction as generalizing s with
  | nil => trivial
  | cons a as ih =>
    exact ⟨h a List.mem_cons_self,fun t _ => ih (fun b hb => h b (List.mem_cons_of_mem a hb)) t⟩

theorem Along.and {step : S → L → Option S} {ok ok' : S → L → Prop} {s : S} {as : List L}
    (h : Along step ok s as) (h' : Along step ok' s as) :
    Along step (fun s a => ok s a ∧ ok' s a) s as := by
  induction as generalizing s with
  | nil => trivial
  | cons a as ih => exact ⟨⟨h.1,h'.1⟩,fun t ht => ih (h.2 t ht) (h'.2 t ht)⟩

theorem Along.mono {step : S → L → Option S} {ok ok' : S → L → Prop} {s : S} {as : List L}
    (h : Along step ok s as) (himp : ∀ s a, ok s a → ok' s a) : Along step ok' s as := by
  induction as generalizing s with
  | nil => trivial
  | cons a as ih => exact ⟨himp s a h.1,fun t ht => ih (h.2 t ht)⟩

def decidableAlong (step : S → L → Option S) (ok : S → L → Prop) [∀ s a, Decidable (ok s a)] :
    (s : S) → (as : List L) → Decidable (Along step ok s as)
  | _, [] => .isTrue trivial
  | s, a::as =>
    have : Decidable (∀ t, step s a = some t → Along step ok t as) :=
      match step s a with
      | none => .isTrue nofun
      | some t =>
        have := decidableAlong step ok t as
        decidable_of_iff (Along step ok t as)
          ⟨fun ht _ he => Option.some.inj he ▸ ht,fun ht => ht t rfl⟩
    inferInstanceAs (Decidable (ok s a ∧ _))

instance {step : S → L → Option S} {ok : S → L → Prop} [∀ s a, Decidable (ok s a)] (s : S)
    (as : List L) : Decidable (Along step ok s as) := decidableAlong step ok s as

/-- What a step that meets `ok` preserves, a run of such steps preserves. -/
theorem exec_invariant {step : S → L → Option S} {ok : S → L → Prop} {Inv : S → Prop}
    (hstep : ∀ s a t, step s a = some t → ok s a → Inv s → Inv t)
    {s t : S} {as : List L} (hrun : exec step s as = some t) (hok : Along step ok s as)
    (hs : Inv s) : Inv t := by
  induction as generalizing s with
  | nil =>
    obtain rfl := Option.some.inj hrun
    exact hs
  | cons a as ih =>
    obtain ⟨u,hu,hrest⟩ := Option.bind_eq_some_iff.mp hrun
    exact ih hrest (hok.2 u hu) (hstep s a u hu hok.1 hs)

theorem exec_preserves {step : S → L → Option S} {Inv : S → Prop}
    (hstep : ∀ s a t, step s a = some t → Inv s → Inv t) {s t : S} {as : List L}
    (hrun : exec step s as = some t) (hs : Inv s) : Inv t := by
  have hok : Along step (fun _ _ => True) s as := along_of_forall (fun _ _ => trivial) s as
  exact exec_invariant (fun s a t hst _ => hstep s a t hst) hrun hok hs

/-- What each step keeps exactly when it meets `ok`, a run keeps exactly when all its steps do. -/
theorem exec_iff {step : S → L → Option S} {ok : S → L → Prop} {Inv Good : S → Prop}
    (hstep : ∀ s a t, step s a = some t → Inv s → Inv t ∧ (Good t ↔ Good s ∧ ok s a))
    {s t : S} {as : List L} (hrun : exec step s as = some t) (hs : Inv s) :
    Good t ↔ Good s ∧ Along step ok s as := by
  induction as generalizing s with
  | nil =>
    obtain rfl := Option.some.inj hrun
    simp [Along]
  | cons a as ih =>
    obtain ⟨u,hu,hrest⟩ := Option.bind_eq_some_iff.mp hrun
    obtain ⟨hinv,hgood⟩ := hstep s a u hu hs
    rw [ih hrest hinv,hgood,and_assoc]
    simp [Along,hu]

@[simp] theorem exec_total (f : S → L → S) (s : S) (as : List L) :
    exec (fun s a => some (f s a)) s as = some (as.foldl f s) := by
  induction as generalizing s with
  | nil => rfl
  | cons a as ih => simp [exec,ih]

@[simp] theorem exec_append (step : S → L → Option S) (s : S) (as bs : List L) :
    exec step s (as ++ bs) = (exec step s as).bind fun t => exec step t bs := by
  induction as generalizing s with
  | nil => rfl
  | cons a as ih =>
    rw [List.cons_append,exec,exec,Option.bind_assoc]
    exact congrArg _ (funext ih)

theorem exec_snoc {step : S → L → Option S} {s t u : S} {as : List L} {a : L}
    (hrun : exec step s as = some t) (hstep : step t a = some u) :
    exec step s (as ++ [a]) = some u := by
  rw [exec_append,hrun,Option.bind_some,exec,hstep]
  rfl

end Transition
end Ait
