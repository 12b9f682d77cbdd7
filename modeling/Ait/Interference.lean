import Mathlib

/-!
# Labels that do not interfere

A machine answers every label it is given. When a relation between states survives a kept label
on both sides and a hidden one on the left side, and equal labels get equal answers in related
states, then a run and the same run without its hidden labels end in related states,
and the kept labels get the same answers in both.
-/

namespace Ait

structure Machine (S L O : Type) where
  step : S → L → S
  output : S → L → O

namespace Machine

variable {S L O : Type} (M : Machine S L O)

def run (s : S) (as : List L) : S := as.foldl M.step s

def trace : S → List L → List (L × O)
  | _, [] => []
  | s, a::as => (a,M.output s a)::trace (M.step s a) as

/-- `R` relates a run to the run without its hidden labels, among labels that are `allowed`. -/
structure Unwinds (allowed : L → Prop) (hidden : L → Bool) (R : S → S → Prop) : Prop where
  kept : ∀ s t a, allowed a → R s t → hidden a = false → R (M.step s a) (M.step t a)
  skipped : ∀ s t a, allowed a → R s t → hidden a = true → R (M.step s a) t
  answers : ∀ s t a, allowed a → R s t → hidden a = false → M.output s a = M.output t a

variable {M} {allowed : L → Prop} {hidden : L → Bool} {R : S → S → Prop} {s t : S} {as : List L}

theorem Unwinds.run (h : M.Unwinds allowed hidden R) (has : ∀ a ∈ as, allowed a) (hst : R s t) :
    R (M.run s as) (M.run t (as.filter fun a => !hidden a)) := by
  induction as generalizing s t with
  | nil => exact hst
  | cons a as ih =>
    have ha := has a List.mem_cons_self
    have hrest : ∀ b ∈ as, allowed b := fun b hb => has b (List.mem_cons_of_mem a hb)
    cases hhidden : hidden a with
    | true =>
      rw [List.filter_cons_of_neg (by simp [hhidden])]
      exact ih hrest (h.skipped s t a ha hst hhidden)
    | false =>
      rw [List.filter_cons_of_pos (by simp [hhidden])]
      exact ih hrest (h.kept s t a ha hst hhidden)

theorem Unwinds.trace (h : M.Unwinds allowed hidden R) (has : ∀ a ∈ as, allowed a)
    (hst : R s t) : (M.trace s as).filter (fun x => !hidden x.1) =
      M.trace t (as.filter fun a => !hidden a) := by
  induction as generalizing s t with
  | nil => rfl
  | cons a as ih =>
    have ha := has a List.mem_cons_self
    have hrest : ∀ b ∈ as, allowed b := fun b hb => has b (List.mem_cons_of_mem a hb)
    rw [Machine.trace]
    cases hhidden : hidden a with
    | true =>
      rw [List.filter_cons_of_neg (by simp [hhidden]),List.filter_cons_of_neg (by simp [hhidden])]
      exact ih hrest (h.skipped s t a ha hst hhidden)
    | false =>
      rw [List.filter_cons_of_pos (by simp [hhidden]),List.filter_cons_of_pos (by simp [hhidden]),
        Machine.trace,h.answers s t a ha hst hhidden,ih hrest (h.kept s t a ha hst hhidden)]

/-- Without its hidden labels the run ends in the same view, and every other label gets the same
answer. -/
def Isolated {V : Type} (M : Machine S L O) (hidden : L → Bool) (view : S → V) (s : S)
    (as : List L) : Prop :=
  view (M.run s as) = view (M.run s (as.filter fun a => !hidden a)) ∧
    (M.trace s as).filter (fun x => !hidden x.1) = M.trace s (as.filter fun a => !hidden a)

theorem Unwinds.isolated {V : Type} {view : S → V} (h : M.Unwinds allowed hidden R)
    (hview : ∀ s t, R s t → view s = view t) (has : ∀ a ∈ as, allowed a) (hs : R s s) :
    M.Isolated hidden view s as :=
  ⟨hview _ _ (h.run has hs),h.trace has hs⟩

end Machine
end Ait
