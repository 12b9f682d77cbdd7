import Mathlib

/-!
# Tables that are appended to and swept

Rows come at the end and sweeps take some away. What no sweep may take is all there, in
the order in which it came.
-/

namespace Ait
namespace Retention

variable {α : Type} {p q : α → Bool} {all rows : List α}

/-- Of all rows that came these are left, and with them every row that `p` asks for. -/
structure Left (p : α → Bool) (all rows : List α) : Prop where
  sublist : rows.Sublist all
  kept : rows.filter p = all.filter p

namespace Left

theorem refl (p : α → Bool) (rows : List α) : Left p rows rows := ⟨.refl rows,rfl⟩

theorem append (h : Left p all rows) (more : List α) : Left p (all ++ more) (rows ++ more) where
  sublist := h.sublist.append_right more
  kept := by rw [List.filter_append,List.filter_append,h.kept]

theorem sweep (h : Left p all rows) (hq : ∀ r, p r = true → q r = true) :
    Left p all (rows.filter q) where
  sublist := List.filter_sublist.trans h.sublist
  kept := by
    rw [List.filter_filter,← h.kept]
    refine List.filter_congr fun r _ => ?_
    cases hp : p r with
    | false => rfl
    | true => rw [hq r hp]; rfl

theorem select (h : Left p all rows) (hq : ∀ r, q r = true → p r = true) :
    rows.filter q = all.filter q := by
  have hboth : ∀ l : List α, l.filter q = (l.filter p).filter q := by
    intro l
    rw [List.filter_filter]
    refine List.filter_congr fun r _ => ?_
    cases hr : q r with
    | false => rfl
    | true => rw [hq r hr]; rfl
  rw [hboth rows,hboth all,h.kept]

end Left
end Retention
end Ait
