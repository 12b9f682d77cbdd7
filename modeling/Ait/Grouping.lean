import Mathlib

/-!
# Grouping and ordering rows

`GROUP BY` cuts the rows into groups by a key, and sums over the groups add up to the sum
over the rows. `ORDER BY` fixes the order of rows with different keys only; a `Scan`
stands for the order that a query happens to meet the rows in.
-/

namespace Ait
namespace Grouping

variable {α κ M : Type}

section Groups

variable [DecidableEq κ] {key : α → κ} {l : List α}

def keys (key : α → κ) (l : List α) : List κ := (l.map key).dedup

def group (key : α → κ) (l : List α) (k : κ) : List α := l.filter fun x => key x = k

theorem nodup_keys : (keys key l).Nodup := List.nodup_dedup _

@[simp] theorem mem_keys {k : κ} : k ∈ keys key l ↔ ∃ x ∈ l, key x = k := by
  simp [keys]

@[simp] theorem mem_group {k : κ} {x : α} : x ∈ group key l k ↔ x ∈ l ∧ key x = k := by
  simp [group]

theorem group_ne_nil {k : κ} (h : k ∈ keys key l) : group key l k ≠ [] := by
  obtain ⟨x,hx,hk⟩ := mem_keys.mp h
  exact List.ne_nil_of_mem (mem_group.mpr ⟨hx,hk⟩)

theorem sum_map_single [AddCommMonoid M] {ks : List κ} {k : κ} (hks : ks.Nodup) (hk : k ∈ ks)
    (v : M) : (ks.map fun j => if k = j then v else 0).sum = v := by
  induction ks with
  | nil => exact absurd hk List.not_mem_nil
  | cons j ks ih =>
    obtain ⟨hj,hks⟩ := List.nodup_cons.mp hks
    rw [List.map_cons,List.sum_cons]
    by_cases h : k = j
    · subst h
      have hrest : (ks.map fun i => if k = i then v else 0) = ks.map fun _ => 0 := by
        refine List.map_congr_left fun i hi => if_neg ?_
        rintro rfl
        exact hj hi
      rw [if_pos rfl,hrest]
      simp
    · rw [if_neg h,ih hks ((List.mem_cons.mp hk).resolve_left h),zero_add]

@[simp] theorem sum_groups [AddCommMonoid M] (f : α → M) {ks : List κ} (hks : ks.Nodup)
    (hall : ∀ x ∈ l, key x ∈ ks) :
    (ks.map fun k => ((group key l k).map f).sum).sum = (l.map f).sum := by
  induction l with
  | nil => simp [group]
  | cons x l ih =>
    have hcut : ∀ k, ((group key (x::l) k).map f).sum =
        (if key x = k then f x else 0)+((group key l k).map f).sum := by
      intro k
      by_cases h : key x = k
      · simp [group,h]
      · simp [group,h]
    rw [funext hcut,List.sum_map_add,sum_map_single hks (hall x List.mem_cons_self),
      ih fun y hy => hall y (List.mem_cons_of_mem _ hy),List.map_cons,List.sum_cons]

@[simp] theorem sum_length_groups {ks : List κ} (hks : ks.Nodup) (hall : ∀ x ∈ l, key x ∈ ks) :
    (ks.map fun k => (group key l k).length).sum = l.length := by
  have hsum := sum_groups (fun _ : α => 1) hks hall
  simpa using hsum

end Groups

theorem sum_map_filter [AddCommMonoid M] (f : κ → M) (p : κ → Prop) [DecidablePred p]
    (ks : List κ) :
    ((ks.filter p).map f).sum = (ks.map fun k => if p k then f k else 0).sum := by
  induction ks with
  | nil => rfl
  | cons k ks ih =>
    by_cases h : p k
    · simp [h,ih]
    · simp [h,ih]

/-- Sums of values that are below others, one by one, agree when the values do. -/
theorem sum_eq_sum_iff_of_le [AddCommMonoid M] [PartialOrder M] [IsOrderedCancelAddMonoid M]
    {f g : κ → M} {ks : List κ} (h : ∀ k ∈ ks, f k ≤ g k) :
    (ks.map f).sum = (ks.map g).sum ↔ ∀ k ∈ ks, f k = g k := by
  induction ks with
  | nil => simp
  | cons k ks ih =>
    have hk := h k List.mem_cons_self
    have hrest : ∀ j ∈ ks, f j ≤ g j := fun j hj => h j (List.mem_cons_of_mem _ hj)
    have hsum : (ks.map f).sum ≤ (ks.map g).sum := List.sum_le_sum hrest
    rw [List.map_cons,List.map_cons,List.sum_cons,List.sum_cons,
      add_eq_add_iff_eq_and_eq hk hsum,ih hrest,List.forall_mem_cons]

structure Scan (α : Type) where
  arrange : List α → List α
  perm : ∀ l, (arrange l).Perm l

namespace Scan

def stored : Scan α := ⟨id,fun l => .refl l⟩

instance : Inhabited (Scan α) := ⟨stored⟩

/-- `ORDER BY`: rows of equal keys stay as the scan meets them. -/
def orderBy (scan : Scan α) (le : α → α → Prop) [DecidableRel le] (l : List α) : List α :=
  (scan.arrange l).insertionSort le

theorem orderBy_perm (scan : Scan α) (le : α → α → Prop) [DecidableRel le] (l : List α) :
    (scan.orderBy le l).Perm l :=
  (List.perm_insertionSort le _).trans (scan.perm l)

theorem orderBy_pairwise (scan : Scan α) (le : α → α → Prop) [DecidableRel le] [Std.Total le]
    [IsTrans α le] (l : List α) : (scan.orderBy le l).Pairwise le :=
  List.pairwise_insertionSort le _

/-- A scan that meets the rows in a given order, where these are the rows. -/
def toward [DecidableEq α] (s : List α) : Scan α where
  arrange l := if s.Perm l then s else l
  perm l := by
    by_cases h : s.Perm l
    · rw [if_pos h]
      exact h
    · rw [if_neg h]

theorem orderBy_toward [DecidableEq α] {le : α → α → Prop} [DecidableRel le] {s l : List α}
    (hperm : s.Perm l) (hs : s.Pairwise le) : (toward s).orderBy le l = s := by
  have harrange : (toward s).arrange l = s := if_pos hperm
  rw [orderBy,harrange]
  exact hs.insertionSort_eq

end Scan

/-- `out` is `l` in ascending order, and elements of equal keys stand as in `l`. -/
structure StablySorted [LinearOrder κ] (key : α → κ) (l out : List α) : Prop where
  perm : out.Perm l
  ascending : out.Pairwise fun a b => key a ≤ key b
  ties : ∀ k, group key out k = group key l k

theorem stablySorted_mergeSort [LinearOrder κ] (key : α → κ) (l : List α) :
    StablySorted key l (l.mergeSort fun a b => key a ≤ key b) := by
  have hperm := List.mergeSort_perm l fun a b => decide (key a ≤ key b)
  have htrans : ∀ a b c : α, decide (key a ≤ key b) = true → decide (key b ≤ key c) = true →
      decide (key a ≤ key c) = true := by
    intro a b c hab hbc
    exact decide_eq_true ((of_decide_eq_true hab).trans (of_decide_eq_true hbc))
  have htotal : ∀ a b : α, (decide (key a ≤ key b) || decide (key b ≤ key a)) = true := by
    intro a b
    simpa using le_total (key a) (key b)
  constructor
  · exact hperm
  · exact (List.pairwise_mergeSort htrans htotal l).imp of_decide_eq_true
  · intro k
    -- the rows of one key are sorted as they stand, so they stay a sublist
    have hties : (group key l k).Pairwise fun a b => decide (key a ≤ key b) = true := by
      apply List.pairwise_of_forall_mem_list
      intro a ha b hb
      rw [(mem_group.mp ha).2,(mem_group.mp hb).2]
      exact decide_eq_true le_rfl
    have hsub := List.sublist_mergeSort htrans htotal hties List.filter_sublist
    have hgroup := hsub.filter fun x => decide (key x = k)
    simp only [group,List.filter_filter,Bool.and_self] at hgroup
    exact (hgroup.eq_of_length (hperm.filter _).length_eq.symm).symm

end Grouping
end Ait
