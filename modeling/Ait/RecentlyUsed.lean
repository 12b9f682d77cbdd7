import Mathlib

/-!
# Least recently used

A bounded list of keys, the most recently used first: a use moves its key to the front, and
what no longer fits falls off the end. After any uses it holds the first keys of the list
of all used keys, ordered by their last use.
-/

namespace Ait
namespace RecentlyUsed

variable {K : Type} [DecidableEq K]

def touch (held : List K) (k : K) : List K := k::held.erase k

/-- A use of a list that holds `n` keys. -/
def use (n : ℕ) (held : List K) (k : K) : List K := (touch held k).take n

/-- The distinct keys of a history, the most recently used first. -/
def recent (history : List K) : List K := history.dedup.reverse

example : recent [3,1,3,2,1] = [1,2,3] := by decide

@[simp] theorem length_recent (history : List K) : (recent history).length = history.dedup.length :=
  List.length_reverse

theorem dedup_snoc (history : List K) (k : K) :
    (history ++ [k]).dedup = history.dedup.erase k ++ [k] := by
  induction history with
  | nil => simp
  | cons a history ih =>
    rw [List.cons_append]
    by_cases ha : a ∈ history
    · rw [List.dedup_cons_of_mem (List.mem_append_left _ ha),List.dedup_cons_of_mem ha,ih]
    · rw [List.dedup_cons_of_notMem ha]
      by_cases hk : a = k
      · subst hk
        have hgone : a ∉ history.dedup := fun h => ha (List.mem_dedup.mp h)
        rw [List.dedup_cons_of_mem (by simp),ih,List.erase_cons_head,List.erase_of_not_mem hgone]
      · have hmem : a ∉ history ++ [k] := by simp [ha,hk]
        rw [List.dedup_cons_of_notMem hmem,ih,List.erase_cons_tail (by simpa using hk),
          List.cons_append]

@[simp] theorem recent_snoc (history : List K) (k : K) :
    recent (history ++ [k]) = touch (recent history) k := by
  have hnodup := List.nodup_dedup history
  rw [recent,dedup_snoc,List.reverse_append,List.reverse_singleton,List.singleton_append,touch,
    recent,(List.nodup_reverse.mpr hnodup).erase_eq_filter,hnodup.erase_eq_filter,
    List.filter_reverse]

theorem take_erase_take (held : List K) (k : K) (n : ℕ) :
    ((held.take (n+1)).erase k).take n = (held.erase k).take n := by
  induction held generalizing n with
  | nil => rfl
  | cons a held ih =>
    rw [List.take_succ_cons]
    by_cases hk : a = k
    · subst hk
      rw [List.erase_cons_head,List.erase_cons_head,List.take_take,min_self]
    · have hne : ¬(a == k) = true := by simpa using hk
      rw [List.erase_cons_tail hne,List.erase_cons_tail hne]
      cases n with
      | zero => rfl
      | succ n => rw [List.take_succ_cons,List.take_succ_cons,ih]

@[simp] theorem use_take (n : ℕ) (held : List K) (k : K) :
    use n (held.take n) k = use n held k := by
  cases n with
  | zero => rfl
  | succ n => rw [use,use,touch,touch,List.take_succ_cons,List.take_succ_cons,take_erase_take]

@[simp] theorem use_recent (n : ℕ) (history : List K) (k : K) :
    use n ((recent history).take n) k = (recent (history ++ [k])).take n := by
  rw [use_take,recent_snoc,use]

variable {n : ℕ} {held : List K} {k : K}

@[simp] theorem use_of_mem (hlen : held.length ≤ n) (hk : k ∈ held) :
    use n held k = touch held k := by
  have herase := List.length_erase_of_mem hk
  have hpos := List.length_pos_of_mem hk
  refine List.take_of_length_le ?_
  rw [touch,List.length_cons]
  omega

@[simp] theorem touch_of_not_mem (hk : k ∉ held) : touch held k = k::held := by
  rw [touch,List.erase_of_not_mem hk]

@[simp] theorem use_full {last : K} (hlen : (held ++ [last]).length = n) (hk : k ∉ held ++ [last]) :
    use n (held ++ [last]) k = k::held := by
  rw [use,touch_of_not_mem hk,← List.cons_append]
  refine List.take_left' ?_
  rw [← hlen,List.length_append,List.length_cons,List.length_singleton]

@[simp] theorem use_room (hlen : held.length < n) (hk : k ∉ held) : use n held k = k::held := by
  rw [use,touch_of_not_mem hk]
  exact List.take_of_length_le (by rw [List.length_cons]; omega)

end RecentlyUsed
end Ait
