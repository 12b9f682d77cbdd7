import Mathlib

/-!
# Finite maps with a uniform invariant on their entries

A concurrent hash map is used through a handful of operations: read, insert,
remove, filter and count. `Holds P m` says that every entry of `m` satisfies
`P`; the lemmas say how each operation moves that invariant, so a cache proof
only has to establish `P` for the entry it inserts.
-/

namespace Ait

/-- A finite map; the order of the underlying list carries no meaning. -/
structure FiniteMap (K V : Type) where
  alist : AList fun _ : K => V

namespace FiniteMap

variable {K V : Type} [DecidableEq K]

instance [DecidableEq V] : DecidableEq (FiniteMap K V) := fun m n =>
  decidable_of_iff (m.alist = n.alist) ⟨fun h => congrArg mk h,congrArg alist⟩

def empty : FiniteMap K V := ⟨∅⟩

instance : Inhabited (FiniteMap K V) := ⟨empty⟩

def get (m : FiniteMap K V) (k : K) : Option V := m.alist.lookup k

def insert (m : FiniteMap K V) (k : K) (v : V) : FiniteMap K V := ⟨m.alist.insert k v⟩

def remove (m : FiniteMap K V) (k : K) : FiniteMap K V := ⟨m.alist.erase k⟩

/-- Keep the entries that satisfy `p`. -/
def retain (m : FiniteMap K V) (p : K → V → Bool) : FiniteMap K V where
  alist :=
    { entries := m.alist.entries.filter fun e => p e.1 e.2
      nodupKeys := m.alist.nodupKeys.sublist List.filter_sublist }

def contains (m : FiniteMap K V) (k : K) : Bool := (m.get k).isSome

def len (m : FiniteMap K V) : ℕ := m.alist.entries.length

def toList (m : FiniteMap K V) : List (K × V) := m.alist.entries.map fun e => (e.1,e.2)

@[simp] theorem get_empty (k : K) : (empty : FiniteMap K V).get k = none :=
  AList.lookup_empty k

@[simp] theorem get_insert (m : FiniteMap K V) (k j : K) (v : V) :
    (m.insert k v).get j = if j = k then some v else m.get j := by
  by_cases h : j = k
  · subst h
    simp [get,insert]
  · simp [get,insert,AList.lookup_insert_ne h,h]

@[simp] theorem get_remove (m : FiniteMap K V) (k j : K) :
    (m.remove k).get j = if j = k then none else m.get j := by
  by_cases h : j = k
  · subst h
    simp [get,remove]
  · simp [get,remove,AList.lookup_erase_ne h,h]

@[simp] theorem mem_entries_iff {m : FiniteMap K V} {k : K} {v : V} :
    (⟨k,v⟩ : Σ _ : K, V) ∈ m.alist.entries ↔ m.get k = some v :=
  AList.mem_lookup_iff.symm

@[simp] theorem mem_toList {m : FiniteMap K V} {k : K} {v : V} :
    (k,v) ∈ m.toList ↔ m.get k = some v := by
  rw [← mem_entries_iff]
  constructor
  · intro h
    obtain ⟨⟨j,w⟩,he,heq⟩ := List.mem_map.mp h
    obtain ⟨rfl,rfl⟩ := Prod.mk.inj heq
    exact he
  · intro h
    exact List.mem_map.mpr ⟨⟨k,v⟩,h,rfl⟩

@[simp] theorem get_retain (m : FiniteMap K V) (p : K → V → Bool) (k : K) :
    (m.retain p).get k = (m.get k).filter (p k) := by
  apply Option.ext
  intro v
  rw [← mem_entries_iff,Option.filter_eq_some_iff,← mem_entries_iff]
  exact List.mem_filter

@[simp] theorem contains_insert (m : FiniteMap K V) (k j : K) (v : V) :
    (m.insert k v).contains j = true ↔ j = k ∨ m.contains j = true := by
  by_cases h : j = k
  · simp [contains,h]
  · simp [contains,h]

@[simp] theorem contains_remove (m : FiniteMap K V) (k j : K) :
    (m.remove k).contains j = true ↔ j ≠ k ∧ m.contains j = true := by
  by_cases h : j = k
  · simp [contains,h]
  · simp [contains,h]

theorem len_eq_length {m : FiniteMap K V} {keys : List K} (hkeys : keys.Nodup)
    (h : ∀ k, m.contains k = true ↔ k ∈ keys) : m.len = keys.length := by
  have hperm : m.alist.keys.Perm keys := by
    refine (List.perm_ext_iff_of_nodup m.alist.keys_nodup hkeys).mpr fun k => ?_
    rw [← h k,← AList.mem_keys,← AList.lookup_isSome]
    rfl
  rw [← hperm.length_eq,AList.keys,List.keys,List.length_map,len]

section Writes

variable {A : Type} {key : A → K} {value : A → V} {k : K} {l : List A}

@[simp] theorem get_foldl_insert_other {m : FiniteMap K V} (h : ∀ r ∈ l, key r ≠ k) :
    (l.foldl (fun m r => m.insert (key r) (value r)) m).get k = m.get k := by
  induction l generalizing m with
  | nil => rfl
  | cons r l ih =>
    rw [List.foldl_cons,ih fun r' hr => h r' (List.mem_cons_of_mem _ hr),get_insert,
      if_neg (h r List.mem_cons_self).symm]

@[simp] theorem get_foldl_insert_last (m : FiniteMap K V) (hl : l ≠ []) (h : ∀ r ∈ l, key r = k) :
    (l.foldl (fun m r => m.insert (key r) (value r)) m).get k = some (value (l.getLast hl)) := by
  obtain rfl | ⟨front,r,rfl⟩ := List.eq_nil_or_concat l
  · exact absurd rfl hl
  · have hr := h r (by simp)
    simp [hr]

end Writes

/-- Every entry satisfies `P`. -/
def Holds (P : K → V → Prop) (m : FiniteMap K V) : Prop := ∀ k v, m.get k = some v → P k v

section Holds

variable {P Q : K → V → Prop} {m n : FiniteMap K V}

theorem Holds.empty : Holds P (FiniteMap.empty : FiniteMap K V) := by
  intro k v h
  simp at h

theorem Holds.mono (h : Holds P m) (hPQ : ∀ k v, P k v → Q k v) : Holds Q m :=
  fun k v hk => hPQ k v (h k v hk)

theorem Holds.of_sub (h : Holds P m) (hsub : ∀ k v, n.get k = some v → m.get k = some v) :
    Holds P n :=
  fun k v hk => h k v (hsub k v hk)

theorem Holds.insert (h : Holds P m) {k : K} {v : V} (hkv : P k v) : Holds P (m.insert k v) := by
  intro j w hj
  rw [get_insert] at hj
  split at hj
  case isTrue heq =>
    obtain rfl := Option.some.inj hj
    exact heq ▸ hkv
  case isFalse => exact h j w hj

theorem Holds.remove (h : Holds P m) (k : K) : Holds P (m.remove k) := by
  refine h.of_sub fun j v hj => ?_
  rw [get_remove] at hj
  split at hj
  case isTrue => cases hj
  case isFalse => exact hj

theorem Holds.retain (h : Holds P m) (p : K → V → Bool) : Holds P (m.retain p) := by
  refine h.of_sub fun j v hj => ?_
  rw [get_retain] at hj
  exact (Option.filter_eq_some_iff.mp hj).1

end Holds
end FiniteMap
end Ait
