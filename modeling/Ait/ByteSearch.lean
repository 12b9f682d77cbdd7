import Mathlib

/-!
# Searching a growing buffer

The first occurrence of a pattern, how it survives appending, and why a search may
skip what an earlier search has seen. `Segmented` cuts a text greedily at the
boundaries a function reports.
-/

namespace Ait
namespace Search

variable {α : Type} [DecidableEq α]

/-- `windows(pat.len()).position(|w| w == pat)`. -/
def find (pat : List α) : List α → Option ℕ
  | [] => none
  | b::bs => if pat.isPrefixOf (b::bs) then some 0 else (find pat bs).map (· + 1)

/-- `rposition(|b| b == x)`. -/
def findLast (x : α) : List α → Option ℕ
  | [] => none
  | b::bs =>
    match findLast x bs with
    | some i => some (i+1)
    | none => if b = x then some 0 else none

/-- The pattern stands at position `i`. -/
def At (pat bs : List α) (i : ℕ) : Prop := pat <+: bs.drop i

section Occurrences

variable {pat bs more : List α} {i k : ℕ}

omit [DecidableEq α]

theorem At.le (h : At pat bs i) (hpat : pat ≠ []) : i+pat.length ≤ bs.length := by
  have hlen := h.length_le
  have hpos := List.length_pos_iff.mpr hpat
  rw [List.length_drop] at hlen
  omega

theorem at_append (h : i+pat.length ≤ bs.length) : At pat (bs ++ more) i ↔ At pat bs i := by
  have hdrop : (bs ++ more).drop i = bs.drop i ++ more := by
    rw [List.drop_append_of_le_length (by omega)]
  unfold At
  rw [hdrop]
  constructor
  · intro hp
    exact List.prefix_of_prefix_length_le hp (List.prefix_append _ _) (by simp; omega)
  · intro hp
    exact hp.trans (List.prefix_append _ _)

theorem At.append (h : At pat bs i) (hpat : pat ≠ []) (more : List α) : At pat (bs ++ more) i :=
  (at_append (h.le hpat)).mpr h

theorem isInfix_iff_at : pat <:+: bs ↔ ∃ i, At pat bs i := by
  constructor
  · rintro ⟨l,r,rfl⟩
    exact ⟨l.length,r,by simp⟩
  · rintro ⟨i,hi⟩
    exact hi.isInfix.trans (bs.drop_suffix i).isInfix

theorem At.getElem? (h : At pat bs i) {k : ℕ} (hk : k < pat.length) : bs[i+k]? = pat[k]? := by
  obtain ⟨r,hr⟩ := h
  rw [← List.getElem?_drop,← hr,List.getElem?_append_left hk]

theorem at_take (hpat : pat ≠ []) : At pat (bs.take k) i ↔ At pat bs i ∧ i+pat.length ≤ k := by
  constructor
  · intro h
    have hle := h.le hpat
    have hlen := List.length_take_le k bs
    refine ⟨?_,by omega⟩
    have happ := h.append hpat (bs.drop k)
    rwa [List.take_append_drop] at happ
  · rintro ⟨h,hk⟩
    have hle := h.le hpat
    have hfits : i+pat.length ≤ (bs.take k).length := by
      rw [List.length_take]
      omega
    have hwhole : At pat (bs.take k ++ bs.drop k) i := by rwa [List.take_append_drop]
    exact (at_append hfits).mp hwhole

@[simp] theorem at_drop : At pat (bs.drop k) i ↔ At pat bs (k+i) := by
  unfold At
  rw [List.drop_drop]

end Occurrences

section Find

variable {pat bs more : List α} {i k : ℕ}

@[simp] theorem find_eq_none (hpat : pat ≠ []) : find pat bs = none ↔ ∀ i, ¬At pat bs i := by
  induction bs with
  | nil => simp [find,At,hpat]
  | cons b bs ih =>
    rw [find]
    by_cases h : pat <+: b::bs
    · have h0 : At pat (b::bs) 0 := h
      simp only [List.isPrefixOf_iff_prefix,h,if_true]
      exact ⟨nofun,fun hall => absurd h0 (hall 0)⟩
    · simp only [List.isPrefixOf_iff_prefix,h,if_false,Option.map_eq_none_iff,ih]
      constructor
      · rintro hall (_ | i) hi
        · exact h hi
        · exact hall i hi
      · exact fun hall i hi => hall (i+1) hi

@[simp] theorem find_eq_some (hpat : pat ≠ []) :
    find pat bs = some i ↔ At pat bs i ∧ ∀ j < i, ¬At pat bs j := by
  induction bs generalizing i with
  | nil => simp [find,At,hpat]
  | cons b bs ih =>
    rw [find]
    by_cases h : pat <+: b::bs
    · have h0 : At pat (b::bs) 0 := h
      simp only [List.isPrefixOf_iff_prefix,h,if_true,Option.some.injEq]
      constructor
      · rintro rfl
        exact ⟨h0,nofun⟩
      · rintro ⟨-,hfirst⟩
        by_contra hi
        exact hfirst 0 (by omega) h0
    · simp only [List.isPrefixOf_iff_prefix,h,if_false,Option.map_eq_some_iff,ih]
      constructor
      · rintro ⟨i,⟨hi,hfirst⟩,rfl⟩
        refine ⟨hi,?_⟩
        rintro (_ | j) hj hat
        · exact h hat
        · exact hfirst j (by omega) hat
      · rintro ⟨hi,hfirst⟩
        cases i with
        | zero => exact absurd hi h
        | succ i => exact ⟨i,⟨hi,fun j hj hat => hfirst (j+1) (by omega) hat⟩,rfl⟩

theorem find_append (hpat : pat ≠ []) (h : find pat bs = some i) (more : List α) :
    find pat (bs ++ more) = some i := by
  obtain ⟨hat,hfirst⟩ := (find_eq_some hpat).mp h
  refine (find_eq_some hpat).mpr ⟨hat.append hpat more,?_⟩
  intro j hj hat'
  have hle := hat.le hpat
  exact hfirst j hj ((at_append (by omega)).mp hat')

/-- The search may start behind positions where the pattern does not stand. -/
@[simp] theorem find_drop (hpat : pat ≠ []) (h : ∀ j < k, ¬At pat bs j) :
    (find pat (bs.drop k)).map (k + ·) = find pat bs := by
  cases hfind : find pat (bs.drop k) with
  | none =>
    refine ((find_eq_none hpat).mpr ?_).symm
    intro i hi
    by_cases hik : i < k
    · exact h i hik hi
    · have hat := (find_eq_none hpat).mp hfind (i-k)
      rw [at_drop,Nat.add_sub_cancel' (Nat.le_of_not_lt hik)] at hat
      exact hat hi
  | some i =>
    obtain ⟨hat,hfirst⟩ := (find_eq_some hpat).mp hfind
    refine ((find_eq_some hpat).mpr ⟨at_drop.mp hat,?_⟩).symm
    intro j hj hatj
    by_cases hjk : j < k
    · exact h j hjk hatj
    · refine hfirst (j-k) (by omega) ?_
      rw [at_drop,Nat.add_sub_cancel' (Nat.le_of_not_lt hjk)]
      exact hatj

theorem findLast_lt {x : α} (h : findLast x bs = some i) : i < bs.length := by
  induction bs generalizing i with
  | nil => cases h
  | cons b bs ih =>
    unfold findLast at h
    split at h
    · rename_i j hj
      obtain rfl := Option.some.inj h
      exact Nat.succ_lt_succ (ih hj)
    · split at h
      · obtain rfl := Option.some.inj h
        exact Nat.zero_lt_succ _
      · cases h

theorem findLast_eq_none {x : α} (h : findLast x bs = none) : x ∉ bs := by
  induction bs with
  | nil => exact List.not_mem_nil
  | cons b bs ih =>
    unfold findLast at h
    split at h
    · cases h
    · rename_i hnone
      split at h
      · cases h
      · rename_i hne
        simp only [List.mem_cons,not_or]
        exact ⟨fun heq => hne heq.symm,ih hnone⟩

theorem take_findLast {x : α} (h : findLast x bs = some i) :
    ∃ l, bs.take (i+1) = l ++ [x] := by
  induction bs generalizing i with
  | nil => cases h
  | cons b bs ih =>
    unfold findLast at h
    split at h
    · rename_i j hj
      obtain rfl := Option.some.inj h
      obtain ⟨l,hl⟩ := ih hj
      exact ⟨b::l,by simp [hl]⟩
    · split at h
      · rename_i hb
        obtain rfl := Option.some.inj h
        exact ⟨[],by simp [hb]⟩
      · cases h

end Find

section Segments

omit [DecidableEq α]

/-- The pieces up to each boundary, and what stands after the last one. -/
inductive Segmented (boundary : List α → Option ℕ) : List α → List (List α) → List α → Prop
  | tail (bs : List α) (h : boundary bs = none) : Segmented boundary bs [] bs
  | piece (bs : List α) (n : ℕ) (h : boundary bs = some n) (ps : List (List α)) (t : List α)
      (hrest : Segmented boundary (bs.drop n) ps t) : Segmented boundary bs (bs.take n::ps) t

variable {boundary : List α → Option ℕ} {bs t : List α} {ps : List (List α)}

theorem Segmented.flatten (h : Segmented boundary bs ps t) : ps.flatten ++ t = bs := by
  induction h with
  | tail bs hnone => rfl
  | piece bs n hsome ps t hrest ih => simp [ih]

theorem exists_segmented
    (hpos : ∀ bs n, boundary bs = some n → 0 < n ∧ n ≤ bs.length) (bs : List α) :
    ∃ ps t, Segmented boundary bs ps t := by
  induction hlen : bs.length using Nat.strong_induction_on generalizing bs with
  | h len ih =>
    cases hb : boundary bs with
    | none => exact ⟨[],bs,.tail bs hb⟩
    | some n =>
      obtain ⟨hn,hle⟩ := hpos _ _ hb
      obtain ⟨ps,t,h⟩ := ih (bs.drop n).length (by rw [List.length_drop]; omega) _ rfl
      exact ⟨_,t,.piece _ n hb ps t h⟩

end Segments
end Search
end Ait
