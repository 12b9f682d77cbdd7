import Ait.ByteSearch

/-!
# Searching for several patterns at once

A search that reports what ends first, and goes on behind it, cuts the text into pieces,
each up to the first place where a pattern ends. Of all that occurs in the text it
sees what stands at the end of a piece.
-/

namespace Ait
namespace Search

variable {α : Type} [DecidableEq α]

def firstEnd (pats : List (List α)) (text : List α) : Option ℕ :=
  (List.range (text.length+1)).find? fun n => pats.any fun pat => pat.isSuffixOf (text.take n)

/-- The pieces up to each boundary, at most as many as there is fuel. -/
def cut (boundary : List α → Option ℕ) : ℕ → List α → List (List α)
  | 0,_ => []
  | fuel+1,bs =>
    match boundary bs with
    | none => []
    | some n => bs.take n::cut boundary fuel (bs.drop n)

def pieces (pats : List (List α)) (text : List α) : List (List α) :=
  cut (firstEnd pats) text.length text

def EndsIn (pats : List (List α)) (piece : List α) (idx : ℕ) : Prop :=
  ∃ pat, pats[idx]? = some pat ∧ pat <:+ piece

/-- For each piece one of the patterns it ends in. -/
def Reports (pats : List (List α)) (text : List α) (found : List ℕ) : Prop :=
  List.Forall₂ (EndsIn pats) (pieces pats text) found

section Pieces

variable {boundary : List α → Option ℕ} {pats : List (List α)} {text piece : List α} {n idx : ℕ}
  {found : List ℕ}

@[simp] theorem firstEnd_eq_some : firstEnd pats text = some n ↔
    IsLeast {n | n ≤ text.length ∧ ∃ pat ∈ pats, pat <:+ text.take n} n := by
  simp only [firstEnd,List.find?_range_eq_some,List.any_eq_true,List.isSuffixOf_iff_suffix,
    List.mem_range,Bool.not_eq_true',List.any_eq_false,IsLeast,lowerBounds,Set.mem_ofPred_eq]
  constructor
  · rintro ⟨hends,hn,hfirst⟩
    refine ⟨⟨by omega,hends⟩,fun m ⟨hm,pat,hpat,hsuffix⟩ => ?_⟩
    by_contra hlt
    exact hfirst m (by omega) pat hpat hsuffix
  · rintro ⟨⟨hn,hends⟩,hleast⟩
    refine ⟨hends,by omega,fun m hm pat hpat hsuffix => ?_⟩
    have hle := hleast ⟨by omega,pat,hpat,hsuffix⟩
    omega

@[simp] theorem firstEnd_eq_none : firstEnd pats text = none ↔ ∀ pat ∈ pats, ¬pat <:+: text := by
  simp only [firstEnd,List.find?_range_eq_none,Bool.not_eq_true',List.any_eq_false,
    List.isSuffixOf_iff_suffix]
  constructor
  · rintro hnone pat hpat ⟨l,r,rfl⟩
    refine hnone (l ++ pat).length (by simp) pat hpat ?_
    rw [List.take_left]
    exact List.suffix_append l pat
  · intro hnone n _ pat hpat hsuffix
    exact hnone pat hpat (hsuffix.isInfix.trans (List.take_prefix n text).isInfix)

theorem firstEnd_pos (hpats : [] ∉ pats) (h : firstEnd pats text = some n) :
    0 < n ∧ n ≤ text.length := by
  obtain ⟨⟨hle,pat,hpat,hsuffix⟩,-⟩ := firstEnd_eq_some.mp h
  refine ⟨Nat.pos_of_ne_zero ?_,hle⟩
  rintro rfl
  rw [List.take_zero,List.suffix_nil] at hsuffix
  exact hpats (hsuffix ▸ hpat)

omit [DecidableEq α] in
/-- Boundaries that take something off need no more fuel than the text is long. -/
theorem cut_segmented (hpos : ∀ bs n, boundary bs = some n → 0 < n ∧ n ≤ bs.length) (fuel : ℕ)
    (bs : List α) (hfuel : bs.length ≤ fuel) :
    ∃ t, Segmented boundary bs (cut boundary fuel bs) t := by
  induction fuel generalizing bs with
  | zero =>
    refine ⟨bs,.tail bs ?_⟩
    by_contra hsome
    obtain ⟨n,hn⟩ := Option.ne_none_iff_exists'.mp hsome
    have hlen := hpos bs n hn
    omega
  | succ fuel ih =>
    rw [cut]
    cases hb : boundary bs with
    | none => exact ⟨bs,.tail bs hb⟩
    | some n =>
      obtain ⟨hn,hle⟩ := hpos bs n hb
      obtain ⟨t,ht⟩ := ih (bs.drop n) (by rw [List.length_drop]; omega)
      exact ⟨t,.piece bs n hb _ t ht⟩

theorem pieces_segmented (hpats : [] ∉ pats) (text : List α) :
    ∃ t, Segmented (firstEnd pats) text (pieces pats text) t :=
  cut_segmented (fun _ _ h => firstEnd_pos hpats h) text.length text le_rfl

omit [DecidableEq α] in
theorem mem_cut {fuel : ℕ} {bs : List α} (h : piece ∈ cut boundary fuel bs) :
    ∃ k n, boundary (bs.drop k) = some n ∧ piece = (bs.drop k).take n := by
  induction fuel generalizing bs with
  | zero => cases h
  | succ fuel ih =>
    rw [cut] at h
    cases hb : boundary bs with
    | none =>
      rw [hb] at h
      cases h
    | some n =>
      rw [hb] at h
      rcases List.mem_cons.mp h with rfl | hrest
      · exact ⟨0,n,hb,rfl⟩
      · obtain ⟨k,m,hm,rfl⟩ := ih hrest
        rw [List.drop_drop] at hm
        exact ⟨n+k,m,hm,by rw [List.drop_drop]⟩

theorem isInfix_of_mem_pieces (h : piece ∈ pieces pats text) : piece <:+: text := by
  obtain ⟨k,n,-,rfl⟩ := mem_cut h
  exact (List.take_prefix _ _).isInfix.trans (List.drop_suffix _ _).isInfix

theorem exists_endsIn (h : piece ∈ pieces pats text) : ∃ idx, EndsIn pats piece idx := by
  obtain ⟨k,n,hn,rfl⟩ := mem_cut h
  obtain ⟨⟨-,pat,hpat,hsuffix⟩,-⟩ := firstEnd_eq_some.mp hn
  obtain ⟨idx,hidx⟩ := List.mem_iff_getElem?.mp hpat
  exact ⟨idx,pat,hidx,hsuffix⟩

theorem Reports.endsIn (h : Reports pats text found) {k : ℕ} (hk : found[k]? = some idx) :
    ∃ piece, (pieces pats text)[k]? = some piece ∧ EndsIn pats piece idx := by
  obtain ⟨hlt,rfl⟩ := List.getElem?_eq_some_iff.mp hk
  have hlen : k < (pieces pats text).length := h.length_eq ▸ hlt
  exact ⟨_,List.getElem?_eq_getElem hlen,h.get hlen hlt⟩

theorem Reports.reported (h : Reports pats text found) {k : ℕ}
    (hk : (pieces pats text)[k]? = some piece) :
    ∃ idx, found[k]? = some idx ∧ EndsIn pats piece idx := by
  obtain ⟨hlt,rfl⟩ := List.getElem?_eq_some_iff.mp hk
  have hlen : k < found.length := h.length_eq ▸ hlt
  exact ⟨_,List.getElem?_eq_getElem hlen,h.get hlt hlen⟩

theorem Reports.isInfix (h : Reports pats text found) (hidx : idx ∈ found) :
    ∃ pat, pats[idx]? = some pat ∧ pat <:+: text := by
  obtain ⟨k,hk⟩ := List.mem_iff_getElem?.mp hidx
  obtain ⟨piece,hpiece,pat,hpat,hsuffix⟩ := h.endsIn hk
  exact ⟨pat,hpat,hsuffix.isInfix.trans (isInfix_of_mem_pieces (List.mem_of_getElem? hpiece))⟩

theorem Reports.ne_nil_iff (h : Reports pats text found) (hpats : [] ∉ pats) :
    found ≠ [] ↔ ∃ pat ∈ pats, pat <:+: text := by
  constructor
  · intro hne
    obtain ⟨pat,hpat,hoccurs⟩ := h.isInfix (List.head_mem hne)
    exact ⟨pat,List.mem_of_getElem? hpat,hoccurs⟩
  · rintro ⟨pat,hpat,hoccurs⟩ rfl
    have hnil : pieces pats text = [] := List.forall₂_nil_right_iff.mp h
    obtain ⟨t,ht⟩ := pieces_segmented hpats text
    rw [hnil] at ht
    cases ht with
    | tail _ hnone => exact firstEnd_eq_none.mp hnone pat hpat hoccurs

end Pieces

/-- A search that reports the first of the patterns a piece ends in. -/
def findFirst (pats : List (List α)) (text : List α) : List ℕ :=
  (pieces pats text).map fun piece => pats.findIdx fun pat => pat.isSuffixOf piece

theorem findFirst_reports (pats : List (List α)) (text : List α) :
    Reports pats text (findFirst pats text) := by
  rw [Reports,findFirst,List.forall₂_map_right_iff,List.forall₂_same]
  intro piece hpiece
  obtain ⟨idx,pat,hpat,hsuffix⟩ := exists_endsIn hpiece
  have hlt : pats.findIdx (fun pat => pat.isSuffixOf piece) < pats.length :=
    List.findIdx_lt_length_of_exists
      ⟨pat,List.mem_of_getElem? hpat,List.isSuffixOf_iff_suffix.mpr hsuffix⟩
  exact ⟨_,List.getElem?_eq_getElem hlt,List.isSuffixOf_iff_suffix.mp (List.findIdx_getElem (w := hlt))⟩

end Search
end Ait
