import Mathlib

/-!
# Pages of a sorted list

A list is sorted by a key, newest first, and handed out page by page. Every page may come
from another sorting of the list, since nothing decides the order of equal keys. The pages
are the list again, whatever the sortings, when no page ends between two entries of one
key that differ.
-/

namespace Ait
namespace Paging

variable {α β κ : Type} [LinearOrder κ] {key : α → κ} {f : α → β}

/-- `s` is `l` with the largest keys first. -/
structure Sorted (key : α → κ) (l s : List α) : Prop where
  perm : s.Perm l
  pairwise : s.Pairwise fun x y => key y ≤ key x

/-- The `k`-th page, counted from zero. -/
def page (size k : ℕ) (s : List α) : List α := (s.drop (k*size)).take size

/-- What a reader of all pages gets when page `k` is cut from `s k`. -/
def pages (size n : ℕ) (s : ℕ → List α) : List α := (List.range n).flatMap fun k => page size k (s k)

/-- How many entries come before those of key `t` in any case. -/
def above (key : α → κ) (l : List α) (t : κ) : ℕ := l.countP fun x => t < key x

/-- Position `b` falls between two entries of key `t`. -/
def Splits (key : α → κ) (l : List α) (t : κ) (b : ℕ) : Prop :=
  above key l t < b ∧ b < above key l t+l.countP fun x => key x = t

/-- The entries of key `t` look alike. -/
def Alike (key : α → κ) (f : α → β) (l : List α) (t : κ) : Prop :=
  ∀ x ∈ l, ∀ y ∈ l, key x = t → key y = t → f x = f y

@[simp] theorem page_add (size k n : ℕ) (s : List α) :
    page size (k+n) s = page size n (s.drop (k*size)) := by
  rw [page,page,List.drop_drop,add_mul]

theorem take_succ_page (size k : ℕ) (s : List α) :
    s.take ((k+1)*size) = s.take (k*size) ++ page size k s := by
  rw [add_mul,one_mul,List.take_add,page]

@[simp] theorem pages_same (size n : ℕ) (s : List α) :
    pages size n (fun _ => s) = s.take (n*size) := by
  induction n with
  | zero => simp [pages]
  | succ n ih =>
    rw [take_succ_page,← ih,pages,pages,List.range_succ,List.flatMap_append]
    simp

section Boundary

variable {l s s' : List α} {t : κ} {b : ℕ}

theorem Sorted.length_eq (h : Sorted key l s) : s.length = l.length := h.perm.length_eq

theorem getElem_mem_drop (hb : b < s.length) : s[b] ∈ s.drop b := by
  rw [List.drop_eq_getElem_cons hb]
  exact List.mem_cons_self

/-- Behind a position there are no larger keys than at it, and before it no smaller ones. -/
theorem Sorted.around (h : Sorted key l s) (hb : b < s.length) :
    (∀ x ∈ s.take b, key s[b] ≤ key x) ∧ ∀ x ∈ s.drop b, key x ≤ key s[b] := by
  have hsplit := h.pairwise
  rw [← List.take_append_drop b s,List.pairwise_append] at hsplit
  obtain ⟨-,hafter,hcross⟩ := hsplit
  refine ⟨fun x hx => hcross x hx _ (getElem_mem_drop hb),fun x hx => ?_⟩
  rw [List.drop_eq_getElem_cons hb] at hx hafter
  obtain rfl | hx := List.mem_cons.mp hx
  · exact le_rfl
  · exact (List.pairwise_cons.mp hafter).1 x hx

theorem countP_split (s : List α) (b : ℕ) (p : α → Bool) :
    s.countP p = (s.take b).countP p+(s.drop b).countP p := by
  rw [← List.countP_append,List.take_append_drop]

/-- Up to a position stand the larger keys, and as many of the key at it as fit. -/
theorem Sorted.take_perm (h : Sorted key l s) (hb : b < s.length) :
    (s.take b).Perm
      (l.filter (key s[b] < key ·) ++ (s.take b).filter (key · = key s[b])) := by
  obtain ⟨hbefore,hbehind⟩ := h.around hb
  generalize key s[b] = t at hbefore hbehind ⊢
  have hlarger : (s.take b).filter (t < key ·) = s.filter (t < key ·) := by
    have hnone : (s.drop b).filter (t < key ·) = [] := by
      rw [List.filter_eq_nil_iff]
      intro x hx
      simpa using hbehind x hx
    conv_rhs => rw [← List.take_append_drop b s,List.filter_append,hnone,List.append_nil]
  have hequal : (s.take b).filter (fun x => !decide (t < key x)) =
      (s.take b).filter (key · = t) := by
    refine List.filter_congr fun x hx => ?_
    have hle := hbefore x hx
    rw [Bool.eq_iff_iff]
    simp only [Bool.not_eq_true',decide_eq_false_iff_not,decide_eq_true_eq,not_lt]
    exact ⟨fun hge => le_antisymm hge hle,fun heq => heq.le⟩
  have hparts := (List.filter_append_perm (t < key ·) (s.take b)).symm
  rw [hlarger,hequal] at hparts
  exact hparts.trans ((h.perm.filter _).append_right _)

/-- When the key at a position also stands before it, the position splits that key. -/
theorem Sorted.splits (h : Sorted key l s) (hb : b < s.length)
    (hne : (s.take b).filter (key · = key s[b]) ≠ []) : Splits key l (key s[b]) b := by
  have hlen := (h.take_perm hb).length_eq
  rw [List.length_append,List.length_take,min_eq_left hb.le,← List.countP_eq_length_filter,
    ← List.countP_eq_length_filter] at hlen
  have hpos : 0 < (s.take b).countP (key · = key s[b]) := by
    rw [List.countP_eq_length_filter]
    exact List.length_pos_of_ne_nil hne
  have hlevel : (s.take b).countP (key · = key s[b])+1 ≤ l.countP (key · = key s[b]) := by
    rw [← h.perm.countP_eq,countP_split s b,Nat.add_le_add_iff_left,Nat.one_le_iff_ne_zero,
      ← Nat.pos_iff_ne_zero,List.countP_pos_iff]
    exact ⟨s[b],getElem_mem_drop hb,by simp⟩
  rw [Splits,above]
  omega

theorem Sorted.key_getElem (h : Sorted key l s) (h' : Sorted key l s') (hb : b < s.length)
    (hb' : b < s'.length) : key s[b] = key s'[b] := by
  have hkeys : s.map key = s'.map key := by
    refine List.Perm.eq_of_pairwise (fun x y _ _ hx hy => le_antisymm hy hx)
      (List.pairwise_map.mpr h.pairwise) (List.pairwise_map.mpr h'.pairwise) ?_
    exact (h.perm.trans h'.perm.symm).map key
  have hat := congrArg (·[b]?) hkeys
  simpa [hb,hb'] using hat

/-- Entries of one key, seen up to a position, are copies of any of them. -/
theorem Alike.level (halike : Alike key f l t) (h : Sorted key l s) {z : α} (hz : z ∈ l)
    (hzt : key z = t) :
    ((s.take b).filter (key · = t)).map f =
      List.replicate ((s.take b).filter (key · = t)).length (f z) := by
  refine List.map_eq_replicate_iff.mpr fun x hx => ?_
  rw [List.mem_filter,decide_eq_true_eq] at hx
  exact halike x (h.perm.mem_iff.mp (List.mem_of_mem_take hx.1)) z hz hx.2 hzt

/-- Up to a position two sortings look alike, unless it splits a key whose entries do not. -/
theorem Sorted.take_alike (h : Sorted key l s) (h' : Sorted key l s')
    (halike : ∀ t, Splits key l t b → Alike key f l t) :
    ((s.take b).map f).Perm ((s'.take b).map f) := by
  by_cases hb : b < s.length
  · have hb' : b < s'.length := by rwa [h'.length_eq,← h.length_eq]
    have hkey := h.key_getElem h' hb hb'
    refine ((h.take_perm hb).map f).trans (.trans ?_ ((h'.take_perm hb').map f).symm)
    rw [List.map_append,List.map_append,hkey]
    refine .append_left _ (.of_eq ?_)
    have hlen := (h.take_perm hb).length_eq.symm.trans
      ((s.length_take_of_le hb.le).trans (s'.length_take_of_le hb'.le).symm) |>.trans
      (h'.take_perm hb').length_eq
    rw [List.length_append,List.length_append,hkey,Nat.add_left_cancel_iff] at hlen
    by_cases hnil : (s'.take b).filter (key · = key s'[b]) = []
    · rw [hnil,List.length_nil,List.length_eq_zero_iff] at hlen
      rw [hlen,hnil]
    · have hall := halike _ (h'.splits hb' hnil)
      obtain ⟨z,hz⟩ := List.exists_mem_of_ne_nil _ hnil
      rw [List.mem_filter,decide_eq_true_eq] at hz
      have hzl : z ∈ l := h'.perm.mem_iff.mp (List.mem_of_mem_take hz.1)
      rw [hall.level h hzl hz.2,hall.level h' hzl hz.2,hlen]
  · rw [List.take_of_length_le (not_lt.mp hb),List.take_of_length_le (by
      rw [h'.length_eq,← h.length_eq]
      exact not_lt.mp hb)]
    exact (h.perm.trans h'.perm.symm).map f

/-- A page of two sortings looks alike when no end of the page splits a key. -/
theorem Sorted.page_alike (h : Sorted key l s) (h' : Sorted key l s') {size : ℕ}
    (halike : ∀ t k, Splits key l t (k*size) → Alike key f l t) (k : ℕ) :
    ((page size k s).map f).Perm ((page size k s').map f) := by
  have hbefore := h.take_alike (f := f) h' fun t => halike t k
  have hupto := h.take_alike (f := f) h' fun t => halike t (k+1)
  rw [take_succ_page,take_succ_page,List.map_append,List.map_append] at hupto
  exact (List.perm_append_left_iff _).mp ((hbefore.symm.append_right _).trans hupto)

end Boundary

section Pages

variable {l : List α} {size n : ℕ}

theorem pages_perm {s : ℕ → List α} (hs : ∀ k, Sorted key l (s k))
    (halike : ∀ t k, Splits key l t (k*size) → Alike key f l t) (hn : l.length ≤ n*size) :
    ((pages size n s).map f).Perm (l.map f) := by
  have hfirst : ∀ m, ((pages size m s).map f).Perm (((s 0).take (m*size)).map f) := by
    intro m
    induction m with
    | zero => simp [pages]
    | succ m ih =>
      have hsucc : pages size (m+1) s = pages size m s ++ page size m (s m) := by
        rw [pages,pages,List.range_succ,List.flatMap_append]
        simp
      rw [hsucc,take_succ_page,List.map_append,List.map_append]
      exact ih.append ((hs m).page_alike (hs 0) halike m)
  have hall := hfirst n
  rw [List.take_of_length_le ((hs 0).length_eq.trans_le hn)] at hall
  exact hall.trans ((hs 0).perm.map f)

theorem pages_mixed {u u' : List α} {k : ℕ} (hk : k ≤ n) (hn : u'.length ≤ n*size) :
    pages size n (fun i => if i < k then u else u') = u.take (k*size) ++ u'.drop (k*size) := by
  obtain ⟨m,rfl⟩ := Nat.exists_eq_add_of_le hk
  rw [pages,List.range_add,List.flatMap_append,List.flatMap_map]
  have hfirst : ((List.range k).flatMap fun i => page size i (if i < k then u else u')) =
      pages size k fun _ => u := by
    rw [pages]
    refine List.flatMap_congr fun i hi => ?_
    rw [if_pos (List.mem_range.mp hi)]
  have hlater : ((List.range m).flatMap fun i => page size (k+i) (if k+i < k then u else u')) =
      pages size m fun _ => u'.drop (k*size) := by
    rw [pages]
    refine List.flatMap_congr fun i _ => ?_
    rw [if_neg (by omega),page_add]
  have hlen : (u'.drop (k*size)).length ≤ m*size := by
    rw [List.length_drop]
    rw [add_mul] at hn
    omega
  rw [hfirst,hlater,pages_same,pages_same,List.take_of_length_le hlen]

theorem three_parts (key : α → κ) (l : List α) (t : κ) :
    (l.filter (t < key ·) ++ (l.filter (key · = t) ++ l.filter (key · < t))).Perm l := by
  have hrest : (l.filter (fun x => !decide (t < key x))).filter (key · = t) =
      l.filter (key · = t) := by
    rw [List.filter_filter]
    refine List.filter_congr fun x _ => ?_
    rw [Bool.eq_iff_iff]
    simp only [Bool.and_eq_true,Bool.not_eq_true',decide_eq_false_iff_not,decide_eq_true_eq,not_lt]
    exact ⟨fun h => h.1,fun h => ⟨h,h.le⟩⟩
  have hsmaller : (l.filter (fun x => !decide (t < key x))).filter (fun x => !decide (key x = t)) =
      l.filter (key · < t) := by
    rw [List.filter_filter]
    refine List.filter_congr fun x _ => ?_
    rw [Bool.eq_iff_iff]
    simp only [Bool.and_eq_true,Bool.not_eq_true',decide_eq_false_iff_not,decide_eq_true_eq,not_lt]
    exact ⟨fun h => lt_of_le_of_ne h.2 h.1,fun h => ⟨h.ne,h.le⟩⟩
  have hequal := List.filter_append_perm (key · = t) (l.filter fun x => !decide (t < key x))
  rw [hrest,hsmaller] at hequal
  exact (hequal.append_left _).trans (List.filter_append_perm (t < key ·) l)

/-- The entries of one key may stand in any order between the larger and the smaller keys. -/
theorem exists_sorted_around (key : α → κ) (l : List α) (t : κ) :
    ∃ larger smaller : List α, larger.length = above key l t ∧
      ∀ middle, middle.Perm (l.filter (key · = t)) → Sorted key l (larger ++ (middle ++ smaller)) := by
  let newest : α → α → Prop := fun x y => key y ≤ key x
  have : Std.Total newest := ⟨fun x y => le_total (key y) (key x)⟩
  have : IsTrans α newest := ⟨fun x y z hxy hyz => le_trans hyz hxy⟩
  refine ⟨(l.filter (t < key ·)).insertionSort newest,(l.filter (key · < t)).insertionSort newest,
    ?_,fun middle hmiddle => ⟨?_,?_⟩⟩
  · rw [List.length_insertionSort,above,List.countP_eq_length_filter]
  · exact ((List.perm_insertionSort newest _).append (hmiddle.append
      (List.perm_insertionSort newest _))).trans (three_parts key l t)
  · have hlarger : ∀ x ∈ (l.filter (t < key ·)).insertionSort newest, t < key x := by
      intro x hx
      rw [List.mem_insertionSort,List.mem_filter,decide_eq_true_eq] at hx
      exact hx.2
    have hequal : ∀ x ∈ middle, key x = t := by
      intro x hx
      have hx := hmiddle.mem_iff.mp hx
      rw [List.mem_filter,decide_eq_true_eq] at hx
      exact hx.2
    have hsmaller : ∀ x ∈ (l.filter (key · < t)).insertionSort newest, key x < t := by
      intro x hx
      rw [List.mem_insertionSort,List.mem_filter,decide_eq_true_eq] at hx
      exact hx.2
    refine List.pairwise_append.mpr ⟨List.pairwise_insertionSort newest _,
      List.pairwise_append.mpr ⟨?_,List.pairwise_insertionSort newest _,?_⟩,?_⟩
    · refine List.pairwise_of_forall_mem_list fun x hx y hy => ?_
      exact (hequal y hy).trans_le (hequal x hx).ge
    · exact fun x hx y hy => (hsmaller y hy).le.trans (hequal x hx).ge
    · intro x hx y hy
      obtain hy | hy := List.mem_append.mp hy
      · exact (hequal y hy).trans_le (hlarger x hx).le
      · exact ((hsmaller y hy).trans (hlarger x hx)).le

/-- Two entries of a key that a position splits can stand around it in either order. -/
theorem exists_swapped {t : κ} {b : ℕ} (hsplit : Splits key l t b) {x y : α} (hx : x ∈ l)
    (hy : y ∈ l) (hxt : key x = t) (hyt : key y = t) (hne : y ≠ x) :
    ∃ front back : List α, front.length+1 = b ∧ Sorted key l (front ++ x::y::back) ∧
      Sorted key l (front ++ y::x::back) := by
  classical
  obtain ⟨larger,smaller,hlarger,hsorted⟩ := exists_sorted_around key l t
  -- the group with the two entries in front
  have hxg : x ∈ l.filter (key · = t) := List.mem_filter.mpr ⟨hx,by simpa using hxt⟩
  have hyg : y ∈ (l.filter (key · = t)).erase x :=
    (List.mem_erase_of_ne hne).mpr (List.mem_filter.mpr ⟨hy,by simpa using hyt⟩)
  obtain ⟨rest,hrest⟩ : ∃ rest, (x::y::rest).Perm (l.filter (key · = t)) :=
    ⟨_,((List.perm_cons_erase hyg).symm.cons x).trans (List.perm_cons_erase hxg).symm⟩
  have hlevel := hrest.length_eq
  rw [← List.countP_eq_length_filter,List.length_cons,List.length_cons] at hlevel
  -- as many of the others before them as the position asks for
  obtain ⟨hlow,hhigh⟩ := hsplit
  obtain ⟨j,hj⟩ : ∃ j, larger.length+j+1 = b := ⟨b-above key l t-1,by omega⟩
  have hjrest : (rest.take j).length = j := List.length_take_of_le (by omega)
  have hsort : ∀ a c, (a::c::rest).Perm (l.filter (key · = t)) →
      Sorted key l ((larger ++ rest.take j) ++ a::c::(rest.drop j ++ smaller)) := by
    intro a c hac
    have hperm : (rest.take j ++ a::c::rest.drop j).Perm (l.filter (key · = t)) := by
      refine (List.perm_middle.trans ((List.perm_middle.trans ?_).cons a)).trans hac
      rw [List.take_append_drop]
    have h := hsorted _ hperm
    simpa using h
  refine ⟨larger ++ rest.take j,rest.drop j ++ smaller,?_,hsort x y hrest,
    hsort y x ((List.Perm.swap x y rest).trans hrest)⟩
  rw [List.length_append,hjrest]
  exact hj

/-- Where a page ends between two entries of one key, two sortings can give one of them on both
sides of the end. -/
theorem alike_of_pages_perm
    (hall : ∀ s, (∀ k, Sorted key l (s k)) → ((pages size n s).map f).Perm (l.map f))
    (hn : l.length ≤ n*size) {t : κ} {k : ℕ} (hsplit : Splits key l t (k*size)) :
    Alike key f l t := by
  intro x hx y hy hxt hyt
  by_contra hne
  obtain ⟨front,back,hfront,hu,hu'⟩ :=
    exists_swapped hsplit hx hy hxt hyt fun heq => hne (congrArg f heq.symm)
  have hk : k ≤ n := by
    have hlen := hu.length_eq
    rw [List.length_append,List.length_cons,List.length_cons] at hlen
    exact (Nat.lt_of_mul_lt_mul_right (by omega : k*size < n*size)).le
  have hpages := hall (fun i => if i < k then front ++ x::y::back else front ++ y::x::back)
    fun i => by
    by_cases hi : i < k
    · rw [if_pos hi]
      exact hu
    · rw [if_neg hi]
      exact hu'
  -- the first entry ends the earlier pages and begins the later ones
  have htake : (front ++ x::y::back).take (k*size) = front ++ [x] := by
    rw [← hfront,List.take_length_add_append]
    rfl
  have hdrop : (front ++ y::x::back).drop (k*size) = x::back := by
    rw [← hfront,List.drop_length_add_append]
    rfl
  rw [pages_mixed hk (hu'.length_eq.trans_le hn),htake,hdrop] at hpages
  have hcancel := hpages.trans (hu.perm.map f).symm
  simp only [List.append_assoc,List.map_append,List.map_cons,List.cons_append,List.nil_append,
    List.perm_append_left_iff,List.perm_cons] at hcancel
  rw [← Multiset.coe_eq_coe,← Multiset.cons_coe,← Multiset.cons_coe,Multiset.cons_inj_left]
    at hcancel
  exact hne hcancel

/-- All pages together look like the list, whatever the sortings, when no page ends between two
entries of one key that look different. -/
theorem pages_perm_iff (hn : l.length ≤ n*size) :
    (∀ s, (∀ k, Sorted key l (s k)) → ((pages size n s).map f).Perm (l.map f)) ↔
      ∀ t k, Splits key l t (k*size) → Alike key f l t :=
  ⟨fun hall _ _ hsplit => alike_of_pages_perm hall hn hsplit,
    fun halike _ hs => pages_perm hs halike hn⟩

end Pages

end Paging
end Ait
