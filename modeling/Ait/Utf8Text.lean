import Ait.Transform

/-!
# Cutting text behind a newline

A newline is never inside a character, so that what stands before and behind one in a
valid text is valid.
-/

namespace Ait

section Bytes

variable {x y z w : UInt8} {t : Bytes}

theorem newline_ne_of_le {low : UInt8} (h : low ≤ y) (hlow : newline < low) : newline ≠ y := by
  rintro rfl
  exact UInt8.not_le.mpr hlow h

theorem newline_ne_of_tail (h : isTail y = true) : newline ≠ y := by
  unfold isTail at h
  simp only [Bool.and_eq_true,decide_eq_true_eq] at h
  exact newline_ne_of_le h.1 (by decide)

theorem newline_ne_of_range {low high : UInt8} (hlow : newline < low)
    (h : (decide (low ≤ y) && decide (y ≤ high)) = true) : newline ≠ y := by
  simp only [Bool.and_eq_true,decide_eq_true_eq] at h
  exact newline_ne_of_le h.1 hlow

/-- What follows `x` goes on with the rest of a character, in which there is no newline and whose
validity does not depend on what follows. -/
def StartsWithChar (x : UInt8) (t : Bytes) : Prop :=
  ∃ c r, t = c ++ r ∧ newline ∉ c ∧ ∀ r', validUtf8 (x::(c ++ r')) = validUtf8 r'

theorem startsWithChar_two (heq : ∀ r, validUtf8 (x::y::r) = (isTail y && validUtf8 r))
    (h : validUtf8 (x::y::t) = true) : StartsWithChar x (y::t) := by
  rw [heq,Bool.and_eq_true] at h
  refine ⟨[y],t,rfl,?_,fun r' => ?_⟩
  · simpa using newline_ne_of_tail h.1
  · simp [heq,h.1]

theorem startsWithChar_three {guard : Bool} (hy : guard = true → newline ≠ y)
    (heq : ∀ r, validUtf8 (x::y::z::r) = (guard && isTail z && validUtf8 r))
    (h : validUtf8 (x::y::z::t) = true) : StartsWithChar x (y::z::t) := by
  rw [heq,Bool.and_eq_true,Bool.and_eq_true] at h
  refine ⟨[y,z],t,rfl,?_,fun r' => ?_⟩
  · simpa using ⟨hy h.1.1,newline_ne_of_tail h.1.2⟩
  · simp [heq,h.1]

theorem startsWithChar_four {guard : Bool} (hy : guard = true → newline ≠ y)
    (heq : ∀ r, validUtf8 (x::y::z::w::r) = (guard && isTail z && isTail w && validUtf8 r))
    (h : validUtf8 (x::y::z::w::t) = true) : StartsWithChar x (y::z::w::t) := by
  rw [heq,Bool.and_eq_true,Bool.and_eq_true,Bool.and_eq_true] at h
  refine ⟨[y,z,w],t,rfl,?_,fun r' => ?_⟩
  · simpa using ⟨hy h.1.1.1,newline_ne_of_tail h.1.1.2,newline_ne_of_tail h.1.2⟩
  · simp [heq,h.1]

theorem validUtf8_char (h : validUtf8 (x::t) = true) : StartsWithChar x t := by
  by_cases hx : x < 0x80
  · refine ⟨[],t,rfl,List.not_mem_nil,fun r' => ?_⟩
    rw [List.nil_append,validUtf8.eq_def]
    exact if_pos hx
  rcases t with _ | ⟨y,t⟩
  · simp [validUtf8,hx] at h
  by_cases h2 : (decide (0xC2 ≤ x) && decide (x ≤ 0xDF)) = true
  · have heq : ∀ r, validUtf8 (x::y::r) = (isTail y && validUtf8 r) := by
      intro r
      rw [validUtf8.eq_def]
      simp only [hx,h2,if_true,if_false]
    exact startsWithChar_two heq h
  rcases t with _ | ⟨z,t⟩
  · simp [validUtf8.eq_def,hx,h2] at h
  by_cases h30 : x = 0xE0
  · have heq : ∀ r, validUtf8 (x::y::z::r) =
        (decide (0xA0 ≤ y) && decide (y ≤ 0xBF) && isTail z && validUtf8 r) := by
      intro r
      subst h30
      rw [validUtf8.eq_def]
      rfl
    exact startsWithChar_three (newline_ne_of_range (by decide)) heq h
  by_cases h3d : x = 0xED
  · have heq : ∀ r, validUtf8 (x::y::z::r) =
        (decide (0x80 ≤ y) && decide (y ≤ 0x9F) && isTail z && validUtf8 r) := by
      intro r
      subst h3d
      rw [validUtf8.eq_def]
      rfl
    exact startsWithChar_three (newline_ne_of_range (by decide)) heq h
  by_cases h3 : (decide (0xE1 ≤ x) && decide (x ≤ 0xEF)) = true
  · have heq : ∀ r, validUtf8 (x::y::z::r) = (isTail y && isTail z && validUtf8 r) := by
      intro r
      rw [validUtf8.eq_def]
      simp only [hx,h2,h30,h3d,h3,if_true,if_false,Bool.false_eq_true]
    exact startsWithChar_three newline_ne_of_tail heq h
  rcases t with _ | ⟨w,t⟩
  · rw [validUtf8.eq_def] at h
    simp [hx,h2,h30,h3d,h3] at h
  by_cases h40 : x = 0xF0
  · have heq : ∀ r, validUtf8 (x::y::z::w::r) =
        (decide (0x90 ≤ y) && decide (y ≤ 0xBF) && isTail z && isTail w && validUtf8 r) := by
      intro r
      subst h40
      rfl
    exact startsWithChar_four (newline_ne_of_range (by decide)) heq h
  by_cases h44 : x = 0xF4
  · have heq : ∀ r, validUtf8 (x::y::z::w::r) =
        (decide (0x80 ≤ y) && decide (y ≤ 0x8F) && isTail z && isTail w && validUtf8 r) := by
      intro r
      subst h44
      rfl
    exact startsWithChar_four (newline_ne_of_range (by decide)) heq h
  by_cases h4 : (decide (0xF1 ≤ x) && decide (x ≤ 0xF3)) = true
  · have heq : ∀ r, validUtf8 (x::y::z::w::r) =
        (isTail y && isTail z && isTail w && validUtf8 r) := by
      intro r
      rw [validUtf8.eq_def]
      simp only [hx,h2,h30,h3d,h3,h40,h44,h4,if_true,if_false,Bool.false_eq_true]
    exact startsWithChar_four newline_ne_of_tail heq h
  rw [validUtf8.eq_def] at h
  simp [hx,h2,h30,h3d,h3,h40,h44,h4] at h

theorem validUtf8_split {a b : Bytes} (h : validUtf8 (a ++ newline::b) = true) :
    validUtf8 (a ++ [newline]) = true ∧ validUtf8 b = true := by
  induction hlen : a.length using Nat.strong_induction_on generalizing a with
  | h len ih =>
    cases a with
    | nil =>
      refine ⟨by decide,?_⟩
      rw [List.nil_append,validUtf8.eq_def] at h
      exact h
    | cons x a =>
      obtain ⟨c,r,ht,hno,heq⟩ := validUtf8_char h
      have hcut : ∃ l, a = c ++ l ∧ r = l ++ newline::b := by
        rcases List.append_eq_append_iff.mp ht with ⟨l,hc,hr⟩ | hcut
        · cases l with
          | nil => exact ⟨[],by simpa using hc.symm,by simpa using hr.symm⟩
          | cons y l =>
            obtain ⟨rfl,-⟩ := List.cons.inj hr
            exact absurd (by simp [hc]) hno
        · exact hcut
      obtain ⟨l,rfl,rfl⟩ := hcut
      have hl : validUtf8 (l ++ newline::b) = true := by
        rw [← heq,← List.append_assoc]
        exact h
      obtain ⟨hl,hb⟩ := ih l.length (by simp at hlen; omega) hl rfl
      refine ⟨?_,hb⟩
      rw [List.cons_append,List.append_assoc,heq]
      exact hl

end Bytes
end Ait
