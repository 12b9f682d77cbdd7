import Mathlib

/-!
# Fields between separators, and numerals

Text put together from fields with a separator that no field contains can be
taken apart again in only one way, and so can numerals in a base up to sixteen.
-/

namespace Ait
namespace Delimited

variable {α : Type}

theorem append_cons_inj {x : α} {a b r s : List α} (ha : x ∉ a) (hb : x ∉ b)
    (h : a ++ x::r = b ++ x::s) : a = b ∧ r = s := by
  induction a generalizing b with
  | nil =>
    cases b with
    | nil => exact ⟨rfl,(List.cons.inj h).2⟩
    | cons y b =>
      have hy : x = y := (List.cons.inj h).1
      simp [hy] at hb
  | cons y a ih =>
    cases b with
    | nil =>
      have hy : y = x := (List.cons.inj h).1
      simp [hy] at ha
    | cons z b =>
      obtain ⟨rfl,hrest⟩ := List.cons.inj h
      simp only [List.mem_cons,not_or] at ha hb
      obtain ⟨rfl,rfl⟩ := ih ha.2 hb.2 hrest
      exact ⟨rfl,rfl⟩

theorem intercalate_append {x : α} {as bs : List (List α)} (ha : as ≠ []) (hb : bs ≠ []) :
    [x].intercalate (as ++ bs) = [x].intercalate as ++ x::[x].intercalate bs := by
  induction as with
  | nil => exact absurd rfl ha
  | cons a as ih =>
    by_cases has : as = []
    · simp [has,List.intercalate_cons_of_ne_nil hb]
    · have happ : as ++ bs ≠ [] := by simp [hb]
      simp [List.intercalate_cons_of_ne_nil happ,List.intercalate_cons_of_ne_nil has,ih has]

theorem intercalate_inj [DecidableEq α] {x : α} {as bs : List (List α)} (ha : as ≠ [])
    (hb : bs ≠ []) (has : ∀ l ∈ as, x ∉ l) (hbs : ∀ l ∈ bs, x ∉ l)
    (h : [x].intercalate as = [x].intercalate bs) : as = bs := by
  have hsplit := congrArg (List.splitOn x) h
  rwa [List.splitOn_intercalate x has ha,List.splitOn_intercalate x hbs hb] at hsplit

theorem mem_intercalate {x c : α} {as : List (List α)} (h : c ∈ [x].intercalate as) :
    c = x ∨ ∃ l ∈ as, c ∈ l := by
  induction as with
  | nil => cases h
  | cons a as ih =>
    by_cases has : as = []
    · simp only [has,List.intercalate_singleton] at h
      exact .inr ⟨a,by simp,h⟩
    · simp only [List.intercalate_cons_of_ne_nil has,List.mem_append,List.mem_singleton] at h
      obtain (h | h) | h := h
      · exact .inr ⟨a,by simp,h⟩
      · exact .inl h
      · obtain h | ⟨l,hl,hc⟩ := ih h
        · exact .inl h
        · exact .inr ⟨l,by simp [hl],hc⟩

theorem mem_toDigits {b n : ℕ} (hb : 1 < b) {c : Char} (h : c ∈ Nat.toDigits b n) :
    ∃ d < b, c = Nat.digitChar d := by
  induction n using Nat.strong_induction_on with
  | h n ih =>
    rw [Nat.toDigits_eq_if hb] at h
    split at h
    · exact ⟨n,by assumption,List.mem_singleton.mp h⟩
    · rename_i hn
      obtain h | h := List.mem_append.mp h
      · exact ih (n/b) (Nat.div_lt_self (by omega) hb) h
      · exact ⟨n%b,Nat.mod_lt n (by omega),List.mem_singleton.mp h⟩

theorem digitChar_inj : ∀ d < 16, ∀ e < 16, Nat.digitChar d = Nat.digitChar e → d = e := by
  decide

theorem toDigits_inj {b m n : ℕ} (hb : 1 < b) (hb' : b ≤ 16)
    (h : Nat.toDigits b m = Nat.toDigits b n) : m = n := by
  induction m using Nat.strong_induction_on generalizing n with
  | h m ih =>
    rw [Nat.toDigits_eq_if hb,Nat.toDigits_eq_if hb (n := n)] at h
    by_cases hm : m < b
    · by_cases hn : n < b
      · simp only [hm,hn,if_true,List.cons.injEq,and_true] at h
        exact digitChar_inj m (by omega) n (by omega) h
      · have hpos := Nat.length_toDigits_pos (b := b) (n := n/b)
        have hlen := congrArg List.length h
        simp [hm,hn] at hlen
    · by_cases hn : n < b
      · have hpos := Nat.length_toDigits_pos (b := b) (n := m/b)
        have hlen := congrArg List.length h
        simp [hm,hn] at hlen
      · simp only [hm,hn,if_false] at h
        obtain ⟨hdiv,hmod⟩ := List.append_inj' h rfl
        have hquot : m/b = n/b := ih (m/b) (Nat.div_lt_self (by omega) hb) hdiv
        have hrem : m%b = n%b := by
          have hmb := Nat.mod_lt m (by omega : b > 0)
          have hnb := Nat.mod_lt n (by omega : b > 0)
          exact digitChar_inj _ (by omega) _ (by omega) (List.cons.inj hmod).1
        rw [← Nat.div_add_mod m b,hquot,hrem,Nat.div_add_mod]

end Delimited
end Ait
