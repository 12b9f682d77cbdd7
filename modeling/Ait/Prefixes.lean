import Mathlib

/-!
# Blocks of words that share a prefix

A block is given by a network word and a prefix length, and holds the words whose first
bits are those of the network. Programs test for it with a mask; here it is a quotient,
so that arithmetic decides it.
-/

namespace Ait
namespace Prefixes

variable {w : ℕ}

/-- The first `len` bits of `x` are those of `net`. -/
def InBlock (len : ℕ) (net x : BitVec w) : Prop :=
  x.toNat/2^(w-len) = net.toNat/2^(w-len)

instance (len : ℕ) (net x : BitVec w) : Decidable (InBlock len net x) :=
  inferInstanceAs (Decidable (_ = _))

@[simp] theorem inBlock_self (len : ℕ) (x : BitVec w) : InBlock len x x := rfl

theorem inBlock_zero (net x : BitVec w) : InBlock 0 net x := by
  simp [InBlock,Nat.div_eq_of_lt x.isLt,Nat.div_eq_of_lt net.isLt]

theorem InBlock.mono {len more : ℕ} {net x : BitVec w} (hlen : len ≤ more)
    (h : InBlock more net x) : InBlock len net x := by
  have hpow : 2^(w-len) = 2^(w-more)*2^(w-len-(w-more)) := by
    rw [← pow_add]
    congr 1
    omega
  rw [InBlock,hpow,← Nat.div_div_eq_div_mul,← Nat.div_div_eq_div_mul,h]

/-- A mask of `k` zeroes under ones compares everything above the last `k` bits. -/
theorem and_mask_eq_iff {k : ℕ} {x y : BitVec w} :
    x &&& BitVec.allOnes w <<< k = y &&& BitVec.allOnes w <<< k ↔
      x.toNat/2^k = y.toNat/2^k := by
  constructor
  · intro h
    apply Nat.eq_of_testBit_eq
    intro i
    rw [Nat.testBit_div_two_pow,Nat.testBit_div_two_pow,BitVec.testBit_toNat,
      BitVec.testBit_toNat]
    by_cases hi : i+k < w
    · have hbit := congrArg (BitVec.getLsbD · (i+k)) h
      simpa [hi] using hbit
    · rw [BitVec.getLsbD_of_ge x (i+k) (by omega),BitVec.getLsbD_of_ge y (i+k) (by omega)]
  · intro h
    apply BitVec.eq_of_getLsbD_eq
    intro i hi
    by_cases hk : i < k
    · simp [hk]
    · have hbit := congrArg (Nat.testBit · (i-k)) h
      simp only [Nat.testBit_div_two_pow,Nat.sub_add_cancel (not_lt.mp hk),
        BitVec.testBit_toNat] at hbit
      simp [hbit]

theorem toNat_append_eq {m n : ℕ} (x : BitVec m) (y : BitVec n) :
    (x ++ y).toNat = x.toNat*2^n+y.toNat := by
  rw [BitVec.toNat_append,← Nat.shiftLeft_add_eq_or_of_lt y.isLt,Nat.shiftLeft_eq]

end Prefixes
end Ait
