import Ait.EmbeddedIpv4

/-!
# The block list as address ranges

The octet and segment tests of `isBlockedIp`, read as the ranges they stand for. One
range is cut short: the benchmarking block is a /15, and the test sees its first half.
-/

namespace Ait
open Prefixes

def IpAddr.InRange : IpAddr → IpAddr × ℕ → Prop
  | .v4 x,(.v4 net,len) => InBlock len net.bits x.bits
  | .v6 x,(.v6 net,len) => InBlock len net.bits x.bits
  | _,_ => False

def blockedRanges : List (IpAddr × ℕ) :=
  [(.v4 ⟨0,0,0,0⟩,8),(.v4 ⟨10,0,0,0⟩,8),(.v4 ⟨100,64,0,0⟩,10),(.v4 ⟨127,0,0,0⟩,8),
    (.v4 ⟨169,254,0,0⟩,16),(.v4 ⟨172,16,0,0⟩,12),(.v4 ⟨192,168,0,0⟩,16),
    (.v4 ⟨198,18,0,0⟩,15),(.v6 ⟨0xfc00,0,0,0,0,0,0,0⟩,7),(.v6 ⟨0xfe80,0,0,0,0,0,0,0⟩,10)]

/-- 198.19.0.0/16, the half of the benchmarking block that the code lets through. -/
def missedRange : IpAddr × ℕ := (.v4 ⟨198,19,0,0⟩,16)

def IpAddr.Blocked (ip : IpAddr) : Prop := ∃ r ∈ blockedRanges, ip.InRange r

/-- Two octets agree above the last `k` bits when the first octets agree, and the second ones
above these bits. -/
theorem octets_div_eq_iff {a b m n k : ℕ} (hb : b < 256) (hn : n < 256) (hk : k ≤ 8) :
    (a*256+b)/2^k = (m*256+n)/2^k ↔ a = m ∧ b/2^k = n/2^k := by
  have hpow : 2^k*2^(8-k) = 256 := by
    rw [← pow_add,Nat.add_sub_cancel' hk]
    rfl
  have hdiv : ∀ c d : ℕ, (c*256+d)/2^k = c*2^(8-k)+d/2^k := by
    intro c d
    have hmul : c*256+d = d+2^k*(c*2^(8-k)) := by
      rw [← hpow]
      ring
    rw [hmul,Nat.add_mul_div_left _ _ (by positivity),add_comm]
  constructor
  · intro h
    have hfirst := congrArg (· / 2^(8-k)) h
    simp only [Nat.div_div_eq_div_mul,hpow] at hfirst
    obtain rfl : a = m := by omega
    rw [hdiv,hdiv,Nat.add_left_cancel_iff] at h
    exact ⟨rfl,h⟩
  · rintro ⟨rfl,h⟩
    rw [hdiv,hdiv,h]

/-- A prefix of 8 to 16 bits fixes the first octet and the top of the second. -/
theorem inRange_octets {x : Ipv4Addr} (m n : BitVec 8) {k : ℕ} (hk : k ≤ 8) :
    (IpAddr.v4 x).InRange (.v4 ⟨m,n,0,0⟩,16-k) ↔
      x.a.toNat = m.toNat ∧ x.b.toNat/2^k = n.toNat/2^k := by
  have hhead : ∀ y : Ipv4Addr, y.bits.toNat/2^16 = y.a.toNat*256+y.b.toNat := by
    rintro ⟨a,b,c,d⟩
    rw [Ipv4Addr.toNat_bits]
    omega
  have hpow : 2^(32-(16-k)) = 2^16*2^k := by
    rw [← pow_add]
    congr 1
    omega
  rw [IpAddr.InRange,InBlock,hpow,← Nat.div_div_eq_div_mul,← Nat.div_div_eq_div_mul,hhead,hhead]
  exact octets_div_eq_iff x.b.isLt n.isLt hk

theorem inRange_octet {x : Ipv4Addr} (m : BitVec 8) :
    (IpAddr.v4 x).InRange (.v4 ⟨m,0,0,0⟩,8) ↔ x.a.toNat = m.toNat := by
  refine (inRange_octets m 0 (k := 8) (by omega)).trans ⟨fun h => h.1,fun h => ⟨h,?_⟩⟩
  omega

theorem inBlock_segment {v : Ipv6Addr} {net : BitVec 16} {k : ℕ} (hk : k ≤ 16) :
    InBlock (16-k) (Ipv6Addr.bits ⟨net,0,0,0,0,0,0,0⟩) v.bits ↔
      v.s0 &&& BitVec.allOnes 16 <<< k = net &&& BitVec.allOnes 16 <<< k := by
  have hfirst : ∀ u : Ipv6Addr, u.bits.toNat/2^112 = u.s0.toNat := by
    rintro ⟨s0,s1,s2,s3,s4,s5,s6,s7⟩
    rw [Ipv6Addr.toNat_bits]
    omega
  have hpow : 2^(128-(16-k)) = 2^112*2^k := by
    rw [← pow_add]
    congr 1
    omega
  rw [and_mask_eq_iff,InBlock,hpow,← Nat.div_div_eq_div_mul,← Nat.div_div_eq_div_mul,hfirst,
    hfirst]

/-- The ranges of the list that IPv4 addresses can be in, octet by octet. -/
theorem blocked_v4_iff (x : Ipv4Addr) :
    (IpAddr.v4 x).Blocked ↔
      x.a.toNat = 0 ∨ x.a.toNat = 10 ∨ x.a.toNat = 100 ∧ x.b.toNat/2^6 = 1 ∨
        x.a.toNat = 127 ∨ x.a.toNat = 169 ∧ x.b.toNat/2^0 = 254 ∨
        x.a.toNat = 172 ∧ x.b.toNat/2^4 = 1 ∨ x.a.toNat = 192 ∧ x.b.toNat/2^0 = 168 ∨
        x.a.toNat = 198 ∧ x.b.toNat/2^1 = 9 := by
  simp only [IpAddr.Blocked,blockedRanges,List.exists_mem_cons_iff,List.not_mem_nil,false_and,
    exists_false,or_false]
  have hv6 : ∀ net len, ¬(IpAddr.v4 x).InRange (.v6 net,len) := fun _ _ h => h
  simp only [hv6,or_false]
  exact or_congr (inRange_octet 0) (or_congr (inRange_octet 10)
    (or_congr (inRange_octets 100 64 (k := 6) (by omega)) (or_congr (inRange_octet 127)
    (or_congr (inRange_octets 169 254 (k := 0) (by omega))
    (or_congr (inRange_octets 172 16 (k := 4) (by omega))
    (or_congr (inRange_octets 192 168 (k := 0) (by omega))
      (inRange_octets 198 18 (k := 1) (by omega))))))))

theorem inRange_missed_iff (x : Ipv4Addr) :
    (IpAddr.v4 x).InRange missedRange ↔ x.a.toNat = 198 ∧ x.b.toNat = 19 := by
  refine (inRange_octets 198 19 (k := 0) (by omega)).trans ?_
  simp

/-- The octet tests see every blocked IPv4 range but the second half of 198.18.0.0/15. -/
@[simp] theorem isBlockedV4_iff (x : Ipv4Addr) :
    isBlockedV4 x = true ↔ (IpAddr.v4 x).Blocked ∧ ¬(IpAddr.v4 x).InRange missedRange := by
  rw [blocked_v4_iff,inRange_missed_iff]
  simp only [isBlockedV4,decide_eq_true_eq]
  have h64 : x.b.toNat/2^6 = 1 ↔ 64 ≤ x.b.toNat ∧ x.b.toNat ≤ 127 := by omega
  have h16 : x.b.toNat/2^4 = 1 ↔ 16 ≤ x.b.toNat ∧ x.b.toNat ≤ 31 := by omega
  rw [h64,h16]
  by_cases h : x.a.toNat = 198
  · simp [h]
    omega
  · simp only [h,false_and,or_false,not_false_eq_true,and_true,pow_zero,Nat.div_one]
    grind

@[simp] theorem isBlockedV6_iff (v : Ipv6Addr) :
    isBlockedV6 v = true ↔ (IpAddr.v6 v).Blocked := by
  have hfc := @inBlock_segment v 0xfc00 9 (by omega)
  have hfe := @inBlock_segment v 0xfe80 6 (by omega)
  simp only [IpAddr.Blocked,blockedRanges,List.exists_mem_cons_iff,List.not_mem_nil,false_and,
    exists_false,or_false,false_or,IpAddr.InRange]
  rw [hfc,hfe]
  simp [isBlockedV6]

theorem not_inRange_missed_v6 (v : Ipv6Addr) : ¬(IpAddr.v6 v).InRange missedRange := fun h => h

theorem blocked_of_inRange_missed {ip : IpAddr} (h : ip.InRange missedRange) : ip.Blocked := by
  cases ip with
  | v4 x =>
    rw [inRange_missed_iff] at h
    rw [blocked_v4_iff]
    omega
  | v6 v => exact absurd h (not_inRange_missed_v6 v)

@[simp] theorem isBlockedIp_iff (ip : IpAddr) :
    isBlockedIp ip = true ↔ ip.Blocked ∧ ¬ip.InRange missedRange := by
  cases ip with
  | v4 x => exact isBlockedV4_iff x
  | v6 v =>
    rw [and_iff_left (not_inRange_missed_v6 v)]
    exact isBlockedV6_iff v

@[simp] theorem isAllowed_nil (ip : IpAddr) :
    isAllowed ip [] = false ↔
      (normalizeIp ip).Blocked ∧ ¬(normalizeIp ip).InRange missedRange := by
  rw [← isBlockedIp_iff]
  simp [isAllowed]

/-- The address that one of the three forms embeds, or the address itself. -/
def IpAddr.decoded : IpAddr → IpAddr
  | .v4 x => .v4 x
  | .v6 v => if v.Embeds v.lastV4 then .v4 v.lastV4 else .v6 v

/-- No embedding, but judged by its last 32 bits and found blocked. -/
def IpAddr.Misread : IpAddr → Prop
  | .v4 _ => False
  | .v6 v =>
    v.StrayNat64 ∧ (IpAddr.v4 v.lastV4).Blocked ∧ ¬(IpAddr.v4 v.lastV4).InRange missedRange

@[simp] theorem normalizeIp_eq_decoded {v : Ipv6Addr} (h : ¬v.StrayNat64) :
    normalizeIp (.v6 v) = IpAddr.decoded (.v6 v) := by
  by_cases hlast : v.Embeds v.lastV4
  · rw [normalizeIp_of_embeds hlast,IpAddr.decoded,if_pos hlast]
  · have hnone : ∀ x, ¬v.Embeds x := by
      intro x hx
      rw [(Ipv6Addr.embeds_iff.mp hx).1] at hx
      exact hlast hx
    rw [normalizeIp_of_plain hnone h,IpAddr.decoded,if_neg hlast]

theorem Ipv6Addr.StrayNat64.not_blocked {v : Ipv6Addr} (h : v.StrayNat64) :
    ¬(IpAddr.v6 v).Blocked := by
  rw [← isBlockedV6_iff,isBlockedV6,(Ipv6Addr.inBlock_nat64_64.mp h.1).1]
  decide

/-- Without allowed ranges the decision is the block list for every address that does not
decode into 198.19.0.0/16, as long as what the code decodes is an embedding. -/
theorem isAllowed_nil_exact_iff (ip : IpAddr) :
    ((isAllowed ip [] = false ↔ (normalizeIp ip).Blocked) ↔
      ¬(normalizeIp ip).InRange missedRange) ∧
    ((isAllowed ip [] = false ↔ ip.decoded.Blocked) ↔
      ¬ip.decoded.InRange missedRange ∧ ¬ip.Misread) := by
  have exact_iff : ∀ y : IpAddr, ((y.Blocked ∧ ¬y.InRange missedRange ↔ y.Blocked) ↔
      ¬y.InRange missedRange) := by
    intro y
    constructor
    · intro h hmissed
      exact (h.mpr (blocked_of_inRange_missed hmissed)).2 hmissed
    · intro h
      exact and_iff_left h
  rw [isAllowed_nil]
  refine ⟨exact_iff _,?_⟩
  cases ip with
  | v4 x =>
    have hread : ¬(IpAddr.v4 x).Misread := fun h => h
    rw [and_iff_left hread]
    exact exact_iff (.v4 x)
  | v6 v =>
    by_cases hstray : v.StrayNat64
    · have hdecoded : IpAddr.decoded (.v6 v) = .v6 v := if_neg (hstray.not_embeds _)
      rw [normalizeIp_of_stray hstray,hdecoded,iff_false_right hstray.not_blocked,
        and_iff_right (not_inRange_missed_v6 v),IpAddr.Misread,and_iff_right hstray]
    · have hread : ¬(IpAddr.v6 v).Misread := fun h => hstray h.1
      rw [normalizeIp_eq_decoded hstray,and_iff_left hread]
      exact exact_iff _

/-- 198.19.0.1 is in the benchmarking block and an allowed upstream. -/
theorem not_isAllowed_nil_exact :
    ¬(isAllowed (.v4 ⟨198,19,0,1⟩) [] = false ↔
      (normalizeIp (.v4 ⟨198,19,0,1⟩)).Blocked) := by
  intro h
  have hblocked : (IpAddr.v4 ⟨198,19,0,1⟩).Blocked :=
    ⟨(.v4 ⟨198,18,0,0⟩,15),by decide,show InBlock _ _ _ by decide⟩
  exact absurd (h.mpr hblocked) (by decide)

end Ait
