import Ait.Cidr
import Ait.Prefixes

/-!
# IPv4 addresses inside IPv6

Three forms put an IPv4 address into the last 32 bits of an IPv6 address: behind zeroes,
behind `::ffff` and behind the NAT64 prefix. `normalizeIp` undoes them, but of the NAT64
prefix it reads the first 64 of its 96 bits.
-/

namespace Ait
open Prefixes

/-- `::a`. -/
def Ipv4Addr.compatible (x : Ipv4Addr) : Ipv6Addr := ⟨0,0,0,0,0,0,x.a ++ x.b,x.c ++ x.d⟩

/-- `::ffff:a`. -/
def Ipv4Addr.mapped (x : Ipv4Addr) : Ipv6Addr := ⟨0,0,0,0,0,0xffff,x.a ++ x.b,x.c ++ x.d⟩

/-- `64:ff9b::a`. -/
def Ipv4Addr.nat64 (x : Ipv4Addr) : Ipv6Addr := ⟨0x64,0xff9b,0,0,0,0,x.a ++ x.b,x.c ++ x.d⟩

/-- `64:ff9b::`. -/
def nat64Net : Ipv6Addr := ⟨0x64,0xff9b,0,0,0,0,0,0⟩

def Ipv6Addr.Embeds (v : Ipv6Addr) (x : Ipv4Addr) : Prop :=
  v = x.compatible ∨ v = x.mapped ∨ v = x.nat64

instance (v : Ipv6Addr) (x : Ipv4Addr) : Decidable (v.Embeds x) :=
  inferInstanceAs (Decidable (_ ∨ _))

def Ipv6Addr.lastV4 (v : Ipv6Addr) : Ipv4Addr :=
  ⟨highByte v.s6,lowByte v.s6,highByte v.s7,lowByte v.s7⟩

/-- In `64:ff9b::/64` but outside `64:ff9b::/96`. -/
def Ipv6Addr.StrayNat64 (v : Ipv6Addr) : Prop :=
  InBlock 64 nat64Net.bits v.bits ∧ ¬InBlock 96 nat64Net.bits v.bits

instance (v : Ipv6Addr) : Decidable v.StrayNat64 := inferInstanceAs (Decidable (_ ∧ _))

theorem Ipv4Addr.toNat_bits (x : Ipv4Addr) :
    x.bits.toNat = ((x.a.toNat*256+x.b.toNat)*256+x.c.toNat)*256+x.d.toNat := by
  simp only [Ipv4Addr.bits,toNat_append_eq,Nat.reducePow]

theorem Ipv6Addr.toNat_bits (v : Ipv6Addr) :
    v.bits.toNat = ((((((v.s0.toNat*65536+v.s1.toNat)*65536+v.s2.toNat)*65536+v.s3.toNat)*65536+
      v.s4.toNat)*65536+v.s5.toNat)*65536+v.s6.toNat)*65536+v.s7.toNat := by
  simp only [Ipv6Addr.bits,toNat_append_eq,Nat.reducePow]

@[simp] theorem highByte_append (a b : BitVec 8) : highByte (a ++ b) = a := by
  apply BitVec.eq_of_toNat_eq
  have ha := a.isLt
  have hb := b.isLt
  simp only [highByte,BitVec.toNat_setWidth,BitVec.toNat_ushiftRight,toNat_append_eq,
    Nat.shiftRight_eq_div_pow]
  omega

@[simp] theorem lowByte_append (a b : BitVec 8) : lowByte (a ++ b) = b := by
  apply BitVec.eq_of_toNat_eq
  have hb := b.isLt
  simp only [lowByte,BitVec.toNat_setWidth,toNat_append_eq]
  omega

@[simp] theorem bytes_append (s : BitVec 16) : highByte s ++ lowByte s = s :=
  byte_inj (highByte_append _ _) (lowByte_append _ _)

@[simp] theorem Ipv4Addr.lastV4_compatible (x : Ipv4Addr) : x.compatible.lastV4 = x := by
  simp [Ipv4Addr.compatible,Ipv6Addr.lastV4]

@[simp] theorem Ipv4Addr.lastV4_mapped (x : Ipv4Addr) : x.mapped.lastV4 = x := by
  simp [Ipv4Addr.mapped,Ipv6Addr.lastV4]

@[simp] theorem Ipv4Addr.lastV4_nat64 (x : Ipv4Addr) : x.nat64.lastV4 = x := by
  simp [Ipv4Addr.nat64,Ipv6Addr.lastV4]

theorem Ipv6Addr.embeds_iff {v : Ipv6Addr} {x : Ipv4Addr} :
    v.Embeds x ↔ x = v.lastV4 ∧ v.s2 = 0 ∧ v.s3 = 0 ∧ v.s4 = 0 ∧
      (v.s0 = 0 ∧ v.s1 = 0 ∧ (v.s5 = 0 ∨ v.s5 = 0xffff) ∨
        v.s0 = 0x64 ∧ v.s1 = 0xff9b ∧ v.s5 = 0) := by
  constructor
  · rintro (rfl | rfl | rfl) <;>
      simp [Ipv4Addr.compatible,Ipv4Addr.mapped,Ipv4Addr.nat64,Ipv6Addr.lastV4]
  · obtain ⟨s0,s1,s2,s3,s4,s5,s6,s7⟩ := v
    rintro ⟨rfl,rfl,rfl,rfl,⟨rfl,rfl,rfl | rfl⟩ | ⟨rfl,rfl,rfl⟩⟩
    · exact .inl (by simp [Ipv4Addr.compatible,Ipv6Addr.lastV4])
    · exact .inr (.inl (by simp [Ipv4Addr.mapped,Ipv6Addr.lastV4]))
    · exact .inr (.inr (by simp [Ipv4Addr.nat64,Ipv6Addr.lastV4]))

@[simp] theorem Ipv6Addr.inBlock_nat64_64 {v : Ipv6Addr} :
    InBlock 64 nat64Net.bits v.bits ↔ v.s0 = 0x64 ∧ v.s1 = 0xff9b ∧ v.s2 = 0 ∧ v.s3 = 0 := by
  obtain ⟨s0,s1,s2,s3,s4,s5,s6,s7⟩ := v
  simp only [InBlock,Ipv6Addr.toNat_bits,nat64Net,BitVec.toNat_eq,BitVec.ofNat_eq_ofNat,
    BitVec.reduceToNat]
  omega

@[simp] theorem Ipv6Addr.inBlock_nat64_96 {v : Ipv6Addr} :
    InBlock 96 nat64Net.bits v.bits ↔
      v.s0 = 0x64 ∧ v.s1 = 0xff9b ∧ v.s2 = 0 ∧ v.s3 = 0 ∧ v.s4 = 0 ∧ v.s5 = 0 := by
  obtain ⟨s0,s1,s2,s3,s4,s5,s6,s7⟩ := v
  simp only [InBlock,Ipv6Addr.toNat_bits,nat64Net,BitVec.toNat_eq,BitVec.ofNat_eq_ofNat,
    BitVec.reduceToNat]
  omega

theorem Ipv6Addr.StrayNat64.not_embeds {v : Ipv6Addr} (h : v.StrayNat64) (x : Ipv4Addr) :
    ¬v.Embeds x := by
  obtain ⟨hin,hout⟩ := h
  rw [Ipv6Addr.inBlock_nat64_64] at hin
  rw [Ipv6Addr.inBlock_nat64_96] at hout
  intro hx
  obtain ⟨-,h2,h3,h4,⟨h0,-⟩ | ⟨h0,h1,h5⟩⟩ := Ipv6Addr.embeds_iff.mp hx
  · rw [h0] at hin
    exact absurd hin.1 (by decide)
  · exact hout ⟨h0,h1,h2,h3,h4,h5⟩

theorem normalizeIp_of_embeds {v : Ipv6Addr} {x : Ipv4Addr} (h : v.Embeds x) :
    normalizeIp (.v6 v) = .v4 x := by
  obtain ⟨rfl,h2,h3,h4,⟨h0,h1,h5⟩ | ⟨h0,h1,-⟩⟩ := Ipv6Addr.embeds_iff.mp h
  · have hto : v.toIpv4 = some v.lastV4 := if_pos ⟨h0,h1,h2,h3,h4,h5⟩
    simp only [normalizeIp,hto]
  · simp [normalizeIp,Ipv6Addr.toIpv4,Ipv6Addr.lastV4,h0,h1,h2,h3]

@[simp] theorem normalizeIp_of_stray {v : Ipv6Addr} (h : v.StrayNat64) :
    normalizeIp (.v6 v) = .v4 v.lastV4 := by
  obtain ⟨h0,h1,h2,h3⟩ := Ipv6Addr.inBlock_nat64_64.mp h.1
  simp [normalizeIp,Ipv6Addr.toIpv4,Ipv6Addr.lastV4,h0,h1,h2,h3]

@[simp] theorem normalizeIp_of_plain {v : Ipv6Addr} (h : ∀ x, ¬v.Embeds x)
    (hstray : ¬v.StrayNat64) :
    normalizeIp (.v6 v) = .v6 v := by
  have hlast := h v.lastV4
  simp only [Ipv6Addr.embeds_iff,true_and] at hlast
  have hto : v.toIpv4 = none := by
    rw [Ipv6Addr.toIpv4,if_neg]
    rintro ⟨h0,h1,h2,h3,h4,h5⟩
    exact hlast ⟨h2,h3,h4,.inl ⟨h0,h1,h5⟩⟩
  have h64 : ¬(v.s0 = 0x64 ∧ v.s1 = 0xff9b ∧ v.s2 = 0 ∧ v.s3 = 0) := by
    rw [← Ipv6Addr.inBlock_nat64_64]
    intro hin
    refine hstray ⟨hin,?_⟩
    rw [Ipv6Addr.inBlock_nat64_96]
    rintro ⟨h0,h1,h2,h3,h4,h5⟩
    exact hlast ⟨h2,h3,h4,.inr ⟨h0,h1,h5⟩⟩
  simp only [normalizeIp,hto,if_neg h64]

/-- `normalizeIp` decodes the three forms and nothing else. -/
def DecodesExactly (v : Ipv6Addr) : Prop :=
  (∀ x, normalizeIp (.v6 v) = .v4 x ↔ v.Embeds x) ∧
    ((∀ x, ¬v.Embeds x) → normalizeIp (.v6 v) = .v6 v)

/-- The decoding goes wrong on what the NAT64 test lets in beyond its /96. -/
theorem decodesExactly_iff (v : Ipv6Addr) : DecodesExactly v ↔ ¬v.StrayNat64 := by
  constructor
  · rintro ⟨hiff,-⟩ hstray
    exact hstray.not_embeds _ ((hiff v.lastV4).mp (normalizeIp_of_stray hstray))
  · intro hstray
    refine ⟨fun x => ⟨fun hx => ?_,normalizeIp_of_embeds⟩,fun h => normalizeIp_of_plain h hstray⟩
    by_cases h : ∃ y, v.Embeds y
    · obtain ⟨y,hy⟩ := h
      have hxy := (normalizeIp_of_embeds hy).symm.trans hx
      rwa [IpAddr.v4.inj hxy] at hy
    · rw [normalizeIp_of_plain (not_exists.mp h) hstray] at hx
      exact absurd hx (by simp)

/-- `64:ff9b::1:0:7f00:1` is judged as 127.0.0.1. -/
theorem not_decodesExactly_stray : ¬DecodesExactly ⟨0x64,0xff9b,0,0,1,0,0x7f00,1⟩ := by
  rintro ⟨hiff,-⟩
  have hx := (hiff ⟨127,0,0,1⟩).mp (by decide)
  exact absurd (Ipv6Addr.embeds_iff.mp hx).2.2.2.1 (by decide)

end Ait
