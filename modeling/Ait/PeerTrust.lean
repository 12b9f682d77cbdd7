import Ait.BlockList
import Ait.ClientIp

/-!
# Which peers a trusted proxy entry covers

`TrustedProxy::parse` and `ip_in_cidr` read one notation and agree on every text. An
IPv6 entry does not cover a host the same way under its two spellings: as IPv4 the host
is compared with the address the entry embeds, as IPv4-mapped with the entry as written.
-/

namespace Ait
open Prefixes

def IpAddr.familyMax : IpAddr → ℕ
  | .v4 _ => 32
  | .v6 _ => 128

/-- `addr` or `addr/prefix`. -/
def TrustedProxy.parse (entry : String) : Except String TrustedProxy :=
  match splitOnce '/' entry.toList with
  | (addr,none) =>
    match IpAddr.fromStr addr with
    | some x => .ok (.ip x)
    | none => .error ("'" ++ entry ++ "' is not an IP address or CIDR block")
  | (addr,some pre) =>
    match IpAddr.fromStr addr with
    | none => .error ("'" ++ entry ++ "' is not an IP address or CIDR block")
    | some x =>
      match parseU8 pre with
      | none => .error ("'" ++ entry ++ "' has a prefix that is not a number")
      | some len =>
        if len > x.familyMax then
          .error ("'" ++ entry ++ "' prefix must be <= " ++ toString x.familyMax)
        else .ok (.cidr x len)

/-- An allowed range matches as the trusted proxy entry of the same text does, and a text
that is refused as an entry matches nothing. -/
theorem ipInCidr_eq_parse (ip : IpAddr) (s : String) :
    ipInCidr ip s = (TrustedProxy.parse s).toOption.any fun t => t.contains ip := by
  rw [ipInCidr,TrustedProxy.parse]
  rcases splitOnce '/' s.toList with ⟨addr,_ | pre⟩
  · dsimp only
    cases IpAddr.fromStr addr with
    | none => rfl
    | some x => cases x <;> rfl
  · dsimp only
    cases IpAddr.fromStr addr with
    | none => rfl
    | some x =>
      cases parseU8 pre with
      | none => rfl
      | some len =>
        dsimp only
        change (if len ≤ x.familyMax then ipInPrefix ip x len else false) = _
        by_cases hlen : len ≤ x.familyMax
        · rw [if_pos hlen,if_neg (not_lt.mpr hlen)]
          rfl
        · rw [if_neg hlen,if_pos (not_le.mp hlen)]
          rfl

theorem TrustedProxy.parse_cidr_len {s : String} {x : IpAddr} {len : ℕ}
    (h : TrustedProxy.parse s = .ok (.cidr x len)) : len ≤ x.familyMax := by
  rcases hs : splitOnce '/' s.toList with ⟨addr,_ | pre⟩
  · cases hx : IpAddr.fromStr addr with
    | none => simp [TrustedProxy.parse,hs,hx] at h
    | some y => simp [TrustedProxy.parse,hs,hx] at h
  · cases hx : IpAddr.fromStr addr with
    | none => simp [TrustedProxy.parse,hs,hx] at h
    | some y =>
      cases hl : parseU8 pre with
      | none => simp [TrustedProxy.parse,hs,hx,hl] at h
      | some n =>
        by_cases hn : n > y.familyMax
        · simp [TrustedProxy.parse,hs,hx,hl,hn] at h
        · simp only [TrustedProxy.parse,hs,hx,hl,if_neg hn,Except.ok.injEq,
            TrustedProxy.cidr.injEq] at h
          obtain ⟨rfl,rfl⟩ := h
          exact not_lt.mp hn

@[simp] theorem ipv4InPrefix_iff {ip pre : Ipv4Addr} {len : ℕ} :
    ipv4InPrefix ip pre len = true ↔ InBlock len pre.bits ip.bits := by
  by_cases hlen : len = 0
  · simp [ipv4InPrefix,hlen,inBlock_zero]
  · simp only [ipv4InPrefix,if_neg hlen,decide_eq_true_eq]
    exact and_mask_eq_iff

@[simp] theorem ipv6InPrefix_iff {ip pre : Ipv6Addr} {len : ℕ} :
    ipv6InPrefix ip pre len = true ↔ InBlock len pre.bits ip.bits := by
  by_cases hlen : len = 0
  · simp [ipv6InPrefix,hlen,inBlock_zero]
  · simp only [ipv6InPrefix,if_neg hlen,decide_eq_true_eq]
    exact and_mask_eq_iff

/-- An entry as an address and a prefix length; a bare address has the whole length. -/
def TrustedProxy.range : TrustedProxy → IpAddr × ℕ
  | .ip x => (x,x.familyMax)
  | .cidr x len => (x,len)

theorem TrustedProxy.contains_eq (t : TrustedProxy) (ip : IpAddr) :
    t.contains ip = ipInPrefix ip t.range.1 t.range.2 := by
  cases t with
  | ip x => cases x <;> rfl
  | cidr x len => rfl

/-- A host reported as IPv4 and as IPv4-mapped IPv6 is covered both times or not at all. -/
def TrustedProxy.CoversSpellings (t : TrustedProxy) : Prop :=
  ∀ x : Ipv4Addr, t.contains (.v4 x) = t.contains (.v6 x.mapped)

/-- `::ffff:0:0`. -/
def mappedNet : Ipv6Addr := ⟨0,0,0,0,0,0xffff,0,0⟩

/-- An IPv4 entry; or an IPv6 entry that is one IPv4-mapped address, or that has the empty
prefix under an address read as IPv4, or whose address is not read as IPv4 and departs from
`::ffff:0:0/96` within its prefix. -/
def TrustedProxy.Uniform (t : TrustedProxy) : Prop :=
  match t.range with
  | (.v4 _,_) => True
  | (.v6 v,len) =>
    (∃ x : Ipv4Addr, v = x.mapped) ∧ len = 128 ∨
      (∃ x, normalizeIp (.v6 v) = .v4 x) ∧ len = 0 ∨
        normalizeIp (.v6 v) = .v6 v ∧ ¬InBlock (min len 96) v.bits mappedNet.bits

theorem Ipv4Addr.toNat_bits_mapped (x : Ipv4Addr) :
    x.mapped.bits.toNat = 0xffff*2^32+x.bits.toNat := by
  simp only [Ipv6Addr.toNat_bits,Ipv4Addr.mapped,toNat_append_eq,Ipv4Addr.toNat_bits,
    BitVec.ofNat_eq_ofNat,BitVec.reduceToNat]
  omega

theorem inBlock_mapped_of_le {len : ℕ} (hlen : len ≤ 96) (x y : Ipv4Addr) (net : BitVec 128) :
    InBlock len net x.mapped.bits ↔ InBlock len net y.mapped.bits := by
  have hhead : InBlock len x.mapped.bits y.mapped.bits := by
    refine InBlock.mono hlen ?_
    have hx := x.bits.isLt
    have hy := y.bits.isLt
    simp only [InBlock,Ipv4Addr.toNat_bits_mapped]
    omega
  rw [InBlock] at hhead
  rw [InBlock,InBlock,hhead]

/-- Behind the first 96 bits the blocks of IPv4-mapped addresses are those of IPv4. -/
@[simp] theorem inBlock_mapped_of_gt {len : ℕ} (hlen : 96 < len) (hmax : len ≤ 128)
    (x y : Ipv4Addr) :
    InBlock len x.mapped.bits y.mapped.bits ↔ InBlock (len-96) x.bits y.bits := by
  have hk : 128-len = 32-(len-96) := by omega
  have hhead : ∀ z : Ipv4Addr, z.mapped.bits.toNat/2^(32-(len-96)) =
      0xffff*2^(len-96)+z.bits.toNat/2^(32-(len-96)) := by
    intro z
    have hpow : 2^32 = 2^(len-96)*2^(32-(len-96)) := by
      rw [← pow_add]
      congr 1
      omega
    rw [Ipv4Addr.toNat_bits_mapped,hpow,← mul_assoc,mul_comm,
      Nat.mul_add_div (Nat.two_pow_pos _)]
  rw [InBlock,InBlock,hk,hhead,hhead,Nat.add_left_cancel_iff]

theorem exists_mapped_of_inBlock {v : Ipv6Addr} {x : Ipv4Addr} {len : ℕ} (hlen : 96 ≤ len)
    (h : InBlock len v.bits x.mapped.bits) : ∃ y : Ipv4Addr, v = y.mapped := by
  have hhead := InBlock.mono hlen h
  refine ⟨v.lastV4,?_⟩
  obtain ⟨s0,s1,s2,s3,s4,s5,s6,s7⟩ := v
  have h0 := x.bits.isLt
  rw [InBlock,Ipv4Addr.toNat_bits_mapped,Ipv6Addr.toNat_bits] at hhead
  dsimp only at hhead
  simp only [Ipv4Addr.mapped,Ipv6Addr.lastV4,bytes_append,Ipv6Addr.mk.injEq,and_true,
    BitVec.toNat_eq,BitVec.ofNat_eq_ofNat,BitVec.reduceToNat]
  omega

theorem TrustedProxy.parse_range_len {s : String} {t : TrustedProxy}
    (h : TrustedProxy.parse s = .ok t) : t.range.2 ≤ t.range.1.familyMax := by
  cases t with
  | ip x => exact le_rfl
  | cidr x len => exact TrustedProxy.parse_cidr_len h

theorem exists_first_bit_ne (x : Ipv4Addr) {len : ℕ} (hlen : 1 ≤ len) :
    ∃ y : Ipv4Addr, ¬InBlock len x.bits y.bits := by
  have hflip : ∀ b : BitVec 8, (b ^^^ 128#8).toNat/128 ≠ b.toNat/128 := by decide
  refine ⟨⟨x.a ^^^ 128#8,x.b,x.c,x.d⟩,fun h => hflip x.a ?_⟩
  have hfirst := InBlock.mono hlen h
  rw [InBlock,Ipv4Addr.toNat_bits,Ipv4Addr.toNat_bits] at hfirst
  dsimp only at hfirst
  omega

theorem exists_last_bit_ne (x : Ipv4Addr) {len : ℕ} (hlen : len < 32) :
    ∃ y : Ipv4Addr, InBlock len x.bits y.bits ∧ ¬InBlock 32 x.bits y.bits := by
  have hflip : ∀ b : BitVec 8, (b ^^^ 1#8).toNat/2 = b.toNat/2 ∧ (b ^^^ 1#8).toNat ≠ b.toNat := by
    decide
  refine ⟨⟨x.a,x.b,x.c,x.d ^^^ 1#8⟩,?_,fun h => (hflip x.d).2 ?_⟩
  · have hd := (hflip x.d).1
    have hlast : InBlock 31 x.bits (Ipv4Addr.bits ⟨x.a,x.b,x.c,x.d ^^^ 1#8⟩) := by
      rw [InBlock,Ipv4Addr.toNat_bits,Ipv4Addr.toNat_bits]
      dsimp only
      omega
    exact InBlock.mono (by omega) hlast
  · rw [InBlock,Ipv4Addr.toNat_bits,Ipv4Addr.toNat_bits] at h
    dsimp only at h
    omega

@[simp] theorem normalizeIp_v4 (x : Ipv4Addr) : normalizeIp (.v4 x) = .v4 x := rfl

@[simp] theorem normalizeIp_mapped (x : Ipv4Addr) : normalizeIp (.v6 x.mapped) = .v4 x :=
  normalizeIp_of_embeds (.inr (.inl rfl))

theorem ipInPrefix_v4_v6 {v : Ipv6Addr} {y : Ipv4Addr} (h : normalizeIp (.v6 v) = .v4 y)
    (x : Ipv4Addr) (len : ℕ) :
    ipInPrefix (.v4 x) (.v6 v) len = true ↔ InBlock (min len 32) y.bits x.bits := by
  simp only [ipInPrefix,h,normalizeIp_v4,ipv4InPrefix_iff]

@[simp] theorem ipInPrefix_v4_v6_plain {v : Ipv6Addr} (h : normalizeIp (.v6 v) = .v6 v)
    (x : Ipv4Addr) (len : ℕ) : ipInPrefix (.v4 x) (.v6 v) len = false := by
  simp only [ipInPrefix,h,normalizeIp_v4]

theorem normalizeIp_v6_cases (v : Ipv6Addr) :
    normalizeIp (.v6 v) = .v4 v.lastV4 ∨ normalizeIp (.v6 v) = .v6 v := by
  by_cases hstray : v.StrayNat64
  · exact .inl (normalizeIp_of_stray hstray)
  · rw [normalizeIp_eq_decoded hstray,IpAddr.decoded]
    by_cases hlast : v.Embeds v.lastV4
    · exact .inl (if_pos hlast)
    · exact .inr (if_neg hlast)

/-- An entry whose address is read as IPv4 tells the spellings apart unless its prefix is
empty or the whole of an IPv4-mapped address. -/
theorem spellings_embedded {v : Ipv6Addr} {y : Ipv4Addr} (h : normalizeIp (.v6 v) = .v4 y)
    {len : ℕ} (hmax : len ≤ 128) :
    (∀ x : Ipv4Addr, ipInPrefix (.v4 x) (.v6 v) len = ipInPrefix (.v6 x.mapped) (.v6 v) len) ↔
      (∃ x : Ipv4Addr, v = x.mapped) ∧ len = 128 ∨ len = 0 := by
  have hmapped : ∀ x : Ipv4Addr, ipInPrefix (.v6 x.mapped) (.v6 v) len = true ↔
      InBlock len v.bits x.mapped.bits := by
    intro x
    rw [ipInPrefix,ipv6InPrefix_iff,min_eq_left hmax]
  simp only [Bool.eq_iff_iff,ipInPrefix_v4_v6 h,hmapped]
  constructor
  · intro hall
    by_contra hcon
    rw [not_or,not_and] at hcon
    obtain ⟨hwhole,hzero⟩ := hcon
    have hself := (hall y).mp (inBlock_self _ _)
    by_cases hlen : len ≤ 96
    · -- within 96 bits all spellings as IPv6 are alike
      obtain ⟨z,hz⟩ := exists_first_bit_ne y (by omega : 1 ≤ min len 32)
      exact hz ((hall z).mpr ((inBlock_mapped_of_le hlen z y _).mpr hself))
    · have hgt : 96 < len := not_le.mp hlen
      obtain ⟨u,rfl⟩ := exists_mapped_of_inBlock hgt.le hself
      have hu : y = u := IpAddr.v4.inj (h.symm.trans (normalizeIp_mapped u))
      obtain ⟨z,hz,hne⟩ := exists_last_bit_ne y (by have := hwhole ⟨u,rfl⟩; omega : len-96 < 32)
      refine hne ?_
      have hfull := (hall z).mpr ((inBlock_mapped_of_gt hgt hmax u z).mpr (hu ▸ hz))
      rwa [min_eq_right (by omega : 32 ≤ len)] at hfull
  · rintro (⟨⟨u,rfl⟩,rfl⟩ | rfl) x
    · rw [IpAddr.v4.inj (h.symm.trans (normalizeIp_mapped u)),
        inBlock_mapped_of_gt (by omega) le_rfl]
      exact Iff.rfl
    · exact iff_of_true (inBlock_zero _ _) (inBlock_zero _ _)

theorem spellings_plain {v : Ipv6Addr} (h : normalizeIp (.v6 v) = .v6 v) {len : ℕ}
    (hmax : len ≤ 128) :
    (∀ x : Ipv4Addr, ipInPrefix (.v4 x) (.v6 v) len = ipInPrefix (.v6 x.mapped) (.v6 v) len) ↔
      ¬InBlock (min len 96) v.bits mappedNet.bits := by
  have hcut : ∀ x : Ipv4Addr, InBlock len v.bits x.mapped.bits ↔
      InBlock (min len 96) v.bits mappedNet.bits := by
    intro x
    by_cases hlen : len ≤ 96
    · rw [min_eq_left hlen]
      exact inBlock_mapped_of_le hlen x ⟨0,0,0,0⟩ v.bits
    · have hno : ∀ k, 96 ≤ k → ∀ u : Ipv4Addr, ¬InBlock k v.bits u.mapped.bits := by
        intro k hk u hu
        obtain ⟨w,rfl⟩ := exists_mapped_of_inBlock hk hu
        rw [normalizeIp_mapped] at h
        exact absurd h (by simp)
      exact iff_of_false (hno len (by omega) x) (hno (min len 96) (by omega) ⟨0,0,0,0⟩)
  have hcovered : ∀ x : Ipv4Addr, ipInPrefix (.v6 x.mapped) (.v6 v) len = true ↔
      InBlock (min len 96) v.bits mappedNet.bits := by
    intro x
    rw [ipInPrefix,ipv6InPrefix_iff,min_eq_left hmax,hcut]
  simp only [ipInPrefix_v4_v6_plain h,eq_comm (a := false),← Bool.not_eq_true,hcovered]
  exact ⟨fun hall => hall ⟨0,0,0,0⟩,fun hnot _ => hnot⟩

/-- Re-spelling a peer changes nothing for the uniform entries, and for no others. -/
theorem coversSpellings_iff {s : String} {t : TrustedProxy} (h : TrustedProxy.parse s = .ok t) :
    t.CoversSpellings ↔ t.Uniform := by
  have hmax := TrustedProxy.parse_range_len h
  rw [TrustedProxy.CoversSpellings,TrustedProxy.Uniform]
  simp only [TrustedProxy.contains_eq]
  rcases hrange : t.range with ⟨net | v,len⟩
  · refine iff_true_intro fun x => ?_
    simp only [ipInPrefix,normalizeIp_v4,normalizeIp_mapped]
  · rw [hrange] at hmax
    obtain hread | hread := normalizeIp_v6_cases v
    · refine (spellings_embedded hread hmax).trans (or_congr Iff.rfl ?_)
      have hplain : ¬normalizeIp (.v6 v) = .v6 v := by rw [hread]; simp
      rw [and_iff_right ⟨v.lastV4,hread⟩,or_iff_left fun h => hplain h.1]
    · refine (spellings_plain hread hmax).trans ?_
      dsimp only
      have hnone : ¬∃ x, normalizeIp (.v6 v) = .v4 x := by rw [hread]; simp
      have hmapped : ¬∃ x : Ipv4Addr, v = x.mapped := by
        rintro ⟨x,rfl⟩
        exact hnone ⟨x,normalizeIp_mapped x⟩
      rw [or_iff_right fun h => hmapped h.1,or_iff_right fun h => hnone h.1,and_iff_right hread]

theorem coversSpellings_ten : TrustedProxy.CoversSpellings (.cidr (.v4 ⟨10,0,0,0⟩) 8) ∧
    TrustedProxy.CoversSpellings (.cidr (.v6 ⟨0x2001,0xdb8,0,0,0,0,0,0⟩) 32) := by
  have hplain : TrustedProxy.Uniform (.cidr (.v6 ⟨0x2001,0xdb8,0,0,0,0,0,0⟩) 32) :=
    .inr (.inr ⟨by decide,by decide⟩)
  exact ⟨(coversSpellings_iff (s := "10.0.0.0/8") rfl).mpr trivial,
    (coversSpellings_iff (s := "2001:db8::/32") rfl).mpr hplain⟩

/-- The IPv4-mapped /104 that spells 10.0.0.0/8 covers 10.1.2.3 under its IPv6 spelling only. -/
theorem not_coversSpellings_mapped_block :
    TrustedProxy.parse "::ffff:10.0.0.0/104" =
        .ok (.cidr (.v6 ⟨0,0,0,0,0,0xffff,0x0a00,0⟩) 104) ∧
      ¬TrustedProxy.CoversSpellings (.cidr (.v6 ⟨0,0,0,0,0,0xffff,0x0a00,0⟩) 104) := by
  refine ⟨rfl,fun h => ?_⟩
  exact absurd (h ⟨10,1,2,3⟩) (by decide)

end Ait
