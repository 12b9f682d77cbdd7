import Mathlib

/-!
# Addresses and HTTP clients

IP addresses as the standard library splits them, and the part of an HTTP client
that decides where its connections go.
-/

namespace Ait

/-- The four octets, most significant first. -/
structure Ipv4Addr where
  a : BitVec 8
  b : BitVec 8
  c : BitVec 8
  d : BitVec 8
  deriving DecidableEq

/-- The eight 16-bit segments, most significant first. -/
structure Ipv6Addr where
  s0 : BitVec 16
  s1 : BitVec 16
  s2 : BitVec 16
  s3 : BitVec 16
  s4 : BitVec 16
  s5 : BitVec 16
  s6 : BitVec 16
  s7 : BitVec 16
  deriving DecidableEq

inductive IpAddr
  | v4 (addr : Ipv4Addr)
  | v6 (addr : Ipv6Addr)
  deriving DecidableEq

/-- `u32::from`. -/
def Ipv4Addr.bits (x : Ipv4Addr) : BitVec 32 := x.a ++ x.b ++ x.c ++ x.d

def Ipv6Addr.segments (x : Ipv6Addr) : List (BitVec 16) :=
  [x.s0,x.s1,x.s2,x.s3,x.s4,x.s5,x.s6,x.s7]

/-- `u128::from`. -/
def Ipv6Addr.bits (x : Ipv6Addr) : BitVec 128 :=
  x.s0 ++ x.s1 ++ x.s2 ++ x.s3 ++ x.s4 ++ x.s5 ++ x.s6 ++ x.s7

theorem Ipv6Addr.segments_injective : Function.Injective Ipv6Addr.segments := by
  rintro ⟨a0,a1,a2,a3,a4,a5,a6,a7⟩ ⟨b0,b1,b2,b3,b4,b5,b6,b7⟩ h
  simp only [segments,List.cons.injEq,and_true] at h
  obtain ⟨rfl,rfl,rfl,rfl,rfl,rfl,rfl,rfl⟩ := h
  rfl

structure SocketAddr where
  ip : IpAddr
  port : BitVec 16
  deriving DecidableEq

/-- A client is known by its connect timeout and by the `resolve` calls its builder
received, in order. -/
structure Client where
  connectTimeoutSecs : ℕ
  resolves : List (String × SocketAddr)
  deriving DecidableEq

end Ait
