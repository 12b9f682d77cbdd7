import Ait.AddressText

/-!
# Address ranges

Reading an address or a CIDR range from text, and the check that decides whether
the proxy may connect to an address.
-/

namespace Ait

/-- A reader takes characters off the front of its input and answers with the rest. -/
abbrev Reader (α : Type) := List Char → Option (α × List Char)

def readGivenChar (target : Char) : Reader Unit
  | c::rest => if c = target then some ((),rest) else none
  | [] => none

def readSeparator {α : Type} (sep : Char) (index : ℕ) (inner : Reader α) : Reader α := fun s =>
  if index > 0 then (readGivenChar sep s).bind fun r => inner r.2 else inner s

def toDigit (radix : ℕ) (c : Char) : Option ℕ :=
  let v :=
    if '0' ≤ c ∧ c ≤ '9' then some (c.toNat - '0'.toNat)
    else if 'a' ≤ c ∧ c ≤ 'z' then some (c.toNat - 'a'.toNat + 10)
    else if 'A' ≤ c ∧ c ≤ 'Z' then some (c.toNat - 'A'.toNat + 10)
    else none
  v.filter (· < radix)

/-- A number of at most `maxDigits` digits that is not above `bound`. -/
def readNumber (radix maxDigits bound : ℕ) (allowZeroPrefix : Bool) : Reader ℕ := fun s =>
  let digits := s.takeWhile fun c => (toDigit radix c).isSome
  let value := (digits.filterMap (toDigit radix)).foldl (fun acc d => acc*radix+d) 0
  if digits = [] ∨ digits.length > maxDigits ∨ value > bound then none
  else if ¬allowZeroPrefix ∧ digits.head? = some '0' ∧ digits.length > 1 then none
  else some (value,s.drop digits.length)

def readIpv4Addr : Reader Ipv4Addr := fun s => do
  let octet := readNumber 10 3 255 false
  let (a,s) ← octet s
  let (b,s) ← readSeparator '.' 1 octet s
  let (c,s) ← readSeparator '.' 2 octet s
  let (d,s) ← readSeparator '.' 3 octet s
  return (⟨.ofNat 8 a,.ofNat 8 b,.ofNat 8 c,.ofNat 8 d⟩,s)

/-- Groups until none are left to read; an IPv4 address may stand for the last two of the
text, and the answer says whether one did. -/
def readGroups : ℕ → ℕ → List Char → List (BitVec 16) × Bool × List Char
  | 0, _, s => ([],false,s)
  | left+1, i, s =>
    let embedded := if left > 0 then readSeparator ':' i readIpv4Addr s else none
    match embedded with
    | some (x,rest) => ([x.a ++ x.b,x.c ++ x.d],true,rest)
    | none =>
      match readSeparator ':' i (readNumber 16 4 65535 true) s with
      | some (g,rest) =>
        let (gs,v4,rest) := readGroups left (i+1) rest
        (.ofNat 16 g::gs,v4,rest)
      | none => ([],false,s)

def Ipv6Addr.ofSegments : List (BitVec 16) → Option Ipv6Addr
  | [s0,s1,s2,s3,s4,s5,s6,s7] => some ⟨s0,s1,s2,s3,s4,s5,s6,s7⟩
  | _ => none

/-- The groups before `::` and after it; `::` stands for at least one group. -/
def readIpv6Addr : Reader Ipv6Addr := fun s => do
  let (head,headIpv4,s) := readGroups 8 0 s
  if head.length = 8 then
    let x ← Ipv6Addr.ofSegments head
    return (x,s)
  else
    if headIpv4 then none
    let (_,s) ← readGivenChar ':' s
    let (_,s) ← readGivenChar ':' s
    let limit := 8-(head.length+1)
    let (tail,_,s) := readGroups limit 0 s
    let x ← Ipv6Addr.ofSegments (head ++ List.replicate (8-head.length-tail.length) 0 ++ tail)
    return (x,s)

def readIpAddr : Reader IpAddr := fun s =>
  match readIpv4Addr s with
  | some (x,rest) => some (.v4 x,rest)
  | none => (readIpv6Addr s).map fun (x,rest) => (.v6 x,rest)

/-- `IpAddr::from_str`, which consumes its whole input. -/
def IpAddr.fromStr (s : List Char) : Option IpAddr :=
  match readIpAddr s with
  | some (x,[]) => some x
  | _ => none

/-- `str::parse::<u8>`. -/
def parseU8 (s : List Char) : Option ℕ :=
  let digits := match s with
    | '+'::rest => rest
    | _ => s
  if digits = [] ∨ ¬digits.all Char.isDigit then none
  else
    let value := (digits.filterMap (toDigit 10)).foldl (fun acc d => acc*10+d) 0
    if value > 255 then none else some value

/-- `Ipv6Addr::to_ipv4`: IPv4-mapped and IPv4-compatible addresses. -/
def Ipv6Addr.toIpv4 (x : Ipv6Addr) : Option Ipv4Addr :=
  if x.s0 = 0 ∧ x.s1 = 0 ∧ x.s2 = 0 ∧ x.s3 = 0 ∧ x.s4 = 0 ∧ (x.s5 = 0 ∨ x.s5 = 0xffff) then
    some ⟨highByte x.s6,lowByte x.s6,highByte x.s7,lowByte x.s7⟩
  else none

/-- The address a connection reaches: IPv4 inside IPv6, NAT64 included, is IPv4. -/
def normalizeIp : IpAddr → IpAddr
  | .v4 x => .v4 x
  | .v6 x =>
    match x.toIpv4 with
    | some v4 => .v4 v4
    | none =>
      if x.s0 = 0x0064 ∧ x.s1 = 0xff9b ∧ x.s2 = 0 ∧ x.s3 = 0 then
        .v4 ⟨highByte x.s6,lowByte x.s6,highByte x.s7,lowByte x.s7⟩
      else .v6 x

def isBlockedV4 (ip : Ipv4Addr) : Bool :=
  let a := ip.a.toNat
  let b := ip.b.toNat
  a = 0 ∨ a = 10 ∨ a = 127 ∨ a = 169 ∧ b = 254 ∨ a = 172 ∧ 16 ≤ b ∧ b ≤ 31 ∨
    a = 192 ∧ b = 168 ∨ a = 100 ∧ 64 ≤ b ∧ b ≤ 127 ∨ a = 198 ∧ b = 18

/-- Unique local and link-local; loopback is IPv4 by the time it gets here. -/
def isBlockedV6 (ip : Ipv6Addr) : Bool :=
  ip.s0 &&& 0xfe00 = 0xfc00 ∨ ip.s0 &&& 0xffc0 = 0xfe80

def isBlockedIp : IpAddr → Bool
  | .v4 ip => isBlockedV4 ip
  | .v6 ip => isBlockedV6 ip

def ipv4InPrefix (ip pre : Ipv4Addr) (len : ℕ) : Bool :=
  if len = 0 then true
  else
    let mask := BitVec.allOnes 32 <<< (32-len)
    ip.bits &&& mask = pre.bits &&& mask

def ipv6InPrefix (ip pre : Ipv6Addr) (len : ℕ) : Bool :=
  if len = 0 then true
  else
    let mask := BitVec.allOnes 128 <<< (128-len)
    ip.bits &&& mask = pre.bits &&& mask

/-- Families are compared as written, and canonicalized only when they disagree. -/
def ipInPrefix (ip pre : IpAddr) (len : ℕ) : Bool :=
  match ip,pre with
  | .v4 ip,.v4 pre => ipv4InPrefix ip pre (min len 32)
  | .v6 ip,.v6 pre => ipv6InPrefix ip pre (min len 128)
  | ip,pre =>
    match normalizeIp ip,normalizeIp pre with
    | .v4 ip,.v4 pre => ipv4InPrefix ip pre (min len 32)
    | .v6 ip,.v6 pre => ipv6InPrefix ip pre (min len 128)
    | _,_ => false

def splitOnce (sep : Char) (s : List Char) : List Char × Option (List Char) :=
  match s.dropWhile (· ≠ sep) with
  | _::rest => (s.takeWhile (· ≠ sep),some rest)
  | [] => (s,none)

/-- A range without a prefix length is one address; one that does not parse matches nothing. -/
def ipInCidr (ip : IpAddr) (cidr : String) : Bool :=
  let (addr,prefixLen) := splitOnce '/' cidr.toList
  match IpAddr.fromStr addr with
  | none => false
  | some cidrAddr =>
    let familyMax := match cidrAddr with
      | .v4 _ => 32
      | .v6 _ => 128
    match prefixLen with
    | none => ipInPrefix ip cidrAddr familyMax
    | some p =>
      match parseU8 p with
      | some len => if len ≤ familyMax then ipInPrefix ip cidrAddr len else false
      | none => false

/-- Inside an allowed range, or outside every blocked one. -/
def isAllowed (ip : IpAddr) (allowedCidrs : List String) : Bool :=
  let ip := normalizeIp ip
  allowedCidrs.any (ipInCidr ip) || !isBlockedIp ip

theorem isAllowed_mono {ip : IpAddr} {cidrs more : List String} (h : cidrs ⊆ more)
    (hip : isAllowed ip cidrs) : isAllowed ip more := by
  simp only [isAllowed,Bool.or_eq_true,List.any_eq_true] at hip ⊢
  obtain ⟨cidr,hmem,hin⟩ | hpublic := hip
  · exact .inl ⟨cidr,h hmem,hin⟩
  · exact .inr hpublic

@[simp] theorem isAllowed_normalizeIp (ip : IpAddr) (cidrs : List String) :
    isAllowed (normalizeIp ip) cidrs = isAllowed ip cidrs := by
  have hidem : normalizeIp (normalizeIp ip) = normalizeIp ip := by
    cases ip with
    | v4 x => rfl
    | v6 x =>
      cases hx : x.toIpv4 with
      | some v4 => simp only [normalizeIp,hx]
      | none =>
        by_cases h64 : x.s0 = 0x0064 ∧ x.s1 = 0xff9b ∧ x.s2 = 0 ∧ x.s3 = 0
        · simp only [normalizeIp,hx,if_pos h64]
        · simp only [normalizeIp,hx,if_neg h64]
  simp only [isAllowed,hidem]

example : IpAddr.fromStr "64:ff9b::127.0.0.1".toList =
    some (.v6 ⟨0x64,0xff9b,0,0,0,0,0x7f00,1⟩) := by decide

example : isAllowed (.v4 ⟨10,1,2,3⟩) ["fe80::/10","10.0.0.0/8"] = true := by decide

end Ait
