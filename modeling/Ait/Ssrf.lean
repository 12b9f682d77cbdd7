import Ait.AppState
import Ait.Cidr

/-!
# Checking and pinning an upstream

`resolveAndCheck` resolves the host of a URL and refuses blocked addresses,
`pinnedClient` builds the client that can only reach the addresses it was given.
The answer of a DNS lookup, the clock and whether a client could be built are
arguments.
-/

namespace Ait

/-- The text of a host name: none of the characters that delimit a host. -/
structure DomainName where
  text : List Char
  nonempty : text ≠ []
  plain : ∀ c ∈ text, c ∉ [':','[',']']

inductive Host
  | domain (name : DomainName)
  | ipv4 (addr : Ipv4Addr)
  | ipv6 (addr : Ipv6Addr)

/-- What the modelled functions read of a parsed URL. -/
structure Url where
  scheme : String
  host : Option Host
  port : Option (BitVec 16)

namespace Url

def hostStr (url : Url) : Option (List Char) :=
  url.host.map fun
    | .domain name => name.text
    | .ipv4 addr => addr.text
    | .ipv6 addr => '['::addr.urlText ++ [']']

def knownPort (scheme : String) : Option (BitVec 16) :=
  if scheme = "http" ∨ scheme = "ws" then some 80
  else if scheme = "https" ∨ scheme = "wss" then some 443
  else if scheme = "ftp" then some 21
  else none

def portOrKnownDefault (url : Url) : Option (BitVec 16) :=
  url.port.or (knownPort url.scheme)

def bareHost (url : Url) : Option (List Char) :=
  url.hostStr.map fun host =>
    ((host.dropWhile (· = '[')).reverse.dropWhile (· = ']')).reverse

end Url

inductive SsrfDeny
  | noHost
  | dnsFailed (error : String)
  | blocked
  deriving DecidableEq

abbrev DnsCache := FiniteMap String (List IpAddr × Instant)

/-- The cached addresses while they are fresh, the answer of a lookup otherwise. -/
def resolveWithCache (host : String) (cache : DnsCache) (answer : Except String (List IpAddr))
    (now : Instant) : Except String (List IpAddr) :=
  let lookup := answer.mapError fun e => "DNS lookup failed: " ++ e
  match cache.get host with
  | some (ips,stamp) => if elapsed stamp now < cacheTtl then .ok ips else lookup
  | none => lookup

/-- The addresses are stored again whether they came from the cache or from a lookup. -/
def resolveAndCheck (url : Url) (allowedCidrs : List String) (dnsCache : DnsCache)
    (answer : Except String (List IpAddr)) (now : Instant) :
    Except SsrfDeny (List IpAddr) × DnsCache :=
  match url.bareHost with
  | none => (.error .noHost,dnsCache)
  | some host =>
    let key := String.ofList host
    match resolveWithCache key dnsCache answer now with
    | .error e => (.error (.dnsFailed e),dnsCache)
    | .ok ips =>
      if ips.all fun ip => isAllowed ip allowedCidrs then
        (.ok ips,dnsCache.insert key (ips,now))
      else (.error .blocked,dnsCache)

def upstreamRequestFailed : AitError := .upstreamError 502 "upstream request failed"

/-- `check_ssrf_config`: what a provider form is told. -/
def SsrfDeny.configError : SsrfDeny → AitError
  | .noHost => .badRequest "base_url must include a host"
  | .dnsFailed _ => .badRequest "base_url host could not be resolved"
  | .blocked => .badRequest "base_url resolves to a blocked address"

/-- Position in the order of `IpAddr`: IPv4 before IPv6. -/
def IpAddr.rank : IpAddr → ℕ
  | .v4 x => x.bits.toNat
  | .v6 x => 2^32+x.bits.toNat

def sortUnstable (ips : List IpAddr) : List IpAddr :=
  ips.insertionSort fun x y => x.rank ≤ y.rank

/-- `{host}:{port}:{pinned_ips}`. -/
def cacheKey (host : List Char) (port : BitVec 16) (ips : List IpAddr) : List Char :=
  host ++ ':'::(decimal port.toNat ++ ':'::[','].intercalate ((sortUnstable ips).map IpAddr.text))

namespace AppState

/-- `check_ssrf`: the proxy path is told nothing about the cause. -/
def checkSsrf (s : AppState) (url : Url) (answer : Except String (List IpAddr)) (now : Instant) :
    Except AitError (List IpAddr) × AppState :=
  let (r,dnsCache) := resolveAndCheck url s.config.ssrfAllowedCidrs s.ssrfDnsCache answer now
  (r.mapError fun _ => upstreamRequestFailed,{ s with ssrfDnsCache := dnsCache })

def checkSsrfConfig (s : AppState) (url : Url) (answer : Except String (List IpAddr))
    (now : Instant) : Except AitError Unit × AppState :=
  let (r,dnsCache) := resolveAndCheck url s.config.ssrfAllowedCidrs s.ssrfDnsCache answer now
  ((r.mapError SsrfDeny.configError).map fun _ => (),{ s with ssrfDnsCache := dnsCache })

/-- The client of an earlier request with the same key, while it is fresh. -/
def freshClient (s : AppState) (key : String) (now : Instant) : Option Client :=
  match s.pinnedClients.get key with
  | some (client,stamp) => if elapsed stamp now < cacheTtl then some client else none
  | none => none

/-- A client whose connections to `host` are resolved to `ips`. -/
def buildPinned (s : AppState) (host : List Char) (port : BitVec 16) (ips : List IpAddr) : Client where
  connectTimeoutSecs := s.config.connectTimeoutSecs
  resolves := ips.map fun ip => (String.ofList host,⟨ip,port⟩)

def pinnedClient (s : AppState) (url : Url) (verifiedIps : List IpAddr) (built : Bool)
    (now : Instant) : Except AitError Client × AppState :=
  match url.bareHost with
  | none => (.error upstreamRequestFailed,s)
  | some host =>
    let port := url.portOrKnownDefault.getD 80
    let key := String.ofList (cacheKey host port verifiedIps)
    match s.freshClient key now with
    | some client => (.ok client,s)
    | none =>
      -- without addresses the client would resolve the host again when it connects
      if verifiedIps = [] then (.error upstreamRequestFailed,s)
      else if ¬built then (.error upstreamRequestFailed,s)
      else
        let client := s.buildPinned host port verifiedIps
        (.ok client,{ s with pinnedClients := s.pinnedClients.insert key (client,now) })

end AppState

theorem resolveAndCheck_ok {url : Url} {cidrs : List String} {cache : DnsCache}
    {answer : Except String (List IpAddr)} {now : Instant} {ips : List IpAddr}
    (h : (resolveAndCheck url cidrs cache answer now).1 = .ok ips) :
    (∀ ip ∈ ips, isAllowed ip cidrs) ∧ ∃ host, url.bareHost = some host ∧
      resolveWithCache (String.ofList host) cache answer now = .ok ips ∧
      (resolveAndCheck url cidrs cache answer now).2 = cache.insert (String.ofList host) (ips,now) := by
  cases hhost : url.bareHost with
  | none => simp [resolveAndCheck,hhost] at h
  | some host =>
    cases hips : resolveWithCache (String.ofList host) cache answer now with
    | error e => simp [resolveAndCheck,hhost,hips] at h
    | ok found =>
      by_cases hall : found.all fun ip => isAllowed ip cidrs
      · simp only [resolveAndCheck,hhost,hips,hall,if_true] at h ⊢
        obtain rfl := Except.ok.inj h
        exact ⟨fun ip hip => List.all_eq_true.mp hall ip hip,host,rfl,hips,rfl⟩
      · simp [resolveAndCheck,hhost,hips,hall] at h

theorem resolveAndCheck_allowed {url : Url} {cidrs : List String} {cache : DnsCache}
    {answer : Except String (List IpAddr)} {now : Instant} {ips : List IpAddr} {host : List Char}
    (hhost : url.bareHost = some host)
    (hips : resolveWithCache (String.ofList host) cache answer now = .ok ips)
    (hall : ∀ ip ∈ ips, isAllowed ip cidrs) : resolveAndCheck url cidrs cache answer now =
      (.ok ips,cache.insert (String.ofList host) (ips,now)) := by
  have hall' : (ips.all fun ip => isAllowed ip cidrs) = true := List.all_eq_true.mpr hall
  simp [resolveAndCheck,hhost,hips,hall']

theorem resolveAndCheck_error {url : Url} {cidrs : List String} {cache : DnsCache}
    {answer : Except String (List IpAddr)} {now : Instant} {e : SsrfDeny}
    (h : (resolveAndCheck url cidrs cache answer now).1 = .error e) :
    (resolveAndCheck url cidrs cache answer now).2 = cache := by
  unfold resolveAndCheck at h ⊢
  split
  · rfl
  · rename_i host hhost
    dsimp only
    split
    · rfl
    · split
      · rename_i hips hall
        simp [hhost,hips,hall] at h
      · rfl

end Ait
