import Ait.Ssrf
import Ait.Transition

/-!
# How old a served DNS answer can be

Every request stores its addresses again under the current time, those it found in
the cache included, so the age of an entry says nothing about the age of the answer
behind it. Answers stay younger than `cacheTtl` when no chain of requests for one
host, each within `cacheTtl` of the one before, gets to span `cacheTtl`.
-/

namespace Ait
open Transition

def cachedAddresses (cache : DnsCache) (host : String) (now : Instant) : Option (List IpAddr) :=
  ((cache.get host).filter fun entry => elapsed entry.2 now < cacheTtl).map Prod.fst

theorem resolveWithCache_eq (host : String) (cache : DnsCache)
    (answer : Except String (List IpAddr)) (now : Instant) :
    resolveWithCache host cache answer now =
      match cachedAddresses cache host now with
      | some ips => .ok ips
      | none => answer.mapError fun e => "DNS lookup failed: " ++ e := by
  unfold resolveWithCache cachedAddresses
  cases cache.get host with
  | none => rfl
  | some entry =>
    by_cases h : elapsed entry.2 now < cacheTtl
    · simp [h,Option.filter_some]
    · simp [h,Option.filter_some]

@[simp] theorem cachedAddresses_eq_some {cache : DnsCache} {host : String} {now : Instant}
    {ips : List IpAddr} : cachedAddresses cache host now = some ips ↔
      ∃ stamp, cache.get host = some (ips,stamp) ∧ elapsed stamp now < cacheTtl := by
  simp [cachedAddresses,Option.filter_eq_some_iff]

theorem lt_of_elapsed {since now ttl : ℕ} (h : elapsed since now < ttl) : now < since+ttl := by
  unfold elapsed at h
  omega

structure Answer where
  host : String
  ips : List IpAddr
  time : Instant
  deriving DecidableEq

/-- A server that resolves hosts, with a record of what was asked, looked up and served. -/
structure Resolver where
  app : AppState
  clock : Instant
  asked : List (String × Instant)
  lookups : List Answer
  served : List Answer

namespace Resolver

inductive Op
  | advance (elapsed : ℕ)
  | check (url : Url) (answer : Except String (List IpAddr))
  | cleanup
  | clear

def start (config : ConfigApp) (db : Database) (clock : Instant) : Resolver :=
  ⟨AppState.new config db,clock,[],[],[]⟩

def lookedUp (s : Resolver) (host : String) (answer : Except String (List IpAddr)) : List Answer :=
  match cachedAddresses s.app.ssrfDnsCache host s.clock,answer with
  | none,.ok ips => [⟨host,ips,s.clock⟩]
  | _,_ => []

def check (s : Resolver) (url : Url) (answer : Except String (List IpAddr)) : Resolver :=
  let r := resolveAndCheck url s.app.config.ssrfAllowedCidrs s.app.ssrfDnsCache answer s.clock
  match url.bareHost with
  | none => s
  | some host =>
    let host := String.ofList host
    { s with
      app := { s.app with ssrfDnsCache := r.2 }
      asked := (host,s.clock)::s.asked
      lookups := s.lookedUp host answer ++ s.lookups
      served := match r.1 with
        | .ok ips => ⟨host,ips,s.clock⟩::s.served
        | .error _ => s.served }

def perform (s : Resolver) : Op → Resolver
  | .advance d => { s with clock := s.clock+d }
  | .check url answer => s.check url answer
  | .cleanup => { s with app := cleanupCaches s.app s.clock s.app.config.cacheMaxEntries }
  | .clear => { s with app := { s.app with ssrfDnsCache := .empty } }

def step (s : Resolver) (op : Op) : Option Resolver := some (s.perform op)

/-- Every answer served came from a lookup younger than `cacheTtl`. -/
def Fresh (s : Resolver) : Prop := ∀ a ∈ s.served, ∃ l ∈ s.lookups,
  l.host = a.host ∧ l.ips = a.ips ∧ l.time ≤ a.time ∧ a.time < l.time+cacheTtl

def times (s : Resolver) (host : String) : List Instant :=
  (s.asked.filter fun e => e.1 = host).map Prod.snd

/-- Where a chain of requests that reaches `now` begins, each within `cacheTtl` of the next. -/
def chainStart : List Instant → Instant → Instant
  | [], now => now
  | t::ts, now => if now < t+cacheTtl then chainStart ts t else now

/-- No chain of requests for the host spans `cacheTtl`. -/
def Spaced (s : Resolver) : Op → Prop
  | .check url _ => ∀ host ∈ url.bareHost,
    s.clock < chainStart (s.times (String.ofList host)) s.clock+cacheTtl
  | _ => True

instance (s : Resolver) : (op : Op) → Decidable (s.Spaced op)
  | .check url _ => inferInstanceAs (Decidable (∀ host ∈ url.bareHost,
      s.clock < chainStart (s.times (String.ofList host)) s.clock+cacheTtl))
  | .advance _ => .isTrue trivial
  | .cleanup => .isTrue trivial
  | .clear => .isTrue trivial

theorem chainStart_le {ts : List Instant} {now : Instant} (h : ∀ t ∈ ts, t ≤ now)
    (hsorted : ts.Pairwise (· ≥ ·)) : chainStart ts now ≤ now := by
  induction ts generalizing now with
  | nil => exact le_refl now
  | cons t ts ih =>
    unfold chainStart
    obtain ⟨hhead,htail⟩ := List.pairwise_cons.mp hsorted
    have ht : t ≤ now := h t (by simp)
    split
    · exact (ih hhead htail).trans ht
    · exact le_refl now

section Check

variable (s : Resolver) {url : Url} {host : List Char} (hhost : url.bareHost = some host)
  (answer : Except String (List IpAddr))
include hhost

theorem check_clock : (s.check url answer).clock = s.clock := by simp [check,hhost]

theorem check_config : (s.check url answer).app.config = s.app.config := by simp [check,hhost]

theorem check_asked :
    (s.check url answer).asked = (String.ofList host,s.clock)::s.asked := by simp [check,hhost]

theorem check_lookups :
    (s.check url answer).lookups = s.lookedUp (String.ofList host) answer ++ s.lookups := by
  simp [check,hhost]

theorem check_times (other : String) : (s.check url answer).times other =
    if String.ofList host = other then s.clock::s.times other else s.times other := by
  rw [times,check_asked s hhost answer]
  by_cases h : String.ofList host = other
  · simp [times,h]
  · simp [times,h]

/-- A request is refused and leaves the cache alone, or it is served addresses that are allowed
and stores them under the current time. -/
theorem check_cases :
    ((s.check url answer).app.ssrfDnsCache = s.app.ssrfDnsCache ∧
      (s.check url answer).served = s.served) ∨
    ∃ ips, resolveWithCache (String.ofList host) s.app.ssrfDnsCache answer s.clock = .ok ips ∧
      (s.check url answer).app.ssrfDnsCache =
        s.app.ssrfDnsCache.insert (String.ofList host) (ips,s.clock) ∧
      (s.check url answer).served = ⟨String.ofList host,ips,s.clock⟩::s.served := by
  cases hr : (resolveAndCheck url s.app.config.ssrfAllowedCidrs s.app.ssrfDnsCache answer
      s.clock).1 with
  | error e =>
    have hcache := resolveAndCheck_error hr
    exact .inl ⟨by simp [check,hhost,hcache],by simp [check,hhost,hr]⟩
  | ok ips =>
    obtain ⟨-,host',hhost',hips,hcache⟩ := resolveAndCheck_ok hr
    obtain rfl := Option.some.inj (hhost.symm.trans hhost')
    exact .inr ⟨ips,hips,by simp [check,hhost,hcache],by simp [check,hhost,hr]⟩

end Check

/-- Behind an entry stands a lookup: it was made no earlier than the chain of requests that
would reach the entry while it is fresh. -/
def Backed (s : Resolver) (host : String) (e : List IpAddr × Instant) : Prop :=
  e.2 ≤ s.clock ∧ ∃ l ∈ s.lookups, l.host = host ∧ l.ips = e.1 ∧ l.time ≤ s.clock ∧
    ∀ now, s.clock ≤ now → now < e.2+cacheTtl → chainStart (s.times host) now ≤ l.time

/-- What holds along a run: the requests lie in the past, every entry is backed by a lookup,
and every answer served was fresh. -/
structure Warm (s : Resolver) : Prop where
  sorted : s.asked.Pairwise fun e e' => e.2 ≥ e'.2
  past : ∀ e ∈ s.asked, e.2 ≤ s.clock
  entries : s.app.ssrfDnsCache.Holds s.Backed
  fresh : s.Fresh

namespace Warm

variable {s : Resolver}

theorem start (config : ConfigApp) (db : Database) (clock : Instant) :
    Warm (Resolver.start config db clock) where
  sorted := .nil
  past := nofun
  entries := FiniteMap.Holds.empty
  fresh := nofun

theorem advance (h : Warm s) (d : ℕ) : Warm { s with clock := s.clock+d } where
  sorted := h.sorted
  past := fun e he => (h.past e he).trans (Nat.le_add_right _ d)
  entries := by
    refine h.entries.mono ?_
    rintro host e ⟨hstamp,l,hl,hhost,hips,htime,hchain⟩
    have hlater : s.clock ≤ s.clock+d := Nat.le_add_right _ d
    refine ⟨hstamp.trans hlater,l,hl,hhost,hips,htime.trans hlater,?_⟩
    intro now hnow hfresh
    exact hchain now (hlater.trans hnow) hfresh
  fresh := h.fresh

theorem drop (h : Warm s) {app : AppState}
    (hsub : ∀ k e, app.ssrfDnsCache.get k = some e → s.app.ssrfDnsCache.get k = some e) :
    Warm { s with app := app } where
  sorted := h.sorted
  past := h.past
  entries := h.entries.of_sub hsub
  fresh := h.fresh

theorem chainStart_le (h : Warm s) (host : String) :
    chainStart (s.times host) s.clock ≤ s.clock := by
  refine Resolver.chainStart_le ?_ ((h.sorted.filter _).map Prod.snd fun _ _ hge => hge)
  intro t ht
  obtain ⟨e,he,rfl⟩ := List.mem_map.mp ht
  exact h.past e (List.mem_of_mem_filter he)

/-- What a request is served comes from the cache or from a lookup it makes itself. In both
cases the lookup is no older than the chain of requests it ends. -/
theorem served (h : Warm s) {host : String} {answer : Except String (List IpAddr)}
    {ips : List IpAddr}
    (hips : resolveWithCache host s.app.ssrfDnsCache answer s.clock = .ok ips) :
    ∃ l ∈ s.lookedUp host answer ++ s.lookups, l.host = host ∧ l.ips = ips ∧ l.time ≤ s.clock ∧
      chainStart (s.times host) s.clock ≤ l.time := by
  rw [resolveWithCache_eq] at hips
  cases hcached : cachedAddresses s.app.ssrfDnsCache host s.clock with
  | some found =>
    simp only [hcached] at hips
    obtain rfl := Except.ok.inj hips
    obtain ⟨stamp,hentry,hfresh⟩ := cachedAddresses_eq_some.mp hcached
    obtain ⟨hstamp,l,hl,hhost,hfound,htime,hchain⟩ := h.entries _ _ hentry
    exact ⟨l,List.mem_append_right _ hl,hhost,hfound,htime,
      hchain s.clock (le_refl _) (lt_of_elapsed hfresh)⟩
  | none =>
    cases answer with
    | error e => simp [hcached,Except.mapError] at hips
    | ok found =>
      simp only [hcached,Except.mapError] at hips
      obtain rfl := Except.ok.inj hips
      refine ⟨⟨host,found,s.clock⟩,?_,rfl,rfl,le_refl _,h.chainStart_le host⟩
      simp [lookedUp,hcached]

section Check

variable {url : Url} {host : List Char} (hhost : url.bareHost = some host)
  {answer : Except String (List IpAddr)}
include hhost

/-- A request that leaves an entry alone only lengthens the chain that kept it warm. -/
theorem kept (h : Warm s) {other : String} {e : List IpAddr × Instant}
    (he : s.app.ssrfDnsCache.get other = some e) : (s.check url answer).Backed other e := by
  obtain ⟨hstamp,l,hl,hlhost,hlips,htime,hchain⟩ := h.entries _ _ he
  rw [Backed,check_clock s hhost,check_lookups s hhost,check_times s hhost]
  refine ⟨hstamp,l,List.mem_append_right _ hl,hlhost,hlips,htime,?_⟩
  intro now hnow hfresh
  split
  · have hreached : now < s.clock+cacheTtl := hfresh.trans_le (Nat.add_le_add_right hstamp _)
    simp only [chainStart,hreached,if_true]
    exact hchain s.clock (le_refl _) (hnow.trans_lt hfresh)
  · exact hchain now hnow hfresh

theorem stored (h : Warm s) {ips : List IpAddr}
    (hips : resolveWithCache (String.ofList host) s.app.ssrfDnsCache answer s.clock = .ok ips) :
    (s.check url answer).Backed (String.ofList host) (ips,s.clock) := by
  obtain ⟨l,hl,hlhost,hlips,htime,hchain⟩ := h.served hips
  rw [Backed,check_clock s hhost,check_lookups s hhost,check_times s hhost]
  refine ⟨le_refl _,l,hl,hlhost,hlips,htime,?_⟩
  intro now hnow hfresh
  simp only [if_true,chainStart,hfresh]
  exact hchain

theorem check (h : Warm s) (hspaced : s.Spaced (.check url answer)) :
    Warm (s.check url answer) where
  sorted := by
    rw [check_asked s hhost]
    exact List.pairwise_cons.mpr ⟨h.past,h.sorted⟩
  past := by
    rw [check_asked s hhost,check_clock s hhost]
    intro e he
    obtain rfl | he := List.mem_cons.mp he
    · exact le_refl _
    · exact h.past e he
  entries := by
    intro other e he
    obtain ⟨hcache,-⟩ | ⟨ips,hips,hcache,-⟩ := check_cases s hhost answer
    · exact h.kept hhost (hcache ▸ he)
    · rw [hcache,FiniteMap.get_insert] at he
      split at he
      · rename_i hsame
        obtain rfl := Option.some.inj he
        exact hsame ▸ h.stored hhost hips
      · exact h.kept hhost he
  fresh := by
    have hold : ∀ a ∈ s.served, ∃ l ∈ (s.check url answer).lookups, l.host = a.host ∧
        l.ips = a.ips ∧ l.time ≤ a.time ∧ a.time < l.time+cacheTtl := by
      intro a ha
      obtain ⟨l,hl,hrest⟩ := h.fresh a ha
      exact ⟨l,check_lookups s hhost answer ▸ List.mem_append_right _ hl,hrest⟩
    intro a ha
    obtain ⟨-,hserved⟩ | ⟨ips,hips,-,hserved⟩ := check_cases s hhost answer
    · exact hold a (hserved ▸ ha)
    · rw [hserved] at ha
      obtain rfl | ha := List.mem_cons.mp ha
      · obtain ⟨l,hl,hlhost,hlips,htime,hchain⟩ := h.served hips
        exact ⟨l,check_lookups s hhost answer ▸ hl,hlhost,hlips,htime,
          (hspaced host hhost).trans_le (Nat.add_le_add_right hchain _)⟩
      · exact hold a ha

end Check

theorem perform (h : Warm s) {op : Op} (hspaced : s.Spaced op) : Warm (s.perform op) := by
  cases op with
  | advance d => exact h.advance d
  | check url answer =>
    cases hhost : url.bareHost with
    | none => simpa [Resolver.perform,Resolver.check,hhost] using h
    | some host => exact h.check hhost hspaced
  | cleanup =>
    refine h.drop fun k e hk => ?_
    simp only [cleanupCaches,cleanupCache,FiniteMap.get_retain] at hk
    exact (Option.filter_eq_some_iff.mp hk).1
  | clear => exact h.drop fun k e hk => by simp at hk

end Warm

/-- In a run where no chain of requests for one host spans `cacheTtl`, whatever DNS answers and
whenever the caches are swept, every answer served is younger than `cacheTtl`. -/
theorem spaced_answers_fresh (config : ConfigApp) (db : Database) (clock : Instant)
    (ops : List Op) (t : Resolver) (hrun : exec step (start config db clock) ops = some t)
    (hspaced : Along step Spaced (start config db clock) ops) : t.Fresh := by
  have hstep : ∀ s op t, step s op = some t → Spaced s op → Warm s → Warm t := by
    intro s op t hst hsp hs
    obtain rfl := Option.some.inj hst
    exact hs.perform hsp
  exact (exec_invariant hstep hrun hspaced (Warm.start config db clock)).fresh

/-- Requests in close succession, and one host swept in between: every answer is fresh. -/
theorem spaced_answers_fresh_swept :
    let config : ConfigApp :=
      { authEnabled := true,cacheMaxEntries := 1,connectTimeoutSecs := 5,ssrfAllowedCidrs := [] }
    let url : Url := { scheme := "https",host := some (.ipv4 ⟨1,1,1,1⟩),port := none }
    let answer : Except String (List IpAddr) := .ok [.v4 ⟨1,1,1,1⟩]
    let ops : List Op := [.check url answer,.advance (seconds 200),.check url answer,.cleanup,
      .advance (seconds 400),.check url answer]
    let t := ops.foldl perform (start config ⟨⟨[],[],[]⟩,by decide⟩ 0)
    t.served.length = 3 ∧ t.Fresh := by
  intro config url answer ops t
  refine ⟨by decide +kernel,?_⟩
  have hspaced : Along step Spaced (start config ⟨⟨[],[],[]⟩,by decide⟩ 0) ops := by decide +kernel
  exact spaced_answers_fresh config ⟨⟨[],[],[]⟩,by decide⟩ 0 ops t (exec_total perform _ ops) hspaced

section Chain

variable {url : Url} {host : List Char} {ips : List IpAddr}

/-- A request that finds a fresh entry makes no lookup, and the entry's time is now. -/
theorem check_hit {s : Resolver} (hhost : url.bareHost = some host) {stamp : Instant}
    (hentry : s.app.ssrfDnsCache.get (String.ofList host) = some (ips,stamp))
    (hfresh : elapsed stamp s.clock < cacheTtl)
    (hall : ∀ ip ∈ ips, isAllowed ip s.app.config.ssrfAllowedCidrs)
    (answer : Except String (List IpAddr)) :
    (s.check url answer).lookups = s.lookups ∧
      (s.check url answer).app.ssrfDnsCache.get (String.ofList host) = some (ips,s.clock) ∧
      (s.check url answer).served = ⟨String.ofList host,ips,s.clock⟩::s.served := by
  have hcached := cachedAddresses_eq_some.mpr ⟨stamp,hentry,hfresh⟩
  have hips : resolveWithCache (String.ofList host) s.app.ssrfDnsCache answer s.clock = .ok ips := by
    rw [resolveWithCache_eq,hcached]
  have hr := resolveAndCheck_allowed hhost hips hall
  refine ⟨?_,by simp [check,hhost,hr],by simp [check,hhost,hr]⟩
  simp [check_lookups s hhost,lookedUp,hcached]

def chain (url : Url) : List (ℕ × Except String (List IpAddr)) → List Op
  | [] => []
  | (d,answer)::rest => .advance d::.check url answer::chain url rest

theorem chain_served (hhost : url.bareHost = some host)
    {rest : List (ℕ × Except String (List IpAddr))} (hclose : ∀ r ∈ rest, r.1 < cacheTtl)
    {s : Resolver} (hentry : s.app.ssrfDnsCache.get (String.ofList host) = some (ips,s.clock))
    (hall : ∀ ip ∈ ips, isAllowed ip s.app.config.ssrfAllowedCidrs)
    (hserved : ⟨String.ofList host,ips,s.clock⟩ ∈ s.served) :
    let t := (chain url rest).foldl perform s
    t.lookups = s.lookups ∧
      ⟨String.ofList host,ips,s.clock+(rest.map Prod.fst).sum⟩ ∈ t.served ∧
      ∀ a ∈ t.served, a ∈ s.served ∨ a.host = String.ofList host ∧ a.ips = ips ∧
        s.clock ≤ a.time ∧ a.time ≤ s.clock+(rest.map Prod.fst).sum := by
  induction rest generalizing s with
  | nil => exact ⟨rfl,hserved,fun a ha => .inl ha⟩
  | cons r rest ih =>
    obtain ⟨d,answer⟩ := r
    let later : Resolver := { s with clock := s.clock+d }
    have hfresh : elapsed s.clock later.clock < cacheTtl := by
      have hd : d < cacheTtl := hclose (d,answer) (by simp)
      simpa [later,elapsed] using hd
    obtain ⟨hlookups,hentry',hserved'⟩ := check_hit (s := later) hhost hentry hfresh hall answer
    have hclock := check_clock later hhost answer
    have hconfig := check_config later hhost answer
    obtain ⟨h1,h2,h3⟩ := ih (fun r hr => hclose r (by simp [hr])) (hclock ▸ hentry')
      (hconfig ▸ hall) (hserved' ▸ hclock ▸ List.mem_cons_self)
    have hsum : later.clock+(rest.map Prod.fst).sum =
        s.clock+(((d,answer)::rest).map Prod.fst).sum := by simp [later,Nat.add_assoc]
    rw [hclock,hsum] at h2
    simp only [hclock,hsum] at h3
    refine ⟨h1.trans hlookups,h2,?_⟩
    intro a ha
    obtain hold | ⟨hahost,haips,hlow,hhigh⟩ := h3 a ha
    · rw [hserved'] at hold
      obtain rfl | hold := List.mem_cons.mp hold
      · exact .inr ⟨rfl,rfl,Nat.le_add_right _ _,by simp [later]⟩
      · exact .inl hold
    · exact .inr ⟨hahost,haips,(Nat.le_add_right _ d).trans hlow,hhigh⟩

/-- For requests each within `cacheTtl` of the one before, spanning less than `cacheTtl` is also
necessary. -/
theorem chain_fresh_iff (config : ConfigApp) (db : Database) (clock : Instant)
    (hhost : url.bareHost = some host) (hall : ∀ ip ∈ ips, isAllowed ip config.ssrfAllowedCidrs)
    {rest : List (ℕ × Except String (List IpAddr))} (hclose : ∀ r ∈ rest, r.1 < cacheTtl) :
    ((Op.check url (.ok ips)::chain url rest).foldl perform (start config db clock)).Fresh ↔
      (rest.map Prod.fst).sum < cacheTtl := by
  let s := (start config db clock).check url (.ok ips)
  have hmiss : cachedAddresses (start config db clock).app.ssrfDnsCache (String.ofList host) clock =
      none := rfl
  have hips : resolveWithCache (String.ofList host) (start config db clock).app.ssrfDnsCache
      (.ok ips) clock = .ok ips := rfl
  have hr := resolveAndCheck_allowed hhost hips hall
  have hclock : s.clock = clock := check_clock _ hhost _
  have hconfig : s.app.config = config := check_config _ hhost _
  have hentry : s.app.ssrfDnsCache.get (String.ofList host) = some (ips,s.clock) := by
    simp [s,check,hhost,start,AppState.new] at hr ⊢
    simp [hr]
  have hserved : s.served = [⟨String.ofList host,ips,s.clock⟩] := by
    simp [s,check,hhost,start,AppState.new] at hr ⊢
    simp [hr]
  have hlookups : s.lookups = [⟨String.ofList host,ips,s.clock⟩] := by
    rw [check_lookups _ hhost,hclock]
    rfl
  obtain ⟨h1,h2,h3⟩ := chain_served hhost hclose hentry (hconfig ▸ hall) (by simp [hserved])
  change ((chain url rest).foldl perform s).Fresh ↔ _
  constructor
  · intro hfresh
    obtain ⟨l,hl,-,-,-,hage⟩ := hfresh _ h2
    rw [h1,hlookups] at hl
    obtain rfl := List.mem_singleton.mp hl
    exact Nat.lt_of_add_lt_add_left hage
  · intro hspan a ha
    refine ⟨⟨String.ofList host,ips,s.clock⟩,by simp [h1,hlookups],?_⟩
    obtain hold | ⟨hahost,haips,hlow,hhigh⟩ := h3 a ha
    · rw [hserved] at hold
      obtain rfl := List.mem_singleton.mp hold
      exact ⟨rfl,rfl,le_refl _,Nat.lt_add_of_pos_right (by decide)⟩
    · exact ⟨hahost.symm,haips.symm,hlow,hhigh.trans_lt (Nat.add_lt_add_left hspan _)⟩

end Chain

/-- Three requests, each 200 s after the one before: the last is served an answer 400 s old,
though DNS has changed since. -/
theorem stale_answer_served :
    ¬∀ (config : ConfigApp) (db : Database) (clock : Instant) (ops : List Op) (t : Resolver),
      exec step (start config db clock) ops = some t → t.Fresh := by
  intro hanswers
  let config : ConfigApp :=
    { authEnabled := true,cacheMaxEntries := 10,connectTimeoutSecs := 5,ssrfAllowedCidrs := [] }
  let url : Url := { scheme := "https",host := some (.domain ⟨['a','i'],by simp,by simp⟩),port := none }
  let old : Except String (List IpAddr) := .ok [.v4 ⟨1,1,1,1⟩]
  let new : Except String (List IpAddr) := .ok [.v4 ⟨8,8,8,8⟩]
  let ops : List Op := [.check url old,.advance (seconds 200),.check url new,.advance (seconds 200),
    .check url new]
  let t := ops.foldl perform (start config ⟨⟨[],[],[]⟩,by decide⟩ 0)
  have hfresh := hanswers config ⟨⟨[],[],[]⟩,by decide⟩ 0 ops t (exec_total perform _ ops)
  have hlookups : t.lookups = [⟨"ai",[.v4 ⟨1,1,1,1⟩],0⟩] := by decide +kernel
  have hserved : ⟨"ai",[.v4 ⟨1,1,1,1⟩],seconds 400⟩ ∈ t.served := by decide +kernel
  obtain ⟨l,hl,-,-,-,hage⟩ := hfresh _ hserved
  rw [hlookups] at hl
  obtain rfl := List.mem_singleton.mp hl
  exact absurd hage (by decide)

end Resolver
end Ait
