import Ait.PinnedKey
import Ait.Transition

/-!
# Pinned upstream connections

Over every run of checks, pinned clients, cleanups and cleared caches, whatever
DNS answers: a cached address was allowed when it was stored, and the client a
request is given for a host without a colon can reach the addresses of that very
request and nothing else.
-/

namespace Ait
open Transition

inductive Egress
  | check (url : Url) (answer : Except String (List IpAddr)) (now : Instant)
  | checkConfig (url : Url) (answer : Except String (List IpAddr)) (now : Instant)
  | pin (url : Url) (ips : List IpAddr) (built : Bool) (now : Instant)
  | cleanup (now : Instant)
  | reap (now : Instant)
  | clear

namespace AppState

def egress (s : AppState) : Egress → AppState
  | .check url answer now => (s.checkSsrf url answer now).2
  | .checkConfig url answer now => (s.checkSsrfConfig url answer now).2
  | .pin url ips built now => (s.pinnedClient url ips built now).2
  | .cleanup now => cleanupCaches s now s.config.cacheMaxEntries
  | .reap now => cleanupNegatives s now
  | .clear => { s with ssrfDnsCache := .empty,pinnedClients := .empty }

def egressRun (s : AppState) (ops : List Egress) : AppState := ops.foldl egress s

end AppState

/-- The addresses a client may connect to when it is sent to `host`. -/
def Client.addressesFor (client : Client) (host : String) : List IpAddr :=
  client.resolves.filterMap fun r => if r.1 = host then some r.2.ip else none

/-- The client resolves `host` to `ips`, and nothing else. -/
def PinnedTo (client : Client) (host : List Char) (port : BitVec 16) (ips : List IpAddr) : Prop :=
  client.resolves = ips.map fun ip => (String.ofList host,⟨ip,port⟩)

theorem PinnedTo.addressesFor {client : Client} {host : List Char} {port : BitVec 16}
    {ips : List IpAddr} (h : PinnedTo client host port ips) :
    client.addressesFor (String.ofList host) = ips := by
  rw [Client.addressesFor,h,List.filterMap_map]
  simp

structure Guarded (config : ConfigApp) (s : AppState) : Prop where
  settings : s.config = config
  dns : s.ssrfDnsCache.Holds fun _ e => ∀ ip ∈ e.1, isAllowed ip config.ssrfAllowedCidrs
  clients : s.pinnedClients.Holds fun key e => ∃ url host port ips,
    Url.bareHost url = some host ∧ ips ≠ [] ∧ key = String.ofList (cacheKey host port ips) ∧
      PinnedTo e.1 host port ips

namespace Guarded

variable {config : ConfigApp} {s : AppState}

theorem new (config : ConfigApp) (db : Database) : Guarded config (AppState.new config db) where
  settings := rfl
  dns := FiniteMap.Holds.empty
  clients := FiniteMap.Holds.empty

theorem resolve (h : Guarded config s) (url : Url) (answer : Except String (List IpAddr))
    (now : Instant) : Guarded config { s with ssrfDnsCache :=
      (resolveAndCheck url s.config.ssrfAllowedCidrs s.ssrfDnsCache answer now).2 } where
  settings := h.settings
  clients := h.clients
  dns := by
    cases hr : (resolveAndCheck url s.config.ssrfAllowedCidrs s.ssrfDnsCache answer now).1 with
    | error e =>
      rw [resolveAndCheck_error hr]
      exact h.dns
    | ok ips =>
      obtain ⟨hall,host,-,-,hcache⟩ := resolveAndCheck_ok hr
      rw [hcache]
      exact h.dns.insert (h.settings ▸ hall)

theorem pin (h : Guarded config s) (url : Url) (ips : List IpAddr) (built : Bool) (now : Instant) :
    Guarded config (s.pinnedClient url ips built now).2 := by
  unfold AppState.pinnedClient
  split
  · exact h
  · rename_i host hhost
    dsimp only
    split
    · exact h
    · split
      · exact h
      · split
        · exact h
        · rename_i hne _
          exact ⟨h.settings,h.dns,h.clients.insert ⟨url,host,_,ips,hhost,hne,rfl,rfl⟩⟩

theorem egress (h : Guarded config s) (op : Egress) : Guarded config (s.egress op) := by
  cases op with
  | check url answer now => exact h.resolve url answer now
  | checkConfig url answer now => exact h.resolve url answer now
  | pin url ips built now => exact h.pin url ips built now
  | cleanup now => exact ⟨h.settings,holds_cleanupCache h.dns now _,h.clients⟩
  | reap now => exact ⟨h.settings,h.dns,h.clients.retain _⟩
  | clear => exact ⟨h.settings,FiniteMap.Holds.empty,FiniteMap.Holds.empty⟩

theorem egressRun (h : Guarded config s) (ops : List Egress) : Guarded config (s.egressRun ops) := by
  have hrun : exec (fun s op => some (AppState.egress s op)) s ops = some (s.egressRun ops) :=
    exec_total AppState.egress s ops
  have hstep : ∀ s op t, some (AppState.egress s op) = some t → Guarded config s →
      Guarded config t := by
    intro s op t hst hs
    obtain rfl := Option.some.inj hst
    exact hs.egress op
  exact exec_preserves hstep hrun h

/-- What stands under a key was built for a set of addresses with that key. -/
theorem freshClient_built (h : Guarded config s) {key : String} {now : Instant} {client : Client}
    (hfresh : s.freshClient key now = some client) :
    ∃ url host port pinned, Url.bareHost url = some host ∧ pinned ≠ [] ∧
      key = String.ofList (cacheKey host port pinned) ∧ PinnedTo client host port pinned := by
  unfold AppState.freshClient at hfresh
  split at hfresh
  · rename_i entry stamp hentry
    split at hfresh
    · obtain rfl := Option.some.inj hfresh
      exact h.clients _ _ hentry
    · cases hfresh
  · cases hfresh

/-- A client is built for the addresses it was asked for, or was built for them before. -/
theorem pinnedClient_ok (h : Guarded config s) {url : Url} {host : List Char} {ips : List IpAddr}
    {built : Bool} {now : Instant} {client : Client} (hhost : url.bareHost = some host)
    (hcolon : ':' ∉ host) (hok : (s.pinnedClient url ips built now).1 = .ok client) :
    ips ≠ [] ∧ ∃ pinned, pinned.Perm ips ∧
      PinnedTo client host (url.portOrKnownDefault.getD 80) pinned := by
  have hne : host ≠ [] := by
    obtain ⟨-,hne⟩ | ⟨x,rfl⟩ := url.bareHost_cases hhost
    · exact hne
    · exact absurd x.colon_mem_urlText hcolon
  simp only [AppState.pinnedClient,hhost] at hok
  split at hok
  · rename_i found hfresh
    obtain rfl := Except.ok.inj hok
    obtain ⟨url',host',port',pinned,hhost',hpinned,hkey,hbuilt⟩ := h.freshClient_built hfresh
    obtain ⟨rfl,rfl,hperm⟩ := cacheKey_inj hcolon hne hhost' hpinned (String.ofList_injective hkey)
    refine ⟨?_,pinned,hperm.symm,hbuilt⟩
    rintro rfl
    exact hpinned hperm.symm.eq_nil
  · split at hok
    · cases hok
    · rename_i hips
      split at hok
      · cases hok
      · obtain rfl := Except.ok.inj hok
        exact ⟨hips,ips,.refl _,rfl⟩

end Guarded

/-- Whatever ran before, between and around: the cached addresses are allowed ones, the client
of a request is built for its host, its port and its addresses, and what it can reach was
found to be allowed in that request. -/
theorem AppState.pinned_to_verified (config : ConfigApp) (db : Database) (before : List Egress) :
    let s := (AppState.new config db).egressRun before
    (∀ host entry, s.ssrfDnsCache.get host = some entry →
      ∀ ip ∈ entry.1, isAllowed ip config.ssrfAllowedCidrs) ∧
    (∀ url host ips built now client, Url.bareHost url = some host → ':' ∉ host →
      (s.pinnedClient url ips built now).1 = .ok client →
      ips ≠ [] ∧ ∃ pinned, pinned.Perm ips ∧
        PinnedTo client host (url.portOrKnownDefault.getD 80) pinned) ∧
    ∀ url host answer checkedAt ips between built pinnedAt client,
      Url.bareHost url = some host → ':' ∉ host →
      (s.checkSsrf url answer checkedAt).1 = .ok ips →
      (((s.checkSsrf url answer checkedAt).2.egressRun between).pinnedClient url ips built
        pinnedAt).1 = .ok client →
      ∀ ip ∈ client.addressesFor (String.ofList host),
        ip ∈ ips ∧ isAllowed ip config.ssrfAllowedCidrs := by
  intro s
  have hs : Guarded config s := (Guarded.new config db).egressRun before
  refine ⟨hs.dns,fun _ _ _ _ _ _ hhost hcolon hok => hs.pinnedClient_ok hhost hcolon hok,?_⟩
  intro url host answer checkedAt ips between built pinnedAt client hhost hcolon hcheck hpin ip hip
  have hlater := (hs.egress (.check url answer checkedAt)).egressRun between
  obtain ⟨-,pinned,hperm,hbuilt⟩ := hlater.pinnedClient_ok hhost hcolon hpin
  rw [hbuilt.addressesFor] at hip
  have hverified : ∀ ip ∈ ips, isAllowed ip config.ssrfAllowedCidrs := by
    rw [← hs.settings]
    cases hr : (resolveAndCheck url s.config.ssrfAllowedCidrs s.ssrfDnsCache answer checkedAt).1 with
    | error e => simp [AppState.checkSsrf,hr,Except.mapError] at hcheck
    | ok found =>
      simp only [AppState.checkSsrf,hr,Except.mapError] at hcheck
      obtain rfl := Except.ok.inj hcheck
      exact (resolveAndCheck_ok hr).1
  exact ⟨hperm.mem_iff.mp hip,hverified ip (hperm.mem_iff.mp hip)⟩

/-- The answer comes back in another order, and the client of an earlier request still fits. -/
theorem AppState.pinned_to_verified_reordered :
    let config : ConfigApp :=
      { authEnabled := true,cacheMaxEntries := 10,connectTimeoutSecs := 5,ssrfAllowedCidrs := [] }
    let url : Url :=
      { scheme := "https",host := some (.domain ⟨['a','i'],by simp,by simp⟩),port := none }
    let a : IpAddr := .v4 ⟨1,1,1,1⟩
    let b : IpAddr := .v6 ⟨0x2606,0x4700,0,0,0,0,0,0x1111⟩
    let client : Client :=
      { connectTimeoutSecs := 5,resolves := [("ai",⟨a,443⟩),("ai",⟨b,443⟩)] }
    let before := [.check url (.ok [a,b]) 0,.pin url [a,b] true (seconds 200)]
    let s := (AppState.new config ⟨⟨[],[],[]⟩,by decide⟩).egressRun before
    let t := (s.checkSsrf url (.ok [b,a]) (seconds 400)).2
    (t.pinnedClient url [b,a] false (seconds 401)).1 = .ok client ∧
      ∀ ip ∈ client.addressesFor "ai", ip ∈ [b,a] ∧ isAllowed ip [] := by
  intro config url a b client before s t
  have hhost : url.bareHost = some ['a','i'] := by rfl
  have hcheck : (s.checkSsrf url (.ok [b,a]) (seconds 400)).1 = .ok [b,a] := by decide +kernel
  have hclient : (t.pinnedClient url [b,a] false (seconds 401)).1 = .ok client := by decide +kernel
  have hpinned := (AppState.pinned_to_verified config ⟨⟨[],[],[]⟩,by decide⟩ before).2.2
  exact ⟨hclient,hpinned url _ _ _ _ [] _ _ client hhost (by decide) hcheck hclient⟩

end Ait
