import Ait.Egress

/-!
# What a pinned client resolves its host to

A builder keeps one override per domain, and a later `resolve` of the same domain replaces
it. `pinnedClient` calls `resolve` once per verified address, so of a set of addresses the
client knows the one that came last.
-/

namespace Ait

/-- The overrides of the finished client: each call replaces the earlier one of its domain. -/
def Client.dnsOverrides (client : Client) : FiniteMap String (List SocketAddr) :=
  client.resolves.foldl (fun m r => m.insert r.1 [r.2]) .empty

/-- The addresses that the client connects to for `host` without asking DNS. -/
def Client.overrideFor (client : Client) (host : String) : List IpAddr :=
  ((client.dnsOverrides.get host).getD []).map SocketAddr.ip

/-- The client of an earlier request that would be handed out was built for this host. -/
def AppState.OwnEntry (s : AppState) (host : List Char) (port : BitVec 16) (ips : List IpAddr)
    (now : Instant) : Prop :=
  ∀ client, s.freshClient (String.ofList (cacheKey host port ips)) now = some client →
    ∀ r ∈ client.resolves, r.1 = String.ofList host

variable {client : Client} {host host' : List Char} {port port' : BitVec 16}
  {ips pinned : List IpAddr}

theorem PinnedTo.overrideFor (h : PinnedTo client host port ips) (hne : ips ≠ []) :
    client.overrideFor (String.ofList host) = [ips.getLast hne] := by
  have hl : ips.map (fun ip => (String.ofList host,(⟨ip,port⟩ : SocketAddr))) ≠ [] := by
    simpa using hne
  rw [Client.overrideFor,Client.dnsOverrides,h,FiniteMap.get_foldl_insert_last _ hl (by simp)]
  simp [List.getLast_map]

theorem PinnedTo.overrideFor_other (h : PinnedTo client host port ips) (hhost : host ≠ host') :
    client.overrideFor (String.ofList host') = [] := by
  have hother : ∀ r ∈ client.resolves, r.1 ≠ String.ofList host' := by
    rw [h]
    intro r hr
    obtain ⟨ip,-,rfl⟩ := List.mem_map.mp hr
    exact fun heq => hhost (String.ofList_injective heq)
  rw [Client.overrideFor,Client.dnsOverrides,FiniteMap.get_foldl_insert_other hother]
  rfl

theorem covers_iff_all_equal (hp : pinned ≠ []) (hperm : pinned.Perm ips) :
    (∀ ip, ip ∈ [pinned.getLast hp] ↔ ip ∈ ips) ↔ ∀ x ∈ ips, ∀ y ∈ ips, x = y := by
  simp only [List.mem_singleton]
  have hlast := hperm.mem_iff.mp (List.getLast_mem hp)
  constructor
  · intro h x hx y hy
    rw [(h x).mpr hx,(h y).mpr hy]
  · intro h ip
    exact ⟨fun heq => heq ▸ hlast,fun hip => h ip hip _ hlast⟩

theorem cacheKey_same_host (hne : pinned ≠ [])
    (h : cacheKey host port ips = cacheKey host port' pinned) : ips.Perm pinned := by
  rw [cacheKey_eq,cacheKey_eq] at h
  have hdec (n : ℕ) : ':' ∉ decimal n := (decimal_plain n).not_mem (by simp)
  have hrest := List.cons.inj (List.append_cancel_left h)
  exact joinedIps_inj hne (Delimited.append_cons_inj (hdec _) (hdec _) hrest.2).2

/-- A client that was built for some host covers the addresses asked for under `host` when it
was built for that host and the addresses are one. -/
theorem PinnedTo.covers_iff (h : PinnedTo client host' port' pinned) (hp : pinned ≠ [])
    (hips : ips ≠ []) (hkey : cacheKey host port ips = cacheKey host' port' pinned) :
    (∀ ip, ip ∈ client.overrideFor (String.ofList host) ↔ ip ∈ ips) ↔
      (∀ x ∈ ips, ∀ y ∈ ips, x = y) ∧ ∀ r ∈ client.resolves, r.1 = String.ofList host := by
  have hmem : ∀ ip ∈ pinned, (String.ofList host',⟨ip,port'⟩) ∈ client.resolves := by
    intro ip hip
    rw [h]
    exact List.mem_map_of_mem hip
  by_cases hhost : host' = host
  · subst hhost
    have hown : ∀ r ∈ client.resolves, r.1 = String.ofList host' := by
      rw [h]
      simp
    rw [h.overrideFor hp,covers_iff_all_equal hp (cacheKey_same_host hp hkey).symm,
      and_iff_left hown]
  · rw [h.overrideFor_other hhost]
    obtain ⟨x,hx⟩ := List.exists_mem_of_ne_nil ips hips
    obtain ⟨y,hy⟩ := List.exists_mem_of_ne_nil pinned hp
    refine iff_of_false (fun hall => ?_) fun hown => ?_
    · exact absurd ((hall x).mpr hx) List.not_mem_nil
    · exact hhost (String.ofList_injective (hown.2 _ (hmem y hy)))

namespace Guarded

variable {config : ConfigApp} {s : AppState} {url : Url} {built : Bool} {now : Instant}

theorem ownEntry (h : Guarded config s) (hhost : url.bareHost = some host) (hcolon : ':' ∉ host) :
    s.OwnEntry host port ips now := by
  intro client hfresh r hr
  have hne : host ≠ [] := by
    obtain ⟨-,hne⟩ | ⟨x,rfl⟩ := url.bareHost_cases hhost
    · exact hne
    · exact absurd x.colon_mem_urlText hcolon
  obtain ⟨url',host',port',pinned,hhost',hpinned,hkey,hbuilt⟩ := h.freshClient_built hfresh
  obtain ⟨rfl,-,-⟩ := cacheKey_inj hcolon hne hhost' hpinned (String.ofList_injective hkey)
  rw [hbuilt] at hr
  obtain ⟨ip,-,rfl⟩ := List.mem_map.mp hr
  rfl

theorem covers_iff (h : Guarded config s) (hhost : url.bareHost = some host) (hips : ips ≠ [])
    (hok : (s.pinnedClient url ips built now).1 = .ok client) :
    (∀ ip, ip ∈ client.overrideFor (String.ofList host) ↔ ip ∈ ips) ↔
      (∀ x ∈ ips, ∀ y ∈ ips, x = y) ∧
        s.OwnEntry host (url.portOrKnownDefault.getD 80) ips now := by
  simp only [AppState.pinnedClient,hhost] at hok
  split at hok
  · rename_i found hfresh
    obtain rfl := Except.ok.inj hok
    obtain ⟨url',host',port',pinned,-,hpinned,hkey,hbuilt⟩ := h.freshClient_built hfresh
    have hown : s.OwnEntry host (url.portOrKnownDefault.getD 80) ips now ↔
        ∀ r ∈ found.resolves, r.1 = String.ofList host := by
      constructor
      · intro hown
        exact hown found hfresh
      · intro hfound client hclient
        rw [hfresh] at hclient
        obtain rfl := Option.some.inj hclient
        exact hfound
    rw [hown]
    exact hbuilt.covers_iff hpinned hips (String.ofList_injective hkey)
  · rename_i hmiss
    have hown : s.OwnEntry host (url.portOrKnownDefault.getD 80) ips now := by
      intro client hclient
      rw [hmiss] at hclient
      cases hclient
    rw [and_iff_left hown]
    split at hok
    · exact absurd ‹ips = []› hips
    · split at hok
      · cases hok
      · obtain rfl := Except.ok.inj hok
        have hbuilt : PinnedTo (s.buildPinned host (url.portOrKnownDefault.getD 80) ips) host
            (url.portOrKnownDefault.getD 80) ips := rfl
        rw [hbuilt.overrideFor hips]
        exact covers_iff_all_equal hips (.refl _)

end Guarded

/-- Whatever ran before, a client covers the verified addresses of its request when they are
one address and a client found under the key was built for the host, which without a colon in
the host it always was. -/
theorem AppState.override_covers_iff (config : ConfigApp) (db : Database) (before : List Egress)
    {url : Url} {host : List Char} {ips : List IpAddr} {built : Bool} {now : Instant}
    {client : Client} (hhost : url.bareHost = some host) (hips : ips ≠ [])
    (hok : (((AppState.new config db).egressRun before).pinnedClient url ips built now).1 =
      .ok client) :
    ((∀ ip, ip ∈ client.overrideFor (String.ofList host) ↔ ip ∈ ips) ↔
      (∀ x ∈ ips, ∀ y ∈ ips, x = y) ∧ ((AppState.new config db).egressRun before).OwnEntry host
        (url.portOrKnownDefault.getD 80) ips now) ∧
    (':' ∉ host → ((AppState.new config db).egressRun before).OwnEntry host
      (url.portOrKnownDefault.getD 80) ips now) := by
  have hs := (Guarded.new config db).egressRun before
  exact ⟨hs.covers_iff hhost hips hok,hs.ownEntry hhost⟩

/-- One verified address is covered. -/
theorem AppState.override_covers_single :
    let config : ConfigApp :=
      { authEnabled := true,cacheMaxEntries := 10,connectTimeoutSecs := 5,ssrfAllowedCidrs := [] }
    let url : Url :=
      { scheme := "https",host := some (.domain ⟨['a','i'],by simp,by simp⟩),port := none }
    let client : Client :=
      { connectTimeoutSecs := 5,resolves := [("ai",⟨.v4 ⟨1,1,1,1⟩,443⟩)] }
    let s := (AppState.new config ⟨⟨[],[],[]⟩,by decide⟩).egressRun []
    (s.pinnedClient url [.v4 ⟨1,1,1,1⟩] true 0).1 = .ok client ∧
      ∀ ip, ip ∈ client.overrideFor "ai" ↔ ip ∈ [IpAddr.v4 ⟨1,1,1,1⟩] := by
  intro config url client s
  have hhost : url.bareHost = some ['a','i'] := by rfl
  have hclient : (s.pinnedClient url [.v4 ⟨1,1,1,1⟩] true 0).1 = .ok client := by decide +kernel
  obtain ⟨hiff,hown⟩ := AppState.override_covers_iff config ⟨⟨[],[],[]⟩,by decide⟩ [] hhost
    (by simp) hclient
  exact ⟨hclient,hiff.mpr ⟨by simp,hown (by decide)⟩⟩

/-- Of two verified addresses the client knows the second only. -/
theorem AppState.override_misses_first :
    let config : ConfigApp :=
      { authEnabled := true,cacheMaxEntries := 10,connectTimeoutSecs := 5,ssrfAllowedCidrs := [] }
    let url : Url :=
      { scheme := "https",host := some (.domain ⟨['a','i'],by simp,by simp⟩),port := none }
    let ips : List IpAddr := [.v4 ⟨1,1,1,1⟩,.v4 ⟨1,0,0,1⟩]
    let client : Client :=
      { connectTimeoutSecs := 5,
        resolves := [("ai",⟨.v4 ⟨1,1,1,1⟩,443⟩),("ai",⟨.v4 ⟨1,0,0,1⟩,443⟩)] }
    let s := (AppState.new config ⟨⟨[],[],[]⟩,by decide⟩).egressRun []
    (s.pinnedClient url ips true 0).1 = .ok client ∧
      ¬∀ ip, ip ∈ client.overrideFor "ai" ↔ ip ∈ ips := by
  intro config url ips client s
  refine ⟨by decide +kernel,fun h => ?_⟩
  exact absurd ((h (.v4 ⟨1,1,1,1⟩)).mpr (by decide)) (by decide)

end Ait
