import Ait.Ssrf

/-!
# The key of a pinned client

Two pinned clients with one key were built for one host, one port and the same
addresses, as long as one of the hosts has no colon. An IPv6 host brings colons
of its own into the key; its text never lines up with a port and an address.
-/

namespace Ait
open Delimited

section BareHost

theorem dropWhile_of_not_mem {c : Char} {t : List Char} (h : c ∉ t) :
    t.dropWhile (· = c) = t := by
  cases t with
  | nil => rfl
  | cons a t =>
    simp only [List.mem_cons,not_or] at h
    simp [Ne.symm h.1]

theorem trim_of_not_mem {t : List Char} (hopen : '[' ∉ t) (hclose : ']' ∉ t) :
    ((t.dropWhile (· = '[')).reverse.dropWhile (· = ']')).reverse = t := by
  rw [dropWhile_of_not_mem hopen,dropWhile_of_not_mem (by simpa using hclose),List.reverse_reverse]

theorem trim_brackets {t : List Char} (hopen : '[' ∉ t) (hclose : ']' ∉ t) :
    ((('['::t ++ [']']).dropWhile (· = '[')).reverse.dropWhile (· = ']')).reverse = t := by
  have hleft : ('['::t ++ [']']).dropWhile (· = '[') = t ++ [']'] := by
    have hmem : '[' ∉ t ++ [']'] := by simp [hopen]
    simpa using dropWhile_of_not_mem hmem
  rw [hleft,List.reverse_append]
  have hright := dropWhile_of_not_mem (show ']' ∉ t.reverse by simpa using hclose)
  simpa using congrArg List.reverse hright

theorem Ipv6Addr.not_mem_urlText (x : Ipv6Addr) {c : Char} (hc : c ∈ [',','.','[',']']) :
    c ∉ x.urlText := by
  intro h
  obtain rfl | h := mem_compressed h
  · simp at hc
  · exact h (List.mem_cons_of_mem _ hc)

theorem Url.bareHost_cases {url : Url} {host : List Char} (h : url.bareHost = some host) :
    ':' ∉ host ∧ host ≠ [] ∨ ∃ x : Ipv6Addr, host = x.urlText := by
  obtain ⟨scheme,_ | target,port⟩ := url
  · cases h
  simp only [bareHost,hostStr,Option.map_some,Option.some.injEq] at h
  cases target with
  | domain name =>
    have hmiss {c : Char} (hc : c ∈ [':','[',']']) : c ∉ name.text := fun ht => name.plain c ht hc
    dsimp only at h
    rw [trim_of_not_mem (hmiss (by simp)) (hmiss (by simp))] at h
    exact .inl ⟨h ▸ hmiss (by simp),h ▸ name.nonempty⟩
  | ipv4 x =>
    have hmiss {c : Char} (hc : c ∈ [':','[',']']) : c ∉ x.text := by
      intro ht
      obtain rfl | ht := Ipv4Addr.mem_text ht
      · simp at hc
      · refine ht ?_
        simp only [List.mem_cons,List.not_mem_nil,or_false] at hc ⊢
        tauto
    dsimp only at h
    rw [trim_of_not_mem (hmiss (by simp)) (hmiss (by simp))] at h
    refine .inl ⟨h ▸ hmiss (by simp),?_⟩
    rintro rfl
    exact List.ne_nil_of_mem x.dot_mem_text h
  | ipv6 x =>
    dsimp only at h
    rw [trim_brackets (x.not_mem_urlText (by simp)) (x.not_mem_urlText (by simp))] at h
    exact .inr ⟨x,h.symm⟩

end BareHost

section Colons

variable {l f f' : List (List Char)} {host p p' t : List Char}

theorem Shape.of_dot_mem (h : Shape l) (ht : t ∈ l) (hdot : '.' ∈ t) :
    l = [t] ∨ l = [[],[],"ffff".toList,t] := by
  cases h with
  | dotted u hu =>
    obtain rfl := List.mem_singleton.mp ht
    exact .inl rfl
  | mapped u hu =>
    simp only [List.mem_cons,List.not_mem_nil,or_false] at ht
    obtain rfl | rfl | rfl | rfl := ht
    · cases hdot
    · cases hdot
    · simp at hdot
    · exact .inr rfl
  | hex _ hhex =>
    cases hhex with
    | full _ hlen hgs => exact absurd hdot (hgs t ht).2
    | gap pre post hlen hpre hpost =>
      simp only [List.mem_append,List.mem_cons] at ht
      obtain ht | rfl | ht := ht
      · obtain rfl | ht := mem_ends ht
        · cases hdot
        · exact absurd hdot (hpre t ht).2
      · cases hdot
      · obtain rfl | ht := mem_ends ht
        · cases hdot
        · exact absurd hdot (hpost t ht).2

theorem Shape.length_le (h : Shape l) : l.length ≤ 8 := by
  cases h with
  | dotted => simp
  | mapped => simp
  | hex _ hhex =>
    cases hhex with
    | full _ hlen hgs => omega
    | gap pre post hlen hpre hpost =>
      simp only [List.length_append,List.length_cons,length_ends]
      omega

/-- Nothing but `::` is left out of an address: no group stands between two empty fields. -/
theorem Shape.no_second_gap (h : Shape (l ++ []::(f ++ p::f'))) (hl : [] ∉ l) (hp : p ≠ [])
    (hf : f ≠ []) : [] ∉ f' := by
  intro hmem
  generalize hw : l ++ []::(f ++ p::f') = w at h
  have htail {r : List (List Char)} (hr : f ++ p::f' = []::r) : [] ∈ r := by
    cases f with
    | nil => exact absurd rfl hf
    | cons a f =>
      obtain ⟨-,rfl⟩ := List.cons.inj hr
      simp [hmem]
  cases h with
  | dotted t hdot =>
    have hlen := congrArg List.length hw
    simp at hlen
    omega
  | mapped t hdot =>
    obtain ⟨rfl,hrest⟩ := append_cons_inj (b := []) hl (by simp) hw
    have hmiss := htail hrest
    obtain rfl : [] = t := by simpa using hmiss
    cases hdot
  | hex _ hhex =>
    cases hhex with
    | full _ hlen hgs => exact not_nil_mem hgs (hw ▸ by simp)
    | gap pre post hlen hpre hpost =>
      rw [ends_append] at hw
      obtain ⟨rfl,hrest⟩ := append_cons_inj hl (not_nil_mem hpre) hw
      have hpmem : p ∈ []::ends post := by
        have hp' : p ∈ f ++ p::f' := by simp
        rw [hrest] at hp'
        split at hp'
        · exact hp'
        · exact List.mem_cons_of_mem _ hp'
      have hpost' : ends post = post := by
        by_cases hnil : post = []
        · simp [ends,hnil,hp] at hpmem
        · simp [ends,hnil]
      rw [hpost'] at hrest
      split at hrest
      · exact not_nil_mem hpost (htail hrest)
      · exact not_nil_mem hpost (hrest ▸ by simp [hmem])

/-- Eight groups leave room for one more field, a dotted address, and that is too much. -/
theorem full_ne (hlen : l.length = 8) (hf : Shape f) (hf' : Shape f') :
    l ++ p::f ≠ host::p'::f' := by
  intro heq
  have hcount := congrArg List.length heq
  simp only [List.length_append,List.length_cons] at hcount
  have hf'len := hf'.length_le
  cases hf with
  | mapped t hdot =>
    simp at hcount
    omega
  | hex _ hhex =>
    have hthree := hhex.three_le
    omega
  | dotted t hdot =>
    have hmem : t ∈ f' := by
      have hlast := congrArg List.getLast? heq
      cases f' with
      | nil =>
        simp only [List.length_cons,List.length_nil] at hcount
        omega
      | cons a f' =>
        simp only [List.getLast?_append,List.getLast?_cons_cons,List.getLast?_singleton,
          Option.some_or] at hlast
        exact List.mem_of_getLast? hlast.symm
    obtain rfl | rfl := hf'.of_dot_mem hmem hdot <;> simp at hcount <;> omega

/-- What stands behind the gap of a host, its port and an address, is no address after a gap. -/
theorem after_gap_ne {pre post : List (List Char)} (hpre : [] ∉ pre) (hp : Group p)
    (hport : p ≠ "ffff".toList) (hf : Shape f) (hf' : Shape f') :
    f' ≠ pre ++ []::(ends post ++ p::f) := by
  intro hrest
  have hgap := (hrest ▸ hf').no_second_gap hpre hp.1 (ends_ne_nil post)
  have hlen := congrArg List.length hrest
  simp only [List.length_append,List.length_cons,length_ends] at hlen
  have hf'len := hf'.length_le
  cases hf with
  | mapped t hdot => exact hgap (by simp)
  | hex _ hhex =>
    cases hhex with
    | gap pre post hlen hpre hpost => exact hgap (by simp)
    | full _ hlen hgs => omega
  | dotted t hdot =>
    obtain hone | hmapped := hf'.of_dot_mem (t := t) (by simp [hrest]) hdot
    · simp [hone] at hlen
      omega
    · -- the port would have to be `ffff`
      have hsplit : (pre ++ []::ends post) ++ [p,t] = [[],[]] ++ ["ffff".toList,t] := by
        rw [← show f' = [[],[]] ++ ["ffff".toList,t] from hmapped,hrest]
        simp
      have hend := (List.append_inj' hsplit rfl).2
      exact hport (List.cons.inj hend).1

/-- The fields of an IPv6 host, a port and an address are not those of a host without a
colon, a port and an address. -/
theorem hexShape_ne (hl : HexShape l) (hp : Group p) (hport : p ≠ "ffff".toList) (hf : Shape f)
    (hhost : host ≠ []) (hp' : p' ≠ []) (hf' : Shape f' ∨ f' = [[]]) :
    l ++ p::f ≠ host::p'::f' := by
  intro heq
  have hlen := congrArg List.length heq
  simp only [List.length_append,List.length_cons] at hlen
  have hthree := hl.three_le
  obtain hf' | rfl := hf'
  swap
  · simp at hlen
    omega
  cases hl with
  | full _ hfull hgs => exact full_ne hfull hf hf' heq
  | gap pre post hgap hpre hpost =>
    cases pre with
    | nil => exact hhost (List.cons.inj heq).1.symm
    | cons a pre =>
    cases pre with
    | nil => exact hp' (List.cons.inj (List.cons.inj heq).2).1.symm
    | cons b pre =>
      have hrest : f' = pre ++ []::(ends post ++ p::f) := by
        simp only [ends,List.cons_append,List.append_assoc] at heq
        simpa [ends] using (List.cons.inj (List.cons.inj heq).2).2.symm
      have hpre' : [] ∉ pre := fun hmem => (hpre [] (by simp [hmem])).1 rfl
      exact after_gap_ne hpre' hp hport hf hf' hrest

end Colons

section Key

theorem sortUnstable_perm (ips : List IpAddr) : (sortUnstable ips).Perm ips :=
  List.perm_insertionSort _ _

@[simp] theorem sortUnstable_eq_nil {ips : List IpAddr} : sortUnstable ips = [] ↔ ips = [] := by
  constructor
  · intro h
    have hperm := sortUnstable_perm ips
    rw [h] at hperm
    exact hperm.symm.eq_nil
  · rintro rfl
    rfl

/-- `{pinned_ips}`. -/
def joinedIps (ips : List IpAddr) : List Char :=
  [','].intercalate ((sortUnstable ips).map IpAddr.text)

theorem cacheKey_eq (host : List Char) (port : BitVec 16) (ips : List IpAddr) :
    cacheKey host port ips = host ++ ':'::(decimal port.toNat ++ ':'::joinedIps ips) := rfl

theorem IpAddr.text_ne_nil (x : IpAddr) : x.text ≠ [] := by
  intro h
  have hshape := x.text_shape
  rw [h] at hshape
  generalize hl : List.splitOn ':' ([] : List Char) = l at hshape
  cases hshape with
  | dotted t hdot =>
    obtain rfl := (List.cons.inj hl).1
    cases hdot
  | mapped t hdot => cases hl
  | hex _ hhex =>
    have hthree := hhex.three_le
    rw [← hl] at hthree
    simp at hthree

theorem comma_not_mem_map (ips : List IpAddr) : ∀ l ∈ ips.map IpAddr.text, ',' ∉ l := by
  intro l hl
  obtain ⟨x,-,rfl⟩ := List.mem_map.mp hl
  exact x.comma_not_mem_text

theorem joinedIps_eq_nil {ips : List IpAddr} (h : joinedIps ips = []) : ips = [] := by
  by_contra hne
  obtain ⟨x,rest,hsort⟩ := List.exists_cons_of_ne_nil fun h => hne (sortUnstable_eq_nil.mp h)
  rw [joinedIps,hsort,List.map_cons] at h
  by_cases hrest : rest.map IpAddr.text = []
  · rw [hrest,List.intercalate_singleton] at h
    exact x.text_ne_nil h
  · simp [List.intercalate_cons_of_ne_nil hrest] at h

/-- The text of a list of addresses determines the addresses, up to their order. -/
theorem joinedIps_inj {ips ips' : List IpAddr} (hne : ips' ≠ [])
    (h : joinedIps ips = joinedIps ips') : ips.Perm ips' := by
  have hne' : ips ≠ [] := by
    rintro rfl
    exact hne (joinedIps_eq_nil h.symm)
  have hmap {l : List IpAddr} (hl : l ≠ []) : (sortUnstable l).map IpAddr.text ≠ [] := by
    simpa using hl
  have htexts := intercalate_inj (hmap hne') (hmap hne) (comma_not_mem_map _)
    (comma_not_mem_map _) h
  have hsorted := IpAddr.text_injective.list_map htexts
  exact (sortUnstable_perm ips).symm.trans (hsorted ▸ sortUnstable_perm ips')

def upToComma (t : List Char) : List Char := t.takeWhile (· ≠ ',')

@[simp] theorem upToComma_append {t : List Char} (h : ',' ∉ t) (r : List Char) :
    upToComma (t ++ r) = t ++ upToComma r := by
  refine List.takeWhile_append_of_pos ?_
  intro c hc
  have hne : c ≠ ',' := fun heq => h (heq ▸ hc)
  simpa using hne

@[simp] theorem upToComma_cons {c : Char} (h : c ≠ ',') (r : List Char) :
    upToComma (c::r) = c::upToComma r := by
  simp [upToComma,h]

theorem upToComma_joinedIps (ips : List IpAddr) :
    upToComma (joinedIps ips) = [] ∧ ips = [] ∨ ∃ x, upToComma (joinedIps ips) = IpAddr.text x := by
  unfold joinedIps
  cases hsort : sortUnstable ips with
  | nil => exact .inl ⟨rfl,sortUnstable_eq_nil.mp hsort⟩
  | cons x rest =>
    refine .inr ⟨x,?_⟩
    rw [List.map_cons]
    by_cases hrest : rest.map IpAddr.text = []
    · have hcut := upToComma_append x.comma_not_mem_text []
      rw [List.append_nil] at hcut
      rw [hrest,List.intercalate_singleton,hcut]
      simp [upToComma]
    · rw [List.intercalate_cons_of_ne_nil hrest,List.append_assoc,
        upToComma_append x.comma_not_mem_text]
      simp [upToComma]

theorem upToComma_cacheKey {host : List Char} (h : ',' ∉ host) (port : BitVec 16)
    (ips : List IpAddr) :
    upToComma (cacheKey host port ips) =
      host ++ ':'::(decimal port.toNat ++ ':'::upToComma (joinedIps ips)) := by
  have hport : ',' ∉ decimal port.toNat := (decimal_plain _).not_mem (by simp)
  rw [cacheKey_eq,upToComma_append h,upToComma_cons (by decide),upToComma_append hport,
    upToComma_cons (by decide)]

/-- What stands before the first separator is part of any other reading of the text. -/
theorem mem_of_first_field {host t r s : List Char} {c : Char} (hhost : ':' ∉ host)
    (h : host ++ ':'::r = t ++ ':'::s) (hc : c ∈ host) : c ∈ t := by
  induction t generalizing host with
  | nil =>
    cases host with
    | nil => cases hc
    | cons a host =>
      have ha : a = ':' := (List.cons.inj h).1
      simp [ha] at hhost
  | cons b t ih =>
    cases host with
    | nil => cases hc
    | cons a host =>
      obtain ⟨rfl,hrest⟩ := List.cons.inj h
      simp only [List.mem_cons,not_or] at hhost hc ⊢
      exact hc.imp_right fun hc => ih hhost.2 hrest hc

theorem decimal_ne_ffff (n : ℕ) : decimal n ≠ "ffff".toList := by
  intro h
  have hf : 'f' ∈ Nat.toDigits 10 n := by
    rw [show Nat.toDigits 10 n = "ffff".toList from h]
    decide
  exact absurd (Nat.isDigit_of_mem_toDigits (by decide) (by decide) hf) (by decide)

/-- A key made from an IPv6 host is not one made from a host without a colon. -/
theorem cacheKey_urlText_ne {x : Ipv6Addr} {host : List Char} (hcolon : ':' ∉ host)
    (hhost : host ≠ []) (port port' : BitVec 16) (ips : List IpAddr) {ips' : List IpAddr}
    (hne : ips' ≠ []) : cacheKey host port ips ≠ cacheKey x.urlText port' ips' := by
  intro h
  have hx : ',' ∉ x.urlText := x.not_mem_urlText (by simp)
  have hcomma : ',' ∉ host := fun hc => hx (mem_of_first_field hcolon h hc)
  have hdec (n : ℕ) : ':' ∉ decimal n := (decimal_plain n).not_mem (by simp)
  have hfields := congrArg (fun t => (upToComma t).splitOn ':') h
  simp only [upToComma_cacheKey hcomma,upToComma_cacheKey hx,List.splitOn_append_cons_self,
    List.splitOn_eq_singleton hcolon,List.splitOn_eq_singleton (hdec _),
    List.singleton_append] at hfields
  have hstored : Shape ((upToComma (joinedIps ips')).splitOn ':') := by
    obtain ⟨-,hnil⟩ | ⟨y,hy⟩ := upToComma_joinedIps ips'
    · exact absurd hnil hne
    · exact hy ▸ y.text_shape
  have hasked : Shape ((upToComma (joinedIps ips)).splitOn ':') ∨
      (upToComma (joinedIps ips)).splitOn ':' = [[]] := by
    obtain ⟨hnil,-⟩ | ⟨y,hy⟩ := upToComma_joinedIps ips
    · exact .inr (by simp [hnil])
    · exact .inl (hy ▸ y.text_shape)
  have hport : Group (decimal port'.toNat) :=
    ⟨(decimal_plain _).1,(decimal_plain _).not_mem (by simp)⟩
  exact hexShape_ne x.urlText_shape hport (decimal_ne_ffff _) hstored hhost (decimal_plain _).1
    hasked hfields.symm

theorem cacheKey_inj {url : Url} {host host' : List Char} (hcolon : ':' ∉ host)
    (hhost : host ≠ []) (hurl : url.bareHost = some host') {port port' : BitVec 16}
    {ips ips' : List IpAddr} (hne : ips' ≠ []) (h : cacheKey host port ips = cacheKey host' port' ips') :
    host = host' ∧ port = port' ∧ ips.Perm ips' := by
  obtain ⟨hcolon',-⟩ | ⟨x,rfl⟩ := url.bareHost_cases hurl
  · obtain ⟨rfl,hrest⟩ := append_cons_inj hcolon hcolon' h
    have hdec (n : ℕ) : ':' ∉ decimal n := (decimal_plain n).not_mem (by simp)
    obtain ⟨hport,hips⟩ := append_cons_inj (hdec _) (hdec _) hrest
    exact ⟨rfl,BitVec.eq_of_toNat_eq (decimal_injective hport),joinedIps_inj hne hips⟩
  · exact absurd h (cacheKey_urlText_ne hcolon hhost port port' ips hne)

end Key
end Ait
