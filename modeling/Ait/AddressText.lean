import Ait.Delimited
import Ait.Net

/-!
# The text of an address

`IpAddr::to_string`, and the way a URL spells an IPv6 host. Both shorten the
longest run of zero segments; only the first writes an IPv4-mapped address with
dots. `Shape` says how such a text splits at its colons.
-/

namespace Ait
open Delimited

/-- `{:x}`. -/
def hexGroup (g : BitVec 16) : List Char := Nat.toDigits 16 g.toNat

def decimal (n : ℕ) : List Char := Nat.toDigits 10 n

def Ipv4Addr.octets (x : Ipv4Addr) : List (BitVec 8) := [x.a,x.b,x.c,x.d]

def Ipv4Addr.text (x : Ipv4Addr) : List Char :=
  ['.'].intercalate (x.octets.map fun o => decimal o.toNat)

structure Span where
  start : ℕ
  len : ℕ

/-- The search for the longest run of zero segments, the first one among equals. -/
def zeroes : ℕ → Span → Span → List (BitVec 16) → Span
  | _, longest, _, [] => longest
  | i, longest, current, g::gs =>
    if g = 0 then
      let current : Span := ⟨if current.len = 0 then i else current.start,current.len+1⟩
      zeroes (i+1) (if current.len > longest.len then current else longest) current gs
    else zeroes (i+1) longest ⟨0,0⟩ gs

/-- `fmt_subslice`. -/
def fmtSubslice (gs : List (BitVec 16)) : List Char := [':'].intercalate (gs.map hexGroup)

/-- Segments in hexadecimal, the longest run of zeroes written `::`. -/
def compressed (gs : List (BitVec 16)) : List Char :=
  let span := zeroes 0 ⟨0,0⟩ ⟨0,0⟩ gs
  if span.len > 1 then
    fmtSubslice (gs.take span.start) ++ ':':: ':'::fmtSubslice (gs.drop (span.start+span.len))
  else fmtSubslice gs

def highByte (s : BitVec 16) : BitVec 8 := (s >>> 8).setWidth 8

def lowByte (s : BitVec 16) : BitVec 8 := s.setWidth 8

/-- `Ipv6Addr::to_ipv4_mapped`: `::ffff:a.b.c.d`. -/
def Ipv6Addr.toIpv4Mapped (x : Ipv6Addr) : Option Ipv4Addr :=
  if x.s0 = 0 ∧ x.s1 = 0 ∧ x.s2 = 0 ∧ x.s3 = 0 ∧ x.s4 = 0 ∧ x.s5 = 0xffff then
    some ⟨highByte x.s6,lowByte x.s6,highByte x.s7,lowByte x.s7⟩
  else none

/-- The form `Url::host_str` puts between brackets. -/
def Ipv6Addr.urlText (x : Ipv6Addr) : List Char := compressed x.segments

def Ipv6Addr.text (x : Ipv6Addr) : List Char :=
  match x.toIpv4Mapped with
  | some a => "::ffff:".toList ++ a.text
  | none => compressed x.segments

/-- `IpAddr::to_string`. -/
def IpAddr.text : IpAddr → List Char
  | .v4 x => x.text
  | .v6 x => x.text

section Digits

/-- Letters and digits only: none of the characters that delimit addresses. -/
def Plain (t : List Char) : Prop := t ≠ [] ∧ ∀ c ∈ t, c ∉ [':',',','.','[',']']

theorem digitChar_plain : ∀ d < 16, Nat.digitChar d ∉ [':',',','.','[',']'] := by decide

theorem toDigits_plain {b n : ℕ} (hb : 1 < b) (hb' : b ≤ 16) : Plain (Nat.toDigits b n) := by
  refine ⟨Nat.toDigits_ne_nil,?_⟩
  intro c hc
  obtain ⟨d,hd,rfl⟩ := mem_toDigits hb hc
  exact digitChar_plain d (by omega)

theorem hexGroup_plain (g : BitVec 16) : Plain (hexGroup g) :=
  toDigits_plain (by decide) (by decide)

theorem decimal_plain (n : ℕ) : Plain (decimal n) := toDigits_plain (by decide) (by decide)

theorem hexGroup_injective : Function.Injective hexGroup := by
  intro g g' h
  exact BitVec.eq_of_toNat_eq (toDigits_inj (by decide) (by decide) h)

theorem decimal_injective : Function.Injective decimal := by
  intro m n h
  exact toDigits_inj (by decide) (by decide) h

variable {t : List Char}

theorem Plain.not_mem (h : Plain t) {c : Char} (hc : c ∈ [':',',','.','[',']']) : c ∉ t :=
  fun ht => h.2 c ht hc

end Digits

section Dotted

theorem Ipv4Addr.mem_text {x : Ipv4Addr} {c : Char} (h : c ∈ x.text) :
    c = '.' ∨ c ∉ [':',',','.','[',']'] := by
  obtain h | ⟨l,hl,hc⟩ := mem_intercalate h
  · exact .inl h
  · obtain ⟨o,-,rfl⟩ := List.mem_map.mp hl
    exact .inr ((decimal_plain _).2 c hc)

theorem Ipv4Addr.dot_mem_text (x : Ipv4Addr) : '.' ∈ x.text := by
  simp [Ipv4Addr.text,Ipv4Addr.octets]

theorem Ipv4Addr.colon_not_mem (x : Ipv4Addr) : ':' ∉ x.text := by
  intro h
  obtain h | h := mem_text h
  · cases h
  · simp at h

theorem Ipv4Addr.text_injective : Function.Injective Ipv4Addr.text := by
  intro x y h
  have hdot (z : Ipv4Addr) : ∀ l ∈ z.octets.map (fun o => decimal o.toNat), '.' ∉ l := by
    intro l hl
    obtain ⟨o,-,rfl⟩ := List.mem_map.mp hl
    exact (decimal_plain _).not_mem (by decide)
  have hfields := intercalate_inj (by simp [octets]) (by simp [octets]) (hdot x) (hdot y) h
  have hinj : Function.Injective fun o : BitVec 8 => decimal o.toNat := fun o o' ho =>
    BitVec.eq_of_toNat_eq (decimal_injective ho)
  have hoctets : x.octets = y.octets := hinj.list_map hfields
  cases x
  cases y
  simpa [octets] using hoctets

end Dotted

section Zeroes

/-- The span is a run of zeroes among `gs`. -/
def Span.In (s : Span) (gs : List (BitVec 16)) : Prop :=
  s.len ≠ 0 → ∃ pre post, gs = pre ++ List.replicate s.len 0 ++ post ∧ pre.length = s.start

/-- The span is a run of zeroes at the end of `gs`. -/
def Span.AtEnd (s : Span) (gs : List (BitVec 16)) : Prop :=
  s.len ≠ 0 → ∃ pre, gs = pre ++ List.replicate s.len 0 ∧ pre.length = s.start

theorem Span.In.append {s : Span} {gs : List (BitVec 16)} (h : s.In gs) (g : BitVec 16) :
    s.In (gs ++ [g]) := by
  intro hs
  obtain ⟨pre,post,rfl,hlen⟩ := h hs
  exact ⟨pre,post ++ [g],by simp,hlen⟩

theorem Span.AtEnd.toIn {s : Span} {gs : List (BitVec 16)} (h : s.AtEnd gs) : s.In gs := by
  intro hs
  obtain ⟨pre,rfl,hlen⟩ := h hs
  exact ⟨pre,[],by simp,hlen⟩

theorem Span.AtEnd.zero {s : Span} {gs : List (BitVec 16)} (h : s.AtEnd gs) :
    Span.AtEnd ⟨if s.len = 0 then gs.length else s.start,s.len+1⟩ (gs ++ [0]) := by
  intro _
  by_cases hs : s.len = 0
  · exact ⟨gs,by simp [hs],by simp [hs]⟩
  · obtain ⟨pre,rfl,hlen⟩ := h hs
    exact ⟨pre,by simp [List.replicate_succ'],by simp [hs,hlen]⟩

theorem zeroes_in (gs : List (BitVec 16)) {before : List (BitVec 16)} {longest current : Span}
    (hlongest : longest.In before) (hcurrent : current.AtEnd before) :
    (zeroes before.length longest current gs).In (before ++ gs) := by
  induction gs generalizing before longest current with
  | nil => simpa [zeroes] using hlongest
  | cons g gs ih =>
    have hlen : (before ++ [g]).length = before.length+1 := by simp
    have happ : before ++ g::gs = before ++ [g] ++ gs := by simp
    rw [zeroes,← hlen,happ]
    by_cases hg : g = 0
    · subst hg
      have hnext := hcurrent.zero
      simp only [if_true]
      refine ih ?_ hnext
      split
      · exact hnext.toIn
      · exact hlongest.append 0
    · simp only [hg,if_false]
      exact ih (hlongest.append g) fun h => absurd rfl h

theorem take_zeroes_drop (gs : List (BitVec 16)) :
    let span := zeroes 0 ⟨0,0⟩ ⟨0,0⟩ gs
    gs = gs.take span.start ++ List.replicate span.len 0 ++ gs.drop (span.start+span.len) := by
  intro span
  have hnone : Span.AtEnd ⟨0,0⟩ [] := fun h => absurd rfl h
  have hin : span.In ([] ++ gs) := zeroes_in gs hnone.toIn hnone
  by_cases hs : span.len = 0
  · simp [hs]
  · obtain ⟨pre,post,hgs,hpre⟩ := hin hs
    simp only [List.nil_append] at hgs
    have htake : gs.take span.start = pre := by simp [hgs,← hpre]
    have hdrop : gs.drop (span.start+span.len) = post := by
      simp [hgs,← hpre,List.drop_append,List.drop_eq_nil_of_le]
    rw [htake,hdrop]
    exact hgs

end Zeroes

section Shape

/-- What stands before or after `::` is one empty field when no group stands there. -/
def ends (gs : List (List Char)) : List (List Char) := if gs = [] then [[]] else gs

def Group (g : List Char) : Prop := g ≠ [] ∧ '.' ∉ g

inductive HexShape : List (List Char) → Prop
  | full (gs : List (List Char)) (hlen : gs.length = 8) (hgs : ∀ g ∈ gs, Group g) : HexShape gs
  | gap (pre post : List (List Char)) (hlen : pre.length+post.length ≤ 6)
      (hpre : ∀ g ∈ pre, Group g) (hpost : ∀ g ∈ post, Group g) :
      HexShape (ends pre ++ [] :: ends post)

inductive Shape : List (List Char) → Prop
  | dotted (t : List Char) (hdot : '.' ∈ t) : Shape [t]
  | hex (gs : List (List Char)) (h : HexShape gs) : Shape gs
  | mapped (t : List Char) (hdot : '.' ∈ t) : Shape [[],[],"ffff".toList,t]

theorem fmtSubslice_eq_ends (gs : List (BitVec 16)) :
    fmtSubslice gs = [':'].intercalate (ends (gs.map hexGroup)) := by
  by_cases h : gs = []
  · simp [h,fmtSubslice,ends]
  · simp [h,fmtSubslice,ends]

theorem ends_ne_nil (gs : List (List Char)) : ends gs ≠ [] := by
  unfold ends
  split <;> simp_all

@[simp] theorem length_ends (gs : List (List Char)) : (ends gs).length = max 1 gs.length := by
  unfold ends
  split
  · simp_all
  · have := List.length_pos_iff.mpr ‹gs ≠ []›
    omega

theorem mem_ends {gs : List (List Char)} {g : List Char} (h : g ∈ ends gs) : g = [] ∨ g ∈ gs := by
  unfold ends at h
  split at h
  · exact .inl (List.mem_singleton.mp h)
  · exact .inr h

theorem colon_not_mem_map (gs : List (BitVec 16)) : ∀ l ∈ gs.map hexGroup, ':' ∉ l := by
  intro l hl
  obtain ⟨g,-,rfl⟩ := List.mem_map.mp hl
  exact (hexGroup_plain g).not_mem (by decide)

theorem colon_not_mem_ends (gs : List (BitVec 16)) : ∀ l ∈ ends (gs.map hexGroup), ':' ∉ l := by
  intro l hl
  obtain rfl | hl := mem_ends hl
  · simp
  · exact colon_not_mem_map gs l hl

theorem group_of_mem_map {gs : List (BitVec 16)} : ∀ g ∈ gs.map hexGroup, Group g := by
  intro g hg
  obtain ⟨s,-,rfl⟩ := List.mem_map.mp hg
  exact ⟨(hexGroup_plain s).1,(hexGroup_plain s).not_mem (by decide)⟩

theorem splitOn_gap (pre post : List (BitVec 16)) :
    (fmtSubslice pre ++ ':':: ':'::fmtSubslice post).splitOn ':' =
      ends (pre.map hexGroup) ++ []::ends (post.map hexGroup) := by
  have hjoin : fmtSubslice pre ++ ':':: ':'::fmtSubslice post =
      [':'].intercalate (ends (pre.map hexGroup) ++ []::ends (post.map hexGroup)) := by
    rw [intercalate_append (ends_ne_nil _) (by simp),
      List.intercalate_cons_of_ne_nil (ends_ne_nil _),fmtSubslice_eq_ends pre,
      fmtSubslice_eq_ends post]
    rfl
  rw [hjoin]
  refine List.splitOn_intercalate ':' ?_ (by simp)
  intro l hl
  simp only [List.mem_append,List.mem_cons] at hl
  obtain hl | rfl | hl := hl
  · exact colon_not_mem_ends pre l hl
  · simp
  · exact colon_not_mem_ends post l hl

@[simp] theorem splitOn_full {gs : List (BitVec 16)} (h : gs ≠ []) :
    (fmtSubslice gs).splitOn ':' = gs.map hexGroup :=
  List.splitOn_intercalate ':' (colon_not_mem_map gs) (by simpa using h)

theorem compressed_hexShape {gs : List (BitVec 16)} (h : gs.length = 8) :
    HexShape ((compressed gs).splitOn ':') := by
  have hcut := take_zeroes_drop gs
  unfold compressed
  generalize zeroes 0 ⟨0,0⟩ ⟨0,0⟩ gs = span at hcut ⊢
  dsimp only at hcut ⊢
  split
  · rename_i hlong
    rw [splitOn_gap]
    refine .gap _ _ ?_ group_of_mem_map group_of_mem_map
    have hlen := congrArg List.length hcut
    simp only [List.length_append,List.length_replicate] at hlen
    simp only [List.length_map]
    omega
  · rw [splitOn_full (by rintro rfl; cases h)]
    exact .full _ (by simpa using h) group_of_mem_map

theorem Ipv6Addr.urlText_shape (x : Ipv6Addr) : HexShape (x.urlText.splitOn ':') :=
  compressed_hexShape rfl

theorem Ipv6Addr.text_shape (x : Ipv6Addr) : Shape (x.text.splitOn ':') := by
  unfold Ipv6Addr.text
  cases x.toIpv4Mapped with
  | none => exact .hex _ (compressed_hexShape rfl)
  | some b =>
    have hfields : "::ffff:".toList ++ b.text = [':'].intercalate [[],[],"ffff".toList,b.text] := by
      simp
    simp only [hfields]
    rw [List.splitOn_intercalate ':' (by simp [b.colon_not_mem]) (by simp)]
    exact .mapped _ b.dot_mem_text

theorem IpAddr.text_shape (x : IpAddr) : Shape (x.text.splitOn ':') := by
  cases x with
  | v4 a =>
    rw [IpAddr.text,List.splitOn_eq_singleton a.colon_not_mem]
    exact .dotted _ a.dot_mem_text
  | v6 a => exact a.text_shape

end Shape

section Injective

theorem mem_fmtSubslice {gs : List (BitVec 16)} {c : Char} (h : c ∈ fmtSubslice gs) :
    c = ':' ∨ c ∉ [':',',','.','[',']'] := by
  obtain h | ⟨l,hl,hc⟩ := mem_intercalate h
  · exact .inl h
  · obtain ⟨g,-,rfl⟩ := List.mem_map.mp hl
    exact .inr ((hexGroup_plain g).2 c hc)

theorem mem_compressed {gs : List (BitVec 16)} {c : Char} (h : c ∈ compressed gs) :
    c = ':' ∨ c ∉ [':',',','.','[',']'] := by
  unfold compressed at h
  dsimp only at h
  split at h
  · simp only [List.mem_append,List.mem_cons] at h
    obtain h | h | h | h := h
    · exact mem_fmtSubslice h
    · exact .inl h
    · exact .inl h
    · exact mem_fmtSubslice h
  · exact mem_fmtSubslice h

theorem dot_not_mem_compressed (gs : List (BitVec 16)) : '.' ∉ compressed gs := by
  intro h
  obtain h | h := mem_compressed h
  · cases h
  · simp at h

theorem IpAddr.comma_not_mem_text (x : IpAddr) : ',' ∉ x.text := by
  intro h
  cases x with
  | v4 a =>
    obtain h | h := Ipv4Addr.mem_text h
    · cases h
    · simp at h
  | v6 a =>
    unfold IpAddr.text Ipv6Addr.text at h
    cases ha : a.toIpv4Mapped with
    | none =>
      simp only [ha] at h
      obtain h | h := mem_compressed h
      · cases h
      · simp at h
    | some b =>
      simp only [ha,List.mem_append] at h
      obtain h | h := h
      · simp at h
      · obtain h | h := Ipv4Addr.mem_text h
        · cases h
        · simp at h

theorem not_nil_mem {gs : List (List Char)} (h : ∀ g ∈ gs, Group g) : [] ∉ gs :=
  fun hg => (h [] hg).1 rfl

theorem ends_inj {gs hs : List (List Char)} (hg : ∀ g ∈ gs, Group g) (hh : ∀ g ∈ hs, Group g)
    (h : ends gs = ends hs) : gs = hs := by
  unfold ends at h
  split at h <;> split at h
  · simp_all
  · exact absurd (h ▸ List.mem_singleton_self []) (not_nil_mem hh)
  · exact absurd (h ▸ List.mem_singleton_self []) (not_nil_mem hg)
  · exact h

theorem ends_append (gs r : List (List Char)) :
    ends gs ++ []::r = gs ++ []::(if gs = [] then []::r else r) := by
  by_cases h : gs = []
  · simp [ends,h]
  · simp [ends,h]

theorem gap_inj {pre post pre' post' : List (List Char)} (hpre : ∀ g ∈ pre, Group g)
    (hpost : ∀ g ∈ post, Group g) (hpre' : ∀ g ∈ pre', Group g) (hpost' : ∀ g ∈ post', Group g)
    (h : ends pre ++ []::ends post = ends pre' ++ []::ends post') : pre = pre' ∧ post = post' := by
  rw [ends_append,ends_append] at h
  obtain ⟨rfl,hrest⟩ := append_cons_inj (not_nil_mem hpre) (not_nil_mem hpre') h
  refine ⟨rfl,ends_inj hpost hpost' ?_⟩
  split at hrest
  · exact (List.cons.inj hrest).2
  · exact hrest

theorem compressed_injOn {gs hs : List (BitVec 16)} (hg : gs.length = 8) (hh : hs.length = 8)
    (h : compressed gs = compressed hs) : gs = hs := by
  have hne {l : List (BitVec 16)} (hl : l.length = 8) : l ≠ [] := by
    rintro rfl
    cases hl
  have hcut := take_zeroes_drop gs
  have hcut' := take_zeroes_drop hs
  have hfields := congrArg (List.splitOn ':') h
  unfold compressed at hfields
  generalize zeroes 0 ⟨0,0⟩ ⟨0,0⟩ gs = span at hcut hfields
  generalize zeroes 0 ⟨0,0⟩ ⟨0,0⟩ hs = span' at hcut' hfields
  dsimp only at hcut hcut' hfields
  have hmiss (l : List (BitVec 16)) : [] ∉ l.map hexGroup := not_nil_mem group_of_mem_map
  split at hfields <;> split at hfields
  · rw [splitOn_gap,splitOn_gap] at hfields
    obtain ⟨hpre,hpost⟩ := gap_inj group_of_mem_map group_of_mem_map group_of_mem_map
      group_of_mem_map hfields
    replace hpre := hexGroup_injective.list_map hpre
    replace hpost := hexGroup_injective.list_map hpost
    have hlen := congrArg List.length hcut
    have hlen' := congrArg List.length hcut'
    simp only [List.length_append,List.length_replicate] at hlen hlen'
    rw [hpre,hpost] at hlen
    have hrun : span.len = span'.len := by omega
    rw [hcut,hcut',hpre,hpost,hrun]
  · rw [splitOn_gap,splitOn_full (hne hh)] at hfields
    exact absurd (hfields ▸ by simp) (hmiss hs)
  · rw [splitOn_gap,splitOn_full (hne hg)] at hfields
    exact absurd (hfields ▸ by simp) (hmiss gs)
  · rw [splitOn_full (hne hg),splitOn_full (hne hh)] at hfields
    exact hexGroup_injective.list_map hfields

theorem byte_inj {s t : BitVec 16} (hhigh : highByte s = highByte t)
    (hlow : lowByte s = lowByte t) : s = t := by
  unfold highByte lowByte at *
  bv_omega

theorem Ipv6Addr.toIpv4Mapped_inj {x y : Ipv6Addr} {a : Ipv4Addr} (hx : x.toIpv4Mapped = some a)
    (hy : y.toIpv4Mapped = some a) : x = y := by
  unfold toIpv4Mapped at hx hy
  split at hx
  · split at hy
    · rename_i h h'
      obtain rfl := Option.some.inj hx
      have heq := Option.some.inj hy
      simp only [Ipv4Addr.mk.injEq] at heq
      have h6 := byte_inj heq.1 heq.2.1
      have h7 := byte_inj heq.2.2.1 heq.2.2.2
      cases x
      cases y
      simp_all
    · cases hy
  · cases hx

theorem Ipv6Addr.text_injective : Function.Injective Ipv6Addr.text := by
  intro x y h
  have hdot (z : Ipv6Addr) (b : Ipv4Addr) :
      "::ffff:".toList ++ b.text ≠ compressed z.segments := by
    intro heq
    exact dot_not_mem_compressed z.segments (heq ▸ List.mem_append_right _ b.dot_mem_text)
  unfold Ipv6Addr.text at h
  cases hx : x.toIpv4Mapped with
  | none =>
    cases hy : y.toIpv4Mapped with
    | none =>
      simp only [hx,hy] at h
      exact segments_injective (compressed_injOn rfl rfl h)
    | some b =>
      simp only [hx,hy] at h
      exact absurd h.symm (hdot x b)
  | some a =>
    cases hy : y.toIpv4Mapped with
    | none =>
      simp only [hx,hy] at h
      exact absurd h (hdot y a)
    | some b =>
      simp only [hx,hy] at h
      obtain rfl := Ipv4Addr.text_injective (List.append_cancel_left h)
      exact toIpv4Mapped_inj hx hy

theorem HexShape.three_le {l : List (List Char)} (h : HexShape l) : 3 ≤ l.length := by
  cases h with
  | full gs hlen hgs => omega
  | gap pre post hlen hpre hpost =>
    simp only [List.length_append,List.length_cons,length_ends]
    omega

theorem Ipv6Addr.colon_mem_urlText (x : Ipv6Addr) : ':' ∈ x.urlText := by
  by_contra h
  have hthree := x.urlText_shape.three_le
  rw [List.splitOn_eq_singleton h] at hthree
  simp at hthree

theorem Ipv6Addr.colon_mem_text (x : Ipv6Addr) : ':' ∈ x.text := by
  unfold Ipv6Addr.text
  cases x.toIpv4Mapped with
  | some a => simp
  | none => exact x.colon_mem_urlText

theorem IpAddr.text_injective : Function.Injective IpAddr.text := by
  have hne (a : Ipv4Addr) (b : Ipv6Addr) : a.text ≠ b.text := fun h =>
    a.colon_not_mem (h ▸ b.colon_mem_text)
  intro x y h
  cases x with
  | v4 a =>
    cases y with
    | v4 b => exact congrArg v4 (Ipv4Addr.text_injective h)
    | v6 b => exact absurd h (hne a b)
  | v6 a =>
    cases y with
    | v4 b => exact absurd h.symm (hne b a)
    | v6 b => exact congrArg v6 (Ipv6Addr.text_injective h)

end Injective
end Ait
