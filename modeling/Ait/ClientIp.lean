import Ait.Cidr
import Ait.Delimited
import Ait.Handlers
import Ait.Json

/-!
# The client address

A request that comes through a trusted proxy is attributed to an entry of its
`X-Forwarded-For` header, counted from the right: the client wrote the entries on
the left. What arrives is a list of header lines, and the code reads the first one.
-/

namespace Ait
open Delimited

/-- `http::HeaderValue`: no control character but the tab. -/
structure HeaderValue where
  bytes : Bytes
  valid : ∀ b ∈ bytes, 32 ≤ b ∧ b ≠ 127 ∨ b = 9

def isVisible (b : UInt8) : Bool := 32 ≤ b && b < 127 || b == 9

def byteChar (b : UInt8) : Char := Char.ofNat b.toNat

/-- `HeaderValue::to_str`, which refuses every byte outside visible ASCII. -/
def HeaderValue.toStr (v : HeaderValue) : Option String :=
  if v.bytes.all isVisible then some (String.ofList (v.bytes.map byteChar)) else none

inductive TrustedProxy
  | ip (addr : IpAddr)
  | cidr (addr : IpAddr) (len : ℕ)

def TrustedProxy.contains (t : TrustedProxy) (ip : IpAddr) : Bool :=
  match t with
  | .ip (.v4 addr) => ipInPrefix ip (.v4 addr) 32
  | .ip (.v6 addr) => ipInPrefix ip (.v6 addr) 128
  | .cidr addr len => ipInPrefix ip addr len

def isTrustedProxy (ip : IpAddr) (trusted : List TrustedProxy) : Bool :=
  trusted.any fun t => t.contains ip

/-- The address `hops` trusted proxies back in the chain; `none` when the chain is shorter
or the picked entry is not an address. -/
def forwardedClientIp (value : String) (hops : ℕ) : Option IpAddr :=
  let parts := (value.toList.splitOn ',').map fun part => trim (String.ofList part)
  if parts.length < hops then none
  else parts[parts.length-hops]?.bind fun entry => IpAddr.fromStr entry.toList

/-- What `get_client_ip` reads of a request: the peer, and the lines of two headers. -/
structure PeerRequest where
  peer : Option IpAddr
  forwardedFor : List HeaderValue
  realIp : List HeaderValue

def getClientIp (req : PeerRequest) (trustedProxies : List TrustedProxy) (hops : ℕ) :
    Option IpAddr :=
  let directIp := req.peer
  let trusted := directIp.any fun ip => isTrustedProxy ip trustedProxies
  if trusted then
    -- `HeaderMap::get` answers with the first line of a header
    match (req.forwardedFor.head?.bind HeaderValue.toStr).bind (forwardedClientIp · hops) with
    | some ip => some ip
    | none =>
      match (req.realIp.head?.bind HeaderValue.toStr).bind (IpAddr.fromStr ·.toList) with
      | some ip => some ip
      | none => directIp
  else directIp

def comma : UInt8 := 44

def isBlank (b : UInt8) : Bool := b == 32 || b == 9

def trimBlanks (b : Bytes) : Bytes := (b.dropWhile isBlank).rdropWhile isBlank

def entries (lines : List HeaderValue) : List Bytes :=
  lines.flatMap fun v => (v.bytes.splitOn comma).map trimBlanks

/-- Both chains have `hops` entries, and the last `hops` of them are the same. -/
def SameTail (hops : ℕ) (f g : List HeaderValue) : Prop :=
  hops ≤ (entries f).length ∧ hops ≤ (entries g).length ∧
    (entries f).drop ((entries f).length-hops) = (entries g).drop ((entries g).length-hops)

/-- What an `X-Forwarded-For` header looks like before any entry is read. -/
structure Arrival where
  lines : ℕ
  /-- The first line is visible ASCII throughout. -/
  readable : Bool
  deriving DecidableEq

def arrival (lines : List HeaderValue) : Arrival :=
  ⟨lines.length,lines.head?.any fun v => v.bytes.all isVisible⟩

/-- Two requests of these arrivals that agree on the last `hops` entries get one address. -/
def Unspoofable (trustedProxies : List TrustedProxy) (peer : IpAddr) (hops : ℕ)
    (realIp : List HeaderValue) (a b : Arrival) : Prop :=
  ∀ f g : List HeaderValue, arrival f = a → arrival g = b → SameTail hops f g →
    getClientIp ⟨some peer,f,realIp⟩ trustedProxies hops =
      getClientIp ⟨some peer,g,realIp⟩ trustedProxies hops

@[simp] theorem splitOn_joined {lines : List Bytes} (h : lines ≠ []) :
    ([comma].intercalate lines).splitOn comma = lines.flatMap (List.splitOn comma) := by
  induction lines with
  | nil => exact absurd rfl h
  | cons l ls ih =>
    by_cases hls : ls = []
    · simp [hls]
    · rw [List.intercalate_cons_of_ne_nil hls]
      simp [List.splitOn_append_cons_self,ih hls]

theorem entries_eq_joined {lines : List HeaderValue} (h : lines ≠ []) :
    entries lines =
      (([comma].intercalate (lines.map HeaderValue.bytes)).splitOn comma).map trimBlanks := by
  rw [splitOn_joined (by simpa using h),entries]
  simp [List.map_flatMap,List.flatMap_map]

theorem visible_byte : ∀ b : UInt8, isVisible b = true →
    (byteChar b = ',' ↔ b = comma) ∧ isWhitespace (byteChar b) = isBlank b := by
  decide +kernel

section Split

variable {α β : Type}

theorem dropWhile_map {f : α → β} {p : α → Bool} {q : β → Bool} {l : List α}
    (h : ∀ x ∈ l, q (f x) = p x) : (l.map f).dropWhile q = (l.dropWhile p).map f := by
  induction l with
  | nil => rfl
  | cons x l ih =>
    have hx := h x (by simp)
    cases hp : p x with
    | true => simp [hx,hp,ih fun y hy => h y (by simp [hy])]
    | false => simp [hx,hp]

theorem rdropWhile_map {f : α → β} {p : α → Bool} {q : β → Bool} {l : List α}
    (h : ∀ x ∈ l, q (f x) = p x) : (l.map f).rdropWhile q = (l.rdropWhile p).map f := by
  simp [List.rdropWhile,← List.map_reverse,
    dropWhile_map (l := l.reverse) fun x hx => h x (List.mem_reverse.mp hx)]

variable [DecidableEq α] [DecidableEq β]

theorem mem_of_mem_splitOn {l piece : List α} {a x : α} (hpiece : piece ∈ l.splitOn a)
    (hx : x ∈ piece) : x ∈ l := by
  have hjoin : ∀ ps : List (List α), piece ∈ ps → x ∈ [a].intercalate ps := by
    intro ps hp
    induction ps with
    | nil => cases hp
    | cons p ps ih =>
      by_cases hps : ps = []
      · subst hps
        obtain rfl := List.mem_singleton.mp hp
        simpa using hx
      · rw [List.intercalate_cons_of_ne_nil hps]
        rcases List.mem_cons.mp hp with rfl | hp
        · simp [hx]
        · simp [ih hp]
  have h := hjoin _ hpiece
  rwa [List.intercalate_splitOn] at h

theorem splitOn_map {f : α → β} {a : α} {b : β} {l : List α} (h : ∀ x ∈ l, f x = b ↔ x = a) :
    (l.map f).splitOn b = (l.splitOn a).map (List.map f) := by
  induction l with
  | nil => simp
  | cons x l ih =>
    have hrest := ih fun y hy => h y (by simp [hy])
    rw [List.map_cons,List.splitOn_cons_eq_if_modifyHead,List.splitOn_cons_eq_if_modifyHead,hrest]
    by_cases hx : x = a
    · have hf : f x = b := (h x (by simp)).mpr hx
      subst hx
      simp [hf]
    · have hf : f x ≠ b := fun hb => hx ((h x (by simp)).mp hb)
      cases hsplit : l.splitOn a with
      | nil => exact absurd hsplit (List.splitOn_ne_nil a l)
      | cons p ps => simp [hx,hf]

end Split

@[simp] theorem trim_visible {entry : Bytes} (h : ∀ b ∈ entry, isVisible b = true) :
    trim (String.ofList (entry.map byteChar)) = String.ofList ((trimBlanks entry).map byteChar) := by
  have hblank : ∀ b ∈ entry, isWhitespace (byteChar b) = isBlank b := fun b hb =>
    (visible_byte b (h b hb)).2
  rw [trim,String.toList_ofList,dropWhile_map hblank,rdropWhile_map,trimBlanks]
  exact fun b hb => hblank b ((List.dropWhile_suffix _).subset hb)

theorem forwardedClientIp_of_toStr {v : HeaderValue} {text : String} {hops : ℕ}
    (h : v.toStr = some text) (hlong : hops ≤ (entries [v]).length) :
    forwardedClientIp text hops =
      ((entries [v]).drop ((entries [v]).length-hops)).head?.bind fun entry =>
        IpAddr.fromStr (entry.map byteChar) := by
  have hvisible : ∀ b ∈ v.bytes, isVisible b = true := by
    by_contra hno
    simp [HeaderValue.toStr] at h
    simp_all
  have htext : text = String.ofList (v.bytes.map byteChar) := by
    simp only [HeaderValue.toStr,List.all_eq_true.mpr hvisible,if_true,Option.some.injEq] at h
    exact h.symm
  have hparts : ((text.toList.splitOn ',').map fun part => trim (String.ofList part)) =
      (entries [v]).map fun entry => String.ofList (entry.map byteChar) := by
    rw [htext,String.toList_ofList,
      splitOn_map fun b hb => (visible_byte b (hvisible b hb)).1]
    simp only [entries,List.flatMap_cons,List.flatMap_nil,List.append_nil,List.map_map]
    refine List.map_congr_left fun piece hpiece => ?_
    exact trim_visible fun b hb => hvisible b (mem_of_mem_splitOn hpiece hb)
  have hlt : ¬(entries [v]).length < hops := by omega
  unfold forwardedClientIp
  rw [hparts]
  simp only [List.length_map,if_neg hlt,List.getElem?_map,List.head?_drop]
  cases (entries [v])[(entries [v]).length-hops]? with
  | none => rfl
  | some entry => simp

section Trusted

variable {trustedProxies : List TrustedProxy} {peer : IpAddr} {hops : ℕ}
  {realIp f g : List HeaderValue} {a b : Arrival}

theorem getClientIp_trusted (htrusted : isTrustedProxy peer trustedProxies = true) :
    getClientIp ⟨some peer,f,realIp⟩ trustedProxies hops =
      ((f.head?.bind HeaderValue.toStr).bind (forwardedClientIp · hops)).or
        (getClientIp ⟨some peer,[],realIp⟩ trustedProxies hops) := by
  simp only [getClientIp,Option.any_some,htrusted,if_true,List.head?_nil,Option.bind_none]
  cases (f.head?.bind HeaderValue.toStr).bind (forwardedClientIp · hops) <;> simp

theorem SameTail.symm (h : SameTail hops f g) : SameTail hops g f := ⟨h.2.1,h.1,h.2.2.symm⟩

theorem Unspoofable.symm (h : Unspoofable trustedProxies peer hops realIp a b) :
    Unspoofable trustedProxies peer hops realIp b a :=
  fun f g hf hg htail => (h g f hg hf htail.symm).symm

@[simp] theorem getClientIp_unreadable (htrusted : isTrustedProxy peer trustedProxies = true)
    (h : (arrival f).readable = false) :
    getClientIp ⟨some peer,f,realIp⟩ trustedProxies hops =
      getClientIp ⟨some peer,[],realIp⟩ trustedProxies hops := by
  have hnone : f.head?.bind HeaderValue.toStr = none := by
    cases f with
    | nil => rfl
    | cons v f =>
      have hv : v.bytes.all isVisible = false := by simpa [arrival] using h
      simp [HeaderValue.toStr,hv]
  rw [getClientIp_trusted htrusted,hnone]
  simp

/-- From one readable line the address is that of the entry `hops` from the right. -/
theorem getClientIp_line (htrusted : isTrustedProxy peer trustedProxies = true)
    (h : arrival f = ⟨1,true⟩) (hlong : hops ≤ (entries f).length) :
    getClientIp ⟨some peer,f,realIp⟩ trustedProxies hops =
      (((entries f).drop ((entries f).length-hops)).head?.bind fun entry =>
        IpAddr.fromStr (entry.map byteChar)).or
          (getClientIp ⟨some peer,[],realIp⟩ trustedProxies hops) := by
  obtain ⟨v,rfl⟩ := List.length_eq_one_iff.mp (congrArg Arrival.lines h)
  have hv : v.bytes.all isVisible = true := by
    simpa [arrival] using congrArg Arrival.readable h
  have htext : v.toStr = some (String.ofList (v.bytes.map byteChar)) := by
    simp [HeaderValue.toStr,hv]
  rw [getClientIp_trusted htrusted]
  simp only [List.head?_cons,Option.bind_some,htext,forwardedClientIp_of_toStr htext hlong]

def spelled : Bool → Bytes
  | true => [49,46,49,46,49,46,49]
  | false => [50,46,50,46,50,46,50]

def spelledIp : Bool → IpAddr
  | true => .v4 ⟨1,1,1,1⟩
  | false => .v4 ⟨2,2,2,2⟩

@[simp] theorem fromStr_spelled :
    ∀ x, IpAddr.fromStr ((spelled x).map byteChar) = some (spelledIp x) := by
  decide

/-- The entry before the `hops` entries of a line, if any, is not ASCII. -/
def chain (readable : Bool) (hops : ℕ) (x : Bool) : List Bytes :=
  (if readable then [] else [[255]]) ++ List.replicate hops (spelled x)

theorem chain_bytes {readable : Bool} {x : Bool} :
    ∀ piece ∈ chain readable hops x, comma ∉ piece ∧ trimBlanks piece = piece ∧
      (∀ b ∈ piece, 32 ≤ b ∧ b ≠ 127 ∨ b = 9) ∧ (readable = true → piece.all isVisible) := by
  intro piece hpiece
  rcases List.mem_append.mp hpiece with hpiece | hpiece
  · cases readable with
    | true => simp at hpiece
    | false =>
      obtain rfl := List.mem_singleton.mp hpiece
      decide +kernel
  · obtain rfl := List.eq_of_mem_replicate hpiece
    cases x <;> cases readable <;> decide +kernel

def chainLine (readable : Bool) (hops : ℕ) (x : Bool) : HeaderValue where
  bytes := [comma].intercalate (chain readable hops x)
  valid := by
    intro b hb
    rcases mem_intercalate hb with rfl | ⟨piece,hpiece,hb⟩
    · decide
    · exact (chain_bytes piece hpiece).2.2.1 b hb

@[simp] theorem entries_chainLine {readable : Bool} {x : Bool} (hpos : 1 ≤ hops) :
    entries [chainLine readable hops x] = chain readable hops x := by
  have hne : chain readable hops x ≠ [] := by
    simp [chain]
    omega
  have hsplit : (chainLine readable hops x).bytes.splitOn comma = chain readable hops x :=
    List.splitOn_intercalate comma (fun piece hpiece => (chain_bytes piece hpiece).1) hne
  simp only [entries,List.flatMap_cons,List.flatMap_nil,List.append_nil,hsplit]
  have hblanks : (chain readable hops x).map trimBlanks = (chain readable hops x).map id :=
    List.map_congr_left fun piece hpiece => (chain_bytes piece hpiece).2.1
  simpa using hblanks

@[simp] theorem readable_chainLine {readable : Bool} {x : Bool} :
    (chainLine readable hops x).bytes.all isVisible = readable := by
  cases readable with
  | true =>
    rw [List.all_eq_true]
    intro b hb
    rcases mem_intercalate hb with rfl | ⟨piece,hpiece,hb⟩
    · decide
    · exact List.all_eq_true.mp ((chain_bytes piece hpiece).2.2.2 rfl) b hb
  | false =>
    rw [List.all_eq_false]
    refine ⟨255,?_,by decide⟩
    cases hops with
    | zero => simp [chainLine,chain]
    | succ n => simp [chainLine,chain,List.replicate_succ]

/-- A request of this arrival: the later lines hold `tail` throughout, the first one `first`. -/
def sample (a : Arrival) (hops : ℕ) (first tail : Bool) : List HeaderValue :=
  chainLine a.readable hops first::List.replicate (a.lines-1) (chainLine true hops tail)

@[simp] theorem arrival_sample {first tail : Bool} (h : a.lines ≠ 0) :
    arrival (sample a hops first tail) = a := by
  cases a with
  | mk lines readable =>
    simp only [arrival,sample,List.length_cons,List.length_replicate,List.head?_cons,
      Option.any_some,readable_chainLine,Arrival.mk.injEq,and_true]
    simp only at h
    omega

theorem entries_cons (v : HeaderValue) (vs : List HeaderValue) :
    entries (v::vs) = entries [v] ++ entries vs := by
  simp [entries]

theorem entries_later {tail : Bool} (n : ℕ) (hpos : 1 ≤ hops) :
    entries (List.replicate n (chainLine true hops tail)) =
      List.replicate (n*hops) (spelled tail) := by
  induction n with
  | zero => simp [entries]
  | succ n ih =>
    rw [List.replicate_succ,entries_cons,ih,entries_chainLine hpos]
    simp [chain,List.replicate_append_replicate,Nat.succ_mul,Nat.add_comm]

theorem entries_sample {first tail : Bool} (hpos : 1 ≤ hops) (h : a.lines = 1 → first = tail)
    (hlines : a.lines ≠ 0) :
    ∃ earlier,
      entries (sample a hops first tail) = earlier ++ List.replicate hops (spelled tail) := by
  rw [sample,entries_cons,entries_chainLine hpos,entries_later _ hpos]
  by_cases hone : a.lines = 1
  · exact ⟨if a.readable then [] else [[255]],by simp [hone,h hone,chain]⟩
  · have hmul : (a.lines-1)*hops = (a.lines-2)*hops + hops := by
      rw [← Nat.succ_mul]
      congr 1
      omega
    rw [hmul,← List.replicate_append_replicate,← List.append_assoc]
    exact ⟨_,rfl⟩

theorem sameTail_sample {first first' tail : Bool} (hpos : 1 ≤ hops) (ha : a.lines ≠ 0)
    (hb : b.lines ≠ 0) (hfirst : a.lines = 1 → first = tail) (hfirst' : b.lines = 1 → first' = tail) :
    SameTail hops (sample a hops first tail) (sample b hops first' tail) := by
  obtain ⟨earlier,hentries⟩ := entries_sample hpos hfirst ha
  obtain ⟨earlier',hentries'⟩ := entries_sample hpos hfirst' hb
  unfold SameTail
  rw [hentries,hentries']
  simp

/-- The code answers with the first line's entry, or not from this header. -/
theorem getClientIp_sample {first tail : Bool} (hpos : 1 ≤ hops)
    (htrusted : isTrustedProxy peer trustedProxies = true) :
    getClientIp ⟨some peer,sample a hops first tail,realIp⟩ trustedProxies hops =
      if a.readable then some (spelledIp first)
      else getClientIp ⟨some peer,[],realIp⟩ trustedProxies hops := by
  cases hread : a.readable with
  | false =>
    have hunread : (arrival (sample a hops first tail)).readable = false := by
      simp [arrival,sample,hread]
    simp [getClientIp_unreadable htrusted hunread]
  | true =>
    have hline : getClientIp ⟨some peer,sample a hops first tail,realIp⟩ trustedProxies hops =
        getClientIp ⟨some peer,[chainLine true hops first],realIp⟩ trustedProxies hops := by
      rw [getClientIp_trusted htrusted,
        getClientIp_trusted (f := [chainLine true hops first]) htrusted,sample,hread]
      rfl
    have hentries : entries [chainLine true hops first] = List.replicate hops (spelled first) := by
      rw [entries_chainLine hpos]
      simp [chain]
    rw [hline,getClientIp_line htrusted (by simp [arrival]) (by simp [hentries])]
    have hhead : (List.replicate hops (spelled first)).head? = some (spelled first) := by
      cases hops with
      | zero => omega
      | succ n => rfl
    simp [hentries,hhead]

/-- A readable header and an unreadable one, with nothing but `tail` in both. -/
theorem not_unspoofable_unreadable (hpos : 1 ≤ hops)
    (htrusted : isTrustedProxy peer trustedProxies = true) (ha : a.lines ≠ 0) (hb : b.lines ≠ 0)
    (hread : a.readable = true) (hunread : b.readable = false) :
    ¬Unspoofable trustedProxies peer hops realIp a b := by
  intro h
  have hboth : ∀ x, some (spelledIp x) =
      getClientIp ⟨some peer,[],realIp⟩ trustedProxies hops := by
    intro x
    have hx := h (sample a hops x x) (sample b hops x x) (arrival_sample ha) (arrival_sample hb)
      (sameTail_sample hpos ha hb (fun _ => rfl) (fun _ => rfl))
    simpa [getClientIp_sample hpos htrusted,hread,hunread] using hx
  have hsame := (hboth true).trans (hboth false).symm
  revert hsame
  decide

/-- With a second line the first one, which decides, lies outside the last entries. -/
theorem not_unspoofable_lines (hpos : 1 ≤ hops)
    (htrusted : isTrustedProxy peer trustedProxies = true) (ha : a.lines ≠ 0) (hb : b.lines ≠ 0)
    (hread : a.readable = true) (hread' : b.readable = true) (hlines : a.lines ≠ 1) :
    ¬Unspoofable trustedProxies peer hops realIp a b := by
  intro h
  have hx := h (sample a hops true false) (sample b hops false false) (arrival_sample ha)
    (arrival_sample hb) (sameTail_sample hpos ha hb (fun hone => absurd hone hlines) (fun _ => rfl))
  simp only [getClientIp_sample hpos htrusted,hread,hread',if_true] at hx
  revert hx
  decide

end Trusted

/-- Behind a trusted proxy the last entries decide, provided the header comes in one readable line
or is not readable at all: between any two other arrivals there is a forgery. -/
theorem unspoofable_iff (trustedProxies : List TrustedProxy) (peer : IpAddr) (hops : ℕ)
    (realIp : List HeaderValue) (a b : Arrival)
    (htrusted : isTrustedProxy peer trustedProxies = true) (hpos : 1 ≤ hops) :
    Unspoofable trustedProxies peer hops realIp a b ↔
      a.lines = 0 ∨ b.lines = 0 ∨ (a.readable = false ∧ b.readable = false) ∨
        (a = ⟨1,true⟩ ∧ b = ⟨1,true⟩) := by
  constructor
  · intro h
    by_contra hno
    simp only [not_or,not_and] at hno
    obtain ⟨ha,hb,hread,hone⟩ := hno
    cases hra : a.readable with
    | false =>
      have hrb : b.readable = true := by simpa using hread hra
      exact not_unspoofable_unreadable hpos htrusted hb ha hrb hra h.symm
    | true =>
      cases hrb : b.readable with
      | false => exact not_unspoofable_unreadable hpos htrusted ha hb hra hrb h
      | true =>
        by_cases hla : a.lines = 1
        · have hlb : b.lines ≠ 1 := by
            intro hlb
            refine hone ?_ ?_
            · cases a
              simp_all
            · cases b
              simp_all
          exact not_unspoofable_lines hpos htrusted hb ha hrb hra hlb h.symm
        · exact not_unspoofable_lines hpos htrusted ha hb hra hrb hla h
  · intro h f g hf hg htail
    have hnonempty : ∀ lines : List HeaderValue, (arrival lines).lines = 0 →
        ¬hops ≤ (entries lines).length := by
      intro lines hlines
      obtain rfl := List.length_eq_zero_iff.mp hlines
      have hzero : (entries []).length = 0 := rfl
      omega
    rcases h with h | h | ⟨hra,hrb⟩ | ⟨ha,hb⟩
    · exact absurd htail.1 (hnonempty f (by rw [hf,h]))
    · exact absurd htail.2.1 (hnonempty g (by rw [hg,h]))
    · have hskip : (arrival f).readable = false := by rw [hf,hra]
      have hskip' : (arrival g).readable = false := by rw [hg,hrb]
      exact (getClientIp_unreadable htrusted hskip).trans (getClientIp_unreadable htrusted hskip').symm
    · rw [getClientIp_line htrusted (hf.trans ha) htail.1,
        getClientIp_line htrusted (hg.trans hb) htail.2.1,htail.2.2]

theorem unspoofable_iff_single_hop :
    Unspoofable [.ip (.v4 ⟨127,0,0,1⟩)] (.v4 ⟨127,0,0,1⟩) 1 [] ⟨1,true⟩ ⟨1,true⟩ ∧
      ¬Unspoofable [.ip (.v4 ⟨127,0,0,1⟩)] (.v4 ⟨127,0,0,1⟩) 1 [] ⟨2,true⟩ ⟨2,true⟩ := by
  have hiff := unspoofable_iff [.ip (.v4 ⟨127,0,0,1⟩)] (.v4 ⟨127,0,0,1⟩) 1 []
  constructor
  · rw [hiff _ _ (by decide) (by decide)]
    decide
  · rw [hiff _ _ (by decide) (by decide)]
    decide

/-- `d.d.d.d` for a digit. -/
def dotted (d : UInt8) : Bytes := [d,46,d,46,d,46,d]

def dottedLine : Bool → HeaderValue
  | true => ⟨dotted 54,by decide +kernel⟩
  | false => ⟨dotted 55,by decide +kernel⟩

/-- `10.20.30.40`, in the line the proxy added. -/
def addedLine : HeaderValue := ⟨[49,48,46,50,48,46,51,48,46,52,48],by decide +kernel⟩

/-- One hop, and the proxy adds a line of its own: the address is the one the client made up. -/
theorem getClientIp_first_line :
    isTrustedProxy (.v4 ⟨127,0,0,1⟩) [.ip (.v4 ⟨127,0,0,1⟩)] = true ∧
      SameTail 1 [dottedLine true,addedLine] [dottedLine false,addedLine] ∧
      getClientIp ⟨some (.v4 ⟨127,0,0,1⟩),[dottedLine true,addedLine],[]⟩
        [.ip (.v4 ⟨127,0,0,1⟩)] 1 = some (.v4 ⟨6,6,6,6⟩) ∧
      getClientIp ⟨some (.v4 ⟨127,0,0,1⟩),[dottedLine false,addedLine],[]⟩
        [.ip (.v4 ⟨127,0,0,1⟩)] 1 = some (.v4 ⟨7,7,7,7⟩) := by
  unfold SameTail
  decide +kernel

end Ait
