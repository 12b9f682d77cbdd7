import Ait.SseAccount
import Ait.SseBytes

/-!
# Independence of the chunking

A stream that keeps to one boundary convention is cut into the same pieces however the
network cuts it into chunks: an incremental search misses no boundary, and a boundary
seen early stays the first one.
-/

namespace Ait
open Transition Search SseTransformStream

def boundary (b : Bytes) : Option ℕ := boundaryFrom b 0

/-- No boundary starts before position `k`. -/
def Unseen (buf : Bytes) (k : ℕ) : Prop := ∀ j < k, ¬At doubleCrlf buf j ∧ ¬At doubleNewline buf j

def SingleConvention (b : Bytes) : Prop := ¬(doubleNewline <:+: b ∧ doubleCrlf <:+: b)

/-- Every event, counted with its boundary, and the unterminated tail fit the buffer. -/
def EventsFit (b : Bytes) : Prop :=
  ∀ pieces tail, Segmented boundary b pieces tail →
    (∀ piece ∈ pieces, piece.length ≤ maxSseBufferBytes) ∧ tail.length ≤ maxSseBufferBytes

section Boundary

variable {buf more b : Bytes} {n k : ℕ}

theorem doubleCrlf_ne_nil : doubleCrlf ≠ [] := by simp [doubleCrlf]

theorem doubleNewline_ne_nil : doubleNewline ≠ [] := by simp [doubleNewline]

theorem boundary_eq (buf : Bytes) : boundary buf =
    ((find doubleCrlf buf).map (· + 4)).or ((find doubleNewline buf).map (· + 2)) := by
  simp only [boundary,boundaryFrom,Nat.zero_min,List.drop_zero,Nat.zero_add]
  cases find doubleCrlf buf <;> simp

@[simp] theorem boundary_eq_none : boundary buf = none ↔
    ∀ j, ¬At doubleCrlf buf j ∧ ¬At doubleNewline buf j := by
  rw [boundary_eq,Option.or_eq_none_iff,Option.map_eq_none_iff,Option.map_eq_none_iff,
    find_eq_none doubleCrlf_ne_nil,find_eq_none doubleNewline_ne_nil]
  exact forall_and.symm

/-- A search that starts behind positions without a boundary finds the same one. -/
@[simp] theorem boundaryFrom_unseen (h : Unseen buf k) : boundaryFrom buf k = boundary buf := by
  have hcrlf := find_drop doubleCrlf_ne_nil (k := min k buf.length)
    fun j hj => (h j (lt_of_lt_of_le hj (min_le_left _ _))).1
  have hlf := find_drop doubleNewline_ne_nil (k := min k buf.length)
    fun j hj => (h j (lt_of_lt_of_le hj (min_le_left _ _))).2
  rw [boundary_eq,← hcrlf,← hlf]
  unfold boundaryFrom
  dsimp only
  cases find doubleCrlf (buf.drop (min k buf.length)) with
  | some i => simp
  | none =>
    cases find doubleNewline (buf.drop (min k buf.length)) <;> simp

theorem unseen_append (h : boundary buf = none) (more : Bytes) :
    Unseen (buf ++ more) (buf.length-3) := by
  intro j hj
  have hnone := boundary_eq_none.mp h j
  constructor
  · intro hat
    exact hnone.1 ((at_append (by simp [doubleCrlf]; omega)).mp hat)
  · intro hat
    exact hnone.2 ((at_append (by simp [doubleNewline]; omega)).mp hat)

theorem boundary_at (h : boundary buf = some n) :
    ∃ i, At doubleCrlf buf i ∧ n = i+4 ∨ At doubleNewline buf i ∧ n = i+2 := by
  rw [boundary_eq,Option.or_eq_some_iff] at h
  rcases h with h | ⟨-,h⟩
  · obtain ⟨i,hi,rfl⟩ := Option.map_eq_some_iff.mp h
    exact ⟨i,.inl ⟨((find_eq_some doubleCrlf_ne_nil).mp hi).1,rfl⟩⟩
  · obtain ⟨i,hi,rfl⟩ := Option.map_eq_some_iff.mp h
    exact ⟨i,.inr ⟨((find_eq_some doubleNewline_ne_nil).mp hi).1,rfl⟩⟩

theorem boundary_le (h : boundary buf = some n) : 0 < n ∧ n ≤ buf.length := by
  obtain ⟨i,⟨hat,rfl⟩ | ⟨hat,rfl⟩⟩ := boundary_at h
  · have hle := hat.le doubleCrlf_ne_nil
    simp only [doubleCrlf,List.length_cons,List.length_nil] at hle
    omega
  · have hle := hat.le doubleNewline_ne_nil
    simp only [doubleNewline,List.length_cons,List.length_nil] at hle
    omega

theorem boundary_append (hsingle : SingleConvention (buf ++ more)) (h : boundary buf = some n) :
    boundary (buf ++ more) = some n := by
  rw [boundary_eq,Option.or_eq_some_iff] at h
  rw [boundary_eq]
  rcases h with h | ⟨-,h⟩
  · obtain ⟨i,hi,rfl⟩ := Option.map_eq_some_iff.mp h
    rw [find_append doubleCrlf_ne_nil hi]
    rfl
  · obtain ⟨i,hi,rfl⟩ := Option.map_eq_some_iff.mp h
    have hlf := find_append doubleNewline_ne_nil hi more
    have hcrlf : find doubleCrlf (buf ++ more) = none := by
      refine (find_eq_none doubleCrlf_ne_nil).mpr fun j hj => ?_
      have hat := ((find_eq_some doubleNewline_ne_nil).mp hlf).1
      exact hsingle ⟨isInfix_iff_at.mpr ⟨_,hat⟩,isInfix_iff_at.mpr ⟨_,hj⟩⟩
    rw [hcrlf,hlf]
    rfl

theorem lt_of_boundary_append (hnone : boundary buf = none)
    (h : boundary (buf ++ more) = some n) : buf.length < n := by
  by_contra hle
  obtain ⟨i,⟨hat,rfl⟩ | ⟨hat,rfl⟩⟩ := boundary_at h
  · exact (boundary_eq_none.mp hnone i).1 ((at_append (by simp [doubleCrlf]; omega)).mp hat)
  · exact (boundary_eq_none.mp hnone i).2 ((at_append (by simp [doubleNewline]; omega)).mp hat)

theorem SingleConvention.drop (h : SingleConvention b) (n : ℕ) : SingleConvention (b.drop n) := by
  intro hboth
  have hsub := (b.drop_suffix n).isInfix
  exact h ⟨hboth.1.trans hsub,hboth.2.trans hsub⟩

end Boundary

namespace SseTransformStream

def unsent (s : SseTransformStream) : Bytes := (chunks s.inner).flatten

/-- A stream that is about to cut off `pieces`, those it took being the first of them, and to
be left with `tail`. -/
structure Cutting (pieces : List Bytes) (tail : Bytes) (s : SseTransformStream) : Prop where
  ahead : ∃ ps, pieces = s.taken ++ ps ∧ Segmented boundary (s.buf ++ s.unsent) ps tail
  single : SingleConvention (s.buf ++ s.unsent)
  unseen : Unseen s.buf s.scanned
  flushed : s.flushed = []

/-- A stream that read all of its input has taken exactly the pieces. -/
def CutAll (pieces : List Bytes) (tail : Bytes) (s : SseTransformStream) : Prop :=
  s.ended = some .eof → s.taken = pieces ∧ s.flushed = tail

structure Cut (pieces : List Bytes) (tail : Bytes) (s : SseTransformStream) : Prop where
  all : CutAll pieces tail s
  running : s.done = false → s.ended ≠ some .dropped →
    Cutting pieces tail s ∧ s.done = false ∧ s.ended = none

namespace Cutting

variable {pieces : List Bytes} {tail : Bytes} {s : SseTransformStream}

def Busy (pieces : List Bytes) (tail : Bytes) (s : SseTransformStream) : Prop :=
  Cutting pieces tail s ∧ s.done = false ∧ s.ended = none

def Idle (pieces : List Bytes) (tail : Bytes) (s : SseTransformStream) : Prop :=
  Busy pieces tail s ∧ boundary s.buf = none ∧ s.scanned = s.buf.length-3

theorem Busy.cut (h : Busy pieces tail s) : Cut pieces tail s where
  all := fun hended => by rw [h.2.2] at hended; cases hended
  running := fun _ _ => h

theorem split (h : Busy pieces tail s) (json : SerdeJson) {n : ℕ} (hb : boundary s.buf = some n) :
    Busy pieces tail (s.splitEvent json n).2 := by
  obtain ⟨hcut,hopen⟩ := h
  obtain ⟨ps,hps,hseg⟩ := hcut.ahead
  have hall := boundary_append hcut.single hb
  have hle := (boundary_le hb).2
  have hdrop : (s.buf ++ s.unsent).drop n = s.buf.drop n ++ s.unsent :=
    List.drop_append_of_le_length hle
  have htake : (s.buf ++ s.unsent).take n = s.buf.take n := List.take_append_of_le_length hle
  refine ⟨⟨?_,?_,nofun,hcut.flushed⟩,hopen⟩
  · cases hseg with
    | tail _ hnone => simp [hnone] at hall
    | piece _ m hsome ps _ hrest =>
      obtain rfl := Option.some.inj (hsome.symm.trans hall)
      rw [hdrop] at hrest
      rw [htake] at hps
      exact ⟨ps,by simp [splitEvent,hps],hrest⟩
  · have hsingle := hcut.single.drop n
    rw [hdrop] at hsingle
    exact hsingle

/-- A buffer without a boundary is part of the next piece or of the tail. -/
theorem buf_fits (h : Busy pieces tail s)
    (hfit : (∀ piece ∈ pieces, piece.length ≤ maxSseBufferBytes) ∧
      tail.length ≤ maxSseBufferBytes) (hb : boundary s.buf = none) :
    s.buf.length ≤ maxSseBufferBytes := by
  obtain ⟨ps,hps,hseg⟩ := h.1.ahead
  cases hseg with
  | tail _ hnone =>
    have hlen := hfit.2
    rw [List.length_append] at hlen
    omega
  | piece _ n hsome ps _ hrest =>
    have hlt := lt_of_boundary_append hb hsome
    have hle := (boundary_le hsome).2
    have hlen := hfit.1 ((s.buf ++ s.unsent).take n) (by simp [hps])
    rw [List.length_take,Nat.min_eq_left hle] at hlen
    omega

theorem eof (h : Idle pieces tail s) (hinner : s.inner = []) :
    s.taken = pieces ∧ s.buf = tail := by
  obtain ⟨ps,hps,hseg⟩ := h.1.1.ahead
  have hrest : s.buf ++ s.unsent = s.buf := by simp [unsent,hinner,chunks]
  rw [hrest] at hseg
  cases hseg with
  | tail => exact ⟨by simp [hps],rfl⟩
  | piece _ n hsome => rw [h.2.1] at hsome; cases hsome

theorem finalize (h : Idle pieces tail s) (json : SerdeJson) (why : Ending) (now : Instant)
    (heof : why = .eof → s.inner = []) : Cut pieces tail (s.finalizeStream json why now).2 := by
  unfold finalizeStream
  dsimp only
  split
  · refine ⟨fun hended => ?_,nofun⟩
    exact eof h (heof (Option.some.inj hended))
  · rename_i hempty
    refine ⟨fun hended => ?_,nofun⟩
    obtain ⟨htaken,hbuf⟩ := eof h (heof (Option.some.inj hended))
    have hnil : s.buf = [] := by simpa [finalizeLog,recordTtfb] using hempty
    exact ⟨htaken,h.1.1.flushed.trans (hnil.symm.trans hbuf)⟩

theorem cut_of_ended {e : Ending} (hended : s.ended = some e) (heof : e ≠ .eof)
    (hclosed : s.done = true ∨ s.ended = some .dropped) : Cut pieces tail s where
  all := fun h => absurd (Option.some.inj (hended.symm.trans h)) heof
  running := fun hdone hlive => (not_running hclosed hdone hlive).elim

theorem fed (h : Idle pieces tail s) {rest : List Inner} {bytes : Bytes} (now : Instant)
    (hinner : s.inner = .chunk bytes::rest) : Busy pieces tail (s.fed rest bytes now) := by
  obtain ⟨⟨hcut,hopen⟩,hb,hscanned⟩ := h
  have hbytes : (s.fed rest bytes now).buf ++ (s.fed rest bytes now).unsent = s.buf ++ s.unsent := by
    simp [SseTransformStream.fed,receive,append,recordTtfb,unsent,hinner,chunks]
  refine ⟨⟨?_,?_,?_,hcut.flushed⟩,hopen⟩
  · rw [hbytes]
    exact hcut.ahead
  · rw [hbytes]
    exact hcut.single
  · have hunseen := unseen_append hb bytes
    rw [← hscanned] at hunseen
    exact hunseen

theorem rules (json : SerdeJson) (now : Instant) (cancelled : Bool)
    (hfit : (∀ piece ∈ pieces, piece.length ≤ maxSseBufferBytes) ∧
      tail.length ≤ maxSseBufferBytes) :
    PollRules json now cancelled (Busy pieces tail) (Idle pieces tail) fun answer =>
      Cut pieces tail answer.2 where
  split := fun s n h hb => by
    rw [boundaryFrom_unseen h.1.unseen] at hb
    exact (split h json hb).cut
  force := fun s i h hb hlen _ => by
    rw [boundaryFrom_unseen h.1.unseen] at hb
    exact absurd (buf_fits h hfit hb) (Nat.not_le_of_lt hlen)
  oversize := fun s msg h hb hlen _ => by
    rw [boundaryFrom_unseen h.1.unseen] at hb
    exact absurd (buf_fits h hfit hb) (Nat.not_le_of_lt hlen)
  search := fun s h hb _ => by
    rw [boundaryFrom_unseen h.1.unseen] at hb
    have hunseen : Unseen s.buf (s.buf.length-3) := fun j _ => boundary_eq_none.mp hb j
    exact ⟨⟨⟨h.1.ahead,h.1.single,hunseen,h.1.flushed⟩,h.2⟩,hb,rfl⟩
  shutdown := fun s h _ => finalize h json .shutdown now (by simp)
  eof := fun s h hinner => finalize h json .eof now fun _ => hinner
  pending := fun s rest h hinner => by
    obtain ⟨⟨hcut,hopen⟩,-⟩ := h
    have hsame : chunks s.inner = chunks rest := by rw [hinner]; rfl
    obtain ⟨ps,hps,hseg⟩ := hcut.ahead
    have hsingle := hcut.single
    rw [unsent,hsame] at hseg hsingle
    exact Busy.cut ⟨⟨⟨ps,hps,hseg⟩,hsingle,hcut.unseen,hcut.flushed⟩,hopen⟩
  error := fun s rest e h _ => cut_of_ended rfl (by simp) (.inl rfl)
  capped := fun s rest bytes msg h _ _ => cut_of_ended (e := .failed) rfl (by simp) (.inl rfl)
  feed := fun s rest bytes h hinner _ => fed h now hinner

end Cutting

namespace Cut

variable {pieces : List Bytes} {tail : Bytes} {s : SseTransformStream}

theorem poll (h : Cut pieces tail s)
    (hfit : (∀ piece ∈ pieces, piece.length ≤ maxSseBufferBytes) ∧
      tail.length ≤ maxSseBufferBytes) (json : SerdeJson) (now : Instant) (cancelled : Bool)
    (hlive : s.ended ≠ some .dropped) : Cut pieces tail (s.pollNext json now cancelled).2 := by
  refine (Cutting.rules json now cancelled hfit).poll (fun _ => h) ?_ ?_
  · exact fun hdone => h.running hdone hlive
  · intro _ msg
    obtain ⟨hended,hdone,-⟩ := finalizeStream_closed
      { s with event := { s.event with status := "504",errorMessage := some msg } } json .timeout now
    exact Cutting.cut_of_ended hended (by simp) (.inl hdone)

theorem drop (h : Cut pieces tail s) (now : Instant) : Cut pieces tail (s.dropStream now) := by
  unfold dropStream
  split
  · exact h
  · exact Cutting.cut_of_ended (e := .dropped) rfl (by simp) (.inr rfl)

end Cut
end SseTransformStream

/-- A run to the end of the input takes the pieces of the whole stream out of the buffer and
flushes its tail. -/
theorem Relay.cut_run {json : SerdeJson} {settings : SseSettings} {upstream : UpstreamProvider}
    {modelName : String} {event : ProxyEvent} {start now : Instant} {script : List Inner}
    {pieces : List Bytes} {tail : Bytes} {ops : List Relay.Op} {w : Relay}
    (hsingle : SingleConvention (chunks script).flatten)
    (hfit : EventsFit (chunks script).flatten)
    (hcut : Segmented boundary (chunks script).flatten pieces tail)
    (hrun : exec (Relay.step json)
      (Relay.start (openStream settings upstream modelName event start now script)) ops = some w)
    (heof : w.stream.ended = some .eof) : w.stream.taken = pieces ∧ w.stream.flushed = tail := by
  have hstart : Cutting.Busy pieces tail
      (openStream settings upstream modelName event start now script) :=
    ⟨⟨⟨pieces,rfl,hcut⟩,hsingle,nofun,rfl⟩,rfl,rfl⟩
  have hw : Cut pieces tail w.stream := Relay.run_preserves
    (fun s now cancelled hlive h => h.poll (hfit _ _ hcut) json now cancelled hlive)
    (fun s now _ h => h.drop now) hrun hstart.cut
  exact hw.all heof

/-- Two runs to the end of the input over the same bytes, in whatever chunks, give the consumer
the same bytes and log the same token counts and size. -/
theorem Relay.chunking_invisible (json : SerdeJson) (upstream : UpstreamProvider)
    (modelName : String) (event : ProxyEvent) (settings settings' : SseSettings)
    (start start' now now' : Instant) (script script' : List Inner) (ops ops' : List Relay.Op)
    (w w' : Relay)
    (hsame : (chunks script).flatten = (chunks script').flatten)
    (hsingle : SingleConvention (chunks script).flatten)
    (hfit : EventsFit (chunks script).flatten)
    (hrun : exec (Relay.step json)
      (Relay.start (openStream settings upstream modelName event start now script)) ops = some w)
    (hrun' : exec (Relay.step json)
      (Relay.start (openStream settings' upstream modelName event start' now' script')) ops' =
        some w')
    (heof : w.stream.ended = some .eof) (heof' : w'.stream.ended = some .eof) :
    w.received.flatten = w'.received.flatten ∧
      ∃ e e', w.stream.logged = [e] ∧ w'.stream.logged = [e'] ∧ e.usage = e'.usage ∧
        e.responseBodySize = e'.responseBodySize := by
  obtain ⟨pieces,tail,hcut⟩ := exists_segmented (fun _ _ => boundary_le) (chunks script).flatten
  obtain ⟨htaken,hflushed⟩ := Relay.cut_run hsingle hfit hcut hrun heof
  rw [hsame] at hsingle hfit hcut
  obtain ⟨htaken',hflushed'⟩ := Relay.cut_run hsingle hfit hcut hrun' heof'
  have h := Relay.settled_run hrun
  have h' := Relay.settled_run hrun'
  have hout := h.delivered
  have hout' := h'.delivered
  simp only [Delivered,h.serves.1,h.serves.2,htaken,hflushed] at hout
  simp only [Delivered,h'.serves.1,h'.serves.2,htaken',hflushed'] at hout'
  obtain ⟨e,hlogged,husage,hsize⟩ := h.logged (by rw [heof]; simp)
  obtain ⟨e',hlogged',husage',hsize'⟩ := h'.logged (by rw [heof']; simp)
  simp only [h.serves.1,h.serves.2,htaken] at husage hsize
  simp only [h'.serves.1,h'.serves.2,htaken'] at husage' hsize'
  exact ⟨by rw [hout,hout'],e,e',hlogged,hlogged',husage.trans husage'.symm,hsize.trans hsize'.symm⟩

/-- A boundary cut in two by the network, and the same bytes in one chunk. -/
theorem Relay.chunking_invisible_straddled :
    let json : SerdeJson := ⟨fun _ => none,fun _ => none⟩
    let script := [.chunk (utf8 "data: hi
"),.pending,.chunk (utf8 "
data: yo")]
    let script' := [.chunk (utf8 "data: hi

data: yo")]
    let ops := [.poll 1 false,.poll 1 false,.poll 1 false]
    ∃ w w', exec (Relay.step json) (Relay.start (demoStream script)) ops = some w ∧
      exec (Relay.step json) (Relay.start (demoStream script')) ops = some w' ∧
      w.received.flatten = w'.received.flatten ∧
      ∃ e e', w.stream.logged = [e] ∧ w'.stream.logged = [e'] ∧ e.usage = e'.usage ∧
        e.responseBodySize = e'.responseBodySize := by
  intro json script script' ops
  have hview : (exec (Relay.step json) (Relay.start (demoStream script)) ops).map (fun w =>
      w.stream.ended) = some (some .eof) := by decide +kernel
  have hview' : (exec (Relay.step json) (Relay.start (demoStream script')) ops).map (fun w =>
      w.stream.ended) = some (some .eof) := by decide +kernel
  obtain ⟨w,hrun,heof⟩ := Option.map_eq_some_iff.mp hview
  obtain ⟨w',hrun',heof'⟩ := Option.map_eq_some_iff.mp hview'
  have hsame : (chunks script).flatten = (chunks script').flatten := by decide +kernel
  have hsingle : SingleConvention (chunks script).flatten := by
    unfold SingleConvention
    decide +kernel
  have hfit : EventsFit (chunks script).flatten := by
    intro pieces tail hcut
    have hbytes := hcut.flatten
    have hlen : (pieces.flatten ++ tail).length = 18 := by rw [hbytes]; decide +kernel
    rw [List.length_append] at hlen
    refine ⟨fun piece hmem => ?_,by simp only [maxSseBufferBytes]; omega⟩
    have hpiece := (List.sublist_flatten_of_mem hmem).length_le
    simp only [maxSseBufferBytes]
    omega
  exact ⟨w,w',hrun,hrun',Relay.chunking_invisible json demoUpstream "ai" demoEvent _ _ _ _ _ _
    script script' ops ops w w' hsame hsingle hfit hrun hrun' heof heof'⟩

end Ait
