import Ait.SseChunks

/-!
# The position of the incremental search

The search for an event boundary starts where the last one stopped, less three bytes. In
every state the buffer can get into no boundary starts before that position, so a search
of the whole buffer finds the same.
-/

namespace Ait
open Transition Search

inductive BufferOp
  | append (bytes : Bytes) (now : Instant)
  | scan
  /-- A search, and the split at the boundary it found. -/
  | split (json : SerdeJson)
  /-- The split of an oversized buffer. -/
  | force (json : SerdeJson)

namespace SseTransformStream

def applyBuffer (s : SseTransformStream) : BufferOp → SseTransformStream
  | .append bytes now => s.append bytes now
  | .scan => s.findEventBoundary.2
  | .split json =>
    match s.findEventBoundary with
    | (some eventEnd,s) => (s.splitEvent json eventEnd).2
    | (none,s) => s
  | .force json =>
    match s.forceSplitOversized with
    | .ok (some eventEnd) => (s.splitEvent json eventEnd).2
    | _ => s

def rescan (s : SseTransformStream) : Option ℕ := { s with scanned := 0 }.findEventBoundary.1

/-- The position lies three bytes before the end, and no boundary starts before it. -/
structure Scanned (s : SseTransformStream) : Prop where
  behind : s.scanned ≤ s.buf.length-3
  unseen : Unseen s.buf s.scanned

@[simp] theorem findEventBoundary_fst (s : SseTransformStream) :
    s.findEventBoundary.1 = boundaryFrom s.buf s.scanned := by
  unfold findEventBoundary
  cases boundaryFrom s.buf s.scanned <;> rfl

@[simp] theorem rescan_eq (s : SseTransformStream) : s.rescan = boundary s.buf := by
  rw [rescan,findEventBoundary_fst]
  rfl

/-- A search that skips what holds no boundary finds what a whole search does. -/
@[simp] theorem findEventBoundary_unseen {s : SseTransformStream} (h : Unseen s.buf s.scanned) :
    s.findEventBoundary.1 = s.rescan := by
  rw [findEventBoundary_fst,rescan_eq,boundaryFrom_unseen h]

namespace Scanned

variable {s : SseTransformStream}

/-- Bytes behind the position may complete a boundary, none before it: the longer of the two
patterns has four bytes. -/
theorem append (h : s.Scanned) (bytes : Bytes) (now : Instant) : (s.append bytes now).Scanned := by
  have hbehind := h.behind
  constructor
  · show s.scanned ≤ (s.buf ++ bytes).length-3
    rw [List.length_append]
    omega
  · intro j hj
    replace hj : j < s.scanned := hj
    have hnone := h.unseen j hj
    constructor
    · intro hat
      exact hnone.1 ((at_append (by simp [doubleCrlf]; omega)).mp hat)
    · intro hat
      exact hnone.2 ((at_append (by simp [doubleNewline]; omega)).mp hat)

theorem searched (h : s.Scanned) (hb : boundaryFrom s.buf s.scanned = none) :
    s.searched.Scanned := by
  rw [boundaryFrom_unseen h.unseen] at hb
  exact ⟨le_rfl,fun j _ => boundary_eq_none.mp hb j⟩

theorem split (s : SseTransformStream) (json : SerdeJson) (n : ℕ) :
    (s.splitEvent json n).2.Scanned :=
  ⟨Nat.zero_le _,nofun⟩

theorem scan (h : s.Scanned) : s.findEventBoundary.2.Scanned := by
  unfold findEventBoundary
  cases hb : boundaryFrom s.buf s.scanned with
  | some n => exact h
  | none => exact h.searched hb

theorem apply (h : s.Scanned) (op : BufferOp) : (s.applyBuffer op).Scanned := by
  cases op with
  | append bytes now => exact h.append bytes now
  | scan => exact h.scan
  | split json =>
    have hscan := h.scan
    simp only [applyBuffer]
    generalize s.findEventBoundary = found at hscan ⊢
    rcases found with ⟨_ | eventEnd,t⟩
    · exact hscan
    · exact split t json eventEnd
  | force json =>
    simp only [applyBuffer]
    rcases s.forceSplitOversized with _ | _ | eventEnd
    · exact h
    · exact h
    · exact split s json eventEnd

theorem run (h : s.Scanned) (ops : List BufferOp) : (ops.foldl applyBuffer s).Scanned := by
  induction ops generalizing s with
  | nil => exact h
  | cons op ops ih => exact ih (h.apply op)

end Scanned

/-- A stream between polls; one that has given its buffer away has nothing to search. -/
structure Rescans (s : SseTransformStream) : Prop where
  unseen : Unseen s.buf s.scanned
  running : s.done = false → s.Scanned

theorem unseen_nil (k : ℕ) : Unseen [] k := by
  intro j _
  have hle {pat : Bytes} (hpat : pat ≠ []) (hat : At pat [] j) : False := by
    have hlen := hat.le hpat
    have hpos := List.length_pos_iff.mpr hpat
    rw [List.length_nil] at hlen
    omega
  exact ⟨hle doubleCrlf_ne_nil,hle doubleNewline_ne_nil⟩

namespace Scanned

variable {s : SseTransformStream}

theorem rescans (h : s.Scanned) : s.Rescans := ⟨h.unseen,fun _ => h⟩

theorem finalize (h : s.Scanned) (json : SerdeJson) (why : Ending) (now : Instant) :
    (s.finalizeStream json why now).2.Rescans := by
  unfold finalizeStream
  dsimp only
  split
  · exact ⟨unseen_nil _,nofun⟩
  · exact ⟨h.unseen,nofun⟩

theorem rules (json : SerdeJson) (now : Instant) (cancelled : Bool) :
    PollRules json now cancelled Scanned Scanned fun answer => answer.2.Rescans where
  split := fun s n _ _ => (split s json n).rescans
  force := fun s i _ _ _ _ => (split s.searched json (i+1)).rescans
  oversize := fun _ _ h hb _ _ => ⟨(h.searched hb).unseen,nofun⟩
  search := fun _ h hb _ => h.searched hb
  shutdown := fun _ h _ => h.finalize json .shutdown now
  eof := fun _ h _ => h.finalize json .eof now
  pending := fun _ _ h _ => rescans ⟨h.behind,h.unseen⟩
  error := fun _ _ _ h _ => ⟨h.unseen,nofun⟩
  capped := fun _ _ _ _ h _ _ => ⟨h.unseen,nofun⟩
  feed := fun s rest bytes h _ _ =>
    append (s := receive { s with inner := rest } bytes now) ⟨h.behind,h.unseen⟩ bytes now

end Scanned

theorem Rescans.poll {s : SseTransformStream} (h : s.Rescans) (json : SerdeJson) (now : Instant)
    (cancelled : Bool) : (s.pollNext json now cancelled).2.Rescans := by
  refine (Scanned.rules json now cancelled).poll (fun _ => h) h.running ?_
  intro hdone msg
  have hopen := h.running hdone
  exact Scanned.finalize
    (s := { s with event := { s.event with status := "504",errorMessage := some msg } })
    ⟨hopen.behind,hopen.unseen⟩ json .timeout now

theorem Rescans.drop {s : SseTransformStream} (h : s.Rescans) (now : Instant) :
    (s.dropStream now).Rescans := by
  unfold dropStream
  split
  · exact h
  · exact ⟨h.unseen,fun hdone => ⟨(h.running hdone).behind,h.unseen⟩⟩

end SseTransformStream

open SseTransformStream

/-- Whatever is done with the buffer, and between any two polls of any run, the search from the
stored position gives what a search of the whole buffer gives, and no boundary starts before it. -/
theorem scan_eq_rescan (settings : SseSettings) (upstream : UpstreamProvider) (modelName : String)
    (event : ProxyEvent) (start now : Instant) (script : List Inner) :
    (∀ ops : List BufferOp,
      let s := ops.foldl applyBuffer
        (openStream settings upstream modelName event start now script)
      s.findEventBoundary.1 = s.rescan ∧ Unseen s.buf s.scanned) ∧
    ∀ (json : SerdeJson) (ops : List Relay.Op) (w : Relay), exec (Relay.step json)
      (Relay.start (openStream settings upstream modelName event start now script)) ops = some w →
      w.stream.findEventBoundary.1 = w.stream.rescan ∧ Unseen w.stream.buf w.stream.scanned := by
  have hopen : (openStream settings upstream modelName event start now script).Scanned :=
    ⟨le_rfl,nofun⟩
  constructor
  · intro ops s
    have hunseen := (hopen.run ops).unseen
    exact ⟨findEventBoundary_unseen hunseen,hunseen⟩
  · intro json ops w hrun
    have hw : w.stream.Rescans := Relay.run_preserves
      (fun s now cancelled _ h => h.poll json now cancelled) (fun s now _ h => h.drop now) hrun
      hopen.rescans
    exact ⟨findEventBoundary_unseen hw.unseen,hw.unseen⟩

/-- The first chunk ends inside a boundary. Behind it the search starts at byte 6 and finds what
a search of all bytes does. -/
theorem scan_eq_rescan_straddled :
    let json : SerdeJson := ⟨fun _ => none,fun _ => none⟩
    let script := [.chunk (utf8 "data: hi\n"),.pending]
    ∃ w, exec (Relay.step json) (Relay.start (demoStream script)) [.poll 1 false] = some w ∧
      w.stream.buf = utf8 "data: hi\n" ∧ w.stream.scanned = 6 ∧
      w.stream.findEventBoundary.1 = w.stream.rescan ∧ Unseen w.stream.buf w.stream.scanned := by
  intro json script
  have hview : (exec (Relay.step json) (Relay.start (demoStream script)) [.poll 1 false]).map
      (fun w => (w.stream.buf,w.stream.scanned)) = some (utf8 "data: hi\n",6) := by decide +kernel
  obtain ⟨w,hrun,hw⟩ := Option.map_eq_some_iff.mp hview
  obtain ⟨hbuf,hscanned⟩ := Prod.mk.inj hw
  have hscan := (scan_eq_rescan _ _ _ _ _ _ script).2 json _ w hrun
  exact ⟨w,hrun,hbuf,hscanned,hscan⟩

end Ait
