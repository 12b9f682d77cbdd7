import Ait.Sse
import Ait.Transition

/-!
# Runs of the stream wrapper

`PollRules` lists what has to be shown of each exit of `pollNext` and of each turn of
its loop; `PollRules.poll` is the one place where `pollNext` is taken apart. A
`Relay` is a stream together with what its consumer has received.
-/

namespace Ait
open Transition

namespace SseTransformStream

def searched (s : SseTransformStream) : SseTransformStream :=
  { s with scanned := s.buf.length-3 }

def fed (s : SseTransformStream) (rest : List Inner) (bytes : Bytes) (now : Instant) :
    SseTransformStream :=
  (receive { s with inner := rest } bytes now).append bytes now

theorem drain_cases (s : SseTransformStream) (json : SerdeJson) (now : Instant) :
    (∃ n, boundaryFrom s.buf s.scanned = some n ∧ s.drain json now = .inl (s.splitEvent json n)) ∨
    boundaryFrom s.buf s.scanned = none ∧
      (s.buf.length ≤ maxSseBufferBytes ∧ s.drain json now = .inr s.searched ∨
      s.buf.length > maxSseBufferBytes ∧
        ((∃ i, Search.findLast newline s.buf = some i ∧
          s.drain json now = .inl (s.searched.splitEvent json (i+1))) ∨
        Search.findLast newline s.buf = none ∧ ∃ msg,
          s.drain json now = .inl (s.searched.failStream "502" msg now))) := by
  cases hb : boundaryFrom s.buf s.scanned with
  | some n => exact .inl ⟨n,rfl,by simp [drain,findEventBoundary,hb]⟩
  | none =>
    have hsearch : s.findEventBoundary = (none,s.searched) := by
      simp [findEventBoundary,hb,searched]
    refine .inr ⟨rfl,?_⟩
    by_cases hlen : s.buf.length ≤ maxSseBufferBytes
    · have hforce : s.searched.forceSplitOversized = .ok none := by
        simp [forceSplitOversized,searched,hlen]
      exact .inl ⟨hlen,by simp [drain,hsearch,hforce]⟩
    · refine .inr ⟨Nat.lt_of_not_le hlen,?_⟩
      cases hlast : Search.findLast newline s.buf with
      | some i =>
        have hforce : s.searched.forceSplitOversized = .ok (some (i+1)) := by
          simp [forceSplitOversized,searched,hlen,hlast]
        exact .inl ⟨i,rfl,by simp [drain,hsearch,hforce]⟩
      | none =>
        have hforce : s.searched.forceSplitOversized =
            .error "SSE buffer exceeded cap without a line boundary" := by
          simp [forceSplitOversized,searched,hlen,hlast]
        exact .inr ⟨rfl,_,by simp [drain,hsearch,hforce]; rfl⟩

theorem finalizeStream_closed (s : SseTransformStream) (json : SerdeJson) (why : Ending)
    (now : Instant) :
    (s.finalizeStream json why now).2.ended = some why ∧
      (s.finalizeStream json why now).2.done = true ∧
      (s.finalizeStream json why now).2.inner = s.inner := by
  unfold finalizeStream
  dsimp only
  split
  · exact ⟨rfl,rfl,rfl⟩
  · exact ⟨rfl,rfl,rfl⟩

@[simp] theorem pollNext_done {s : SseTransformStream} (h : s.done = true) (json : SerdeJson)
    (now : Instant) (cancelled : Bool) : (s.pollNext json now cancelled).2 = s := by
  simp [pollNext,h]

@[simp] theorem dropStream_done {s : SseTransformStream} (h : s.done = true) (now : Instant) :
    s.dropStream now = s := by
  simp [dropStream,h]

@[simp] theorem dropStream_taken (s : SseTransformStream) (now : Instant) :
    (s.dropStream now).taken = s.taken := by
  unfold dropStream
  split <;> rfl

@[simp] theorem dropStream_flushed (s : SseTransformStream) (now : Instant) :
    (s.dropStream now).flushed = s.flushed := by
  unfold dropStream
  split <;> rfl

theorem not_running {s : SseTransformStream} (hclosed : s.done = true ∨ s.ended = some .dropped)
    (hdone : s.done = false) (hlive : s.ended ≠ some .dropped) : False := by
  rcases hclosed with hd | hd
  · rw [hd] at hdone
    cases hdone
  · exact hlive hd

/-- What the exits and turns of an open stream's poll have to preserve: `Busy` holds before the
buffer is searched, `Idle` once nothing was found in it, `Post` of the answer. -/
structure PollRules (json : SerdeJson) (now : Instant) (cancelled : Bool)
    (Busy Idle : SseTransformStream → Prop) (Post : Poll × SseTransformStream → Prop) : Prop where
  split : ∀ s n, Busy s → boundaryFrom s.buf s.scanned = some n → Post (s.splitEvent json n)
  force : ∀ s i, Busy s → boundaryFrom s.buf s.scanned = none →
    s.buf.length > maxSseBufferBytes → Search.findLast newline s.buf = some i →
    Post (s.searched.splitEvent json (i+1))
  oversize : ∀ s msg, Busy s → boundaryFrom s.buf s.scanned = none →
    s.buf.length > maxSseBufferBytes → Search.findLast newline s.buf = none →
    Post (s.searched.failStream "502" msg now)
  search : ∀ s, Busy s → boundaryFrom s.buf s.scanned = none → s.buf.length ≤ maxSseBufferBytes →
    Idle s.searched
  shutdown : ∀ s, Idle s → cancelled = true → Post (s.finalizeStream json .shutdown now)
  eof : ∀ s, Idle s → s.inner = [] → Post (s.finalizeStream json .eof now)
  pending : ∀ s rest, Idle s → s.inner = .pending::rest → Post (.pending,{ s with inner := rest })
  error : ∀ s rest e, Idle s → s.inner = .error e::rest →
    Post (.ready (some (.error e)),
      { finalizeLog { s with inner := rest,event := { s.event with errorMessage := some e } } now with
        done := true,ended := some .error })
  capped : ∀ s rest bytes msg, Idle s → s.inner = .chunk bytes::rest →
    s.totalBytes+bytes.length > s.maxBytes →
    Post ((receive { s with inner := rest } bytes now).failStream "502" msg now)
  feed : ∀ s rest bytes, Idle s → s.inner = .chunk bytes::rest →
    s.totalBytes+bytes.length ≤ s.maxBytes → Busy (s.fed rest bytes now)

namespace PollRules

variable {json : SerdeJson} {now : Instant} {cancelled : Bool}
  {Busy Idle : SseTransformStream → Prop} {Post : Poll × SseTransformStream → Prop}

theorem drain (h : PollRules json now cancelled Busy Idle Post) {s : SseTransformStream}
    (hs : Busy s) :
    (∃ answer, s.drain json now = .inl answer ∧ Post answer) ∨
      s.drain json now = .inr s.searched ∧ Idle s.searched := by
  obtain ⟨n,hb,hd⟩ | ⟨hb,⟨hlen,hd⟩ | ⟨hlen,⟨i,hlast,hd⟩ | ⟨hlast,msg,hd⟩⟩⟩ :=
    s.drain_cases json now
  · exact .inl ⟨_,hd,h.split s n hs hb⟩
  · exact .inr ⟨hd,h.search s hs hb hlen⟩
  · exact .inl ⟨_,hd,h.force s i hs hb hlen hlast⟩
  · exact .inl ⟨_,hd,h.oversize s msg hs hb hlen hlast⟩

theorem loop (h : PollRules json now cancelled Busy Idle Post) {items : List Inner}
    {s : SseTransformStream} (hinner : s.inner = items) (hs : Idle s) :
    Post (pollInner json now items s) := by
  induction items generalizing s with
  | nil =>
    have hsame : { s with inner := [] } = s := by rw [← hinner]
    rw [pollInner,hsame]
    exact h.eof s hs hinner
  | cons item rest ih =>
    cases item with
    | pending => exact h.pending s rest hs hinner
    | error e => exact h.error s rest e hs hinner
    | chunk bytes =>
      rw [pollInner]
      by_cases hcap : s.totalBytes+bytes.length > s.maxBytes
      · simp only [receive,hcap,if_true]
        exact h.capped s rest bytes _ hs hinner hcap
      · have hfed := h.feed s rest bytes hs hinner (Nat.le_of_not_lt hcap)
        simp only [receive,hcap,if_false]
        obtain ⟨answer,hd,hpost⟩ | ⟨hd,hidle⟩ := h.drain hfed
        · simp only [fed,receive] at hd
          rw [hd]
          exact hpost
        · simp only [fed,receive] at hd
          rw [hd]
          exact ih rfl hidle

theorem poll (h : PollRules json now cancelled Busy Idle Post) {s : SseTransformStream}
    (hdone : s.done = true → Post (.ready none,s)) (hs : s.done = false → Busy s)
    (hexpired : s.done = false → ∀ msg, Post (s.timeoutStream json msg now)) :
    Post (s.pollNext json now cancelled) := by
  unfold pollNext
  cases hd : s.done with
  | true => exact hdone hd
  | false =>
    replace hs := hs hd
    simp only [Bool.false_eq_true,if_false]
    split
    · exact hexpired hd _
    · split
      · exact hexpired hd _
      · obtain ⟨answer,hdrain,hpost⟩ | ⟨hdrain,hidle⟩ := h.drain hs
        · rw [hdrain]
          exact hpost
        · rw [hdrain]
          dsimp only
          split
          · rename_i hcancelled
            exact h.shutdown _ hidle hcancelled
          · exact h.loop rfl hidle

end PollRules
end SseTransformStream

def Poll.bytes : Poll → List Bytes
  | .ready (some (.ok b)) => [b]
  | _ => []

@[simp] theorem Poll.bytes_pending : Poll.pending.bytes = [] := rfl

@[simp] theorem Poll.bytes_none : (Poll.ready none).bytes = [] := rfl

@[simp] theorem Poll.bytes_error (e : String) : (Poll.ready (some (.error e))).bytes = [] := rfl

structure Relay where
  stream : SseTransformStream
  received : List Bytes

namespace Relay

inductive Op
  | poll (now : Instant) (cancelled : Bool)
  | drop (now : Instant)

def step (json : SerdeJson) (w : Relay) (op : Op) : Option Relay :=
  if w.stream.ended = some .dropped then none
  else
    match op with
    | .poll now cancelled =>
      let (answer,stream) := w.stream.pollNext json now cancelled
      some ⟨stream,w.received ++ answer.bytes⟩
    | .drop now => some ⟨w.stream.dropStream now,w.received⟩

def start (stream : SseTransformStream) : Relay := ⟨stream,[]⟩

theorem step_cases {json : SerdeJson} {w t : Relay} {op : Op} (h : step json w op = some t) :
    w.stream.ended ≠ some .dropped ∧
    ((∃ now cancelled, op = .poll now cancelled ∧
      t.stream = (w.stream.pollNext json now cancelled).2 ∧
      t.received = w.received ++ (w.stream.pollNext json now cancelled).1.bytes) ∨
    ∃ now, op = .drop now ∧ t = ⟨w.stream.dropStream now,w.received⟩) := by
  unfold step at h
  split at h
  · cases h
  · rename_i hgone
    refine ⟨hgone,?_⟩
    cases op with
    | poll now cancelled =>
      obtain rfl := Option.some.inj h
      exact .inl ⟨now,cancelled,rfl,rfl,rfl⟩
    | drop now =>
      obtain rfl := Option.some.inj h
      exact .inr ⟨now,rfl,rfl⟩

theorem run_preserves {json : SerdeJson} {Inv : SseTransformStream → Prop}
    (hpoll : ∀ s now cancelled, s.ended ≠ some .dropped → Inv s →
      Inv (s.pollNext json now cancelled).2)
    (hdrop : ∀ s now, s.ended ≠ some .dropped → Inv s → Inv (s.dropStream now))
    {w t : Relay} {ops : List Op} (hrun : exec (step json) w ops = some t) (hw : Inv w.stream) :
    Inv t.stream := by
  have hstep : ∀ w op t, step json w op = some t → Inv w.stream → Inv t.stream := by
    intro w op t hst hinv
    obtain ⟨hlive,⟨now,cancelled,-,hstream,-⟩ | ⟨now,-,rfl⟩⟩ := step_cases hst
    · rw [hstream]
      exact hpoll w.stream now cancelled hlive hinv
    · exact hdrop w.stream now hlive hinv
  exact exec_preserves hstep hrun hw

end Relay
end Ait
