import Ait.SseBuffer

/-!
# What stops a poll

A poll before the deadlines reads on until something stops it. `Stop` names these
things, `stop` finds the one a stream is about to meet, and `Running.stops` says what
each of them does.
-/

namespace Ait
open Transition Search SseTransformStream

inductive Stop
  | boundary (buf : Bytes)
  | oversized (buf : Bytes)
  | shutdown
  | pending
  | eof
  | error
  | capped
  deriving DecidableEq

/-- What a poll meets that has `buf` in its buffer and has read `total` bytes so far. -/
def stopAt (maxBytes : ℕ) (cancelled : Bool) (items : List Inner) (buf : Bytes) (total : ℕ) : Stop :=
  if (boundary buf).isSome then .boundary buf
  else if buf.length > maxSseBufferBytes then .oversized buf
  else if cancelled then .shutdown
  else
    match items with
    | [] => .eof
    | .pending::_ => .pending
    | .error _::_ => .error
    | .chunk bytes::rest =>
      if total+bytes.length > maxBytes then .capped
      else stopAt maxBytes cancelled rest (buf ++ bytes) (total+bytes.length)

section StopAt

variable {maxBytes total : ℕ} {cancelled : Bool} {items : List Inner} {buf : Bytes}

@[simp] theorem stopAt_boundary (h : boundary buf ≠ none) :
    stopAt maxBytes cancelled items buf total = .boundary buf := by
  have hsome : (boundary buf).isSome = true := Option.isSome_iff_ne_none.mpr h
  rw [stopAt.eq_def,if_pos hsome]

@[simp] theorem stopAt_oversized (h : boundary buf = none) (hlen : buf.length > maxSseBufferBytes) :
    stopAt maxBytes cancelled items buf total = .oversized buf := by
  rw [stopAt.eq_def,h,if_neg (by simp),if_pos hlen]

theorem stopAt_idle (h : boundary buf = none) (hlen : buf.length ≤ maxSseBufferBytes) :
    stopAt maxBytes cancelled items buf total =
      if cancelled then .shutdown
      else
        match items with
        | [] => .eof
        | .pending::_ => .pending
        | .error _::_ => .error
        | .chunk bytes::rest =>
          if total+bytes.length > maxBytes then .capped
          else stopAt maxBytes cancelled rest (buf ++ bytes) (total+bytes.length) := by
  rw [stopAt.eq_def,h,if_neg (by simp),if_neg (Nat.not_lt_of_le hlen)]

end StopAt

namespace SseTransformStream

def stop (s : SseTransformStream) (cancelled : Bool) : Stop :=
  stopAt s.maxBytes cancelled s.inner s.buf s.totalBytes

/-- What a stop does to the pieces taken and to the end of the stream. -/
inductive Stopped (s : SseTransformStream) : Stop → SseTransformStream → Prop
  | boundary (b : Bytes) (n : ℕ) (t : SseTransformStream) (hb : boundary b = some n)
      (htaken : t.taken = s.taken ++ [b.take n]) (hopen : t.ended = none ∧ t.done = false) :
      Stopped s (.boundary b) t
  | forced (b : Bytes) (i : ℕ) (t : SseTransformStream) (hb : Ait.boundary b = none)
      (hlast : findLast newline b = some i)
      (htaken : t.taken = s.taken ++ [b.take (i+1)]) (hopen : t.ended = none ∧ t.done = false) :
      Stopped s (.oversized b) t
  | oversized (b : Bytes) (t : SseTransformStream) (hlast : findLast newline b = none)
      (htaken : t.taken = s.taken) (hended : t.ended = some .failed) : Stopped s (.oversized b) t
  | shutdown (t : SseTransformStream) (htaken : t.taken = s.taken)
      (hended : t.ended = some .shutdown) : Stopped s .shutdown t
  | pending (t : SseTransformStream) (htaken : t.taken = s.taken)
      (hopen : t.ended = none ∧ t.done = false) : Stopped s .pending t
  | eof (t : SseTransformStream) (htaken : t.taken = s.taken) (hended : t.ended = some .eof) :
      Stopped s .eof t
  | error (t : SseTransformStream) (htaken : t.taken = s.taken) (hended : t.ended = some .error) :
      Stopped s .error t
  | capped (t : SseTransformStream) (htaken : t.taken = s.taken)
      (hended : t.ended = some .failed) : Stopped s .capped t

theorem Stopped.not_timeout {s t : SseTransformStream} {stop : Stop} (h : Stopped s stop t) :
    t.ended ≠ some .timeout := by
  cases h with
  | boundary _ _ _ _ _ hopen => simp [hopen.1]
  | forced _ _ _ _ _ _ hopen => simp [hopen.1]
  | oversized _ _ _ _ hended => simp [hended]
  | shutdown _ _ hended => simp [hended]
  | pending _ _ hopen => simp [hopen.1]
  | eof _ _ hended => simp [hended]
  | error _ _ hended => simp [hended]
  | capped _ _ hended => simp [hended]

@[simp] theorem finalizeStream_taken (s : SseTransformStream) (json : SerdeJson) (why : Ending)
    (now : Instant) : (s.finalizeStream json why now).2.taken = s.taken := by
  unfold finalizeStream
  dsimp only
  split <;> rfl

/-- During a poll of `s` that may read: it is heading for the same stop. -/
structure Heading (s t : SseTransformStream) : Prop where
  taken : t.taken = s.taken
  still : t.ended = none ∧ t.done = false
  unseen : Unseen t.buf t.scanned
  stop : t.stop false = s.stop false

namespace Heading

variable {s t : SseTransformStream} {json : SerdeJson} {now : Instant}

theorem searched (h : Heading s t) (hb : Ait.boundary t.buf = none) : Heading s t.searched :=
  ⟨h.taken,h.still,fun j _ => boundary_eq_none.mp hb j,h.stop⟩

theorem split (h : Heading s t) {n : ℕ} (hb : Ait.boundary t.buf = some n) :
    Stopped s (s.stop false) (t.splitEvent json n).2 := by
  have hstop : s.stop false = .boundary t.buf :=
    h.stop.symm.trans (stopAt_boundary (by simp [hb]))
  rw [hstop]
  exact .boundary t.buf n _ hb (by simp [splitEvent,h.taken]) h.still

theorem oversized (h : Heading s t) (hb : Ait.boundary t.buf = none)
    (hlen : t.buf.length > maxSseBufferBytes) : s.stop false = .oversized t.buf :=
  h.stop.symm.trans (stopAt_oversized hb hlen)

theorem ahead (h : Heading s t) {items : List Inner} (hinner : t.inner = items) :
    s.stop false = stopAt t.maxBytes false items t.buf t.totalBytes := by
  rw [← hinner]
  exact h.stop.symm

theorem fed (h : Heading s t) (hb : Ait.boundary t.buf = none)
    (hscanned : t.scanned = t.buf.length-3) (hlen : t.buf.length ≤ maxSseBufferBytes)
    {rest : List Inner} {bytes : Bytes} (hinner : t.inner = .chunk bytes::rest)
    (hcap : t.totalBytes+bytes.length ≤ t.maxBytes) : Heading s (t.fed rest bytes now) := by
  have hunseen := unseen_append hb bytes
  rw [← hscanned] at hunseen
  have hstop := h.ahead hinner
  rw [stopAt_idle hb hlen] at hstop
  exact ⟨h.taken,h.still,hunseen,(hstop.trans (if_neg (Nat.not_lt_of_le hcap))).symm⟩

theorem rules (json : SerdeJson) (s : SseTransformStream) (now : Instant) :
    PollRules json now false (Heading s)
      (fun t => Heading s t ∧ Ait.boundary t.buf = none ∧ t.scanned = t.buf.length-3 ∧
        t.buf.length ≤ maxSseBufferBytes)
      fun answer => Stopped s (s.stop false) answer.2 where
  split := fun t n h hb => by
    rw [boundaryFrom_unseen h.unseen] at hb
    exact h.split hb
  force := fun t i h hb hlen hlast => by
    rw [boundaryFrom_unseen h.unseen] at hb
    rw [h.oversized hb hlen]
    exact .forced t.buf i _ hb hlast (by simp [splitEvent,SseTransformStream.searched,h.taken]) h.still
  oversize := fun t msg h hb hlen hlast => by
    rw [boundaryFrom_unseen h.unseen] at hb
    rw [h.oversized hb hlen]
    exact .oversized t.buf _ hlast h.taken rfl
  search := fun t h hb hlen => by
    rw [boundaryFrom_unseen h.unseen] at hb
    exact ⟨h.searched hb,hb,rfl,hlen⟩
  shutdown := fun t h hcancelled => by cases hcancelled
  eof := fun t h hinner => by
    rw [h.1.ahead hinner,stopAt_idle h.2.1 h.2.2.2]
    exact .eof _ ((finalizeStream_taken t json .eof now).trans h.1.taken)
      (finalizeStream_closed t json .eof now).1
  pending := fun t rest h hinner => by
    rw [h.1.ahead hinner,stopAt_idle h.2.1 h.2.2.2]
    exact .pending _ h.1.taken h.1.still
  error := fun t rest e h hinner => by
    rw [h.1.ahead hinner,stopAt_idle h.2.1 h.2.2.2]
    exact .error _ h.1.taken rfl
  capped := fun t rest bytes msg h hinner hcap => by
    have hstop := h.1.ahead hinner
    rw [stopAt_idle h.2.1 h.2.2.2] at hstop
    rw [hstop.trans (if_pos hcap)]
    exact .capped _ h.1.taken rfl
  feed := fun t rest bytes h hinner hcap => h.1.fed h.2.1 h.2.2.1 h.2.2.2 hinner hcap

end Heading

theorem Running.stops {s : SseTransformStream} (h : s.Running) (hended : s.ended = none)
    (json : SerdeJson) {now : Instant} (hearly : ¬s.Expired now) (cancelled : Bool) :
    Stopped s (s.stop cancelled) (s.pollNext json now cancelled).2 := by
  have hself : Heading s s := ⟨rfl,⟨hended,h.done⟩,h.unseen,rfl⟩
  rw [pollNext_open h.done hearly]
  cases cancelled with
  | false =>
    obtain ⟨answer,hdrain,hpost⟩ | ⟨hdrain,hidle⟩ := (Heading.rules json s now).drain hself
    · rw [hdrain]
      exact hpost
    · rw [hdrain]
      exact (Heading.rules json s now).loop rfl hidle
  | true =>
    obtain ⟨n,hb,hd⟩ | ⟨hb,⟨hlen,hd⟩ | ⟨hlen,⟨i,hlast,hd⟩ | ⟨hlast,msg,hd⟩⟩⟩ :=
      s.drain_cases json now
    all_goals
      rw [boundaryFrom_unseen h.unseen] at hb
      rw [hd,stop]
    · rw [stopAt_boundary (by simp [hb])]
      exact .boundary s.buf n _ hb rfl ⟨hended,h.done⟩
    · rw [stopAt_idle hb hlen]
      exact .shutdown _ (finalizeStream_taken s.searched json .shutdown now)
        (finalizeStream_closed s.searched json .shutdown now).1
    · rw [stopAt_oversized hb hlen]
      exact .forced s.buf i _ hb hlast rfl ⟨hended,h.done⟩
    · rw [stopAt_oversized hb hlen]
      exact .oversized s.buf _ hlast rfl rfl

/-- Between polls: every search resumes where it may, and no byte is lost. -/
structure Poised (s : SseTransformStream) : Prop where
  steady : s.Steady
  sound : ∃ script, Sound script s

theorem Poised.stops {s : SseTransformStream} (h : s.Poised) (hdone : s.done = false)
    (hlive : s.ended ≠ some .dropped) (json : SerdeJson) {now : Instant} (hearly : ¬s.Expired now)
    (cancelled : Bool) : Stopped s (s.stop cancelled) (s.pollNext json now cancelled).2 := by
  obtain ⟨script,hsound⟩ := h.sound
  exact (h.steady.running hdone hlive).stops (hsound.running hdone hlive).ended json hearly cancelled

end SseTransformStream

namespace Relay

theorem poised_step {json : SerdeJson} {w t : Relay} {op : Op} (hst : step json w op = some t)
    (h : w.stream.Poised) : t.stream.Poised := by
  obtain ⟨script,hsound⟩ := h.sound
  exact ⟨(steady_step (P := fun _ => True) trivial hst h.steady).1,script,sound_step hst hsound⟩

theorem start_poised (settings : SseSettings) (upstream : UpstreamProvider) (modelName : String)
    (event : ProxyEvent) (start now : Instant) (script : List Inner) :
    (Relay.start (openStream settings upstream modelName event start now script)).stream.Poised :=
  ⟨start_steady,script,start_sound settings upstream modelName event start now script⟩

end Relay
end Ait
