import Ait.SseRun

/-!
# No byte is lost

Whatever the chunks, the clock and the shutdown signal do: the pieces taken out of
the buffer followed by the buffer are the chunks accepted so far.
-/

namespace Ait
open Transition SseTransformStream

def chunks (items : List Inner) : List Bytes :=
  items.filterMap fun
    | .chunk bytes => some bytes
    | _ => none

def Ending.Flushes (e : Ending) : Prop := e = .eof ∨ e = .timeout ∨ e = .shutdown

namespace SseTransformStream

def Conserved (s : SseTransformStream) : Prop :=
  s.taken.flatten ++ s.flushed ++ s.buf = s.accepted.flatten

def Reading (script : List Inner) (s : SseTransformStream) : Prop :=
  ∃ consumed, script = consumed ++ s.inner ∧ chunks consumed = s.accepted

def Refused (script : List Inner) (s : SseTransformStream) : Prop :=
  s.ended = some .failed ∧ ∃ consumed refused, script = consumed ++ s.inner ∧
    chunks consumed = s.accepted ++ [refused]

structure Open (script : List Inner) (s : SseTransformStream) : Prop where
  conserved : s.Conserved
  reading : Reading script s
  flushed : s.flushed = []
  ended : s.ended = none
  done : s.done = false

structure Sound (script : List Inner) (s : SseTransformStream) : Prop where
  conserved : s.Conserved
  reading : Reading script s ∨ Refused script s
  empty : ∀ e, s.ended = some e → e.Flushes → s.buf = []
  running : s.done = false → s.ended ≠ some .dropped → Open script s

namespace Open

variable {json : SerdeJson} {script : List Inner} {s : SseTransformStream}

theorem sound (h : Open script s) : Sound script s where
  conserved := h.conserved
  reading := .inl h.reading
  empty := fun e he => by rw [h.ended] at he; cases he
  running := fun _ _ => h

theorem searched (h : Open script s) : Open script s.searched :=
  ⟨h.conserved,h.reading,h.flushed,h.ended,h.done⟩

theorem split (h : Open script s) (n : ℕ) : Open script (s.splitEvent json n).2 where
  conserved := by
    have hbytes := h.conserved
    simp only [Conserved,h.flushed,List.append_nil] at hbytes
    simp only [splitEvent,Conserved,h.flushed,List.append_nil,List.flatten_append,
      List.flatten_singleton,List.append_assoc,List.take_append_drop]
    exact hbytes
  reading := h.reading
  flushed := h.flushed
  ended := h.ended
  done := h.done

theorem finalize (h : Open script s) (why : Ending) (now : Instant) :
    Sound script (s.finalizeStream json why now).2 := by
  have hbytes := h.conserved
  unfold finalizeStream
  dsimp only
  split
  · refine ⟨?_,.inl h.reading,fun _ _ _ => rfl,nofun⟩
    simp only [Conserved,h.flushed,List.append_nil] at hbytes
    simpa [Conserved,finalizeLog,recordTtfb] using hbytes
  · rename_i hempty
    refine ⟨h.conserved,.inl h.reading,fun _ _ _ => ?_,nofun⟩
    simpa [finalizeLog,recordTtfb] using hempty

theorem expire (h : Open script s) (msg : String) (now : Instant) :
    Sound script (s.timeoutStream json msg now).2 :=
  finalize (s := { s with event := { s.event with status := "504",errorMessage := some msg } })
    ⟨h.conserved,h.reading,h.flushed,h.ended,h.done⟩ .timeout now

theorem fail (h : Open script s) (status msg : String) (now : Instant) :
    Sound script (s.failStream status msg now).2 where
  conserved := h.conserved
  reading := .inl h.reading
  empty := by
    rintro e he hflush
    obtain rfl := Option.some.inj he
    simp [Ending.Flushes] at hflush
  running := nofun

theorem fed (h : Open script s) {rest : List Inner} {bytes : Bytes} {now : Instant}
    (hinner : s.inner = .chunk bytes::rest) : Open script (s.fed rest bytes now) where
  conserved := by
    have hbytes := h.conserved
    simp only [Conserved,h.flushed,List.append_nil] at hbytes
    simp [SseTransformStream.fed,receive,append,recordTtfb,Conserved,h.flushed,← hbytes]
  reading := by
    obtain ⟨consumed,hscript,hchunks⟩ := h.reading
    refine ⟨consumed ++ [.chunk bytes],?_,?_⟩
    · rw [hscript,hinner]
      simp [SseTransformStream.fed,receive,append,recordTtfb]
    · simp only [chunks] at hchunks
      simp [SseTransformStream.fed,receive,append,recordTtfb,chunks,hchunks]
  flushed := h.flushed
  ended := h.ended
  done := h.done

theorem capped (h : Open script s) {rest : List Inner} {bytes : Bytes} (msg : String)
    {now : Instant} (hinner : s.inner = .chunk bytes::rest) :
    Sound script ((receive { s with inner := rest } bytes now).failStream "502" msg now).2 where
  conserved := h.conserved
  reading := by
    obtain ⟨consumed,hscript,hchunks⟩ := h.reading
    refine .inr ⟨rfl,consumed ++ [.chunk bytes],bytes,?_,?_⟩
    · rw [hscript,hinner]
      simp [receive,failStream,finalizeLog]
    · simp only [chunks] at hchunks
      simp [receive,failStream,finalizeLog,chunks,hchunks]
  empty := by
    rintro e he hflush
    obtain rfl := Option.some.inj he
    simp [Ending.Flushes] at hflush
  running := nofun

theorem reading_skip (h : Open script s) {rest : List Inner} {item : Inner}
    (hitem : chunks [item] = []) (hinner : s.inner = item::rest) :
    Reading script { s with inner := rest } := by
  obtain ⟨consumed,hscript,hchunks⟩ := h.reading
  refine ⟨consumed ++ [item],by rw [hscript,hinner]; simp,?_⟩
  unfold chunks at hchunks hitem ⊢
  rw [List.filterMap_append,hitem,List.append_nil]
  exact hchunks

theorem rules (json : SerdeJson) (script : List Inner) (now : Instant) (cancelled : Bool) :
    PollRules json now cancelled (Open script) (Open script) fun answer =>
      Sound script answer.2 where
  split := fun s n h _ => (h.split n).sound
  force := fun s i h _ _ _ => (h.searched.split (i+1)).sound
  oversize := fun s msg h _ _ _ => h.searched.fail "502" msg now
  search := fun s h _ _ => h.searched
  shutdown := fun s h _ => h.finalize .shutdown now
  eof := fun s h _ => h.finalize .eof now
  pending := fun s rest h hinner =>
    sound ⟨h.conserved,h.reading_skip rfl hinner,h.flushed,h.ended,h.done⟩
  error := fun s rest e h hinner =>
    { conserved := h.conserved
      reading := .inl (h.reading_skip rfl hinner)
      empty := by
        rintro why he hflush
        obtain rfl := Option.some.inj he
        simp [Ending.Flushes] at hflush
      running := nofun }
  capped := fun s rest bytes msg h hinner _ => h.capped msg hinner
  feed := fun s rest bytes h hinner _ => h.fed hinner

end Open

theorem Sound.poll {script : List Inner} {s : SseTransformStream} (h : Sound script s)
    (json : SerdeJson) (now : Instant) (cancelled : Bool) (hlive : s.ended ≠ some .dropped) :
    Sound script (s.pollNext json now cancelled).2 :=
  (Open.rules json script now cancelled).poll (fun _ => h) (fun hdone => h.running hdone hlive)
    fun hdone msg => (h.running hdone hlive).expire msg now

theorem Sound.drop {script : List Inner} {s : SseTransformStream} (h : Sound script s)
    (now : Instant) (hlive : s.ended ≠ some .dropped) : Sound script (s.dropStream now) := by
  unfold dropStream
  split
  · exact h
  · rename_i hdone
    have hopen := h.running (by simpa using hdone) hlive
    refine ⟨hopen.conserved,.inl hopen.reading,?_,?_⟩
    · rintro e he hflush
      obtain rfl := Option.some.inj he
      simp [Ending.Flushes] at hflush
    · exact fun _ hnot => absurd rfl hnot

end SseTransformStream

theorem Relay.sound_step {json : SerdeJson} {script : List Inner} {w t : Relay} {op : Relay.Op}
    (hst : Relay.step json w op = some t) (h : Sound script w.stream) : Sound script t.stream := by
  obtain ⟨hlive,⟨now,cancelled,-,hstream,-⟩ | ⟨now,-,rfl⟩⟩ := Relay.step_cases hst
  · rw [hstream]
    exact h.poll json now cancelled hlive
  · exact h.drop now hlive

theorem Relay.start_sound (settings : SseSettings) (upstream : UpstreamProvider)
    (modelName : String) (event : ProxyEvent) (start now : Instant) (script : List Inner) :
    Sound script
      (Relay.start (openStream settings upstream modelName event start now script)).stream := by
  have hstart : Open script (openStream settings upstream modelName event start now script) :=
    ⟨rfl,⟨[],rfl,rfl⟩,rfl,rfl,rfl⟩
  exact hstart.sound

theorem Relay.sound_run {json : SerdeJson} {settings : SseSettings} {upstream : UpstreamProvider}
    {modelName : String} {event : ProxyEvent} {start now : Instant} {script : List Inner}
    {ops : List Relay.Op} {w : Relay} (hrun : exec (Relay.step json)
      (Relay.start (openStream settings upstream modelName event start now script)) ops = some w) :
    Sound script w.stream :=
  exec_preserves (fun _ _ _ hst h => Relay.sound_step hst h) hrun
    (Relay.start_sound settings upstream modelName event start now script)

/-- Over every run of a stream the pieces taken out of the buffer, in order, followed by the
buffer are exactly the chunks accepted; these are the chunks upstream sent, but for one the size
cap refused; and a stream that ended by itself, by a timeout or by shutdown has an empty buffer. -/
theorem Relay.bytes_conserved (json : SerdeJson) (settings : SseSettings)
    (upstream : UpstreamProvider) (modelName : String) (event : ProxyEvent) (start now : Instant)
    (script : List Inner) (ops : List Relay.Op) (w : Relay)
    (hrun : exec (Relay.step json)
      (Relay.start (openStream settings upstream modelName event start now script)) ops = some w) :
    w.stream.taken.flatten ++ w.stream.flushed ++ w.stream.buf = w.stream.accepted.flatten ∧
      (SseTransformStream.Reading script w.stream ∨ Refused script w.stream) ∧
      ∀ e, w.stream.ended = some e → e.Flushes → w.stream.buf = [] := by
  have hw := Relay.sound_run hrun
  exact ⟨hw.conserved,hw.reading,hw.empty⟩

/-- A boundary cut in two by the network, and an event the upstream never finished. -/
theorem Relay.bytes_conserved_residue :
    let json : SerdeJson := ⟨fun _ => none,fun _ => none⟩
    let script := [.chunk (utf8 "data: hi\n"),.pending,.chunk (utf8 "\ndata: yo")]
    let ops := [.poll 1 false,.poll 1 false,.poll 1 false]
    ∃ w, exec (Relay.step json) (Relay.start (demoStream script)) ops = some w ∧
      w.stream.taken = [utf8 "data: hi\n\n"] ∧ w.stream.flushed = utf8 "data: yo" ∧
      w.stream.taken.flatten ++ w.stream.flushed ++ w.stream.buf = w.stream.accepted.flatten ∧
      w.stream.buf = [] := by
  intro json script ops
  have hview : (exec (Relay.step json) (Relay.start (demoStream script)) ops).map (fun w =>
      (w.stream.taken,w.stream.flushed,w.stream.ended)) =
      some ([utf8 "data: hi\n\n"],utf8 "data: yo",some .eof) := by decide +kernel
  obtain ⟨w,hrun,hw⟩ := Option.map_eq_some_iff.mp hview
  obtain ⟨htaken,hw⟩ := Prod.mk.inj hw
  obtain ⟨hflushed,hended⟩ := Prod.mk.inj hw
  obtain ⟨hbytes,-,hempty⟩ := Relay.bytes_conserved json _ _ _ _ _ _ script ops w hrun
  exact ⟨w,hrun,htaken,hflushed,hbytes,hempty _ hended (.inl rfl)⟩

end Ait
