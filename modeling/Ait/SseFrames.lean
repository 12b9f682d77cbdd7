import Ait.SseStops

/-!
# One event in each piece

A buffer that holds both kinds of boundary is cut at the first `\r\n\r\n`, also when a
`\n\n` stands before it. Two events then leave as one piece, and what spoils the first
spoils the other.
-/

namespace Ait
open Transition Search SseTransformStream

def earliest (b : Bytes) : Option ℕ :=
  match find doubleCrlf b,find doubleNewline b with
  | some i,some j => some (min (i+4) (j+2))
  | some i,none => some (i+4)
  | none,some j => some (j+2)
  | none,none => none

def OneEvent (piece : Bytes) : Prop :=
  (∀ i, At doubleNewline piece i → i+2 = piece.length) ∧
    ∀ i, At doubleCrlf piece i → i+4 = piece.length

/-- The first `\r\n\r\n`, if there is one, comes before every `\n\n`. -/
def Unmixed (b : Bytes) : Prop :=
  ∀ i, find doubleCrlf b = some i → ∀ j, At doubleNewline b j → i < j

section Pieces

variable {b piece : Bytes} {i j n : ℕ}

theorem crlf_bytes (h : At doubleCrlf b i) :
    b[i]? = some 13 ∧ b[i+1]? = some 10 ∧ b[i+2]? = some 13 :=
  ⟨h.getElem? (k := 0) (by simp [doubleCrlf]),h.getElem? (k := 1) (by simp [doubleCrlf]),
    h.getElem? (k := 2) (by simp [doubleCrlf])⟩

theorem newline_bytes (h : At doubleNewline b j) : b[j]? = some 10 ∧ b[j+1]? = some 10 :=
  ⟨h.getElem? (k := 0) (by simp [doubleNewline]),h.getElem? (k := 1) (by simp [doubleNewline])⟩

/-- Boundaries of the two kinds share at most the last byte of a `\r\n\r\n`. -/
theorem apart (hi : At doubleCrlf b i) (hj : At doubleNewline b j) : j+2 ≤ i ∨ i+3 ≤ j := by
  obtain ⟨h0,-,h2⟩ := crlf_bytes hi
  obtain ⟨hj0,hj1⟩ := newline_bytes hj
  have hdiffer : ∀ k : ℕ, b[k]? = some 10 → b[k]? = some 13 → False := by
    intro k hk hk'
    rw [hk] at hk'
    exact absurd (Option.some.inj hk') (by decide)
  by_contra hcon
  have hcase : j+1 = i ∨ j = i ∨ j+1 = i+2 ∨ j = i+2 := by omega
  rcases hcase with h | h | h | h
  · exact hdiffer _ hj1 (h ▸ h0)
  · exact hdiffer _ hj0 (h ▸ h0)
  · exact hdiffer _ hj1 (h ▸ h2)
  · exact hdiffer _ hj0 (h ▸ h2)

/-- A piece cut at a boundary is one event exactly when the buffer is unmixed. -/
theorem oneEvent_take (h : boundary b = some n) : OneEvent (b.take n) ↔ Unmixed b := by
  have hlen : (b.take n).length = n := by
    rw [List.length_take]
    exact Nat.min_eq_left (boundary_le h).2
  simp only [OneEvent,Unmixed,hlen,at_take doubleNewline_ne_nil,at_take doubleCrlf_ne_nil]
  rw [boundary_eq,Option.or_eq_some_iff] at h
  rcases h with h | ⟨hnone,h⟩
  · obtain ⟨i,hi,rfl⟩ := Option.map_eq_some_iff.mp h
    obtain ⟨hat,hfirst⟩ := (find_eq_some doubleCrlf_ne_nil).mp hi
    constructor
    · rintro ⟨hlf,-⟩ i' hi' j hj
      obtain rfl := Option.some.inj (hi.symm.trans hi')
      by_contra hle
      have hapart := apart hat hj
      have hend := hlf j ⟨hj,by simp only [doubleNewline,List.length_cons,List.length_nil]; omega⟩
      omega
    · intro hunmixed
      refine ⟨fun j hj => ?_,fun k hk => ?_⟩
      · have hlt := hunmixed i hi j hj.1
        have hapart := apart hat hj.1
        have hle := hj.2
        simp only [doubleNewline,List.length_cons,List.length_nil] at hle
        omega
      · have hge : i ≤ k := Nat.le_of_not_lt fun hlt => hfirst k hlt hk.1
        have hle := hk.2
        simp only [doubleCrlf,List.length_cons,List.length_nil] at hle
        omega
  · obtain ⟨j,hj,rfl⟩ := Option.map_eq_some_iff.mp h
    obtain ⟨hat,hfirst⟩ := (find_eq_some doubleNewline_ne_nil).mp hj
    have hno := (find_eq_none doubleCrlf_ne_nil).mp (Option.map_eq_none_iff.mp hnone)
    constructor
    · intro _ i hi
      rw [Option.map_eq_none_iff.mp hnone] at hi
      cases hi
    · intro _
      refine ⟨fun k hk => ?_,fun k hk => absurd hk.1 (hno k)⟩
      have hge : j ≤ k := Nat.le_of_not_lt fun hlt => hfirst k hlt hk.1
      have hle := hk.2
      simp only [doubleNewline,List.length_cons,List.length_nil] at hle
      omega

theorem oneEvent_of_none (h : boundary b = none) (n : ℕ) : OneEvent (b.take n) := by
  have hnone := boundary_eq_none.mp h
  exact ⟨fun i hi => absurd ((at_take doubleNewline_ne_nil).mp hi).1 (hnone i).2,
    fun i hi => absurd ((at_take doubleCrlf_ne_nil).mp hi).1 (hnone i).1⟩

theorem OneEvent.earliest_eq (h : OneEvent piece) :
    earliest piece = none ∨ earliest piece = some piece.length := by
  unfold earliest
  cases hi : find doubleCrlf piece with
  | none =>
    cases hj : find doubleNewline piece with
    | none => exact .inl rfl
    | some j => exact .inr (congrArg some (h.1 j ((find_eq_some doubleNewline_ne_nil).mp hj).1))
  | some i =>
    have hend := h.2 i ((find_eq_some doubleCrlf_ne_nil).mp hi).1
    cases hj : find doubleNewline piece with
    | none => exact .inr (congrArg some hend)
    | some j =>
      have hend' := h.1 j ((find_eq_some doubleNewline_ne_nil).mp hj).1
      refine .inr (congrArg some ?_)
      rw [hend,hend',min_self]

end Pieces

section Alone

variable (json : SerdeJson) (upstream : UpstreamProvider) (modelName : String)

/-- What reaches the client for a piece is what each of its events would give alone, so that no
event spoils the rewriting of another. -/
def EachAlone (piece : Bytes) : Prop :=
  ∀ events rest, Segmented earliest piece events rest →
    handed json upstream modelName piece =
      (events.map (handed json upstream modelName)).flatten ++ handed json upstream modelName rest

variable {json upstream modelName}

theorem OneEvent.eachAlone {piece : Bytes} (h : OneEvent piece) :
    EachAlone json upstream modelName piece := by
  have hnil : handed json upstream modelName [] = [] := by
    simp [handed,transformEvent_eq,validUtf8,lines]
  intro events rest hcut
  cases hcut with
  | tail _ hnone => simp
  | piece _ n hsome events _ hrest =>
    rcases h.earliest_eq with hnone | hend
    · rw [hnone] at hsome
      cases hsome
    · obtain rfl := Option.some.inj (hend.symm.trans hsome)
      rw [List.drop_length] at hrest
      rw [List.take_length]
      cases hrest with
      | tail _ _ => simp [hnil]
      | piece _ m hm events _ _ => simp [earliest,find] at hm

end Alone

namespace Relay

/-- The client received the rewriting of every piece, every piece is one event, and its events are
rewritten each by itself. -/
def FramesEvents (json : SerdeJson) (w : Relay) : Prop :=
  Delivered json w.received w.stream ∧ ∀ piece ∈ w.stream.taken,
    OneEvent piece ∧ EachAlone json w.stream.upstream w.stream.modelName piece

/-- If this poll stops at a boundary, it does so in an unmixed buffer. -/
def StopsUnmixed (w : Relay) (op : Op) : Prop :=
  ∀ now cancelled b, op = .poll now cancelled → w.stream.done = false → ¬w.stream.Expired now →
    w.stream.stop cancelled = .boundary b → Unmixed b

theorem framed_poll {w : Relay} (json : SerdeJson) (h : w.stream.Poised)
    (hdone : w.stream.done = false) (hlive : w.stream.ended ≠ some .dropped) (now : Instant)
    (cancelled : Bool) :
    (∀ piece ∈ (w.stream.pollNext json now cancelled).2.taken, OneEvent piece) ↔
      (∀ piece ∈ w.stream.taken, OneEvent piece) ∧ w.StopsUnmixed (.poll now cancelled) := by
  by_cases hlate : w.stream.Expired now
  · obtain ⟨msg,hpoll⟩ := pollNext_expired json cancelled hdone hlate
    have htaken : (w.stream.timeoutStream json msg now).2.taken = w.stream.taken :=
      finalizeStream_taken _ _ _ _
    rw [hpoll,htaken]
    refine ⟨fun hall => ⟨hall,?_⟩,And.left⟩
    intro now' cancelled' b hop _ hearly
    obtain ⟨rfl,rfl⟩ := Op.poll.inj hop
    exact absurd hlate hearly
  · have hstops : w.StopsUnmixed (.poll now cancelled) ↔
        ∀ b, w.stream.stop cancelled = .boundary b → Unmixed b := by
      constructor
      · exact fun hop b hb => hop now cancelled b rfl hdone hlate hb
      · rintro hall now' cancelled' b hop _ _ hb
        obtain ⟨rfl,rfl⟩ := Op.poll.inj hop
        exact hall b hb
    have hstop := h.stops hdone hlive json hlate cancelled
    rw [hstops]
    generalize (w.stream.pollNext json now cancelled).2 = t at hstop ⊢
    generalize w.stream.stop cancelled = stop at hstop ⊢
    cases hstop with
    | boundary b n _ hb htaken =>
      have hpiece := oneEvent_take hb
      rw [htaken]
      simp [or_imp,forall_and,hpiece]
    | forced b i _ hb _ htaken =>
      have hpiece := oneEvent_of_none hb (i+1)
      rw [htaken]
      simp [or_imp,forall_and,hpiece]
    | oversized _ _ _ htaken => simp [htaken]
    | shutdown _ htaken => simp [htaken]
    | pending _ htaken => simp [htaken]
    | eof _ htaken => simp [htaken]
    | error _ htaken => simp [htaken]
    | capped _ htaken => simp [htaken]

theorem framed_step {json : SerdeJson} {w t : Relay} {op : Op} (hst : step json w op = some t)
    (h : w.stream.Poised) :
    t.stream.Poised ∧ ((∀ piece ∈ t.stream.taken, OneEvent piece) ↔
      (∀ piece ∈ w.stream.taken, OneEvent piece) ∧ w.StopsUnmixed op) := by
  refine ⟨poised_step hst h,?_⟩
  obtain ⟨hlive,⟨now,cancelled,rfl,hstream,-⟩ | ⟨now,rfl,rfl⟩⟩ := step_cases hst
  · rw [hstream]
    cases hdone : w.stream.done with
    | true =>
      rw [pollNext_done hdone]
      simp [StopsUnmixed,hdone]
    | false => exact framed_poll json h hdone hlive now cancelled
  · rw [dropStream_taken]
    refine ⟨fun hall => ⟨hall,?_⟩,And.left⟩
    intro now cancelled b hop
    cases hop

/-- Over every run: every piece is one event, and every event is rewritten by itself, exactly when
no poll found its boundary in a buffer in which a `\n\n` stands before the first `\r\n\r\n`. -/
theorem frames_iff_unmixed (json : SerdeJson) (settings : SseSettings)
    (upstream : UpstreamProvider) (modelName : String) (event : ProxyEvent) (start now : Instant)
    (script : List Inner) (ops : List Op) (w : Relay) (hrun : exec (step json)
      (Relay.start (openStream settings upstream modelName event start now script)) ops = some w) :
    w.FramesEvents json ↔ Along (step json) StopsUnmixed
      (Relay.start (openStream settings upstream modelName event start now script)) ops := by
  have hiff := exec_iff (fun _ _ _ hst h => framed_step hst h) hrun
    (start_poised settings upstream modelName event start now script)
  have hstart : ∀ piece ∈ (Relay.start
      (openStream settings upstream modelName event start now script)).stream.taken,
      OneEvent piece := nofun
  constructor
  · intro hframes
    exact (hiff.mp fun piece hp => (hframes.2 piece hp).1).2
  · intro hunmixed
    have hone := hiff.mpr ⟨hstart,hunmixed⟩
    exact ⟨(settled_run hrun).delivered,fun piece hp => ⟨hone piece hp,(hone piece hp).eachAlone⟩⟩

/-- Both kinds of boundary in one stream, each in a chunk of its own. -/
theorem frames_iff_unmixed_apart :
    let script := [.chunk (utf8 "a\n\n"),.chunk (utf8 "b\r\n\r\n")]
    let ops := [.poll 1 false,.poll 1 false,.poll 1 false]
    ∃ w, exec (step demoJson) (Relay.start (demoStream script)) ops = some w ∧
      w.stream.taken = [utf8 "a\n\n",utf8 "b\r\n\r\n"] ∧
      (w.FramesEvents demoJson ↔
        Along (step demoJson) StopsUnmixed (Relay.start (demoStream script)) ops) := by
  intro script ops
  have hview : (exec (step demoJson) (Relay.start (demoStream script)) ops).map (fun w =>
      w.stream.taken) = some [utf8 "a\n\n",utf8 "b\r\n\r\n"] := by decide +kernel
  obtain ⟨w,hrun,htaken⟩ := Option.map_eq_some_iff.mp hview
  exact ⟨w,hrun,htaken,frames_iff_unmixed demoJson ⟨60,0,0⟩ demoUpstream "ai" demoEvent 0 0 script ops
    w hrun⟩

/-- In one chunk they make one piece. The first event is no UTF-8, and the second reaches the
client with the upstream's model name. -/
theorem events_merged :
    ¬ ∀ (json : SerdeJson) (settings : SseSettings) (upstream : UpstreamProvider)
      (modelName : String) (event : ProxyEvent) (start now : Instant) (script : List Inner)
      (ops : List Op) (w : Relay), exec (step json)
        (Relay.start (openStream settings upstream modelName event start now script)) ops = some w →
      w.FramesEvents json := by
  intro hframes
  let script : List Inner := [.chunk ([255,10,10] ++ utf8 "data: " ++ upText ++ doubleCrlf)]
  let ops : List Op := [.poll 1 false]
  have hview : (exec (step demoJson) (Relay.start (demoStream script)) ops).map (fun w =>
      w.stream.taken) = some [[255,10,10] ++ utf8 "data: " ++ upText ++ doubleCrlf] := by
    decide +kernel
  obtain ⟨w,hrun,htaken⟩ := Option.map_eq_some_iff.mp hview
  obtain ⟨-,hpieces⟩ := hframes demoJson ⟨60,0,0⟩ demoUpstream "ai" demoEvent 0 0 script ops w hrun
  have hone := (hpieces ([255,10,10] ++ utf8 "data: " ++ upText ++ doubleCrlf) (by simp [htaken])).1
  have hat : At doubleNewline ([255,10,10] ++ utf8 "data: " ++ upText ++ doubleCrlf) 1 :=
    ⟨utf8 "data: " ++ upText ++ doubleCrlf,by simp [doubleNewline]⟩
  have hend := hone.1 1 hat
  have hlen : ([255,10,10] ++ utf8 "data: " ++ upText ++ doubleCrlf).length = 27 := by decide +kernel
  rw [hlen] at hend
  cases hend

end Relay
end Ait
