import Ait.SseAlias

/-!
# Nothing complete is withheld

A search starts again three bytes before the end of what the last one saw, so a poll
that answers `Pending` leaves no boundary in the buffer. Every piece takes bytes off
it, and finitely many polls drain a buffer.
-/

namespace Ait
open Transition Search SseTransformStream

/-- A boundary of one kind or the other stands somewhere in the text. -/
def HasBoundary (b : Bytes) : Prop := doubleNewline <:+: b ∨ doubleCrlf <:+: b

@[simp] theorem boundary_eq_none_iff (b : Bytes) : boundary b = none ↔ ¬HasBoundary b := by
  rw [boundary_eq_none,HasBoundary,isInfix_iff_at,isInfix_iff_at]
  constructor
  · rintro hnone (⟨i,hi⟩ | ⟨i,hi⟩)
    · exact (hnone i).2 hi
    · exact (hnone i).1 hi
  · intro h i
    exact ⟨fun hi => h (.inr ⟨i,hi⟩),fun hi => h (.inl ⟨i,hi⟩)⟩

namespace SseTransformStream

/-- From `s` to `t` chunks were appended and at most one piece, with at least one byte, was taken
off the front. -/
def TakesOne (s t : SseTransformStream) : Prop :=
  ∃ new, t.accepted = s.accepted ++ new ∧
    (t.taken = s.taken ∨ ∃ piece, piece ≠ [] ∧ t.taken = s.taken ++ [piece] ∧
      piece ++ t.buf = s.buf ++ new.flatten)

/-- During a poll of `s`: chunks were appended, and no boundary starts where the search was. -/
structure Filling (s t : SseTransformStream) : Prop where
  bytes : ∃ new, t.accepted = s.accepted ++ new ∧ t.buf = s.buf ++ new.flatten
  taken : t.taken = s.taken
  unseen : Unseen t.buf t.scanned

structure Forthcoming (s : SseTransformStream) (answer : Poll × SseTransformStream) : Prop where
  pending : answer.1 = .pending →
    ¬HasBoundary answer.2.buf ∧ answer.2.buf.length ≤ maxSseBufferBytes
  takes : TakesOne s answer.2

namespace Filling

variable {s t : SseTransformStream} {json : SerdeJson} {now : Instant}

theorem kept (h : Filling s t) {poll : Poll} {u : SseTransformStream} (hpoll : poll ≠ .pending)
    (haccepted : u.accepted = t.accepted) (htaken : u.taken = t.taken) :
    Forthcoming s (poll,u) := by
  obtain ⟨new,hnew,-⟩ := h.bytes
  exact ⟨fun hp => absurd hp hpoll,new,haccepted.trans hnew,.inl (htaken.trans h.taken)⟩

theorem split (h : Filling s t) {n : ℕ} (hn : 0 < n ∧ n ≤ t.buf.length) :
    Forthcoming s (t.splitEvent json n) := by
  obtain ⟨new,hnew,hbuf⟩ := h.bytes
  refine ⟨nofun,new,hnew,.inr ⟨t.buf.take n,?_,?_,?_⟩⟩
  · intro hnil
    have hlen := congrArg List.length hnil
    rw [List.length_take,List.length_nil] at hlen
    omega
  · simp [splitEvent,h.taken]
  · rw [← hbuf]
    exact List.take_append_drop n t.buf

theorem finalize (h : Filling s t) (why : Ending) :
    Forthcoming s (t.finalizeStream json why now) := by
  unfold finalizeStream
  dsimp only
  split
  · exact h.kept nofun rfl rfl
  · exact h.kept nofun rfl rfl

theorem searched (h : Filling s t) (hb : boundary t.buf = none) : Filling s t.searched :=
  ⟨h.bytes,h.taken,fun j _ => boundary_eq_none.mp hb j⟩

theorem fed (h : Filling s t) (hb : boundary t.buf = none) (hscanned : t.scanned = t.buf.length-3)
    (rest : List Inner) (bytes : Bytes) : Filling s (t.fed rest bytes now) := by
  obtain ⟨new,hnew,hbuf⟩ := h.bytes
  have hunseen := unseen_append hb bytes
  rw [← hscanned] at hunseen
  refine ⟨⟨new ++ [bytes],?_,?_⟩,h.taken,hunseen⟩
  · change t.accepted ++ [bytes] = _
    rw [hnew,List.append_assoc]
  · change t.buf ++ bytes = _
    rw [hbuf,List.flatten_append,List.append_assoc]
    simp

theorem rules (json : SerdeJson) (s : SseTransformStream) (now : Instant) (cancelled : Bool) :
    PollRules json now cancelled (Filling s)
      (fun t => Filling s t ∧ boundary t.buf = none ∧ t.scanned = t.buf.length-3 ∧
        t.buf.length ≤ maxSseBufferBytes) (Forthcoming s) where
  split := fun t n h hb => by
    rw [boundaryFrom_unseen h.unseen] at hb
    exact h.split (boundary_le hb)
  force := fun t i h hb _ hlast => by
    rw [boundaryFrom_unseen h.unseen] at hb
    exact (h.searched hb).split ⟨Nat.succ_pos i,findLast_lt hlast⟩
  oversize := fun t msg h _ _ _ => h.kept nofun rfl rfl
  search := fun t h hb hlen => by
    rw [boundaryFrom_unseen h.unseen] at hb
    exact ⟨h.searched hb,hb,rfl,hlen⟩
  shutdown := fun t h _ => h.1.finalize .shutdown
  eof := fun t h _ => h.1.finalize .eof
  pending := fun t rest h _ => by
    obtain ⟨new,hnew,-⟩ := h.1.bytes
    exact ⟨fun _ => ⟨(boundary_eq_none_iff _).mp h.2.1,h.2.2.2⟩,new,hnew,.inl h.1.taken⟩
  error := fun t rest e h _ => h.1.kept nofun rfl rfl
  capped := fun t rest bytes msg h _ _ => h.1.kept nofun rfl rfl
  feed := fun t rest bytes h _ _ => h.1.fed h.2.1 h.2.2.1 rest bytes

end Filling

theorem Steady.poll {s : SseTransformStream} (h : s.Steady) (json : SerdeJson) (now : Instant)
    (cancelled : Bool) (hlive : s.ended ≠ some .dropped) :
    Forthcoming s (s.pollNext json now cancelled) := by
  have hsame : s.accepted = s.accepted ++ [] := (List.append_nil _).symm
  refine (Filling.rules json s now cancelled).poll ?_ ?_ ?_
  · exact fun _ => ⟨nofun,[],hsame,.inl rfl⟩
  · intro hdone
    exact ⟨⟨[],hsame,by simp⟩,rfl,(h.running hdone hlive).unseen⟩
  · intro hdone msg
    have hfilling : Filling s
        { s with event := { s.event with status := "504",errorMessage := some msg } } :=
      ⟨⟨[],hsame,by simp⟩,rfl,(h.running hdone hlive).unseen⟩
    exact hfilling.finalize .timeout

/-- The next poll, should it come before the deadlines, is answered out of the buffer. -/
def Laden (s : SseTransformStream) (now : Instant) : Prop :=
  s.done = false ∧ ¬s.Expired now ∧ (HasBoundary s.buf ∨ s.buf.length > maxSseBufferBytes)

theorem Running.laden {s : SseTransformStream} (h : s.Running) (json : SerdeJson) {now : Instant}
    (hladen : s.Laden now) (cancelled : Bool) :
    s.buf ≠ [] ∧ ((s.pollNext json now cancelled).2.done = true ∨
      (s.pollNext json now cancelled).2.Running ∧
        (s.pollNext json now cancelled).2.buf.length < s.buf.length) := by
  obtain ⟨hdone,hearly,hfull⟩ := hladen
  have hsplit : ∀ n, 0 < n ∧ n ≤ s.buf.length → s.buf ≠ [] ∧
      (s.splitEvent json n).2.buf.length < s.buf.length := by
    intro n hn
    refine ⟨fun hnil => ?_,?_⟩
    · rw [hnil,List.length_nil] at hn
      omega
    · change (s.buf.drop n).length < s.buf.length
      rw [List.length_drop]
      omega
  rw [pollNext_open hdone hearly]
  obtain ⟨n,hb,hd⟩ | ⟨hb,⟨hlen,hd⟩ | ⟨hlen,⟨i,hlast,hd⟩ | ⟨hlast,msg,hd⟩⟩⟩ :=
    s.drain_cases json now
  all_goals
    rw [boundaryFrom_unseen h.unseen] at hb
    rw [hd]
  · obtain ⟨hne,hlt⟩ := hsplit n (boundary_le hb)
    exact ⟨hne,.inr ⟨h.split,hlt⟩⟩
  · rcases hfull with hfull | hfull
    · exact absurd hfull ((boundary_eq_none_iff _).mp hb)
    · exact absurd hlen (Nat.not_le_of_lt hfull)
  · obtain ⟨hne,hlt⟩ := hsplit (i+1) ⟨Nat.succ_pos i,findLast_lt hlast⟩
    exact ⟨hne,.inr ⟨(h.searched hb).split,hlt⟩⟩
  · refine ⟨fun hnil => ?_,.inl rfl⟩
    rw [hnil] at hlen
    exact absurd hlen (Nat.not_lt_zero _)

end SseTransformStream

namespace Relay

def DrainsBuffer (w : Relay) (op : Op) : Prop :=
  ∃ now cancelled, op = .poll now cancelled ∧ w.stream.Laden now

/-- There are no more such polls in a row than there are bytes in the buffer. -/
theorem drains_length {json : SerdeJson} {ops : List Op} {w t : Relay}
    (h : w.stream.done = false → w.stream.Running) (hrun : exec (step json) w ops = some t)
    (hdrains : Along (step json) DrainsBuffer w ops) : ops.length ≤ w.stream.buf.length := by
  induction ops generalizing w with
  | nil => exact Nat.zero_le _
  | cons op ops ih =>
    obtain ⟨u,hst,hrest⟩ := Option.bind_eq_some_iff.mp hrun
    obtain ⟨⟨now,cancelled,rfl,hladen⟩,hdrains⟩ := hdrains
    have hu : u.stream = (w.stream.pollNext json now cancelled).2 := by
      obtain ⟨-,⟨now',cancelled',hop,hstream,-⟩ | ⟨now',hop,-⟩⟩ := step_cases hst
      · obtain ⟨rfl,rfl⟩ := Op.poll.inj hop
        exact hstream
      · cases hop
    obtain ⟨hne,hclosed | ⟨hrunning,hlt⟩⟩ := (h hladen.1).laden json hladen cancelled
    · cases ops with
      | nil => exact List.length_pos_iff.mpr hne
      | cons op' ops =>
        -- a stream that failed hands nothing out any more
        obtain ⟨⟨now',cancelled',rfl,hdone,-⟩,-⟩ := hdrains u hst
        rw [hu,hclosed] at hdone
        cases hdone
    · rw [← hu] at hrunning hlt
      exact lt_of_le_of_lt (ih (fun _ => hrunning) hrest (hdrains u hst)) hlt

/-- Over every run of a stream: a poll answered with `Pending` leaves no boundary in the buffer and
the buffer within its cap, a poll takes at most one piece and this has at least one byte, and as
long as every poll finds something to hand out there are no more polls than bytes in the buffer. -/
theorem nothing_withheld (json : SerdeJson) (settings : SseSettings) (upstream : UpstreamProvider)
    (modelName : String) (event : ProxyEvent) (start now : Instant) (script : List Inner)
    (ops : List Op) (w : Relay) (hrun : exec (step json)
      (Relay.start (openStream settings upstream modelName event start now script)) ops = some w)
    (hlive : w.stream.ended ≠ some .dropped) :
    (∀ now cancelled, Forthcoming w.stream (w.stream.pollNext json now cancelled)) ∧
      ∀ ops' t, exec (step json) w ops' = some t → Along (step json) DrainsBuffer w ops' →
        ops'.length ≤ w.stream.buf.length := by
  have hsteady := steady_run hrun
  exact ⟨fun now cancelled => hsteady.poll json now cancelled hlive,
    fun ops' t hrun' hdrains => drains_length (fun hdone => hsteady.running hdone hlive) hrun' hdrains⟩

/-- Two events in one chunk; the second lies in the buffer after the first poll. -/
theorem nothing_withheld_second :
    let json : SerdeJson := ⟨fun _ => none,fun _ => none⟩
    let script := [.chunk (utf8 "a\n\nb\n\nc"),.pending]
    ∃ w, exec (step json) (Relay.start (demoStream script)) [.poll 1 false] = some w ∧
      w.stream.buf = utf8 "b\n\nc" ∧
      (∀ now cancelled, Forthcoming w.stream (w.stream.pollNext json now cancelled)) ∧
      ∀ ops' t, exec (step json) w ops' = some t → Along (step json) DrainsBuffer w ops' →
        ops'.length ≤ 4 := by
  intro json script
  have hview : (exec (step json) (Relay.start (demoStream script)) [.poll 1 false]).map (fun w =>
      (w.stream.buf,w.stream.ended)) = some (utf8 "b\n\nc",none) := by decide +kernel
  obtain ⟨w,hrun,hw⟩ := Option.map_eq_some_iff.mp hview
  obtain ⟨hbuf,hended⟩ := Prod.mk.inj hw
  obtain ⟨hpolls,hdrains⟩ := nothing_withheld json _ _ _ _ _ _ script _ w hrun (by simp [hended])
  have hlen : w.stream.buf.length = 4 := by rw [hbuf]; decide +kernel
  rw [hlen] at hdrains
  exact ⟨w,hrun,hbuf,hpolls,hdrains⟩

end Relay
end Ait
