import Ait.Payloads
import Ait.SseChunks

/-!
# The alias on every line

Whole events leave the stream with the alias on each of their lines. What is still in
the buffer when the stream ends leaves as one text, and its `data:` lines as upstream
wrote them.
-/

namespace Ait
open Transition Search SseTransformStream

/-- Flushing these bytes is harmless: they are one JSON text, or no line of theirs holds an
object without the alias. -/
def Harmless (json : SerdeJson) (modelName : String) (rest : Bytes) : Prop :=
  json.fromSlice rest ≠ none ∨ Aliased json modelName rest

section Residue

variable {json : SerdeJson} {upstream : UpstreamProvider} {modelName : String}

theorem residue_aliased_iff (hjson : json.Lawful) (rest : Bytes) :
    Aliased json modelName (residue json upstream modelName rest).flatten ↔
      Harmless json modelName rest := by
  by_cases hnil : rest = []
  · subst hnil
    have hempty : Aliased json modelName [] := by
      intro payload hp
      simp at hp
    exact ⟨fun _ => .inr hempty,fun _ => hempty⟩
  · have hres : (residue json upstream modelName rest).flatten =
        upstream.transformResponse json rest modelName := by simp [residue,hnil]
    rw [hres]
    cases hread : json.fromSlice rest with
    | none =>
      have hsame : upstream.transformResponse json rest modelName = rest := by
        simp [UpstreamProvider.transformResponse,hread]
      rw [hsame]
      constructor
      · exact .inr
      · intro h
        rcases h with h | h
        · exact absurd hread h
        · exact h
    | some v =>
      refine ⟨fun _ => .inl (by simp [hread]),fun _ payload hp => ?_⟩
      cases hwritten : json.toVec (upstream.rewrite v modelName) with
      | none => exact absurd hwritten (hjson.writes _)
      | some b =>
        -- a written text is one line, and no `data:` line
        obtain ⟨hno,hstart⟩ := hjson.compact _ _ hwritten
        have hb : upstream.transformResponse json rest modelName = b := by
          simp [UpstreamProvider.transformResponse,hread,hwritten]
        have hnone : dataPayload b = none := by
          simp [dataPayload,stripBytes,List.isPrefixOf_iff_prefix,hstart]
        rw [hb,dataPayloads_line hno,hnone] at hp
        cases hp

/-- Pieces that are whole lines of valid text cannot spoil what was received. -/
theorem delivered_aliased_iff (hjson : json.Lawful) {taken : List Bytes} {rest : Bytes}
    (htaken : ∀ piece ∈ taken, validUtf8 piece = true) :
    Aliased json modelName (taken.map (handed json upstream modelName) ++
      residue json upstream modelName rest).flatten ↔ Harmless json modelName rest := by
  have hpieces : Terminated (taken.map (handed json upstream modelName)).flatten ∧
      Aliased json modelName (taken.map (handed json upstream modelName)).flatten := by
    induction taken with
    | nil => exact ⟨.inl rfl,fun payload hp => by simp at hp⟩
    | cons piece taken ih =>
      obtain ⟨hterm,halias⟩ := handed_aliased hjson upstream (htaken piece List.mem_cons_self)
      obtain ⟨hterm',halias'⟩ := ih fun p hp => htaken p (List.mem_cons_of_mem piece hp)
      refine ⟨hterm.append hterm',fun payload hp => ?_⟩
      rw [List.map_cons,List.flatten_cons,hterm.payloads] at hp
      rcases List.mem_append.mp hp with hp | hp
      · exact halias payload hp
      · exact halias' payload hp
  have hresidue : Aliased json modelName (residue json upstream modelName rest).flatten ↔
      Harmless json modelName rest := residue_aliased_iff hjson rest
  rw [← hresidue,List.flatten_append]
  constructor
  · intro h payload hp
    exact h payload (by rw [hpieces.1.payloads]; exact List.mem_append_right _ hp)
  · intro h payload hp
    rw [hpieces.1.payloads] at hp
    rcases List.mem_append.mp hp with hp | hp
    · exact hpieces.2 payload hp
    · exact h payload hp

end Residue

theorem pieces_valid {pieces : List Bytes} {rest : Bytes}
    (hlines : ∀ piece ∈ pieces, ∃ l, piece = l ++ [newline])
    (h : validUtf8 (pieces.flatten ++ rest) = true) :
    ∀ piece ∈ pieces, validUtf8 piece = true := by
  induction pieces with
  | nil => simp
  | cons piece pieces ih =>
    obtain ⟨l,rfl⟩ := hlines piece List.mem_cons_self
    have hbytes : ((l ++ [newline])::pieces).flatten ++ rest =
        l ++ newline::(pieces.flatten ++ rest) := by simp
    rw [hbytes] at h
    obtain ⟨hpiece,hrest⟩ := validUtf8_split h
    intro p hp
    rcases List.mem_cons.mp hp with rfl | hp
    · exact hpiece
    · exact ih (fun q hq => hlines q (List.mem_cons_of_mem _ hq)) hrest p hp

namespace SseTransformStream

def Expired (s : SseTransformStream) (now : Instant) : Prop :=
  elapsed s.start now ≥ s.maxDuration ∨ now ≥ s.idleTimer

/-- Upstream sends what is left without a pause and without another boundary, within the caps. -/
structure ReadsToEnd (s : SseTransformStream) : Prop where
  ready : ∀ item ∈ s.inner, ∃ bytes, item = .chunk bytes
  unbroken : boundary (s.buf ++ s.unsent) = none
  fits : (s.buf ++ s.unsent).length ≤ maxSseBufferBytes
  within : s.totalBytes+s.unsent.length ≤ s.maxBytes

inductive Flushes (s : SseTransformStream) (now : Instant) : Bool → Bytes → Prop
  | expired (cancelled : Bool) (h : s.Expired now) : Flushes s now cancelled s.buf
  | shutdown (hopen : ¬s.Expired now) (hnone : boundary s.buf = none)
      (hfits : s.buf.length ≤ maxSseBufferBytes) : Flushes s now true s.buf
  | eof (hopen : ¬s.Expired now) (hends : s.ReadsToEnd) : Flushes s now false (s.buf ++ s.unsent)

structure Running (s : SseTransformStream) : Prop where
  unseen : Unseen s.buf s.scanned
  within : s.totalBytes ≤ s.maxBytes
  flushed : s.flushed = []
  done : s.done = false

def WholeLines (s : SseTransformStream) : Prop := ∀ piece ∈ s.taken, ∃ l, piece = l ++ [newline]

/-- After a poll: whole lines were taken, and the buffer was flushed if it had to be. -/
structure Polled (flushes : Prop) (rest : Bytes) (t : SseTransformStream) : Prop where
  lines : t.WholeLines
  running : t.done = false → t.Running
  flush : flushes → t.flushed = rest ∧ t.done = true
  keep : ¬flushes → t.flushed = []

/-- During a poll of `s`: the bytes ahead and what is to become of them are as they were. -/
structure Polling (s : SseTransformStream) (t : SseTransformStream) : Prop where
  lines : t.WholeLines
  running : t.Running
  bytes : t.buf ++ t.unsent = s.buf ++ s.unsent
  ends : t.ReadsToEnd ↔ s.ReadsToEnd

section Poll

variable {json : SerdeJson} {s t : SseTransformStream} {now : Instant} {n : ℕ}

theorem WholeLines.split (h : s.WholeLines) (hpiece : ∃ l, s.buf.take n = l ++ [newline]) :
    (s.splitEvent json n).2.WholeLines := by
  intro piece hp
  rcases List.mem_append.mp hp with hp | hp
  · exact h piece hp
  · obtain rfl := List.mem_singleton.mp hp
    exact hpiece

theorem take_boundary {b : Bytes} (h : boundary b = some n) : ∃ l, b.take n = l ++ [newline] := by
  have hend : ∀ (pat l : Bytes) (i : ℕ), pat = l ++ [newline] → At pat b i →
      b.take (i+pat.length) = b.take i ++ l ++ [newline] := by
    rintro pat l i rfl ⟨rest,hrest⟩
    rw [List.take_add,← hrest,List.take_left,List.append_assoc]
  obtain ⟨i,⟨hat,rfl⟩ | ⟨hat,rfl⟩⟩ := boundary_at h
  · exact ⟨_,hend doubleCrlf [13,10,13] i rfl hat⟩
  · exact ⟨_,hend doubleNewline [10] i rfl hat⟩

theorem Running.split (h : s.Running) : (s.splitEvent json n).2.Running :=
  ⟨nofun,h.within,h.flushed,h.done⟩

theorem Running.searched (h : s.Running) (hb : boundary s.buf = none) : s.searched.Running :=
  ⟨fun j _ => boundary_eq_none.mp hb j,h.within,h.flushed,h.done⟩

theorem finalize_flushed (json : SerdeJson) (why : Ending) (now : Instant)
    (hflushed : s.flushed = []) :
    (s.finalizeStream json why now).2.flushed = s.buf ∧
      (s.finalizeStream json why now).2.done = true ∧
      (s.finalizeStream json why now).2.taken = s.taken := by
  unfold finalizeStream
  dsimp only
  split
  · exact ⟨rfl,rfl,rfl⟩
  · rename_i hempty
    have hnil : s.buf = [] := by simpa [finalizeLog,recordTtfb] using hempty
    exact ⟨hflushed.trans hnil.symm,rfl,rfl⟩

theorem Polled.kept {flushes : Prop} {rest : Bytes} (hlines : t.WholeLines)
    (hrunning : t.done = false → t.Running) (hno : ¬flushes) (hflushed : t.flushed = []) :
    Polled flushes rest t :=
  ⟨hlines,hrunning,fun h => absurd h hno,fun _ => hflushed⟩

theorem ReadsToEnd.boundary_none (h : s.ReadsToEnd) : boundary s.buf = none := by
  refine boundary_eq_none.mpr fun j => ?_
  have hnone := boundary_eq_none.mp h.unbroken j
  exact ⟨fun hat => hnone.1 (hat.append doubleCrlf_ne_nil _),
    fun hat => hnone.2 (hat.append doubleNewline_ne_nil _)⟩

theorem ReadsToEnd.buf_fits (h : s.ReadsToEnd) : s.buf.length ≤ maxSseBufferBytes := by
  have hfits := h.fits
  rw [List.length_append] at hfits
  omega

namespace Polling

theorem split (h : Polling s t) (hb : boundary t.buf = some n) :
    Polled s.ReadsToEnd (s.buf ++ s.unsent) (t.splitEvent json n).2 := by
  refine .kept (h.lines.split (take_boundary hb)) (fun _ => h.running.split) ?_ h.running.flushed
  intro hends
  have hnone := (h.ends.mpr hends).boundary_none
  rw [hb] at hnone
  cases hnone

theorem force (h : Polling s t) {i : ℕ} (hlen : t.buf.length > maxSseBufferBytes)
    (hlast : Search.findLast newline t.buf = some i) :
    Polled s.ReadsToEnd (s.buf ++ s.unsent) (t.searched.splitEvent json (i+1)).2 := by
  have hlines : t.searched.WholeLines := h.lines
  refine .kept (hlines.split (take_findLast hlast)) ?_ ?_ h.running.flushed
  · exact fun _ => ⟨nofun,h.running.within,h.running.flushed,h.running.done⟩
  · exact fun hends => absurd (h.ends.mpr hends).buf_fits (Nat.not_le_of_lt hlen)

theorem searched (h : Polling s t) (hb : boundary t.buf = none) : Polling s t.searched where
  lines := h.lines
  running := h.running.searched hb
  bytes := h.bytes
  ends := by
    refine Iff.trans ?_ h.ends
    exact ⟨fun he => ⟨he.ready,he.unbroken,he.fits,he.within⟩,
      fun he => ⟨he.ready,he.unbroken,he.fits,he.within⟩⟩

theorem eof (h : Polling s t) (hb : boundary t.buf = none)
    (hlen : t.buf.length ≤ maxSseBufferBytes) (hinner : t.inner = []) :
    Polled s.ReadsToEnd (s.buf ++ s.unsent) (t.finalizeStream json .eof now).2 := by
  obtain ⟨hflushed,hdone,htaken⟩ := finalize_flushed json .eof now h.running.flushed
  have hall : t.buf ++ t.unsent = t.buf := by simp [unsent,hinner,chunks]
  have hends : t.ReadsToEnd := by
    refine ⟨by simp [hinner],by rw [hall]; exact hb,by rw [hall]; exact hlen,?_⟩
    simpa [unsent,hinner,chunks] using h.running.within
  refine ⟨?_,fun hopen => ?_,fun _ => ⟨?_,hdone⟩,fun hno => absurd (h.ends.mp hends) hno⟩
  · unfold WholeLines
    rw [htaken]
    exact h.lines
  · rw [hdone] at hopen
    cases hopen
  · rw [hflushed,← h.bytes,hall]

theorem not_ready (h : Polling s t) {item : Inner} {rest : List Inner}
    (hinner : t.inner = item::rest) (hitem : ∀ bytes, item ≠ .chunk bytes) : ¬s.ReadsToEnd := by
  intro hends
  obtain ⟨bytes,hb⟩ := (h.ends.mpr hends).ready item (by simp [hinner])
  exact hitem bytes hb

theorem capped (h : Polling s t) {rest : List Inner} {bytes : Bytes}
    (hinner : t.inner = .chunk bytes::rest) (hcap : t.totalBytes+bytes.length > t.maxBytes) :
    ¬s.ReadsToEnd := by
  intro hends
  have hwithin := (h.ends.mpr hends).within
  have hunsent : t.unsent.length = bytes.length+(chunks rest).flatten.length := by
    simp [unsent,hinner,chunks]
  omega

theorem fed (h : Polling s t) (hb : boundary t.buf = none) (hscanned : t.scanned = t.buf.length-3)
    {rest : List Inner} {bytes : Bytes} (hinner : t.inner = .chunk bytes::rest)
    (hcap : t.totalBytes+bytes.length ≤ t.maxBytes) : Polling s (t.fed rest bytes now) := by
  have hbytes : (t.fed rest bytes now).buf ++ (t.fed rest bytes now).unsent =
      t.buf ++ t.unsent := by
    simp [SseTransformStream.fed,receive,append,recordTtfb,unsent,hinner,chunks]
  have htotal : (t.fed rest bytes now).totalBytes+(t.fed rest bytes now).unsent.length =
      t.totalBytes+t.unsent.length := by
    simp [SseTransformStream.fed,receive,append,recordTtfb,unsent,hinner,chunks]
    omega
  have hunseen := unseen_append hb bytes
  rw [← hscanned] at hunseen
  refine ⟨h.lines,⟨hunseen,hcap,h.running.flushed,h.running.done⟩,hbytes.trans h.bytes,?_⟩
  refine Iff.trans ?_ h.ends
  constructor
  · intro he
    refine ⟨?_,hbytes ▸ he.unbroken,hbytes ▸ he.fits,htotal ▸ he.within⟩
    intro item hitem
    rw [hinner] at hitem
    rcases List.mem_cons.mp hitem with rfl | hitem
    · exact ⟨bytes,rfl⟩
    · exact he.ready item hitem
  · intro he
    refine ⟨fun item hitem => he.ready item ?_,hbytes ▸ he.unbroken,hbytes ▸ he.fits,
      htotal ▸ he.within⟩
    rw [hinner]
    exact List.mem_cons_of_mem _ hitem

/-- The exits and turns of a poll that is neither too late nor cancelled. -/
theorem rules (json : SerdeJson) (s : SseTransformStream) (now : Instant) :
    PollRules json now false (Polling s)
      (fun t => Polling s t ∧ boundary t.buf = none ∧ t.scanned = t.buf.length-3 ∧
        t.buf.length ≤ maxSseBufferBytes)
      fun answer => Polled s.ReadsToEnd (s.buf ++ s.unsent) answer.2 where
  split := fun t n h hb => by
    rw [boundaryFrom_unseen h.running.unseen] at hb
    exact h.split hb
  force := fun t i h _ hlen hlast => h.force hlen hlast
  oversize := fun t msg h _ hlen _ =>
    .kept h.lines nofun
      (fun hends => absurd (h.ends.mpr hends).buf_fits (Nat.not_le_of_lt hlen)) h.running.flushed
  search := fun t h hb hlen => by
    rw [boundaryFrom_unseen h.running.unseen] at hb
    exact ⟨h.searched hb,hb,rfl,hlen⟩
  shutdown := fun t h hcancelled => by cases hcancelled
  eof := fun t h hinner => h.1.eof h.2.1 h.2.2.2 hinner
  pending := fun t rest h hinner =>
    have hrunning := h.1.running
    .kept h.1.lines (fun _ => ⟨hrunning.unseen,hrunning.within,hrunning.flushed,hrunning.done⟩)
      (h.1.not_ready hinner (by simp)) hrunning.flushed
  error := fun t rest e h hinner =>
    .kept h.1.lines nofun (h.1.not_ready hinner (by simp)) h.1.running.flushed
  capped := fun t rest bytes msg h hinner hcap =>
    .kept h.1.lines nofun (h.1.capped hinner hcap) h.1.running.flushed
  feed := fun t rest bytes h hinner hcap => h.1.fed h.2.1 h.2.2.1 hinner hcap

end Polling

theorem pollNext_expired (json : SerdeJson) (cancelled : Bool) (hdone : s.done = false)
    (h : s.Expired now) :
    ∃ msg, s.pollNext json now cancelled = s.timeoutStream json msg now := by
  unfold pollNext
  rw [hdone]
  by_cases hmax : elapsed s.start now ≥ s.maxDuration
  · refine ⟨"SSE stream exceeded max duration",?_⟩
    simp only [Bool.false_eq_true,if_false,hmax,if_true]
  · have hidle : now ≥ s.idleTimer := h.resolve_left hmax
    refine ⟨"SSE stream idle timeout",?_⟩
    simp only [Bool.false_eq_true,if_false,hmax,hidle,if_true]

theorem pollNext_open (hdone : s.done = false) (h : ¬s.Expired now) (cancelled : Bool) :
    s.pollNext json now cancelled =
      match s.drain json now with
      | .inl answer => answer
      | .inr s =>
        if cancelled then s.finalizeStream json .shutdown now else pollInner json now s.inner s := by
  obtain ⟨hmax,hidle⟩ := not_or.mp h
  unfold pollNext
  rw [hdone]
  exact (if_neg Bool.false_ne_true).trans ((if_neg hmax).trans (if_neg hidle))

/-- A stream that ends by a deadline or by shutdown flushes what it holds. -/
theorem Polled.finalize (h : s.Running) (hlines : s.WholeLines) (why : Ending) {flushes : Prop} :
    flushes → Polled flushes s.buf (s.finalizeStream json why now).2 := by
  intro hyes
  obtain ⟨hflushed,hdone,htaken⟩ := finalize_flushed json why now h.flushed
  refine ⟨?_,fun hopen => ?_,fun _ => ⟨hflushed,hdone⟩,fun hno => absurd hyes hno⟩
  · unfold WholeLines
    rw [htaken]
    exact hlines
  · rw [hdone] at hopen
    cases hopen

theorem Running.poll_expired (h : s.Running) (hlines : s.WholeLines) (json : SerdeJson)
    (cancelled : Bool) (hlate : s.Expired now) :
    Polled True s.buf (s.pollNext json now cancelled).2 ∧
      ∀ r, s.Flushes now cancelled r ↔ r = s.buf := by
  refine ⟨?_,fun r => ⟨fun hf => ?_,?_⟩⟩
  · obtain ⟨msg,hpoll⟩ := pollNext_expired json cancelled h.done hlate
    rw [hpoll]
    exact Polled.finalize
      (s := { s with event := { s.event with status := "504",errorMessage := some msg } })
      ⟨h.unseen,h.within,h.flushed,h.done⟩ hlines .timeout trivial
  · cases hf with
    | expired => rfl
    | shutdown hopen => exact absurd hlate hopen
    | eof hopen => exact absurd hlate hopen
  · rintro rfl
    exact .expired cancelled hlate

theorem Running.poll_open (h : s.Running) (hlines : s.WholeLines) (json : SerdeJson)
    (hopen : ¬s.Expired now) :
    Polled s.ReadsToEnd (s.buf ++ s.unsent) (s.pollNext json now false).2 ∧
      ∀ r, s.Flushes now false r ↔ s.ReadsToEnd ∧ r = s.buf ++ s.unsent := by
  have hself : Polling s s := ⟨hlines,h,rfl,Iff.rfl⟩
  refine ⟨?_,fun r => ⟨fun hf => ?_,?_⟩⟩
  · rw [pollNext_open h.done hopen]
    obtain ⟨answer,hdrain,hpost⟩ | ⟨hdrain,hidle⟩ := (Polling.rules json s now).drain hself
    · rw [hdrain]
      exact hpost
    · rw [hdrain]
      exact (Polling.rules json s now).loop rfl hidle
  · cases hf with
    | expired _ he => exact absurd he hopen
    | eof _ hends => exact ⟨hends,rfl⟩
  · rintro ⟨hends,rfl⟩
    exact .eof hopen hends

/-- A cancelled poll flushes what the stream holds, once no event is left in it. -/
theorem Running.poll_cancelled (h : s.Running) (hlines : s.WholeLines) (json : SerdeJson)
    (hopen : ¬s.Expired now) :
    Polled (boundary s.buf = none ∧ s.buf.length ≤ maxSseBufferBytes) s.buf
        (s.pollNext json now true).2 ∧
      ∀ r, s.Flushes now true r ↔
        (boundary s.buf = none ∧ s.buf.length ≤ maxSseBufferBytes) ∧ r = s.buf := by
  refine ⟨?_,fun r => ⟨fun hf => ?_,?_⟩⟩
  · rw [pollNext_open h.done hopen]
    obtain ⟨n,hb,hd⟩ | ⟨hb,⟨hlen,hd⟩ | ⟨hlen,⟨i,hlast,hd⟩ | ⟨hlast,msg,hd⟩⟩⟩ :=
      s.drain_cases json now
    all_goals
      rw [boundaryFrom_unseen h.unseen] at hb
      rw [hd]
    · exact .kept (hlines.split (take_boundary hb)) (fun _ => h.split) (by simp [hb]) h.flushed
    · exact Polled.finalize (s := s.searched) (h.searched hb) hlines .shutdown ⟨hb,hlen⟩
    · have hlines' : s.searched.WholeLines := hlines
      exact .kept (hlines'.split (take_findLast hlast)) (fun _ => (h.searched hb).split)
        (fun hf => absurd hf.2 (Nat.not_le_of_lt hlen)) h.flushed
    · exact .kept hlines nofun (fun hf => absurd hf.2 (Nat.not_le_of_lt hlen)) h.flushed
  · cases hf with
    | expired _ he => exact absurd he hopen
    | shutdown _ hnone hfits => exact ⟨⟨hnone,hfits⟩,rfl⟩
  · rintro ⟨⟨hnone,hfits⟩,rfl⟩
    exact .shutdown hopen hnone hfits

theorem Running.poll (h : s.Running) (hlines : s.WholeLines) (json : SerdeJson) (now : Instant)
    (cancelled : Bool) :
    ∃ flushes rest, Polled flushes rest (s.pollNext json now cancelled).2 ∧
      ∀ r, s.Flushes now cancelled r ↔ flushes ∧ r = rest := by
  by_cases hlate : s.Expired now
  · obtain ⟨hpolled,hflushes⟩ := h.poll_expired hlines json cancelled hlate
    exact ⟨True,s.buf,hpolled,fun r => (hflushes r).trans (and_iff_right trivial).symm⟩
  · cases cancelled with
    | false => exact ⟨_,_,h.poll_open hlines json hlate⟩
    | true => exact ⟨_,_,h.poll_cancelled hlines json hlate⟩

end Poll

/-- Between polls: whole lines taken, and the account of a stream still running. -/
structure Steady (s : SseTransformStream) : Prop where
  lines : s.WholeLines
  running : s.done = false → s.ended ≠ some .dropped → s.Running

end SseTransformStream

namespace Relay

def CleanEnd (json : SerdeJson) (modelName : String) (w : Relay) (op : Op) : Prop :=
  ∀ now cancelled rest, op = .poll now cancelled → w.stream.done = false →
    w.stream.Flushes now cancelled rest → Harmless json modelName rest

/-- If this poll ends the stream, what it flushes meets `P`. -/
def EndsWith (P : Bytes → Prop) (w : Relay) (op : Op) : Prop :=
  ∀ now cancelled rest, op = .poll now cancelled → w.stream.done = false →
    w.stream.Flushes now cancelled rest → P rest

theorem steady_step {P : Bytes → Prop} (hempty : P []) {json : SerdeJson} {w t : Relay} {op : Op}
    (hst : step json w op = some t) (h : w.stream.Steady) :
    t.stream.Steady ∧ (P t.stream.flushed ↔ P w.stream.flushed ∧ w.EndsWith P op) := by
  obtain ⟨hlive,⟨now,cancelled,rfl,hstream,-⟩ | ⟨now,rfl,rfl⟩⟩ := step_cases hst
  · rw [hstream]
    cases hdone : w.stream.done with
    | true =>
      rw [pollNext_done hdone]
      refine ⟨h,?_⟩
      simp [EndsWith,hdone]
    | false =>
      have hrunning := h.running hdone hlive
      obtain ⟨flushes,rest,hpolled,hiff⟩ := hrunning.poll h.lines json now cancelled
      refine ⟨⟨hpolled.lines,fun hopen _ => hpolled.running hopen⟩,?_⟩
      rw [hrunning.flushed]
      by_cases hf : flushes
      · rw [(hpolled.flush hf).1]
        constructor
        · intro hrest
          refine ⟨hempty,fun now' cancelled' rest' hop _ hflush => ?_⟩
          obtain ⟨rfl,rfl⟩ := Op.poll.inj hop
          rw [((hiff rest').mp hflush).2]
          exact hrest
        · intro hends
          exact hends.2 now cancelled rest rfl hdone ((hiff rest).mpr ⟨hf,rfl⟩)
      · rw [hpolled.keep hf]
        refine ⟨fun _ => ⟨hempty,fun now' cancelled' rest' hop _ hflush => ?_⟩,fun _ => hempty⟩
        obtain ⟨rfl,rfl⟩ := Op.poll.inj hop
        exact absurd ((hiff rest').mp hflush).1 hf
  · rw [dropStream_flushed]
    refine ⟨⟨?_,?_⟩,by simp [EndsWith]⟩
    · unfold WholeLines
      rw [dropStream_taken]
      exact h.lines
    · unfold dropStream
      split
      · exact h.running
      · exact fun _ hnot => absurd rfl hnot

section Run

variable {json : SerdeJson} {settings : SseSettings} {upstream : UpstreamProvider}
  {modelName : String} {event : ProxyEvent} {start now : Instant} {script : List Inner}
  {ops : List Op} {w : Relay}

theorem start_steady : (Relay.start
    (openStream settings upstream modelName event start now script)).stream.Steady :=
  ⟨nofun,fun _ _ => ⟨nofun,Nat.zero_le _,rfl,rfl⟩⟩

theorem steady_run (hrun : exec (step json)
    (Relay.start (openStream settings upstream modelName event start now script)) ops = some w) :
    w.stream.Steady := by
  have hstep : ∀ w op t, step json w op = some t → w.stream.Steady → t.stream.Steady :=
    fun w op t hst h => (steady_step (P := fun _ => True) trivial hst h).1
  exact exec_preserves hstep hrun start_steady

/-- What the run flushed meets `P` when every poll would flush only what does. -/
theorem flushed_run {P : Bytes → Prop} (hempty : P []) (hrun : exec (step json)
    (Relay.start (openStream settings upstream modelName event start now script)) ops = some w) :
    P w.stream.flushed ↔ Along (step json) (fun w op => w.EndsWith P op)
      (Relay.start (openStream settings upstream modelName event start now script)) ops := by
  have hstep : ∀ w op t, step json w op = some t → w.stream.Steady →
      t.stream.Steady ∧ (P t.stream.flushed ↔ P w.stream.flushed ∧ w.EndsWith P op) :=
    fun w op t hst h => steady_step hempty hst h
  have hends := exec_iff hstep hrun start_steady
  simpa [hempty,Relay.start,openStream] using hends

theorem taken_valid (hutf8 : validUtf8 (chunks script).flatten = true) (hrun : exec (step json)
    (Relay.start (openStream settings upstream modelName event start now script)) ops = some w) :
    ∀ piece ∈ w.stream.taken, validUtf8 piece = true := by
  have hsound := sound_run hrun
  obtain ⟨more,hmore⟩ : ∃ more, (chunks script).flatten = w.stream.accepted.flatten ++ more := by
    rcases hsound.reading with ⟨consumed,hscript,hchunks⟩ | ⟨-,consumed,refused,hscript,hchunks⟩
    · refine ⟨w.stream.unsent,?_⟩
      rw [hscript,← hchunks]
      simp [chunks,unsent]
    · refine ⟨refused ++ w.stream.unsent,?_⟩
      have hall : chunks script = chunks consumed ++ chunks w.stream.inner := by
        rw [hscript]
        simp [chunks]
      rw [hall,hchunks]
      simp [unsent]
  rw [hmore,← hsound.conserved,List.append_assoc,List.append_assoc] at hutf8
  exact pieces_valid (steady_run hrun).lines hutf8

end Run

variable {json : SerdeJson}

/-- Every line a client receives carries the alias exactly when what ended the stream, if anything
did, was a harmless flush. -/
theorem aliased_iff_clean_end (json : SerdeJson) (hjson : json.Lawful) (settings : SseSettings)
    (upstream : UpstreamProvider) (modelName : String) (event : ProxyEvent) (start now : Instant)
    (script : List Inner) (hutf8 : validUtf8 (chunks script).flatten = true) (ops : List Op)
    (w : Relay) (hrun : exec (step json)
      (Relay.start (openStream settings upstream modelName event start now script)) ops = some w) :
    Aliased json modelName w.received.flatten ↔
      Along (step json) (fun w op => w.CleanEnd json modelName op)
        (Relay.start (openStream settings upstream modelName event start now script)) ops := by
  have hempty : Harmless json modelName [] := .inr fun payload hp => by simp at hp
  have hclean := flushed_run hempty hrun
  have hsettled := settled_run hrun
  have hdelivered := hsettled.delivered
  simp only [Delivered,hsettled.serves.1,hsettled.serves.2] at hdelivered
  rw [hdelivered,delivered_aliased_iff hjson (taken_valid hutf8 hrun)]
  exact hclean

def upText : Bytes := utf8 "\x7b\"model\":\"up\"\x7d"

def aliasText : Bytes := utf8 "\x7b\"model\":\"ai\",\"system_fingerprint\":\"ait-proxy\"\x7d"

def demoJson : SerdeJson where
  fromSlice body :=
    if body = upText then some (.object [("model",.string "up")])
    else if body = aliasText then
      some (.object [("model",.string "ai"),("system_fingerprint",.string "ait-proxy")])
    else none
  toVec
    | .object [("model",.string "ai"),("system_fingerprint",.string "ait-proxy")] => some aliasText
    | _ => some (utf8 "null")

theorem demoJson_lawful : demoJson.Lawful where
  sorted body m h := by
    simp only [demoJson] at h
    split_ifs at h
    · obtain rfl := Value.object.inj (Option.some.inj h)
      simp [Fields.Sorted]
    · obtain rfl := Value.object.inj (Option.some.inj h)
      have hlt : "model" < "system_fingerprint" := by decide +kernel
      exact List.pairwise_pair.mpr hlt
  writes v := by
    simp only [demoJson]
    split <;> simp
  compact v b h := by
    simp only [demoJson] at h
    split at h
    · obtain rfl := Option.some.inj h
      decide +kernel
    · obtain rfl := Option.some.inj h
      decide +kernel
  reads_back v b m' h hread := by
    have hnull : demoJson.fromSlice (utf8 "null") = none := by
      have h1 : utf8 "null" ≠ upText := by decide +kernel
      have h2 : utf8 "null" ≠ aliasText := by decide +kernel
      simp [demoJson,h1,h2]
    have halias : demoJson.fromSlice aliasText =
        some (.object [("model",.string "ai"),("system_fingerprint",.string "ait-proxy")]) := by
      have h1 : aliasText ≠ upText := by decide +kernel
      simp [demoJson,h1]
    unfold demoJson at h
    dsimp only at h
    split at h
    · obtain rfl := Option.some.inj h
      rw [halias] at hread
      obtain rfl := Value.object.inj (Option.some.inj hread)
      exact ⟨_,rfl,fun _ _ _ hget => hget⟩
    · obtain rfl := Option.some.inj h
      rw [hnull] at hread
      cases hread

/-- An event with its blank line, which leaves with the alias. -/
theorem aliased_iff_clean_end_finished :
    let script := [.chunk (utf8 "data: " ++ upText ++ utf8 "\n\n")]
    let ops := [.poll 1 false,.poll 1 false]
    ∃ w, exec (step demoJson) (Relay.start (demoStream script)) ops = some w ∧
      w.stream.ended = some .eof ∧
      (Aliased demoJson "ai" w.received.flatten ↔
        Along (step demoJson) (fun w op => w.CleanEnd demoJson "ai" op)
          (Relay.start (demoStream script)) ops) := by
  intro script ops
  have hview : (exec (step demoJson) (Relay.start (demoStream script)) ops).map (fun w =>
      w.stream.ended) = some (some .eof) := by decide +kernel
  obtain ⟨w,hrun,hended⟩ := Option.map_eq_some_iff.mp hview
  exact ⟨w,hrun,hended,aliased_iff_clean_end demoJson demoJson_lawful ⟨60,0,0⟩ demoUpstream "ai"
    demoEvent 0 0 script (by decide +kernel) ops w hrun⟩

/-- Without the blank line the same event reaches the client with the upstream's model name. -/
theorem upstream_model_delivered :
    ¬ ∀ (json : SerdeJson) (_ : json.Lawful) (settings : SseSettings)
      (upstream : UpstreamProvider) (modelName : String) (event : ProxyEvent)
      (start now : Instant) (script : List Inner) (ops : List Op) (w : Relay),
      validUtf8 (chunks script).flatten = true →
      (∀ pieces tail, Segmented boundary (chunks script).flatten pieces tail →
        (∀ piece ∈ pieces, piece.length < maxSseBufferBytes) ∧
          tail.length < maxSseBufferBytes) →
      exec (step json)
        (Relay.start (openStream settings upstream modelName event start now script)) ops = some w →
      Aliased json modelName w.received.flatten := by
  intro hevents
  let script : List Inner := [.chunk (utf8 "data: " ++ upText)]
  let ops : List Op := [.poll 1 false]
  have hview : (exec (step demoJson) (Relay.start (demoStream script)) ops).map (fun w =>
      w.received.flatten) = some (utf8 "data: " ++ upText) := by decide +kernel
  obtain ⟨w,hrun,hreceived⟩ := Option.map_eq_some_iff.mp hview
  have hsmall : ∀ pieces tail, Segmented boundary (chunks script).flatten pieces tail →
      (∀ piece ∈ pieces, piece.length < maxSseBufferBytes) ∧ tail.length < maxSseBufferBytes := by
    intro pieces tail hcut
    have hbytes := hcut.flatten
    have hlen : (pieces.flatten ++ tail).length = 20 := by rw [hbytes]; decide +kernel
    rw [List.length_append] at hlen
    refine ⟨fun piece hmem => ?_,by simp only [maxSseBufferBytes]; omega⟩
    have hpiece := (List.sublist_flatten_of_mem hmem).length_le
    simp only [maxSseBufferBytes]
    omega
  have haliased := hevents demoJson demoJson_lawful ⟨60,0,0⟩ demoUpstream "ai" demoEvent 0 0 script ops
    w (by decide +kernel) hsmall hrun
  rw [hreceived] at haliased
  have hline : upText ∈ dataPayloads (utf8 "data: " ++ upText) := by decide +kernel
  have hread : demoJson.fromSlice upText = some (.object [("model",.string "up")]) := by
    simp [demoJson]
  obtain ⟨hmodel,-⟩ := haliased upText hline _ hread
  simp [Fields.get] at hmodel

end Relay
end Ait
