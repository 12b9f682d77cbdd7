import Ait.HeaderRelay
import Ait.SseBuffer

/-!
# The cap on response bodies

Three readers take the body of a response: the loop of `proxy_non_streamed`, the stream
wrapper, and `response.text()` for the error responses of streamed requests. The first
two refuse the chunk that exceeds the cap, the last one has none. The stream refuses also a
line that outgrows its buffer.
-/

namespace Ait
open Transition Search SseTransformStream

/-- So many bytes are allowed; a cap of zero allows any number. -/
def WithinLimit (settings : SseSettings) (length : ℕ) : Prop :=
  settings.maxResponseBodyBytes = 0 ∨ length ≤ settings.maxResponseBodyBytes

/-- What `proxy_non_streamed` holds after some chunks, if it has refused none. -/
def plainHeld (settings : SseSettings) (pre : List Bytes) : Option Bytes :=
  match collectBody (ProxiedRequest.maxBody settings) [] pre .finished with
  | .ok body => some body
  | .error _ => none

/-- `response.text()` holds every chunk there is. -/
def textHeld (pre : List Bytes) : Option Bytes := some pre.flatten

/-- A reader takes a body exactly when it is within the cap, and never holds more. -/
structure ReadsWithin (settings : SseSettings) (held : List Bytes → Option Bytes)
    (body : List Bytes) : Prop where
  accepts : held body ≠ none ↔ WithinLimit settings body.flatten.length
  holds : ∀ pre, pre <+: body → ∀ b, held pre = some b → WithinLimit settings b.length

/-- Every chunk it was given is in its buffer, and it has not failed. -/
def SseTransformStream.Takes (s : SseTransformStream) (given : List Bytes) : Prop :=
  s.accepted = given ∧ s.ended ≠ some .failed

/-- Over every run of a stream it takes the chunks it was given exactly when these are within the
cap, and its buffer is never larger. -/
def StreamsWithin (x : Exchange) (body : List Bytes) : Prop :=
  ∀ (event : ProxyEvent) (now : Instant) (script : List Inner) (ops : List Relay.Op) (w : Relay),
    chunks script = body →
    exec (Relay.step x.json) (Relay.start
      (openStream x.settings x.upstream x.modelName event x.start now script)) ops = some w →
    WithinLimit x.settings w.stream.buf.length ∧
      ∀ given, script = given ++ w.stream.inner →
        (w.stream.Takes (chunks given) ↔ WithinLimit x.settings (chunks given).flatten.length)

def lineRest (b : Bytes) : Bytes := b.rtakeWhile (· != newline)

/-- Wherever a chunk ends, the line begun there fits the buffer of the stream. -/
def ShortLines (body : List Bytes) : Prop :=
  ∀ given, given <+: body → (lineRest given.flatten).length ≤ maxSseBufferBytes

def LinesFit (settings : SseSettings) (body : List Bytes) : Prop :=
  ∀ given, given <+: body → WithinLimit settings given.flatten.length →
    (lineRest given.flatten).length ≤ maxSseBufferBytes

/-- The reader of a response keeps the cap. The body of a redirect is not read. -/
def KeepsCap (x : Exchange) (stream : Bool) (r : UpstreamResponse) : Prop :=
  if isRedirection r.status.code then True
  else if !stream then ReadsWithin x.settings (plainHeld x.settings) r.chunks
  else if !isSuccess r.status.code then ReadsWithin x.settings textHeld r.chunks
  else StreamsWithin x r.chunks

section Limit

variable {settings : SseSettings} {n m : ℕ}

theorem WithinLimit.mono (h : WithinLimit settings n) (hle : m ≤ n) : WithinLimit settings m :=
  h.imp_right hle.trans

@[simp] theorem withinLimit_iff (hsize : n < 2^64) :
    WithinLimit settings n ↔ n ≤ ProxiedRequest.maxBody settings := by
  unfold WithinLimit ProxiedRequest.maxBody
  split <;> omega

theorem withinLimit_of_le (h : n ≤ ProxiedRequest.maxBody settings) : WithinLimit settings n := by
  unfold ProxiedRequest.maxBody at h
  split at h
  · rename_i hzero
    exact .inl hzero
  · exact .inr h

@[simp] theorem fitsCap_iff (hsize : n < 2^64) : FitsCap settings n ↔ WithinLimit settings n := by
  rw [withinLimit_iff hsize,FitsCap]
  omega

theorem flatten_length_le {pre body : List Bytes} (h : pre <+: body) :
    pre.flatten.length ≤ body.flatten.length := by
  obtain ⟨rest,rfl⟩ := h
  rw [List.flatten_append,List.length_append]
  omega

end Limit

section Readers

variable {settings : SseSettings} {body pre : List Bytes}

theorem plainHeld_eq (hsize : body.flatten.length < 2^64) :
    plainHeld settings body =
      if body.flatten.length ≤ ProxiedRequest.maxBody settings then some body.flatten else none := by
  have hiff : FitsCap settings body.flatten.length ↔ _ :=
    (fitsCap_iff hsize).trans (withinLimit_iff hsize)
  unfold plainHeld
  by_cases hfits : FitsCap settings body.flatten.length
  · rw [collectBody_fits hfits,if_pos (hiff.mp hfits)]
    rfl
  · rw [collectBody_over hfits,if_neg (hiff.not.mp hfits)]

theorem plain_within (hsize : body.flatten.length < 2^64) :
    ReadsWithin settings (plainHeld settings) body where
  accepts := by
    rw [plainHeld_eq hsize,withinLimit_iff hsize]
    split
    · rename_i hfits
      exact iff_of_true (by simp) hfits
    · rename_i hover
      exact iff_of_false (by simp) hover
  holds := fun pre hpre b hb => by
    have hlength := flatten_length_le hpre
    have hpresize : pre.flatten.length < 2^64 := hlength.trans_lt hsize
    rw [plainHeld_eq hpresize] at hb
    split at hb
    · rename_i hfits
      obtain rfl := Option.some.inj hb
      exact (withinLimit_iff hpresize).mpr hfits
    · cases hb

@[simp] theorem text_within_iff : ReadsWithin settings textHeld body ↔
    WithinLimit settings body.flatten.length := by
  constructor
  · intro h
    exact h.accepts.mp (by simp [textHeld])
  · refine fun h => ⟨iff_of_true (by simp [textHeld]) h,fun pre hpre b hb => ?_⟩
    obtain rfl := Option.some.inj hb
    exact h.mono (flatten_length_le hpre)

end Readers
section Lines

variable {b : Bytes}

theorem lineRest_length_le (b : Bytes) : (lineRest b).length ≤ b.length :=
  (List.rtakeWhile_suffix _ b).length_le

theorem lineRest_newline (l b : Bytes) : lineRest (l ++ [newline] ++ b) = lineRest b := by
  have hrev : (l ++ [newline] ++ b).reverse = b.reverse ++ newline::l.reverse := by simp
  unfold lineRest List.rtakeWhile
  rw [hrev,List.takeWhile_append]
  split
  · rename_i hall
    have hsame := (List.takeWhile_prefix (· != newline) (l := b.reverse)).eq_of_length hall
    simp [hsame]
  · rfl

@[simp] theorem lineRest_lines {pieces : List Bytes}
    (h : ∀ piece ∈ pieces, ∃ l, piece = l ++ [newline]) :
    lineRest (pieces.flatten ++ b) = lineRest b := by
  induction pieces with
  | nil => rfl
  | cons piece pieces ih =>
    obtain ⟨l,rfl⟩ := h piece List.mem_cons_self
    rw [List.flatten_cons,List.append_assoc,lineRest_newline]
    exact ih fun p hp => h p (List.mem_cons_of_mem _ hp)

@[simp] theorem lineRest_of_not_mem (h : newline ∉ b) : lineRest b = b := by
  refine List.rtakeWhile_eq_self_iff.mpr fun x hx => ?_
  simpa using fun heq : x = newline => h (heq ▸ hx)

end Lines

namespace SseTransformStream

/-- A stream in the middle of a poll, with all chunks counted. The lines begun where earlier chunks
ended fitted the buffer. -/
structure Metered (script : List Inner) (max : ℕ) (s : SseTransformStream) : Prop
    extends Open script s where
  cap : s.maxBytes = max
  total : s.totalBytes = s.accepted.flatten.length
  within : s.totalBytes ≤ s.maxBytes
  lines : s.WholeLines
  short : ∀ given, given <+: s.accepted → given ≠ s.accepted →
    (lineRest given.flatten).length ≤ maxSseBufferBytes

def Overran (script : List Inner) (max : ℕ) (s : SseTransformStream) : Prop :=
  s.ended = some .failed ∧ ∃ given refused, script = given ++ s.inner ∧
    chunks given = s.accepted ++ [refused] ∧ max < s.accepted.flatten.length+refused.length

/-- The stream was failed because the line begun with the last chunk outgrew its buffer. -/
def Outgrown (script : List Inner) (s : SseTransformStream) : Prop :=
  s.ended = some .failed ∧ SseTransformStream.Reading script s ∧
    (lineRest s.accepted.flatten).length > maxSseBufferBytes

/-- A stream between polls: it takes what it is given, or it refused what exceeds the cap or
outgrew the buffer. -/
structure Capped (script : List Inner) (max : ℕ) (s : SseTransformStream) : Prop where
  within : s.accepted.flatten.length ≤ max
  reading : SseTransformStream.Reading script s ∧ s.ended ≠ some .failed ∨
    Overran script max s ∨ Outgrown script s
  short : s.ended = some .eof ∨ Overran script max s → ShortLines s.accepted
  eof : s.ended = some .eof → s.inner = []
  running : s.done = false → s.ended ≠ some .dropped → Metered script max s

namespace Metered

variable {script : List Inner} {max : ℕ} {s : SseTransformStream} {json : SerdeJson}
  {now : Instant}

theorem le_cap (h : Metered script max s) : s.accepted.flatten.length ≤ max := by
  rw [← h.total,← h.cap]
  exact h.within

theorem rest (h : Metered script max s) : lineRest s.accepted.flatten = lineRest s.buf := by
  have hbytes := h.conserved
  simp only [Conserved,h.flushed,List.append_nil] at hbytes
  rw [← hbytes,lineRest_lines h.lines]

theorem shortLines (h : Metered script max s) (hlen : s.buf.length ≤ maxSseBufferBytes) :
    ShortLines s.accepted := by
  intro given hgiven
  by_cases hsame : given = s.accepted
  · rw [hsame,h.rest]
    exact (lineRest_length_le s.buf).trans hlen
  · exact h.short given hgiven hsame

theorem capped (h : Metered script max s) : Capped script max s where
  within := h.le_cap
  reading := .inl ⟨h.reading,by simp [h.ended]⟩
  short := by
    rintro (hended | ⟨hended,-⟩)
    · simp [h.ended] at hended
    · simp [h.ended] at hended
  eof := fun hended => by simp [h.ended] at hended
  running := fun _ _ => h

/-- An exit that takes no chunk and leaves the stream closed, but not failed. -/
theorem closed (h : Metered script max s) {t : SseTransformStream} (why : Ending)
    (haccepted : t.accepted = s.accepted) (hreading : SseTransformStream.Reading script t)
    (hended : t.ended = some why) (hwhy : why ≠ .failed)
    (heof : why = .eof → t.inner = [] ∧ s.buf.length ≤ maxSseBufferBytes)
    (hclosed : t.done = true ∨ t.ended = some .dropped) : Capped script max t where
  within := haccepted ▸ h.le_cap
  reading := .inl ⟨hreading,by simp [hended,hwhy]⟩
  short := by
    rw [hended]
    rintro (he | ⟨he,-⟩)
    · rw [haccepted]
      exact h.shortLines (heof (Option.some.inj he)).2
    · exact absurd (Option.some.inj (hended.symm.trans he)) hwhy
  eof := fun he => (heof (Option.some.inj (hended.symm.trans he))).1
  running := fun hdone hlive => (not_running hclosed hdone hlive).elim

theorem split (h : Metered script max s) {n : ℕ} (hpiece : ∃ l, s.buf.take n = l ++ [newline]) :
    Metered script max (s.splitEvent json n).2 :=
  ⟨h.toOpen.split n,h.cap,h.total,h.within,h.lines.split hpiece,h.short⟩

theorem searched (h : Metered script max s) : Metered script max s.searched :=
  ⟨h.toOpen.searched,h.cap,h.total,h.within,h.lines,h.short⟩

theorem finalize (h : Metered script max s) (why : Ending) (now : Instant) (hwhy : why ≠ .failed)
    (heof : why = .eof → s.inner = [] ∧ s.buf.length ≤ maxSseBufferBytes) :
    Capped script max (s.finalizeStream json why now).2 := by
  have hreading := h.reading
  unfold finalizeStream
  dsimp only
  split
  · exact h.closed why rfl hreading rfl hwhy heof (.inl rfl)
  · exact h.closed why rfl hreading rfl hwhy heof (.inl rfl)

theorem fed (h : Metered script max s) {rest : List Inner} {bytes : Bytes}
    (hinner : s.inner = .chunk bytes::rest) (hcap : s.totalBytes+bytes.length ≤ s.maxBytes)
    (hlen : s.buf.length ≤ maxSseBufferBytes) : Metered script max (s.fed rest bytes now) where
  toOpen := h.toOpen.fed hinner
  cap := h.cap
  total := by
    have htotal := h.total
    simp [SseTransformStream.fed,receive,append,recordTtfb,htotal]
  within := hcap
  lines := h.lines
  short := by
    intro given hgiven hne
    obtain hsame | hshorter := List.prefix_concat_iff.mp hgiven
    · exact absurd hsame hne
    · exact h.shortLines hlen given hshorter

theorem rules (json : SerdeJson) (script : List Inner) (max : ℕ) (now : Instant)
    (cancelled : Bool) :
    PollRules json now cancelled (fun s => Metered script max s ∧ Unseen s.buf s.scanned)
      (fun s => Metered script max s ∧ boundary s.buf = none ∧ s.scanned = s.buf.length-3 ∧
        s.buf.length ≤ maxSseBufferBytes) fun answer => Capped script max answer.2 where
  split := fun s n h hb => by
    rw [boundaryFrom_unseen h.2] at hb
    exact (h.1.split (take_boundary hb)).capped
  force := fun s i h _ _ hlast => (h.1.searched.split (take_findLast hlast)).capped
  oversize := fun s msg h _ hlen hlast => by
    have hrest : lineRest s.accepted.flatten = s.buf :=
      h.1.rest.trans (lineRest_of_not_mem (findLast_eq_none hlast))
    have hlong : (lineRest s.accepted.flatten).length > maxSseBufferBytes := by rwa [hrest]
    refine ⟨h.1.le_cap,.inr (.inr ⟨rfl,h.1.reading,hlong⟩),?_,fun hended => ?_,fun hended => ?_⟩
    rintro (hended | ⟨-,given,refused,hscript,hgiven,-⟩)
    · cases hended
    · -- the stream has read no chunk that it has not taken
      obtain ⟨given',hscript',hgiven'⟩ := h.1.reading
      obtain rfl : given = given' := List.append_cancel_right (hscript.symm.trans hscript')
      have hcount := congrArg List.length (hgiven.symm.trans hgiven')
      simp [SseTransformStream.searched,failStream,finalizeLog] at hcount
    all_goals cases hended
  search := fun s h hb hlen => by
    rw [boundaryFrom_unseen h.2] at hb
    exact ⟨h.1.searched,hb,rfl,hlen⟩
  shutdown := fun s h _ => h.1.finalize .shutdown now (by simp) (by simp)
  eof := fun s h hinner => h.1.finalize .eof now (by simp) fun _ => ⟨hinner,h.2.2.2⟩
  pending := fun s rest h hinner => capped
    ⟨⟨h.1.conserved,h.1.reading_skip rfl hinner,h.1.flushed,h.1.ended,h.1.done⟩,h.1.cap,h.1.total,
      h.1.within,h.1.lines,h.1.short⟩
  error := fun s rest e h hinner =>
    h.1.closed .error rfl (h.1.reading_skip rfl hinner) rfl (by simp) (by simp) (.inl rfl)
  capped := fun s rest bytes msg h hinner hover => by
    obtain ⟨given,hscript,hgiven⟩ := h.1.reading
    refine ⟨h.1.le_cap,.inr (.inl ⟨rfl,given ++ [.chunk bytes],bytes,?_,?_,?_⟩),?_,
      fun hended => ?_,fun hended => ?_⟩
    · rw [hscript,hinner]
      simp [receive,failStream,finalizeLog]
    · simp only [chunks] at hgiven
      simp [receive,failStream,finalizeLog,chunks,hgiven]
    · have htotal := h.1.total
      have hcap := h.1.cap
      simp only [receive,failStream,finalizeLog]
      omega
    · exact fun _ => h.1.shortLines h.2.2.2
    all_goals cases hended
  feed := fun s rest bytes h hinner hcap => by
    have hunseen := unseen_append h.2.1 bytes
    rw [← h.2.2.1] at hunseen
    exact ⟨h.1.fed hinner hcap h.2.2.2,hunseen⟩

end Metered

theorem Capped.poll {script : List Inner} {max : ℕ} {s : SseTransformStream}
    (h : Capped script max s ∧ s.Steady) (json : SerdeJson) (now : Instant) (cancelled : Bool)
    (hlive : s.ended ≠ some .dropped) : Capped script max (s.pollNext json now cancelled).2 := by
  refine (Metered.rules json script max now cancelled).poll (fun _ => h.1)
    (fun hdone => ⟨h.1.running hdone hlive,(h.2.running hdone hlive).unseen⟩) fun hdone msg => ?_
  have hopen := h.1.running hdone hlive
  exact Metered.finalize
    (s := { s with event := { s.event with status := "504",errorMessage := some msg } })
    ⟨⟨hopen.conserved,hopen.reading,hopen.flushed,hopen.ended,hopen.done⟩,hopen.cap,hopen.total,
      hopen.within,hopen.lines,hopen.short⟩ .timeout now (by simp) (by simp)

theorem Capped.drop {script : List Inner} {max : ℕ} {s : SseTransformStream}
    (h : Capped script max s) (now : Instant) (hlive : s.ended ≠ some .dropped) :
    Capped script max (s.dropStream now) := by
  unfold dropStream
  split
  · exact h
  · rename_i hdone
    have hopen := h.running (by simpa using hdone) hlive
    exact hopen.closed .dropped rfl hopen.reading rfl (by simp) (by simp) (.inr rfl)

/-- Upstream pauses nowhere, and a poll at `now` meets no deadline. -/
structure Brisk (now : Instant) (s : SseTransformStream) : Prop where
  ready : ∀ item ∈ s.inner, ∃ bytes, item = .chunk bytes
  young : elapsed s.start now < s.maxDuration
  awake : now < s.idleTimer
  patient : 0 < s.idleTimeout

def Goes (now : Instant) (taken : ℕ) (t : SseTransformStream) : Prop :=
  (t.done = false ∧ t.ended = none ∧ Brisk now t ∧ t.taken.length = taken+1) ∨
    t.done = true ∧ (t.ended = some .eof ∨ t.ended = some .failed)

theorem Brisk.rules (json : SerdeJson) (now : Instant) (taken : ℕ) :
    PollRules json now false
      (fun t => Brisk now t ∧ t.done = false ∧ t.ended = none ∧ t.taken.length = taken)
      (fun t => Brisk now t ∧ t.done = false ∧ t.ended = none ∧ t.taken.length = taken)
      fun answer => Goes now taken answer.2 where
  split := fun t n h _ => by
    obtain ⟨hbrisk,hdone,hended,htaken⟩ := h
    refine .inl ⟨hdone,hended,⟨hbrisk.ready,hbrisk.young,hbrisk.awake,hbrisk.patient⟩,?_⟩
    simp [splitEvent,htaken]
  force := fun t i h _ _ _ => by
    obtain ⟨hbrisk,hdone,hended,htaken⟩ := h
    refine .inl ⟨hdone,hended,⟨hbrisk.ready,hbrisk.young,hbrisk.awake,hbrisk.patient⟩,?_⟩
    simp [splitEvent,SseTransformStream.searched,htaken]
  oversize := fun t msg h _ _ _ => .inr ⟨rfl,.inr rfl⟩
  search := fun t h _ _ => ⟨⟨h.1.ready,h.1.young,h.1.awake,h.1.patient⟩,h.2⟩
  shutdown := fun t h hcancelled => by cases hcancelled
  eof := fun t h _ => by
    obtain ⟨hended,hdone,-⟩ := t.finalizeStream_closed json .eof now
    exact .inr ⟨hdone,.inl hended⟩
  pending := fun t rest h hinner => by
    obtain ⟨bytes,hitem⟩ := h.1.ready .pending (by simp [hinner])
    cases hitem
  error := fun t rest e h hinner => by
    obtain ⟨bytes,hitem⟩ := h.1.ready (.error e) (by simp [hinner])
    cases hitem
  capped := fun t rest bytes msg h _ _ => .inr ⟨rfl,.inr rfl⟩
  feed := fun t rest bytes h hinner _ => by
    refine ⟨⟨fun item hitem => h.1.ready item ?_,h.1.young,?_,h.1.patient⟩,h.2⟩
    · rw [hinner]
      exact List.mem_cons_of_mem _ hitem
    · exact Nat.lt_add_of_pos_right h.1.patient

theorem Brisk.poll {s : SseTransformStream} {now : Instant} (h : Brisk now s)
    (hdone : s.done = false) (hended : s.ended = none) (json : SerdeJson) :
    Goes now s.taken.length (s.pollNext json now false).2 := by
  have hopen : ¬s.Expired now :=
    not_or.mpr ⟨Nat.not_le_of_lt h.young,Nat.not_le_of_lt h.awake⟩
  rw [pollNext_open hdone hopen]
  obtain ⟨answer,hdrain,hpost⟩ | ⟨hdrain,hidle⟩ :=
    (Brisk.rules json now s.taken.length).drain ⟨h,hdone,hended,rfl⟩
  · rw [hdrain]
    exact hpost
  · rw [hdrain]
    exact (Brisk.rules json now s.taken.length).loop rfl hidle

end SseTransformStream

namespace Relay

section Run

variable {json : SerdeJson} {settings : SseSettings} {upstream : UpstreamProvider}
  {modelName : String} {event : ProxyEvent} {start now : Instant} {script : List Inner}
  {ops : List Op} {w : Relay}

theorem capped_run (hrun : exec (step json)
    (Relay.start (openStream settings upstream modelName event start now script)) ops = some w) :
    Capped script (ProxiedRequest.maxBody settings) w.stream := by
  have hstart : Metered script (ProxiedRequest.maxBody settings)
      (openStream settings upstream modelName event start now script) := by
    refine ⟨⟨rfl,⟨[],rfl,rfl⟩,rfl,rfl,rfl⟩,rfl,rfl,Nat.zero_le _,fun _ hline => ?_,
      fun given hgiven hne => absurd (List.prefix_nil.mp hgiven) hne⟩
    cases hline
  have hstep : ∀ w op t, step json w op = some t →
      Capped script (ProxiedRequest.maxBody settings) w.stream ∧ w.stream.Steady →
      Capped script (ProxiedRequest.maxBody settings) t.stream ∧ t.stream.Steady := by
    intro w op t hst h
    refine ⟨?_,(steady_step (P := fun _ => True) trivial hst h.2).1⟩
    obtain ⟨hlive,⟨now,cancelled,-,hstream,-⟩ | ⟨now,-,rfl⟩⟩ := step_cases hst
    · rw [hstream]
      exact Capped.poll h json now cancelled hlive
    · exact h.1.drop now hlive
  exact (exec_preserves hstep hrun ⟨hstart.capped,start_steady⟩).1

theorem taken_le (hrun : exec (step json)
    (Relay.start (openStream settings upstream modelName event start now script)) ops = some w) :
    w.stream.taken.length ≤ w.stream.accepted.flatten.length := by
  have hlines : ∀ piece ∈ w.stream.taken, ∃ l, piece = l ++ [newline] := (steady_run hrun).lines
  have hbytes := congrArg List.length (sound_run hrun).conserved
  have hpieces : w.stream.taken.length ≤ w.stream.taken.flatten.length := by
    generalize w.stream.taken = taken at hlines
    induction taken with
    | nil => exact Nat.le_refl _
    | cons piece taken ih =>
      obtain ⟨l,rfl⟩ := hlines piece List.mem_cons_self
      have hrest := ih fun p hp => hlines p (List.mem_cons_of_mem _ hp)
      simp only [List.flatten_cons,List.length_append,List.length_cons,List.length_nil]
      omega
  simp only [List.length_append] at hbytes
  omega

end Run

/-- Polls of a brisk stream that are as many as a piece has to be taken each time. -/
theorem polls_go (json : SerdeJson) {now : Instant} (k : ℕ) {w : Relay}
    (h : w.stream.done = false ∧ w.stream.ended = none ∧ Brisk now w.stream) :
    ∃ u, exec (step json) w (List.replicate k (.poll now false)) = some u ∧
      ((u.stream.done = false ∧ u.stream.ended = none ∧ Brisk now u.stream ∧
          u.stream.taken.length = w.stream.taken.length+k) ∨
        u.stream.done = true ∧ (u.stream.ended = some .eof ∨ u.stream.ended = some .failed)) := by
  induction k with
  | zero => exact ⟨w,rfl,.inl ⟨h.1,h.2.1,h.2.2,rfl⟩⟩
  | succ k ih =>
    obtain ⟨u,hrun,hu⟩ := ih
    have hlive : u.stream.ended ≠ some .dropped := by
      rcases hu with hu | ⟨-,hu | hu⟩
      · simp [hu.2.1]
      · simp [hu]
      · simp [hu]
    have hpoll : ∃ received, step json u (.poll now false) =
        some ⟨(u.stream.pollNext json now false).2,received⟩ := ⟨_,if_neg hlive⟩
    obtain ⟨received,hpoll⟩ := hpoll
    rw [List.replicate_succ']
    refine ⟨_,exec_snoc hrun hpoll,?_⟩
    rcases hu with ⟨hdone,hended,hbrisk,htaken⟩ | hclosed
    · have hgoes := hbrisk.poll hdone hended json
      unfold Goes at hgoes
      rw [htaken] at hgoes
      exact hgoes
    · rw [pollNext_done hclosed.1]
      exact .inr hclosed

end Relay

@[simp] theorem chunks_append (script rest : List Inner) :
    chunks (script ++ rest) = chunks script ++ chunks rest :=
  List.filterMap_append

@[simp] theorem chunks_map (body : List Bytes) : chunks (body.map .chunk) = body := by
  unfold chunks
  rw [List.filterMap_map]
  exact List.filterMap_some

theorem LinesFit.streams_within {x : Exchange} {body : List Bytes}
    (hsize : body.flatten.length < 2^64) (hlines : LinesFit x.settings body) :
    StreamsWithin x body := by
  intro event now script ops w hscript hrun
  have hcapped := Relay.capped_run hrun
  have hbytes := congrArg List.length (Relay.sound_run hrun).conserved
  simp only [List.length_append] at hbytes
  have hwithin := hcapped.within
  refine ⟨withinLimit_of_le (by omega),fun given hgiven => ?_⟩
  have hsame : ∀ given', script = given' ++ w.stream.inner → given' = given := fun given' h =>
    List.append_cancel_right (h.symm.trans hgiven)
  have hprefix : chunks given <+: body :=
    ⟨chunks w.stream.inner,by rw [← chunks_append,← hgiven,hscript]⟩
  rcases hcapped.reading with
    ⟨⟨given',h,haccepted⟩,hended⟩ | hover | ⟨hended,⟨given',h,haccepted⟩,hlong⟩
  · obtain rfl := hsame given' h
    rw [haccepted]
    exact iff_of_true ⟨rfl,hended⟩ (withinLimit_of_le hwithin)
  · obtain ⟨hended,given',refused,h,hrefused,hover⟩ := hover
    obtain rfl := hsame given' h
    have hlength : (chunks given').flatten.length < 2^64 :=
      (flatten_length_le hprefix).trans_lt hsize
    have htotal : (chunks given').flatten.length =
        w.stream.accepted.flatten.length+refused.length := by
      rw [hrefused,List.flatten_append,List.length_append,List.flatten_singleton]
    rw [withinLimit_iff hlength]
    exact iff_of_false (fun htakes => htakes.2 hended) (by omega)
  · obtain rfl := hsame given' h
    have hlimit : WithinLimit x.settings (chunks given').flatten.length := by
      rw [haccepted]
      exact withinLimit_of_le hwithin
    have hshort := hlines (chunks given') hprefix hlimit
    rw [haccepted] at hshort
    exact absurd hlong (Nat.not_lt_of_le hshort)

/-- A stream that upstream feeds without a pause, and that is polled in time, comes to an end. -/
theorem exists_finished_run (x : Exchange) (hidle : x.settings.idleTimeoutSecs ≠ 0)
    (body : List Bytes) : ∃ ops w,
      exec (Relay.step x.json) (Relay.start (openStream x.settings x.upstream x.modelName demoEvent
        x.start x.start (body.map .chunk))) ops = some w ∧
      (w.stream.ended = some .eof ∨ w.stream.ended = some .failed) := by
  have hopen : Brisk x.start (openStream x.settings x.upstream x.modelName demoEvent x.start x.start
      (body.map .chunk)) := by
    have hpatient : 0 < seconds x.settings.idleTimeoutSecs :=
      Nat.mul_pos (Nat.pos_of_ne_zero hidle) (by decide)
    refine ⟨fun item hitem => ?_,?_,Nat.lt_add_of_pos_right hpatient,hpatient⟩
    · obtain ⟨bytes,-,rfl⟩ := List.mem_map.mp hitem
      exact ⟨bytes,rfl⟩
    · simp only [openStream,elapsed,Nat.sub_self]
      split
      · decide
      · rename_i hcapped
        exact Nat.mul_pos (Nat.pos_of_ne_zero hcapped) (by decide)
  obtain ⟨w,hrun,hgoes | hend⟩ := Relay.polls_go x.json (body.flatten.length+1)
    (w := Relay.start (openStream x.settings x.upstream x.modelName demoEvent x.start x.start
      (body.map .chunk))) ⟨rfl,rfl,hopen⟩
  · -- every poll took a piece, which are more pieces than there are bytes
    have hpieces := Relay.taken_le hrun
    have haccepted : w.stream.accepted <+: body := by
      obtain ⟨⟨given,h,hgiven⟩,-⟩ | ⟨-,given,refused,h,hgiven,-⟩ | ⟨-,⟨given,h,hgiven⟩,-⟩ :=
        (Relay.capped_run hrun).reading
      all_goals
        have hall := congrArg chunks h
        rw [chunks_map,chunks_append,hgiven] at hall
      · exact ⟨_,hall.symm⟩
      · exact ⟨_,(hall.trans (List.append_assoc _ _ _)).symm⟩
      · exact ⟨_,hall.symm⟩
    have hle := flatten_length_le haccepted
    have htaken := hgoes.2.2.2
    simp only [Relay.start,openStream,List.length_nil] at htaken
    omega
  · exact ⟨_,w,hrun,hend.2⟩

/-- A stream fails over a line that outgrows its buffer, so one that takes what is within the cap was
given none. -/
theorem StreamsWithin.lines_fit {x : Exchange} {body : List Bytes}
    (hidle : x.settings.idleTimeoutSecs ≠ 0) (h : StreamsWithin x body) :
    LinesFit x.settings body := by
  obtain ⟨ops,w,hrun,hend⟩ := exists_finished_run x hidle body
  have htakes := (h demoEvent x.start (body.map .chunk) ops w (chunks_map body) hrun).2
  have hcapped := Relay.capped_run hrun
  intro line hline hwithin
  rcases hend with heof | hfailed
  · -- all was read
    have hshort := hcapped.short (.inl heof)
    obtain ⟨⟨given,hgiven,haccepted⟩,-⟩ | ⟨hended,-⟩ | ⟨hended,-⟩ := hcapped.reading
    · have hall := congrArg chunks hgiven
      rw [chunks_map,hcapped.eof heof,List.append_nil,haccepted] at hall
      exact hshort line (hall ▸ hline)
    · simp [heof] at hended
    · simp [heof] at hended
  · obtain ⟨-,hended⟩ | hover | ⟨-,⟨given,hgiven,haccepted⟩,-⟩ := hcapped.reading
    · exact absurd hfailed hended
    · have hshort := hcapped.short (.inr hover)
      obtain ⟨-,given,refused,hgiven,hrefused,-⟩ := hover
      have hrefuses : ¬WithinLimit x.settings (chunks given).flatten.length :=
        fun hlimit => ((htakes given hgiven).mpr hlimit).2 hfailed
      have hprefix : chunks given <+: body := by
        have hall := congrArg chunks hgiven
        rw [chunks_map,chunks_append] at hall
        exact ⟨_,hall.symm⟩
      rcases List.prefix_or_prefix_of_prefix hline hprefix with hbefore | hafter
      · rw [hrefused] at hbefore
        obtain hsame | hshorter := List.prefix_concat_iff.mp hbefore
        · rw [hrefused,← hsame] at hrefuses
          exact absurd hwithin hrefuses
        · exact hshort line hshorter
      · exact absurd (hwithin.mono (flatten_length_le hafter)) hrefuses
    · -- what was failed was within the cap
      have hlimit : WithinLimit x.settings (chunks given).flatten.length := by
        rw [haccepted]
        exact withinLimit_of_le hcapped.within
      exact absurd hfailed ((htakes given hgiven).mpr hlimit).2

theorem streams_within_iff (x : Exchange) {body : List Bytes} (hsize : body.flatten.length < 2^64)
    (hidle : x.settings.idleTimeoutSecs ≠ 0) : StreamsWithin x body ↔ LinesFit x.settings body :=
  ⟨fun h => h.lines_fit hidle,fun h => h.streams_within hsize⟩

/-- A response keeps the cap unless it is the error response of a streamed request, with more
bytes than the cap allows, or an event stream with a line that outgrows the buffer. -/
theorem keeps_cap_iff (x : Exchange) (stream : Bool) (r : UpstreamResponse)
    (hsize : r.chunks.flatten.length < 2^64) (hidle : x.settings.idleTimeoutSecs ≠ 0) :
    KeepsCap x stream r ↔
      isRedirection r.status.code = true ∨ stream = false ∨
        (isSuccess r.status.code = true ∧ LinesFit x.settings r.chunks) ∨
        isSuccess r.status.code = false ∧ WithinLimit x.settings r.chunks.flatten.length := by
  unfold KeepsCap
  by_cases hredirect : isRedirection r.status.code = true
  · simp [hredirect]
  · cases stream with
    | false => simp [hredirect,plain_within hsize]
    | true =>
      by_cases hsuccess : isSuccess r.status.code = true
      · simp [hredirect,hsuccess,streams_within_iff x hsize hidle]
      · simp [hredirect,hsuccess]

def cappedExchange : Exchange := { demoExchange with settings := ⟨60,0,8⟩ }

/-- A body that fills the cap, in two chunks. -/
theorem keeps_cap_iff_filled :
    KeepsCap cappedExchange true ⟨⟨200,by decide⟩,[],[utf8 "just",utf8 "fits"],.finished⟩ := by
  have hfit : LinesFit cappedExchange.settings [utf8 "just",utf8 "fits"] := by
    intro given hgiven _
    have hbytes : [utf8 "just",utf8 "fits"].flatten.length = 8 := by decide +kernel
    have hrest := lineRest_length_le given.flatten
    have hlen := flatten_length_le hgiven
    simp only [maxSseBufferBytes]
    omega
  exact (keeps_cap_iff cappedExchange true
    ⟨⟨200,by decide⟩,[],[utf8 "just",utf8 "fits"],.finished⟩ (by decide +kernel) (by decide)).mpr
      (.inr (.inr (.inl ⟨by decide,hfit⟩)))

/-- The error response of a streamed request is read past the cap; and where there is no cap, an
event stream of one line over the buffer is refused. -/
theorem error_body_uncapped :
    let r : UpstreamResponse := ⟨⟨500,by decide⟩,[],[utf8 "twice ",utf8 "the cap"],.finished⟩
    let line : UpstreamResponse :=
      ⟨⟨200,by decide⟩,[],[List.replicate (maxSseBufferBytes+1) 97],.finished⟩
    (textHeld r.chunks = some (utf8 "twice the cap") ∧
      ¬WithinLimit cappedExchange.settings r.chunks.flatten.length ∧
      ¬KeepsCap cappedExchange true r) ∧
    WithinLimit demoExchange.settings line.chunks.flatten.length ∧
      ¬KeepsCap demoExchange true line := by
  intro r line
  have hover : ¬WithinLimit cappedExchange.settings r.chunks.flatten.length := by
    unfold WithinLimit
    decide +kernel
  have hreader : KeepsCap cappedExchange true r →
      ReadsWithin cappedExchange.settings textHeld r.chunks := id
  have hstream : KeepsCap demoExchange true line → StreamsWithin demoExchange line.chunks := id
  have hbytes : line.chunks.flatten = List.replicate (maxSseBufferBytes+1) 97 :=
    List.flatten_singleton
  have hno : newline ∉ line.chunks.flatten := by
    rw [hbytes]
    intro hmem
    exact absurd (List.eq_of_mem_replicate hmem) (by decide)
  refine ⟨⟨by decide +kernel,hover,fun h => hover ((hreader h).accepts.mp (by simp [textHeld]))⟩,
    .inl rfl,fun h => ?_⟩
  have hshort := (hstream h).lines_fit (by decide) line.chunks (List.prefix_refl _) (.inl rfl)
  rw [lineRest_of_not_mem hno,hbytes,List.length_replicate] at hshort
  omega

end Ait
