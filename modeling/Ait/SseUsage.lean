import Ait.SseAlias

/-!
# Usage and size of a whole stream

What the log of a finished stream says, compared with all the bytes upstream sent: the
counts come from the events taken out of the buffer, and the log is written before the
rest of the buffer leaves.
-/

namespace Ait
open Transition Search SseTransformStream

/-- The payloads of the `data:` lines, as an event is split into lines. -/
def payloads (text : Bytes) : List Bytes := (lines text).filterMap dataPayload

def lastPayload (json : SerdeJson) (ps : List Bytes) : Option Bytes :=
  (ps.filter fun p => (parseUsage json p).positive).getLast?

def lastUsage (json : SerdeJson) (ps : List Bytes) : Option UsageTokens :=
  (lastPayload json ps).map (parseUsage json)

section Usage

variable {json : SerdeJson} {upstream : UpstreamProvider} {modelName : String}

@[simp] theorem lastPayload_snoc (ps : List Bytes) (p : Bytes) :
    lastPayload json (ps ++ [p]) =
      if (parseUsage json p).positive then some p else lastPayload json ps := by
  by_cases h : (parseUsage json p).positive
  · simp [lastPayload,List.filter_append,h]
  · simp [lastPayload,List.filter_append,h]

@[simp] theorem lastUsage_snoc (ps : List Bytes) (p : Bytes) :
    lastUsage json (ps ++ [p]) =
      if (parseUsage json p).positive then some (parseUsage json p) else lastUsage json ps := by
  rw [lastUsage,lastPayload_snoc]
  split <;> rfl

/-- Extracting from one payload after the other keeps the usage of the last. -/
@[simp] theorem foldl_extractUsage (ps : List Bytes) (tokens : Option UsageTokens) :
    ps.foldl (extractUsage json) tokens = (lastUsage json ps).or tokens := by
  induction ps using List.reverseRecOn with
  | nil => rfl
  | append_singleton ps p ih =>
    rw [List.foldl_append,ih,lastUsage_snoc]
    by_cases h : (parseUsage json p).positive
    · simp [extractUsage_eq,h]
    · simp [extractUsage_eq,h]

@[simp] theorem foldl_transformLine_snd (ls : List Bytes) (acc : Bytes × Option UsageTokens) :
    (ls.foldl (transformLine json upstream modelName) acc).2 =
      (ls.filterMap dataPayload).foldl (extractUsage json) acc.2 := by
  induction ls generalizing acc with
  | nil => rfl
  | cons line ls ih =>
    rw [List.foldl_cons,ih]
    cases hp : dataPayload line with
    | some payload => simp [transformLine_payload hp,hp]
    | none =>
      have hkept : (transformLine json upstream modelName acc line).2 = acc.2 := by
        rw [transformLine_other hp]
        split <;> rfl
      simp [hp,hkept]

@[simp] theorem transformEvent_snd {piece : Bytes} (hutf8 : validUtf8 piece = true)
    (tokens : Option UsageTokens) :
    (transformEvent json upstream modelName tokens piece).2 =
      (payloads piece).foldl (extractUsage json) tokens := by
  simp only [transformEvent_eq,hutf8,if_true]
  exact foldl_transformLine_snd _ _

@[simp] theorem tokensAfter_eq {pieces : List Bytes}
    (hutf8 : ∀ piece ∈ pieces, validUtf8 piece = true) :
    tokensAfter json upstream modelName pieces = lastUsage json (pieces.flatMap payloads) := by
  have hfold : ∀ tokens, pieces.foldl
      (fun tokens piece => (transformEvent json upstream modelName tokens piece).2) tokens =
      (pieces.flatMap payloads).foldl (extractUsage json) tokens := by
    induction pieces with
    | nil => exact fun _ => rfl
    | cons piece pieces ih =>
      intro tokens
      have hhead : (transformEvent json upstream modelName tokens piece).2 = _ :=
        transformEvent_snd (hutf8 piece List.mem_cons_self) tokens
      rw [List.foldl_cons,hhead,ih fun p hp => hutf8 p (List.mem_cons_of_mem piece hp),
        List.flatMap_cons,List.foldl_append]
  unfold tokensAfter
  rw [hfold,foldl_extractUsage,Option.or_none]

theorem sizeAfter_getD (size : Option ℕ) (pieces : List Bytes) :
    (sizeAfter json upstream modelName size pieces).getD 0 =
      size.getD 0 + (pieces.map (handed json upstream modelName)).flatten.length := by
  induction pieces generalizing size with
  | nil => simp [sizeAfter]
  | cons piece pieces ih =>
    have hrest := ih (some (size.getD 0 + (handed json upstream modelName piece).length))
    simp only [sizeAfter,Option.getD_some] at hrest
    simp only [sizeAfter,List.foldl_cons,hrest,List.map_cons,List.flatten_cons,List.length_append]
    omega

end Usage

section Lines

variable {a b : Bytes}

@[simp] theorem lines_append (a b : Bytes) :
    lines (a ++ newline::b) =
      (a.splitOn newline).map (stripSuffix carriageReturn) ++ lines b := by
  have hne := List.splitOn_ne_nil newline b
  unfold lines
  rw [List.splitOn_append_cons_self]
  simp [List.dropLast_append_of_ne_nil hne,List.getLast?_append_of_ne_nil _ hne]

@[simp] theorem lines_nil : lines [] = [] := by simp [lines]

@[simp] theorem Terminated.lines (h : Terminated a) (b : Bytes) :
    Ait.lines (a ++ b) = Ait.lines a ++ Ait.lines b := by
  rcases h with rfl | ⟨l,rfl⟩
  · simp
  · have hleft : Ait.lines (l ++ [newline]) =
        (l.splitOn newline).map (stripSuffix carriageReturn) := by simp [lines_append]
    rw [hleft,List.append_assoc]
    exact lines_append l b

@[simp] theorem Terminated.payloads_append (h : Terminated a) (b : Bytes) :
    Ait.payloads (a ++ b) = Ait.payloads a ++ Ait.payloads b := by
  simp only [Ait.payloads,h.lines,List.filterMap_append]

@[simp] theorem payloads_pieces {pieces : List Bytes}
    (hlines : ∀ piece ∈ pieces, ∃ l, piece = l ++ [newline]) (rest : Bytes) :
    payloads (pieces.flatten ++ rest) = pieces.flatMap payloads ++ payloads rest := by
  induction pieces with
  | nil => rfl
  | cons piece pieces ih =>
    have hpiece : Terminated piece := .inr (hlines piece List.mem_cons_self)
    rw [List.flatten_cons,List.append_assoc,hpiece.payloads_append,
      ih fun p hp => hlines p (List.mem_cons_of_mem piece hp),List.flatMap_cons,List.append_assoc]

end Lines

namespace SseTransformStream

structure Searching (s : SseTransformStream) : Prop where
  unseen : Unseen s.buf s.scanned
  flushed : s.flushed = []
  ended : s.ended = none

/-- A stream between polls: at the end of its input it has read everything and found every
boundary. -/
structure Drained (s : SseTransformStream) : Prop where
  eof : s.ended = some .eof → s.inner = [] ∧ boundary s.flushed = none
  running : s.done = false → s.ended ≠ some .dropped → Searching s

namespace Searching

variable {json : SerdeJson} {s : SseTransformStream}

theorem drained (h : Searching s) : Drained s where
  eof := fun hended => by rw [h.ended] at hended; cases hended
  running := fun _ _ => h

theorem searched (h : Searching s) (hb : boundary s.buf = none) : Searching s.searched :=
  ⟨fun j _ => boundary_eq_none.mp hb j,h.flushed,h.ended⟩

theorem finalize (h : Searching s) (why : Ending) (now : Instant)
    (heof : why = .eof → s.inner = [] ∧ boundary s.buf = none) :
    Drained (s.finalizeStream json why now).2 := by
  obtain ⟨hended,-,hinner⟩ := finalizeStream_closed s json why now
  obtain ⟨hflushed,hdone,-⟩ := finalize_flushed json why now h.flushed
  constructor
  · intro hwhy
    rw [hended] at hwhy
    rw [hinner,hflushed]
    exact heof (Option.some.inj hwhy)
  · intro hopen
    rw [hdone] at hopen
    cases hopen

theorem drained_of_ended {e : Ending} (hended : s.ended = some e) (heof : e ≠ .eof)
    (hclosed : s.done = true ∨ s.ended = some .dropped) : Drained s where
  eof := fun h => absurd (Option.some.inj (hended.symm.trans h)) heof
  running := fun hdone hlive => (not_running hclosed hdone hlive).elim

theorem rules (json : SerdeJson) (now : Instant) (cancelled : Bool) :
    PollRules json now cancelled Searching
      (fun s => Searching s ∧ boundary s.buf = none ∧ s.scanned = s.buf.length-3)
      fun answer => Drained answer.2 where
  split := fun s n h _ => drained ⟨nofun,h.flushed,h.ended⟩
  force := fun s i h _ _ _ => drained ⟨nofun,h.flushed,h.ended⟩
  oversize := fun s msg h _ _ _ => drained_of_ended (e := .failed) rfl (by simp) (.inl rfl)
  search := fun s h hb _ => by
    rw [boundaryFrom_unseen h.unseen] at hb
    exact ⟨h.searched hb,hb,rfl⟩
  shutdown := fun s h _ => h.1.finalize .shutdown now (by simp)
  eof := fun s h hinner => h.1.finalize .eof now fun _ => ⟨hinner,h.2.1⟩
  pending := fun s rest h _ => drained ⟨h.1.unseen,h.1.flushed,h.1.ended⟩
  error := fun s rest e h _ => drained_of_ended (e := .error) rfl (by simp) (.inl rfl)
  capped := fun s rest bytes msg h _ _ =>
    drained_of_ended (e := .failed) rfl (by simp) (.inl rfl)
  feed := fun s rest bytes h _ _ => by
    obtain ⟨hsearching,hb,hscanned⟩ := h
    have hunseen := unseen_append hb bytes
    rw [← hscanned] at hunseen
    exact ⟨hunseen,hsearching.flushed,hsearching.ended⟩

end Searching

theorem Drained.poll {s : SseTransformStream} (h : Drained s) (json : SerdeJson) (now : Instant)
    (cancelled : Bool) (hlive : s.ended ≠ some .dropped) :
    Drained (s.pollNext json now cancelled).2 := by
  refine (Searching.rules json now cancelled).poll (fun _ => h) ?_ ?_
  · exact fun hdone => h.running hdone hlive
  · intro hdone msg
    have hopen := h.running hdone hlive
    exact Searching.finalize
      (s := { s with event := { s.event with status := "504",errorMessage := some msg } })
      ⟨hopen.unseen,hopen.flushed,hopen.ended⟩ .timeout now (by simp)

theorem Drained.drop {s : SseTransformStream} (h : Drained s) (now : Instant) :
    Drained (s.dropStream now) := by
  unfold dropStream
  split
  · exact h
  · exact Searching.drained_of_ended (e := .dropped) rfl (by simp) (.inr rfl)

end SseTransformStream

namespace Relay

section Run

variable {json : SerdeJson} {settings : SseSettings} {upstream : UpstreamProvider}
  {modelName : String} {event : ProxyEvent} {start now : Instant} {script : List Inner}
  {ops : List Op} {w : Relay}

theorem drained_run (hrun : exec (step json)
    (Relay.start (openStream settings upstream modelName event start now script)) ops = some w) :
    w.stream.Drained := by
  have hstart : Searching (openStream settings upstream modelName event start now script) :=
    ⟨nofun,rfl,rfl⟩
  exact run_preserves (fun s now cancelled hlive h => h.poll json now cancelled hlive)
    (fun s now _ h => h.drop now) hrun hstart.drained

theorem bytes_at_eof (hrun : exec (step json)
    (Relay.start (openStream settings upstream modelName event start now script)) ops = some w)
    (heof : w.stream.ended = some .eof) :
    (chunks script).flatten = w.stream.taken.flatten ++ w.stream.flushed := by
  have hsound := sound_run hrun
  have hbuf := hsound.empty .eof heof (.inl rfl)
  have hbytes := hsound.conserved
  simp only [Conserved,hbuf,List.append_nil] at hbytes
  rcases hsound.reading with ⟨consumed,hscript,hchunks⟩ | ⟨hfailed,-⟩
  · have hinner := ((drained_run hrun).eof heof).1
    rw [hbytes,hscript,hinner,List.append_nil,hchunks]
  · rw [heof] at hfailed
    cases hfailed

theorem logged_at_eof (hutf8 : validUtf8 (chunks script).flatten = true) (hrun : exec (step json)
    (Relay.start (openStream settings upstream modelName event start now script)) ops = some w)
    (heof : w.stream.ended = some .eof) :
    ∃ e, w.stream.logged = [e] ∧
      e.usage = loggedUsage event.usage (lastUsage json (payloads w.stream.taken.flatten)) ∧
      e.responseBodySize.getD 0 + (residue json upstream modelName w.stream.flushed).flatten.length =
        event.responseBodySize.getD 0 + w.received.flatten.length := by
  have hsettled := settled_run hrun
  obtain ⟨e,hlogged,husage,hsize⟩ := hsettled.logged (by rw [heof]; simp)
  have hdelivered := hsettled.delivered
  simp only [hsettled.serves.1,hsettled.serves.2,Delivered] at husage hsize hdelivered
  have hpayloads := payloads_pieces (steady_run hrun).lines []
  simp only [List.append_nil,payloads,lines_nil,List.filterMap_nil] at hpayloads
  refine ⟨e,hlogged,?_,?_⟩
  · rw [husage,tokensAfter_eq (taken_valid hutf8 hrun)]
    simp only [payloads,hpayloads]
  · rw [hsize,sizeAfter_getD,hdelivered,List.flatten_append,List.length_append]
    omega

end Run

/-- The log has every byte that was received, and the token counts of the last payload of the
whole stream that reports usage. An absent size is zero, as for `split_event`. -/
def AccountsFor (json : SerdeJson) (event : ProxyEvent) (script : List Inner) (w : Relay) : Prop :=
  ∃ e, w.stream.logged = [e] ∧ e.responseBodySize.getD 0 = w.received.flatten.length ∧
    e.usage = loggedUsage event.usage (lastUsage json (payloads (chunks script).flatten))

theorem residue_eq_nil {json : SerdeJson} (hwrites : ∀ v, json.toVec v ≠ some [])
    (upstream : UpstreamProvider) (modelName : String) (rest : Bytes) :
    (residue json upstream modelName rest).flatten = [] ↔ rest = [] := by
  by_cases hnil : rest = []
  · simp [residue,hnil]
  · have hout : upstream.transformResponse json rest modelName ≠ [] := by
      unfold UpstreamProvider.transformResponse
      cases json.fromSlice rest with
      | none => exact hnil
      | some v =>
        dsimp only
        cases hwritten : json.toVec (upstream.rewrite v modelName) with
        | none => exact hnil
        | some b =>
          rintro rfl
          exact hwrites _ hwritten
    simp [residue,hnil,hout]

/-- The account of a stream read to its end is complete exactly when nothing was flushed. -/
theorem accounts_iff_flushed {json : SerdeJson} (hwrites : ∀ v, json.toVec v ≠ some [])
    {settings : SseSettings} {upstream : UpstreamProvider} {modelName : String}
    {event : ProxyEvent} (hsize : event.responseBodySize = none) {start now : Instant}
    {script : List Inner} (hutf8 : validUtf8 (chunks script).flatten = true) {ops : List Op}
    {w : Relay} (hrun : exec (step json)
      (Relay.start (openStream settings upstream modelName event start now script)) ops = some w)
    (heof : w.stream.ended = some .eof) :
    w.AccountsFor json event script ↔ w.stream.flushed = [] := by
  obtain ⟨e,hlogged,husage,hbytes⟩ := logged_at_eof hutf8 hrun heof
  rw [hsize,Option.getD_none,Nat.zero_add] at hbytes
  constructor
  · rintro ⟨e',hlogged',hreceived,-⟩
    obtain rfl := List.singleton_inj.mp (hlogged.symm.trans hlogged')
    have hnone : (residue json upstream modelName w.stream.flushed).flatten.length = 0 := by omega
    exact (residue_eq_nil hwrites upstream modelName _).mp (List.length_eq_zero_iff.mp hnone)
  · intro hflushed
    have hall := bytes_at_eof hrun heof
    rw [hflushed,List.append_nil] at hall
    refine ⟨e,hlogged,?_,by rw [husage,hall]⟩
    simpa [hflushed,residue] using hbytes

/-- The account of a stream read to its end is complete exactly when no bytes are left to flush by
the poll that ends it; for events of one convention that fit the buffer, when no bytes follow the
last blank line. -/
theorem accounts_iff_nothing_left (json : SerdeJson) (hwrites : ∀ v, json.toVec v ≠ some [])
    (settings : SseSettings) (upstream : UpstreamProvider) (modelName : String)
    (event : ProxyEvent) (hsize : event.responseBodySize = none) (start now : Instant)
    (script : List Inner) (hutf8 : validUtf8 (chunks script).flatten = true) (ops : List Op)
    (w : Relay) (hrun : exec (step json)
      (Relay.start (openStream settings upstream modelName event start now script)) ops = some w)
    (heof : w.stream.ended = some .eof) :
    (w.AccountsFor json event script ↔
      Along (step json) (fun w op => w.EndsWith (fun rest => rest = []) op)
        (Relay.start (openStream settings upstream modelName event start now script)) ops) ∧
    ∀ pieces tail, SingleConvention (chunks script).flatten → EventsFit (chunks script).flatten →
      Segmented boundary (chunks script).flatten pieces tail →
      (w.AccountsFor json event script ↔ tail = []) := by
  have haccounts := accounts_iff_flushed hwrites hsize hutf8 hrun heof
  constructor
  · rw [haccounts]
    exact flushed_run (P := fun rest => rest = []) rfl hrun
  · intro pieces tail hsingle hfit hcut
    rw [haccounts,(cut_run hsingle hfit hcut hrun heof).2]

end Relay

def usageText : Bytes := utf8 "\x7b\"usage\":\x7b\"completion_tokens\":5\x7d\x7d"

def usageValue : Value :=
  .object [("usage",.object [("completion_tokens",.number (.integer 5))])]

def sentUsageText : Bytes := utf8
  "\x7b\"model\":\"ai\",\"system_fingerprint\":\"ait-proxy\",\"usage\":\x7b\"completion_tokens\":5\x7d\x7d"

def sentUsageValue : Value :=
  .object [("model",.string "ai"),("system_fingerprint",.string "ait-proxy"),
    ("usage",.object [("completion_tokens",.number (.integer 5))])]

def usageJson : SerdeJson where
  fromSlice body :=
    if body = usageText then some usageValue
    else if body = sentUsageText then some sentUsageValue
    else none
  toVec
    | .object [("model",.string "ai"),("system_fingerprint",.string "ait-proxy"),
        ("usage",.object [("completion_tokens",.number (.integer 5))])] => some sentUsageText
    | _ => some (utf8 "null")

theorem usageJson_writes : ∀ v, usageJson.toVec v ≠ some [] := by
  intro v
  have hsent : sentUsageText ≠ [] := by decide +kernel
  have hnull : utf8 "null" ≠ [] := by decide +kernel
  simp only [usageJson]
  split
  · simpa using hsent
  · simpa using hnull

/-- Usage in an event with its blank line. -/
theorem Relay.accounts_iff_nothing_left_terminated :
    let script := [.chunk (utf8 "data: " ++ usageText),.pending,.chunk (utf8 "\n\n")]
    let ops := [.poll 1 false,.poll 2 false,.poll 3 false]
    ∃ w, exec (Relay.step usageJson) (Relay.start (demoStream script)) ops = some w ∧
      w.stream.ended = some .eof ∧ w.stream.flushed = [] ∧
      (w.AccountsFor usageJson demoEvent script ↔
        Along (Relay.step usageJson) (fun w op => w.EndsWith (fun rest => rest = []) op)
          (Relay.start (demoStream script)) ops) := by
  intro script ops
  have hview : (exec (Relay.step usageJson) (Relay.start (demoStream script)) ops).map (fun w =>
      (w.stream.ended,w.stream.flushed)) = some (some .eof,[]) := by decide +kernel
  obtain ⟨w,hrun,hw⟩ := Option.map_eq_some_iff.mp hview
  obtain ⟨hended,hflushed⟩ := Prod.mk.inj hw
  exact ⟨w,hrun,hended,hflushed,(Relay.accounts_iff_nothing_left usageJson usageJson_writes ⟨60,0,0⟩
    demoUpstream "ai" demoEvent rfl 0 0 script (by decide +kernel) ops w hrun hended).1⟩

/-- Without the blank line neither the bytes nor the usage is in the log. -/
theorem Relay.last_event_unaccounted :
    let script := [.chunk (utf8 "data: " ++ usageText)]
    ∃ w e, exec (Relay.step usageJson) (Relay.start (demoStream script)) [.poll 1 false] = some w ∧
      w.stream.ended = some .eof ∧ validUtf8 (chunks script).flatten = true ∧
      w.stream.logged = [e] ∧ e.responseBodySize.getD 0 ≠ w.received.flatten.length ∧
      e.usage ≠ loggedUsage demoEvent.usage
        (lastUsage usageJson (payloads (chunks script).flatten)) := by
  intro script
  have hview : (exec (Relay.step usageJson) (Relay.start (demoStream script)) [.poll 1 false]).map
      (fun w => (w.stream.ended,w.received.flatten.length,
        w.stream.logged.map fun e => (e.responseBodySize,e.usage))) =
      some (some .eof,39,[(none,⟨some 7,none,none,none⟩)]) := by decide +kernel
  obtain ⟨w,hrun,hw⟩ := Option.map_eq_some_iff.mp hview
  obtain ⟨hended,hw⟩ := Prod.mk.inj hw
  obtain ⟨hreceived,hlogged⟩ := Prod.mk.inj hw
  obtain ⟨e,hone,he⟩ := List.map_eq_singleton_iff.mp hlogged
  obtain ⟨hsize,husage⟩ := Prod.mk.inj he
  refine ⟨w,e,hrun,hended,by decide +kernel,hone,by simp [hsize,hreceived],?_⟩
  rw [husage]
  decide +kernel

end Ait
