import Ait.ByteSearch
import Ait.Transform

/-!
# The event stream wrapper

`SseTransformStream` buffers the chunks of an upstream stream, hands on one rewritten
event for each poll and logs the request when the stream ends. The inner stream is
the list of answers it has still to give. One reading of the clock serves a whole
poll.
-/

namespace Ait

def maxSseBufferBytes : ℕ := 1024*1024

structure ProxyEvent where
  promptTokens : Option ℤ
  completionTokens : Option ℤ
  totalTokens : Option ℤ
  cachedTokens : Option ℤ
  latencyMs : ℕ
  status : String
  timeToFirstTokenMs : Option ℕ
  responseBodySize : Option ℕ
  errorMessage : Option String
  deriving DecidableEq

/-- What the inner stream answers when it is polled; after its last answer it has ended. -/
inductive Inner
  | pending
  | chunk (bytes : Bytes)
  | error (e : String)
  deriving DecidableEq

inductive Poll
  | pending
  | ready (item : Option (Except String Bytes))

inductive Ending
  | eof
  | timeout
  | shutdown
  | failed
  | error
  | dropped
  deriving DecidableEq

structure SseTransformStream where
  inner : List Inner
  buf : Bytes
  scanned : ℕ
  upstream : UpstreamProvider
  modelName : String
  userTokens : Option UsageTokens
  logged : List ProxyEvent
  event : ProxyEvent
  start : Instant
  done : Bool
  idleTimeout : ℕ
  idleTimer : Instant
  maxDuration : ℕ
  totalBytes : ℕ
  maxBytes : ℕ
  -- not in the source: the chunks put into `buf`, the pieces split off it, what was left of it
  -- at the end, and how the stream ended
  accepted : List Bytes
  taken : List Bytes
  flushed : Bytes
  ended : Option Ending

def doubleNewline : Bytes := [10,10]

def doubleCrlf : Bytes := [13,10,13,10]

/-- The boundary in `buf` behind `scanned`, or how far a search that found none got. -/
def boundaryFrom (buf : Bytes) (scanned : ℕ) : Option ℕ :=
  let start := min scanned buf.length
  let hay := buf.drop start
  match Search.find doubleCrlf hay with
  | some i => some (start+i+4)
  | none => (Search.find doubleNewline hay).map (start+·+2)

namespace SseTransformStream

def findEventBoundary (s : SseTransformStream) : Option ℕ × SseTransformStream :=
  match boundaryFrom s.buf s.scanned with
  | some eventEnd => (some eventEnd,s)
  | none => (none,{ s with scanned := s.buf.length-3 })

/-- A buffer over the cap is split at its last newline. -/
def forceSplitOversized (s : SseTransformStream) : Except String (Option ℕ) :=
  if s.buf.length ≤ maxSseBufferBytes then .ok none
  else
    match Search.findLast newline s.buf with
    | some i => .ok (some (i+1))
    | none => .error "SSE buffer exceeded cap without a line boundary"

def millisSince (start now : Instant) : ℕ := elapsed start now / 1000000

/-- The prompt count found in the stream, or the estimate the request was logged with. -/
def finalizeLog (s : SseTransformStream) (now : Instant) : SseTransformStream :=
  let event := match s.userTokens with
    | some usage =>
      { s.event with
        promptTokens := usage.promptTokens.or s.event.promptTokens
        completionTokens := usage.completionTokens
        totalTokens := usage.totalTokens
        cachedTokens := usage.cachedTokens }
    | none => s.event
  let event := { event with latencyMs := millisSince s.start now }
  { s with userTokens := none,event := event,logged := s.logged ++ [event] }

def recordTtfb (s : SseTransformStream) (now : Instant) : SseTransformStream :=
  { s with event := { s.event with
      timeToFirstTokenMs := s.event.timeToFirstTokenMs.or (some (millisSince s.start now)) } }

/-- Fail the stream; the buffered bytes are given up. -/
def failStream (s : SseTransformStream) (status msg : String) (now : Instant) :
    Poll × SseTransformStream :=
  let event := { s.event with status := status,errorMessage := some msg }
  (.ready none,finalizeLog { s with event := event,done := true,ended := some .failed } now)

def splitEvent (s : SseTransformStream) (json : SerdeJson) (eventEnd : ℕ) :
    Poll × SseTransformStream :=
  let event := s.buf.take eventEnd
  let (transformed,userTokens) := transformEvent json s.upstream s.modelName s.userTokens event
  let size := s.event.responseBodySize.getD 0 + transformed.length
  (.ready (some (.ok transformed)),
    { s with
      buf := s.buf.drop eventEnd
      scanned := 0
      userTokens := userTokens
      event := { s.event with responseBodySize := some size }
      taken := s.taken ++ [event] })

/-- What is left in the buffer leaves in one piece. -/
def finalizeStream (s : SseTransformStream) (json : SerdeJson) (why : Ending) (now : Instant) :
    Poll × SseTransformStream :=
  let s := finalizeLog (recordTtfb { s with done := true,ended := some why } now) now
  if s.buf ≠ [] then
    (.ready (some (.ok (s.upstream.transformResponse json s.buf s.modelName))),
      { s with buf := [],flushed := s.buf })
  else (.ready none,s)

def timeoutStream (s : SseTransformStream) (json : SerdeJson) (msg : String) (now : Instant) :
    Poll × SseTransformStream :=
  let event := { s.event with status := "504",errorMessage := some msg }
  finalizeStream { s with event := event } json .timeout now

/-- The answer a buffer allows at once: an event, or giving up on an oversized buffer. -/
def drain (s : SseTransformStream) (json : SerdeJson) (now : Instant) :
    (Poll × SseTransformStream) ⊕ SseTransformStream :=
  match s.findEventBoundary with
  | (some eventEnd,s) => .inl (s.splitEvent json eventEnd)
  | (none,s) =>
    match s.forceSplitOversized with
    | .ok (some eventEnd) => .inl (s.splitEvent json eventEnd)
    | .ok none => .inr s
    | .error msg => .inl (s.failStream "502" msg now)

/-- A chunk from upstream re-arms the idle deadline and is counted. -/
def receive (s : SseTransformStream) (bytes : Bytes) (now : Instant) : SseTransformStream :=
  { s with idleTimer := now+s.idleTimeout,totalBytes := s.totalBytes+bytes.length }

def append (s : SseTransformStream) (bytes : Bytes) (now : Instant) : SseTransformStream :=
  recordTtfb { s with buf := s.buf ++ bytes,accepted := s.accepted ++ [bytes] } now

def pollInner (json : SerdeJson) (now : Instant) :
    List Inner → SseTransformStream → Poll × SseTransformStream
  | [], s => finalizeStream { s with inner := [] } json .eof now
  | .pending::rest, s => (.pending,{ s with inner := rest })
  | .error e::rest, s =>
    let event := { s.event with errorMessage := some e }
    let s := finalizeLog { s with inner := rest,event := event } now
    (.ready (some (.error e)),{ s with done := true,ended := some .error })
  | .chunk bytes::rest, s =>
    let s := receive { s with inner := rest } bytes now
    if s.totalBytes > s.maxBytes then
      s.failStream "502" "SSE stream exceeded max response size" now
    else
      match (s.append bytes now).drain json now with
      | .inl answer => answer
      | .inr s => pollInner json now rest s

def pollNext (json : SerdeJson) (s : SseTransformStream) (now : Instant) (cancelled : Bool) :
    Poll × SseTransformStream :=
  if s.done then (.ready none,s)
  else if elapsed s.start now ≥ s.maxDuration then
    s.timeoutStream json "SSE stream exceeded max duration" now
  else if now ≥ s.idleTimer then s.timeoutStream json "SSE stream idle timeout" now
  else
    match s.drain json now with
    | .inl answer => answer
    | .inr s =>
      if cancelled then s.finalizeStream json .shutdown now
      else pollInner json now s.inner s

/-- `Drop`: a stream nobody finished is logged as a request the client closed. -/
def dropStream (s : SseTransformStream) (now : Instant) : SseTransformStream :=
  if s.done then s
  else
    let event := { s.event with status := "499" }
    finalizeLog { s with event := event,ended := some .dropped } now

end SseTransformStream

/-- `Duration::MAX`. -/
def durationMax : ℕ := seconds (2^64-1) + 999999999

/-- The proxy settings a stream is opened with; a cap of zero is no cap. -/
structure SseSettings where
  idleTimeoutSecs : ℕ
  maxDurationSecs : ℕ
  maxResponseBodyBytes : ℕ

/-- The stream `proxy_streamed` answers with. -/
def openStream (settings : SseSettings) (upstream : UpstreamProvider) (modelName : String)
    (event : ProxyEvent) (start now : Instant) (inner : List Inner) : SseTransformStream where
  inner := inner
  buf := []
  scanned := 0
  upstream := upstream
  modelName := modelName
  userTokens := none
  logged := []
  event := event
  start := start
  done := false
  idleTimeout := seconds settings.idleTimeoutSecs
  idleTimer := now+seconds settings.idleTimeoutSecs
  maxDuration := if settings.maxDurationSecs = 0 then durationMax else seconds settings.maxDurationSecs
  totalBytes := 0
  maxBytes := if settings.maxResponseBodyBytes = 0 then 2^64-1 else settings.maxResponseBodyBytes
  accepted := []
  taken := []
  flushed := []
  ended := none

def demoUpstream : UpstreamProvider :=
  createProvider ⟨"p1","local",.openAICompat,"http://ai/v1",none,true,0,0⟩ ⟨5,[]⟩

def demoEvent : ProxyEvent where
  promptTokens := some 7
  completionTokens := none
  totalTokens := none
  cachedTokens := none
  latencyMs := 0
  status := "200"
  timeToFirstTokenMs := none
  responseBodySize := none
  errorMessage := none

def demoStream (inner : List Inner) : SseTransformStream :=
  openStream ⟨60,0,0⟩ demoUpstream "ai" demoEvent 0 0 inner

def utf8 (s : String) : Bytes := s.toUTF8.data.toList

end Ait
