import Ait.SseRun

/-!
# One proxied request and its log guard

What happens to a request from the creation of its `ProxyLogGuard` on: both branches
of `proxy_request` as state machines whose states are the points where the handler
waits, or where its response stream waits to be polled. The server may drop whatever it
holds at any of these points. `logged` is what was handed to `LogManager::log_proxy`.
-/

namespace Ait
open SseTransformStream

structure ProxyLogGuard where
  event : ProxyEvent
  start : Instant
  finalized : Bool

namespace ProxyLogGuard

def new (event : ProxyEvent) (start : Instant) : ProxyLogGuard := ⟨event,start,false⟩

/-- A response without usage leaves the estimate of the prompt tokens in place. -/
def finalize (guard : ProxyLogGuard) (usage : UsageTokens) (status : String) (now : Instant)
    (logged : List ProxyEvent) : ProxyLogGuard × List ProxyEvent :=
  let event := { guard.event with
    promptTokens := usage.promptTokens.or guard.event.promptTokens
    completionTokens := usage.completionTokens
    totalTokens := usage.totalTokens
    cachedTokens := usage.cachedTokens
    latencyMs := millisSince guard.start now
    status := status }
  ({ guard with event := event,finalized := true },logged ++ [event])

def suppressDropLog (guard : ProxyLogGuard) : ProxyLogGuard := { guard with finalized := true }

/-- `Drop`: a guard nobody finalized logs a request the client closed. -/
def drop (guard : ProxyLogGuard) (now : Instant) (logged : List ProxyEvent) : List ProxyEvent :=
  if guard.finalized then logged
  else logged ++ [{ guard.event with latencyMs := millisSince guard.start now,status := "499" }]

end ProxyLogGuard

/-- Bytes a character takes whose encoding starts with `a`; none does with some bytes. -/
def charWidth (a : UInt8) : ℕ :=
  if a < 0x80 then 1
  else if 0xC2 ≤ a && a ≤ 0xDF then 2
  else if 0xE0 ≤ a && a ≤ 0xEF then 3
  else if 0xF0 ≤ a && a ≤ 0xF4 then 4
  else 0

/-- The second bytes that may follow `a`. -/
def allowsSecond (a b : UInt8) : Bool :=
  if a = 0xE0 then 0xA0 ≤ b && b ≤ 0xBF
  else if a = 0xED then 0x80 ≤ b && b ≤ 0x9F
  else if a = 0xF0 then 0x90 ≤ b && b ≤ 0xBF
  else if a = 0xF4 then 0x80 ≤ b && b ≤ 0x8F
  else isTail b

def replacementCharacter : Char := Char.ofNat 0xFFFD

def low6 (b : UInt8) : ℕ := b.toNat % 64

/-- What is left of a character that breaks off is replaced as a whole. -/
def lossyChars : Bytes → List Char
  | [] => []
  | a::rest =>
    if charWidth a = 0 then replacementCharacter::lossyChars rest
    else if charWidth a = 1 then Char.ofNat a.toNat::lossyChars rest
    else
      match rest with
      | [] => [replacementCharacter]
      | b::tl1 =>
        if !allowsSecond a b then replacementCharacter::lossyChars (b::tl1)
        else if charWidth a = 2 then Char.ofNat (a.toNat % 32*64+low6 b)::lossyChars tl1
        else
          match tl1 with
          | [] => [replacementCharacter]
          | c::tl2 =>
            if !isTail c then replacementCharacter::lossyChars (c::tl2)
            else if charWidth a = 3 then
              Char.ofNat ((a.toNat % 16*64+low6 b)*64+low6 c)::lossyChars tl2
            else
              match tl2 with
              | [] => [replacementCharacter]
              | d::tl3 =>
                if !isTail d then replacementCharacter::lossyChars (d::tl3)
                else
                  Char.ofNat (((a.toNat % 8*64+low6 b)*64+low6 c)*64+low6 d)::lossyChars tl3

/-- `String::from_utf8_lossy`. -/
def fromUtf8Lossy (body : Bytes) : String := String.ofList (lossyChars body)

/-- The characters that fit `size` bytes of text. -/
def takeSize : ℕ → List Char → List Char
  | _, [] => []
  | size, c::cs => if c.utf8Size ≤ size then c::takeSize (size-c.utf8Size) cs else []

def truncateBody (body : String) : String :=
  if body.utf8ByteSize > 512 then String.ofList (takeSize 512 body.toList) ++ "..." else body

def redirectError : AitError :=
  .upstreamError 502 "Ait does not support redirect policy. If the provider's base_url has changed, please update the provider configuration."

def isRedirection (status : ℕ) : Bool := 300 ≤ status && status < 400

def isSuccess (status : ℕ) : Bool := 200 ≤ status && status < 300

/-- What awaiting the response headers under the timeout gives. -/
inductive Execute
  | failed (e : String)
  | timedOut
  | response (status : ℕ) (script : List Inner)

inductive BodyRead
  | chunk (bytes : Bytes)
  | error
  | finished
  | timedOut

structure Exchange where
  json : SerdeJson
  settings : SseSettings
  upstream : UpstreamProvider
  modelName : String
  start : Instant

inductive Stage
  | headers (guard : ProxyLogGuard)
  | errorBody (guard : ProxyLogGuard) (status : ℕ)
  | streaming (stream : SseTransformStream)
  | plainHeaders (guard : ProxyLogGuard)
  | plainBody (guard : ProxyLogGuard) (status : ℕ) (ttfb : ℕ) (body : Bytes)
  | closed

structure ProxiedRequest where
  stage : Stage
  logged : List ProxyEvent

namespace ProxiedRequest

inductive Op
  | execute (outcome : Execute) (now : Instant)
  | text (body : Option String) (now : Instant)
  | read (outcome : BodyRead) (now : Instant)
  | poll (now : Instant) (cancelled : Bool)
  | drop (now : Instant)

def close (guard : ProxyLogGuard) (usage : UsageTokens) (status : String) (now : Instant)
    (logged : List ProxyEvent) : ProxiedRequest :=
  let (guard,logged) := guard.finalize usage status now logged
  ⟨.closed,guard.drop now logged⟩

def withError (guard : ProxyLogGuard) (msg : String) : ProxyLogGuard :=
  { guard with event := { guard.event with errorMessage := some msg } }

/-- `StatusCode::canonical_reason` of a redirect. -/
def canonicalReason : ℕ → Option String
  | 300 => some "Multiple Choices"
  | 301 => some "Moved Permanently"
  | 302 => some "Found"
  | 303 => some "See Other"
  | 304 => some "Not Modified"
  | 305 => some "Use Proxy"
  | 307 => some "Temporary Redirect"
  | 308 => some "Permanent Redirect"
  | _ => none

/-- A redirect as `StatusCode` prints it. -/
def displayStatus (status : ℕ) : String :=
  toString status ++ " " ++ (canonicalReason status).getD "<unknown status code>"

/-- `proxy_streamed` once the headers are there, or are not. -/
def streamedAnswer (x : Exchange) (guard : ProxyLogGuard) (logged : List ProxyEvent)
    (now : Instant) : Execute → ProxiedRequest
  | .failed e => close (withError guard e) {} "502" now logged
  | .timedOut => close (withError guard "upstream request timed out") {} "408" now logged
  | .response status script =>
    if isRedirection status then
      close (withError guard ("upstream returned redirect " ++ displayStatus status)) {} "502" now logged
    else if isSuccess status then
      -- the stream logs from here on
      let logged := guard.suppressDropLog.drop now logged
      ⟨.streaming (openStream x.settings x.upstream x.modelName guard.event x.start now script),logged⟩
    else ⟨.errorBody guard status,logged⟩

/-- `proxy_streamed` once the body of an error response is there. -/
def streamedError (guard : ProxyLogGuard) (status : ℕ) (logged : List ProxyEvent) (now : Instant) :
    Option String → ProxiedRequest
  | none => ⟨.closed,guard.drop now logged⟩
  | some body => close (withError guard (truncateBody body)) {} (toString status) now logged

/-- The error branch of `proxy_request`. -/
def plainError (guard : ProxyLogGuard) (e : AitError) (logged : List ProxyEvent) (now : Instant) :
    ProxiedRequest :=
  close (withError guard (e.detail.getD e.message)) {} (toString e.code) now logged

/-- `proxy_non_streamed` once the headers are there, or are not. -/
def plainAnswer (x : Exchange) (guard : ProxyLogGuard) (logged : List ProxyEvent) (now : Instant) :
    Execute → ProxiedRequest
  | .failed _ => plainError guard (.upstreamError 502 "upstream request failed") logged now
  | .timedOut => plainError guard (.upstreamError 408 "upstream request timed out") logged now
  | .response status _ =>
    if isRedirection status then plainError guard redirectError logged now
    else ⟨.plainBody guard status (millisSince x.start now) [],logged⟩

/-- The response body of a request that was not streamed, the usage found in it, and its size. -/
def plainResponse (x : Exchange) (bytes : Bytes) : Bytes × UsageTokens × ℕ :=
  let body := x.upstream.transformResponse x.json bytes x.modelName
  (body,parseUsage x.json body,bytes.length)

def maxBody (settings : SseSettings) : ℕ :=
  if settings.maxResponseBodyBytes = 0 then 2^64-1 else settings.maxResponseBodyBytes

/-- The read loop of `proxy_non_streamed`, and what `proxy_request` makes of its result. -/
def plainRead (x : Exchange) (guard : ProxyLogGuard) (status ttfb : ℕ) (body : Bytes)
    (logged : List ProxyEvent) (now : Instant) : BodyRead → ProxiedRequest
  | .chunk bytes =>
    if min (body.length+bytes.length) (2^64-1) > maxBody x.settings then
      plainError guard (.upstreamError 502 "upstream response too large") logged now
    else ⟨.plainBody guard status ttfb (body ++ bytes),logged⟩
  | .error => plainError guard (.upstreamError 502 "upstream response too large") logged now
  | .timedOut => plainError guard (.upstreamError 408 "upstream read timeout") logged now
  | .finished =>
    if isSuccess status then
      let (_,usage,size) := plainResponse x body
      let event := { guard.event with
        timeToFirstTokenMs := some ttfb
        responseBodySize := some size }
      close { guard with event := event } usage "200" now logged
    else
      let e := AitError.upstreamError status "upstream request failed"
      plainError guard { e with detail := some (truncateBody (fromUtf8Lossy body)) } logged now

def step (x : Exchange) (w : ProxiedRequest) (op : Op) : Option ProxiedRequest :=
  match w.stage,op with
  | .headers guard, .execute outcome now => some (streamedAnswer x guard w.logged now outcome)
  | .headers guard, .drop now => some ⟨.closed,guard.drop now w.logged⟩
  | .errorBody guard status, .text body now => some (streamedError guard status w.logged now body)
  | .errorBody guard _, .drop now => some ⟨.closed,guard.drop now w.logged⟩
  | .streaming stream, .poll now cancelled =>
    let (_,stream) := stream.pollNext x.json now cancelled
    some ⟨.streaming stream,w.logged⟩
  | .streaming stream, .drop now => some ⟨.closed,w.logged ++ (stream.dropStream now).logged⟩
  | .plainHeaders guard, .execute outcome now => some (plainAnswer x guard w.logged now outcome)
  | .plainHeaders guard, .drop now => some ⟨.closed,guard.drop now w.logged⟩
  | .plainBody guard status ttfb body, .read outcome now =>
    some (plainRead x guard status ttfb body w.logged now outcome)
  | .plainBody guard _ _ _, .drop now => some ⟨.closed,guard.drop now w.logged⟩
  | _, _ => none

/-- The event a request is logged with, as far as it is known before the answer. -/
def pendingEvent (promptTokens : Option ℤ) (status : String) : ProxyEvent where
  promptTokens := promptTokens
  completionTokens := none
  totalTokens := none
  cachedTokens := none
  latencyMs := 0
  status := status
  timeToFirstTokenMs := none
  responseBodySize := none
  errorMessage := none

/-- A request whose guard was just created, in the branch for streams or in the other. -/
def begin (x : Exchange) (stream : Bool) (promptTokens : Option ℤ) : ProxiedRequest :=
  if stream then ⟨.headers (.new (pendingEvent promptTokens "200") x.start),[]⟩
  else ⟨.plainHeaders (.new (pendingEvent promptTokens "pending") x.start),[]⟩

end ProxiedRequest
end Ait
