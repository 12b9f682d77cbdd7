import Ait.ClientIp
import Ait.OneLog

/-!
# What the client is answered

`proxy_non_streamed` and `proxy_streamed` as functions of all that upstream does with a
request: the response the client gets, or the error it is told. `handlerOps` are the
steps of the same handler as a `ProxiedRequest`, which tell what is logged.
-/

namespace Ait
open Transition SseTransformStream

structure StatusCode where
  code : ℕ
  valid : 100 ≤ code ∧ code < 1000
  deriving DecidableEq

/-- Header names come in lower case. -/
structure HeaderName where
  text : String
  lower : text.toLower = text
  deriving DecidableEq

/-- The pairs of a header map in the order it lists them. -/
abbrev HeaderMap := List (HeaderName × HeaderValue)

namespace HeaderMap

def insert (m : HeaderMap) (name : HeaderName) (value : HeaderValue) : HeaderMap :=
  m.filter (fun h => h.1 ≠ name) ++ [(name,value)]

def append (m : HeaderMap) (name : HeaderName) (value : HeaderValue) : HeaderMap :=
  m ++ [(name,value)]

end HeaderMap

/-- What upstream may tell the client: `x-` headers but for the path a request took and for
credentials, and `retry-after`. -/
def isForwardableUpstreamHeader (name : HeaderName) : Bool :=
  let lower := name.text.toLower
  if !lower.startsWith "x-" then lower == "retry-after"
  else !lower.startsWith "x-forwarded-" &&
    !(["x-real-ip","x-api-key","x-api-token","x-auth-token","x-authorization"].contains lower)

def collectXHeaders (headers : HeaderMap) : HeaderMap :=
  headers.filter fun h => isForwardableUpstreamHeader h.1

def contentType : HeaderName := ⟨"content-type",by decide +kernel⟩

def cacheControl : HeaderName := ⟨"cache-control",by decide +kernel⟩

def applicationJson : HeaderValue := ⟨utf8 "application/json",by decide +kernel⟩

def eventStream : HeaderValue := ⟨utf8 "text/event-stream",by decide +kernel⟩

def noCache : HeaderValue := ⟨utf8 "no-cache",by decide +kernel⟩

/-- How the body of a response ends: with its last chunk, with the timeout, or with an error. -/
inductive BodyEnd
  | finished
  | timedOut
  | failed
  deriving DecidableEq

structure UpstreamResponse where
  status : StatusCode
  headers : HeaderMap
  chunks : List Bytes
  ending : BodyEnd

inductive Upstream
  | unreachable (e : String)
  | silent
  | response (r : UpstreamResponse)

/-- There is no response, or one that reports something else than success. -/
def Upstream.Fails : Upstream → Prop
  | .response r => ¬isSuccess r.status.code = true
  | _ => True

def UpstreamResponse.script (r : UpstreamResponse) : List Inner :=
  r.chunks.map .chunk ++
    match r.ending with
    | .finished => []
    | .timedOut => [.pending]
    | .failed => [.error "body read error"]

/-- `AitError::status_code`. -/
def AitError.statusCode (e : AitError) : ℕ :=
  if 100 ≤ e.code ∧ e.code < 1000 then e.code else 500

inductive ReplyBody
  | bytes (b : Bytes)
  | stream (s : SseTransformStream)
  | error (e : AitError)

structure Reply where
  status : ℕ
  headers : HeaderMap
  body : ReplyBody

/-- `AitError::into_response`. -/
def AitError.reply (e : AitError) : Reply :=
  ⟨e.statusCode,[(contentType,applicationJson)],.error e⟩

/-- The read loop of `proxy_non_streamed` under its timeout. -/
def collectBody (maxBody : ℕ) (body : Bytes) : List Bytes → BodyEnd → Except AitError Bytes
  | [], .finished => .ok body
  | [], .timedOut => .error (.upstreamError 408 "upstream read timeout")
  | [], .failed => .error (.upstreamError 502 "upstream response too large")
  | chunk::rest, ending =>
    if min (body.length+chunk.length) (2^64-1) > maxBody then
      .error (.upstreamError 502 "upstream response too large")
    else collectBody maxBody (body ++ chunk) rest ending

/-- The response, the usage found in it, the time to the first byte and the size of the body. -/
def proxyNonStreamed (x : Exchange) (answered : Instant) :
    Upstream → Except AitError (Reply × UsageTokens × ℕ × ℕ)
  | .unreachable _ => .error (.upstreamError 502 "upstream request failed")
  | .silent => .error (.upstreamError 408 "upstream request timed out")
  | .response r =>
    if isRedirection r.status.code then .error redirectError
    else
      let headers := (collectXHeaders r.headers).foldl (fun m h => HeaderMap.insert m h.1 h.2)
        [(contentType,applicationJson)]
      match collectBody (ProxiedRequest.maxBody x.settings) [] r.chunks r.ending with
      | .error e => .error e
      | .ok bytes =>
        if !isSuccess r.status.code then
          let e := AitError.upstreamError r.status.code "upstream request failed"
          .error { e with detail := some (truncateBody (fromUtf8Lossy bytes)) }
        else
          let (body,usage,size) := ProxiedRequest.plainResponse x bytes
          .ok (⟨200,headers,.bytes body⟩,usage,millisSince x.start answered,size)

def proxyStreamed (x : Exchange) (event : ProxyEvent) (answered : Instant) :
    Upstream → Except AitError Reply
  | .unreachable _ => .error (.upstreamError 502 "upstream request failed")
  | .silent => .error (.upstreamError 408 "upstream request timed out")
  | .response r =>
    if isRedirection r.status.code then .error redirectError
    else if !isSuccess r.status.code then
      if r.ending = .timedOut then .error (.upstreamError 408 "upstream read timeout")
      else .error (.upstreamError r.status.code "upstream request failed")
    else
      let headers := (collectXHeaders r.headers).foldl (fun m h => HeaderMap.append m h.1 h.2)
        [(contentType,eventStream),(cacheControl,noCache)]
      .ok ⟨200,headers,
        .stream (openStream x.settings x.upstream x.modelName event x.start answered r.script)⟩

/-- The end of `proxy_request`, in the branch for streams or in the other. -/
def proxyReply (x : Exchange) (stream : Bool) (promptTokens : Option ℤ) (answered : Instant)
    (u : Upstream) : Reply :=
  if stream then
    match proxyStreamed x (ProxiedRequest.pendingEvent promptTokens "200") answered u with
    | .ok reply => reply
    | .error e => e.reply
  else
    match proxyNonStreamed x answered u with
    | .ok (reply,_) => reply
    | .error e => e.reply

theorem not_redirection {status : ℕ} (h : isSuccess status = true) :
    ¬isRedirection status = true := by
  simp only [isSuccess,isRedirection,Bool.and_eq_true,decide_eq_true_eq] at h ⊢
  omega

section Replies

variable {x : Exchange} {promptTokens : Option ℤ} {now : Instant} {r : UpstreamResponse}

@[simp] theorem proxyReply_redirect (stream : Bool) (h : isRedirection r.status.code = true) :
    proxyReply x stream promptTokens now (.response r) = redirectError.reply := by
  cases stream with
  | true => simp only [proxyReply,proxyStreamed,h,if_true]
  | false => simp only [proxyReply,proxyNonStreamed,h,if_true,Bool.false_eq_true,if_false]

theorem proxyReply_streamed (h : isSuccess r.status.code = true) :
    proxyReply x true promptTokens now (.response r) =
      ⟨200,(collectXHeaders r.headers).foldl (fun m h => HeaderMap.append m h.1 h.2)
        [(contentType,eventStream),(cacheControl,noCache)],
        .stream (openStream x.settings x.upstream x.modelName
          (ProxiedRequest.pendingEvent promptTokens "200") x.start now r.script)⟩ := by
  simp only [proxyReply,proxyStreamed,not_redirection h,h,if_true,Bool.not_true,
    Bool.false_eq_true,if_false]

theorem proxyReply_streamed_failed (hredirect : ¬isRedirection r.status.code = true)
    (hfails : ¬isSuccess r.status.code = true) :
    proxyReply x true promptTokens now (.response r) =
      if r.ending = .timedOut then (AitError.upstreamError 408 "upstream read timeout").reply
      else (AitError.upstreamError r.status.code "upstream request failed").reply := by
  by_cases hending : r.ending = .timedOut
  · simp only [proxyReply,proxyStreamed,hredirect,hfails,hending,if_true,Bool.not_false,
      Bool.false_eq_true,if_false]
  · simp only [proxyReply,proxyStreamed,hredirect,hfails,hending,if_true,Bool.not_false,
      Bool.false_eq_true,if_false]

theorem proxyReply_unread {e : AitError} (hredirect : ¬isRedirection r.status.code = true)
    (hbody : collectBody (ProxiedRequest.maxBody x.settings) [] r.chunks r.ending = .error e) :
    proxyReply x false promptTokens now (.response r) = e.reply := by
  simp only [proxyReply,proxyNonStreamed,hredirect,hbody,Bool.false_eq_true,if_false]

theorem proxyReply_failed {bytes : Bytes} (hredirect : ¬isRedirection r.status.code = true)
    (hfails : ¬isSuccess r.status.code = true)
    (hbody : collectBody (ProxiedRequest.maxBody x.settings) [] r.chunks r.ending = .ok bytes) :
    proxyReply x false promptTokens now (.response r) =
      AitError.reply { AitError.upstreamError r.status.code "upstream request failed" with
        detail := some (truncateBody (fromUtf8Lossy bytes)) } := by
  simp only [proxyReply,proxyNonStreamed,hredirect,hfails,hbody,Bool.not_false,if_true,
    Bool.false_eq_true,if_false]

theorem proxyReply_plain {bytes : Bytes} (h : isSuccess r.status.code = true)
    (hbody : collectBody (ProxiedRequest.maxBody x.settings) [] r.chunks r.ending = .ok bytes) :
    proxyReply x false promptTokens now (.response r) =
      ⟨200,(collectXHeaders r.headers).foldl (fun m h => HeaderMap.insert m h.1 h.2)
        [(contentType,applicationJson)],.bytes (ProxiedRequest.plainResponse x bytes).1⟩ := by
  simp only [proxyReply,proxyNonStreamed,not_redirection h,h,hbody,Bool.not_true,
    Bool.false_eq_true,if_false]

end Replies

def BodyEnd.read : BodyEnd → BodyRead
  | .finished => .finished
  | .timedOut => .timedOut
  | .failed => .error

/-- What `response.text()` gives, in whatever charset the library decodes; a body that cannot be
read counts as empty. -/
def UpstreamResponse.text (decode : Bytes → String) (r : UpstreamResponse) : Option String :=
  match r.ending with
  | .finished => some (decode r.chunks.flatten)
  | .timedOut => none
  | .failed => some ""

namespace ProxiedRequest

/-- The steps of the read loop from its `n`-th on, with `held` bytes read; a refused chunk is the
last step. -/
def readOps (maxBody : ℕ) (clock : ℕ → Instant) : ℕ → ℕ → List Bytes → BodyEnd → List Op
  | n, _, [], ending => [.read ending.read (clock n)]
  | n, held, chunk::rest, ending =>
    .read (.chunk chunk) (clock n)::
      if min (held+chunk.length) (2^64-1) > maxBody then []
      else readOps maxBody clock (n+1) (held+chunk.length) rest ending

def handlerOps (x : Exchange) (stream : Bool) (decode : Bytes → String) (clock : ℕ → Instant) :
    Upstream → List Op
  | .unreachable e => [.execute (.failed e) (clock 0)]
  | .silent => [.execute .timedOut (clock 0)]
  | .response r =>
    .execute (.response r.status.code r.script) (clock 0)::
      if isRedirection r.status.code then []
      else if stream then
        if isSuccess r.status.code then [] else [.text (r.text decode) (clock 1)]
      else readOps (maxBody x.settings) clock 1 0 r.chunks r.ending

def LoggedAs (w : ProxiedRequest) (status : String) : Prop :=
  w.Finished ∧ ∃ e, w.events = [e] ∧ e.status = status

theorem LoggedAs.unique {w : ProxiedRequest} {status status' : String} (h : w.LoggedAs status)
    (h' : w.LoggedAs status') : status = status' := by
  obtain ⟨-,e,he,rfl⟩ := h
  obtain ⟨-,e',he',rfl⟩ := h'
  rw [List.singleton_inj.mp (he.symm.trans he')]

section Runs

theorem close_logged (guard : ProxyLogGuard) (usage : UsageTokens) (status : String)
    (now : Instant) : (close guard usage status now []).LoggedAs status :=
  ⟨trivial,_,rfl,rfl⟩

theorem plainError_logged (guard : ProxyLogGuard) (e : AitError) (now : Instant) :
    (plainError guard e [] now).LoggedAs (toString e.code) :=
  close_logged _ _ _ _

def plainEnd (x : Exchange) (guard : ProxyLogGuard) (status ttfb : ℕ) (now : Instant) :
    Except AitError Bytes → ProxiedRequest
  | .error e => plainError guard e [] now
  | .ok bytes => plainRead x guard status ttfb bytes [] now .finished

/-- The read loop ends with the error it is told, or with the whole body. -/
theorem readOps_run (x : Exchange) (guard : ProxyLogGuard) (status ttfb : ℕ)
    (clock : ℕ → Instant) (chunks : List Bytes) (ending : BodyEnd) (n : ℕ) (body : Bytes) :
    ∃ now, exec (step x) ⟨.plainBody guard status ttfb body,[]⟩
        (readOps (maxBody x.settings) clock n body.length chunks ending) =
      some (plainEnd x guard status ttfb now (collectBody (maxBody x.settings) body chunks ending))
      := by
  induction chunks generalizing n body with
  | nil => exact ⟨clock n,by cases ending <;> rfl⟩
  | cons chunk rest ih =>
    by_cases hover : min (body.length+chunk.length) (2^64-1) > maxBody x.settings
    · refine ⟨clock n,?_⟩
      simp only [readOps,collectBody,if_pos hover,exec,step,plainRead,Option.bind_some,plainEnd]
    · obtain ⟨now,hrun⟩ := ih (n+1) (body ++ chunk)
      refine ⟨now,?_⟩
      rw [List.length_append] at hrun
      simp only [readOps,collectBody,if_neg hover,exec,step,plainRead,Option.bind_some]
      exact hrun

def answerStatus {α : Type} : Except AitError α → String
  | .error e => toString e.code
  | .ok _ => "200"

theorem plain_answer_run (x : Exchange) (promptTokens : Option ℤ) (decode : Bytes → String)
    (clock : ℕ → Instant) (u : Upstream) :
    ∃ w, exec (step x) (begin x false promptTokens) (handlerOps x false decode clock u) = some w ∧
      w.LoggedAs (answerStatus (proxyNonStreamed x (clock 0) u)) := by
  cases u with
  | unreachable e => exact ⟨_,rfl,plainError_logged _ _ _⟩
  | silent => exact ⟨_,rfl,plainError_logged _ _ _⟩
  | response r =>
    by_cases hredirect : isRedirection r.status.code = true
    · have hanswer : proxyNonStreamed x (clock 0) (.response r) = .error redirectError := by
        simp only [proxyNonStreamed,hredirect,if_true]
      have hrun : exec (step x) (begin x false promptTokens)
          (handlerOps x false decode clock (.response r)) =
          some (plainError (.new (pendingEvent promptTokens "pending") x.start) redirectError []
            (clock 0)) := by
        simp only [handlerOps,begin,exec,step,plainAnswer,hredirect,if_true,Option.bind_some,
          Bool.false_eq_true,if_false]
      rw [hanswer]
      exact ⟨_,hrun,plainError_logged _ _ _⟩
    · obtain ⟨now,hread⟩ := readOps_run x (.new (pendingEvent promptTokens "pending") x.start)
        r.status.code (millisSince x.start (clock 0)) clock r.chunks r.ending 1 []
      have hops : exec (step x) (begin x false promptTokens)
          (handlerOps x false decode clock (.response r)) =
          exec (step x) ⟨.plainBody (.new (pendingEvent promptTokens "pending") x.start)
            r.status.code (millisSince x.start (clock 0)) [],[]⟩
            (readOps (maxBody x.settings) clock 1 0 r.chunks r.ending) := by
        simp only [handlerOps,begin,exec,step,plainAnswer,hredirect,Option.bind_some,
          Bool.false_eq_true,if_false]
      refine ⟨_,hops.trans hread,?_⟩
      simp only [proxyNonStreamed,hredirect,Bool.false_eq_true,if_false]
      cases collectBody (maxBody x.settings) [] r.chunks r.ending with
      | error e => exact plainError_logged _ _ _
      | ok bytes =>
        by_cases hsuccess : isSuccess r.status.code = true
        · simp only [plainEnd,plainRead,hsuccess,if_true,Bool.not_true,Bool.false_eq_true,if_false]
          exact close_logged _ _ _ _
        · simp only [plainEnd,plainRead,hsuccess,Bool.not_false,if_true,Bool.false_eq_true,if_false]
          exact plainError_logged _ _ _

/-- The status a failed request is logged under in the branch for streams. A body that times out
leaves it to the guard. -/
def streamedStatus : Upstream → String
  | .unreachable _ => "502"
  | .silent => "408"
  | .response r =>
    if isRedirection r.status.code then "502"
    else if r.ending = .timedOut then "499"
    else toString r.status.code

theorem streamed_error_run (x : Exchange) (promptTokens : Option ℤ) (decode : Bytes → String)
    (clock : ℕ → Instant) {u : Upstream} (hfails : u.Fails) :
    ∃ w, exec (step x) (begin x true promptTokens) (handlerOps x true decode clock u) = some w ∧
      w.LoggedAs (streamedStatus u) := by
  cases u with
  | unreachable e => exact ⟨_,rfl,close_logged _ _ _ _⟩
  | silent => exact ⟨_,rfl,close_logged _ _ _ _⟩
  | response r =>
    have hsuccess : ¬isSuccess r.status.code = true := hfails
    unfold streamedStatus handlerOps
    by_cases hredirect : isRedirection r.status.code = true
    · simp only [begin,exec,step,streamedAnswer,hredirect,if_true,Option.bind_some]
      exact ⟨_,rfl,close_logged _ _ _ _⟩
    · simp only [begin,exec,step,streamedAnswer,hredirect,hsuccess,if_true,Option.bind_some,
        Bool.false_eq_true,if_false]
      cases hending : r.ending with
      | finished =>
        simp only [UpstreamResponse.text,hending,streamedError,reduceCtorEq,if_false]
        exact ⟨_,rfl,close_logged _ _ _ _⟩
      | timedOut =>
        simp only [UpstreamResponse.text,hending,streamedError,if_true]
        exact ⟨_,rfl,trivial,_,rfl,rfl⟩
      | failed =>
        simp only [UpstreamResponse.text,hending,streamedError,reduceCtorEq,if_false]
        exact ⟨_,rfl,close_logged _ _ _ _⟩

end Runs
end ProxiedRequest
end Ait
