import Ait.ErrorAnswers

/-!
# Which headers reach the client

The client gets upstream's forwardable headers only with a response that succeeds; and
where the header map is filled by `insert`, only the last of each name.
-/

namespace Ait
open Transition SseTransformStream

def xRequestId : HeaderName := ⟨"x-request-id",by decide +kernel⟩

/-- Ait overwrites `x-request-id`. -/
def withoutRequestId (m : HeaderMap) : HeaderMap := m.filter fun h => h.1 ≠ xRequestId

def ownHeaders (stream success : Bool) : HeaderMap :=
  if stream && success then [(contentType,eventStream),(cacheControl,noCache)]
  else [(contentType,applicationJson)]

/-- The client gets Ait's own headers and the forwardable pairs of upstream's, each as often as
upstream sent it. -/
def Reply.Relays (reply : Reply) (own headers : HeaderMap) : Prop :=
  (withoutRequestId reply.headers).Perm (own ++ withoutRequestId (collectXHeaders headers))

namespace HeaderMap

variable {m added : HeaderMap} {name : HeaderName} {value : HeaderValue}

def Distinct (m : HeaderMap) : Prop := (m.map Prod.fst).Nodup

@[simp] theorem foldl_append (m added : HeaderMap) :
    added.foldl (fun m h => HeaderMap.append m h.1 h.2) m = m ++ added := by
  induction added generalizing m with
  | nil => simp
  | cons h added ih =>
    rw [List.foldl_cons,ih,HeaderMap.append,List.append_assoc]
    rfl

theorem Distinct.insert (hm : Distinct m) (name : HeaderName) (value : HeaderValue) :
    Distinct (HeaderMap.insert m name value) := by
  have hfilter : Distinct (m.filter fun h => h.1 ≠ name) :=
    hm.sublist (List.filter_sublist.map Prod.fst)
  unfold Distinct HeaderMap.insert
  rw [List.map_append,List.nodup_append]
  refine ⟨hfilter,List.nodup_singleton _,?_⟩
  rintro a ha b hb rfl
  obtain ⟨h,hmem,rfl⟩ := List.mem_map.mp ha
  have hname : h.1 = name := List.mem_singleton.mp hb
  simp [hname] at hmem

theorem Distinct.foldl_insert (hm : Distinct m) (added : HeaderMap) :
    Distinct (added.foldl (fun m h => HeaderMap.insert m h.1 h.2) m) := by
  induction added generalizing m with
  | nil => exact hm
  | cons h added ih => exact ih (hm.insert h.1 h.2)

@[simp] theorem foldl_insert_distinct (h : Distinct (m ++ added)) :
    added.foldl (fun m h => HeaderMap.insert m h.1 h.2) m = m ++ added := by
  induction added generalizing m with
  | nil => simp
  | cons f added ih =>
    have hnew : HeaderMap.insert m f.1 f.2 = m ++ [f] := by
      unfold HeaderMap.insert
      rw [List.filter_eq_self.mpr]
      intro g hg
      have hnodup := h
      rw [Distinct,List.map_append,List.nodup_append] at hnodup
      simpa using hnodup.2.2 g.1 (List.mem_map_of_mem hg) f.1 (by simp)
    rw [List.foldl_cons,hnew,ih (by simpa using h),List.append_assoc]
    rfl

@[simp] theorem withoutRequestId_insert (m : HeaderMap) (name : HeaderName) (value : HeaderValue) :
    withoutRequestId (HeaderMap.insert m name value) =
      if name = xRequestId then withoutRequestId m
      else HeaderMap.insert (withoutRequestId m) name value := by
  unfold withoutRequestId HeaderMap.insert
  rw [List.filter_append,List.filter_filter,List.filter_filter]
  by_cases hname : name = xRequestId
  · simp [hname]
  · simp [hname,Bool.and_comm]

@[simp] theorem withoutRequestId_foldl_insert (m added : HeaderMap) :
    withoutRequestId (added.foldl (fun m h => HeaderMap.insert m h.1 h.2) m) =
      (withoutRequestId added).foldl (fun m h => HeaderMap.insert m h.1 h.2)
        (withoutRequestId m) := by
  induction added generalizing m with
  | nil => rfl
  | cons h added ih =>
    rw [List.foldl_cons,ih,withoutRequestId_insert]
    by_cases hname : h.1 = xRequestId
    · simp [withoutRequestId,hname]
    · simp [withoutRequestId,hname]

theorem foldl_insert_perm_iff (hm : Distinct m) (hnew : ∀ f ∈ m, ∀ g ∈ added, f.1 ≠ g.1) :
    (added.foldl (fun m h => HeaderMap.insert m h.1 h.2) m).Perm (m ++ added) ↔ Distinct added := by
  constructor
  · intro hperm
    have hdistinct : Distinct (m ++ added) :=
      (hperm.map Prod.fst).nodup_iff.mp (hm.foldl_insert added)
    rw [Distinct,List.map_append,List.nodup_append] at hdistinct
    exact hdistinct.2.1
  · intro hadded
    rw [foldl_insert_distinct]
    rw [Distinct,List.map_append,List.nodup_append]
    refine ⟨hm,hadded,?_⟩
    rintro a ha b hb
    obtain ⟨f,hf,rfl⟩ := List.mem_map.mp ha
    obtain ⟨g,hg,rfl⟩ := List.mem_map.mp hb
    exact hnew f hf g hg

end HeaderMap

section Relay

variable {headers : HeaderMap} {r : UpstreamResponse} {x : Exchange} {now : Instant}

theorem AitError.reply_relays_iff (e : AitError) (headers : HeaderMap) :
    e.reply.Relays [(contentType,applicationJson)] headers ↔
      withoutRequestId (collectXHeaders headers) = [] := by
  have hown : withoutRequestId e.reply.headers = [(contentType,applicationJson)] := by
    simp [AitError.reply,withoutRequestId,contentType,xRequestId]
  unfold Reply.Relays
  rw [hown]
  constructor
  · intro hperm
    have hlength := hperm.length_eq
    simpa using hlength
  · intro hnil
    rw [hnil]
    exact List.Perm.refl _

theorem mem_relayed {h : HeaderName × HeaderValue}
    (hmem : h ∈ withoutRequestId (collectXHeaders headers)) :
    isForwardableUpstreamHeader h.1 = true :=
  (List.mem_filter.mp (List.mem_of_mem_filter hmem)).2

theorem inserted_relays_iff (headers : HeaderMap) (body : ReplyBody) :
    Reply.Relays ⟨200,(collectXHeaders headers).foldl (fun m h => HeaderMap.insert m h.1 h.2)
        [(contentType,applicationJson)],body⟩ [(contentType,applicationJson)] headers ↔
      HeaderMap.Distinct (withoutRequestId (collectXHeaders headers)) := by
  have hown : withoutRequestId [(contentType,applicationJson)] = [(contentType,applicationJson)] := by
    simp [withoutRequestId,contentType,xRequestId]
  unfold Reply.Relays
  rw [HeaderMap.withoutRequestId_foldl_insert,hown]
  refine HeaderMap.foldl_insert_perm_iff (List.nodup_singleton _) fun f hf g hg heq => ?_
  have hforward := mem_relayed hg
  obtain rfl := List.mem_singleton.mp hf
  rw [← heq] at hforward
  exact absurd hforward (by decide +kernel)

theorem appended_relays (headers : HeaderMap) (body : ReplyBody) :
    Reply.Relays ⟨200,(collectXHeaders headers).foldl (fun m h => HeaderMap.append m h.1 h.2)
        [(contentType,eventStream),(cacheControl,noCache)],body⟩
      [(contentType,eventStream),(cacheControl,noCache)] headers := by
  have hown : withoutRequestId [(contentType,eventStream),(cacheControl,noCache)] =
      [(contentType,eventStream),(cacheControl,noCache)] := by
    simp [withoutRequestId,contentType,cacheControl,xRequestId]
  unfold Reply.Relays
  rw [HeaderMap.foldl_append]
  simp only [withoutRequestId,List.filter_append] at hown ⊢
  rw [hown]

theorem failed_reply (x : Exchange) (stream : Bool) (promptTokens : Option ℤ) (now : Instant)
    (hfails : ¬isSuccess r.status.code = true) :
    ∃ e : AitError, proxyReply x stream promptTokens now (.response r) = e.reply := by
  by_cases hredirect : isRedirection r.status.code = true
  · exact ⟨_,proxyReply_redirect stream hredirect⟩
  · cases stream with
    | true =>
      rw [proxyReply_streamed_failed hredirect hfails]
      split
      · exact ⟨_,rfl⟩
      · exact ⟨_,rfl⟩
    | false =>
      cases hbody : collectBody (ProxiedRequest.maxBody x.settings) [] r.chunks r.ending with
      | error e => exact ⟨e,proxyReply_unread hredirect hbody⟩
      | ok bytes => exact ⟨_,proxyReply_failed hredirect hfails hbody⟩

/-- A body that is not complete or not within the cap is answered with an error. -/
theorem unread_reply (promptTokens : Option ℤ) (now : Instant)
    (hsuccess : isSuccess r.status.code = true)
    (hbody : ¬(r.ending = .finished ∧ FitsCap x.settings r.chunks.flatten.length)) :
    ∃ e : AitError, proxyReply x false promptTokens now (.response r) = e.reply := by
  have hcollect : ∃ e, collectBody (ProxiedRequest.maxBody x.settings) [] r.chunks r.ending =
      .error e := by
    by_cases hfits : FitsCap x.settings r.chunks.flatten.length
    · rw [collectBody_fits hfits]
      cases hending : r.ending with
      | finished => exact absurd ⟨hending,hfits⟩ hbody
      | timedOut => exact ⟨_,rfl⟩
      | failed => exact ⟨_,rfl⟩
    · exact ⟨_,collectBody_over hfits⟩
  obtain ⟨e,he⟩ := hcollect
  exact ⟨e,proxyReply_unread (not_redirection hsuccess) he⟩

end Relay

/-- The client gets all of upstream's forwardable headers exactly when there are none, or the
response succeeds and, where it is not a stream, has a body within the cap and no name twice. -/
theorem relays_iff (x : Exchange) (stream : Bool) (promptTokens : Option ℤ) (now : Instant)
    (r : UpstreamResponse) :
    (proxyReply x stream promptTokens now (.response r)).Relays
        (ownHeaders stream (isSuccess r.status.code)) r.headers ↔
      withoutRequestId (collectXHeaders r.headers) = [] ∨
        isSuccess r.status.code = true ∧ (stream = true ∨
          r.ending = .finished ∧ FitsCap x.settings r.chunks.flatten.length ∧
            HeaderMap.Distinct (withoutRequestId (collectXHeaders r.headers))) := by
  by_cases hsuccess : isSuccess r.status.code = true
  · cases stream with
    | true =>
      rw [proxyReply_streamed hsuccess]
      simp only [ownHeaders,hsuccess,if_true,Bool.and_self,true_or,and_self,or_true,iff_true]
      exact appended_relays r.headers _
    | false =>
      by_cases hbody : r.ending = .finished ∧ FitsCap x.settings r.chunks.flatten.length
      · obtain ⟨hending,hfits⟩ := hbody
        have hiff := inserted_relays_iff r.headers
          (.bytes (ProxiedRequest.plainResponse x r.chunks.flatten).1)
        rw [proxyReply_plain hsuccess (collectBody_finished hfits hending)]
        simp only [ownHeaders,Bool.false_and,Bool.false_eq_true,if_false,false_or,true_and,hfits,
          hending,hsuccess]
        rw [hiff]
        refine ⟨.inr,fun h => h.elim (fun hnil => ?_) id⟩
        rw [hnil]
        exact List.nodup_nil
      · obtain ⟨e,he⟩ := unread_reply promptTokens now hsuccess hbody
        have hno : ¬(r.ending = .finished ∧ FitsCap x.settings r.chunks.flatten.length ∧
            HeaderMap.Distinct (withoutRequestId (collectXHeaders r.headers))) :=
          fun h => hbody ⟨h.1,h.2.1⟩
        rw [he]
        simp only [ownHeaders,Bool.false_and,Bool.false_eq_true,if_false,hno,and_false,or_false]
        exact e.reply_relays_iff r.headers
  · obtain ⟨e,he⟩ := failed_reply x stream promptTokens now hsuccess
    rw [he]
    simp only [ownHeaders,hsuccess,Bool.and_false,Bool.false_eq_true,if_false,false_and,or_false]
    exact e.reply_relays_iff r.headers

def retryAfter : HeaderName := ⟨"retry-after",by decide +kernel⟩

/-- A 429 loses its `retry-after` in both branches, and of two values of a name a response that is
no stream keeps one. -/
theorem retry_after_dropped :
    let limited : UpstreamResponse :=
      ⟨⟨429,by decide⟩,[(retryAfter,⟨utf8 "60",by decide +kernel⟩)],[],.finished⟩
    let twice : UpstreamResponse :=
      ⟨⟨200,by decide⟩,[(retryAfter,⟨utf8 "60",by decide +kernel⟩),
        (retryAfter,⟨utf8 "61",by decide +kernel⟩)],[],.finished⟩
    ¬(proxyReply demoExchange true none 1 (.response limited)).Relays (ownHeaders true false)
        limited.headers ∧
      ¬(proxyReply demoExchange false none 1 (.response limited)).Relays (ownHeaders false false)
        limited.headers ∧
      ¬(proxyReply demoExchange false none 1 (.response twice)).Relays (ownHeaders false true)
        twice.headers := by
  intro limited twice
  have hlimited : (withoutRequestId (collectXHeaders limited.headers)).length = 1 := by
    decide +kernel
  have htwice : (withoutRequestId (collectXHeaders twice.headers)).length = 2 := by decide +kernel
  have hsent : ∀ stream, (withoutRequestId
      (proxyReply demoExchange stream none 1 (.response limited)).headers).length = 1 := by
    decide +kernel
  have hkept : (withoutRequestId
      (proxyReply demoExchange false none 1 (.response twice)).headers).length = 2 := by
    decide +kernel
  refine ⟨fun h => ?_,fun h => ?_,fun h => ?_⟩
  · have hlength := h.length_eq
    rw [List.length_append,hlimited,hsent] at hlength
    cases hlength
  · have hlength := h.length_eq
    rw [List.length_append,hlimited,hsent] at hlength
    cases hlength
  · have hlength := h.length_eq
    rw [List.length_append,htwice,hkept] at hlength
    cases hlength

end Ait
