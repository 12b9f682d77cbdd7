import Ait.ProxyAnswer

/-!
# Failures told alike

When the two handlers tell the client the same about a failing upstream, and log what
they tell. They part over the body of an error response: one handler reads it under the
response cap and fails with it, the other reads all of it and forgives what it cannot
read, but for a timeout.
-/

namespace Ait
open Transition SseTransformStream

/-- The length of a body that passes the cap, as `usize` arithmetic that saturates sees it. -/
def FitsCap (settings : SseSettings) (length : ℕ) : Prop :=
  min length (2^64-1) ≤ ProxiedRequest.maxBody settings

/-- The body of an error response makes no difference: it is not read, or it ends in time and is
complete, or is replaced by the status the response has anyway. -/
def Upstream.Unaffected (settings : SseSettings) : Upstream → Prop
  | .response r =>
    isRedirection r.status.code = true ∨
      r.ending ≠ .timedOut ∧ (r.status.code = 502 ∨
        r.ending = .finished ∧ FitsCap settings r.chunks.flatten.length)
  | _ => True

/-- Both handlers log the status they answer with, and answer with the same one. -/
def FailsAlike (x : Exchange) (promptTokens : Option ℤ) (decode : Bytes → String)
    (clock : ℕ → Instant) (u : Upstream) : Prop :=
  (∀ stream, ∃ w, exec (ProxiedRequest.step x) (.begin x stream promptTokens)
      (ProxiedRequest.handlerOps x stream decode clock u) = some w ∧
    w.LoggedAs (toString (proxyReply x stream promptTokens (clock 0) u).status)) ∧
  (proxyReply x true promptTokens (clock 0) u).status =
    (proxyReply x false promptTokens (clock 0) u).status

section Body

variable {settings : SseSettings} {body : Bytes} {chunks : List Bytes} {ending : BodyEnd} {m : ℕ}

theorem collectBody_eq (h : min body.length (2^64-1) ≤ m) (chunks : List Bytes)
    (ending : BodyEnd) :
    collectBody m body chunks ending =
      if min (body.length+chunks.flatten.length) (2^64-1) ≤ m then
        collectBody m (body ++ chunks.flatten) [] ending
      else .error (.upstreamError 502 "upstream response too large") := by
  induction chunks generalizing body with
  | nil => simp only [List.flatten_nil,List.length_nil,List.append_nil,Nat.add_zero,if_pos h]
  | cons chunk rest ih =>
    rw [collectBody]
    by_cases hover : min (body.length+chunk.length) (2^64-1) > m
    · have htotal : ¬min (body.length+(chunk::rest).flatten.length) (2^64-1) ≤ m := by
        rw [List.flatten_cons,List.length_append]
        omega
      rw [if_pos hover,if_neg htotal]
    · rw [if_neg hover,ih (by rw [List.length_append]; omega)]
      simp only [List.flatten_cons,List.length_append,List.append_assoc,Nat.add_assoc]

@[simp] theorem collectBody_fits (h : FitsCap settings chunks.flatten.length) :
    collectBody (ProxiedRequest.maxBody settings) [] chunks ending =
      collectBody (ProxiedRequest.maxBody settings) chunks.flatten [] ending := by
  have hempty : min ([] : Bytes).length (2^64-1) ≤ ProxiedRequest.maxBody settings := by simp
  have hcap := collectBody_eq hempty chunks ending
  rw [List.length_nil,Nat.zero_add] at hcap
  exact hcap.trans (if_pos h)

@[simp] theorem collectBody_finished (h : FitsCap settings chunks.flatten.length)
    (hending : ending = .finished) :
    collectBody (ProxiedRequest.maxBody settings) [] chunks ending = .ok chunks.flatten := by
  subst hending
  exact collectBody_fits h

@[simp] theorem collectBody_over (h : ¬FitsCap settings chunks.flatten.length) :
    collectBody (ProxiedRequest.maxBody settings) [] chunks ending =
      .error (.upstreamError 502 "upstream response too large") := by
  have hempty : min ([] : Bytes).length (2^64-1) ≤ ProxiedRequest.maxBody settings := by simp
  have hcap := collectBody_eq hempty chunks ending
  rw [List.length_nil,Nat.zero_add] at hcap
  exact hcap.trans (if_neg h)

end Body

section Status

variable {x : Exchange} {u : Upstream} {now : Instant} {e : AitError}

@[simp] theorem AitError.statusCode_eq (h : 100 ≤ e.code ∧ e.code < 1000) : e.statusCode = e.code :=
  if_pos h

theorem collectBody_code {max : ℕ} {body : Bytes} {chunks : List Bytes} {ending : BodyEnd}
    (h : collectBody max body chunks ending = .error e) : e.code = 408 ∨ e.code = 502 := by
  induction chunks generalizing body with
  | nil =>
    cases ending with
    | finished => cases h
    | timedOut =>
      obtain rfl := Except.error.inj h
      exact .inl rfl
    | failed =>
      obtain rfl := Except.error.inj h
      exact .inr rfl
  | cons chunk rest ih =>
    rw [collectBody] at h
    split at h
    · obtain rfl := Except.error.inj h
      exact .inr rfl
    · exact ih h

theorem proxyNonStreamed_code (h : proxyNonStreamed x now u = .error e) :
    100 ≤ e.code ∧ e.code < 1000 := by
  cases u with
  | unreachable _ =>
    obtain rfl := Except.error.inj h
    exact ⟨by simp [AitError.upstreamError],by simp [AitError.upstreamError]⟩
  | silent =>
    obtain rfl := Except.error.inj h
    exact ⟨by simp [AitError.upstreamError],by simp [AitError.upstreamError]⟩
  | response r =>
    unfold proxyNonStreamed at h
    dsimp only at h
    split at h
    · obtain rfl := Except.error.inj h
      exact ⟨by simp [redirectError,AitError.upstreamError],
        by simp [redirectError,AitError.upstreamError]⟩
    · split at h
      · rename_i hbody
        obtain rfl := Except.error.inj h
        rcases collectBody_code hbody with h | h <;> omega
      · split at h
        · obtain rfl := Except.error.inj h
          exact r.status.valid
        · cases h

theorem proxyNonStreamed_ok {answer : Reply × UsageTokens × ℕ × ℕ}
    (h : proxyNonStreamed x now u = .ok answer) : answer.1.status = 200 := by
  cases u with
  | unreachable _ => cases h
  | silent => cases h
  | response r =>
    unfold proxyNonStreamed at h
    dsimp only at h
    split at h
    · cases h
    · split at h
      · cases h
      · split at h
        · cases h
        · obtain rfl := Except.ok.inj h
          rfl

theorem plain_status (x : Exchange) (promptTokens : Option ℤ) (now : Instant) (u : Upstream) :
    toString (proxyReply x false promptTokens now u).status =
      ProxiedRequest.answerStatus (proxyNonStreamed x now u) := by
  unfold proxyReply
  cases h : proxyNonStreamed x now u with
  | error e =>
    simp only [Bool.false_eq_true,if_false,AitError.reply,
      AitError.statusCode_eq (proxyNonStreamed_code h),ProxiedRequest.answerStatus]
  | ok answer =>
    simp only [Bool.false_eq_true,if_false,proxyNonStreamed_ok h,ProxiedRequest.answerStatus]
    rfl

end Status

theorem toString_502 : toString (502 : ℕ) = "502" := rfl

theorem toString_408 : toString (408 : ℕ) = "408" := rfl

section Response

variable {x : Exchange} {promptTokens : Option ℤ} {now : Instant} {r : UpstreamResponse}

theorem streamed_client (hfails : ¬isSuccess r.status.code = true)
    (hredirect : ¬isRedirection r.status.code = true) :
    (proxyReply x true promptTokens now (.response r)).status =
      if r.ending = .timedOut then 408 else r.status.code := by
  rw [proxyReply_streamed_failed hredirect hfails]
  by_cases hending : r.ending = .timedOut
  · rw [if_pos hending,if_pos hending]
    rfl
  · rw [if_neg hending,if_neg hending]
    exact AitError.statusCode_eq r.status.valid

theorem plain_client_over (hredirect : ¬isRedirection r.status.code = true)
    (hover : ¬FitsCap x.settings r.chunks.flatten.length) :
    (proxyReply x false promptTokens now (.response r)).status = 502 := by
  rw [proxyReply_unread hredirect (collectBody_over hover)]
  rfl

theorem plain_client_fits (hfails : ¬isSuccess r.status.code = true)
    (hredirect : ¬isRedirection r.status.code = true)
    (hfits : FitsCap x.settings r.chunks.flatten.length) :
    (proxyReply x false promptTokens now (.response r)).status =
      match r.ending with
      | .finished => r.status.code
      | .timedOut => 408
      | .failed => 502 := by
  cases hending : r.ending with
  | finished =>
    rw [proxyReply_failed hredirect hfails (collectBody_finished hfits hending)]
    exact AitError.statusCode_eq r.status.valid
  | timedOut =>
    have hread : collectBody (ProxiedRequest.maxBody x.settings) [] r.chunks r.ending =
        .error (.upstreamError 408 "upstream read timeout") := by
      rw [hending]
      exact collectBody_fits hfits
    rw [proxyReply_unread hredirect hread]
    rfl
  | failed =>
    have hread : collectBody (ProxiedRequest.maxBody x.settings) [] r.chunks r.ending =
        .error (.upstreamError 502 "upstream response too large") := by
      rw [hending]
      exact collectBody_fits hfits
    rw [proxyReply_unread hredirect hread]
    rfl

/-- When both handlers answer alike after an error response that is no redirect. -/
theorem client_alike_iff (hfails : ¬isSuccess r.status.code = true)
    (hredirect : ¬isRedirection r.status.code = true) (hending : r.ending ≠ .timedOut) :
    (proxyReply x true promptTokens now (.response r)).status =
        (proxyReply x false promptTokens now (.response r)).status ↔
      r.status.code = 502 ∨ r.ending = .finished ∧ FitsCap x.settings r.chunks.flatten.length := by
  rw [streamed_client hfails hredirect,if_neg hending]
  by_cases hfits : FitsCap x.settings r.chunks.flatten.length
  · rw [plain_client_fits hfails hredirect hfits]
    cases hend : r.ending with
    | finished => exact iff_of_true rfl (.inr ⟨rfl,hfits⟩)
    | timedOut => exact absurd hend hending
    | failed => simp
  · rw [plain_client_over hredirect hfits]
    simp only [hfits,and_false,or_false]

end Response

/-- Of a failing upstream both handlers tell and log the same exactly when the body of an error
response makes no difference. -/
theorem failure_alike_iff (x : Exchange) (promptTokens : Option ℤ) (decode : Bytes → String)
    (clock : ℕ → Instant) (u : Upstream) (hfails : u.Fails) :
    FailsAlike x promptTokens decode clock u ↔ u.Unaffected x.settings := by
  have hplain : ∃ w, exec (ProxiedRequest.step x) (.begin x false promptTokens)
      (ProxiedRequest.handlerOps x false decode clock u) = some w ∧
      w.LoggedAs (toString (proxyReply x false promptTokens (clock 0) u).status) := by
    rw [plain_status]
    exact ProxiedRequest.plain_answer_run x promptTokens decode clock u
  obtain ⟨w,hrun,hlogged⟩ := ProxiedRequest.streamed_error_run x promptTokens decode clock hfails
  have halike : FailsAlike x promptTokens decode clock u ↔
      ProxiedRequest.streamedStatus u =
          toString (proxyReply x true promptTokens (clock 0) u).status ∧
        (proxyReply x true promptTokens (clock 0) u).status =
          (proxyReply x false promptTokens (clock 0) u).status := by
    refine and_congr_left fun _ => ⟨fun h => ?_,fun h stream => ?_⟩
    · obtain ⟨w',hrun',hlogged'⟩ := h true
      obtain rfl := Option.some.inj (hrun.symm.trans hrun')
      exact hlogged.unique hlogged'
    · cases stream with
      | false => exact hplain
      | true => exact ⟨w,hrun,h ▸ hlogged⟩
  rw [halike]
  cases u with
  | unreachable e => exact iff_of_true ⟨toString_502.symm,rfl⟩ trivial
  | silent => exact iff_of_true ⟨toString_408.symm,rfl⟩ trivial
  | response r =>
    unfold Upstream.Unaffected ProxiedRequest.streamedStatus
    by_cases hredirect : isRedirection r.status.code = true
    · simp only [proxyReply_redirect _ hredirect,hredirect,if_true,true_or,iff_true]
      exact ⟨toString_502.symm,trivial⟩
    · by_cases hending : r.ending = .timedOut
      · have hne : ("499" : String) ≠ toString (408 : ℕ) := by decide
        simp only [hredirect,hending,streamed_client hfails hredirect,if_true,if_false,
          Bool.false_eq_true,ne_eq,not_true_eq_false,false_and,or_self,iff_false,not_and]
        exact fun h => absurd h hne
      · have hclient : (proxyReply x true promptTokens (clock 0) (.response r)).status =
            r.status.code := by rw [streamed_client hfails hredirect,if_neg hending]
        rw [client_alike_iff hfails hredirect hending,hclient]
        simp only [hredirect,hending,if_false,Bool.false_eq_true,false_or,not_false_eq_true,
          true_and,ne_eq]

def demoExchange : Exchange := ⟨⟨fun _ => none,fun _ => none⟩,⟨60,0,0⟩,demoUpstream,"ai",0⟩

/-- A 404 with a short body. -/
theorem failure_alike_iff_not_found :
    let u : Upstream := .response ⟨⟨404,by decide⟩,[],[utf8 "no such model"],.finished⟩
    FailsAlike demoExchange none (fun _ => "") (fun n => n+1) u ∧
      (proxyReply demoExchange true none 1 u).status = 404 := by
  intro u
  have hunaffected : u.Unaffected demoExchange.settings := by
    refine .inr ⟨by simp,.inr ⟨rfl,?_⟩⟩
    unfold FitsCap
    decide +kernel
  exact ⟨(failure_alike_iff demoExchange none (fun _ => "") (fun n => n+1) u
    (by simp [u,Upstream.Fails,isSuccess])).mpr hunaffected,rfl⟩

/-- A 500 whose body does not come in time: the client is told 408, the log 499. -/
theorem error_body_timeout_misreported :
    let u : Upstream := .response ⟨⟨500,by decide⟩,[],[utf8 "oops"],.timedOut⟩
    u.Fails ∧ (proxyReply demoExchange true none 1 u).status = 408 ∧
      (∃ w, exec (ProxiedRequest.step demoExchange) (.begin demoExchange true none)
        (ProxiedRequest.handlerOps demoExchange true (fun _ => "") (fun n => n+1) u) = some w ∧
        w.LoggedAs "499") ∧
      ¬FailsAlike demoExchange none (fun _ => "") (fun n => n+1) u := by
  intro u
  have hfails : u.Fails := by simp [u,Upstream.Fails,isSuccess]
  have hrun := ProxiedRequest.streamed_error_run demoExchange none (fun _ => "") (fun n => n+1) hfails
  refine ⟨hfails,rfl,hrun,fun halike => ?_⟩
  obtain ⟨w,hw,hlogged⟩ := hrun
  obtain ⟨w',hw',hlogged'⟩ := halike.1 true
  obtain rfl := Option.some.inj (hw.symm.trans hw')
  exact absurd (hlogged.unique hlogged') (by decide)

end Ait
