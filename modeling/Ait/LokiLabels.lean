import Ait.LogManager

/-!
# What is pushed to Loki

Loki answers 400 to a push with a label name that is none, and a push without the configured
credentials goes to nobody. Neither can happen to a sink that was built.
-/

namespace Ait

structure LokiRequest.Valid (config : LokiSettings) (r : LokiRequest) : Prop where
  url : r.url = trimEndSlashes config.url ++ "/loki/api/v1/push"
  labels : ∀ s ∈ r.payload, ∀ l ∈ s.stream, isValidLabelName l.1 = true
  basicAuth : r.basicAuth.map Prod.fst = config.basicAuthUser ∧
    r.basicAuth.map Prod.snd = config.basicAuthPassword
  bearerAuth : r.bearerAuth = config.bearerToken

def Labels.Valid (labels : Labels) : Prop := ∀ l ∈ labels, isValidLabelName l.1 = true

namespace Labels.Valid

variable {labels : Labels}

theorem insert (h : labels.Valid) {key : String} (hkey : isValidLabelName key = true) (value : String) :
    (labels.insert key value).Valid := by
  induction labels with
  | nil => exact fun l hl => List.mem_singleton.mp hl ▸ hkey
  | cons a labels ih =>
    have ha : isValidLabelName a.1 = true := h a List.mem_cons_self
    have hrest : Labels.Valid labels := fun l hl => h l (List.mem_cons_of_mem a hl)
    unfold Labels.insert
    by_cases hsame : a.1 = key
    · rw [if_pos hsame]
      exact List.forall_mem_cons.mpr ⟨hkey,hrest⟩
    · rw [if_neg hsame]
      by_cases hbefore : key < a.1
      · rw [if_pos hbefore]
        exact List.forall_mem_cons.mpr ⟨hkey,h⟩
      · rw [if_neg hbefore]
        exact List.forall_mem_cons.mpr ⟨ha,ih hrest⟩

theorem event (h : labels.Valid) (e : LogEvent) : (eventToLabels e labels).Valid := by
  have htype (kind : String) : (labels.insert "event_type" kind).Valid := h.insert (by decide) kind
  cases e with
  | access e => exact (htype "access").insert (by decide) e.method
  | proxy e =>
    exact (((htype "proxy").insert (by decide) e.modelName).insert (by decide) e.status).insert
      (by decide) (toString e.isStreaming)
  | audit e => exact ((htype "audit").insert (by decide) e.action).insert (by decide) e.resource
  | shutdown => exact h

end Labels.Valid

theorem sanitizeStaticLabels_valid (raw : Labels) : (sanitizeStaticLabels raw).Valid :=
  fun _ hl => (List.mem_filter.mp hl).2

theorem addToGroup_labels {ν : Type} {P : Labels → Prop} {labels : Labels} (hlabels : P labels)
    (value : ν) {groups : List (Labels × List ν)} (h : ∀ g ∈ groups, P g.1) :
    ∀ g ∈ addToGroup labels value groups, P g.1 := by
  induction groups with
  | nil => exact fun g hg => List.mem_singleton.mp hg ▸ hlabels
  | cons a groups ih =>
    have ha := h a List.mem_cons_self
    have hrest : ∀ g ∈ groups, P g.1 := fun g hg => h g (List.mem_cons_of_mem a hg)
    unfold addToGroup
    by_cases hsame : a.1 = labels
    · rw [if_pos hsame]
      exact List.forall_mem_cons.mpr ⟨ha,hrest⟩
    · rw [if_neg hsame]
      by_cases hbefore : labels.before a.1
      · rw [if_pos hbefore]
        exact List.forall_mem_cons.mpr ⟨hlabels,h⟩
      · rw [if_neg hbefore]
        exact List.forall_mem_cons.mpr ⟨ha,ih hrest⟩

theorem buildPushPayload_labels (o : LokiOutside) (events : List LogEvent) {staticLabels : Labels}
    (h : staticLabels.Valid) : ∀ s ∈ buildPushPayload o events staticLabels, s.stream.Valid := by
  have hgroups (events : List LogEvent) (groups : List (Labels × List (ℤ × String)))
      (hg : ∀ g ∈ groups, Labels.Valid g.1) :
      ∀ g ∈ events.foldl (fun groups e => addToGroup (eventToLabels e staticLabels)
        ((timestampNanos (eventTimestamp o.now e)).getD 0,eventToLine o e) groups) groups,
        Labels.Valid g.1 := by
    induction events generalizing groups with
    | nil => exact hg
    | cons e events ih => exact ih _ (addToGroup_labels (h.event e) _ hg)
  intro s hs
  obtain ⟨g,hg,rfl⟩ := List.mem_map.mp hs
  exact hgroups _ [] (fun g hg => absurd hg List.not_mem_nil) g hg

theorem newLokiSink_ok {client : LokiClient} {config : LokiSettings} {state : LokiState} {batchSize : ℕ}
    (h : newLokiSink client config = .ok (state,batchSize)) :
    state = ⟨trimEndSlashes config.url ++ "/loki/api/v1/push",sanitizeStaticLabels config.labels,
        config.basicAuthUser,config.basicAuthPassword,config.bearerToken⟩ ∧
      config.basicAuthUser.isSome = config.basicAuthPassword.isSome := by
  unfold newLokiSink at h
  dsimp only at h
  split at h
  · cases h
  split at h
  · cases h
  rename_i hpair
  split at h
  · cases h
  · cases h
    exact ⟨rfl,not_not.mp hpair⟩

structure LokiRequest.Pushes (config : LokiSettings) (r : LokiRequest) (batch : List LogEvent) : Prop
    extends r.Valid config where
  payload : ∃ o, r.payload = buildPushPayload o batch (sanitizeStaticLabels config.labels)

theorem flushLoki_pushes {client : LokiClient} {config : LokiSettings} {state : LokiState} {batchSize : ℕ}
    (hnew : newLokiSink client config = .ok (state,batchSize)) (a : LokiAnswer) {s : LokiWorkerState}
    (buffer : List LogEvent)
    (h : List.Forall₂ (LokiRequest.Pushes config) s.requests s.flushed) :
    List.Forall₂ (LokiRequest.Pushes config) (flushLoki state a s buffer).1.requests
      (flushLoki state a s buffer).1.flushed := by
  obtain ⟨rfl,hpair⟩ := newLokiSink_ok hnew
  refine List.rel_append h (.cons ⟨⟨rfl,?_,?_,rfl⟩,a.outside,rfl⟩ .nil)
  · exact buildPushPayload_labels a.outside buffer (sanitizeStaticLabels_valid config.labels)
  · cases huser : config.basicAuthUser with
    | none =>
      cases hpassword : config.basicAuthPassword with
      | none => exact ⟨rfl,rfl⟩
      | some password => simp [huser,hpassword] at hpair
    | some user =>
      cases hpassword : config.basicAuthPassword with
      | none => simp [huser,hpassword] at hpair
      | some password => exact ⟨rfl,rfl⟩

theorem LogSetup.lokiSink_some {x : LogSetup} {state : LokiState} {batchSize : ℕ}
    (h : x.lokiSink = some (state,batchSize)) : newLokiSink x.client x.loki = .ok (state,batchSize) := by
  unfold lokiSink at h
  split at h
  · cases hnew : newLokiSink x.client x.loki with
    | ok sink =>
      rw [hnew] at h
      exact congrArg _ (Option.some.inj h)
    | error e =>
      rw [hnew] at h
      cases h
  · cases h

namespace LogManager

/-- Whatever is logged and whatever Loki answers: the pushes are one for each batch the worker
handed over, in this order, and all valid, and the batches hold logged events, in the order in
which they were logged and once each. -/
theorem loki_pushes (x : LogSetup) (ops : List ManagerOp) (m : LogManager)
    (hrun : Transition.exec (step x) (start x) ops = some m) (state : LokiState) (batchSize : ℕ)
    (hx : x.lokiSink = some (state,batchSize)) : ∃ l, m.loki = some l ∧
      List.Forall₂ (LokiRequest.Pushes x.loki) l.worker.sink.requests l.worker.sink.flushed ∧
      l.worker.sink.flushed.flatten.Sublist (pushed ops) := by
  have hstart : (start x).loki = some (.start lokiChannelCap .new) := by
    rw [start,hx,Option.map_some]
  obtain ⟨l,hl,hloki⟩ := run_loki hx hstart hrun
  have hlawful := lokiWorker_lawful state batchSize
  refine ⟨l,hl,?_,?_⟩
  · obtain ⟨script,hscript⟩ := SinkRun.exists_script (Q := fun _ => True) hlawful rfl
      (fun op _ => by cases op <;> trivial) hloki
    have hnew := x.lokiSink_some hx
    have hstep : ∀ r op r', (lokiWorker state batchSize).step r op = some r' →
        Worker.Answered (fun _ => True) op →
        List.Forall₂ (LokiRequest.Pushes x.loki) r.sink.requests r.sink.flushed →
        List.Forall₂ (LokiRequest.Pushes x.loki) r'.sink.requests r'.sink.flushed := by
      intro r op r' hstep hop h
      refine Worker.step_sink (P := fun s : LokiWorkerState =>
        List.Forall₂ (LokiRequest.Pushes x.loki) s.requests s.flushed) ?_ ?_ ?_ hstep hop h
      · exact fun a s buffer _ h => flushLoki_pushes hnew a buffer h
      · exact fun a s buffer _ h => flushLoki_pushes hnew a buffer h
      · exact fun s h => h
    exact Transition.exec_invariant hstep hscript.run
      (Transition.along_of_mem hscript.answered _) .nil
  · have hfifo := (SinkRun.Sound.run hlawful rfl hloki).accounted.fifo
    rw [List.append_assoc] at hfifo
    have hprefix : l.worker.sink.flushed.flatten <+: l.worker.accepted.filter LogEvent.isEvent :=
      ⟨_,hfifo⟩
    exact hprefix.sublist.trans
      (SinkRun.accepted_sublist hlawful (.start lokiChannelCap _ rfl) hloki)

theorem loki_pushes_audit : ∃ m l, Transition.exec (step demoSetup) (start demoSetup) demoOps = some m ∧
    m.loki = some l ∧ l.worker.sink.requests.length = 1 ∧
    ∀ r ∈ l.worker.sink.requests, r.Valid demoSetup.loki := by
  have hends : (Transition.exec (step demoSetup) (start demoSetup) demoOps).map (fun m =>
      m.loki.map fun l => l.worker.sink.requests.length) = some (some 1) := by decide +kernel
  obtain ⟨m,hrun,hloki⟩ := Option.map_eq_some_iff.mp hends
  obtain ⟨l,hl,hone⟩ := Option.map_eq_some_iff.mp hloki
  obtain ⟨l',hl',hpushes,-⟩ := loki_pushes demoSetup demoOps m hrun _ _ rfl
  rw [hl] at hl'
  cases hl'
  refine ⟨m,l,hrun,hl,hone,fun r hr => ?_⟩
  obtain ⟨n,hn,rfl⟩ := List.getElem_of_mem hr
  have hbatch : n < l.worker.sink.flushed.length := hpushes.length_eq ▸ hn
  exact (hpushes.get hn hbatch).toValid

end LogManager
end Ait
