import Ait.SseAccount
import Ait.Utf8Text

/-!
# The payloads a client reads

The `data:` payloads among delivered bytes, and what every provider's rewriting makes
of one: a JSON object that comes out of it carries the alias the client asked for.
-/

namespace Ait

/-- The payloads of the `data:` lines. A carriage return before the newline stays with its
payload; as JSON it is blank. -/
def dataPayloads (b : Bytes) : List Bytes := (b.splitOn newline).filterMap dataPayload

/-- A payload that is a JSON object has the alias and the fingerprint at its top level. -/
def Carries (json : SerdeJson) (modelName : String) (payload : Bytes) : Prop :=
  ∀ m, json.fromSlice payload = some (.object m) →
    Fields.get m "model" = some (.string modelName) ∧
      Fields.get m "system_fingerprint" = some (.string "ait-proxy")

def Aliased (json : SerdeJson) (modelName : String) (b : Bytes) : Prop :=
  ∀ payload ∈ dataPayloads b, Carries json modelName payload

def Fields.Sorted (m : Fields) : Prop := m.Pairwise fun f g => f.1 < g.1

/-- What the JSON library documents: objects come in key order, every value can be written, a
written text is one line and starts like a JSON text, and an object read back from a written
text was an object with the same strings in it. -/
structure SerdeJson.Lawful (json : SerdeJson) : Prop where
  sorted : ∀ body m, json.fromSlice body = some (.object m) → Fields.Sorted m
  writes : ∀ v, json.toVec v ≠ none
  compact : ∀ v b, json.toVec v = some b → newline ∉ b ∧ ¬dataPrefix <+: b
  reads_back : ∀ v b m', json.toVec v = some b → json.fromSlice b = some (.object m') →
    ∃ m, v = .object m ∧ (Fields.Sorted m → ∀ key s, Fields.get m key = some (.string s) →
      Fields.get m' key = some (.string s))

def SerdeJson.OneLine (json : SerdeJson) : Prop := ∀ v b, json.toVec v = some b → newline ∉ b

theorem SerdeJson.Lawful.oneLine {json : SerdeJson} (h : json.Lawful) : json.OneLine :=
  fun v b hwritten => (h.compact v b hwritten).1

section Lines

variable {a b line : Bytes}

@[simp] theorem dataPayloads_nil : dataPayloads [] = [] := by
  simp [dataPayloads,dataPayload,stripBytes,dataPrefix]

@[simp] theorem dataPayloads_append (a b : Bytes) :
    dataPayloads (a ++ newline::b) = dataPayloads a ++ dataPayloads b := by
  simp [dataPayloads,List.splitOn_append_cons_self]

theorem dataPayloads_line (h : newline ∉ line) : dataPayloads line = (dataPayload line).toList := by
  unfold dataPayloads
  rw [List.splitOn_eq_singleton h]
  cases hp : dataPayload line <;> simp [hp]

def Terminated (b : Bytes) : Prop := b = [] ∨ ∃ l, b = l ++ [newline]

@[simp] theorem Terminated.payloads (h : Terminated a) (b : Bytes) :
    dataPayloads (a ++ b) = dataPayloads a ++ dataPayloads b := by
  rcases h with rfl | ⟨l,rfl⟩
  · simp
  · rw [dataPayloads_append,List.append_assoc]
    change dataPayloads (l ++ newline::b) = _
    rw [dataPayloads_append,dataPayloads_nil,List.append_nil]

theorem Terminated.append (h : Terminated a) (h' : Terminated b) : Terminated (a ++ b) := by
  rcases h' with rfl | ⟨l,rfl⟩
  · simpa using h
  · exact .inr ⟨a ++ l,by simp⟩

theorem newline_not_mem_splitOn : ∀ piece ∈ b.splitOn newline, newline ∉ piece := by
  induction b with
  | nil => simp
  | cons x b ih =>
    rw [List.splitOn_cons_eq_if_modifyHead]
    by_cases hx : x = newline
    · simpa [hx] using ih
    · have hne : b.splitOn newline ≠ [] := List.splitOn_ne_nil newline b
      cases hsplit : b.splitOn newline with
      | nil => exact absurd hsplit hne
      | cons p ps =>
        rw [hsplit] at ih
        simp only [beq_iff_eq,hx,if_false,List.modifyHead_cons,List.mem_cons,forall_eq_or_imp]
        simp only [List.mem_cons,forall_eq_or_imp] at ih
        exact ⟨by simp [Ne.symm hx,ih.1],ih.2⟩

theorem newline_not_mem_lines (h : line ∈ lines b) : newline ∉ line := by
  unfold lines at h
  rcases List.mem_append.mp h with h | h
  · obtain ⟨piece,hpiece,rfl⟩ := List.mem_map.mp h
    have hno := newline_not_mem_splitOn piece (List.mem_of_mem_dropLast hpiece)
    unfold stripSuffix
    split
    · exact fun hmem => hno (List.mem_of_mem_dropLast hmem)
    · exact hno
  · obtain ⟨hlast,-⟩ := List.mem_filter.mp h
    obtain hlast := Option.mem_toList.mp hlast
    exact newline_not_mem_splitOn line (List.mem_of_getLast? hlast)

theorem newline_not_mem_payload {payload : Bytes} (h : dataPayload line = some payload)
    (hline : newline ∉ line) : newline ∉ payload := by
  obtain ⟨rest,hrest,rfl⟩ := Option.map_eq_some_iff.mp h
  have hno : newline ∉ rest := by
    unfold stripBytes at hrest
    split at hrest
    · obtain rfl := Option.some.inj hrest
      exact fun hmem => hline (List.mem_of_mem_drop hmem)
    · cases hrest
  unfold stripBytes
  split
  · exact fun hmem => hno (List.mem_of_mem_drop hmem)
  · exact hno

theorem dataPayload_written (payload : Bytes) :
    dataPayload (dataPrefix ++ [32] ++ payload) = some payload := by
  simp [dataPayload,stripBytes,dataPrefix,List.isPrefixOf]

end Lines

section Objects

variable {m : Fields} {key : String} {v : Value}

theorem Fields.Sorted.insert (h : m.Sorted) (key : String) (v : Value) :
    Fields.Sorted (m.insert key v) := by
  induction m with
  | nil => simp [Fields.insert,Fields.Sorted]
  | cons f m ih =>
    obtain ⟨hhead,htail⟩ := List.pairwise_cons.mp h
    unfold Fields.insert
    split
    · rename_i hkey
      exact List.pairwise_cons.mpr ⟨fun g hg => hkey ▸ hhead g hg,htail⟩
    · rename_i hkey
      split
      · rename_i hlt
        refine List.pairwise_cons.mpr ⟨fun g hg => ?_,h⟩
        rcases List.mem_cons.mp hg with rfl | hg
        · exact hlt
        · exact hlt.trans (hhead g hg)
      · rename_i hlt
        have hgt : f.1 < key := lt_of_le_of_ne (not_lt.mp hlt) hkey
        refine List.pairwise_cons.mpr ⟨fun g hg => ?_,ih htail⟩
        rcases Fields.mem_insert hg with rfl | hmem
        · exact hgt
        · exact hhead g hmem

theorem Fields.Sorted.remove (h : m.Sorted) (key : String) : Fields.Sorted (m.remove key) :=
  List.Pairwise.filter _ h

theorem renameInFields_sorted (h : Fields.Sorted m) : Fields.Sorted (renameInFields m) := by
  have hkeys : ∀ m : Fields, (renameInFields m).map Prod.fst = m.map Prod.fst := by
    intro m
    induction m with
    | nil => rfl
    | cons f m ih => simp [renameInFields,ih]
  have hsorted : (m.map Prod.fst).Pairwise (· < ·) := List.pairwise_map.mpr h
  rw [← hkeys] at hsorted
  exact List.pairwise_map.mp hsorted

@[simp] theorem get_renameInFields (m : Fields) (key : String) :
    Fields.get (renameInFields m) key = (Fields.get m key).map renameReasoningKey := by
  induction m with
  | nil => rfl
  | cons f m ih =>
    rw [renameInFields,Fields.get_cons,Fields.get_cons,ih]
    by_cases hkey : f.1 = key
    · simp [hkey]
    · simp [hkey]

theorem renameKey_sorted (h : m.Sorted) : Fields.Sorted (renameKey m) := by
  unfold renameKey
  split
  · exact (h.remove _).insert _ _
  · exact h

@[simp] theorem get_renameKey (hkey : key ≠ "reasoning") (hkey' : key ≠ "reasoning_content") :
    Fields.get (renameKey m) key = Fields.get m key := by
  unfold renameKey
  split
  · simp [hkey,hkey']
  · rfl

theorem injected (h : m.Sorted) (modelName : String) :
    ∃ fields : Fields, injectDefaultShadow (.object m) modelName = .object fields ∧
      fields.Sorted ∧ fields.get "model" = some (.string modelName) ∧
      fields.get "system_fingerprint" = some (.string "ait-proxy") :=
  ⟨_,rfl,(h.insert _ _).insert _ _,by simp,by simp⟩

theorem rewrite_object (h : m.Sorted) (upstream : UpstreamProvider) (modelName : String) :
    ∃ fields : Fields, upstream.rewrite (.object m) modelName = .object fields ∧
      fields.Sorted ∧ fields.get "model" = some (.string modelName) ∧
      fields.get "system_fingerprint" = some (.string "ait-proxy") := by
  obtain ⟨fields,hinject,hsorted,hmodel,hprint⟩ := injected h modelName
  cases upstream with
  | openAICompat _ => exact ⟨fields,hinject,hsorted,hmodel,hprint⟩
  | ollama _ =>
    refine ⟨renameKey (renameInFields fields),?_,?_,?_,?_⟩
    · simp [UpstreamProvider.rewrite,hinject,renameReasoningKey]
    · exact renameKey_sorted (renameInFields_sorted hsorted)
    · rw [get_renameKey (by simp) (by simp),get_renameInFields,hmodel]
      rfl
    · rw [get_renameKey (by simp) (by simp),get_renameInFields,hprint]
      rfl
  | llamacpp _ =>
    refine ⟨fields.remove "timings",?_,hsorted.remove _,?_,?_⟩
    · simp [UpstreamProvider.rewrite,hinject,removeTimings]
    · simp [hmodel]
    · simp [hprint]

theorem object_of_rewrite {upstream : UpstreamProvider} {modelName : String}
    (h : upstream.rewrite v modelName = .object m) : ∃ m', v = .object m' := by
  cases v with
  | object m' => exact ⟨m',rfl⟩
  | _ =>
    cases upstream <;>
      simp [UpstreamProvider.rewrite,injectDefaultShadow,renameReasoningKey,removeTimings] at h

end Objects

section Handed

variable {json : SerdeJson} {modelName : String}

theorem transformResponse_carries (hjson : json.Lawful) (upstream : UpstreamProvider)
    (body : Bytes) :
    Carries json modelName (upstream.transformResponse json body modelName) := by
  intro m' hread
  unfold UpstreamProvider.transformResponse at hread
  cases hbody : json.fromSlice body with
  | none =>
    rw [hbody] at hread
    dsimp only at hread
    rw [hbody] at hread
    cases hread
  | some v =>
    rw [hbody] at hread
    dsimp only at hread
    cases hwritten : json.toVec (upstream.rewrite v modelName) with
    | none => exact absurd hwritten (hjson.writes _)
    | some b =>
      rw [hwritten] at hread
      obtain ⟨fields,hrewrite,hstrings⟩ := hjson.reads_back _ b m' hwritten hread
      obtain ⟨m,rfl⟩ := object_of_rewrite hrewrite
      obtain ⟨fields',hsame,hsorted,hmodel,hprint⟩ :=
        rewrite_object (hjson.sorted _ _ hbody) upstream modelName
      obtain rfl := Value.object.inj (hsame.symm.trans hrewrite)
      exact ⟨hstrings hsorted _ _ hmodel,hstrings hsorted _ _ hprint⟩

theorem newline_not_mem_transformResponse (hjson : json.OneLine) (upstream : UpstreamProvider)
    {body : Bytes} (h : newline ∉ body) :
    newline ∉ upstream.transformResponse json body modelName := by
  unfold UpstreamProvider.transformResponse
  cases json.fromSlice body with
  | none => exact h
  | some v =>
    dsimp only
    cases hwritten : json.toVec (upstream.rewrite v modelName) with
    | none => exact h
    | some b => exact hjson _ _ hwritten

theorem transformLine_aliased (hjson : json.Lawful) (upstream : UpstreamProvider)
    {acc : Bytes × Option UsageTokens} {line : Bytes} (hline : newline ∉ line)
    (h : Terminated acc.1 ∧ Aliased json modelName acc.1) :
    Terminated (transformLine json upstream modelName acc line).1 ∧
      Aliased json modelName (transformLine json upstream modelName acc line).1 := by
  obtain ⟨hterm,hacc⟩ := h
  have hadd : ∀ added, newline ∉ added → (∀ p ∈ (dataPayload added).toList, Carries json modelName p) →
      Terminated (acc.1 ++ (added ++ [newline])) ∧
        Aliased json modelName (acc.1 ++ (added ++ [newline])) := by
    intro added hno hcarries
    refine ⟨hterm.append (.inr ⟨added,rfl⟩),fun payload hp => ?_⟩
    rw [hterm.payloads,dataPayloads_append,dataPayloads_nil,List.append_nil,
      dataPayloads_line hno] at hp
    rcases List.mem_append.mp hp with hp | hp
    · exact hacc payload hp
    · exact hcarries payload hp
  cases hpayload : dataPayload line with
  | some payload =>
    rw [transformLine_payload hpayload]
    have hno : newline ∉ upstream.transformResponse json payload modelName :=
      newline_not_mem_transformResponse hjson.oneLine upstream
        (newline_not_mem_payload hpayload hline)
    have hwritten := hadd (dataPrefix ++ [32] ++ upstream.transformResponse json payload modelName)
      (by simpa [dataPrefix,newline] using hno) (by
        intro p hp
        rw [dataPayload_written] at hp
        obtain rfl := Option.some.inj (Option.mem_toList.mp hp)
        exact transformResponse_carries hjson upstream payload)
    simpa only [List.append_assoc] using hwritten
  | none =>
    rw [transformLine_other hpayload]
    split
    · have hkept := hadd line hline (by simp [hpayload])
      simpa only [List.append_assoc] using hkept
    · exact ⟨hterm,hacc⟩

theorem handed_aliased (hjson : json.Lawful) (upstream : UpstreamProvider) {piece : Bytes}
    (hutf8 : validUtf8 piece = true) :
    Terminated (handed json upstream modelName piece) ∧
      Aliased json modelName (handed json upstream modelName piece) := by
  have hfold : ∀ (ls : List Bytes) (acc : Bytes × Option UsageTokens),
      (∀ line ∈ ls, newline ∉ line) → Terminated acc.1 ∧ Aliased json modelName acc.1 →
      Terminated (ls.foldl (transformLine json upstream modelName) acc).1 ∧
        Aliased json modelName (ls.foldl (transformLine json upstream modelName) acc).1 := by
    intro ls
    induction ls with
    | nil => exact fun _ _ h => h
    | cons line ls ih =>
      intro acc hno h
      exact ih _ (fun l hl => hno l (List.mem_cons_of_mem line hl))
        (transformLine_aliased hjson upstream (hno line List.mem_cons_self) h)
  simp only [handed,transformEvent_eq,hutf8,if_true]
  refine hfold _ _ (fun line hline => newline_not_mem_lines hline) ⟨.inl rfl,?_⟩
  intro payload hp
  rw [dataPayloads_nil] at hp
  cases hp

end Handed
end Ait
