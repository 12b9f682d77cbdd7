import Ait.TokenAgreement

/-!
# Laws of the rewriting

Rewriting a response twice for one alias is rewriting it once. Where the renaming of
Ollama's reasoning fields leaves each part of a response is said by places: the keys
and indices that lead to a value.
-/

namespace Ait

inductive Place
  | member (key : String)
  | item (i : ℕ)
  deriving DecidableEq

namespace Value

def item : Value → ℕ → Option Value
  | .array items, i => items[i]?
  | _, _ => none

def child (v : Value) : Place → Option Value
  | .member key => v.get key
  | .item i => v.item i

def pointer : Value → List Place → Option Value
  | v, [] => some v
  | v, place::path => (v.child place).bind fun w => w.pointer path

end Value

def Place.renamed : Place → Place
  | .member key => .member (if key = "reasoning" then "reasoning_content" else key)
  | .item i => .item i

/-- The path does not enter a `reasoning_content` that the `reasoning` next to it replaces. -/
inductive Kept : Value → List Place → Prop
  | here (v : Value) : Kept v []
  | member {v w : Value} {key : String} {path : List Place} (hget : v.get key = some w)
      (hstays : key = "reasoning_content" → v.get "reasoning" = none) (h : Kept w path) :
      Kept v (.member key::path)
  | item {v w : Value} {i : ℕ} {path : List Place} (hget : v.item i = some w) (h : Kept w path) :
      Kept v (.item i::path)

/-- Nor does it enter one of the two fields that are set at the top. -/
def Untouched : List Place → Prop
  | .member key::_ => key ≠ "model" ∧ key ≠ "system_fingerprint"
  | _ => True

def UpstreamProvider.keeps (upstream : UpstreamProvider) (m : Fields) (key : String) :
    Option Value :=
  match upstream with
  | .openAICompat _ => m.get key
  | .ollama _ =>
    if key = "reasoning" then none
    else if key = "reasoning_content" then
      ((m.get "reasoning").or (m.get key)).map renameReasoningKey
    else (m.get key).map renameReasoningKey
  | .llamacpp _ => if key = "timings" then none else m.get key

/-- The JSON library reads objects in key order, and reads back what it wrote. -/
structure SerdeJson.RoundTrips (json : SerdeJson) : Prop where
  sorted : ∀ body m, json.fromSlice body = some (.object m) → Fields.Sorted m
  reads_back : ∀ v b, json.toVec v = some b → json.fromSlice b = some v

section Objects

variable {m m' : Fields} {v w : Value} {key : String}

theorem Fields.Sorted.get_eq_some (h : m.Sorted) (f : String × Value) :
    Fields.get m f.1 = some f.2 ↔ f ∈ m := by
  induction m with
  | nil => simp
  | cons g m ih =>
    obtain ⟨hhead,htail⟩ := List.pairwise_cons.mp h
    rw [Fields.get_cons,List.mem_cons,← ih htail]
    by_cases hkey : g.1 = f.1
    · have hnone : ¬Fields.get m f.1 = some f.2 := fun hmem =>
        (hhead f ((ih htail).mp hmem)).ne hkey
      simp [hkey,hnone,Prod.ext_iff,eq_comm]
    · have hne : f ≠ g := fun heq => hkey (congrArg Prod.fst heq).symm
      simp [hkey,hne]

theorem Fields.Sorted.ext (h : m.Sorted) (h' : m'.Sorted)
    (hget : ∀ key, Fields.get m key = Fields.get m' key) : m = m' := by
  have hmem : ∀ f, f ∈ m ↔ f ∈ m' := fun f => by
    rw [← h.get_eq_some,← h'.get_eq_some,hget]
  have hperm : m.Perm m' :=
    (List.perm_ext_iff_of_nodup (h.imp fun hlt => by rintro rfl; exact lt_irrefl _ hlt)
      (h'.imp fun hlt => by rintro rfl; exact lt_irrefl _ hlt)).mpr hmem
  exact hperm.eq_of_pairwise (fun f g _ _ hfg hgf => absurd hgf hfg.not_gt) h h'

@[simp] theorem renameKey_of_none (h : Fields.get m "reasoning" = none) : renameKey m = m := by
  simp only [renameKey,h]

theorem mem_renameKey {f : String × Value} (h : f ∈ renameKey m) : ∃ g ∈ m, g.2 = f.2 := by
  unfold renameKey at h
  split at h
  · rename_i val hval
    rcases Fields.mem_insert h with rfl | hmem
    · obtain ⟨g,hg,rfl⟩ := Option.map_eq_some_iff.mp hval
      exact ⟨g,List.mem_of_find?_eq_some hg,rfl⟩
    · exact ⟨f,List.mem_of_mem_filter hmem,rfl⟩
  · exact ⟨f,h,rfl⟩

@[simp] theorem get_renameKey_reasoning (m : Fields) :
    Fields.get (renameKey m) "reasoning" = none := by
  unfold renameKey
  split
  · simp
  · rename_i hnone
    exact hnone

@[simp] theorem get_renameKey_content (m : Fields) :
    Fields.get (renameKey m) "reasoning_content" =
      (Fields.get m "reasoning").or (Fields.get m "reasoning_content") := by
  unfold renameKey
  split
  · rename_i hval
    simp [hval]
  · rename_i hnone
    simp [hnone]

@[simp] theorem get_reasoning (v : Value) : (renameReasoningKey v).get "reasoning" = none := by
  cases v with
  | object m => simp [renameReasoningKey,Value.get]
  | _ => rfl

theorem get_content (v : Value) :
    (renameReasoningKey v).get "reasoning_content" =
      ((v.get "reasoning").or (v.get "reasoning_content")).map renameReasoningKey := by
  cases v with
  | object m =>
    simp only [renameReasoningKey,Value.get,get_renameKey_content,get_renameInFields]
    cases Fields.get m "reasoning" <;> rfl
  | _ => rfl

@[simp] theorem item_renameReasoningKey (v : Value) (i : ℕ) :
    (renameReasoningKey v).item i = (v.item i).map renameReasoningKey := by
  cases v with
  | array items =>
    have hitems : ∀ items : List Value, renameInItems items = items.map renameReasoningKey := by
      intro items
      induction items with
      | nil => rfl
      | cons v items ih => simp [renameInItems,ih]
    simp [renameReasoningKey,Value.item,hitems]
  | _ => rfl

end Objects

section Places

variable {v w : Value} {path : List Place}

theorem child_renameReasoningKey {place : Place}
    (h : (renameReasoningKey v).child place = some w) :
    place ≠ .member "reasoning" ∧ ∃ u, w = renameReasoningKey u := by
  cases place with
  | item i =>
    simp only [Value.child,item_renameReasoningKey,Option.map_eq_some_iff] at h
    obtain ⟨u,-,rfl⟩ := h
    exact ⟨by simp,u,rfl⟩
  | member key =>
    simp only [Value.child] at h
    by_cases hkey : key = "reasoning"
    · rw [hkey,get_reasoning] at h
      cases h
    · refine ⟨by simp [hkey],?_⟩
      by_cases hcontent : key = "reasoning_content"
      · rw [hcontent,get_content] at h
        obtain ⟨u,-,rfl⟩ := Option.map_eq_some_iff.mp h
        exact ⟨u,rfl⟩
      · rw [get_renameReasoningKey hkey hcontent] at h
        obtain ⟨u,-,rfl⟩ := Option.map_eq_some_iff.mp h
        exact ⟨u,rfl⟩

@[simp] theorem pointer_reasoning (v : Value) (h : .member "reasoning" ∈ path) :
    (renameReasoningKey v).pointer path = none := by
  induction path generalizing v with
  | nil => cases h
  | cons place path ih =>
    unfold Value.pointer
    cases hchild : (renameReasoningKey v).child place with
    | none => rfl
    | some w =>
      obtain ⟨hne,u,rfl⟩ := child_renameReasoningKey hchild
      rcases List.mem_cons.mp h with h | h
      · exact absurd h.symm hne
      · exact ih u h

/-- What the renaming keeps is found behind the renamed keys, itself renamed. -/
@[simp] theorem Kept.pointer (h : Kept v path) :
    (renameReasoningKey v).pointer (path.map Place.renamed) =
      (v.pointer path).map renameReasoningKey := by
  induction h with
  | here v => rfl
  | @member v w key path hget hstays _ ih =>
    have hmoved : (renameReasoningKey v).child (Place.renamed (.member key)) =
        some (renameReasoningKey w) := by
      simp only [Place.renamed,Value.child]
      split
      · rename_i hkey
        rw [get_content,← hkey,hget]
        rfl
      · rename_i hkey
        by_cases hcontent : key = "reasoning_content"
        · rw [hcontent,get_content,hstays hcontent,← hcontent,hget]
          rfl
        · rw [get_renameReasoningKey hkey hcontent,hget]
          rfl
    have hchild : v.child (.member key) = some w := hget
    simp only [List.map_cons,Value.pointer,hmoved,hchild,Option.bind_some,ih]
  | @item v w i path hget _ ih =>
    have hmoved : (renameReasoningKey v).child (Place.renamed (.item i)) =
        some (renameReasoningKey w) := by
      simp only [Place.renamed,Value.child,item_renameReasoningKey,hget,Option.map_some]
    have hchild : v.child (.item i) = some w := hget
    simp only [List.map_cons,Value.pointer,hmoved,hchild,Option.bind_some,ih]

theorem child_injectDefaultShadow (modelName : String) {place : Place}
    (h : Untouched (place::path)) :
    (injectDefaultShadow v modelName).child place = v.child place := by
  cases place with
  | member key => exact get_injectDefaultShadow modelName h.1 h.2
  | item i => cases v <;> rfl

theorem Kept.inject (h : Kept v path) (modelName : String) (htop : Untouched path) :
    Kept (injectDefaultShadow v modelName) path := by
  cases h with
  | here => exact .here _
  | @member v w key path hget hstays h =>
    refine .member ?_ (fun hkey => ?_) h
    · rw [get_injectDefaultShadow modelName htop.1 htop.2,hget]
    · rw [get_injectDefaultShadow modelName (by simp) (by simp),hstays hkey]
  | @item v w i path hget h =>
    refine .item ?_ h
    cases v <;> exact hget

end Places

section Twice

variable {m : Fields}

@[simp] theorem renameInFields_eq_self (h : ∀ f ∈ m, renameReasoningKey f.2 = f.2) :
    renameInFields m = m := by
  induction m with
  | nil => rfl
  | cons f m ih =>
    obtain ⟨hhead,htail⟩ := List.forall_mem_cons.mp h
    rw [renameInFields,hhead,ih htail]

mutual

@[simp] theorem renameReasoningKey_twice : (v : Value) →
    renameReasoningKey (renameReasoningKey v) = renameReasoningKey v
  | .null => rfl
  | .bool _ => rfl
  | .number _ => rfl
  | .string _ => rfl
  | .array items => by simp only [renameReasoningKey,renameInItems_twice items]
  | .object m => by
    have hfields := renameInFields_twice m
    have hkept : renameInFields (renameKey (renameInFields m)) = renameKey (renameInFields m) := by
      refine renameInFields_eq_self fun f hf => ?_
      obtain ⟨g,hg,heq⟩ := mem_renameKey hf
      rw [← heq]
      exact hfields g hg
    simp only [renameReasoningKey,hkept,renameKey_of_none (get_renameKey_reasoning _)]

theorem renameInFields_twice : (m : Fields) → ∀ f ∈ renameInFields m, renameReasoningKey f.2 = f.2
  | [] => by simp [renameInFields]
  | (key,v)::m => by
    rw [renameInFields]
    exact List.forall_mem_cons.mpr ⟨renameReasoningKey_twice v,renameInFields_twice m⟩

@[simp] theorem renameInItems_twice : (items : List Value) →
    renameInItems (renameInItems items) = renameInItems items
  | [] => rfl
  | v::items => by
    simp only [renameInItems,renameReasoningKey_twice v,renameInItems_twice items]

end

variable {upstream : UpstreamProvider} {v : Value} {modelName : String}

theorem inject_rewrite (hsorted : ∀ m, v = .object m → Fields.Sorted m) :
    injectDefaultShadow (upstream.rewrite v modelName) modelName =
      upstream.rewrite v modelName := by
  cases v with
  | object m =>
    obtain ⟨fields,hrewrite,hfields,hmodel,hprint⟩ :=
      rewrite_object (hsorted m rfl) upstream modelName
    rw [hrewrite]
    refine congrArg Value.object (((hfields.insert _ _).insert _ _).ext hfields fun key => ?_)
    rw [Fields.get_insert,Fields.get_insert]
    split
    · rename_i hkey
      rw [hkey,hprint]
    · split
      · rename_i hkey
        rw [hkey,hmodel]
      · rfl
  | _ => cases upstream <;> rfl

@[simp] theorem rewrite_twice (hsorted : ∀ m, v = .object m → Fields.Sorted m) :
    upstream.rewrite (upstream.rewrite v modelName) modelName = upstream.rewrite v modelName := by
  have hinject : injectDefaultShadow (upstream.rewrite v modelName) modelName = _ :=
    inject_rewrite hsorted
  cases upstream with
  | openAICompat _ => exact hinject
  | ollama _ =>
    simp only [UpstreamProvider.rewrite] at hinject ⊢
    rw [hinject,renameReasoningKey_twice]
  | llamacpp _ =>
    simp only [UpstreamProvider.rewrite] at hinject ⊢
    rw [hinject]
    cases injectDefaultShadow v modelName with
    | object m => simp [removeTimings,Fields.remove]
    | _ => rfl

@[simp] theorem get_rewrite (upstream : UpstreamProvider) (m : Fields) (modelName : String)
    {key : String}
    (hmodel : key ≠ "model") (hprint : key ≠ "system_fingerprint") :
    (upstream.rewrite (.object m) modelName).get key = upstream.keeps m key := by
  have hinject : ∀ key, key ≠ "model" → key ≠ "system_fingerprint" →
      (injectDefaultShadow (.object m) modelName).get key = Fields.get m key :=
    fun key hmodel hprint => get_injectDefaultShadow modelName hmodel hprint
  cases upstream with
  | openAICompat _ => exact hinject key hmodel hprint
  | ollama _ =>
    simp only [UpstreamProvider.rewrite,UpstreamProvider.keeps]
    split
    · rename_i hkey
      rw [hkey,get_reasoning]
    · rename_i hkey
      split
      · rename_i hcontent
        rw [hcontent,get_content,hinject _ (by simp) (by simp),hinject _ (by simp) (by simp)]
      · rename_i hcontent
        rw [get_renameReasoningKey hkey hcontent,hinject key hmodel hprint]
  | llamacpp _ =>
    simp only [UpstreamProvider.rewrite,UpstreamProvider.keeps]
    split
    · rename_i hkey
      simp [injectDefaultShadow,removeTimings,Value.get,hkey]
    · rename_i hkey
      rw [get_removeTimings hkey,hinject key hmodel hprint]

end Twice

section Laws

variable {json : SerdeJson} {upstream : UpstreamProvider} {v w : Value} {modelName : String}
  {path : List Place}

@[simp] theorem Value.pointer_append (v : Value) (path more : List Place) :
    v.pointer (path ++ more) = (v.pointer path).bind fun w => w.pointer more := by
  induction path generalizing v with
  | nil => rfl
  | cons place path ih =>
    simp only [List.cons_append,Value.pointer,Option.bind_assoc]
    exact congrArg (v.child place).bind (funext ih)

theorem Kept.reasoning (h : Kept v path)
    (hpath : v.pointer (path ++ [.member "reasoning"]) = some w) :
    Kept v (path ++ [.member "reasoning"]) := by
  induction h with
  | here v =>
    obtain ⟨u,hget,-⟩ := Option.bind_eq_some_iff.mp hpath
    exact .member hget (by simp) (.here u)
  | @member v u key path hget hstays _ ih =>
    obtain ⟨u',hget',hrest⟩ := Option.bind_eq_some_iff.mp hpath
    obtain rfl := Option.some.inj (hget.symm.trans hget')
    exact .member hget hstays (ih hrest)
  | @item v u i path hget _ ih =>
    obtain ⟨u',hget',hrest⟩ := Option.bind_eq_some_iff.mp hpath
    obtain rfl := Option.some.inj (hget.symm.trans hget')
    exact .item hget (ih hrest)

theorem Untouched.reasoning (h : Untouched path) : Untouched (path ++ [.member "reasoning"]) := by
  cases path with
  | nil => simp [Untouched]
  | cons place path => cases place <;> exact h

theorem reasoning_moved (modelName : String) (h : Kept v path) (htop : Untouched path)
    (hpath : v.pointer (path ++ [.member "reasoning"]) = some w) :
    (renameReasoningKey (injectDefaultShadow v modelName)).pointer
      (path.map Place.renamed ++ [.member "reasoning_content"]) = some (renameReasoningKey w) := by
  have hmoved := ((h.reasoning hpath).inject modelName htop.reasoning).pointer
  have hsame : (injectDefaultShadow v modelName).pointer (path ++ [.member "reasoning"]) =
      v.pointer (path ++ [.member "reasoning"]) := by
    have hhead := htop.reasoning
    cases path with
    | nil =>
      simp only [List.nil_append,Value.pointer,child_injectDefaultShadow modelName hhead]
    | cons place path =>
      simp only [List.cons_append,Value.pointer,child_injectDefaultShadow modelName hhead]
  rw [hsame,hpath,List.map_append] at hmoved
  exact hmoved

theorem transformResponse_reads (hjson : json.RoundTrips) {body : Bytes}
    (hbody : json.fromSlice body = some v)
    (hwrites : ∃ b, json.toVec (upstream.rewrite v modelName) = some b) :
    json.toVec (upstream.rewrite v modelName) =
        some (upstream.transformResponse json body modelName) ∧
      json.fromSlice (upstream.transformResponse json body modelName) =
        some (upstream.rewrite v modelName) := by
  obtain ⟨b,hb⟩ := hwrites
  have hsent : upstream.transformResponse json body modelName = b := by
    simp only [UpstreamProvider.transformResponse,hbody,hb,Option.getD_some]
  rw [hsent]
  exact ⟨hb,hjson.reads_back _ _ hb⟩

/-- The laws of the rewriting: it is idempotent, leaves what is not JSON alone, sets two fields of
an object and keeps the others as its provider does, moves each `reasoning` it does not drop to
`reasoning_content`, and keeps the usage. -/
theorem transformResponse_laws (json : SerdeJson) (hjson : json.RoundTrips)
    (upstream : UpstreamProvider) (modelName : String) (body : Bytes)
    (hwrites : ∀ v, json.fromSlice body = some v →
      ∃ b, json.toVec (upstream.rewrite v modelName) = some b) :
    let sent := upstream.transformResponse json body modelName
    upstream.transformResponse json sent modelName = sent ∧
    (json.fromSlice body = none → sent = body) ∧
    (∀ m, json.fromSlice body = some (.object m) →
      ∃ m', json.fromSlice sent = some (.object m') ∧
        Fields.get m' "model" = some (.string modelName) ∧
        Fields.get m' "system_fingerprint" = some (.string "ait-proxy") ∧
        ∀ key, key ≠ "model" → key ≠ "system_fingerprint" →
          Fields.get m' key = upstream.keeps m key) ∧
    (∀ core v, upstream = .ollama core → json.fromSlice body = some v →
      ∃ w, json.fromSlice sent = some w ∧
        (∀ path, .member "reasoning" ∈ path → w.pointer path = none) ∧
        ∀ path x, Kept v path → Untouched path →
          v.pointer (path ++ [.member "reasoning"]) = some x →
          w.pointer (path.map Place.renamed ++ [.member "reasoning_content"]) =
            some (renameReasoningKey x)) ∧
    parseUsage json sent = parseUsage json body := by
  intro sent
  cases hbody : json.fromSlice body with
  | none =>
    have hsent : sent = body := by
      simp only [sent,UpstreamProvider.transformResponse,hbody]
    rw [hsent]
    exact ⟨hsent,fun _ => rfl,by simp,by simp,rfl⟩
  | some v =>
    obtain ⟨hwritten,hread⟩ := transformResponse_reads hjson hbody (hwrites v hbody)
    have hsorted : ∀ m, v = .object m → Fields.Sorted m := by
      rintro m rfl
      exact hjson.sorted body m hbody
    refine ⟨?_,by simp,?_,?_,?_⟩
    · have htwice : upstream.rewrite (upstream.rewrite v modelName) modelName =
          upstream.rewrite v modelName := rewrite_twice hsorted
      simp only [UpstreamProvider.transformResponse,sent] at hread hwritten ⊢
      rw [hread]
      simp only [htwice,hwritten,Option.getD_some]
    · intro m hm
      obtain rfl := Option.some.inj hm
      obtain ⟨m',hrewrite,-,hmodel,hprint⟩ := rewrite_object (hsorted m rfl) upstream modelName
      refine ⟨m',by rw [hread,hrewrite],hmodel,hprint,fun key hkey hkey' => ?_⟩
      rw [← get_rewrite upstream m modelName hkey hkey',hrewrite]
      rfl
    · rintro core u rfl hu
      obtain rfl := Option.some.inj hu
      exact ⟨_,hread,fun path hmem => pointer_reasoning _ hmem,
        fun path x hkept htop hpath => reasoning_moved modelName hkept htop hpath⟩
    · rw [parseUsage_eq hread,parseUsage_eq hbody,valueUsage_rewrite]

end Laws

/-- The texts of an Ollama response with a `reasoning` inside the `reasoning_content` that another
`reasoning` replaces. -/
def reasoningText : Bytes :=
  utf8 "\x7b\"reasoning\":1,\"reasoning_content\":\x7b\"reasoning\":2\x7d\x7d"

def reasoningValue : Value :=
  .object [("reasoning",.number (.integer 1)),
    ("reasoning_content",.object [("reasoning",.number (.integer 2))])]

def contentText : Bytes := utf8
  "\x7b\"model\":\"ai\",\"reasoning_content\":1,\"system_fingerprint\":\"ait-proxy\"\x7d"

def contentValue : Value :=
  .object [("model",.string "ai"),("reasoning_content",.number (.integer 1)),
    ("system_fingerprint",.string "ait-proxy")]

def reasoningJson : SerdeJson where
  fromSlice body :=
    if body = reasoningText then some reasoningValue
    else if body = contentText then some contentValue
    else none
  toVec
    | .object [("reasoning",.number (.integer 1)),
        ("reasoning_content",.object [("reasoning",.number (.integer 2))])] => some reasoningText
    | .object [("model",.string "ai"),("reasoning_content",.number (.integer 1)),
        ("system_fingerprint",.string "ait-proxy")] => some contentText
    | _ => none

def ollamaCore : ProviderCore :=
  .new ⟨"p1","local",.ollama,"http://ai/v1",none,true,0,0⟩ ⟨5,[]⟩

def demoOllama : UpstreamProvider := .ollama ollamaCore

theorem reasoningJson_reads : reasoningJson.fromSlice reasoningText = some reasoningValue ∧
    reasoningJson.fromSlice contentText = some contentValue := by
  have hne : contentText ≠ reasoningText := by decide +kernel
  exact ⟨by simp [reasoningJson],by simp [reasoningJson,hne]⟩

theorem reasoningJson_roundTrips : reasoningJson.RoundTrips where
  sorted body m h := by
    simp only [reasoningJson] at h
    split_ifs at h
    · obtain rfl := Value.object.inj (Option.some.inj h)
      unfold Fields.Sorted
      decide +kernel
    · obtain rfl := Value.object.inj (Option.some.inj h)
      unfold Fields.Sorted
      decide +kernel
  reads_back v b h := by
    simp only [reasoningJson] at h
    split at h
    · obtain rfl := Option.some.inj h
      exact reasoningJson_reads.1
    · obtain rfl := Option.some.inj h
      exact reasoningJson_reads.2
    · cases h

theorem reasoningValue_rewritten :
    demoOllama.rewrite reasoningValue "ai" = contentValue := rfl

theorem child_contentValue {place : Place} {v : Value} (h : contentValue.child place = some v) :
    ∀ place, v.child place = none := by
  cases place with
  | item i => cases h
  | member key =>
    obtain ⟨f,hf,rfl⟩ := Option.map_eq_some_iff.mp h
    have hmem := List.mem_of_find?_eq_some hf
    simp only [List.mem_cons,List.not_mem_nil,or_false] at hmem
    intro place
    rcases hmem with rfl | rfl | rfl <;> cases place <;> rfl

/-- The outer `reasoning` moves and the usage stays. -/
theorem transformResponse_laws_reasoning :
    let sent := demoOllama.transformResponse reasoningJson reasoningText "ai"
    sent = contentText ∧
    (∃ w, reasoningJson.fromSlice sent = some w ∧
      w.pointer [.member "reasoning_content"] = some (.number (.integer 1))) ∧
    parseUsage reasoningJson sent = parseUsage reasoningJson reasoningText := by
  intro sent
  have hread := reasoningJson_reads.1
  have hwritten : reasoningJson.toVec contentValue = some contentText := rfl
  have hlaws := transformResponse_laws reasoningJson reasoningJson_roundTrips demoOllama "ai"
    reasoningText fun v hv => by
      obtain rfl := Option.some.inj (hread.symm.trans hv)
      exact ⟨contentText,by rw [reasoningValue_rewritten,hwritten]⟩
  obtain ⟨-,-,-,hollama,husage⟩ := hlaws
  obtain ⟨w,hw,-,hmoved⟩ := hollama ollamaCore reasoningValue rfl hread
  refine ⟨?_,⟨w,hw,hmoved [] (.number (.integer 1)) (.here _) trivial rfl⟩,husage⟩
  simp only [sent,UpstreamProvider.transformResponse,hread,reasoningValue_rewritten,hwritten,
    Option.getD_some]

/-- The inner `reasoning` is gone with the field it stood in. -/
theorem reasoning_displaced :
    ¬ ∀ (json : SerdeJson) (_ : json.RoundTrips) (core : ProviderCore) (modelName : String)
      (body : Bytes) (v w : Value), json.fromSlice body = some v →
      json.fromSlice (UpstreamProvider.transformResponse (.ollama core) json body modelName) =
        some w →
      ∀ path x, v.pointer (path ++ [.member "reasoning"]) = some x →
        ∃ path', w.pointer (path' ++ [.member "reasoning_content"]) =
          some (renameReasoningKey x) := by
  intro h
  have hread := reasoningJson_reads.1
  have hwritten : reasoningJson.toVec contentValue = some contentText := rfl
  have hsent : UpstreamProvider.transformResponse (.ollama ollamaCore) reasoningJson reasoningText
      "ai" = contentText := by
    change demoOllama.transformResponse reasoningJson reasoningText "ai" = contentText
    simp only [UpstreamProvider.transformResponse,hread,reasoningValue_rewritten,hwritten,
      Option.getD_some]
  obtain ⟨path,hpath⟩ := h reasoningJson reasoningJson_roundTrips ollamaCore "ai" reasoningText
    reasoningValue contentValue hread (by rw [hsent]; exact reasoningJson_reads.2)
    [.member "reasoning_content"] (.number (.integer 2)) rfl
  rw [Value.pointer_append] at hpath
  obtain ⟨u,hu,hget⟩ := Option.bind_eq_some_iff.mp hpath
  cases path with
  | nil =>
    obtain rfl := Option.some.inj hu
    cases hget
  | cons place path =>
    obtain ⟨v,hv,hrest⟩ := Option.bind_eq_some_iff.mp hu
    have hleaf := child_contentValue hv
    cases path with
    | nil =>
      obtain rfl := Option.some.inj hrest
      rw [Value.pointer,hleaf] at hget
      cases hget
    | cons place' path =>
      rw [Value.pointer,hleaf] at hrest
      cases hrest

end Ait
