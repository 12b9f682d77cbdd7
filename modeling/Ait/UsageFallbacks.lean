import Ait.TokenAgreement

/-!
# Where usage is looked up

Upstreams report their token counts at several places, and `parse_usage` tries one after the
other. Most of its fallbacks go on when a place gives no count; two go on only when its key is
missing.
-/

namespace Ait

inductive UsageField
  | promptTokens
  | completionTokens
  | totalTokens
  | cachedTokens
  deriving DecidableEq

def UsageTokens.field (tokens : UsageTokens) : UsageField → Option ℤ
  | .promptTokens => tokens.promptTokens
  | .completionTokens => tokens.completionTokens
  | .totalTokens => tokens.totalTokens
  | .cachedTokens => tokens.cachedTokens

def Value.lookup (v : Value) : List String → Option Value
  | [] => some v
  | key::path => (v.get key).bind fun w => w.lookup path

def Value.count (v : Value) (path : List String) : Option ℤ := (v.lookup path).bind Value.asI64

def usagePaths : List (List String) := [["usage"],["response","usage"]]

def UsageField.paths : UsageField → List (List String)
  | .promptTokens => [["prompt_tokens"],["input_tokens"]]
  | .completionTokens => [["completion_tokens"],["output_tokens"]]
  | .totalTokens => [["total_tokens"]]
  | .cachedTokens => [["prompt_tokens_details","cached_tokens"],
      ["completion_tokens_details","cached_tokens"],["input_tokens_details","cached_tokens"],
      ["cached_tokens"]]

def UsageTokens.Complete (tokens : UsageTokens) (v : Value) : Prop :=
  ∀ f : UsageField, ∀ usage ∈ usagePaths, ∀ path ∈ f.paths,
    (v.count (usage ++ path)).isSome = true → (tokens.field f).isSome = true

namespace UsageField

def FoundIn (f : UsageField) (usage : Value) : Prop :=
  ∃ path ∈ f.paths, (usage.count path).isSome = true

/-- The total may be added up. -/
def GivenBy (f : UsageField) (usage : Value) : Prop :=
  f.FoundIn usage ∨
    f = .totalTokens ∧ promptTokens.FoundIn usage ∧ completionTokens.FoundIn usage

end UsageField

/-- Prompt details without cached tokens stand before completion details that have them, and no
later place has them too. -/
def Value.HidesDetails (usage : Value) : Prop :=
  (usage.get "prompt_tokens_details").isSome = true ∧
    usage.count ["prompt_tokens_details","cached_tokens"] = none ∧
    (usage.count ["completion_tokens_details","cached_tokens"]).isSome = true ∧
    usage.count ["input_tokens_details","cached_tokens"] = none ∧
    usage.count ["cached_tokens"] = none

/-- A usage at the top level, of whatever shape, stands before one in the response that gives a
count it does not give. -/
def Value.HidesResponse (v : Value) : Prop :=
  ∃ usage nested, v.lookup ["usage"] = some usage ∧
    v.lookup ["response","usage"] = some nested ∧
    ∃ f : UsageField, f.FoundIn nested ∧ ¬f.GivenBy usage

def Value.firstUsage (v : Value) : Option Value :=
  (v.lookup ["usage"]).or (v.lookup ["response","usage"])

section Found

variable {v u : Value}

@[simp] theorem Value.lookup_cons (v : Value) (key : String) (path : List String) :
    v.lookup (key::path) = (v.get key).bind fun w => w.lookup path := rfl

@[simp] theorem Value.lookup_singleton (v : Value) (key : String) : v.lookup [key] = v.get key :=
  Option.bind_fun_some _

@[simp] theorem Value.count_nil (v : Value) : v.count [] = v.asI64 := rfl

@[simp] theorem Value.count_append (v : Value) (usage path : List String) :
    v.count (usage ++ path) = (v.lookup usage).bind fun u => u.count path := by
  induction usage generalizing v with
  | nil => rfl
  | cons key usage ih =>
    rw [List.cons_append,count,lookup_cons,lookup_cons,Option.bind_assoc,Option.bind_assoc]
    exact congrArg _ (funext ih)

@[simp] theorem Value.count_cons (v : Value) (key : String) (path : List String) :
    v.count (key::path) = (v.get key).bind fun w => w.count path := by
  rw [← lookup_singleton]
  exact v.count_append [key] path

theorem complete_iff {tokens : UsageTokens} :
    tokens.Complete v ↔ ∀ usage ∈ usagePaths, ∀ u, v.lookup usage = some u →
      ∀ f : UsageField, f.FoundIn u → (tokens.field f).isSome = true := by
  constructor
  · intro h usage husage u hu f hfound
    obtain ⟨path,hpath,hcount⟩ := hfound
    refine h f usage husage path hpath ?_
    rw [Value.count_append,hu]
    exact hcount
  · intro h f usage husage path hpath hcount
    rw [Value.count_append] at hcount
    cases hu : v.lookup usage with
    | none => simp [hu] at hcount
    | some u =>
      rw [hu] at hcount
      exact h usage husage u hu f ⟨path,hpath,hcount⟩

theorem firstUsage_eq (v : Value) :
    v.firstUsage = (v.get "usage").or ((v.get "response").bind fun r => r.get "usage") := by
  simp only [Value.firstUsage,Value.lookup_cons _ "response",Value.lookup_singleton]

@[simp] theorem field_of_none (h : v.firstUsage = none) (f : UsageField) :
    (valueUsage v).field f = none := by
  rw [firstUsage_eq] at h
  cases f <;> simp [valueUsage,parseUsage,parseUsageWith,h,UsageTokens.field]

theorem valueUsage_of_some (h : v.firstUsage = some u) :
    (valueUsage v).promptTokens = (u.count ["prompt_tokens"]).or (u.count ["input_tokens"]) ∧
      (valueUsage v).completionTokens =
        (u.count ["completion_tokens"]).or (u.count ["output_tokens"]) ∧
      (valueUsage v).cachedTokens =
        ((((u.get "prompt_tokens_details").or (u.get "completion_tokens_details")).bind
          fun d => d.count ["cached_tokens"]).or
            (u.count ["input_tokens_details","cached_tokens"])).or (u.count ["cached_tokens"]) := by
  rw [firstUsage_eq] at h
  simp only [valueUsage,parseUsage,parseUsageWith,Id.run_bind,Id.run_pure,h,Option.bind_some,
    Value.count_nil,Value.count_cons,and_self]

theorem totalTokens_isSome (h : v.firstUsage = some u) :
    (valueUsage v).totalTokens.isSome = true ↔ (u.count ["total_tokens"]).isSome = true ∨
      (valueUsage v).promptTokens.isSome = true ∧
        (valueUsage v).completionTokens.isSome = true := by
  rw [firstUsage_eq] at h
  simp only [valueUsage,parseUsage,parseUsageWith,Id.run_bind,Id.run_pure,run_totalWith,h,
    Option.bind_some,Value.count_cons,Value.count_nil]
  generalize ((u.get "prompt_tokens").bind Value.asI64).or _ = prompt
  generalize ((u.get "completion_tokens").bind Value.asI64).or _ = completion
  cases prompt with
  | none => simp
  | some prompt => cases completion <;> simp

theorem field_of_some (h : v.firstUsage = some u) (f : UsageField) :
    ((valueUsage v).field f).isSome = true ↔
      f.GivenBy u ∧ ¬(f = .cachedTokens ∧ u.HidesDetails) := by
  obtain ⟨hprompt,hcompletion,hcached⟩ := valueUsage_of_some h
  cases f with
  | promptTokens =>
    simp [UsageTokens.field,hprompt,UsageField.GivenBy,UsageField.FoundIn,UsageField.paths]
  | completionTokens =>
    simp [UsageTokens.field,hcompletion,UsageField.GivenBy,UsageField.FoundIn,UsageField.paths]
  | totalTokens =>
    rw [UsageTokens.field,totalTokens_isSome h,hprompt,hcompletion]
    simp [UsageField.GivenBy,UsageField.FoundIn,UsageField.paths]
  | cachedTokens =>
    have hgiven : UsageField.cachedTokens.GivenBy u ↔
        (u.count ["prompt_tokens_details","cached_tokens"]).isSome = true ∨
          (u.count ["completion_tokens_details","cached_tokens"]).isSome = true ∨
          (u.count ["input_tokens_details","cached_tokens"]).isSome = true ∨
          (u.count ["cached_tokens"]).isSome = true := by
      simp [UsageField.GivenBy,UsageField.FoundIn,UsageField.paths]
    simp only [UsageTokens.field,hcached,Option.isSome_or,Bool.or_eq_true,hgiven,true_and,
      Value.HidesDetails,← Option.not_isSome_iff_eq_none]
    cases hdetails : u.get "prompt_tokens_details" with
    | none =>
      have hnone : u.count ["prompt_tokens_details","cached_tokens"] = none := by
        rw [Value.count_cons,hdetails,Option.bind_none]
      simp only [hnone,Option.none_or,← Value.count_cons]
      simp [or_assoc]
    | some d =>
      have hsome : u.count ["prompt_tokens_details","cached_tokens"] =
          d.count ["cached_tokens"] := by
        rw [Value.count_cons,hdetails,Option.bind_some]
      simp only [hsome,Option.some_or,Option.bind_some,Option.isSome_some,true_and]
      tauto

end Found

theorem Value.HidesDetails.found {u : Value} (h : u.HidesDetails) :
    UsageField.cachedTokens.FoundIn u :=
  ⟨_,by simp [UsageField.paths],h.2.2.1⟩

/-- The counts of a payload are complete unless one of the two fallbacks hides some. -/
theorem valueUsage_complete (v : Value) :
    (valueUsage v).Complete v ↔
      ¬v.HidesResponse ∧ ∀ u, v.firstUsage = some u → ¬u.HidesDetails := by
  rw [complete_iff]
  constructor
  · intro h
    refine ⟨?_,?_⟩
    · rintro ⟨usage,nested,husage,hnested,f,hfound,hgiven⟩
      have hfirst : v.firstUsage = some usage := by rw [Value.firstUsage,husage,Option.some_or]
      have hsome := h _ (by simp [usagePaths]) nested hnested f hfound
      exact hgiven ((field_of_some hfirst f).mp hsome).1
    · intro u hfirst hhides
      obtain ⟨usage,hmem,hu⟩ : ∃ usage ∈ usagePaths, v.lookup usage = some u := by
        rcases Option.or_eq_some_iff.mp hfirst with hu | ⟨-,hu⟩
        · exact ⟨_,by simp [usagePaths],hu⟩
        · exact ⟨_,by simp [usagePaths],hu⟩
      have hsome := h usage hmem u hu .cachedTokens hhides.found
      exact ((field_of_some hfirst _).mp hsome).2 ⟨rfl,hhides⟩
  · rintro ⟨hresponse,hdetails⟩ usage hmem u hu f hfound
    simp only [usagePaths,List.mem_cons,List.not_mem_nil,or_false] at hmem
    cases htop : v.lookup ["usage"] with
    | none =>
      have hnested : v.lookup ["response","usage"] = some u := by
        rcases hmem with rfl | rfl
        · simp [htop] at hu
        · exact hu
      have hfirst : v.firstUsage = some u := by
        rw [Value.firstUsage,htop,Option.none_or,hnested]
      exact (field_of_some hfirst f).mpr ⟨.inl hfound,fun hhides => hdetails u hfirst hhides.2⟩
    | some top =>
      have hfirst : v.firstUsage = some top := by rw [Value.firstUsage,htop,Option.some_or]
      have hgiven : f.GivenBy top := by
        rcases hmem with rfl | rfl
        · obtain rfl := Option.some.inj (htop.symm.trans hu)
          exact .inl hfound
        · by_contra hnot
          exact hresponse ⟨top,u,htop,hu,f,hfound,hnot⟩
      exact (field_of_some hfirst f).mpr ⟨hgiven,fun hhides => hdetails top hfirst hhides.2⟩

/-- Of every payload that is JSON, `parse_usage` finds all counts exactly if none of them is
hidden. -/
theorem parseUsage_complete (json : SerdeJson) (body : Bytes) (v : Value)
    (hbody : json.fromSlice body = some v) :
    (parseUsage json body).Complete v ↔
      ¬v.HidesResponse ∧ ∀ u, v.firstUsage = some u → ¬u.HidesDetails := by
  rw [parseUsage_eq hbody]
  exact valueUsage_complete v

def readOnly (text : Bytes) (v : Value) : SerdeJson :=
  ⟨fun body => if body = text then some v else none,fun _ => none⟩

/-- A null and an empty object do not hide the counts after them. -/
theorem parseUsage_complete_null :
    let text := utf8 "\x7b\"usage\":\x7b\"prompt_tokens\":null,\"input_tokens\":7," ++
      utf8 "\"input_tokens_details\":\x7b\x7d,\"cached_tokens\":3\x7d\x7d"
    let v : Value := .object [("usage",.object [("cached_tokens",.number (.integer 3)),
      ("input_tokens",.number (.integer 7)),("input_tokens_details",.object []),
      ("prompt_tokens",.null)])]
    (parseUsage (readOnly text v) text).Complete v := by
  intro text v
  refine (parseUsage_complete (readOnly text v) text v (by simp [readOnly])).mpr ⟨?_,?_⟩
  · rintro ⟨usage,nested,-,hnested,-⟩
    cases hnested
  · intro u hu hhides
    obtain rfl := Option.some.inj hu
    exact absurd hhides.1 (by decide)

/-- A null usage hides the response's, null prompt details hide the completion details. -/
theorem parseUsage_hides :
    (let text := utf8 "\x7b\"usage\":null," ++
        utf8 "\"response\":\x7b\"usage\":\x7b\"input_tokens\":7\x7d\x7d\x7d"
      let v : Value := .object [("response",.object [("usage",.object
        [("input_tokens",.number (.integer 7))])]),("usage",.null)]
      ¬(parseUsage (readOnly text v) text).Complete v) ∧
    (let text := utf8 "\x7b\"usage\":\x7b\"prompt_tokens_details\":null," ++
        utf8 "\"completion_tokens_details\":\x7b\"cached_tokens\":7\x7d\x7d\x7d"
      let v : Value := .object [("usage",.object [("completion_tokens_details",.object
        [("cached_tokens",.number (.integer 7))]),("prompt_tokens_details",.null)])]
      ¬(parseUsage (readOnly text v) text).Complete v) := by
  refine ⟨fun h => ?_,fun h => ?_⟩
  · have hsome := h .promptTokens ["response","usage"] (by decide) ["input_tokens"] (by decide)
      (by decide +kernel)
    exact absurd hsome (by decide +kernel)
  · have hsome := h .cachedTokens ["usage"] (by decide)
      ["completion_tokens_details","cached_tokens"] (by decide) (by decide +kernel)
    exact absurd hsome (by decide +kernel)

end Ait
