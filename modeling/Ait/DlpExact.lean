import Ait.Forward

/-!
# What the scanner lets through

An enabled scanner blocks exactly the bodies in which some rule occurs, and what the
proxy changes in a body that passed brings no rule back.
-/

namespace Ait

def Value.without (v : Value) (key : String) : Value :=
  match v with
  | .object m => .object (Fields.remove m key)
  | v => v

section Leaves

variable {m : Fields} {stream : Bool} {upstreamModel upstreamPath : String}

theorem leavesOfFields_eq (m : Fields) : leavesOfFields m = m.flatMap fun f => f.2.leaves := by
  induction m with
  | nil => rfl
  | cons f m ih => simp [leavesOfFields,ih]

@[simp] theorem mem_strings_object {m : Fields} {s : String} :
    s ∈ (Value.object m).strings ↔ ∃ f ∈ m, s ∈ f.2.strings := by
  simp only [Value.strings,Value.leaves,leavesOfFields_eq,List.mem_filterMap,List.mem_flatMap]
  constructor
  · rintro ⟨leaf,⟨f,hf,hleaf⟩,hs⟩
    exact ⟨f,hf,leaf,hleaf,hs⟩
  · rintro ⟨f,hf,leaf,hleaf,hs⟩
    exact ⟨leaf,⟨f,hf,hleaf⟩,hs⟩

/-- Besides the model name, every string that is sent was in the client's body. -/
theorem strings_finalFields {s : String}
    (h : s ∈ (Value.without
      (.object (finalFields m stream upstreamModel upstreamPath)) "model").strings) :
    s ∈ (Value.object m).strings := by
  obtain ⟨f,hf,hs⟩ := mem_strings_object.mp h
  obtain ⟨hf,hkey⟩ := List.mem_filter.mp hf
  rcases mem_finalFields hf with hf | rfl | rfl | rfl
  · exact mem_strings_object.mpr ⟨f,hf,hs⟩
  · simp at hkey
  · simp [Value.strings,Value.leaves] at hs
  · simp [Value.strings,Value.leaves,leavesOfFields] at hs

end Leaves

/-- A body is blocked exactly when scanning is on and some rule occurs in one of its string values,
or in a number where those are scanned; and in a body sent upstream while scanning is on no rule
occurs in any string value but the model name. -/
theorem DlpScanner.dlp_exact (ac : AhoCorasick) (hac : ac.Lawful) (config : DlpConfig)
    (o : Outside) :
    (∀ body, ((DlpScanner.new ac config).scan o.render body).isSome = true ↔
      config.enabled = true ∧ ∃ rule ∈ config.sensitiveValues, rule ≠ "" ∧
        ((∃ s ∈ body.strings, Occurs rule s) ∨
          config.scanNumbers = true ∧ ∃ n ∈ body.numbers, Occurs rule (o.render n))) ∧
    ∀ settings s body bodyLen upstreamPath a d t logged,
      proxyRequest o settings (DlpScanner.new ac config) s body bodyLen upstreamPath a =
        some (.ok d,t,logged) → config.enabled = true →
      o.json.toVec d.request.sent = some d.request.body ∧
        ∀ rule ∈ config.sensitiveValues, rule ≠ "" →
          ∀ s ∈ (d.request.sent.without "model").strings, ¬Occurs rule s := by
  have hscan := DlpScanner.scan_isSome hac config o.render
  refine ⟨hscan,?_⟩
  intro settings s body bodyLen upstreamPath a d t logged h hon
  obtain ⟨hpass,_,m,rfl,-,-,-,hsent,hbytes⟩ := proxyRequest_ok h
  refine ⟨hbytes,fun rule hrule hne s hs hoccurs => ?_⟩
  have henabled := (DlpScanner.new_isEnabled hac config).mpr ⟨hon,rule,hrule,hne⟩
  have hnone := hpass henabled
  rw [hsent] at hs
  have hsome := (hscan (.object m)).mpr
    ⟨hon,rule,hrule,hne,.inl ⟨s,strings_finalFields hs,hoccurs⟩⟩
  rw [hnone] at hsome
  cases hsome

def demoMatcher : AhoCorasick where
  new rules := some fun text =>
    (rules.zipIdx.filter fun r => r.1.toList <:+: text.toList).map Prod.snd

theorem demoMatcher_lawful : demoMatcher.Lawful where
  builds := by simp [demoMatcher]
  finds rules findIter h text := by
    obtain rfl := Option.some.inj h
    simp only [ne_eq,List.map_eq_nil_iff,List.filter_eq_nil_iff,not_forall,exists_prop,
      decide_eq_true_eq,not_not,Occurs]
    constructor
    · rintro ⟨⟨rule,idx⟩,hmem,hoccurs⟩
      exact ⟨rule,List.fst_mem_of_mem_zipIdx hmem,by simpa using hoccurs⟩
    · rintro ⟨rule,hrule,hoccurs⟩
      obtain ⟨idx,hidx⟩ := List.mem_iff_getElem?.mp hrule
      exact ⟨(rule,idx),List.mem_zipIdx_iff_getElem?.mpr hidx,by simpa using hoccurs⟩
  valid rules findIter h text idx hidx := by
    obtain rfl := Option.some.inj h
    obtain ⟨r,hr,rfl⟩ := List.mem_map.mp hidx
    have hget := List.mem_zipIdx_iff_getElem?.mp (List.mem_filter.mp hr).1
    exact (List.getElem?_eq_some_iff.mp hget).1

/-- A harmless request passes a scanner with one rule. -/
theorem DlpScanner.dlp_exact_harmless :
    let config : DlpConfig := { enabled := true,sensitiveValues := ["","secret"],scanNumbers := true }
    let body : Value := .object [("input",.string "hi"),("model",.string "ai")]
    ∃ d t, proxyRequest demoOutside ⟨0,true,4⟩ (DlpScanner.new demoMatcher config) demoApp body 30
        "/responses" demoAnswers = some (.ok d,t,[]) ∧
      demoOutside.json.toVec d.request.sent = some d.request.body ∧
      ∀ s ∈ (d.request.sent.without "model").strings, ¬Occurs "secret" s := by
  intro config body
  have hok : ((proxyRequest demoOutside ⟨0,true,4⟩ (DlpScanner.new demoMatcher config) demoApp body 30
      "/responses" demoAnswers).map fun r => (r.1.toOption.isSome,r.2.2)) = some (true,[]) := by
    decide +kernel
  obtain ⟨⟨r,t,logged⟩,hrun,hr⟩ := Option.map_eq_some_iff.mp hok
  obtain ⟨hsome,hlogged⟩ := Prod.mk.inj hr
  cases r with
  | error e => cases hsome
  | ok d =>
    dsimp only at hlogged
    subst hlogged
    obtain ⟨hbytes,hclean⟩ := (DlpScanner.dlp_exact demoMatcher demoMatcher_lawful config
      demoOutside).2 _ _ _ _ _ _ d t [] hrun rfl
    exact ⟨d,t,hrun,hbytes,hclean "secret" (by simp [config]) (by simp)⟩

end Ait
