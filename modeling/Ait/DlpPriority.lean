import Ait.Dlp
import Ait.Matches

/-!
# Which of the sensitive values is reported

The scanner reports the lowest number among the matches of its search. The matches do
not overlap, so a rule can occur in a leaf without being among them: the rule reported is the
first configured one only where the search comes to see that one.
-/

namespace Ait

open Search (pieces EndsIn Reports)

def patterns (rules : List String) : List (List Char) := rules.map String.toList

/-- The matches follow one another without overlap, each the one that ends first; which one it is
where several end at once is left open. -/
def AhoCorasick.Standard (ac : AhoCorasick) : Prop :=
  ∀ rules findIter, "" ∉ rules → ac.new rules = some findIter →
    ∀ text : String, Reports (patterns rules) text.toList (findIter text)

/-- Number `i` is the lowest of a non-empty rule that occurs in one of the texts. -/
def FirstOccurring (rules texts : List String) (i : ℕ) : Prop :=
  IsLeast {i | ∃ rule, rules[i]? = some rule ∧ rule ≠ "" ∧ ∃ text ∈ texts, Occurs rule text} i

/-- `rule` is the first configured one of those that occur. -/
def HighestPriority (config : DlpConfig) (texts : List String) (rule : String) : Prop :=
  ∃ i, FirstOccurring config.sensitiveValues texts i ∧ config.sensitiveValues[i]? = some rule

section Surfacing

variable (rules texts : List String) (findIter : String → List ℕ)

/-- Several rules end piece `k` of the text, the report names rule `top` there, and where it names a
later copy of it, no other rule configured before the copy is reported. -/
def WinsTie (text : String) (k top : ℕ) : Prop :=
  ∃ i, (findIter text)[k]? = some i ∧ rules[i]? = rules[top]? ∧
    ∀ other ∈ texts, ∀ j ∈ findIter other, j < i → rules[j]? = rules[top]?

/-- Some piece of some text ends in rule `top` and in no other, or the tie goes to `top`. -/
def Surfaces (top : ℕ) : Prop :=
  ∃ text ∈ texts, ∃ k piece, (pieces (patterns rules) text.toList)[k]? = some piece ∧
    EndsIn (patterns rules) piece top ∧
    ((∀ i, EndsIn (patterns rules) piece i → i = top) ∨ WinsTie rules texts findIter text k top)

/-- No rule ends in another, and none is configured twice. -/
def Untied : Prop :=
  ∀ (i j : ℕ) (rule other : String), rules[i]? = some rule → rules[j]? = some other →
    rule.toList <:+ other.toList → i = j

end Surfacing

section FirstOccurring

variable {rules texts : List String} {rule : String} {idx top : ℕ}

theorem isLeast_index_iff (rules : List String) (p : String → Bool) (rule : String) :
    (∃ i, IsLeast {i : ℕ | ∃ rule, rules[i]? = some rule ∧ p rule = true} i ∧
      rules[i]? = some rule) ↔ rules.find? p = some rule := by
  rw [List.find?_eq_some_iff_getElem]
  constructor
  · rintro ⟨i,⟨⟨r,hr,hp⟩,hleast⟩,hi⟩
    obtain rfl := Option.some.inj (hr.symm.trans hi)
    obtain ⟨hlt,hget⟩ := List.getElem?_eq_some_iff.mp hi
    refine ⟨hp,i,hlt,hget,fun j hj => ?_⟩
    rw [Bool.not_eq_true']
    by_contra hpj
    have hle := hleast ⟨_,List.getElem?_eq_getElem (hj.trans hlt),by simpa using hpj⟩
    omega
  · rintro ⟨hp,i,hlt,hget,hfirst⟩
    have hi : rules[i]? = some rule := List.getElem?_eq_some_iff.mpr ⟨hlt,hget⟩
    refine ⟨i,⟨⟨rule,hi,hp⟩,?_⟩,hi⟩
    rintro j ⟨r,hr,hpr⟩
    by_contra hj
    obtain ⟨hlt',rfl⟩ := List.getElem?_eq_some_iff.mp hr
    have hnot := hfirst j (by omega)
    rw [hpr] at hnot
    cases hnot

theorem highestPriority_iff (config : DlpConfig) :
    HighestPriority config texts rule ↔
      ∃ i, FirstOccurring (config.sensitiveValues.filter fun v => v ≠ "") texts i ∧
        (config.sensitiveValues.filter fun v => v ≠ "")[i]? = some rule := by
  classical
  let p : String → Bool := fun rule => rule ≠ "" ∧ ∃ text ∈ texts, Occurs rule text
  have hp : ∀ rule, p rule = true ↔ rule ≠ "" ∧ ∃ text ∈ texts, Occurs rule text := fun rule =>
    decide_eq_true_iff
  have hfilter : (config.sensitiveValues.filter fun v => v ≠ "").find? p =
      config.sensitiveValues.find? p := by
    rw [List.find?_filter]
    congr 1
    funext rule
    by_cases hne : rule = "" <;> simp [p,hne]
  have hleft := isLeast_index_iff config.sensitiveValues p rule
  have hright := isLeast_index_iff (config.sensitiveValues.filter fun v => v ≠ "") p rule
  simp only [hp] at hleft hright
  exact hleft.trans (hfilter ▸ hright.symm)

theorem endsIn_patterns {piece : List Char} : EndsIn (patterns rules) piece idx ↔
    ∃ rule, rules[idx]? = some rule ∧ rule.toList <:+ piece := by
  simp only [EndsIn,patterns,List.getElem?_map,Option.map_eq_some_iff]
  constructor
  · rintro ⟨pat,⟨rule,hrule,rfl⟩,hsuffix⟩
    exact ⟨rule,hrule,hsuffix⟩
  · rintro ⟨rule,hrule,hsuffix⟩
    exact ⟨_,⟨rule,hrule,rfl⟩,hsuffix⟩

theorem nil_not_mem_patterns (hempty : "" ∉ rules) : [] ∉ patterns rules := by
  intro hnil
  obtain ⟨rule,hrule,htext⟩ := List.mem_map.mp hnil
  rw [String.toList_eq_nil_iff] at htext
  exact hempty (htext ▸ hrule)

/-- Two rules that end the same piece are a rule and one that ends in it. -/
theorem surfaces_iff_of_untied {findIter : String → List ℕ} (huntied : Untied rules) :
    Surfaces rules texts findIter top ↔
      ∃ text ∈ texts, ∃ piece ∈ pieces (patterns rules) text.toList,
        EndsIn (patterns rules) piece top := by
  constructor
  · rintro ⟨text,htext,k,piece,hpiece,hends,-⟩
    exact ⟨text,htext,piece,List.mem_of_getElem? hpiece,hends⟩
  · rintro ⟨text,htext,piece,hmem,hends⟩
    obtain ⟨k,hpiece⟩ := List.mem_iff_getElem?.mp hmem
    refine ⟨text,htext,k,piece,hpiece,hends,.inl fun i hi => ?_⟩
    obtain ⟨rule,hrule,hsuffix⟩ := endsIn_patterns.mp hends
    obtain ⟨other,hother,hsuffix'⟩ := endsIn_patterns.mp hi
    rcases List.suffix_or_suffix_of_suffix hsuffix hsuffix' with hle | hle
    · exact (huntied _ _ _ _ hrule hother hle).symm
    · exact huntied _ _ _ _ hother hrule hle

section Reported

variable {findIter : String → List ℕ} (hempty : "" ∉ rules)
  (hreports : ∀ text : String, Reports (patterns rules) text.toList (findIter text))
include hempty hreports

/-- What is reported is a rule that occurs, so none before the first occurring one. -/
theorem FirstOccurring.le_reported (htop : FirstOccurring rules texts top) {text : String}
    (htext : text ∈ texts) (hidx : idx ∈ findIter text) : top ≤ idx := by
  obtain ⟨pat,hpat,hoccurs⟩ := (hreports text).isInfix hidx
  rw [patterns,List.getElem?_map,Option.map_eq_some_iff] at hpat
  obtain ⟨rule,hrule,rfl⟩ := hpat
  refine htop.2 ⟨rule,hrule,?_,text,htext,hoccurs⟩
  rintro rfl
  exact hempty (List.mem_of_getElem? hrule)

/-- The lowest of the numbers reported is that of the first occurring rule, or of a copy of it,
exactly when the first occurring rule surfaces. -/
theorem FirstOccurring.surfaces_iff (htop : FirstOccurring rules texts top)
    (hidx : IsLeast {i | ∃ text ∈ texts, i ∈ findIter text} idx) :
    rules[idx]? = rules[top]? ↔ Surfaces rules texts findIter top := by
  obtain ⟨⟨text,htext,hmem⟩,hleast⟩ := hidx
  constructor
  · intro hcopy
    obtain ⟨k,hk⟩ := List.mem_iff_getElem?.mp hmem
    obtain ⟨piece,hpiece,hends⟩ := (hreports text).endsIn hk
    obtain ⟨rule,hrule,hsuffix⟩ := endsIn_patterns.mp hends
    refine ⟨text,htext,k,piece,hpiece,endsIn_patterns.mpr ⟨rule,hcopy ▸ hrule,hsuffix⟩,.inr ?_⟩
    refine ⟨idx,hk,hcopy,fun other hother j hj hlt => ?_⟩
    have hle := hleast ⟨other,hother,hj⟩
    omega
  · rintro ⟨text,htext,k,piece,hpiece,-,halone | ⟨i,hk,hcopy,hbefore⟩⟩
    · obtain ⟨i,hk,hends⟩ := (hreports text).reported hpiece
      obtain rfl := halone i hends
      have hle := hleast ⟨text,htext,List.mem_of_getElem? hk⟩
      have hge := htop.le_reported hempty hreports ‹_› hmem
      rw [le_antisymm hle hge]
    · have hle := hleast ⟨text,htext,List.mem_of_getElem? hk⟩
      rcases hle.lt_or_eq with hlt | rfl
      · exact hbefore _ ‹_› idx hmem hlt
      · exact hcopy

end Reported
end FirstOccurring

namespace DlpScanner

variable {ac : AhoCorasick} {config : DlpConfig} {findIter : String → List ℕ}
  (render : Number → String) (body : Value)

theorem nil_not_mem_rules (ac : AhoCorasick) (config : DlpConfig) : "" ∉ (new ac config).rules := by
  intro hmem
  simpa using (List.mem_filter.mp hmem).2

theorem scan_eq_some {rule : String} (hbuilt : ac.new (new ac config).rules = some findIter)
    (h : (new ac config).scan render body = some rule) :
    ∃ idx, (new ac config).rules[idx]? = some rule ∧
      IsLeast {i | ∃ text ∈ body.leaves.filterMap (scannedText render config.scanNumbers),
        i ∈ findIter text} idx := by
  have henabled : (new ac config).isEnabled = true := by
    by_contra hoff
    have hfalse : (new ac config).enabled = false := by simpa [isEnabled] using hoff
    simp [scan,hfalse] at h
  rw [scan_of_enabled config render body henabled hbuilt,Option.bind_eq_some_iff] at h
  obtain ⟨idx,hlow,hrule⟩ := h
  refine ⟨idx,hrule,?_,?_⟩
  · rcases lowest_mem hlow with hnone | hmem
    · cases hnone
    · exact List.mem_flatMap.mp hmem
  · exact fun i hi => (lowest_le hlow).2 i (List.mem_flatMap.mpr hi)

theorem scan_isSome_of_standard (hac : ac.Standard)
    (hbuilt : ac.new (new ac config).rules = some findIter)
    (henabled : (new ac config).isEnabled = true) :
    ((new ac config).scan render body).isSome = true ↔
      ∃ text ∈ body.leaves.filterMap (scannedText render config.scanNumbers),
        ∃ rule ∈ (new ac config).rules, Occurs rule text := by
  have hempty := nil_not_mem_rules ac config
  have hreports := hac _ _ hempty hbuilt
  have hvalid : ∀ text, ∀ idx ∈ findIter text, idx < (new ac config).rules.length := by
    intro text idx hidx
    obtain ⟨pat,hpat,-⟩ := (hreports text).isInfix hidx
    have hlt := (List.getElem?_eq_some_iff.mp hpat).1
    rwa [patterns,List.length_map] at hlt
  rw [scan_isSome_of_enabled config render body henabled hbuilt hvalid]
  simp only [(hreports _).ne_nil_iff (nil_not_mem_patterns hempty),patterns,List.mem_map,
    exists_exists_and_eq_and,Occurs]

/-- The rule reported is the first configured one of those that occur exactly when that one
surfaces: in some scanned text, cut wherever a rule first ends, a piece ends in it and in no
other rule, or the matcher resolves the tie for it. Where no rule ends in another, it is enough that a
piece ends in it. -/
theorem priority_iff (ac : AhoCorasick) (hac : ac.Standard) (config : DlpConfig)
    (render : Number → String) (body : Value) (findIter : String → List ℕ)
    (hbuilt : ac.new (new ac config).rules = some findIter) (rule : String)
    (h : (new ac config).scan render body = some rule) :
    let rules := (new ac config).rules
    let texts := body.leaves.filterMap (scannedText render config.scanNumbers)
    (HighestPriority config texts rule ↔
      ∃ top, FirstOccurring rules texts top ∧ Surfaces rules texts findIter top) ∧
    (Untied rules → (HighestPriority config texts rule ↔
      ∃ top, FirstOccurring rules texts top ∧
        ∃ text ∈ texts, ∃ piece ∈ pieces (patterns rules) text.toList,
          EndsIn (patterns rules) piece top)) := by
  intro rules texts
  have hempty : "" ∉ rules := nil_not_mem_rules ac config
  have hreports := hac _ _ hempty hbuilt
  obtain ⟨idx,hrule,hidx⟩ := scan_eq_some render body hbuilt h
  have hiff : HighestPriority config texts rule ↔
      ∃ top, FirstOccurring rules texts top ∧ Surfaces rules texts findIter top := by
    rw [highestPriority_iff]
    constructor
    · rintro ⟨top,htop,hget⟩
      exact ⟨top,htop,(htop.surfaces_iff hempty hreports hidx).mp (hrule.trans hget.symm)⟩
    · rintro ⟨top,htop,hsurfaces⟩
      have hcopy := (htop.surfaces_iff hempty hreports hidx).mpr hsurfaces
      exact ⟨top,htop,hcopy.symm.trans hrule⟩
  refine ⟨hiff,fun huntied => ?_⟩
  simp only [hiff,surfaces_iff_of_untied huntied]

end DlpScanner

/-- A matcher that reports, of the rules that end first, the one configured first. -/
def standardMatcher : AhoCorasick where
  new rules := some fun text => Search.findFirst (patterns rules) text.toList

theorem standardMatcher_standard : standardMatcher.Standard := by
  intro rules findIter _ hbuilt text
  obtain rfl := Option.some.inj hbuilt
  exact Search.findFirst_reports (patterns rules) text.toList

/-- Rules that stand apart are reported by priority, not in the order of the text. -/
theorem DlpScanner.priority_iff_apart :
    HighestPriority { enabled := true,sensitiveValues := ["aaa","","bbb"],scanNumbers := false }
      ["bbb then aaa"] "aaa" := by
  have hscan : (DlpScanner.new standardMatcher
      { enabled := true,sensitiveValues := ["aaa","","bbb"],scanNumbers := false }).scan (fun _ => "")
        (.object [("prompt",.string "bbb then aaa")]) = some "aaa" := by decide +kernel
  refine (DlpScanner.priority_iff standardMatcher standardMatcher_standard _ _ _ _ rfl "aaa"
    hscan).1.mpr ⟨0,⟨⟨"aaa",rfl,by decide,"bbb then aaa",by decide,?_⟩,fun _ _ => Nat.zero_le _⟩,?_⟩
  · exact ⟨"bbb then ".toList,[],by decide +kernel⟩
  · refine ⟨"bbb then aaa",by decide,1," then aaa".toList,by decide +kernel,
      endsIn_patterns.mpr ⟨"aaa",rfl," then ".toList,by decide +kernel⟩,.inl fun i hi => ?_⟩
    obtain ⟨rule,hrule,hsuffix⟩ := endsIn_patterns.mp hi
    rcases i with _ | _ | i
    · rfl
    · obtain rfl : "bbb" = rule := Option.some.inj hrule
      revert hsuffix
      decide +kernel
    · cases hrule

/-- A rule that begins with one configured after it is found and not reported. -/
theorem DlpScanner.later_rule_reported :
    ¬ ∀ (ac : AhoCorasick), ac.Standard → ∀ (config : DlpConfig) (render : Number → String)
      (body : Value) (rule : String), (DlpScanner.new ac config).scan render body = some rule →
        HighestPriority config (body.leaves.filterMap (scannedText render config.scanNumbers)) rule := by
  intro hall
  have hscan : (DlpScanner.new standardMatcher
      { enabled := true,sensitiveValues := ["secret-key","secret"],scanNumbers := false }).scan
        (fun _ => "") (.object [("prompt",.string "my secret-key")]) = some "secret" := by
    decide +kernel
  obtain ⟨i,⟨-,hleast⟩,hi⟩ := hall standardMatcher standardMatcher_standard _ _ _ _ hscan
  have hzero : i ≤ 0 := hleast
    ⟨"secret-key",rfl,by decide,"my secret-key",by decide,"my ".toList,[],by decide +kernel⟩
  obtain rfl := Nat.le_zero.mp hzero
  revert hi
  decide

end Ait
