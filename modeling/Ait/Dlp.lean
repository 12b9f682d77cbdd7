import Ait.Json

/-!
# Sensitive values in request bodies

`DlpScanner` walks a JSON tree and keeps the lowest index among the configured rules
it has met. The multi-pattern matcher is a library's: an `AhoCorasick` builds one from
the rules, and a matcher lists the rules found in a text in the order it finds them.
-/

namespace Ait

mutual

def Value.leaves : Value → List Value
  | .array items => leavesOfItems items
  | .object fields => leavesOfFields fields
  | leaf => [leaf]

def leavesOfItems : List Value → List Value
  | [] => []
  | v::rest => v.leaves ++ leavesOfItems rest

def leavesOfFields : List (String × Value) → List Value
  | [] => []
  | (_,v)::rest => v.leaves ++ leavesOfFields rest

end

/-- Every string value in the tree; keys are not values. -/
def Value.strings (v : Value) : List String :=
  v.leaves.filterMap fun
    | .string s => some s
    | _ => none

def Value.numbers (v : Value) : List Number :=
  v.leaves.filterMap fun
    | .number n => some n
    | _ => none

/-- `rule` is a substring of `text`. -/
def Occurs (rule text : String) : Prop := rule.toList <:+: text.toList

/-- The matcher library: building may fail; a matcher yields the rules it finds in a text. -/
structure AhoCorasick where
  new : List String → Option (String → List ℕ)

/-- Building succeeds, something is found exactly when some rule occurs, and what is found is the
number of a rule. -/
structure AhoCorasick.Lawful (ac : AhoCorasick) : Prop where
  builds : ∀ rules, ac.new rules ≠ none
  finds : ∀ rules findIter, ac.new rules = some findIter →
    ∀ text, findIter text ≠ [] ↔ ∃ rule ∈ rules, Occurs rule text
  valid : ∀ rules findIter, ac.new rules = some findIter →
    ∀ text, ∀ idx ∈ findIter text, idx < rules.length

structure DlpConfig where
  enabled : Bool
  sensitiveValues : List String
  scanNumbers : Bool

structure DlpScanner where
  enabled : Bool
  rules : List String
  matcher : Option (String → List ℕ)
  scanNumbers : Bool

/-- The loop over the matches in one text; nothing is lower than rule 0. -/
def scanMatches : List ℕ → Option ℕ → Option ℕ
  | [], best => best
  | idx::rest, best =>
    let best := some (match best with
      | some prev => min prev idx
      | none => idx)
    if best = some 0 then best else scanMatches rest best

section Scan

variable (findIter : String → List ℕ) (render : Number → String) (scanNumbers : Bool)

def scanText (text : String) (best : Option ℕ) : Option ℕ := scanMatches (findIter text) best

mutual

def scanValue (v : Value) (best : Option ℕ) : Option ℕ :=
  if best = some 0 then best
  else
    match v with
    | .string s => scanText findIter s best
    | .number n => if scanNumbers then scanText findIter (render n) best else best
    | .array items => scanItems items best
    | .object fields => scanFields fields best
    | .null => best
    | .bool _ => best

def scanItems (items : List Value) (best : Option ℕ) : Option ℕ :=
  match items with
  | [] => best
  | v::rest =>
    let best := scanValue v best
    if best = some 0 then best else scanItems rest best

def scanFields (fields : List (String × Value)) (best : Option ℕ) : Option ℕ :=
  match fields with
  | [] => best
  | (_,v)::rest =>
    let best := scanValue v best
    if best = some 0 then best else scanFields rest best

end

def scannedText : Value → Option String
  | .string s => some s
  | .number n => if scanNumbers then some (render n) else none
  | _ => none

end Scan

namespace DlpScanner

/-- Empty rules would match everywhere and are dropped. -/
def new (ac : AhoCorasick) (config : DlpConfig) : DlpScanner :=
  let rules := config.sensitiveValues.filter fun v => v ≠ ""
  let enabled := config.enabled && !rules.isEmpty
  let matcher := if enabled then ac.new rules else none
  { enabled := enabled && matcher.isSome
    rules := rules
    matcher := matcher
    scanNumbers := config.scanNumbers }

def isEnabled (s : DlpScanner) : Bool := s.enabled

/-- The rule with the lowest number found anywhere in the body. -/
def scan (s : DlpScanner) (render : Number → String) (body : Value) : Option String :=
  if !s.enabled then none
  else
    match s.matcher with
    | none => none
    | some findIter => (scanValue findIter render s.scanNumbers body none).bind fun idx => s.rules[idx]?

end DlpScanner

def lowest (best : Option ℕ) (found : List ℕ) : Option ℕ :=
  found.foldl (fun best idx => some (best.elim idx (min · idx))) best

section Lowest

variable {best : Option ℕ} {found : List ℕ} {idx : ℕ}

@[simp] theorem lowest_append (best : Option ℕ) (found more : List ℕ) :
    lowest best (found ++ more) = lowest (lowest best found) more := by
  simp [lowest]

@[simp] theorem lowest_zero (found : List ℕ) : lowest (some 0) found = some 0 := by
  induction found with
  | nil => rfl
  | cons idx found ih =>
    have hzero : lowest (some 0) (idx::found) = lowest (some (min 0 idx)) found := rfl
    rw [hzero,Nat.zero_min,ih]

@[simp] theorem lowest_isSome (best : Option ℕ) (found : List ℕ) :
    (lowest best found).isSome ↔ best.isSome ∨ found ≠ [] := by
  induction found generalizing best with
  | nil => simp [lowest]
  | cons idx found ih =>
    have hcons : lowest best (idx::found) = lowest (some (best.elim idx (min · idx))) found := rfl
    rw [hcons,ih]
    simp

theorem lowest_mem (h : lowest best found = some idx) : best = some idx ∨ idx ∈ found := by
  induction found generalizing best with
  | nil => exact .inl h
  | cons i found ih =>
    rcases ih h with hbest | hmem
    · cases best with
      | none =>
        have hi : i = idx := Option.some.inj hbest
        exact .inr (by simp [hi])
      | some prev =>
        have hmin : min prev i = idx := Option.some.inj hbest
        by_cases hle : prev ≤ i
        · exact .inl (by rw [← hmin,Nat.min_eq_left hle])
        · have hlt : i ≤ prev := Nat.le_of_not_le hle
          exact .inr (by rw [← hmin,Nat.min_eq_right hlt]; exact List.mem_cons_self)
    · exact .inr (List.mem_cons_of_mem i hmem)

theorem lowest_le (h : lowest best found = some idx) :
    (∀ i ∈ best, idx ≤ i) ∧ ∀ i ∈ found, idx ≤ i := by
  induction found generalizing best with
  | nil =>
    obtain rfl : best = some idx := h
    exact ⟨fun i hi => (Option.some.inj hi).le,nofun⟩
  | cons i found ih =>
    obtain ⟨hbest,hfound⟩ := ih h
    have hmin := hbest _ rfl
    cases best with
    | none => exact ⟨nofun,List.forall_mem_cons.mpr ⟨hmin,hfound⟩⟩
    | some prev =>
      obtain ⟨hprev,hi⟩ := le_min_iff.mp hmin
      exact ⟨fun j hj => Option.some.inj hj ▸ hprev,List.forall_mem_cons.mpr ⟨hi,hfound⟩⟩

@[simp] theorem scanMatches_eq (found : List ℕ) (best : Option ℕ) :
    scanMatches found best = lowest best found := by
  induction found generalizing best with
  | nil => rfl
  | cons idx found ih =>
    have hcons : lowest best (idx::found) = lowest (some (best.elim idx (min · idx))) found := rfl
    have hstep : scanMatches (idx::found) best =
        if some (best.elim idx (min · idx)) = some 0 then some (best.elim idx (min · idx))
        else scanMatches found (some (best.elim idx (min · idx))) := by cases best <;> rfl
    rw [hstep,hcons]
    by_cases hzero : some (best.elim idx (min · idx)) = some 0
    · rw [if_pos hzero,hzero,lowest_zero]
    · rw [if_neg hzero,ih]

end Lowest

section Leaves

variable (findIter : String → List ℕ) (render : Number → String) (scanNumbers : Bool)

def foundIn (leaves : List Value) : List ℕ :=
  (leaves.filterMap (scannedText render scanNumbers)).flatMap findIter

@[simp] theorem foundIn_append (leaves more : List Value) :
    foundIn findIter render scanNumbers (leaves ++ more) =
      foundIn findIter render scanNumbers leaves ++ foundIn findIter render scanNumbers more := by
  simp [foundIn,List.filterMap_append]

@[simp] theorem lowest_stop (best : Option ℕ) (found : List ℕ) :
    (if best = some 0 then best else lowest best found) = lowest best found := by
  split
  · rename_i hzero
    rw [hzero,lowest_zero]
  · rfl

mutual

@[simp] theorem scanValue_eq (v : Value) (best : Option ℕ) :
    scanValue findIter render scanNumbers v best =
      lowest best (foundIn findIter render scanNumbers v.leaves) := by
  have hleaf : ∀ leaf : Value, foundIn findIter render scanNumbers [leaf] =
      ((scannedText render scanNumbers leaf).elim [] findIter) := by
    intro leaf
    cases h : scannedText render scanNumbers leaf <;> simp [foundIn,h]
  rw [scanValue.eq_def,← lowest_stop]
  split
  · rfl
  · cases v with
    | null => simp [Value.leaves,hleaf,scannedText,lowest]
    | bool b => simp [Value.leaves,hleaf,scannedText,lowest]
    | string s => simp [Value.leaves,hleaf,scannedText,scanText]
    | number n =>
      cases scanNumbers with
      | false => simp [Value.leaves,hleaf,scannedText,lowest]
      | true => simp [Value.leaves,hleaf,scannedText,scanText]
    | array items => exact scanItems_eq items best
    | object fields => exact scanFields_eq fields best

@[simp] theorem scanItems_eq (items : List Value) (best : Option ℕ) :
    scanItems findIter render scanNumbers items best =
      lowest best (foundIn findIter render scanNumbers (leavesOfItems items)) := by
  cases items with
  | nil => rfl
  | cons v rest =>
    rw [scanItems,leavesOfItems,foundIn_append,lowest_append,← scanValue_eq v best]
    rw [scanItems_eq rest]
    exact lowest_stop _ _

@[simp] theorem scanFields_eq (fields : List (String × Value)) (best : Option ℕ) :
    scanFields findIter render scanNumbers fields best =
      lowest best (foundIn findIter render scanNumbers (leavesOfFields fields)) := by
  cases fields with
  | nil => rfl
  | cons f rest =>
    obtain ⟨key,v⟩ := f
    rw [scanFields,leavesOfFields,foundIn_append,lowest_append,← scanValue_eq v best]
    rw [scanFields_eq rest]
    exact lowest_stop _ _

end

theorem mem_scannedTexts (v : Value) (text : String) :
    text ∈ v.leaves.filterMap (scannedText render scanNumbers) ↔
      text ∈ v.strings ∨ scanNumbers = true ∧ ∃ n ∈ v.numbers, render n = text := by
  simp only [Value.strings,Value.numbers,List.mem_filterMap]
  constructor
  · rintro ⟨leaf,hleaf,htext⟩
    cases leaf with
    | string s => exact .inl ⟨_,hleaf,htext⟩
    | number n =>
      cases scanNumbers with
      | false => cases htext
      | true => exact .inr ⟨rfl,n,⟨_,hleaf,rfl⟩,Option.some.inj htext⟩
    | _ => cases htext
  · rintro (⟨leaf,hleaf,htext⟩ | ⟨hnumbers,n,⟨leaf,hleaf,hn⟩,htext⟩)
    · cases leaf with
      | string s => exact ⟨_,hleaf,htext⟩
      | _ => cases htext
    · cases leaf with
      | number m =>
        obtain rfl := Option.some.inj hn
        exact ⟨_,hleaf,by simp [scannedText,hnumbers,htext]⟩
      | _ => cases hn

end Leaves

namespace DlpScanner

variable {ac : AhoCorasick} (hac : ac.Lawful) (config : DlpConfig) (render : Number → String)
  (body : Value)
include hac

@[simp] theorem new_isEnabled : (new ac config).isEnabled = true ↔
    config.enabled = true ∧ ∃ rule ∈ config.sensitiveValues, rule ≠ "" := by
  have hrules : (config.sensitiveValues.filter fun v => v ≠ "").isEmpty = false ↔
      ∃ rule ∈ config.sensitiveValues, rule ≠ "" := by
    simp [List.isEmpty_eq_false_iff]
  have hbuilt : ∀ rules, (ac.new rules).isSome = true := fun rules =>
    Option.isSome_iff_ne_none.mpr (hac.builds rules)
  rw [← hrules]
  simp only [new,isEnabled]
  cases config.enabled <;>
    cases (config.sensitiveValues.filter fun v => v ≠ "").isEmpty <;> simp [hbuilt]

omit hac in
/-- What an enabled scanner reports is the lowest of what its matcher finds in the leaves. -/
theorem scan_of_enabled {findIter : String → List ℕ} (henabled : (new ac config).isEnabled = true)
    (hbuilt : ac.new (new ac config).rules = some findIter) :
    (new ac config).scan render body =
      (lowest none (foundIn findIter render config.scanNumbers body.leaves)).bind
        fun idx => (new ac config).rules[idx]? := by
  have hon : (new ac config).enabled = true := henabled
  have hmatcher : (new ac config).matcher = some findIter := by
    have hif : (new ac config).matcher =
        if config.enabled && !(new ac config).rules.isEmpty then ac.new (new ac config).rules
        else none := rfl
    have hguard : (config.enabled && !(new ac config).rules.isEmpty) = true :=
      (Bool.and_eq_true_iff.mp hon).1
    rw [hif,hguard,if_pos rfl,hbuilt]
  unfold scan
  rw [hon,hmatcher]
  dsimp only
  rw [Bool.not_true,if_neg (by simp),scanValue_eq]
  rfl

omit hac in
/-- An enabled scanner reports a rule exactly when some leaf has a match. -/
theorem scan_isSome_of_enabled {findIter : String → List ℕ}
    (henabled : (new ac config).isEnabled = true)
    (hbuilt : ac.new (new ac config).rules = some findIter)
    (hvalid : ∀ text, ∀ idx ∈ findIter text, idx < (new ac config).rules.length) :
    ((new ac config).scan render body).isSome = true ↔
      ∃ text ∈ body.leaves.filterMap (scannedText render config.scanNumbers),
        findIter text ≠ [] := by
  have hfound : foundIn findIter render config.scanNumbers body.leaves ≠ [] ↔
      ∃ text ∈ body.leaves.filterMap (scannedText render config.scanNumbers), findIter text ≠ [] := by
    simp only [foundIn,ne_eq,List.flatMap_eq_nil_iff,not_forall,exists_prop]
  rw [scan_of_enabled config render body henabled hbuilt,← hfound]
  cases hlow : lowest none (foundIn findIter render config.scanNumbers body.leaves) with
  | none =>
    have hnone := lowest_isSome none (foundIn findIter render config.scanNumbers body.leaves)
    rw [hlow] at hnone
    simpa using hnone
  | some idx =>
    have hsome := lowest_isSome none (foundIn findIter render config.scanNumbers body.leaves)
    rw [hlow] at hsome
    have hmem : idx ∈ foundIn findIter render config.scanNumbers body.leaves := by
      rcases lowest_mem hlow with h | h
      · cases h
      · exact h
    obtain ⟨text,-,hidx⟩ := List.mem_flatMap.mp hmem
    have hlt := hvalid text idx hidx
    simp only [Option.bind_some,List.getElem?_eq_getElem hlt]
    simpa using hsome

/-- A scan reports a rule exactly when an enabled scanner has one that occurs in some leaf. -/
@[simp] theorem scan_isSome : ((new ac config).scan render body).isSome = true ↔
    config.enabled = true ∧ ∃ rule ∈ config.sensitiveValues, rule ≠ "" ∧
      ((∃ s ∈ body.strings, Occurs rule s) ∨
        config.scanNumbers = true ∧ ∃ n ∈ body.numbers, Occurs rule (render n)) := by
  by_cases henabled : (new ac config).isEnabled = true
  · obtain ⟨hon,-⟩ := (new_isEnabled hac config).mp henabled
    obtain ⟨findIter,hbuilt⟩ := Option.ne_none_iff_exists'.mp (hac.builds (new ac config).rules)
    rw [scan_isSome_of_enabled config render body henabled hbuilt (hac.valid _ _ hbuilt)]
    constructor
    · rintro ⟨text,htext,hmatch⟩
      obtain ⟨rule,hrule,hoccurs⟩ := (hac.finds _ _ hbuilt text).mp hmatch
      obtain ⟨hrule,hne⟩ := List.mem_filter.mp hrule
      refine ⟨hon,rule,hrule,by simpa using hne,?_⟩
      rcases (mem_scannedTexts render config.scanNumbers body text).mp htext with hs | ⟨hn,n,hnum,rfl⟩
      · exact .inl ⟨text,hs,hoccurs⟩
      · exact .inr ⟨hn,n,hnum,hoccurs⟩
    · rintro ⟨-,rule,hrule,hne,hleaf⟩
      have hmem : rule ∈ (new ac config).rules := List.mem_filter.mpr ⟨hrule,by simpa using hne⟩
      have hmatch : ∀ text, Occurs rule text → findIter text ≠ [] := fun text hoccurs =>
        (hac.finds _ _ hbuilt text).mpr ⟨rule,hmem,hoccurs⟩
      rcases hleaf with ⟨s,hs,hoccurs⟩ | ⟨hn,n,hnum,hoccurs⟩
      · exact ⟨s,(mem_scannedTexts render config.scanNumbers body s).mpr (.inl hs),
          hmatch s hoccurs⟩
      · exact ⟨render n,(mem_scannedTexts render config.scanNumbers body _).mpr
          (.inr ⟨hn,n,hnum,rfl⟩),hmatch _ hoccurs⟩
  · have hoff : ((new ac config).scan render body) = none := by
      have hfalse : (new ac config).enabled = false := by simpa [isEnabled] using henabled
      simp [scan,hfalse]
    rw [hoff]
    constructor
    · intro h
      cases h
    · rintro ⟨hon,rule,hrule,hne,-⟩
      exact absurd ((new_isEnabled hac config).mpr ⟨hon,rule,hrule,hne⟩) henabled

end DlpScanner
end Ait
