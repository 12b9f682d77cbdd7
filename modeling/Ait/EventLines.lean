import Ait.SseUsage

/-!
# The lines of an event

`transformEvent` writes one line for each line it reads, but for blank lines after a
blank line. So the non-blank lines stay in their groups, and the output ends with a
blank line when the input does.
-/

namespace Ait

def paragraphs (ls : List Bytes) : List (List Bytes) := (ls.splitOn []).filter fun g => g ≠ []

def unlines (ls : List Bytes) : Bytes := ls.flatMap (· ++ [newline])

def rewriteLine (json : SerdeJson) (upstream : UpstreamProvider) (modelName : String)
    (line : Bytes) : Bytes :=
  match dataPayload line with
  | some payload => dataPrefix ++ [32] ++ upstream.transformResponse json payload modelName
  | none => line

/-- The newlines at the end of the output after a line, up to two. -/
def newlinesAfter (k : ℕ) (line : Bytes) : ℕ := if line = [] then min 2 (k+1) else 1

/-- The lines written for some lines behind `k` newlines; a blank line is left out behind two. -/
def written (json : SerdeJson) (upstream : UpstreamProvider) (modelName : String) (k : ℕ) :
    List Bytes → List Bytes
  | [] => []
  | line::rest =>
    if line = [] ∧ 2 ≤ k then written json upstream modelName (newlinesAfter k line) rest
    else
      rewriteLine json upstream modelName line::
        written json upstream modelName (newlinesAfter k line) rest

/-- The output so far is empty, or ends with `k` newlines. -/
inductive Trailing : ℕ → Bytes → Prop
  | start : Trailing 0 []
  | one (l : Bytes) (h : ¬[newline] <:+ l) : Trailing 1 (l ++ [newline])
  | two (l : Bytes) : Trailing 2 (l ++ [newline,newline])

section Ends

variable {a c d l out : Bytes} {k : ℕ}

@[simp] theorem unlines_nil : unlines [] = [] := rfl

@[simp] theorem unlines_cons (l : Bytes) (ls : List Bytes) :
    unlines (l::ls) = l ++ newline::unlines ls := by
  simp [unlines]

theorem Trailing.ends_iff (h : Trailing k out) : [newline,newline] <:+ out ↔ 2 ≤ k := by
  cases h with
  | start => simp
  | one l hl =>
    have hone : [newline,newline] <:+ l ++ [newline] ↔ [newline] <:+ l :=
      @List.suffix_append_self_iff _ [newline] l [newline]
    simp [hone,hl]
  | two l => simp

theorem Trailing.le_two (h : Trailing k out) : k ≤ 2 := by
  cases h <;> omega

theorem Trailing.line (hne : l ≠ []) (hl : newline ∉ l) (out : Bytes) :
    Trailing 1 (out ++ l ++ [newline]) := by
  refine .one _ fun hsuffix => hl ?_
  rw [List.singleton_suffix_iff_getLast?_eq_some,List.getLast?_append_of_ne_nil _ hne] at hsuffix
  exact List.mem_of_getLast? hsuffix

theorem Trailing.blank (h : Trailing k out) (hk : k < 2) : Trailing (k+1) (out ++ [newline]) := by
  cases h with
  | start => exact .one [] (by simp)
  | one l hl => simpa using Trailing.two l
  | two l => omega

theorem suffix_line_iff (hc : newline ∉ c) (hd : newline ∉ d) :
    newline::d <:+ a ++ newline::c ↔ d = c := by
  constructor
  · rintro ⟨b,hb⟩
    have hpieces := congrArg (List.splitOn newline) hb
    simp only [List.splitOn_append_cons_self,List.splitOn_eq_singleton hc,
      List.splitOn_eq_singleton hd] at hpieces
    simpa using (List.append_inj_right' hpieces rfl)
  · rintro rfl
    exact List.suffix_append a _

theorem exists_last_newline (h : newline ∈ a) : ∃ b c, a = b ++ newline::c ∧ newline ∉ c := by
  obtain ⟨s,t,hrev,hs⟩ := List.eq_append_cons_of_mem (List.mem_reverse.mpr h)
  refine ⟨t.reverse,s.reverse,?_,by simpa using hs⟩
  have hback := congrArg List.reverse hrev
  simpa using hback

theorem lines_of_newline_not_mem (h : newline ∉ a) : lines a = [a].filter (· ≠ []) := by
  simp [lines,List.splitOn_eq_singleton h]

@[simp] theorem stripSuffix_eq_nil (b : UInt8) (l : Bytes) :
    stripSuffix b l = [] ↔ l = [] ∨ l = [b] := by
  rcases List.eq_nil_or_concat l with rfl | ⟨l,x,rfl⟩
  · simp [stripSuffix]
  · by_cases hx : x = b
    · simp [stripSuffix,hx]
    · have hne : l ++ [x] ≠ [b] := fun h => hx (by simpa using congrArg List.getLast? h)
      simp [stripSuffix,hx,hne]

/-- The last of several lines is blank exactly when the text ends with a blank line. -/
theorem blank_line_iff (text : Bytes) :
    (lines text).getLast? = some [] ∧ 2 ≤ (lines text).length ↔
      [newline,newline] <:+ text ∨ [newline,carriageReturn,newline] <:+ text := by
  by_cases hmem : newline ∈ text
  · obtain ⟨a,b,rfl,hb⟩ := exists_last_newline hmem
    rw [lines_append,lines_of_newline_not_mem hb]
    by_cases hnil : b = []
    · subst hnil
      have hlf : [newline,newline] <:+ a ++ [newline] ↔ [newline] <:+ a :=
        @List.suffix_append_self_iff _ [newline] a [newline]
      have hcrlf : [newline,carriageReturn,newline] <:+ a ++ [newline] ↔
          [newline,carriageReturn] <:+ a :=
        @List.suffix_append_self_iff _ [newline,carriageReturn] a [newline]
      rw [hlf,hcrlf]
      by_cases ha : newline ∈ a
      · obtain ⟨a,c,rfl,hc⟩ := exists_last_newline ha
        have hlast := suffix_line_iff (a := a) hc (d := []) (by simp)
        have hlast' := suffix_line_iff (a := a) hc (d := [carriageReturn])
          (by simp [newline,carriageReturn])
        rw [hlast,hlast',List.splitOn_append_cons_self,List.splitOn_eq_singleton hc]
        have hpos := List.length_pos_of_ne_nil (List.splitOn_ne_nil newline a)
        have hlength : 2 ≤ (a.splitOn newline).length+1 := by omega
        simp [hlength,stripSuffix_eq_nil,eq_comm]
      · have hno : ∀ d, ¬newline::d <:+ a := fun d h => ha (h.mem List.mem_cons_self)
        simp [List.splitOn_eq_singleton ha,hno]
    · have hno : ∀ d, ¬newline::(d ++ [newline]) <:+ a ++ newline::b := by
        intro d hsuffix
        have hend := ((List.suffix_append (newline::d) [newline]).trans hsuffix)
        rw [List.singleton_suffix_iff_getLast?_eq_some,List.getLast?_append_of_ne_nil _ (by simp),
          List.getLast?_cons_of_ne_nil hnil] at hend
        exact hb (List.mem_of_getLast? hend)
      simpa [hnil] using ⟨hno [],hno [carriageReturn]⟩
  · have hno : ∀ d, ¬newline::d <:+ text := fun d h => hmem (h.mem List.mem_cons_self)
    rw [lines_of_newline_not_mem hmem]
    have hlen := List.length_filter_le (· ≠ []) [text]
    simp only [List.length_singleton] at hlen
    simp only [hno,or_self,iff_false,not_and]
    omega

end Ends

section Lines

variable {json : SerdeJson} {upstream : UpstreamProvider} {modelName : String}
  {line out : Bytes} {k : ℕ} {ls : List Bytes}

@[simp] theorem rewriteLine_nil : rewriteLine json upstream modelName [] = [] := by
  simp [rewriteLine,dataPayload,stripBytes,dataPrefix]

theorem rewriteLine_ne_nil (json : SerdeJson) (upstream : UpstreamProvider) (modelName : String)
    (h : line ≠ []) : rewriteLine json upstream modelName line ≠ [] := by
  unfold rewriteLine
  split
  · simp [dataPrefix]
  · exact h

theorem newline_not_mem_rewriteLine (hjson : json.OneLine) (h : newline ∉ line) :
    newline ∉ rewriteLine json upstream modelName line := by
  unfold rewriteLine
  split
  · rename_i payload hpayload
    have hno : newline ∉ upstream.transformResponse json payload modelName :=
      newline_not_mem_transformResponse hjson upstream (newline_not_mem_payload hpayload h)
    simpa [dataPrefix,newline] using hno
  · exact h

theorem newline_not_mem_written (hjson : json.OneLine) (h : ∀ line ∈ ls, newline ∉ line) (k : ℕ) :
    ∀ line ∈ written json upstream modelName k ls, newline ∉ line := by
  induction ls generalizing k with
  | nil => simp [written]
  | cons l ls ih =>
    have hrest := ih (fun line hline => h line (List.mem_cons_of_mem l hline)) (newlinesAfter k l)
    unfold written
    split
    · exact hrest
    · have hl : newline ∉ rewriteLine json upstream modelName l :=
        newline_not_mem_rewriteLine hjson (h l List.mem_cons_self)
      exact List.forall_mem_cons.mpr ⟨hl,hrest⟩

theorem transformLine_written (hjson : json.OneLine) (upstream : UpstreamProvider)
    (modelName : String) {acc : Bytes × Option UsageTokens} (hline : newline ∉ line) (h : Trailing k acc.1) :
    (transformLine json upstream modelName acc line).1 =
        acc.1 ++ unlines (written json upstream modelName k [line]) ∧
      Trailing (newlinesAfter k line) (transformLine json upstream modelName acc line).1 := by
  by_cases hblank : line = []
  · subst hblank
    have hpayload : dataPayload [] = none := by simp [dataPayload,stripBytes,dataPrefix]
    by_cases hk : 2 ≤ k
    · have hends := h.ends_iff.mpr hk
      have hout : (transformLine json upstream modelName acc []).1 = acc.1 := by
        simp [transformLine_other hpayload,hends]
      have hafter : newlinesAfter k [] = k := by
        have hle := h.le_two
        simp only [newlinesAfter,if_true]
        omega
      rw [hout,hafter]
      exact ⟨by simp [written,hk],h⟩
    · have hends : ¬[newline,newline] <:+ acc.1 := fun hsuffix => hk (h.ends_iff.mp hsuffix)
      have hout : (transformLine json upstream modelName acc []).1 = acc.1 ++ [newline] := by
        simp [transformLine_other hpayload,hends]
      have hafter : newlinesAfter k [] = k+1 := by
        simp only [newlinesAfter,if_true]
        omega
      rw [hout,hafter]
      exact ⟨by simp [written,hk],h.blank (by omega)⟩
  · have hno : newline ∉ rewriteLine json upstream modelName line :=
      newline_not_mem_rewriteLine hjson hline
    have hout : (transformLine json upstream modelName acc line).1 =
        acc.1 ++ rewriteLine json upstream modelName line ++ [newline] := by
      unfold rewriteLine
      cases hpayload : dataPayload line with
      | some payload => simp [transformLine_payload hpayload]
      | none => simp [transformLine_other hpayload,hblank]
    rw [hout]
    refine ⟨by simp [written,hblank],?_⟩
    simpa [newlinesAfter,hblank] using
      Trailing.line (rewriteLine_ne_nil json upstream modelName hblank) hno acc.1

theorem foldl_written (hjson : json.OneLine) (upstream : UpstreamProvider) (modelName : String)
    {acc : Bytes × Option UsageTokens} (hlines : ∀ line ∈ ls, newline ∉ line) (h : Trailing k acc.1) :
    (ls.foldl (transformLine json upstream modelName) acc).1 =
        acc.1 ++ unlines (written json upstream modelName k ls) ∧
      Trailing (ls.foldl newlinesAfter k)
        (ls.foldl (transformLine json upstream modelName) acc).1 := by
  induction ls generalizing acc k with
  | nil => simpa [written] using h
  | cons line ls ih =>
    obtain ⟨hout,hafter⟩ := transformLine_written hjson upstream modelName
      (hlines line List.mem_cons_self) h
    obtain ⟨hrest,hend⟩ := ih (fun l hl => hlines l (List.mem_cons_of_mem line hl)) hafter
    refine ⟨?_,hend⟩
    rw [List.foldl_cons,hrest,hout,List.append_assoc]
    by_cases hskip : line = [] ∧ 2 ≤ k
    · simp [written,hskip]
    · simp [written,hskip]

theorem foldl_newlinesAfter (ls : List Bytes) :
    (2 ≤ ls.foldl newlinesAfter 0 ↔ ls.getLast? = some [] ∧ 2 ≤ ls.length) ∧
      (ls ≠ [] → 1 ≤ ls.foldl newlinesAfter 0) := by
  induction ls using List.reverseRecOn with
  | nil => simp
  | append_singleton ls line ih =>
    obtain ⟨-,hpos⟩ := ih
    rw [List.foldl_append,List.foldl_cons,List.foldl_nil]
    by_cases hblank : line = []
    · by_cases hls : ls = []
      · simp [newlinesAfter,hblank,hls]
      · have hone := hpos hls
        have hlength := List.length_pos_of_ne_nil hls
        have hcount : 2 ≤ newlinesAfter (ls.foldl newlinesAfter 0) [] := by
          simp only [newlinesAfter,if_true]
          omega
        have htwo : 2 ≤ ls.length+1 := by omega
        rw [hblank]
        exact ⟨by simp [hcount,htwo],fun _ => by omega⟩
    · simp [newlinesAfter,hblank]

theorem filter_written (k : ℕ) (ls : List Bytes) :
    (written json upstream modelName k ls).filter (· ≠ []) =
      (ls.filter (· ≠ [])).map (rewriteLine json upstream modelName) := by
  induction ls generalizing k with
  | nil => rfl
  | cons line ls ih =>
    by_cases hblank : line = []
    · by_cases hk : 2 ≤ k
      · simpa [written,hblank,hk] using ih _
      · simpa [written,hblank,hk] using ih _
    · have hne := rewriteLine_ne_nil json upstream modelName hblank
      simpa [written,hblank,hne] using ih _

theorem splitOn_blank (ls : List Bytes) : ([]::ls).splitOn [] = []::ls.splitOn [] := by
  simp [List.splitOn_cons_eq_if_modifyHead]

@[simp] theorem splitOn_line (h : line ≠ []) (ls : List Bytes) :
    (line::ls).splitOn [] = (ls.splitOn []).modifyHead (line::·) := by
  simp [List.splitOn_cons_eq_if_modifyHead,h]

@[simp] theorem paragraphs_blank (ls : List Bytes) : paragraphs ([]::ls) = paragraphs ls := by
  simp [paragraphs,splitOn_blank]

/-- The groups written: behind fewer than two newlines the first group of the output is that of
the input, and the others are the same but for empty ones. -/
theorem written_groups (ls : List Bytes) (k : ℕ) :
    (k < 2 → ∃ head tail rest,
      (written json upstream modelName k ls).splitOn [] =
        head.map (rewriteLine json upstream modelName)::tail ∧
      ls.splitOn [] = head::rest ∧
      tail.filter (· ≠ []) =
        (rest.filter (· ≠ [])).map (List.map (rewriteLine json upstream modelName))) ∧
    paragraphs (written json upstream modelName k ls) =
      (paragraphs ls).map (List.map (rewriteLine json upstream modelName)) := by
  induction ls generalizing k with
  | nil => exact ⟨fun _ => ⟨[],[],[],rfl,rfl,rfl⟩,rfl⟩
  | cons line ls ih =>
    by_cases hblank : line = []
    · subst hblank
      obtain ⟨-,hrest⟩ := ih (newlinesAfter k [])
      by_cases hk : 2 ≤ k
      · refine ⟨by omega,?_⟩
        simpa [written,hk,paragraphs_blank] using hrest
      · have hwritten : written json upstream modelName k ([]::ls) =
            []::written json upstream modelName (newlinesAfter k []) ls := by simp [written,hk]
        rw [hwritten,paragraphs_blank,paragraphs_blank,splitOn_blank,splitOn_blank]
        exact ⟨fun _ => ⟨[],_,_,rfl,rfl,hrest⟩,hrest⟩
    · have hafter : newlinesAfter k line < 2 := by simp [newlinesAfter,hblank]
      obtain ⟨hhead,-⟩ := ih (newlinesAfter k line)
      obtain ⟨head,tail,rest,hout,hin,htail⟩ := hhead hafter
      have hne := rewriteLine_ne_nil json upstream modelName hblank
      have hwritten : written json upstream modelName k (line::ls) =
          rewriteLine json upstream modelName line::
            written json upstream modelName (newlinesAfter k line) ls := by
        simp [written,hblank]
      have hsplit : (written json upstream modelName k (line::ls)).splitOn [] =
          (line::head).map (rewriteLine json upstream modelName)::tail := by
        rw [hwritten,splitOn_line hne,hout]
        rfl
      have hsplit' : (line::ls).splitOn [] = (line::head)::rest := by
        rw [splitOn_line hblank,hin]
        rfl
      refine ⟨fun _ => ⟨_,_,_,hsplit,hsplit',htail⟩,?_⟩
      unfold paragraphs
      rw [hsplit,hsplit']
      simpa using htail

@[simp] theorem lines_unlines (ls : List Bytes) (h : ∀ line ∈ ls, newline ∉ line) :
    lines (unlines ls) = ls.map (stripSuffix carriageReturn) := by
  induction ls with
  | nil => simp
  | cons line ls ih =>
    have hline := h line List.mem_cons_self
    rw [unlines_cons,lines_append,ih fun l hl => h l (List.mem_cons_of_mem line hl),
      List.splitOn_eq_singleton hline]
    rfl

/-- An event in UTF-8 keeps its structure: the non-blank lines, in their order and their groups,
each `data:` line rewritten; and it ends with a blank line if and only if it did. -/
theorem event_structure_kept (json : SerdeJson) (hjson : json.OneLine)
    (upstream : UpstreamProvider) (modelName : String) (userTokens : Option UsageTokens)
    (text : Bytes) (hutf8 : validUtf8 text = true) :
    let out := (transformEvent json upstream modelName userTokens text).1
    (∀ line ∈ lines text, ∀ payload, dataPayload line = some payload →
      newline ∉ upstream.transformResponse json payload modelName) ∧
    (∃ emitted, out = unlines emitted ∧ (∀ line ∈ emitted, newline ∉ line) ∧
      lines out = emitted.map (stripSuffix carriageReturn) ∧
      emitted.filter (· ≠ []) =
        ((lines text).filter (· ≠ [])).map (rewriteLine json upstream modelName) ∧
      paragraphs emitted =
        (paragraphs (lines text)).map (List.map (rewriteLine json upstream modelName))) ∧
    ([newline,newline] <:+ out ↔
      [newline,newline] <:+ text ∨ [newline,carriageReturn,newline] <:+ text) := by
  intro out
  have hlines : ∀ line ∈ lines text, newline ∉ line := fun line hline => newline_not_mem_lines hline
  have hstart : Trailing 0 (([],userTokens) : Bytes × Option UsageTokens).1 := .start
  obtain ⟨hout,hend⟩ := foldl_written hjson upstream modelName hlines hstart
  have hfold : out =
      ((lines text).foldl (transformLine json upstream modelName) ([],userTokens)).1 := by
    simp only [out,transformEvent_eq,hutf8,if_true]
  rw [List.nil_append] at hout
  have hno : ∀ line ∈ written json upstream modelName 0 (lines text), newline ∉ line :=
    newline_not_mem_written hjson hlines 0
  refine ⟨?_,⟨_,hfold.trans hout,hno,?_,filter_written 0 _,(written_groups _ 0).2⟩,?_⟩
  · intro line hline payload hpayload
    exact newline_not_mem_transformResponse hjson upstream
      (newline_not_mem_payload hpayload (hlines line hline))
  · rw [hfold,hout]
    exact lines_unlines _ hno
  · rw [hfold,hend.ends_iff,(foldl_newlinesAfter _).1]
    exact blank_line_iff text

end Lines

/-- A comment, an event in two lines and the blank line. -/
theorem event_structure_kept_comment :
    let text := utf8 ": hi\r\nevent: x\ndata:\x7b\"model\":\"up\"\x7d\r\n\r\n\n"
    let out := (transformEvent Relay.demoJson demoUpstream "ai" none text).1
    out = utf8 ": hi\nevent: x\ndata: " ++ Relay.aliasText ++ utf8 "\n\n" ∧
    ([newline,newline] <:+ out ↔
      [newline,newline] <:+ text ∨ [newline,carriageReturn,newline] <:+ text) := by
  intro text out
  exact ⟨by decide +kernel,(event_structure_kept Relay.demoJson
    Relay.demoJson_lawful.oneLine demoUpstream "ai"
    none text (by decide +kernel)).2.2⟩

end Ait
