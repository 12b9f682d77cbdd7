import Ait.LogSinks
import Ait.Grouping

/-!
# The streams of a Loki push

Labels and groups are kept in ordered maps. A push therefore cuts the batch by the labels
of its events: one stream for each label set that occurs, with the lines of its events in
the order of their times.
-/

namespace Ait
open Grouping

namespace Labels

/-- The keys of a `BTreeMap` ascend. -/
def Sorted (labels : Labels) : Prop := labels.Pairwise fun l m => l.1 < m.1

theorem mem_insert {labels : Labels} {key value : String} {l : String × String}
    (h : l ∈ labels.insert key value) : l = (key,value) ∨ l ∈ labels := by
  induction labels with
  | nil => exact .inl (List.mem_singleton.mp h)
  | cons m rest ih =>
    unfold Labels.insert at h
    by_cases hsame : m.1 = key
    · rw [if_pos hsame] at h
      exact (List.mem_cons.mp h).imp id (List.mem_cons_of_mem m)
    · rw [if_neg hsame] at h
      by_cases hlt : key < m.1
      · rw [if_pos hlt] at h
        exact List.mem_cons.mp h
      · rw [if_neg hlt] at h
        rcases List.mem_cons.mp h with rfl | h
        · exact .inr List.mem_cons_self
        · exact (ih h).imp id (List.mem_cons_of_mem m)

theorem Sorted.insert {labels : Labels} (h : labels.Sorted) (key value : String) :
    (labels.insert key value).Sorted := by
  induction labels with
  | nil => exact List.pairwise_singleton _ _
  | cons m rest ih =>
    obtain ⟨hm,hrest⟩ := List.pairwise_cons.mp h
    unfold Labels.insert
    by_cases hsame : m.1 = key
    · rw [if_pos hsame]
      subst hsame
      exact List.pairwise_cons.mpr ⟨hm,hrest⟩
    · rw [if_neg hsame]
      by_cases hlt : key < m.1
      · rw [if_pos hlt]
        refine List.pairwise_cons.mpr ⟨?_,h⟩
        intro l hl
        rcases List.mem_cons.mp hl with rfl | hl
        · exact hlt
        · exact hlt.trans (hm l hl)
      · rw [if_neg hlt]
        refine List.pairwise_cons.mpr ⟨?_,ih hrest⟩
        intro l hl
        rcases mem_insert hl with rfl | hl
        · exact lt_of_le_of_ne (not_lt.mp hlt) hsame
        · exact hm l hl

theorem lookup_cons_of_ne {l : String × String} {rest : Labels} {key : String} (h : key ≠ l.1) :
    (l::rest : Labels).lookup key = rest.lookup key := by
  rw [List.lookup_cons,beq_false_of_ne h]

theorem mem_iff_lookup {labels : Labels} (h : labels.Sorted) {key value : String} :
    (key,value) ∈ labels ↔ labels.lookup key = some value := by
  induction labels with
  | nil => simp
  | cons m rest ih =>
    obtain ⟨hm,hrest⟩ := List.pairwise_cons.mp h
    rcases m with ⟨mkey,mvalue⟩
    rw [List.mem_cons,ih hrest]
    by_cases hk : key = mkey
    · subst hk
      -- a key of the head is no key of the rest
      have hnone : rest.lookup key = none := by
        rw [List.lookup_eq_none_iff]
        intro l hl
        simpa using (hm l hl).ne
      simp [hnone,eq_comm]
    · rw [lookup_cons_of_ne hk]
      simp [hk]

@[simp] theorem lookup_insert {labels : Labels} (h : labels.Sorted) (key value k : String) :
    (labels.insert key value).lookup k = if k = key then some value else labels.lookup k := by
  induction labels with
  | nil =>
    by_cases hk : k = key
    · simp [Labels.insert,hk]
    · simp [Labels.insert,hk]
  | cons m rest ih =>
    have hrest := (List.pairwise_cons.mp h).2
    rcases m with ⟨mkey,mvalue⟩
    unfold Labels.insert
    by_cases hsame : mkey = key
    · subst hsame
      by_cases hk : k = mkey
      · simp [hk]
      · rw [if_pos rfl,lookup_cons_of_ne hk,lookup_cons_of_ne hk,if_neg hk]
    · rw [if_neg hsame]
      by_cases hlt : key < mkey
      · by_cases hk : k = key
        · simp [hlt,hk]
        · rw [if_pos hlt,lookup_cons_of_ne hk,if_neg hk]
      · rw [if_neg hlt]
        by_cases hk : k = mkey
        · simp [hk,hsame]
        · rw [lookup_cons_of_ne hk,lookup_cons_of_ne hk,ih hrest]

theorem Sorted.ext {labels others : Labels} (h : labels.Sorted) (ho : others.Sorted)
    (heq : ∀ key, labels.lookup key = others.lookup key) : labels = others := by
  have hnodup {ls : Labels} (hls : ls.Sorted) : ls.Nodup :=
    hls.imp fun hlt hsame => absurd (congrArg Prod.fst hsame) hlt.ne
  have hperm : labels.Perm others := by
    refine (List.perm_ext_iff_of_nodup (hnodup h) (hnodup ho)).mpr ?_
    intro l
    rw [mem_iff_lookup h,mem_iff_lookup ho,heq]
  refine hperm.eq_of_pairwise ?_ h ho
  intro l m _ _ hlm hml
  exact absurd hml hlm.asymm

/-- The static labels of the settings, collected from a `HashMap` into a `BTreeMap`. -/
def collect (raw : FiniteMap String String) : Labels :=
  raw.toList.foldl (fun labels l => labels.insert l.1 l.2) []

theorem foldl_insert (ls : List (String × String)) {labels : Labels} (h : labels.Sorted) :
    (ls.foldl (fun labels l => labels.insert l.1 l.2) labels).Sorted ∧
      ∀ key, (ls.foldl (fun labels l => labels.insert l.1 l.2) labels).lookup key =
        (ls.reverse.lookup key).or (labels.lookup key) := by
  induction ls generalizing labels with
  | nil => exact ⟨h,fun _ => rfl⟩
  | cons l ls ih =>
    rcases l with ⟨lkey,lvalue⟩
    obtain ⟨hsorted,hlookup⟩ := ih (h.insert lkey lvalue)
    refine ⟨hsorted,fun key => ?_⟩
    rw [List.foldl_cons,hlookup,List.reverse_cons,List.lookup_append,lookup_insert h]
    by_cases hk : key = lkey
    · simp [hk]
    · simp [hk]

theorem sorted_collect (raw : FiniteMap String String) : (collect raw).Sorted :=
  (foldl_insert raw.toList List.Pairwise.nil).1

/-- The collected labels are the settings' own, whatever order the map is walked in. -/
@[simp] theorem lookup_collect (raw : FiniteMap String String) (key : String) :
    (collect raw).lookup key = raw.get key := by
  have hlookup : (collect raw).lookup key = raw.toList.reverse.lookup key := by
    rw [collect,(foldl_insert raw.toList List.Pairwise.nil).2]
    simp
  rw [hlookup]
  cases hfound : raw.toList.reverse.lookup key with
  | some value =>
    obtain ⟨before,after,hsplit,-⟩ := List.lookup_eq_some_iff.mp hfound
    have hmem : (key,value) ∈ raw.toList.reverse := by
      rw [hsplit]
      simp
    exact (FiniteMap.mem_toList.mp (List.mem_reverse.mp hmem)).symm
  | none =>
    cases hget : raw.get key with
    | none => rfl
    | some value =>
      have hmem := List.mem_reverse.mpr (FiniteMap.mem_toList.mpr hget)
      simpa using List.lookup_eq_none_iff.mp hfound _ hmem

/-- Keys and values in a row, as the order of the maps compares them. -/
def flat (labels : Labels) : List String := labels.flatMap fun l => [l.1,l.2]

theorem before_iff {a b : Labels} : a.before b = true ↔ a.flat < b.flat := decide_eq_true_iff

theorem flat_injective : Function.Injective flat := by
  intro a b h
  induction a generalizing b with
  | nil =>
    cases b with
    | nil => rfl
    | cons m b => exact absurd h (by simp [flat])
  | cons l a ih =>
    cases b with
    | nil => exact absurd h (by simp [flat])
    | cons m b =>
      simp only [flat,List.flatMap_cons,List.cons_append,List.nil_append,List.cons.injEq] at h
      rw [Prod.ext h.1 h.2.1,ih h.2.2]

theorem before_trans {a b c : Labels} (hab : a.before b = true) (hbc : b.before c = true) :
    a.before c = true :=
  before_iff.mpr (lt_trans (before_iff.mp hab) (before_iff.mp hbc))

theorem ne_of_before {a b : Labels} (h : a.before b = true) : a ≠ b := by
  rintro rfl
  exact lt_irrefl _ (before_iff.mp h)

theorem before_of_not {a b : Labels} (hne : a ≠ b) (h : ¬a.before b = true) : b.before a = true := by
  rw [before_iff] at h ⊢
  exact lt_of_le_of_ne (not_lt.mp h) fun heq => hne (flat_injective heq).symm

end Labels

theorem sorted_eventToLabels (e : LogEvent) {staticLabels : Labels} (h : staticLabels.Sorted) :
    (eventToLabels e staticLabels).Sorted := by
  cases e with
  | access e => exact (h.insert _ _).insert _ _
  | proxy e => exact (((h.insert _ _).insert _ _).insert _ _).insert _ _
  | audit e => exact ((h.insert _ _).insert _ _).insert _ _
  | shutdown => exact h

section Groups

variable {β ν : Type}

def OrderedGroups (groups : List (Labels × List ν)) : Prop :=
  groups.Pairwise fun g h => g.1.before h.1 = true

theorem mem_keys_addToGroup {labels : Labels} {value : ν} {groups : List (Labels × List ν)}
    {k : Labels} : k ∈ (addToGroup labels value groups).map Prod.fst ↔
      k = labels ∨ k ∈ groups.map Prod.fst := by
  induction groups with
  | nil => simp [addToGroup]
  | cons g groups ih =>
    unfold addToGroup
    by_cases hsame : g.1 = labels
    · simp [hsame]
    · by_cases hbefore : labels.before g.1 = true
      · simp [hsame,hbefore]
      · rw [if_neg hsame,if_neg hbefore,List.map_cons,List.mem_cons,ih,List.map_cons,List.mem_cons]
        exact or_left_comm

theorem OrderedGroups.addToGroup {groups : List (Labels × List ν)} (h : OrderedGroups groups)
    (labels : Labels) (value : ν) : OrderedGroups (addToGroup labels value groups) := by
  induction groups with
  | nil => exact List.pairwise_singleton _ _
  | cons g groups ih =>
    obtain ⟨hg,hgroups⟩ := List.pairwise_cons.mp h
    unfold Ait.addToGroup
    by_cases hsame : g.1 = labels
    · rw [if_pos hsame]
      exact List.pairwise_cons.mpr ⟨hg,hgroups⟩
    · rw [if_neg hsame]
      by_cases hbefore : labels.before g.1 = true
      · rw [if_pos hbefore]
        refine List.pairwise_cons.mpr ⟨?_,h⟩
        intro other hother
        rcases List.mem_cons.mp hother with rfl | hother
        · exact hbefore
        · exact Labels.before_trans hbefore (hg other hother)
      · rw [if_neg hbefore]
        refine List.pairwise_cons.mpr ⟨?_,ih hgroups⟩
        intro other hother
        rcases mem_keys_addToGroup.mp (List.mem_map_of_mem hother) with hkey | hkey
        · rw [hkey]
          exact Labels.before_of_not (Ne.symm hsame) hbefore
        · obtain ⟨first,hfirst,heq⟩ := List.mem_map.mp hkey
          rw [← heq]
          exact hg first hfirst

theorem mem_addToGroup {labels : Labels} {value : ν} {groups : List (Labels × List ν)}
    (h : OrderedGroups groups) {g : Labels × List ν} (hg : g ∈ addToGroup labels value groups) :
    (g.1 ≠ labels ∧ g ∈ groups) ∨ (∃ vs, (labels,vs) ∈ groups ∧ g = (labels,vs ++ [value])) ∨
      (labels ∉ groups.map Prod.fst ∧ g = (labels,[value])) := by
  induction groups with
  | nil => exact .inr (.inr ⟨List.not_mem_nil,List.mem_singleton.mp hg⟩)
  | cons first groups ih =>
    obtain ⟨hfirst,hgroups⟩ := List.pairwise_cons.mp h
    unfold addToGroup at hg
    by_cases hsame : first.1 = labels
    · rw [if_pos hsame] at hg
      subst hsame
      rcases List.mem_cons.mp hg with rfl | hg
      · exact .inr (.inl ⟨first.2,List.mem_cons_self,rfl⟩)
      · exact .inl ⟨(Labels.ne_of_before (hfirst g hg)).symm,List.mem_cons_of_mem _ hg⟩
    · rw [if_neg hsame] at hg
      by_cases hbefore : labels.before first.1 = true
      · -- every key from here on is behind the new one
        rw [if_pos hbefore] at hg
        have hbehind : ∀ other ∈ first::groups, labels.before other.1 = true := by
          intro other hother
          rcases List.mem_cons.mp hother with rfl | hother
          · exact hbefore
          · exact Labels.before_trans hbefore (hfirst other hother)
        rcases List.mem_cons.mp hg with rfl | hg
        · refine .inr (.inr ⟨?_,rfl⟩)
          intro hkey
          obtain ⟨other,hother,heq⟩ := List.mem_map.mp hkey
          exact Labels.ne_of_before (hbehind other hother) heq.symm
        · exact .inl ⟨(Labels.ne_of_before (hbehind g hg)).symm,hg⟩
      · rw [if_neg hbefore] at hg
        rcases List.mem_cons.mp hg with rfl | hg
        · exact .inl ⟨hsame,List.mem_cons_self⟩
        · rcases ih hgroups hg with ⟨hne,hmem⟩ | ⟨vs,hmem,heq⟩ | ⟨hnew,heq⟩
          · exact .inl ⟨hne,List.mem_cons_of_mem _ hmem⟩
          · exact .inr (.inl ⟨vs,List.mem_cons_of_mem _ hmem,heq⟩)
          · refine .inr (.inr ⟨?_,heq⟩)
            rw [List.map_cons,List.mem_cons]
            rintro (heq | hkey)
            · exact hsame heq.symm
            · exact hnew hkey

/-- The groups of a batch: one for each key that occurs, with its values in batch order. -/
structure GroupsOf (key : β → Labels) (value : β → ν) (batch : List β)
    (groups : List (Labels × List ν)) : Prop where
  ordered : OrderedGroups groups
  held : ∀ g ∈ groups, g.2 = (group key batch g.1).map value
  keys : ∀ k, k ∈ groups.map Prod.fst ↔ k ∈ batch.map key

theorem GroupsOf.push {key : β → Labels} {value : β → ν} {batch : List β}
    {groups : List (Labels × List ν)} (h : GroupsOf key value batch groups) (x : β) :
    GroupsOf key value (batch ++ [x]) (addToGroup (key x) (value x) groups) where
  ordered := h.ordered.addToGroup _ _
  keys k := by
    rw [mem_keys_addToGroup,h.keys,List.map_append,List.mem_append,List.map_singleton,
      List.mem_singleton,or_comm]
  held g hg := by
    rw [group,List.filter_append,List.map_append]
    rcases mem_addToGroup h.ordered hg with ⟨hne,hmem⟩ | ⟨vs,hmem,rfl⟩ | ⟨hnew,rfl⟩
    · have hheld : g.2 = (batch.filter fun y => key y = g.1).map value := h.held g hmem
      simp [hheld,hne.symm]
    · have hheld : vs = (batch.filter fun y => key y = key x).map value := h.held _ hmem
      simp [hheld]
    · have hnone : (batch.filter fun y => key y = key x) = [] := by
        rw [List.filter_eq_nil_iff]
        intro y hy hsame
        exact hnew ((h.keys _).mpr (List.mem_map.mpr ⟨y,hy,of_decide_eq_true hsame⟩))
      simp [hnone]

theorem groupsOf_foldl (key : β → Labels) (value : β → ν) (batch : List β) :
    GroupsOf key value batch
      (batch.foldl (fun groups x => addToGroup (key x) (value x) groups) []) := by
  induction batch using List.reverseRecOn with
  | nil => exact ⟨List.Pairwise.nil,nofun,fun _ => Iff.rfl⟩
  | append_singleton batch x ih =>
    rw [List.foldl_append]
    exact ih.push x

end Groups

namespace LokiOutside

def nanos (o : LokiOutside) (e : LogEvent) : ℤ := (timestampNanos (eventTimestamp o.now e)).getD 0

def entry (o : LokiOutside) (e : LogEvent) : String × String :=
  (ToString.toString (o.nanos e),eventToLine o e)

end LokiOutside

structure PartitionsBatch (o : LokiOutside) (labels : LogEvent → Labels) (batch : List LogEvent)
    (streams : List LokiStream) : Prop where
  /-- Every event stands once, under its own labels. -/
  once : (streams.flatMap fun s => s.values.map fun v => (s.stream,v)).Perm
    (batch.map fun e => (labels e,o.entry e))
  /-- No two streams have the same label set. -/
  distinct : streams.Pairwise fun s t => ∃ key, s.stream.lookup key ≠ t.stream.lookup key
  nonempty : ∀ s ∈ streams, s.values ≠ []
  /-- A stream holds the events with its labels, in the order of their times, and those of equal
  times as in the batch. -/
  ordered : ∀ s ∈ streams, ∃ sorted, StablySorted o.nanos (group labels batch s.stream) sorted ∧
    s.values = sorted.map o.entry

theorem sorted_entries (o : LokiOutside) (es : List LogEvent) :
    ((es.map fun e => (o.nanos e,eventToLine o e)).mergeSort fun a b => a.1 ≤ b.1).map
        (fun v => (toString v.1,v.2)) =
      (es.mergeSort fun a b => o.nanos a ≤ o.nanos b).map o.entry := by
  have hmap := List.map_mergeSort (l := es) (f := fun e => (o.nanos e,eventToLine o e))
    (r := fun a b => o.nanos a ≤ o.nanos b)
    (s := fun (a b : ℤ × String) => a.1 ≤ b.1) fun _ _ _ _ => rfl
  rw [← hmap,List.map_map]
  rfl

/-- A push partitions the batch: every event that is not a shutdown stands in the stream of its
labels, and nowhere else. -/
theorem loki_payload_partitions (o : LokiOutside) (events : List LogEvent)
    (staticLabels : FiniteMap String String) :
    PartitionsBatch o (fun e => eventToLabels e (Labels.collect staticLabels))
      (events.filter LogEvent.isEvent)
      (buildPushPayload o events (Labels.collect staticLabels)) := by
  let labels := fun e => eventToLabels e (Labels.collect staticLabels)
  let batch := events.filter LogEvent.isEvent
  have hgroups := groupsOf_foldl labels (fun e => (o.nanos e,eventToLine o e)) batch
  have hsorted : ∀ k ∈ batch.map labels, k.Sorted := by
    intro k hk
    obtain ⟨e,-,rfl⟩ := List.mem_map.mp hk
    exact sorted_eventToLabels e (Labels.sorted_collect staticLabels)
  constructor
  · exact buildPushPayload_perm o events _
  · apply List.pairwise_map.mpr
    refine hgroups.ordered.imp_of_mem ?_
    intro g h hg hh hbefore
    by_contra hsame
    push Not at hsame
    have hgs := hsorted g.1 ((hgroups.keys _).mp (List.mem_map_of_mem hg))
    have hhs := hsorted h.1 ((hgroups.keys _).mp (List.mem_map_of_mem hh))
    exact Labels.ne_of_before hbefore (hgs.ext hhs hsame)
  · intro s hs
    obtain ⟨g,hg,rfl⟩ := List.mem_map.mp hs
    obtain ⟨e,he,hkey⟩ := List.mem_map.mp ((hgroups.keys _).mp (List.mem_map_of_mem hg))
    have hmem : (o.nanos e,eventToLine o e) ∈ g.2 := by
      rw [hgroups.held g hg]
      exact List.mem_map_of_mem (mem_group.mpr ⟨he,hkey⟩)
    exact List.ne_nil_of_mem (List.mem_map_of_mem (List.mem_mergeSort.mpr hmem))
  · intro s hs
    obtain ⟨g,hg,rfl⟩ := List.mem_map.mp hs
    refine ⟨_,stablySorted_mergeSort o.nanos (group labels batch g.1),?_⟩
    rw [← sorted_entries,← hgroups.held g hg]

end Ait
