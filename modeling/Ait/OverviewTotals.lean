import Ait.LogTable

/-!
# The overview adds up

The request counts of the overview come from three scans. They agree as long as no hour
is dropped, and the tokens agree as long as moreover no hour is negative: a negative sum
is left out of no total, and turns into a large bucket.
-/

namespace Ait
open Grouping

structure OverviewMetrics.AddsUp (m : OverviewMetrics) : Prop where
  requests : BucketEntry.total m.requestBuckets = m.totalRequests
  models : (m.modelDist.map ModelDistEntry.count).sum = m.totalRequests
  tokens : BucketEntry.total m.tokenBuckets = m.totalTokens

def hourTokens (rows : List ProxyLogRow) (hour : ℤ) : ℤ :=
  sumOf ProxyLogRow.totalTokens (group ProxyLogRow.hour rows hour)

section Reading

variable {v : ℤ}

@[simp] theorem asU64_natCast {n : ℕ} (h : n < 2^63) : asU64 n = n := by
  rw [asU64]
  omega

theorem le_asU64 (h : FitsI64 v) : v ≤ asU64 v := by
  rw [FitsI64] at h
  rw [asU64]
  omega

theorem eq_asU64_iff (h : FitsI64 v) : v = asU64 v ↔ 0 ≤ v := by
  rw [FitsI64] at h
  rw [asU64]
  omega

end Reading

section Rows

variable {rows : List ProxyLogRow}

@[simp] theorem hourTokens_of_not_mem {h : ℤ} (hh : h ∉ hours rows) : hourTokens rows h = 0 := by
  have hnil : group ProxyLogRow.hour rows h = [] := by
    rw [group,List.filter_eq_nil_iff]
    intro r hr
    simpa using fun heq => hh (mem_hours.mpr ⟨r,hr,heq⟩)
  rw [hourTokens,hnil]
  rfl

theorem length_group_le {κ : Type} [DecidableEq κ] (key : ProxyLogRow → κ) (k : κ) :
    (group key rows k).length ≤ rows.length :=
  List.length_filter_le _ _

theorem readHour_eq (hrows : rows.length < 2^63) (h : ℤ) :
    readHour rows h = if FitsI64 (hourTokens rows h) then
      some (h,(group ProxyLogRow.hour rows h).length,asU64 (hourTokens rows h)) else none := by
  have hlen := (length_group_le ProxyLogRow.hour h).trans_lt hrows
  have hcount : countOf (group ProxyLogRow.hour rows h) =
      some ((group ProxyLogRow.hour rows h).length : ℤ) := getI64_natCast hlen
  have hread : readHour rows h = (countOf (group ProxyLogRow.hour rows h)).bind
      fun count => (getI64 count).bind fun requests => (getI64 (hourTokens rows h)).bind
        fun tokens => some (h,asU64 requests,asU64 tokens) := rfl
  rw [hread,hcount,Option.bind_some,getI64_natCast hlen,Option.bind_some,asU64_natCast hlen]
  by_cases hfit : FitsI64 (hourTokens rows h)
  · rw [getI64_of_fits hfit,if_pos hfit,Option.bind_some]
  · rw [getI64,if_neg hfit,if_neg hfit,Option.bind_none]

theorem readModel_eq (hrows : rows.length < 2^63) (model : String) :
    readModel rows model =
      some ⟨model,(group ProxyLogRow.modelName rows model).length⟩ := by
  have hlen := (length_group_le ProxyLogRow.modelName model).trans_lt hrows
  have hcount : countOf (group ProxyLogRow.modelName rows model) =
      some ((group ProxyLogRow.modelName rows model).length : ℤ) := getI64_natCast hlen
  have hread : readModel rows model = (countOf (group ProxyLogRow.modelName rows model)).bind
      fun count => (getI64 count).bind fun count => some ⟨model,asU64 count⟩ := rfl
  rw [hread,hcount,Option.bind_some,getI64_natCast hlen,Option.bind_some,asU64_natCast hlen]

theorem hourlyBuckets_eq (hrows : rows.length < 2^63) :
    hourlyBuckets rows =
      (((hours rows).filter fun h => FitsI64 (hourTokens rows h)).map fun h =>
        ⟨h,(group ProxyLogRow.hour rows h).length⟩,
      ((hours rows).filter fun h => FitsI64 (hourTokens rows h)).map fun h =>
        ⟨h,asU64 (hourTokens rows h)⟩) := by
  have hread : (hours rows).filterMap (readHour rows) =
      ((hours rows).filter fun h => FitsI64 (hourTokens rows h)).map fun h =>
        (h,(group ProxyLogRow.hour rows h).length,asU64 (hourTokens rows h)) := by
    rw [funext (readHour_eq hrows)]
    induction hours rows with
    | nil => rfl
    | cons h hs ih =>
      by_cases hfit : FitsI64 (hourTokens rows h)
      · simp only [List.filterMap_cons,List.filter_cons,hfit,if_true,decide_true,List.map_cons,ih]
      · simp only [List.filterMap_cons,List.filter_cons,hfit,if_false,decide_false,ih,
          Bool.false_eq_true]
  rw [hourlyBuckets]
  change (((hours rows).filterMap (readHour rows)).map _,
    ((hours rows).filterMap (readHour rows)).map _) = _
  rw [hread,List.map_map,List.map_map]
  rfl

theorem request_total_iff (hrows : rows.length < 2^63) :
    BucketEntry.total (hourlyBuckets rows).1 = rows.length ↔
      ∀ h ∈ hours rows, FitsI64 (hourTokens rows h) := by
  have hall := sum_length_groups (@nodup_hours rows) fun _ hr => hour_mem_hours hr
  have hkept : BucketEntry.total (hourlyBuckets rows).1 = ((hours rows).map fun h =>
      if FitsI64 (hourTokens rows h) then (group ProxyLogRow.hour rows h).length else 0).sum := by
    rw [hourlyBuckets_eq hrows,BucketEntry.total,List.map_map,← sum_map_filter]
    rfl
  rw [hkept,← hall,sum_eq_sum_iff_of_le]
  · refine forall₂_congr fun h hh => ?_
    have hpos : (group ProxyLogRow.hour rows h).length ≠ 0 := by
      rw [ne_eq,List.length_eq_zero_iff]
      exact group_ne_nil (mem_keys.mpr (mem_hours.mp hh))
    rw [ite_eq_left_iff]
    exact ⟨fun hfit => by_contra fun hnot => hpos (hfit hnot).symm,fun hfit hnot => absurd hfit hnot⟩
  · intro h _
    split
    · exact le_rfl
    · exact Nat.zero_le _

/-- Where every hour gives a bucket, the tokens add up when no hour is negative. -/
theorem token_total_iff (hrows : rows.length < 2^63) (hsum : 0 ≤ sumOf ProxyLogRow.totalTokens rows)
    (hfit : ∀ h ∈ hours rows, FitsI64 (hourTokens rows h)) :
    BucketEntry.total (hourlyBuckets rows).2 = (sumOf ProxyLogRow.totalTokens rows).toNat ↔
      ∀ h ∈ hours rows, 0 ≤ hourTokens rows h := by
  have hall : ((hours rows).map (hourTokens rows)).sum = sumOf ProxyLogRow.totalTokens rows :=
    sum_groups _ nodup_hours fun _ hr => hour_mem_hours hr
  have hkept : (BucketEntry.total (hourlyBuckets rows).2 : ℤ) =
      ((hours rows).map fun h => (asU64 (hourTokens rows h) : ℤ)).sum := by
    have hfilter : (hours rows).filter (fun h => FitsI64 (hourTokens rows h)) = hours rows :=
      List.filter_eq_self.mpr fun h hh => decide_eq_true (hfit h hh)
    rw [hourlyBuckets_eq hrows,hfilter,BucketEntry.total,Nat.cast_list_sum,List.map_map,
      List.map_map]
    rfl
  have hcast : BucketEntry.total (hourlyBuckets rows).2 =
      (sumOf ProxyLogRow.totalTokens rows).toNat ↔
      sumOf ProxyLogRow.totalTokens rows = (BucketEntry.total (hourlyBuckets rows).2 : ℤ) := by
    omega
  rw [hcast,hkept,← hall,sum_eq_sum_iff_of_le fun h hh => le_asU64 (hfit h hh)]
  exact forall₂_congr fun h hh => eq_asU64_iff (hfit h hh)

@[simp] theorem model_total (scan : Scan String) {table : List ProxyLogRow} {startTs endTs : ℤ}
    (hrows : (rowsBetween table startTs endTs).length < 2^63) :
    ((modelDistImpl scan table startTs endTs).map ModelDistEntry.count).sum =
      (rowsBetween table startTs endTs).length := by
  rw [modelDistImpl]
  generalize rowsBetween table startTs endTs = rows at hrows ⊢
  dsimp only
  have hperm := scan.orderBy_perm (fun m m' => (group ProxyLogRow.modelName rows m').length ≤
    (group ProxyLogRow.modelName rows m).length) (keys ProxyLogRow.modelName rows)
  have hnodup := hperm.nodup_iff.mpr nodup_keys
  have hall : ∀ r ∈ rows, r.modelName ∈ scan.orderBy (fun m m' =>
      (group ProxyLogRow.modelName rows m').length ≤ (group ProxyLogRow.modelName rows m).length)
      (keys ProxyLogRow.modelName rows) := by
    intro r hr
    exact hperm.mem_iff.mpr (mem_keys.mpr ⟨r,hr,rfl⟩)
  rw [funext (readModel_eq hrows),List.filterMap_eq_map',List.map_map]
  exact sum_length_groups hnodup hall

end Rows

theorem totalsImpl_eq_some {table : List ProxyLogRow} {startTs endTs : ℤ}
    {t : ℕ × ℕ × ℤ × ℤ × ℤ} (h : totalsImpl table startTs endTs = some t) :
    let rows := rowsBetween table startTs endTs
    rows.length < 2^63 ∧ t.1 = rows.length ∧ 0 ≤ sumOf ProxyLogRow.totalTokens rows ∧
      t.2.1 = (sumOf ProxyLogRow.totalTokens rows).toNat := by
  rw [totalsImpl] at h
  generalize rowsBetween table startTs endTs = rows at h ⊢
  simp only [Option.bind_eq_bind,Option.bind_eq_some_iff] at h
  obtain ⟨count,hcount,requests,hrequests,tokens,htokens,_,-,_,-,_,-,ht⟩ := h
  obtain ⟨hfit,hlen⟩ := getI64_eq_some hcount
  obtain ⟨-,hreq⟩ := getU64_eq_some hrequests
  obtain ⟨hnonneg,htok⟩ := getU64_eq_some htokens
  obtain rfl := Option.some.inj ht
  subst hlen
  have hbound : rows.length < 2^63 := by exact_mod_cast hfit.2
  exact ⟨hbound,hreq.symm,hnonneg,htok.symm⟩

theorem overviewImpl_eq_some {scan : Scan String} {table : List ProxyLogRow} {startTs endTs : ℤ}
    {m : OverviewMetrics} (h : overviewImpl scan table startTs endTs = some m) :
    let rows := rowsBetween table startTs endTs
    rows.length < 2^63 ∧ m.totalRequests = rows.length ∧
      0 ≤ sumOf ProxyLogRow.totalTokens rows ∧
      m.totalTokens = (sumOf ProxyLogRow.totalTokens rows).toNat ∧
      m.requestBuckets = (hourlyBuckets rows).1 ∧ m.tokenBuckets = (hourlyBuckets rows).2 ∧
      m.modelDist = modelDistImpl scan table startTs endTs := by
  rw [overviewImpl] at h
  simp only [Option.bind_eq_bind,Option.bind_eq_some_iff] at h
  obtain ⟨t,htotals,hm⟩ := h
  obtain ⟨hrows,hrequests,hnonneg,htokens⟩ := totalsImpl_eq_some htotals
  obtain rfl := Option.some.inj hm
  exact ⟨hrows,hrequests,hnonneg,htokens,rfl,rfl,rfl⟩

/-- An overview adds up when the tokens of every hour are a count that fits an `i64`. -/
theorem overview_addsUp_iff {scan : Scan String} {table : List ProxyLogRow} {startTs endTs : ℤ}
    {m : OverviewMetrics} (h : overviewImpl scan table startTs endTs = some m) :
    m.AddsUp ↔ ∀ hour, 0 ≤ hourTokens (rowsBetween table startTs endTs) hour ∧
      hourTokens (rowsBetween table startTs endTs) hour < 2^63 := by
  obtain ⟨hrows,hrequests,hnonneg,htokens,hreq,htok,hmodels⟩ := overviewImpl_eq_some h
  have hcounted := request_total_iff hrows
  constructor
  · rintro ⟨hadd,-,htokensAdd⟩ hour
    rw [hreq,hrequests,hcounted] at hadd
    rw [htok,htokens,token_total_iff hrows hnonneg hadd] at htokensAdd
    by_cases hour_mem : hour ∈ hours (rowsBetween table startTs endTs)
    · exact ⟨htokensAdd hour hour_mem,(hadd hour hour_mem).2⟩
    · rw [hourTokens_of_not_mem hour_mem]
      decide
  · intro hall
    have hfit : ∀ hour ∈ hours (rowsBetween table startTs endTs),
        FitsI64 (hourTokens (rowsBetween table startTs endTs) hour) := by
      intro hour _
      obtain ⟨hlow,hhigh⟩ := hall hour
      exact ⟨by omega,hhigh⟩
    refine ⟨?_,?_,?_⟩
    · rw [hreq,hrequests]
      exact hcounted.mpr hfit
    · rw [hmodels,hrequests]
      exact model_total scan hrows
    · rw [htok,htokens]
      exact (token_total_iff hrows hnonneg hfit).mpr fun hour _ => (hall hour).1

theorem overview_addsUp_two_hours :
    let table := [sampleRow 0 (some 3),sampleRow 3600000000000 (some 4)]
    ∃ m, overviewImpl .stored table 0 86400 = some m ∧ m.AddsUp ∧
      ∀ hour, 0 ≤ hourTokens (rowsBetween table 0 86400) hour ∧
        hourTokens (rowsBetween table 0 86400) hour < 2^63 := by
  intro table
  have hm : overviewImpl .stored table 0 86400 =
      some ⟨2,7,[⟨0,1⟩,⟨3600,1⟩],[⟨0,3⟩,⟨3600,4⟩],[⟨"m",2⟩],
        [⟨"uncached_input",0⟩,⟨"cached_input",0⟩,⟨"output",0⟩]⟩ := by decide +kernel
  exact ⟨_,hm,⟨rfl,rfl,rfl⟩,(overview_addsUp_iff hm).mp ⟨rfl,rfl,rfl⟩⟩

/-- A negative hour is left out of no total, and its bucket is 2^64 - 1. -/
theorem overview_negative_hour :
    let table := [sampleRow 0 (some (-1)),sampleRow 3600000000000 (some 2)]
    ∃ m, overviewImpl .stored table 0 86400 = some m ∧ m.totalTokens = 1 ∧
      m.tokenBuckets = [⟨0,18446744073709551615⟩,⟨3600,2⟩] ∧ ¬m.AddsUp := by
  intro table
  refine ⟨⟨2,1,[⟨0,1⟩,⟨3600,1⟩],[⟨0,18446744073709551615⟩,⟨3600,2⟩],[⟨"m",2⟩],
    [⟨"uncached_input",0⟩,⟨"cached_input",0⟩,⟨"output",0⟩]⟩,by decide +kernel,rfl,rfl,fun h => ?_⟩
  exact absurd h.tokens (by decide)

end Ait
