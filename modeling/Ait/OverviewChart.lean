import Ait.LogTable

/-!
# The chart of the overview page

The page groups the hourly buckets of the server by local days and fills the days of the
range that have none. The hours are those of UTC: in a zone that is not a whole number of
hours ahead, the first bucket of a range can begin on the day before it.
-/

namespace Ait
open Grouping

/-- The day that it is at `t` where clocks are `off` minutes ahead of UTC; `getTimezoneOffset`
is the same all year. -/
def localDay (off t : ℤ) : ℤ := (t+60*off)/86400

/-- `new Date(year, month, date)` of the local date at `t`, in seconds. Years below 100, which
the constructor takes for those of the last century, are not told apart. -/
def localMidnight (off t : ℤ) : ℤ := localDay off t*86400-60*off

def nextLocalMidnight (off cur : ℤ) : ℤ := (localDay off cur+1)*86400-60*off

/-- One round of the loop of `aggregate_daily`; the sum wraps around. -/
def addDaily (off : ℤ) (daily : List BucketEntry) (b : BucketEntry) : List BucketEntry :=
  let dayTs := localMidnight off b.timestamp
  match daily.getLast? with
  | some last =>
    if |last.timestamp-dayTs| < 1 then
      daily.dropLast ++ [⟨last.timestamp,(last.count+b.count)%2^64⟩]
    else daily ++ [⟨dayTs,b.count⟩]
  | none => daily ++ [⟨dayTs,b.count⟩]

def aggregateDaily (off : ℤ) (buckets : List BucketEntry) : List BucketEntry :=
  buckets.foldl (addDaily off) []

def maxFilledDays : ℕ := 1000

/-- The loop of `fill_daily_range`, with the entries that its cursor has not passed. -/
def fillDays (off endDay : ℤ) : ℕ → List BucketEntry → ℤ → List BucketEntry
  | 0, _, _ => []
  | fuel+1, daily, cur =>
    if cur ≤ endDay then
      match daily with
      | b::rest =>
        if |b.timestamp-cur| < 1 then
          b::fillDays off endDay fuel rest (nextLocalMidnight off cur)
        else ⟨cur,0⟩::fillDays off endDay fuel (b::rest) (nextLocalMidnight off cur)
      | [] => ⟨cur,0⟩::fillDays off endDay fuel [] (nextLocalMidnight off cur)
    else []

def spanDays (off startTs endTs : ℤ) : ℕ :=
  (max ((localMidnight off endTs-localMidnight off startTs).tdiv 86400) 0).toNat+1

def fillDailyRange (off : ℤ) (daily : List BucketEntry) (startTs endTs : ℤ) : List BucketEntry :=
  let startDay := localMidnight off startTs
  let endDay := localMidnight off endTs
  -- the loop takes one round for each day of the span
  if spanDays off startTs endTs > maxFilledDays then daily
  else fillDays off endDay (spanDays off startTs endTs) daily startDay

section Days

variable {off : ℤ}

def IsMidnight (off t : ℤ) : Prop := localMidnight off t = t

theorem isMidnight_localMidnight (t : ℤ) : IsMidnight off (localMidnight off t) := by
  simp only [IsMidnight,localMidnight,localDay]
  omega

theorem localMidnight_le (t : ℤ) : localMidnight off t ≤ t := by
  rw [localMidnight,localDay]
  omega

theorem localMidnight_mono {t u : ℤ} (h : t ≤ u) : localMidnight off t ≤ localMidnight off u := by
  rw [localMidnight,localMidnight,localDay,localDay]
  omega

theorem IsMidnight.le_localMidnight {t u : ℤ} (ht : IsMidnight off t) (h : t ≤ u) :
    t ≤ localMidnight off u := by
  rw [← ht]
  exact localMidnight_mono h

theorem lt_nextLocalMidnight (t : ℤ) : t < nextLocalMidnight off t := by
  rw [nextLocalMidnight,localDay]
  omega

theorem IsMidnight.next_eq {t : ℤ} (h : IsMidnight off t) :
    nextLocalMidnight off t = t+86400 := by
  simp only [IsMidnight,localMidnight,nextLocalMidnight] at h ⊢
  omega

theorem IsMidnight.next {t : ℤ} (h : IsMidnight off t) :
    IsMidnight off (nextLocalMidnight off t) := by
  rw [h.next_eq]
  simp only [IsMidnight,localMidnight,localDay] at h ⊢
  omega

theorem IsMidnight.next_le {t u : ℤ} (ht : IsMidnight off t) (hu : IsMidnight off u) (h : t < u) :
    nextLocalMidnight off t ≤ u := by
  rw [ht.next_eq]
  simp only [IsMidnight,localMidnight,localDay] at ht hu
  omega

theorem IsMidnight.hour_dvd {t : ℤ} (h : IsMidnight off t) (hoff : 60 ∣ off) : 3600 ∣ t := by
  simp only [IsMidnight,localMidnight,localDay] at h
  omega

end Days

/-- The counts of the buckets on the day that begins at `day`. -/
def dayCount (off : ℤ) (buckets : List BucketEntry) (day : ℤ) : ℕ :=
  BucketEntry.total (group (fun b => localMidnight off b.timestamp) buckets day)

/-- What the loop of `aggregate_daily` has put together from some buckets. -/
structure Daily (off : ℤ) (buckets daily : List BucketEntry) : Prop where
  days : ∀ e ∈ daily, ∃ b ∈ buckets, localMidnight off b.timestamp = e.timestamp
  complete : ∀ b ∈ buckets, ∃ e ∈ daily, e.timestamp = localMidnight off b.timestamp
  ascending : daily.Pairwise fun e f => e.timestamp < f.timestamp
  counts : ∀ e ∈ daily, e.count = dayCount off buckets e.timestamp % 2^64

section Grouping

variable {off : ℤ} {buckets daily : List BucketEntry}

@[simp] theorem dayCount_append_same (b : BucketEntry) :
    dayCount off (buckets ++ [b]) (localMidnight off b.timestamp) =
      dayCount off buckets (localMidnight off b.timestamp)+b.count := by
  simp [dayCount,group,BucketEntry.total]

@[simp] theorem dayCount_append_other {b : BucketEntry} {day : ℤ}
    (h : localMidnight off b.timestamp ≠ day) :
    dayCount off (buckets ++ [b]) day = dayCount off buckets day := by
  simp [dayCount,group,BucketEntry.total,h]

@[simp] theorem dayCount_eq_zero {day : ℤ}
    (h : ∀ b ∈ buckets, localMidnight off b.timestamp ≠ day) :
    dayCount off buckets day = 0 := by
  have hnil : group (fun b => localMidnight off b.timestamp) buckets day = [] := by
    rw [group,List.filter_eq_nil_iff]
    intro b hb
    simpa using h b hb
  rw [dayCount,hnil]
  rfl

theorem Daily.start : Daily off [] [] := by
  constructor <;> simp

theorem Daily.begin (h : Daily off buckets daily) {b : BucketEntry} (hb : b.count < 2^64)
    (hnew : ∀ e ∈ daily, e.timestamp < localMidnight off b.timestamp) :
    Daily off (buckets ++ [b]) (daily ++ [⟨localMidnight off b.timestamp,b.count⟩]) where
  days := by
    intro e he
    rw [List.mem_append,List.mem_singleton] at he
    obtain he | rfl := he
    · obtain ⟨b',hb',hday⟩ := h.days e he
      exact ⟨b',List.mem_append_left _ hb',hday⟩
    · exact ⟨b,by simp,rfl⟩
  complete := by
    intro b' hb'
    rw [List.mem_append,List.mem_singleton] at hb'
    obtain hb' | rfl := hb'
    · obtain ⟨e,he,hday⟩ := h.complete b' hb'
      exact ⟨e,List.mem_append_left _ he,hday⟩
    · exact ⟨_,List.mem_append_right _ List.mem_cons_self,rfl⟩
  ascending := by
    rw [List.pairwise_append]
    refine ⟨h.ascending,List.pairwise_singleton _ _,fun e he f hf => ?_⟩
    rw [List.mem_singleton.mp hf]
    exact hnew e he
  counts := by
    intro e he
    rw [List.mem_append,List.mem_singleton] at he
    obtain he | rfl := he
    · rw [dayCount_append_other (hnew e he).ne']
      exact h.counts e he
    · have hzero : dayCount off buckets (localMidnight off b.timestamp) = 0 := by
        refine dayCount_eq_zero fun b' hb' heq => ?_
        obtain ⟨e,he,hday⟩ := h.complete b' hb'
        exact absurd (hnew e he) (by omega)
      rw [dayCount_append_same,hzero,zero_add,Nat.mod_eq_of_lt hb]

theorem Daily.join {front : List BucketEntry} {last b : BucketEntry}
    (h : Daily off buckets (front ++ [last]))
    (hday : last.timestamp = localMidnight off b.timestamp) :
    Daily off (buckets ++ [b]) (front ++ [⟨last.timestamp,(last.count+b.count)%2^64⟩]) where
  days := by
    intro e he
    rw [List.mem_append,List.mem_singleton] at he
    obtain he | rfl := he
    · obtain ⟨b',hb',hday⟩ := h.days e (List.mem_append_left _ he)
      exact ⟨b',List.mem_append_left _ hb',hday⟩
    · exact ⟨b,by simp,hday.symm⟩
  complete := by
    intro b' hb'
    rw [List.mem_append,List.mem_singleton] at hb'
    obtain hb' | rfl := hb'
    · obtain ⟨e,he,heq⟩ := h.complete b' hb'
      rw [List.mem_append,List.mem_singleton] at he
      obtain he | rfl := he
      · exact ⟨e,List.mem_append_left _ he,heq⟩
      · exact ⟨_,List.mem_append_right _ List.mem_cons_self,heq⟩
    · exact ⟨_,List.mem_append_right _ List.mem_cons_self,hday⟩
  ascending := by
    obtain ⟨hfront,-,hlt⟩ := List.pairwise_append.mp h.ascending
    refine List.pairwise_append.mpr ⟨hfront,List.pairwise_singleton _ _,fun e he f hf => ?_⟩
    rw [List.mem_singleton.mp hf]
    exact hlt e he last List.mem_cons_self
  counts := by
    obtain ⟨-,-,hlt⟩ := List.pairwise_append.mp h.ascending
    intro e he
    rw [List.mem_append,List.mem_singleton] at he
    obtain he | rfl := he
    · have hother : localMidnight off b.timestamp ≠ e.timestamp := by
        rw [← hday]
        exact (hlt e he last List.mem_cons_self).ne'
      rw [dayCount_append_other hother]
      exact h.counts e (List.mem_append_left _ he)
    · have hlast := h.counts last (List.mem_append_right _ List.mem_cons_self)
      dsimp only
      rw [hday] at hlast ⊢
      rw [dayCount_append_same,hlast,Nat.mod_add_mod]

/-- A bucket that is not before the others joins the last day or begins a new one. -/
theorem Daily.add (h : Daily off buckets daily) {b : BucketEntry} (hb : b.count < 2^64)
    (hlast : ∀ b' ∈ buckets, localMidnight off b'.timestamp ≤ localMidnight off b.timestamp) :
    Daily off (buckets ++ [b]) (addDaily off daily b) := by
  have hle : ∀ e ∈ daily, e.timestamp ≤ localMidnight off b.timestamp := by
    intro e he
    obtain ⟨b',hb',hday⟩ := h.days e he
    rw [← hday]
    exact hlast b' hb'
  obtain rfl | ⟨front,last,rfl⟩ := List.eq_nil_or_concat daily
  · exact h.begin hb fun e he => absurd he List.not_mem_nil
  · simp only [addDaily,List.concat_eq_append,List.getLast?_append,List.getLast?_singleton,
      Option.some_or,List.dropLast_concat]
    rw [List.concat_eq_append] at h hle
    by_cases hday : last.timestamp = localMidnight off b.timestamp
    · rw [if_pos (by rw [hday]; simp)]
      exact h.join hday
    · have hnear : ¬|last.timestamp-localMidnight off b.timestamp| < 1 := by
        rw [Int.abs_lt_one_iff,sub_eq_zero]
        exact hday
      rw [if_neg hnear]
      refine h.begin hb fun e he => ?_
      obtain ⟨-,-,hlt⟩ := List.pairwise_append.mp h.ascending
      have hend := hle last (List.mem_append_right _ List.mem_cons_self)
      obtain he | he := List.mem_append.mp he
      · exact (hlt e he last List.mem_cons_self).trans_le hend
      · rw [List.mem_singleton.mp he]
        exact lt_of_le_of_ne hend hday

theorem aggregateDaily_daily (hcounts : ∀ b ∈ buckets, b.count < 2^64)
    (hasc : buckets.Pairwise fun b b' => b.timestamp ≤ b'.timestamp) :
    Daily off buckets (aggregateDaily off buckets) := by
  induction buckets using List.reverseRecOn with
  | nil => exact Daily.start
  | append_singleton bs b ih =>
    obtain ⟨hbs,-,hlast⟩ := List.pairwise_append.mp hasc
    rw [aggregateDaily,List.foldl_append]
    refine (ih (fun b' hb' => hcounts b' (List.mem_append_left _ hb')) hbs).add
      (hcounts b (by simp)) fun b' hb' => ?_
    exact localMidnight_mono (hlast b' hb' b List.mem_cons_self)

/-- No count is lost in the grouping unless the counts of a day wrap around. -/
theorem Daily.total_eq_iff (h : Daily off buckets daily) :
    BucketEntry.total daily = BucketEntry.total buckets ↔
      ∀ day, dayCount off buckets day < 2^64 := by
  have hnodup : (daily.map BucketEntry.timestamp).Nodup :=
    List.pairwise_map.mpr (h.ascending.imp fun hlt => hlt.ne)
  have hall : ∀ b ∈ buckets, localMidnight off b.timestamp ∈ daily.map BucketEntry.timestamp := by
    intro b hb
    obtain ⟨e,he,heq⟩ := h.complete b hb
    exact heq ▸ List.mem_map_of_mem he
  have hbuckets : ((daily.map BucketEntry.timestamp).map (dayCount off buckets)).sum =
      BucketEntry.total buckets := sum_groups BucketEntry.count hnodup hall
  have hdaily : BucketEntry.total daily =
      ((daily.map BucketEntry.timestamp).map fun day => dayCount off buckets day % 2^64).sum := by
    rw [BucketEntry.total,List.map_map]
    exact congrArg List.sum (List.map_congr_left h.counts)
  rw [hdaily,← hbuckets,sum_eq_sum_iff_of_le fun day _ => Nat.mod_le _ _]
  constructor
  · intro hmod day
    by_cases hday : day ∈ daily.map BucketEntry.timestamp
    · rw [← hmod day hday]
      exact Nat.mod_lt _ (by positivity)
    · have hzero : dayCount off buckets day = 0 :=
        dayCount_eq_zero fun b hb heq => hday (heq ▸ hall b hb)
      rw [hzero]
      positivity
  · intro hlt day _
    exact Nat.mod_eq_of_lt (hlt day)

end Grouping

section Filling

variable {off endDay : ℤ}

/-- An entry before the day that is walked is never passed, and hides all that follow. -/
@[simp] theorem fillDays_hidden {fuel : ℕ} {b : BucketEntry} {rest : List BucketEntry} {cur : ℤ}
    (hb : b.timestamp < cur) : BucketEntry.total (fillDays off endDay fuel (b::rest) cur) = 0 := by
  induction fuel generalizing cur with
  | zero => rfl
  | succ fuel ih =>
    have hfar : ¬|b.timestamp-cur| < 1 := by
      rw [Int.abs_lt_one_iff]
      omega
    rw [fillDays]
    by_cases hle : cur ≤ endDay
    · rw [if_pos hle]
      rw [if_neg hfar,BucketEntry.total,List.map_cons,List.sum_cons,zero_add]
      exact ih (hb.trans (lt_nextLocalMidnight cur))
    · rw [if_neg hle]
      rfl

theorem fillDays_total {fuel : ℕ} {daily : List BucketEntry} {cur : ℤ} (hcur : IsMidnight off cur)
    (hfuel : endDay < cur+86400*fuel) (hdays : ∀ e ∈ daily, IsMidnight off e.timestamp)
    (hasc : daily.Pairwise fun e f => e.timestamp < f.timestamp)
    (hlow : ∀ e ∈ daily, cur ≤ e.timestamp) (hhigh : ∀ e ∈ daily, e.timestamp ≤ endDay) :
    BucketEntry.total (fillDays off endDay fuel daily cur) = BucketEntry.total daily := by
  induction fuel generalizing daily cur with
  | zero =>
    cases daily with
    | nil => rfl
    | cons e daily =>
      have hle := (hlow e List.mem_cons_self).trans (hhigh e List.mem_cons_self)
      simp at hfuel
      omega
  | succ fuel ih =>
    have hnext : endDay < nextLocalMidnight off cur+86400*fuel := by
      rw [hcur.next_eq]
      push_cast at hfuel
      omega
    cases daily with
    | nil =>
      rw [fillDays]
      by_cases hle : cur ≤ endDay
      · rw [if_pos hle]
        rw [BucketEntry.total,List.map_cons,List.sum_cons,zero_add]
        exact ih hcur.next hnext hdays hasc (by simp) (by simp)
      · rw [if_neg hle]
    | cons e daily =>
      have he := hlow e List.mem_cons_self
      rw [fillDays,if_pos (he.trans (hhigh e List.mem_cons_self))]
      obtain ⟨hfirst,hrest⟩ := List.pairwise_cons.mp hasc
      have hmidnight : ∀ f ∈ daily, IsMidnight off f.timestamp :=
        fun f hf => hdays f (List.mem_cons_of_mem _ hf)
      by_cases hsame : e.timestamp = cur
      · have hnear : |e.timestamp-cur| < 1 := by simp [hsame]
        have hlater := ih hcur.next hnext hmidnight hrest
          (fun f hf => hcur.next_le (hmidnight f hf) (hsame ▸ hfirst f hf))
          fun f hf => hhigh f (List.mem_cons_of_mem _ hf)
        rw [if_pos hnear]
        simp only [BucketEntry.total,List.map_cons,List.sum_cons] at hlater ⊢
        rw [hlater]
      · have hfar : ¬|e.timestamp-cur| < 1 := by
          rw [Int.abs_lt_one_iff,sub_eq_zero]
          exact hsame
        have hlate : ∀ f ∈ e::daily, nextLocalMidnight off cur ≤ f.timestamp := by
          intro f hf
          refine hcur.next_le (hdays f hf) ?_
          obtain rfl | hf := List.mem_cons.mp hf
          · exact lt_of_le_of_ne he (Ne.symm hsame)
          · exact he.trans_lt (hfirst f hf)
        rw [if_neg hfar,BucketEntry.total,List.map_cons,List.sum_cons,zero_add]
        exact ih hcur.next hnext hdays hasc hlate hhigh

@[simp] theorem fillDays_fuel {fuel : ℕ} (more : ℕ) {daily : List BucketEntry} {cur : ℤ}
    (hcur : IsMidnight off cur) (hfuel : endDay < cur+86400*fuel) :
    fillDays off endDay (fuel+more) daily cur = fillDays off endDay fuel daily cur := by
  induction fuel generalizing daily cur with
  | zero =>
    have hend : ¬cur ≤ endDay := by
      simp at hfuel
      omega
    cases more with
    | zero => rfl
    | succ more =>
      rw [Nat.zero_add]
      exact if_neg hend
  | succ fuel ih =>
    have hnext : endDay < nextLocalMidnight off cur+86400*fuel := by
      rw [hcur.next_eq]
      push_cast at hfuel
      omega
    have hrest : ∀ rest, fillDays off endDay (fuel+more) rest (nextLocalMidnight off cur) =
        fillDays off endDay fuel rest (nextLocalMidnight off cur) := fun _ => ih hcur.next hnext
    rw [Nat.add_right_comm]
    cases daily with
    | nil => simp only [fillDays,hrest]
    | cons e daily => simp only [fillDays,hrest]

theorem lt_spanDays (startTs endTs : ℤ) :
    localMidnight off endTs < localMidnight off startTs+86400*spanDays off startTs endTs := by
  have hdays : localMidnight off endTs-localMidnight off startTs =
      (localDay off endTs-localDay off startTs)*86400 := by
    simp only [localMidnight]
    ring
  rw [spanDays,hdays,Int.mul_tdiv_cancel _ (by decide)]
  omega

/-- The loop ends by itself: more rounds than the span allows give the same days. -/
@[simp] theorem fillDays_span (daily : List BucketEntry) (startTs endTs : ℤ) (more : ℕ) :
    fillDays off (localMidnight off endTs) (spanDays off startTs endTs+more) daily
        (localMidnight off startTs) =
      fillDays off (localMidnight off endTs) (spanDays off startTs endTs) daily
        (localMidnight off startTs) :=
  fillDays_fuel more (isMidnight_localMidnight _) (lt_spanDays _ _)

end Filling

theorem hour_le {t endTs : ℤ} (h : t < endTs*1000000000) : t/3600000000000*3600 ≤ endTs := by
  omega

/-- What begins an hour is not later than the hour of an instant behind it. -/
theorem le_hour {day startTs t : ℤ} (hday : 3600 ∣ day) (hle : day ≤ startTs)
    (h : startTs*1000000000 ≤ t) : day ≤ t/3600000000000*3600 := by
  omega

section Chart

variable {off startTs endTs : ℤ} {rows : List ProxyLogRow} {buckets daily : List BucketEntry}

/-- Days before the range hide all the others, and days of the range are all kept. -/
theorem fillDailyRange_total (hspan : spanDays off startTs endTs ≤ maxFilledDays)
    (h : Daily off buckets daily) (hend : ∀ b ∈ buckets, b.timestamp ≤ endTs) :
    BucketEntry.total (fillDailyRange off daily startTs endTs) =
      if ∀ b ∈ buckets, localMidnight off startTs ≤ b.timestamp then BucketEntry.total daily
      else 0 := by
  rw [fillDailyRange,if_neg (not_lt.mpr hspan)]
  by_cases hstart : ∀ b ∈ buckets, localMidnight off startTs ≤ b.timestamp
  · rw [if_pos hstart]
    refine fillDays_total (isMidnight_localMidnight _) (lt_spanDays _ _) ?_ h.ascending ?_ ?_ <;>
      intro e he <;> obtain ⟨b,hb,hday⟩ := h.days e he <;> rw [← hday]
    · exact isMidnight_localMidnight _
    · exact (isMidnight_localMidnight _).le_localMidnight (hstart b hb)
    · exact localMidnight_mono (hend b hb)
  · rw [if_neg hstart]
    simp only [not_forall,not_le] at hstart
    obtain ⟨b,hb,hearly⟩ := hstart
    obtain ⟨e,he,hday⟩ := h.complete b hb
    have hbefore : e.timestamp < localMidnight off startTs :=
      hday ▸ (localMidnight_le b.timestamp).trans_lt hearly
    cases hdaily : daily with
    | nil =>
      rw [hdaily] at he
      exact absurd he List.not_mem_nil
    | cons f rest =>
      -- the first entry is no later than the one of the early bucket
      refine fillDays_hidden (lt_of_le_of_lt ?_ hbefore)
      have hasc := h.ascending
      rw [hdaily] at he hasc
      obtain rfl | he := List.mem_cons.mp he
      · exact le_rfl
      · exact ((List.pairwise_cons.mp hasc).1 e he).le

/-- The chart keeps the counts of its buckets when no bucket begins before the first local day
and no day wraps around; in a zone of whole hours none begins before. -/
theorem chart_total_iff (hspan : spanDays off startTs endTs ≤ maxFilledDays)
    (hrows : ∀ r ∈ rows, startTs*1000000000 ≤ r.timestamp ∧ r.timestamp < endTs*1000000000)
    (hbuckets : buckets = (hourlyBuckets rows).1 ∨ buckets = (hourlyBuckets rows).2) :
    (BucketEntry.total (fillDailyRange off (aggregateDaily off buckets) startTs endTs) =
        BucketEntry.total buckets ↔
      BucketEntry.total buckets = 0 ∨
        (∀ b ∈ buckets, localMidnight off startTs ≤ b.timestamp) ∧
          ∀ day, dayCount off buckets day < 2^64) ∧
    (60 ∣ off → ∀ b ∈ buckets, localMidnight off startTs ≤ b.timestamp) := by
  obtain ⟨hspec,hasc⟩ := hourlyBuckets_spec hbuckets
  have hdaily : Daily off buckets (aggregateDaily off buckets) :=
    aggregateDaily_daily (fun b hb => (hspec b hb).1) hasc
  have hend : ∀ b ∈ buckets, b.timestamp ≤ endTs := by
    intro b hb
    obtain ⟨-,r,hr,hhour⟩ := hspec b hb
    exact hhour ▸ hour_le (hrows r hr).2
  constructor
  · rw [fillDailyRange_total hspan hdaily hend]
    by_cases hstart : ∀ b ∈ buckets, localMidnight off startTs ≤ b.timestamp
    · rw [if_pos hstart,and_iff_right hstart,hdaily.total_eq_iff,iff_or_self]
      intro hzero day
      have hle : dayCount off buckets day ≤ BucketEntry.total buckets :=
        (List.filter_sublist.map BucketEntry.count).sum_le_sum fun _ _ => Nat.zero_le _
      omega
    · rw [if_neg hstart,eq_comm,or_iff_left fun h => hstart h.1]
  · intro hoff b hb
    obtain ⟨-,r,hr,hhour⟩ := hspec b hb
    exact hhour ▸ le_hour ((isMidnight_localMidnight _).hour_dvd hoff) (localMidnight_le _)
      (hrows r hr).1

end Chart

/-- From 18:30 UTC to the next day's, a day where clocks are five and a half hours ahead. -/
theorem chart_total_half_hour_zone :
    let buckets := (hourlyBuckets [sampleRow 72000000000000 (some 5)]).2
    BucketEntry.total (fillDailyRange 330 (aggregateDaily 330 buckets) 66600 153000) = 5 ∧
      (BucketEntry.total buckets = 0 ∨ (∀ b ∈ buckets, localMidnight 330 66600 ≤ b.timestamp) ∧
        ∀ day, dayCount 330 buckets day < 2^64) := by
  intro buckets
  have hrows : ∀ r ∈ [sampleRow 72000000000000 (some 5)],
      (66600 : ℤ)*1000000000 ≤ r.timestamp ∧ r.timestamp < (153000 : ℤ)*1000000000 := by decide
  exact ⟨by decide +kernel,(chart_total_iff (by decide) hrows (.inr rfl)).1.mp (by decide +kernel)⟩

/-- A minute into that day the hour of UTC is half an hour old, and the chart is empty. -/
theorem chart_loses_first_half_hour :
    let rows := [sampleRow 66660000000000 (some 5)]
    (∀ r ∈ rows, (66600 : ℤ)*1000000000 ≤ r.timestamp ∧ r.timestamp < (153000 : ℤ)*1000000000) ∧
      spanDays 330 66600 153000 ≤ maxFilledDays ∧
      BucketEntry.total (fillDailyRange 330 (aggregateDaily 330 (hourlyBuckets rows).1) 66600
        153000) = 0 ∧ BucketEntry.total (hourlyBuckets rows).1 = 1 := by
  decide +kernel

end Ait
