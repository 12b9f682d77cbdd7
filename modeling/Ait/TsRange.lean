import Ait.LogQuery

/-!
# The time range of an analytics query

`validate_ts_range` checks both endpoints and then moves them: the end is brought back to
an hour from now, an empty range becomes the day before its end, and a wide one is cut.
The endpoints are not checked again, and the day before the first timestamp has none.
-/

namespace Ait

/-- The result of an `i64` operation; `none` is an overflow. -/
def inI64 (v : ℤ) : Option ℤ := if FitsI64 v then some v else none

structure ValidatedRange where
  start : ℤ
  stop : ℤ
  deriving DecidableEq

def correctRange (now start stop : ℤ) (retentionDays : ℕ) : Option ValidatedRange := do
  let days ← inI64 (asI64 retentionDays+1)
  let maxRange ← inI64 (days*86400)
  let latest ← inI64 (now+3600)
  let stop := min stop latest
  if start ≥ stop then
    let start ← inI64 (stop-86400)
    return ⟨start,stop⟩
  else
    let width ← inI64 (stop-start)
    if width > maxRange then
      let start ← inI64 (stop-maxRange)
      return ⟨start,stop⟩
    else return ⟨start,stop⟩

def validateTsRange (now : ℤ) (startTs endTs : Option ℤ) (retentionDays : ℕ) :
    Option (Except AitError ValidatedRange) := do
  -- the default is computed whether or not it is needed
  let monthAgo ← inI64 (now-30*86400)
  let start := startTs.getD monthAgo
  let stop := endTs.getD now
  if (fromTimestamp start).isNone then return .error (.badRequest "invalid start_ts")
  else if (fromTimestamp stop).isNone then return .error (.badRequest "invalid end_ts")
  else
    let range ← correctRange now start stop retentionDays
    return .ok range

def maxRetentionDays : ℕ := 36500

def Representable (t : ℤ) : Prop := (fromTimestamp t).isSome

instance : DecidablePred Representable := fun t =>
  inferInstanceAs (Decidable ((fromTimestamp t).isSome = true))

structure ValidatedRange.Usable (now : ℤ) (retentionDays : ℕ) (r : ValidatedRange) : Prop where
  start : Representable r.start
  stop : Representable r.stop
  nonempty : 0 < r.stop-r.start
  width : r.stop-r.start ≤ (retentionDays+1)*86400
  latest : r.stop ≤ now+3600

@[simp] theorem representable_iff {t : ℤ} :
    Representable t ↔ -8334601228800 ≤ t ∧ t ≤ 8210266876799 := by
  rw [Representable,fromTimestamp]
  split
  · rename_i h
    simpa using h
  · rename_i h
    simpa using h

theorem not_isNone_iff {t : ℤ} : ¬(fromTimestamp t).isNone ↔ Representable t := by
  rw [Representable]
  cases fromTimestamp t <;> simp

theorem ValidatedRange.Usable.tsRange_eq {now : ℤ} {retentionDays : ℕ} {r : ValidatedRange}
    (h : r.Usable now retentionDays) :
    tsRange r.start r.stop = (r.start*1000000000,r.stop*1000000000) := by
  have hstart := representable_iff.mp h.start
  have hstop := representable_iff.mp h.stop
  simp [tsRange,fromTimestamp,hstart,hstop]

section Correction

variable {now start stop : ℤ} {retentionDays : ℕ}

/-- The three corrections without their overflow checks. -/
def corrected (now start stop : ℤ) (retentionDays : ℕ) : ValidatedRange :=
  let stop := min stop (now+3600)
  if start ≥ stop then ⟨stop-86400,stop⟩
  else if stop-start > (retentionDays+1)*86400 then ⟨stop-(retentionDays+1)*86400,stop⟩
  else ⟨start,stop⟩

@[simp] theorem inI64_of_fits {v : ℤ} (h : FitsI64 v) : inI64 v = some v := if_pos h

theorem correctRange_eq (hnow : Representable now) (hret : retentionDays ≤ maxRetentionDays)
    (hstart : Representable start) (hstop : Representable stop) :
    correctRange now start stop retentionDays = some (corrected now start stop retentionDays) := by
  rw [representable_iff] at hnow hstart hstop
  rw [maxRetentionDays] at hret
  have hread : correctRange now start stop retentionDays =
      (inI64 (asI64 retentionDays+1)).bind fun days => (inI64 (days*86400)).bind fun maxRange =>
        (inI64 (now+3600)).bind fun latest =>
          if start ≥ min stop latest then
            (inI64 (min stop latest-86400)).bind fun start => some ⟨start,min stop latest⟩
          else (inI64 (min stop latest-start)).bind fun width =>
            if width > maxRange then
              (inI64 (min stop latest-maxRange)).bind fun start => some ⟨start,min stop latest⟩
            else some ⟨start,min stop latest⟩ := rfl
  have hdays : asI64 retentionDays = retentionDays := asI64_of_le (hret.trans (by decide))
  have hfits : FitsI64 ((retentionDays : ℤ)+1) ∧ FitsI64 (((retentionDays : ℤ)+1)*86400) ∧
      FitsI64 (now+3600) ∧ FitsI64 (min stop (now+3600)-86400) ∧
      FitsI64 (min stop (now+3600)-(retentionDays+1)*86400) := by
    simp only [FitsI64]
    omega
  obtain ⟨hone,hrange,hlatest,hday,hcut⟩ := hfits
  rw [hread,hdays,inI64_of_fits hone,Option.bind_some,inI64_of_fits hrange,Option.bind_some,
    inI64_of_fits hlatest,Option.bind_some,corrected]
  by_cases hempty : start ≥ min stop (now+3600)
  · rw [if_pos hempty,if_pos hempty,inI64_of_fits hday,Option.bind_some]
  · have hwidth : FitsI64 (min stop (now+3600)-start) := by
      rw [FitsI64]
      omega
    rw [if_neg hempty,if_neg hempty,inI64_of_fits hwidth,Option.bind_some]
    split
    · rw [inI64_of_fits hcut,Option.bind_some]
    · rfl

/-- A corrected range is usable unless a day before its end has no timestamp. -/
theorem corrected_usable_iff (hnow : Representable now) (hstart : Representable start)
    (hstop : Representable stop) :
    (corrected now start stop retentionDays).Usable now retentionDays ↔
      ¬(min stop (now+3600) ≤ start ∧ ¬Representable (min stop (now+3600)-86400)) := by
  rw [representable_iff] at hnow hstart hstop
  rw [corrected]
  by_cases hempty : start ≥ min stop (now+3600)
  · simp only [if_pos hempty]
    rw [and_iff_right hempty,not_not]
    constructor
    · intro h
      exact h.start
    · intro h
      refine ⟨h,?_,?_,?_,min_le_right _ _⟩
      · rw [representable_iff] at h ⊢
        dsimp only
        omega
      · dsimp only
        omega
      · dsimp only
        omega
  · simp only [if_neg hempty]
    refine iff_of_true ?_ fun h => hempty h.1
    split
    · refine ⟨?_,?_,?_,?_,min_le_right _ _⟩ <;> simp only [representable_iff] <;> omega
    · refine ⟨?_,?_,?_,?_,min_le_right _ _⟩ <;> simp only [representable_iff] <;> omega

@[simp] theorem corrected_of_usable {r : ValidatedRange} (h : r.Usable now retentionDays) :
    corrected now r.start r.stop retentionDays = r := by
  have hnonempty := h.nonempty
  have hwidth := h.width
  rw [corrected,min_eq_left h.latest,if_neg (by omega),if_neg (not_lt.mpr hwidth)]

end Correction

section Validation

variable {now : ℤ} {startTs endTs : Option ℤ} {retentionDays : ℕ}

/-- Accepted endpoints are corrected; the others are errors, and nothing overflows. -/
theorem validateTsRange_eq (hnow : Representable now) (hret : retentionDays ≤ maxRetentionDays) :
    validateTsRange now startTs endTs retentionDays = some (
      if (fromTimestamp (startTs.getD (now-30*86400))).isNone then
        .error (.badRequest "invalid start_ts")
      else if (fromTimestamp (endTs.getD now)).isNone then .error (.badRequest "invalid end_ts")
      else .ok (corrected now (startTs.getD (now-30*86400)) (endTs.getD now) retentionDays)) := by
  have hmonth : FitsI64 (now-30*86400) := by
    rw [representable_iff] at hnow
    rw [FitsI64]
    omega
  have hread : validateTsRange now startTs endTs retentionDays =
      (inI64 (now-30*86400)).bind fun monthAgo =>
        if (fromTimestamp (startTs.getD monthAgo)).isNone then
          some (.error (.badRequest "invalid start_ts"))
        else if (fromTimestamp (endTs.getD now)).isNone then
          some (.error (.badRequest "invalid end_ts"))
        else (correctRange now (startTs.getD monthAgo) (endTs.getD now) retentionDays).bind
          fun range => some (.ok range) := rfl
  rw [hread,inI64_of_fits hmonth,Option.bind_some]
  by_cases hstart : (fromTimestamp (startTs.getD (now-30*86400))).isNone
  · rw [if_pos hstart,if_pos hstart]
  · rw [if_neg hstart,if_neg hstart]
    by_cases hstop : (fromTimestamp (endTs.getD now)).isNone
    · rw [if_pos hstop,if_pos hstop]
    · rw [if_neg hstop,if_neg hstop,correctRange_eq hnow hret (not_isNone_iff.mp hstart)
        (not_isNone_iff.mp hstop),Option.bind_some]

theorem validateTsRange_ok_iff (hnow : Representable now) (hret : retentionDays ≤ maxRetentionDays)
    {r : ValidatedRange} :
    validateTsRange now startTs endTs retentionDays = some (.ok r) ↔
      Representable (startTs.getD (now-30*86400)) ∧ Representable (endTs.getD now) ∧
        corrected now (startTs.getD (now-30*86400)) (endTs.getD now) retentionDays = r := by
  rw [validateTsRange_eq hnow hret,Option.some.injEq,← not_isNone_iff,← not_isNone_iff]
  generalize startTs.getD (now-30*86400) = start
  by_cases hstart : (fromTimestamp start).isNone
  · rw [if_pos hstart]
    exact iff_of_false (by simp) fun h => h.1 hstart
  · rw [if_neg hstart]
    by_cases hstop : (fromTimestamp (endTs.getD now)).isNone
    · rw [if_pos hstop]
      exact iff_of_false (by simp) fun h => h.2.1 hstop
    · rw [if_neg hstop,Except.ok.injEq,and_iff_right hstart,and_iff_right hstop]

structure RangeContract (now : ℤ) (startTs endTs : Option ℤ) (retentionDays : ℕ) : Prop where
  total : validateTsRange now startTs endTs retentionDays ≠ none
  usable : ∀ r, validateTsRange now startTs endTs retentionDays = some (.ok r) →
    r.Usable now retentionDays
  queried : ∀ r, validateTsRange now startTs endTs retentionDays = some (.ok r) →
    tsRange r.start r.stop = (r.start*1000000000,r.stop*1000000000)
  kept : ∀ r : ValidatedRange, startTs = some r.start → endTs = some r.stop →
    r.Usable now retentionDays →
    validateTsRange now startTs endTs retentionDays = some (.ok r)
  stable : ∀ r, validateTsRange now startTs endTs retentionDays = some (.ok r) →
    validateTsRange now (some r.start) (some r.stop) retentionDays = some (.ok r)

/-- Accepted endpoints without a range between them, and no timestamp a day before the end. -/
def CutOff (now : ℤ) (startTs endTs : Option ℤ) : Prop :=
  Representable (startTs.getD (now-30*86400)) ∧ Representable (endTs.getD now) ∧
    min (endTs.getD now) (now+3600) ≤ startTs.getD (now-30*86400) ∧
    ¬Representable (min (endTs.getD now) (now+3600)-86400)

/-- The contract holds but for the empty ranges that end on the first day there is. -/
theorem rangeContract_iff (hnow : Representable now) (hret : retentionDays ≤ maxRetentionDays) :
    RangeContract now startTs endTs retentionDays ↔ ¬CutOff now startTs endTs := by
  constructor
  · rintro h ⟨hstart,hstop,hcut⟩
    have husable := h.usable _ ((validateTsRange_ok_iff hnow hret).mpr ⟨hstart,hstop,rfl⟩)
    exact (corrected_usable_iff hnow hstart hstop).mp husable hcut
  · intro hcut
    have husable : ∀ r, validateTsRange now startTs endTs retentionDays = some (.ok r) →
        r.Usable now retentionDays := by
      intro r hr
      obtain ⟨hstart,hstop,rfl⟩ := (validateTsRange_ok_iff hnow hret).mp hr
      exact (corrected_usable_iff hnow hstart hstop).mpr fun h => hcut ⟨hstart,hstop,h⟩
    have hkept : ∀ r : ValidatedRange, r.Usable now retentionDays →
        validateTsRange now (some r.start) (some r.stop) retentionDays = some (.ok r) :=
      fun r hr => (validateTsRange_ok_iff hnow hret).mpr ⟨hr.start,hr.stop,corrected_of_usable hr⟩
    refine ⟨?_,husable,fun r hr => (husable r hr).tsRange_eq,?_,
      fun r hr => hkept r (husable r hr)⟩
    · rw [validateTsRange_eq hnow hret]
      exact Option.some_ne_none _
    · rintro r rfl rfl hr
      exact hkept r hr

end Validation

/-- The last thirty days, on the first day of 2026. -/
theorem rangeContract_default : RangeContract 1767225600 none none 30 := by
  refine (rangeContract_iff (by decide) (by decide)).mpr ?_
  rintro ⟨-,-,hempty,-⟩
  exact absurd hempty (by decide)

/-- The first timestamp as both endpoints: the start becomes the day before it. -/
theorem not_rangeContract_first :
    validateTsRange 1767225600 (some (-8334601228800)) (some (-8334601228800)) 30 =
        some (.ok ⟨-8334601315200,-8334601228800⟩) ∧
      ¬RangeContract 1767225600 (some (-8334601228800)) (some (-8334601228800)) 30 := by
  have hok : validateTsRange 1767225600 (some (-8334601228800)) (some (-8334601228800)) 30 =
      some (.ok ⟨-8334601315200,-8334601228800⟩) := by rfl
  refine ⟨hok,fun h => ?_⟩
  exact absurd (h.usable _ hok).start (by rw [representable_iff]; decide)

end Ait
