/-
  The next firing of a schedule in the build without nanocron (`sc_cron_schedule_next_after`,
  `src/autonomy/autonomy.c`).

  1. **Program** — from the minute behind `after` on, every minute is asked, 366 days and one minute
     long.

  2. **Calendar** — every date falls on every day of the week, as late as one likes (`exists_date`): a
     schedule whose day exists in its month matches again and again (`exists_due`), and no other one
     ever matches (`dueIn_impossible`).

  3. **Defects** — the quotient is cut off towards zero, so that inside a minute before 1970 the next
     minute is passed over; and a 29th of February, or a Friday the 13th of one month, can be years away.

  4. **Result** — `nextAfter_iff`: the call gives the true next firing exactly if the minute that is
     passed over does not match and, where the day exists, some minute of the window does.
-/
import Mathlib.Order.Bounds.Basic
import SmolClaw.Autonomy.Schedule

namespace SmolClaw.Cron

open SmolClaw.Net

/-! ## Dates that exist -/

/-- The days of a month in a leap year. -/
def monthDays (month : Int) : Int :=
  if month = 2 then 29 else if month = 4 ∨ month = 6 ∨ month = 9 ∨ month = 11 then 30 else 31

/-- A date has a month, and a day of it. -/
theorem civilDate_valid (day : Int) :
    (1 ≤ (civilDate day).2.1 ∧ (civilDate day).2.1 ≤ 12) ∧
      1 ≤ (civilDate day).2.2 ∧ (civilDate day).2.2 ≤ monthDays (civilDate day).2.1 := by
  unfold civilDate
  simp only
  generalize day + 719468 = days
  have hlow := Int.emod_nonneg days (show (146097 : Int) ≠ 0 by decide)
  have hhigh := Int.emod_lt_of_pos days (show (0 : Int) < 146097 by decide)
  generalize days % 146097 = dayOfEra at hlow hhigh ⊢
  generalize hcentury : min (dayOfEra / 36524) 3 = century
  generalize hcenturyDay : dayOfEra - century * 36524 = dayOfCentury
  have hfourDay : 0 ≤ dayOfCentury % 1461 ∧ dayOfCentury % 1461 < 1461 := by omega
  generalize dayOfCentury % 1461 = dayOfFour at hfourDay ⊢
  generalize hyear : min (dayOfFour / 365) 3 = year
  have hdoy : 0 ≤ dayOfFour - year * 365 ∧ dayOfFour - year * 365 ≤ 365 := by omega
  generalize dayOfFour - year * 365 = dayOfYear at hdoy ⊢
  generalize hmonth : (5 * dayOfYear + 2) / 153 = month
  have hmonths : 0 ≤ month ∧ month ≤ 11 := by omega
  refine ⟨by split <;> omega, by omega, ?_⟩
  unfold monthDays
  split <;> split <;> (try split) <;> omega

/-- The day `dayOfYear` of a March year in the first century of an era. -/
theorem civilDate_march {era four year dayOfYear : Int} (hfour : 0 ≤ four ∧ four ≤ 20)
    (hyear : 0 ≤ year ∧ year ≤ 3) (hday : 0 ≤ dayOfYear ∧ dayOfYear ≤ 365)
    (hleap : dayOfYear = 365 → year = 3) :
    civilDate (era * 146097 + four * 1461 + year * 365 + dayOfYear - 719468) =
      (if (5 * dayOfYear + 2) / 153 < 10 then era * 400 + four * 4 + year
        else era * 400 + four * 4 + year + 1,
       if (5 * dayOfYear + 2) / 153 < 10 then (5 * dayOfYear + 2) / 153 + 3
        else (5 * dayOfYear + 2) / 153 - 9,
       dayOfYear - (153 * ((5 * dayOfYear + 2) / 153) + 2) / 5 + 1) := by
  generalize hday' : era * 146097 + four * 1461 + year * 365 + dayOfYear - 719468 = day
  have hera : (day + 719468) / 146097 = era := by omega
  have hdayOfEra : (day + 719468) % 146097 = four * 1461 + year * 365 + dayOfYear := by omega
  have hcentury : min ((four * 1461 + year * 365 + dayOfYear) / 36524) 3 = 0 := by omega
  have hdayOfFour : (four * 1461 + year * 365 + dayOfYear) % 1461 = year * 365 + dayOfYear := by omega
  have hfourth : (four * 1461 + year * 365 + dayOfYear) / 1461 = four := by omega
  have hyearOf : min ((year * 365 + dayOfYear) / 365) 3 = year := by omega
  have hrest : year * 365 + dayOfYear - year * 365 = dayOfYear := by omega
  unfold civilDate
  simp only [hera, hdayOfEra, hcentury, Int.zero_mul, Int.sub_zero, Int.add_zero, hdayOfFour, hfourth,
    hyearOf, hrest]

/-- A date of one of seven leap years in a row. -/
theorem civilDate_leap {k t month day : Int} (hk : 0 ≤ k ∧ k ≤ 6) (hmonth : 1 ≤ month ∧ month ≤ 12)
    (hday : 1 ≤ day ∧ day ≤ monthDays month) :
    civilDate (dayNumber (2004 + 4 * k + 400 * t, month, day)) = (2004 + 4 * k + 400 * t, month, day) := by
  by_cases hearly : month ≤ 2
  · -- the March year began the year before
    have hlate : 0 ≤ (153 * (month + 9) + 2) / 5 + day - 1 ∧ (153 * (month + 9) + 2) / 5 + day - 1 ≤ 365 ∧
        (5 * ((153 * (month + 9) + 2) / 5 + day - 1) + 2) / 153 = month + 9 := by
      unfold monthDays at hday
      split at hday <;> omega
    have hnumber : dayNumber (2004 + 4 * k + 400 * t, month, day) =
        (5 + t) * 146097 + k * 1461 + 3 * 365 + ((153 * (month + 9) + 2) / 5 + day - 1) - 719468 := by
      unfold dayNumber
      simp only [if_pos hearly]
      omega
    rw [hnumber, civilDate_march ⟨hk.1, by omega⟩ (by decide) ⟨hlate.1, hlate.2.1⟩ fun _ => rfl, hlate.2.2,
      if_neg (by omega), if_neg (by omega)]
    refine Prod.ext (by simp only; omega) (Prod.ext (by simp only; omega) (by simp only; omega))
  · have hlate : 0 ≤ (153 * (month - 3) + 2) / 5 + day - 1 ∧ (153 * (month - 3) + 2) / 5 + day - 1 < 365 ∧
        (5 * ((153 * (month - 3) + 2) / 5 + day - 1) + 2) / 153 = month - 3 := by
      unfold monthDays at hday
      by_cases hseven : month = 7 ∨ month = 8
      · rcases hseven with rfl | rfl <;> omega
      · split at hday <;> (try split at hday) <;> omega
    have hnumber : dayNumber (2004 + 4 * k + 400 * t, month, day) =
        (5 + t) * 146097 + (k + 1) * 1461 + 0 * 365 + ((153 * (month - 3) + 2) / 5 + day - 1) - 719468 := by
      unfold dayNumber
      simp only [if_neg hearly]
      omega
    rw [hnumber, civilDate_march ⟨by omega, by omega⟩ (by decide) ⟨hlate.1, by omega⟩ (by omega), hlate.2.2,
      if_pos (by omega), if_pos (by omega)]
    refine Prod.ext (by simp only; omega) (Prod.ext (by simp only; omega) (by simp only; omega))

/-- **Every date falls on every day of the week**, as late as one likes. -/
theorem exists_date {month day weekday : Int} (hmonth : 1 ≤ month ∧ month ≤ 12)
    (hday : 1 ≤ day ∧ day ≤ monthDays month) (hweekday : 0 ≤ weekday ∧ weekday ≤ 6) (bound : Int) :
    ∃ n, bound ≤ n ∧ (civilDate n).2 = (month, day) ∧ (n + 4) % 7 = weekday := by
  -- the weekday moves on by five from one leap year to the next
  obtain ⟨base, hbase⟩ : ∃ base, ∀ k t : Int, 0 ≤ k → k ≤ 6 →
      dayNumber (2004 + 4 * k + 400 * t, month, day) = base + 1461 * k + 146097 * t := by
    refine ⟨dayNumber (2004, month, day), fun k t hk hk6 => ?_⟩
    unfold dayNumber
    by_cases hearly : month ≤ 2
    · simp only [if_pos hearly]
      omega
    · simp only [if_neg hearly]
      omega
  refine ⟨base + 1461 * (3 * (weekday - 4 - base) % 7) + 146097 * (bound.natAbs + base.natAbs),
    by omega, ?_, by omega⟩
  rw [← hbase _ _ (by omega) (by omega), civilDate_leap ⟨by omega, by omega⟩ hmonth hday]

/-! ## Program -/

/-- The loop of `sc_cron_schedule_next_after`. -/
def searchFrom (schedule : CronSchedule) (limit cursor : Int) : Option Int :=
  if cursor ≤ limit then
    if cronScheduleMatches .legacy schedule cursor then some cursor
    else searchFrom schedule limit (cursor + minuteNs)
  else none
termination_by (limit + 1 - cursor).toNat
decreasing_by
  have hstep : minuteNs = 60000000000 := rfl
  omega

/-- `sc_cron_schedule_next_after` without nanocron. -/
def nextAfter (schedule : CronSchedule) (after : Int) : Res Int :=
  let cursor := (after.tdiv minuteNs + 1) * minuteNs
  let limit := cursor + 366 * 24 * 60 * minuteNs
  match searchFrom schedule limit cursor with
  | some candidate => .ok candidate
  | none => Status.timeout "sc.cron_schedule.next_not_found"

/-- **What the call is for**: the least firing at a whole minute behind `after`, and an error only if
    there is none. -/
def IsNextFiring (schedule : CronSchedule) (after : Int) : Res Int → Prop
  | .ok next =>
      IsLeast {t | after < t ∧ t % minuteNs = 0 ∧ cronScheduleMatches .legacy schedule t = true} next
  | .error _ => ∀ t, after < t → t % minuteNs = 0 → cronScheduleMatches .legacy schedule t = false

/-! ## Minutes -/

/-- A whole minute matches if its fields do. -/
theorem matches_minute (schedule : CronSchedule) (minute : Int) :
    cronScheduleMatches .legacy schedule (minute * minuteNs) = schedule.dueIn minute := by
  have hcut : (minute * minuteNs).tdiv 1000000000 = 60 * minute := by
    have hproduct : minute * minuteNs = 60 * minute * 1000000000 := by
      rw [show minuteNs = 60000000000 from rfl]
      omega
    rw [hproduct]
    exact Int.mul_tdiv_cancel _ (by decide)
  rw [cronScheduleMatches, hcut, CronSchedule.dueIn]

/-- **The two ends of a search**: the first due minute of the window, or a window without one. -/
theorem searchFrom_minutes (schedule : CronSchedule) (window : Nat) :
    ∀ minute : Int,
      (∃ k : Nat, k ≤ window ∧ schedule.dueIn (minute + k) = true ∧
        (∀ j : Nat, j < k → schedule.dueIn (minute + j) = false) ∧
        searchFrom schedule ((minute + window) * minuteNs) (minute * minuteNs) =
          some ((minute + k) * minuteNs)) ∨
      ((∀ k : Nat, k ≤ window → schedule.dueIn (minute + k) = false) ∧
        searchFrom schedule ((minute + window) * minuteNs) (minute * minuteNs) = none) := by
  have hns : minuteNs = 60000000000 := rfl
  induction window with
  | zero =>
    intro minute
    rw [searchFrom, if_pos (by rw [hns]; omega), matches_minute]
    cases hdue : schedule.dueIn minute with
    | true =>
      refine Or.inl ⟨0, Nat.le_refl 0, ?_, fun j hj => absurd hj (Nat.not_lt_zero j), ?_⟩
      · rw [show minute + ((0 : Nat) : Int) = minute by omega]
        exact hdue
      · rw [if_pos rfl, show minute + ((0 : Nat) : Int) = minute by omega]
    | false =>
      refine Or.inr ⟨fun k hk => ?_, ?_⟩
      · rw [show minute + (k : Int) = minute by omega]
        exact hdue
      · rw [if_neg Bool.false_ne_true, searchFrom, if_neg (by rw [hns]; omega)]
  | succ window ih =>
    intro minute
    have hnext : minute * minuteNs + minuteNs = (minute + 1) * minuteNs := by rw [hns]; omega
    have hlimit : minute + ((window + 1 : Nat) : Int) = minute + 1 + (window : Int) := by omega
    rw [searchFrom, if_pos (by rw [hns]; omega), matches_minute, hnext, hlimit]
    cases hdue : schedule.dueIn minute with
    | true =>
      refine Or.inl ⟨0, Nat.zero_le _, ?_, fun j hj => absurd hj (Nat.not_lt_zero j), ?_⟩
      · rw [show minute + ((0 : Nat) : Int) = minute by omega]
        exact hdue
      · rw [if_pos rfl, show minute + ((0 : Nat) : Int) = minute by omega]
    | false =>
      rw [if_neg Bool.false_ne_true]
      -- a minute of the window is the first one or one of the rest
      have hshift : ∀ k : Nat, minute + ((k + 1 : Nat) : Int) = minute + 1 + (k : Int) := fun k => by omega
      rcases ih (minute + 1) with ⟨k, hk, hfound, hbefore, hsearch⟩ | ⟨hnone, hsearch⟩
      · refine Or.inl ⟨k + 1, by omega, ?_, fun j hj => ?_, ?_⟩
        · rw [hshift]
          exact hfound
        · cases j with
          | zero =>
            rw [show minute + ((0 : Nat) : Int) = minute by omega]
            exact hdue
          | succ j =>
            rw [hshift]
            exact hbefore j (by omega)
        · rw [hshift]
          exact hsearch
      · refine Or.inr ⟨fun k hk => ?_, hsearch⟩
        cases k with
        | zero =>
          rw [show minute + ((0 : Nat) : Int) = minute by omega]
          exact hdue
        | succ k =>
          rw [hshift]
          exact hnone k (by omega)

/-! ## Schedules that match at all -/

/-- What `parse_field` gives. -/
theorem parseField_range {field : Bytes} {min max value : Int} (h : parseField field min max = .ok value) :
    value = -1 ∨ min ≤ value ∧ value ≤ max := by
  unfold parseField at h
  split at h
  · cases h
  split at h
  · exact Or.inl (Except.ok.inj h).symm
  split at h
  · cases h
  split at h
  · cases h
  next hrange =>
    obtain rfl := Except.ok.inj h
    rw [not_or, not_or] at hrange
    exact Or.inr ⟨by omega, by omega⟩

/-- The ranges of the fields. -/
structure CronSchedule.InRange (schedule : CronSchedule) : Prop where
  minute : schedule.minute = -1 ∨ 0 ≤ schedule.minute ∧ schedule.minute ≤ 59
  hour : schedule.hour = -1 ∨ 0 ≤ schedule.hour ∧ schedule.hour ≤ 23
  dayOfMonth : schedule.dayOfMonth = -1 ∨ 1 ≤ schedule.dayOfMonth ∧ schedule.dayOfMonth ≤ 31
  month : schedule.month = -1 ∨ 1 ≤ schedule.month ∧ schedule.month ≤ 12
  dayOfWeek : schedule.dayOfWeek = -1 ∨ 0 ≤ schedule.dayOfWeek ∧ schedule.dayOfWeek ≤ 6

theorem parseMinuteField_range {field : Bytes} {minute step : Int}
    (h : parseMinuteField field = .ok (minute, step)) : minute = -1 ∨ 0 ≤ minute ∧ minute ≤ 59 := by
  unfold parseMinuteField at h
  split at h
  · obtain ⟨step', -, h⟩ := Res.bind_eq_ok.mp h
    cases h
    exact Or.inl rfl
  · obtain ⟨minute', hminute, h⟩ := Res.bind_eq_ok.mp h
    cases h
    exact parseField_range hminute

/-- A schedule that was accepted has fields in their ranges. -/
theorem parseLegacy_inRange {expression : Bytes} {schedule : CronSchedule}
    (h : parseLegacy expression = .ok schedule) : schedule.InRange := by
  unfold parseLegacy at h
  split at h
  · cases h
  split at h
  · obtain ⟨fields, hfields, h⟩ := Res.bind_eq_ok.mp h
    split at h
    · cases h
    cases h
    unfold parseFields at hfields
    obtain ⟨⟨minute, step⟩, hminute, hfields⟩ := Res.bind_eq_ok.mp hfields
    obtain ⟨hour, hhour, hfields⟩ := Res.bind_eq_ok.mp hfields
    obtain ⟨dayOfMonth, hdayOfMonth, hfields⟩ := Res.bind_eq_ok.mp hfields
    obtain ⟨month, hmonth, hfields⟩ := Res.bind_eq_ok.mp hfields
    obtain ⟨dayOfWeek, hdayOfWeek, hfields⟩ := Res.bind_eq_ok.mp hfields
    cases hfields
    exact ⟨parseMinuteField_range hminute, parseField_range hhour, parseField_range hdayOfMonth,
      parseField_range hmonth, parseField_range hdayOfWeek⟩
  · cases h

/-- The day of a schedule exists in its month, in a leap year at least. -/
def CronSchedule.DayExists (schedule : CronSchedule) : Prop :=
  schedule.dayOfMonth < 0 ∨ schedule.month < 0 ∨ schedule.dayOfMonth ≤ monthDays schedule.month

/-- A field matches: any value, or this one. -/
theorem fieldMatches_iff {expected actual : Int} :
    fieldMatches expected actual = true ↔ expected < 0 ∨ expected = actual := by
  rw [fieldMatches, Bool.or_eq_true, decide_eq_true_iff, beq_iff_eq]

/-- The day that is due on the date of one. -/
theorem dueIn_day {schedule : CronSchedule} {minute : Int} (h : schedule.dueIn minute = true) :
    fieldMatches schedule.dayOfMonth (civilDate (60 * minute / 86400)).2.2 = true ∧
      fieldMatches schedule.month (civilDate (60 * minute / 86400)).2.1 = true := by
  rw [CronSchedule.dueIn, CronSchedule.matchesTm] at h
  simp only [Bool.and_eq_true] at h
  obtain ⟨⟨⟨-, hday⟩, hmonth⟩, -⟩ := h
  refine ⟨hday, ?_⟩
  have hmon : (gmtime (60 * minute)).mon + 1 = (civilDate (60 * minute / 86400)).2.1 := by
    show (civilDate (60 * minute / 86400)).2.1 - 1 + 1 = _
    omega
  rwa [hmon] at hmonth

/-- A schedule whose day does not exist is never due. -/
theorem dueIn_impossible {schedule : CronSchedule} (h : ¬ schedule.DayExists) (minute : Int) :
    schedule.dueIn minute = false := by
  rw [← Bool.not_eq_true]
  intro hdue
  obtain ⟨hday, hmonth⟩ := dueIn_day hdue
  have hvalid := (civilDate_valid (60 * minute / 86400)).2.2
  rw [CronSchedule.DayExists, not_or, not_or] at h
  rcases fieldMatches_iff.mp hday with hany | hday
  · exact h.1 hany
  rcases fieldMatches_iff.mp hmonth with hany | hmonth
  · exact h.2.1 hany
  · rw [← hday, ← hmonth] at hvalid
    exact h.2.2 hvalid

/-- The value a field stands for, or one of its own choice. -/
def fieldValue (expected choice : Int) : Int := if expected < 0 then choice else expected

theorem fieldMatches_fieldValue (expected choice : Int) :
    fieldMatches expected (fieldValue expected choice) = true := by
  rw [fieldMatches_iff, fieldValue]
  split
  · next h => exact Or.inl h
  · exact Or.inr rfl

theorem fieldValue_range {expected choice low high : Int}
    (h : expected = -1 ∨ low ≤ expected ∧ expected ≤ high) (hchoice : low ≤ choice ∧ choice ≤ high) :
    low ≤ fieldValue expected choice ∧ fieldValue expected choice ≤ high := by
  rw [fieldValue]
  split
  · exact hchoice
  · omega

/-- The minute of the hour that matches, whatever the step. -/
theorem exists_minute {schedule : CronSchedule} (h : schedule.InRange) :
    ∃ minute, (0 ≤ minute ∧ minute ≤ 59) ∧ minuteMatches schedule minute = true := by
  by_cases hstep : 0 < schedule.minuteStep
  · refine ⟨0, by decide, ?_⟩
    rw [minuteMatches, if_pos hstep, Int.zero_tmod]
    rfl
  · refine ⟨fieldValue schedule.minute 0, fieldValue_range h.minute (by decide), ?_⟩
    rw [minuteMatches, if_neg hstep]
    exact fieldMatches_fieldValue _ _

/-- The date that matches, where the day exists. -/
theorem fieldValue_date {schedule : CronSchedule} (h : schedule.InRange) (hday : schedule.DayExists) :
    1 ≤ fieldValue schedule.dayOfMonth 1 ∧
      fieldValue schedule.dayOfMonth 1 ≤ monthDays (fieldValue schedule.month 1) := by
  have hfew : ∀ month, 1 ≤ monthDays month := by
    intro month
    unfold monthDays
    split
    · decide
    · split <;> decide
  by_cases hany : schedule.dayOfMonth < 0
  · rw [fieldValue, if_pos hany]
    exact ⟨Int.le_refl 1, hfew _⟩
  · have hrange := h.dayOfMonth
    rw [fieldValue, if_neg hany, fieldValue]
    refine ⟨by omega, ?_⟩
    split
    · show schedule.dayOfMonth ≤ 31
      omega
    · next hmonth => exact (hday.resolve_left hany).resolve_left hmonth

/-- **A schedule whose day exists is due again and again.** -/
theorem exists_due {schedule : CronSchedule} (h : schedule.InRange) (hday : schedule.DayExists)
    (bound : Int) : ∃ minute, bound ≤ minute ∧ schedule.dueIn minute = true := by
  obtain ⟨min, hmin, hminute⟩ := exists_minute h
  have hhour : 0 ≤ fieldValue schedule.hour 0 ∧ fieldValue schedule.hour 0 ≤ 23 :=
    fieldValue_range h.hour (by decide)
  have hmonth : 1 ≤ fieldValue schedule.month 1 ∧ fieldValue schedule.month 1 ≤ 12 :=
    fieldValue_range h.month (by decide)
  have hweekday : 0 ≤ fieldValue schedule.dayOfWeek 0 ∧ fieldValue schedule.dayOfWeek 0 ≤ 6 :=
    fieldValue_range h.dayOfWeek (by decide)
  obtain ⟨n, hn, hdate, hweek⟩ := exists_date hmonth (fieldValue_date h hday) hweekday bound.natAbs
  generalize hhourValue : fieldValue schedule.hour 0 = hour at hhour
  refine ⟨1440 * n + 60 * hour + min, by omega, ?_⟩
  have htm : gmtime (60 * (1440 * n + 60 * hour + min)) =
      { min := min, hour := hour, mday := fieldValue schedule.dayOfMonth 1,
        mon := fieldValue schedule.month 1 - 1, wday := fieldValue schedule.dayOfWeek 0 } := by
    rw [gmtime, show 60 * (1440 * n + 60 * hour + min) / 86400 = n by omega, hdate, hweek,
      show 60 * (1440 * n + 60 * hour + min) / 60 % 60 = min by omega,
      show 60 * (1440 * n + 60 * hour + min) / 3600 % 24 = hour by omega]
  rw [CronSchedule.dueIn, htm, CronSchedule.matchesTm]
  simp only [Int.sub_add_cancel, fieldMatches_fieldValue, hminute, ← hhourValue, Bool.and_true]

/-! ## The result -/

/-- The next minute is passed over: `after` lies inside a minute before 1970. -/
def PassesOver (after : Int) : Prop := after < 0 ∧ after % minuteNs ≠ 0

/-- The first minute the search asks. -/
theorem tdiv_minuteNs (after : Int) :
    (PassesOver after ∧ after.tdiv minuteNs = after / minuteNs + 1) ∨
      (¬ PassesOver after ∧ after.tdiv minuteNs = after / minuteNs) := by
  have hns : minuteNs = 60000000000 := rfl
  rw [Int.tdiv_eq_ediv]
  unfold PassesOver
  by_cases hexact : 0 ≤ after ∨ minuteNs ∣ after
  · rw [if_pos hexact]
    refine Or.inr ⟨?_, Int.add_zero _⟩
    rintro ⟨hneg, hrest⟩
    rcases hexact with hpos | hdvd
    · omega
    · exact hrest (Int.emod_eq_zero_of_dvd hdvd)
  · rw [if_neg hexact]
    rw [not_or] at hexact
    refine Or.inl ⟨⟨by omega, fun hrest => hexact.2 (Int.dvd_of_emod_eq_zero hrest)⟩, rfl⟩

/-- The whole minutes behind an instant. -/
theorem whole_minute_after (after : Int) {t : Int} (ht : t % minuteNs = 0) :
    t = t / minuteNs * minuteNs ∧ (after < t ↔ after / minuteNs + 1 ≤ t / minuteNs) := by
  rw [show minuteNs = 60000000000 from rfl] at *
  omega

/-- **When the next firing is the true one**: the minute that is passed over does not match, and where
    the day of the schedule exists, some minute of the window does. -/
theorem nextAfter_iff {expression : Bytes} {schedule : CronSchedule}
    (h : parseLegacy expression = .ok schedule) (after : Int) :
    IsNextFiring schedule after (nextAfter schedule after) ↔
      (PassesOver after → schedule.dueIn (after / minuteNs + 1) = false) ∧
      (schedule.DayExists → ∃ k : Nat, k ≤ 366 * 24 * 60 ∧
        schedule.dueIn (after.tdiv minuteNs + 1 + k) = true) := by
  have hlimit : (after.tdiv minuteNs + 1) * minuteNs + 366 * 24 * 60 * minuteNs =
      (after.tdiv minuteNs + 1 + ((366 * 24 * 60 : Nat) : Int)) * minuteNs := by
    rw [show minuteNs = 60000000000 from rfl]
    omega
  have hfiring : ∀ t, t % minuteNs = 0 →
      cronScheduleMatches .legacy schedule t = schedule.dueIn (t / minuteNs) := by
    intro t ht
    conv_lhs => rw [(whole_minute_after after ht).1]
    exact matches_minute schedule _
  rw [nextAfter, hlimit]
  rcases searchFrom_minutes schedule (366 * 24 * 60) (after.tdiv minuteNs + 1) with
    ⟨k, hk, hdue, hbefore, hsearch⟩ | ⟨hnone, hsearch⟩
  · rw [hsearch]
    show IsLeast {t | after < t ∧ t % minuteNs = 0 ∧ cronScheduleMatches .legacy schedule t = true}
      ((after.tdiv minuteNs + 1 + k) * minuteNs) ↔ _
    have hquot : ∀ minute : Int, minute * minuteNs / minuteNs = minute := fun minute =>
      Int.mul_ediv_cancel _ (by decide)
    have hwhole : ∀ minute : Int, minute * minuteNs % minuteNs = 0 := fun minute => Int.mul_emod_left _ _
    have hlater : ∀ minute : Int, after / minuteNs + 1 ≤ minute → after < minute * minuteNs := by
      intro minute hminute
      refine (whole_minute_after after (hwhole minute)).2.mpr ?_
      rwa [hquot]
    constructor
    · intro hleast
      refine ⟨fun hpasses => ?_, fun _ => ⟨k, hk, hdue⟩⟩
      -- the minute that is passed over would be an earlier firing
      rw [← Bool.not_eq_true]
      intro hfirst
      have hle : (after.tdiv minuteNs + 1 + k) * minuteNs ≤ (after / minuteNs + 1) * minuteNs :=
        hleast.2 ⟨hlater _ (Int.le_refl _), hwhole _, by rw [matches_minute]; exact hfirst⟩
      rcases tdiv_minuteNs after with ⟨-, hskip⟩ | ⟨hnot, -⟩
      · have hlt := Int.le_of_mul_le_mul_right hle (show 0 < minuteNs by decide)
        omega
      · exact hnot hpasses
    · rintro ⟨hpassed, -⟩
      have hstart := tdiv_minuteNs after
      refine ⟨⟨hlater _ (by omega), hwhole _, by rw [matches_minute]; exact hdue⟩, ?_⟩
      rintro t ⟨ht, htwhole, hmatches⟩
      obtain ⟨hminute, hafter⟩ := whole_minute_after after htwhole
      rw [hfiring t htwhole] at hmatches
      have hfirst := hafter.mp ht
      have hle : after.tdiv minuteNs + 1 + k ≤ t / minuteNs := by
        by_contra hlt
        by_cases hin : after.tdiv minuteNs + 1 ≤ t / minuteNs
        · -- in the window, and in front of the first hit
          obtain ⟨j, hj⟩ := Int.eq_ofNat_of_zero_le
            (show 0 ≤ t / minuteNs - (after.tdiv minuteNs + 1) by omega)
          have hmiss := hbefore j (by omega)
          rw [show after.tdiv minuteNs + 1 + (j : Int) = t / minuteNs by omega, hmatches] at hmiss
          cases hmiss
        · rcases hstart with ⟨hpasses, hskip⟩ | ⟨-, hsame⟩
          · have hmiss := hpassed hpasses
            rw [show after / minuteNs + 1 = t / minuteNs by omega, hmatches] at hmiss
            cases hmiss
          · omega
      rw [hminute]
      exact Int.mul_le_mul_of_nonneg_right hle (by decide)
  · rw [hsearch]
    show (∀ t, after < t → t % minuteNs = 0 → cronScheduleMatches .legacy schedule t = false) ↔ _
    constructor
    · intro hnever
      have hminute : ∀ minute, after / minuteNs + 1 ≤ minute → schedule.dueIn minute = false := by
        intro minute hminute
        have hwhole : minute * minuteNs % minuteNs = 0 := Int.mul_emod_left _ _
        have hquot : minute * minuteNs / minuteNs = minute := Int.mul_ediv_cancel _ (by decide)
        have hafter := (whole_minute_after after hwhole).2
        rw [hquot] at hafter
        rw [← hnever _ (hafter.mpr hminute) hwhole, hfiring _ hwhole, hquot]
      refine ⟨fun _ => hminute _ (Int.le_refl _), fun hday => ?_⟩
      obtain ⟨minute, hbound, hdue⟩ := exists_due (parseLegacy_inRange h) hday (after / minuteNs + 1)
      rw [hminute minute hbound] at hdue
      cases hdue
    · rintro ⟨-, hwindow⟩ t ht hwhole
      rw [hfiring t hwhole]
      refine dueIn_impossible (fun hday => ?_) _
      obtain ⟨k, hk, hdue⟩ := hwindow hday
      rw [hnone k hk] at hdue
      cases hdue

/-- Midnight of every 29th of February. -/
def leapDay : CronSchedule :=
  { minute := 0, hour := 0, dayOfMonth := 29, month := 2, nanocronExpression := str "0 0 29 2 *" }

theorem parseLegacy_leapDay : parseLegacy (str "0 0 29 2 *") = .ok leapDay := by decide

/-- On 2024-02-28 the next day is found. -/
theorem nextAfter_leapDay :
    IsNextFiring leapDay (19781 * 1440 * minuteNs) (nextAfter leapDay (19781 * 1440 * minuteNs)) := by
  refine (nextAfter_iff parseLegacy_leapDay _).mpr ⟨fun h => absurd h.1 (by decide), fun _ => ?_⟩
  exact ⟨1439, by decide, by decide⟩

/-- No minute of the window behind 2021-03-01 is one of a 29th of February. -/
theorem leapDay_2021 {k : Nat} (hk : k ≤ 366 * 24 * 60) : ¬ leapDay.dueIn (18687 * 1440 + 1 + k) = true := by
  intro hdue
  obtain ⟨hday, hmonth⟩ := dueIn_day hdue
  have hwindow : 18687 ≤ 60 * (18687 * 1440 + 1 + (k : Int)) / 86400 ∧
      60 * (18687 * 1440 + 1 + (k : Int)) / 86400 ≤ 19053 := by omega
  generalize 60 * (18687 * 1440 + 1 + (k : Int)) / 86400 = day at hday hmonth hwindow
  have hdate : (civilDate day).2.1 = 2 ∧ (civilDate day).2.2 = 29 := by
    refine ⟨?_, ?_⟩
    · exact ((fieldMatches_iff.mp hmonth).resolve_left (by decide)).symm
    · exact ((fieldMatches_iff.mp hday).resolve_left (by decide)).symm
  -- such a date would have the number of the first day of March
  have hnumber := dayNumber_civilDate day
  have hfirst : day = 18687 ∨ day = 19052 := by
    revert hdate hnumber
    rcases civilDate day with ⟨year, month, date⟩
    rintro ⟨rfl, rfl⟩ hnumber
    unfold dayNumber at hnumber
    simp only [if_pos (Int.le_refl 2)] at hnumber
    have hyear : year = 2020 ∨ year = 2021 ∨ year = 2022 ∨ year = 2023 := by omega
    rcases hyear with rfl | rfl | rfl | rfl <;> omega
  rcases hfirst with rfl | rfl <;> revert hdate <;> decide

/-- **On 2021-03-01 the 29th of February is three years away**, and the call says that there is none. -/
theorem nextAfter_misses :
    ¬ ∀ expression schedule, parseLegacy expression = .ok schedule → ∀ after,
      IsNextFiring schedule after (nextAfter schedule after) := by
  intro h
  have hfiring := h _ _ parseLegacy_leapDay (18687 * 1440 * minuteNs)
  rw [nextAfter, show (18687 * 1440 * minuteNs).tdiv minuteNs = 18687 * 1440 by decide,
    show ((18687 * 1440 + 1) * minuteNs + 366 * 24 * 60 * minuteNs : Int) =
      (18687 * 1440 + 1 + ((366 * 24 * 60 : Nat) : Int)) * minuteNs by decide] at hfiring
  rcases searchFrom_minutes leapDay (366 * 24 * 60) (18687 * 1440 + 1) with ⟨k, hk, hdue, -⟩ | ⟨-, hsearch⟩
  · exact leapDay_2021 hk hdue
  · rw [hsearch] at hfiring
    have hmiss := hfiring (19782 * 1440 * minuteNs) (by decide) (by decide)
    rw [matches_minute, show leapDay.dueIn (19782 * 1440) = true by decide] at hmiss
    cases hmiss

end SmolClaw.Cron
