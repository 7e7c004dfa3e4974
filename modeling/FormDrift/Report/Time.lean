/-
  The time of a report — a moment as a date and a time of day.

  A moment is a number of seconds since the start of 1970 in universal time. Years are
  counted from March, so that the day that some years have is at their end: four centuries
  have 146097 days, and the months from March have 153 days in each five.
-/

namespace FormDrift.Report

/-- A date. -/
structure Date where
  year : Nat
  month : Nat
  day : Nat
deriving DecidableEq, Repr, Inhabited

/-- The date so many days after the start of 1970. -/
def Date.ofDays (days : Nat) : Date :=
  let shifted := days + 719468
  let era := shifted / 146097
  let dayOfEra := shifted % 146097
  let yearOfEra := (dayOfEra - dayOfEra / 1460 + dayOfEra / 36524 - dayOfEra / 146096) / 365
  let dayOfYear := dayOfEra - (365 * yearOfEra + yearOfEra / 4 - yearOfEra / 100)
  let march := (5 * dayOfYear + 2) / 153
  let month := if march < 10 then march + 3 else march - 9
  { year := yearOfEra + era * 400 + if month ≤ 2 then 1 else 0
    month
    day := dayOfYear - (153 * march + 2) / 5 + 1 }

example : Date.ofDays 0 = ⟨1970, 1, 1⟩ := rfl
example : Date.ofDays 11016 = ⟨2000, 2, 29⟩ := rfl
example : Date.ofDays 20454 = ⟨2026, 1, 1⟩ := rfl

/-- A number in at least so many digits. -/
def padded (digits n : Nat) : String :=
  let text := toString n
  String.ofList (List.replicate (digits - text.length) '0') ++ text

/-- The moment so many seconds after the start of 1970, as reports write it. -/
def timeText (seconds : Nat) : String :=
  let date := Date.ofDays (seconds / 86400)
  let rest := seconds % 86400
  padded 4 date.year ++ "-" ++ padded 2 date.month ++ "-" ++ padded 2 date.day ++ "T"
    ++ padded 2 (rest / 3600) ++ ":" ++ padded 2 (rest / 60 % 60) ++ ":"
    ++ padded 2 (rest % 60) ++ "Z"

end FormDrift.Report
