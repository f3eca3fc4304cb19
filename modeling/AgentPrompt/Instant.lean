import AgentPrompt.Json.Printer

/-! Moments in time and their text in UTC, after the Gregorian calendar without a beginning. -/
namespace AgentPrompt

/-- Seconds since the start of 1970 and nanoseconds after them. A second's worth of nanoseconds or
more stands for a moment within a leap second that follows the given second. -/
structure Instant where
  seconds : Int
  nanoseconds : Nat := 0
  deriving DecidableEq, Repr

namespace Instant

/-- A day of the calendar. -/
structure Date where
  year : Int
  month : Nat
  day : Nat
  deriving DecidableEq, Repr

def secondsPerDay : Int := 86400

/-- The days since the start of 1970. -/
def days (t : Instant) : Int :=
  t.seconds / secondsPerDay

def secondOfDay (t : Instant) : Nat :=
  (t.seconds % secondsPerDay).toNat

/-- The date that lies a number of days after the start of 1970. Years are counted from March, so
that a leap day ends its year, and in eras of 400 years, which all have the same days. -/
def Date.ofDays (days : Int) : Date :=
  let shifted := days + 719468
  let era := shifted / 146097
  let dayOfEra := (shifted % 146097).toNat
  let yearOfEra := (dayOfEra - dayOfEra / 1460 + dayOfEra / 36524 - dayOfEra / 146096) / 365
  let dayOfYear := dayOfEra - (365 * yearOfEra + yearOfEra / 4 - yearOfEra / 100)
  let marchMonth := (5 * dayOfYear + 2) / 153
  let day := dayOfYear - (153 * marchMonth + 2) / 5 + 1
  let month := if marchMonth < 10 then marchMonth + 3 else marchMonth - 9
  { year := era * 400 + yearOfEra + if month ≤ 2 then 1 else 0
    month, day }

def date (t : Instant) : Date :=
  Date.ofDays t.days

/-- At least `width` digits. -/
def padded (width n : Nat) : List Char :=
  let ds := Decimal.digitText n
  List.replicate (width - ds.length) '0' ++ ds

/-- Years beyond four digits carry a sign. -/
def yearText (year : Int) : List Char :=
  if 0 ≤ year ∧ year ≤ 9999 then padded 4 year.toNat
  else (if year < 0 then '-' else '+') :: padded 4 year.natAbs

/-- The format of the text. -/
def format : String := "%Y-%m-%dT%H:%M:%SZ"

/-- The second of the minute; it is 60 in a leap second. -/
def second (t : Instant) : Nat :=
  t.secondOfDay % 60 + t.nanoseconds / 1000000000

def chars (t : Instant) : List Char :=
  let d := t.date
  let s := t.secondOfDay
  yearText d.year ++ '-' :: padded 2 d.month ++ '-' :: padded 2 d.day ++ 'T' ::
    padded 2 (s / 3600) ++ ':' :: padded 2 (s / 60 % 60) ++ ':' :: padded 2 t.second ++ ['Z']

def text (t : Instant) : String :=
  String.ofList t.chars

end Instant
end AgentPrompt
