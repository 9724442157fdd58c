/-
Moments and days.

A moment is in universal time, and its stamp is the ISO text. In a stamp the year has four digits, in the name of a day
it has no zeros before it.
-/

namespace TapeMachine

/-- a moment -/
structure Clock where
  year : Nat
  month : Nat
  day : Nat
  hour : Nat
  minute : Nat
  second : Nat
  micro : Nat
deriving DecidableEq, Repr

namespace Clock

/-- the moment a number of seconds and microseconds after the start of 1970; years are counted from March, in cycles
of 400 years, so that the leap day comes last in its year -/
def ofEpoch (seconds micro : Nat) : Clock :=
  let days := seconds / 86400 + 719468
  let ofCycle := days % 146097
  let year := (ofCycle - ofCycle / 1460 + ofCycle / 36524 - ofCycle / 146096) / 365
  let ofYear := ofCycle - (365 * year + year / 4 - year / 100)
  let month := (5 * ofYear + 2) / 153
  { year := year + days / 146097 * 400 + if month < 10 then 0 else 1
    month := if month < 10 then month + 3 else month - 9
    day := ofYear - (153 * month + 2) / 5 + 1
    hour := seconds % 86400 / 3600
    minute := seconds % 3600 / 60
    second := seconds % 60
    micro }

example : ofEpoch 1704164645 0 = ⟨2024, 1, 2, 3, 4, 5, 0⟩ ∧ ofEpoch 951782400 7 = ⟨2000, 2, 29, 0, 0, 0, 7⟩ := by decide

/-- a number with zeros before it, to at least the given width -/
def padded (width n : Nat) : String :=
  let ds := Nat.toDigits 10 n
  String.ofList (List.replicate (width - ds.length) '0' ++ ds)

/-- the month and the day of a moment -/
def monthAndDay (c : Clock) : String := padded 2 c.month ++ "-" ++ padded 2 c.day

/-- the date of a moment, with four digits for the year -/
def date (c : Clock) : String := padded 4 c.year ++ "-" ++ c.monthAndDay

/-- the name of a moment's day, with no more digits for the year than it needs -/
def dayName (c : Clock) : String := toString c.year ++ "-" ++ c.monthAndDay

def time (c : Clock) : String :=
  padded 2 c.hour ++ ":" ++ padded 2 c.minute ++ ":" ++ padded 2 c.second ++
    if c.micro = 0 then "" else "." ++ padded 6 c.micro

/-- the text that a log line carries -/
def stamp (c : Clock) : String := c.date ++ "T" ++ c.time ++ "+00:00"

/-- the text that a notice to the user carries -/
def notice (c : Clock) : String := c.date ++ " " ++ c.time

end Clock
end TapeMachine
