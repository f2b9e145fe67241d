/-!
# Instants

A point in time by the calendar and the clock of UTC, to the nanosecond.  A leap second is
the sixtieth second of a minute and is kept as a fraction of more than one second behind
the fifty-ninth.
-/

namespace PieceKeeper

/-- Whether February has twenty-nine days. -/
def isLeapYear (year : Int) : Bool := year % 4 == 0 && (year % 100 != 0 || year % 400 == 0)

/-- The number of days in a month, counted from one. -/
def daysIn (year : Int) (month : Nat) : Nat :=
  if month = 2 then (if isLeapYear year then 29 else 28)
  else if month = 4 ∨ month = 6 ∨ month = 9 ∨ month = 11 then 30
  else 31

/-- A day of the Gregorian calendar, in the years that have a number. -/
structure Date where
  year : Int
  month : Nat
  day : Nat
  valid : -262143 ≤ year ∧ year ≤ 262142 ∧ 1 ≤ month ∧ month ≤ 12 ∧ 1 ≤ day ∧ day ≤ daysIn year month
  deriving DecidableEq, Repr

namespace Date

/-- The day with the given numbers, if there is one. -/
def of? (year : Int) (month day : Nat) : Option Date :=
  if h : -262143 ≤ year ∧ year ≤ 262142 ∧ 1 ≤ month ∧ month ≤ 12 ∧ 1 ≤ day
      ∧ day ≤ daysIn year month then
    some ⟨year, month, day, h⟩
  else none

/-- The day after. -/
def next? (date : Date) : Option Date :=
  (of? date.year date.month (date.day + 1)).or <|
    (of? date.year (date.month + 1) 1).or (of? (date.year + 1) 1 1)

/-- The day before. -/
def previous? (date : Date) : Option Date :=
  if date.day > 1 then of? date.year date.month (date.day - 1)
  else if date.month > 1 then of? date.year (date.month - 1) (daysIn date.year (date.month - 1))
  else of? (date.year - 1) 12 31

end Date

/-- A point in time. -/
structure Instant where
  date : Date
  /-- The second of the day. -/
  second : Nat
  nano : Nat
  valid : second < 86400 ∧ nano < 2000000000 ∧ (1000000000 ≤ nano → second % 60 = 59)
  deriving DecidableEq, Repr

namespace Instant

/-- The instant with the given numbers of a clock in UTC; second sixty is a leap second. -/
def of? (date : Date) (hour minute second nano : Nat) : Option Instant :=
  let leap := if second = 60 then 1 else 0
  let second := 3600 * hour + 60 * minute + (second - leap)
  let nano := 1000000000 * leap + nano
  if h : second < 86400 ∧ nano < 2000000000 ∧ (1000000000 ≤ nano → second % 60 = 59) then
    some ⟨date, second, nano, h⟩
  else none

/-- The instant at which clocks `offset` minutes ahead of UTC show what clocks in UTC show
at the given one.  The offset is less than a day. -/
def behind? (instant : Instant) (offset : Int) : Option Instant := do
  let total := (instant.second : Int) - 60 * offset
  let date ←
    if total < 0 then instant.date.previous?
    else if total < 86400 then some instant.date
    else instant.date.next?
  return ⟨date, (total % 86400).toNat, instant.nano, by have := instant.valid; omega⟩

/-! ## Text -/

/-- A number with zeros in front, up to a width. -/
def padded (width n : Nat) : String :=
  let digits := toString n
  String.ofList (List.replicate (width - digits.length) '0') ++ digits

/-- A year: four digits, or a sign and at least four. -/
def yearText (year : Int) : String :=
  if 0 ≤ year ∧ year ≤ 9999 then padded 4 year.toNat
  else (if year < 0 then "-" else "+") ++ padded 4 year.natAbs

/-- A fraction of a second in nanoseconds: three, six or nine digits, or nothing. -/
def fractionText (nano : Nat) : String :=
  if nano = 0 then ""
  else if nano % 1000000 = 0 then "." ++ padded 3 (nano / 1000000)
  else if nano % 1000 = 0 then "." ++ padded 6 (nano / 1000)
  else "." ++ padded 9 nano

/-- The text of an instant in UTC, which ends with the given name of the zone. -/
def text (instant : Instant) (zone : String) : String :=
  let { date, second, nano, .. } := instant
  yearText date.year ++ "-" ++ padded 2 date.month ++ "-" ++ padded 2 date.day ++ "T"
    ++ padded 2 (second / 3600) ++ ":" ++ padded 2 (second / 60 % 60) ++ ":"
    ++ padded 2 (second % 60 + nano / 1000000000) ++ fractionText (nano % 1000000000) ++ zone

end Instant

end PieceKeeper
