/-!
# Calendar

Dates of the Gregorian calendar, extended to all years before it began, with
a year zero. Days are numbered from the first of January of year one, which
is a Monday and has number one; a weekday is that number modulo seven.
-/

set_option autoImplicit false

namespace HeaterLink

structure Date where
  year : Int
  month : Nat
  day : Nat
  deriving DecidableEq, Repr

structure TimeOfDay where
  hour : Nat
  minute : Nat
  second : Nat
  deriving DecidableEq, Repr

structure Clock where
  date : Date
  time : TimeOfDay
  deriving DecidableEq, Repr

def isLeapYear (y : Int) : Bool := (y % 4 == 0 && y % 100 != 0) || y % 400 == 0

def daysInMonth (y : Int) : Nat → Nat
  | 2 => if isLeapYear y then 29 else 28
  | 4 => 30
  | 6 => 30
  | 9 => 30
  | 11 => 30
  | _ => 31

namespace Date

def firstYear : Int := -262143
def lastYear : Int := 262142

def valid (d : Date) : Bool :=
  firstYear ≤ d.year && d.year ≤ lastYear &&
    1 ≤ d.month && d.month ≤ 12 && 1 ≤ d.day && d.day ≤ daysInMonth d.year d.month

def daysBefore (y : Int) (month : Nat) : Nat :=
  (List.range (month - 1)).foldl (fun days i => days + daysInMonth y (i + 1)) 0

/-- Days before the first of January of a year; Euclidean quotients count the
leap years also before year one. -/
def daysBeforeYear (y : Int) : Int :=
  365 * (y - 1) + (y - 1) / 4 - (y - 1) / 100 + (y - 1) / 400

def number (d : Date) : Int := daysBeforeYear d.year + daysBefore d.year d.month + d.day

/-- Monday is 1 and Sunday is 7. -/
def weekday (d : Date) : Nat := ((d.number - 1) % 7).toNat + 1

end Date

def TimeOfDay.valid (t : TimeOfDay) : Bool := t.hour ≤ 23 && t.minute ≤ 59 && t.second ≤ 59

def Clock.valid (c : Clock) : Bool := c.date.valid && c.time.valid

end HeaterLink
