/-!
Points in time, in universal time, to the nanosecond. An instant is its calendar fields; a leap second is
second sixty of its minute. Instants are ordered field by field. A clock counts them in seconds since the
start of 1970.
-/

namespace Blocklist

/-- Holds of the leap years of the proleptic Gregorian calendar. -/
def isLeapYear (year : Int) : Bool := year % 4 == 0 && (year % 100 != 0 || year % 400 == 0)

def daysInMonth (year : Int) (month : Nat) : Nat :=
  if month = 2 then if isLeapYear year then 29 else 28
  else if month = 4 || month = 6 || month = 9 || month = 11 then 30
  else 31

def firstYear : Int := -262143

def lastYear : Int := 262142

structure Date where
  year : Int
  month : Nat
  day : Nat
  year_range : firstYear ≤ year ∧ year ≤ lastYear
  month_range : 1 ≤ month ∧ month ≤ 12
  day_range : 1 ≤ day ∧ day ≤ daysInMonth year month
  deriving DecidableEq, Repr

namespace Date

def ofFields? (year : Int) (month day : Nat) : Option Date :=
  if h : (firstYear ≤ year ∧ year ≤ lastYear) ∧ (1 ≤ month ∧ month ≤ 12) ∧
      1 ≤ day ∧ day ≤ daysInMonth year month then
    some ⟨year, month, day, h.1, h.2.1, h.2.2⟩
  else none

/-- The day after, if it lies in the range of years. -/
def next? (d : Date) : Option Date :=
  if d.day < daysInMonth d.year d.month then ofFields? d.year d.month (d.day + 1)
  else if d.month < 12 then ofFields? d.year (d.month + 1) 1
  else ofFields? (d.year + 1) 1 1

/-- The day before, if it lies in the range of years. -/
def previous? (d : Date) : Option Date :=
  if 1 < d.day then ofFields? d.year d.month (d.day - 1)
  else if 1 < d.month then ofFields? d.year (d.month - 1) (daysInMonth d.year (d.month - 1))
  else ofFields? (d.year - 1) 12 31

end Date

structure Instant where
  date : Date
  hour : Nat
  minute : Nat
  /-- Sixty in a leap second. -/
  second : Nat
  nano : Nat
  hour_range : hour < 24
  minute_range : minute < 60
  second_range : second ≤ 60
  nano_range : nano ≤ 999999999
  deriving DecidableEq, Repr

namespace Instant

def ofFields? (date : Date) (hour minute second nano : Nat) : Option Instant :=
  if h : hour < 24 ∧ minute < 60 ∧ second ≤ 60 ∧ nano ≤ 999999999 then
    some ⟨date, hour, minute, second, nano, h.1, h.2.1, h.2.2.1, h.2.2.2⟩
  else none

def key (t : Instant) : List Int :=
  [t.date.year, t.date.month, t.date.day, t.hour, t.minute, t.second, t.nano]

def before (s t : Instant) : Bool := s.key < t.key

/-- The instant as many minutes earlier; fewer than a day's worth in either direction. -/
def minusMinutes? (t : Instant) (minutes : Int) : Option Instant :=
  let total : Int := t.hour * 60 + t.minute - minutes
  let place (date : Option Date) (m : Int) : Option Instant :=
    date.bind fun d => ofFields? d (m.toNat / 60) (m.toNat % 60) t.second t.nano
  if total < 0 then place t.date.previous? (total + 1440)
  else if 1440 ≤ total then place t.date.next? (total - 1440)
  else place (some t.date) total

end Instant

/-- The day that comes `days` days after the first of January 1970, if it lies in the range of years. -/
def Date.ofDayNumber? (days : Int) : Option Date :=
  let fromMarch := days + 719468
  let cycle := fromMarch / 146097
  let day := (fromMarch % 146097).toNat
  let year := (day - day / 1460 + day / 36524 - day / 146096) / 365
  let dayOfYear := day - (365 * year + year / 4 - year / 100)
  let month := (5 * dayOfYear + 2) / 153
  let dayOfMonth := dayOfYear - (153 * month + 2) / 5 + 1
  let late := 10 ≤ month
  Date.ofFields? (cycle * 400 + year + (if late then 1 else 0))
    (if late then month - 9 else month + 3) dayOfMonth

def Instant.ofUnixSeconds? (seconds : Int) : Option Instant := do
  let ofDay := (seconds % 86400).toNat
  let date ← Date.ofDayNumber? (seconds / 86400)
  Instant.ofFields? date (ofDay / 3600) (ofDay / 60 % 60) (ofDay % 60) 0

end Blocklist
