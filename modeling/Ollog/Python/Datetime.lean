import Ollog.Python.Text

/-!
# `datetime`

A `datetime` is what its clock shows, in microseconds since the beginning of the year 1, together
with the offset of that clock from UTC when it has one.  Days are counted the way CPython counts
them (`_ymd2ord`, `_ord2ymd`), so comparisons and differences are comparisons and differences of
integers.
-/

set_option autoImplicit false

namespace Ollog

/-! ## Days -/

/-- `calendar.isleap`. -/
def isLeap (y : Nat) : Bool := y % 4 == 0 && (y % 100 != 0 || y % 400 == 0)

/-- The days before January 1 of a year. -/
def daysBeforeYear (y : Nat) : Nat :=
  let y := y - 1
  y * 365 + y / 4 - y / 100 + y / 400

/-- The number of days in a month. -/
def daysInMonth (y m : Nat) : Nat :=
  match m with
  | 2 => if isLeap y then 29 else 28
  | 4 | 6 | 9 | 11 => 30
  | _ => 31

/-- The days of a year before the first day of a month. -/
def daysBeforeMonth (y : Nat) : Nat → Nat
  | 0 | 1 => 0
  | m + 1 => daysBeforeMonth y m + daysInMonth y m

/-- The days from January 1 of the year 1 to a date. -/
def dayNumber (y m d : Nat) : Nat := daysBeforeYear y + daysBeforeMonth y m + (d - 1)

/-- Cut the months off a day of a year, given as a number of days since January 1. -/
def monthOfDay (y : Nat) : Nat → Nat → Nat → Nat × Nat
  | 0, m, n => (m, n + 1)
  | fuel + 1, m, n =>
    if n < daysInMonth y m then (m, n + 1) else monthOfDay y fuel (m + 1) (n - daysInMonth y m)

/-- The year, month and day of a day number: `_ord2ymd`. -/
def dateOfDay (n : Nat) : Nat × Nat × Nat :=
  let n400 := n / 146097
  let n := n % 146097
  let n100 := n / 36524
  let r100 := n % 36524
  let n4 := r100 / 1461
  let r4 := r100 % 1461
  let n1 := r4 / 365
  let r1 := r4 % 365
  let y := n400 * 400 + 1 + n100 * 100 + n4 * 4 + n1
  if n1 = 4 ∨ n100 = 4 then (y - 1, 12, 31) else (y, monthOfDay y 11 1 r1)

/-! ## Instants -/

/-- The microseconds of a day. -/
def dayMicros : Int := 86400000000

/-- One past the last microsecond of the year 9999. -/
def maxWall : Int := 3652059 * dayMicros

/-- Python's `datetime`. -/
structure DateTime where
  /-- What the clock shows, in microseconds since 0001-01-01T00:00:00. -/
  wall : Int
  /-- `utcoffset()` in microseconds; `none` for a naive value. -/
  offset : Option Int
  deriving DecidableEq, Repr

namespace DateTime

/-- The instant a datetime denotes, a naive one read as UTC. -/
def utc (dt : DateTime) : Int := dt.wall - dt.offset.getD 0

/-- The text of an offset in `isoformat()`, with its sign. -/
def offsetText (o : Int) : String :=
  let n := o.natAbs
  let (h, m, s, us) := (n / 3600000000, n / 60000000 % 60, n / 1000000 % 60, n % 1000000)
  (if o < 0 then "-" else "+") ++ pad2 h ++ ":" ++ pad2 m ++
    (if s = 0 ∧ us = 0 then "" else ":" ++ pad2 s ++ if us = 0 then "" else "." ++ pad6 us)

/-- `dt.isoformat(sep)`. -/
def isoformat (dt : DateTime) (sep : String) : String :=
  let (y, m, d) := dateOfDay (dt.wall / dayMicros).toNat
  let n := (dt.wall % dayMicros).toNat
  let us := n % 1000000
  pad4 y ++ "-" ++ pad2 m ++ "-" ++ pad2 d ++ sep ++ pad2 (n / 3600000000) ++ ":" ++
    pad2 (n / 60000000 % 60) ++ ":" ++ pad2 (n / 1000000 % 60) ++
    (if us = 0 then "" else "." ++ pad6 us) ++
    match dt.offset with
    | none => ""
    | some o => offsetText o

/-- What comes back from the database for a stored datetime: the instant in UTC, cut to whole
milliseconds, without a time zone. -/
def toStored (dt : DateTime) : DateTime := ⟨dt.utc - dt.utc % 1000, none⟩

@[simp] theorem toStored_offset (dt : DateTime) : dt.toStored.offset = none := rfl

@[simp] theorem toStored_toStored (dt : DateTime) : dt.toStored.toStored = dt.toStored := by
  simp only [toStored, utc, Option.getD_none, mk.injEq, and_true]
  omega

theorem utc_toStored {dt : DateTime} (h : dt.utc % 1000 = 0) : dt.toStored.utc = dt.utc := by
  simp only [toStored, utc, Option.getD_none] at *
  omega

end DateTime

/-- `datetime.combine(date, time, tzinfo=timezone.utc)`. -/
def combineUtc (day seconds : Nat) : DateTime :=
  ⟨(day * 86400 + seconds : Nat) * 1000000, some 0⟩

@[simp] theorem combineUtc_offset (day seconds : Nat) :
    (combineUtc day seconds).offset = some 0 := rfl

theorem combineUtc_utc_mod (day seconds : Nat) : (combineUtc day seconds).utc % 1000 = 0 := by
  simp only [combineUtc, DateTime.utc, Option.getD_some]
  omega

end Ollog
