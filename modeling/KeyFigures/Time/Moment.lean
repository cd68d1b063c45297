/-
  KeyFigures/Time/Moment.lean
  ===========================
  **Points in time on the civil calendar.**

  A moment is a number of microseconds on a clock face, counted from the start
  of the year 1, together with the distance of that clock from universal time
  if it is known.  The calendar is the Gregorian one, extended backwards.
-/
import KeyFigures.Binary.Basic
import KeyFigures.Text.Digit

namespace KeyFigures

open KeyFigures.Text

/-- Days since the first day of the year 1. -/
structure Day where
  number : Int
deriving DecidableEq, Repr, Inhabited

/-- A reading of a clock whose distance from universal time is `offset`
    microseconds, if known. -/
structure Moment where
  micros : Int
  offset : Option Int
deriving DecidableEq, Repr, Inhabited

/-- Why a point in time cannot be had. -/
inductive TimeFault where
  /-- The text is no standard text of a date or a moment. -/
  | unreadable (text : String)
  | year (number : Int)
  | month
  | day
  | hour
  | minute
  | second
  /-- The distance from universal time, in microseconds, is a day or more. -/
  | offset (micros : Int)
  /-- The calendar ends with the year 9999 and begins with the year 1. -/
  | beyondCalendar
  | spanDays (days : Int)
  /-- A span of so many days that they are not even counted. -/
  | hugeSpan
  | infiniteSpan
  | undefinedSpan
deriving DecidableEq, Repr

namespace Day

def ofCivil (year month day : Int) : Day :=
  let y := if month ≤ 2 then year - 1 else year
  let era := Int.fdiv y 400
  let yearOfEra := y - era * 400
  let shifted := if 2 < month then month - 3 else month + 9
  let dayOfYear := Int.fdiv (153 * shifted + 2) 5 + day - 1
  let dayOfEra := yearOfEra * 365 + Int.fdiv yearOfEra 4 - Int.fdiv yearOfEra 100 + dayOfYear
  ⟨era * 146097 + dayOfEra - 306⟩

/-- Year, month and day of the month. -/
def civil (d : Day) : Int × Int × Int :=
  let z := d.number + 306
  let era := Int.fdiv z 146097
  let dayOfEra := z - era * 146097
  let yearOfEra := Int.fdiv (dayOfEra - Int.fdiv dayOfEra 1460 + Int.fdiv dayOfEra 36524
    - Int.fdiv dayOfEra 146096) 365
  let dayOfYear := dayOfEra - (365 * yearOfEra + Int.fdiv yearOfEra 4 - Int.fdiv yearOfEra 100)
  let shifted := Int.fdiv (5 * dayOfYear + 2) 153
  let day := dayOfYear - Int.fdiv (153 * shifted + 2) 5 + 1
  let month := if shifted < 10 then shifted + 3 else shifted - 9
  let year := yearOfEra + era * 400 + (if month ≤ 2 then 1 else 0)
  (year, month, day)

end Day

/-! ### Writing -/

/-- A number padded with zeros to `width` digits. -/
def paddedDigits (width : Nat) (n : Int) : List Char :=
  let ds := digits n.natAbs
  List.replicate (width - ds.length) '0' ++ ds

/-- The date as `2024-01-31`. -/
def Day.chars (d : Day) : List Char :=
  let (year, month, day) := d.civil
  paddedDigits 4 year ++ '-' :: paddedDigits 2 month ++ '-' :: paddedDigits 2 day

/-- The date as `2024-01-31`. -/
def Day.toText (d : Day) : String := String.ofList d.chars

namespace Moment

def microsPerDay : Int := 86400000000

def day (m : Moment) : Day := ⟨Int.fdiv m.micros microsPerDay⟩

def microsOfDay (m : Moment) : Int := Int.fmod m.micros microsPerDay

/-- A fraction of a second in six digits, nothing if it is zero. -/
def fractionChars (micros : Int) : List Char :=
  if micros = 0 then [] else '.' :: paddedDigits 6 micros

/-- A distance from universal time as `+01:00`; seconds and their fraction are
    left out when they and all that follows are zero. -/
def offsetChars (micros : Int) : List Char :=
  let t := (micros.natAbs : Int)
  let s := t / 1000000
  (if micros < 0 then '-' else '+') :: paddedDigits 2 (s / 3600) ++ ':' ::
    paddedDigits 2 (s / 60 % 60) ++
      (if t % 60000000 = 0 then [] else ':' :: paddedDigits 2 (s % 60) ++ fractionChars (t % 1000000))

/-- Date and time with `separator` between them; a fraction of a second has
    six digits and is left out when it is zero. -/
def chars (separator : Char) (m : Moment) : List Char :=
  let t := m.microsOfDay
  let s := t / 1000000
  m.day.chars ++ separator :: paddedDigits 2 (s / 3600) ++ ':' :: paddedDigits 2 (s / 60 % 60)
    ++ ':' :: paddedDigits 2 (s % 60)
    ++ fractionChars (t % 1000000)
    ++ (m.offset.map offsetChars).getD []

/-- The standard text of a moment, such as `2024-01-01T12:00:00+00:00`. -/
def toText (m : Moment) : String := String.ofList (m.chars 'T')

/-- The microseconds that a number of seconds stands for, a half going to the
    even neighbour. -/
def microsOfSeconds (seconds : Float) : Int :=
  let whole := if seconds < 0 then seconds.ceil else seconds.floor
  let nearestWhole (x : Float) : Int :=
    match Binary.parts x with
    | .finite negative m q =>
      let (n, d) := Binary.ratio m q
      let k : Int := Decimal.roundQuotient .toEven n d
      if negative then -k else k
    | _ => 0
  nearestWhole whole * 1000000 + nearestWhole ((seconds - whole) * 1000000.0)

/-- The most days that a span of time may have. -/
def maxSpanDays : Int := 999999999

/-- The span of time of a number of seconds, in microseconds. -/
def span (seconds : Float) : Except TimeFault Int :=
  match Binary.parts seconds with
  | .nan => .error .undefinedSpan
  | .infinite _ => .error .infiniteSpan
  | .finite .. =>
    let micros := microsOfSeconds seconds
    let days := Int.fdiv micros microsPerDay
    if days < -2147483648 ∨ 2147483647 < days then .error .hugeSpan
    else if days < -maxSpanDays ∨ maxSpanDays < days then .error (.spanDays days)
    else .ok micros

/-- The last day of the calendar, the end of the year 9999. -/
def lastDay : Int := 3652058

/-- The moment `seconds` later, if the calendar has it. -/
def after (m : Moment) (seconds : Float) : Except TimeFault Moment := do
  let later : Moment := { m with micros := m.micros + (← span seconds) }
  if later.day.number < 0 ∨ lastDay < later.day.number then .error .beyondCalendar else .ok later

/-- Microseconds on the clock of universal time; a clock of unknown distance
    is taken as one of universal time. -/
def universal (m : Moment) : Int := m.micros - m.offset.getD 0

end Moment

end KeyFigures
