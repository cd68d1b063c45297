/-
  KeyFigures/Time/Reading.lean
  ============================
  **Reading points in time from standard texts.**

  A date is written with the month and the day or with the week and the day of
  the week, each with hyphens or without: `2024-01-31`, `20240131`,
  `2024-W05-3`, `2024W053`; a week alone stands for its Monday.  The time of
  day follows behind any one character, with colons or without, and may end
  after the hours, the minutes or the seconds; a fraction of a second follows a
  point or a comma, and six of its digits count.  A distance from universal
  time, if any, ends the text.

  In front of such a distance, and only there, one superfluous ASCII character
  is passed over, and so is whatever follows a fraction.
-/
import KeyFigures.Time.Moment

namespace KeyFigures

open KeyFigures.Text

namespace Reading

/-- The character at the front; a null character stands for the end. -/
def front (cs : List Char) : Char := cs.headD '\x00'

/-- The number that exactly `width` ASCII digits at the front denote, and the
    rest. -/
def field? (width : Nat) (cs : List Char) : Option (Int × List Char) :=
  let ds := cs.take width
  if ds.length = width ∧ ds.all Char.isDigit then some ((valueOf ds : Int), cs.drop width)
  else none

/-! ### Dates -/

/-- The parts of a date as written. -/
structure Date where
  year : Int
  month : Int
  day : Int
deriving DecidableEq, Repr

def isLeap (year : Int) : Bool := year % 4 = 0 && (year % 100 != 0 || year % 400 = 0)

/-- The day of the week, with Monday as zero. -/
def weekday (d : Day) : Int := Int.fmod d.number 7

/-- The Monday of a year's first week, the week of its first Thursday. -/
def firstMonday (year : Int) : Day :=
  let newYear := Day.ofCivil year 1 1
  let monday := newYear.number - weekday newYear
  ⟨if 3 < weekday newYear then monday + 7 else monday⟩

def hasWeek (year week : Int) : Bool :=
  if week = 53 then
    let first := weekday (Day.ofCivil year 1 1)
    first = 3 || (first = 2 && isLeap year)
  else decide (0 < week) && decide (week < 53)

/-- The date of a day of a week.  There is no year zero, so no week of it lies
    in a month. -/
def ofWeek? (year week day : Int) : Option Date :=
  if hasWeek year week ∧ 0 < day ∧ day < 8 then
    if year = 0 then some ⟨1, 0, day⟩
    else
      let (y, m, d) := Day.civil ⟨(firstMonday year).number + (week - 1) * 7 + day - 1⟩
      some ⟨y, m, d⟩
  else none

def hyphen? (used : Bool) (cs : List Char) : Option (List Char) :=
  if used then (if front cs = '-' then some (cs.drop 1) else none) else some cs

/-- The date at the front of a text whose date has `length` characters. -/
def date? (length : Nat) (cs : List Char) : Option Date := do
  let (year, rest) ← field? 4 cs
  let used := front rest == '-'
  let rest := if used then rest.drop 1 else rest
  if front rest = 'W' then
    let (week, rest) ← field? 2 (rest.drop 1)
    if (if used then 8 else 7) < length then
      let rest ← hyphen? used rest
      let (day, _) ← field? 1 rest
      ofWeek? year week day
    else ofWeek? year week 1
  else
    let (month, rest) ← field? 2 rest
    let rest ← hyphen? used rest
    let (day, _) ← field? 2 rest
    some ⟨year, month, day⟩

/-- How many characters the date of a date and time has. -/
def dateLength (cs : List Char) : Nat :=
  let place (i : Nat) : Char := front (cs.drop i)
  if cs.length = 7 then 7
  else if place 4 = '-' then
    if place 5 = 'W' then
      if 8 < cs.length ∧ place 8 = '-' then (if (place 10).isDigit then 8 else 10) else 8
    else 10
  else if place 4 = 'W' then
    let digitsEnd := 7 + ((cs.drop 7).takeWhile Char.isDigit).length
    if digitsEnd < 9 then digitsEnd else if digitsEnd % 2 = 0 then 7 else 8
  else 8

def monthDays (year month : Int) : Int :=
  if month = 2 then (if isLeap year then 29 else 28)
  else if month = 4 ∨ month = 6 ∨ month = 9 ∨ month = 11 then 30
  else 31

/-- The day of a date, if there is one. -/
def Date.day? (d : Date) : Except TimeFault Day :=
  if d.year < 1 ∨ 9999 < d.year then .error (.year d.year)
  else if d.month < 1 ∨ 12 < d.month then .error .month
  else if d.day < 1 ∨ monthDays d.year d.month < d.day then .error .day
  else .ok (.ofCivil d.year d.month d.day)

/-! ### Times of day -/

/-- The parts of a time of day as written, and whether nothing superfluous
    follows. -/
structure Clocked where
  hour : Int := 0
  minute : Int := 0
  second : Int := 0
  micros : Int := 0
  clean : Bool := true
deriving DecidableEq, Repr

/-- Sets the hours, minutes or seconds. -/
def Clocked.put (c : Clocked) (index : Nat) (n : Int) : Clocked :=
  match index with
  | 0 => { c with hour := n }
  | 1 => { c with minute := n }
  | _ => { c with second := n }

/-- Reads a fraction of a second; `after` is what follows the text. -/
def fraction? (after : List Char) (c : Clocked) (cs : List Char) : Option Clocked :=
  let ds := cs.take 6
  if ds.all Char.isDigit then
    let rest := cs.dropWhile Char.isDigit
    some { c with
      micros := valueOf (ds ++ List.replicate (6 - ds.length) '0')
      clean := front (rest ++ after) = '\x00' }
  else none

/-- Reads the hours, minutes and seconds from number `index` on. -/
def clock? (after : List Char) (colons : Bool) (c : Clocked) (index : Nat) (cs : List Char) :
    Option Clocked :=
  if index < 3 then
    match field? 2 cs with
    | none => none
    | some (n, rest) =>
      let c := c.put index n
      let colons := if index = 0 then front rest == ':' else colons
      match rest with
      | [] => some { c with clean := front after = '\x00' }
      | [x] => if x.toNat < 128 then some { c with clean := x = '\x00' } else none
      | x :: more =>
        if colons && x == ':' then clock? after colons c (index + 1) more
        else if x = '.' ∨ x = ',' then fraction? after c more
        else if colons then none
        else clock? after colons c (index + 1) rest
  else fraction? after c cs
termination_by 3 - index

/-- Whether a character begins a distance from universal time. -/
def isZoneMark (c : Char) : Bool := c == '+' || c == '-' || c == 'Z'

/-- Reads a time of day and the distance from universal time, in microseconds,
    that may end it. -/
def time? (cs : List Char) : Option (Clocked × Option Int) := do
  let own := cs.takeWhile fun c => !isZoneMark c
  let zone := cs.dropWhile fun c => !isZoneMark c
  let c ← clock? zone false {} 0 own
  match zone with
  | [] => if c.clean then some (c, none) else none
  | 'Z' :: rest => if front rest = '\x00' then some (c, some 0) else none
  | sign :: rest =>
    let z ← clock? [] false {} 0 rest
    let seconds := z.hour * 3600 + z.minute * 60 + z.second
    let micros := if seconds = 0 then 0 else seconds * 1000000 + z.micros
    if z.clean then some (c, some (if sign = '-' then -micros else micros)) else none

/-- The microseconds since midnight, if there is such a time. -/
def Clocked.micros? (c : Clocked) : Except TimeFault Int :=
  if 23 < c.hour then .error .hour
  else if 59 < c.minute then .error .minute
  else if 59 < c.second then .error .second
  else .ok ((c.hour * 3600 + c.minute * 60 + c.second) * 1000000 + c.micros)

end Reading

/-- Reads a moment in a standard text; the time of day may be left out. -/
def Moment.ofText (s : String) : Except TimeFault Moment := do
  let cs := s.toList
  let length := Reading.dateLength cs
  let (date, clock, offset) ← match Reading.date? length cs with
    | none => .error (.unreadable s)
    | some date =>
      if length < cs.length then
        match Reading.time? (cs.drop (length + 1)) with
        | some (clock, offset) => .ok (date, clock, offset)
        | none => .error (.unreadable s)
      else .ok (date, {}, none)
  match offset with
  | some micros =>
    if micros ≤ -Moment.microsPerDay ∨ Moment.microsPerDay ≤ micros then .error (.offset micros)
  | none => .ok ()
  let day ← date.day?
  let micros ← clock.micros?
  .ok ⟨day.number * Moment.microsPerDay + micros, offset⟩

def Day.ofText (s : String) : Except TimeFault Day :=
  let size := s.utf8ByteSize
  if size = 7 ∨ size = 8 ∨ size = 10 then
    match Reading.date? size s.toList with
    | some date => date.day?
    | none => .error (.unreadable s)
  else .error (.unreadable s)

end KeyFigures
