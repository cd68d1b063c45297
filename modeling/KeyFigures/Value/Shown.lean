/-
  KeyFigures/Value/Shown.lean
  ===========================
  **Structured data as messages show it.**

  `Value.display` is the text of a value on its own: a text stands for itself.
  `Value.shown` is its text inside other data and in messages that name the
  offending value: texts are quoted, decimals, points in time and records carry
  the name of their type, lists, tuples, sets and objects show their parts.
-/
import KeyFigures.Value.Comparison
import KeyFigures.Decimal.Written
import KeyFigures.Binary.Written
import KeyFigures.Text.Quoted

namespace KeyFigures

open KeyFigures.Text

def intText (n : Int) : String := String.ofList (signedDigits n)

def boolText (b : Bool) : String := if b then "True" else "False"

def Decimal.shown (d : Decimal) : String := "Decimal(" ++ quoted d.toText ++ ")"

def Day.shown (d : Day) : String :=
  let (year, month, day) := d.civil
  "datetime.date(" ++ ", ".intercalate ([year, month, day].map intText) ++ ")"

/-- A span of time with the name of its type: its days, and its seconds and
    microseconds within a day, as far as they are not zero. -/
def spanShown (micros : Int) : String :=
  let part (name : String) (n : Int) : List String :=
    if n = 0 then [] else [name ++ "=" ++ intText n]
  let parts := part "days" (Int.fdiv micros Moment.microsPerDay)
    ++ part "seconds" (Int.fmod micros Moment.microsPerDay / 1000000)
    ++ part "microseconds" (Int.fmod micros 1000000)
  "datetime.timedelta(" ++ (if parts.isEmpty then "0" else ", ".intercalate parts) ++ ")"

/-- A moment with the name of its type: seconds and microseconds are left out
    when they and all that follows are zero. -/
def Moment.shown (m : Moment) : String :=
  let (year, month, day) := m.day.civil
  let t := m.microsOfDay
  let s := t / 1000000
  let tail := if t % 1000000 ≠ 0 then [s % 60, t % 1000000] else if s % 60 ≠ 0 then [s % 60] else []
  let zone := match m.offset with
    | none => []
    | some 0 => ["tzinfo=datetime.timezone.utc"]
    | some micros => ["tzinfo=datetime.timezone(" ++ spanShown micros ++ ")"]
  "datetime.datetime(" ++
    ", ".intercalate (([year, month, day, s / 3600, s / 60 % 60] ++ tail).map intText ++ zone) ++ ")"

def Choice.shown (c : Choice) : String :=
  "<" ++ c.enumeration ++ "." ++ c.name ++ ": " ++ quoted c.text ++ ">"

namespace Value

mutual

def shown : Value → String
  | .null => "None"
  | .bool b => boolText b
  | .int n => intText n
  | .float x => Binary.toText x
  | .text s => quoted s
  | .decimal d => d.shown
  | .moment m => m.shown
  | .day d => d.shown
  | .choice c => c.shown
  | .record typeName fields => typeName ++ "(" ++ ", ".intercalate (shownFields fields) ++ ")"
  | .list items => "[" ++ ", ".intercalate (shownItems items) ++ "]"
  | .tuple items =>
    match shownItems items with
    | [one] => "(" ++ one ++ ",)"
    | parts => "(" ++ ", ".intercalate parts ++ ")"
  | .set items =>
    match shownItems items with
    | [] => "set()"
    | parts => "\x7b" ++ ", ".intercalate parts ++ "\x7d"
  | .object members => "\x7b" ++ ", ".intercalate (shownMembers members) ++ "\x7d"

def shownItems : List Value → List String
  | [] => []
  | v :: rest => v.shown :: shownItems rest

def shownFields : List (String × Value) → List String
  | [] => []
  | (name, v) :: rest => (name ++ "=" ++ v.shown) :: shownFields rest

def shownMembers : List (String × Value) → List String
  | [] => []
  | (name, v) :: rest => (quoted name ++ ": " ++ v.shown) :: shownMembers rest

end

def display : Value → String
  | .text s => s
  | .decimal d => d.toText
  | .moment m => String.ofList (m.chars ' ')
  | .day d => d.toText
  | .choice c => c.enumeration ++ "." ++ c.name
  | v => v.shown

end Value

end KeyFigures
