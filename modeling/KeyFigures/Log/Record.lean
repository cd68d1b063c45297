/-
  KeyFigures/Log/Record.lean
  ==========================
  **Log records.**

  A record is one object: its level, the logger, the message, the context, the
  extra fields of the call and, for a logged failure, what the failure holds.
  A field that the record has already is not written again by an extra.

  `encode` makes the fields plain: what JSON cannot hold becomes its text.
-/
import KeyFigures.Log.Context

namespace KeyFigures.Log

/-! ### Levels -/

abbrev Level := Int

def debug : Level := 10

def info : Level := 20

/-- The level from which records count when nothing is configured. -/
def warning : Level := 30

/-- The levels that have a name, and the name that each is shown by. -/
def namedLevels : List (String × Level) := [
  ("CRITICAL", 50), ("ERROR", 40), ("WARNING", warning), ("INFO", info), ("DEBUG", debug),
  ("NOTSET", 0)]

def alternativeNames : List (String × Level) := [("FATAL", 50), ("WARN", warning)]

/-- The name of a level; truth values count as levels. -/
def levelName (level : Value) : String :=
  match level.index?.bind fun l => namedLevels.find? (·.2 == l) with
  | some (name, _) => name
  | none => "Level " ++ level.display

/-- The level that data names: a level itself, or the name of one. -/
def levelOf (v : Value) : Attempt Value :=
  match v with
  | .text name =>
    match (namedLevels ++ alternativeNames).find? (·.1 == name) with
    | some (_, level) => .ok (.int level)
    | none => Attempt.refuse (.unknownLevel v.shown)
  | v => if v.index?.isSome then .ok v else Attempt.mistyped

def loggerRoot : String := "formula_kernel"

def loggerName (name : String) : String := loggerRoot ++ "." ++ name

/-! ### Records -/

/-- A record: its fields in order. -/
abbrev Record := List (String × Value)

/-- Fields that every record has and that are not written. -/
def reservedFields : List String := [
  "name", "msg", "args", "levelname", "levelno", "pathname", "filename", "module", "exc_info",
  "exc_text", "stack_info", "lineno", "funcName", "created", "msecs", "relativeCreated", "thread",
  "threadName", "processName", "process"]

/-- Fields that a record fills in by itself, so that no call may give them. -/
def refusedFields : List String := ["message", "asctime"]

/-- Fields that a call may give and that are not written. -/
def silentFields : List String := ["taskName", "ts"]

mutual

/-- Plain data in the place of data that JSON cannot hold: a leaf of another
    type becomes its text, a tuple a list. -/
def encode : Value → Value
  | .list items | .tuple items => .list (encodeItems items)
  | .object members => .object (encodeMembers members)
  | .choice c => .text c.text
  | .decimal d => .text (Value.decimal d).display
  | .moment m => .text (Value.moment m).display
  | .day d => .text (Value.day d).display
  | .set items => .text (Value.set items).display
  | .record typeName fields => .text (Value.record typeName fields).display
  | v => v

/-- The items of a list, made plain. -/
def encodeItems : List Value → List Value
  | [] => []
  | v :: rest => encode v :: encodeItems rest

/-- The members of an object, made plain. -/
def encodeMembers : List (String × Value) → List (String × Value)
  | [] => []
  | (name, v) :: rest => (name, encode v) :: encodeMembers rest

end

def failureFields (f : Failure) : List (String × Value) :=
  [("exc_type", .text f.kind), ("exc_message", .text f.message)]
    ++ (f.code?.map fun code => ("exc_code", .text code)).toList
    ++ f.attributes.map fun (name, v) => ("exc_" ++ name, v)

def record (context : Context) (level : Value) (logger message : String)
    (extra : List (String × Value)) (failure : Option Failure) : Record :=
  let head : Record :=
    [("level", .text (levelName level)), ("logger", .text (loggerName logger)),
      ("message", .text message)] ++ context.toList.map fun (name, v) => (name, .text v)
  let silent := reservedFields ++ silentFields ++ head.map (·.1)
  let body := head ++ extra.filter fun (name, _) => !silent.contains name
  let told := match failure with
    | some f => (failureFields f).foldl (fun r (name, v) => Value.put r name v) body
    | none => body
  told.map fun (name, v) => (name, encode v)

end KeyFigures.Log
