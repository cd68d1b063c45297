/-
  KeyFigures/Library/Settings.lean
  ================================
  **Settings of the calculation services.**

  Settings bound how deep formula references may nest, how many ledgers are
  fetched at a time, and how many results are kept for how long.  Every bound
  is at least one, and unknown settings are refused.

  `SettingsData` holds the settings as given; `SettingsData.settings` is what
  they mean.
-/
import KeyFigures.Failure
import KeyFigures.Time.Moment

namespace KeyFigures

structure Settings where
  maxReferenceDepth : Value
  concurrencyLimit : Nat
  /-- How many results are kept; all if absent. -/
  cacheMaxEntries : Option Nat
  /-- For how many seconds a result is kept; for ever if absent. -/
  cacheSeconds : Option Float
  currencyLabel : String
  useStandardMapping : Bool
deriving Inhabited

structure SettingsData where
  maxReferenceDepth : Value
  concurrencyLimit : Value
  cacheMaxEntries : Value
  cacheSeconds : Value
  currencyLabel : Value
  useStandardMapping : Value
deriving Inhabited

namespace SettingsData

def standard : SettingsData where
  maxReferenceDepth := .int 32
  concurrencyLimit := .int 8
  cacheMaxEntries := .int 4096
  cacheSeconds := .null
  currencyLabel := .text "kr"
  useStandardMapping := .bool true

def members (s : SettingsData) : List (String × Value) := [
  ("max_reference_depth", s.maxReferenceDepth), ("concurrency_limit", s.concurrencyLimit),
  ("cache_max_entries", s.cacheMaxEntries), ("cache_ttl_seconds", s.cacheSeconds),
  ("currency_label", s.currencyLabel), ("use_standard_mapping", s.useStandardMapping)]

def names : List String := standard.members.map (·.1)

/-- Refuses a bound below one; what is no number has no order. -/
def checkBound (name : String) (v : Value) : Attempt Unit := do
  if ← Attempt.ofTyped (v.before? (.int 1)) then Attempt.refuse (.belowOne name v.display)

def checkSeconds (name : String) (v : Value) : Attempt Unit := do
  if ← Attempt.ofTyped (v.upTo? (.int 0)) then Attempt.refuse (.notPositive name v.display)

/-- Refuses a bound below one and a time that is not positive. -/
def check (s : SettingsData) : Attempt Unit := do
  checkBound "max_reference_depth" s.maxReferenceDepth
  checkBound "concurrency_limit" s.concurrencyLimit
  if !s.cacheMaxEntries.isNull then checkBound "cache_max_entries" s.cacheMaxEntries
  if !s.cacheSeconds.isNull then checkSeconds "cache_ttl_seconds" s.cacheSeconds

/-- The names of a section: the members of an object, the items of a list, the
    characters of a text. -/
def sectionNames (v : Value) : Attempt (List String) :=
  match v with
  | .object members => .ok (members.map (·.1))
  | .text s => .ok (s.toList.map String.singleton)
  | .list items =>
    items.mapM fun
      | .text s => .ok s
      | _ => .error (.misuse .mistyped)
  | _ => .error (.misuse .mistyped)

/-- Reads settings from data or from its member `engine`. -/
def ofValue (v : Value) : Attempt SettingsData := do
  match v with
  | .object _ =>
    let part := (v.get? "engine").getD v
    let unknown := (← sectionNames part).filter (!names.contains ·)
    if !unknown.isEmpty then
      Attempt.refuse (.unknownSettings ((unknown.eraseDups).mergeSort fun a b => decide (a ≤ b)))
    match part with
    | .object _ =>
      let given (name : String) (otherwise : Value) : Value := (part.get? name).getD otherwise
      let s : SettingsData := {
        maxReferenceDepth := given "max_reference_depth" standard.maxReferenceDepth
        concurrencyLimit := given "concurrency_limit" standard.concurrencyLimit
        cacheMaxEntries := given "cache_max_entries" standard.cacheMaxEntries
        cacheSeconds := given "cache_ttl_seconds" standard.cacheSeconds
        currencyLabel := given "currency_label" standard.currencyLabel
        useStandardMapping := given "use_standard_mapping" standard.useStandardMapping }
      s.check
      .ok s
    | _ => .error (.misuse .mistyped)
  | _ => .error .missingAttribute

/-- The largest whole number that is not above a bound; none for a bound
    beyond all numbers. -/
def boundOf (v : Value) : Option Nat := (v.magnitude?.bind Magnitude.floor?).map Int.toNat

def unboundedSlots : Nat := Nat.pow 10 9

/-- How many slots a limit stands for.  Slots are taken one by one until none
    is left, which never happens with a limit that is no whole number. -/
def slotsOf (v : Value) : Nat := ((v.magnitude?.bind Magnitude.whole?).map Int.toNat).getD unboundedSlots

def secondsOf (v : Value) : Float :=
  match v with
  | .float x => x
  | v => Float.ofInt (v.index?.getD 0)

def settings (s : SettingsData) : Settings where
  maxReferenceDepth := s.maxReferenceDepth
  concurrencyLimit := slotsOf s.concurrencyLimit
  cacheMaxEntries := boundOf s.cacheMaxEntries
  cacheSeconds := if s.cacheSeconds.isNull then none else some (secondsOf s.cacheSeconds)
  currencyLabel := s.currencyLabel.display
  useStandardMapping := s.useStandardMapping.isTruthy

end SettingsData

end KeyFigures
