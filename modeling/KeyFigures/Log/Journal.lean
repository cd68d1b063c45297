/-
  KeyFigures/Log/Journal.lean
  ===========================
  **Work that keeps a journal.**

  A journal has a threshold below which nothing is recorded, the context of the
  current line of work and the records so far.  `Recorded` is work that reads
  and extends a journal and may fail; a failure keeps what was recorded.
-/
import KeyFigures.Log.Record

namespace KeyFigures.Log

/-- Whether and from which level on records are written. -/
structure Setup where
  /-- Whether logging has been configured: that is done once. -/
  isClaimed : Bool := false
  configured : Option Value := none
deriving DecidableEq, Repr, Inhabited

def Setup.unconfigured : Setup := {}

/-- Configures logging unless that was done before; an unusable level uses up
    the one time. -/
def Setup.configure (s : Setup) (level : Value) : Attempt Unit × Setup :=
  if s.isClaimed then (.ok (), s)
  else
    match levelOf level with
    | .ok level => (.ok (), { isClaimed := true, configured := some level })
    | .error f => (.error f, { s with isClaimed := true })

/-- The level from which records count; level zero leaves the choice to the
    surroundings. -/
def Setup.threshold (s : Setup) : Level :=
  match s.configured.bind Value.index? with
  | some level => if level = 0 then warning else level
  | none => warning

/-- Whether records of that level count: levels up to zero never do. -/
def Setup.isEnabled (s : Setup) (level : Level) : Bool :=
  decide (0 < level ∧ s.threshold ≤ level)

structure Journal where
  setup : Setup := {}
  context : Context := {}
  /-- The records so far, the newest first. -/
  records : List Record := []
deriving Inhabited

/-- The records so far, the oldest first. -/
def Journal.written (j : Journal) : List Record := j.records.reverse

/-- Refuses the name of a field that the record fills in by itself. -/
def refuseField (name : String) : Attempt Unit :=
  if (refusedFields ++ reservedFields).contains name then
    .error (.missingKey
      (Text.quoted ("Attempt to overwrite " ++ Text.quoted name ++ " in LogRecord")))
  else .ok ()

/-- The field that an item of the data given with a call names. -/
def extraField (extra key : Value) : Attempt (String × Value) :=
  match extra, key with
  | .object members, .text name => do
    refuseField name
    .ok (name, (Value.lookup? members name).getD .null)
  | _, .text name => do
    refuseField name
    Attempt.mistyped
  | .list items, key | .tuple items, key =>
    match key.index? with
    | some i =>
      let place := if i < 0 then i + items.length else i
      match if place < 0 then none else items[place.toNat]? with
      | some v => .ok (key.display, v)
      | none => .error .missingItem
    | none => Attempt.mistyped
  | _, _ => Attempt.mistyped

/-- The fields that the data given with a call names, in order. -/
def extraFields (extra : Value) : Attempt (List (String × Value)) :=
  if extra.isNull then .ok []
  else do
    let keys ← Attempt.ofTyped extra.items?
    keys.mapM (extraField extra)

/-- Adds a record, unless its level does not count. -/
def Journal.add (j : Journal) (level : Value) (logger message : String)
    (extra : Value) (failure : Option Failure) : Attempt Journal := do
  let rank ← Attempt.ofTyped level.index?
  if j.setup.isEnabled rank then
    let fields ← extraFields extra
    .ok (if j.setup.configured.isSome then
      { j with records := record j.context level logger message fields failure :: j.records } else j)
  else .ok j

abbrev Recorded := ExceptT Failure (StateM Journal)

def Recorded.attempt {α : Type} (a : Attempt α) : Recorded α := ExceptT.mk (pure a)

def event (level : Level) (logger message : String) (extra : List (String × Value)) :
    Recorded Unit := ExceptT.mk fun j =>
  match j.add (.int level) logger message (.object extra) none with
  | .ok j => (.ok (), j)
  | .error f => (.error f, j)

def isEnabled (level : Level) : Recorded Bool := do
  return (← get).setup.isEnabled level

end KeyFigures.Log
