/-
  KeyFigures/Exchange/Figures.lean
  ================================
  **Results, ledgers and caches as data.**

  Results are objects with the value as a text; balances are pairs of account
  number and text.
-/
import KeyFigures.Exchange.Formula
import KeyFigures.Ledger.Basic
import KeyFigures.Benchmarks
import KeyFigures.Service.Series
import KeyFigures.Cache.Shared

namespace KeyFigures

/-- The items of a list, none for other data. -/
def Value.listed (v : Value) : List Value := v.items?.getD []

/-- The items of data that has to have items; none if it is missing. -/
def Value.itemsOf (v : Value) (name : String) : Attempt (List Value) :=
  match v.get? name with
  | none => .ok []
  | some items => Attempt.ofTyped items.items?

/-- The first of some data: of a list, or of the characters of a text. -/
def Value.itemAt (v : Value) (place : Nat) : Attempt Value :=
  match v with
  | .object _ => .error (.missingKey (intText place))
  | v => do
    let items ← Attempt.ofTyped v.items?
    match items[place]? with
    | some item => .ok item
    | none => .error .missingItem

/-! ### Results -/

/-- A warning as reference, code and wording. -/
def Warning.toData (w : Warning) : Value :=
  .list [w.reference, .text Warning.code, .text w.message]

def Result.toData (r : Result) : Value :=
  .object [
    ("value", (r.value?.map Decimal.toData).getD .null),
    ("is_valid", .bool r.isValid),
    ("kind", r.kind.word),
    ("error_kind", (r.error?.map (·.word)).getD .null),
    ("warnings", .list (r.warnings.map Warning.toData))]

def SeriesPoint.toData (p : SeriesPoint) : Value := .list [.int p.year, p.result.toData]

/-- The kind that a member of an object names, proper or not; amounts if there
    is none. -/
def ResultKind.ofMember (v : Value) : ResultKind := ((v.get? "kind").map ofWord).getD .amount

/-- The proper kind that a member of an object names; amounts if there is
    none. -/
def ResultKind.ofStrictMember (v : Value) : Attempt ResultKind :=
  match v.get? "kind" with
  | some kind => ofValue kind
  | none => .ok .amount

/-- The error kind that data names, proper or not; null names none. -/
def ErrorKind.ofData (v : Value) : Option ErrorKind := if v.isNull then none else some (ofWord v)

/-- The references of the warnings that an object lists. -/
def Warning.ofMember (v : Value) : Attempt (List Warning) :=
  (v.itemsOf "warnings").map (·.map (⟨·⟩))

/-- A result from an object with a value or the reason why there is none. -/
def Result.ofData (v : Value) : Attempt Result := do
  match v with
  | .object members =>
    match v.get? "invalid" with
    | some e =>
      let warnings ← Warning.ofMember v
      Result.ofParts none false (.ofMember v) (ErrorKind.ofData e) warnings
    | none =>
      match Value.lookup? members "value" with
      | some value =>
        let d ← value.toDecimal
        let warnings ← Warning.ofMember v
        .ok ⟨.value d, .ofMember v, warnings⟩
      | none => .error (.missingKey (Text.quoted "value"))
  | _ => Attempt.mistyped

/-- Thresholds as a list, or null. -/
def Benchmarks.toData : Option Benchmarks → Value
  | some b => .list [b.excellent.toData, b.good.toData, b.poor.toData]
  | none => .null

def Benchmarks.ofItems (v : Value) : Attempt Benchmarks := do
  let items ← Attempt.ofTyped v.items?
  match ← items.mapM Value.toDecimal with
  | [excellent, good, poor] => .ok ⟨excellent, good, poor⟩
  | _ => Attempt.mistyped

/-- Thresholds from a list of three, if there are any. -/
def Benchmarks.ofData (v : Value) : Attempt (Option Benchmarks) :=
  if v.isTruthy then (ofItems v).map some else .ok none

/-! ### Ledgers -/

def balancesToData (balances : List AccountBalance) : Value :=
  .list (balances.map fun b => .list [.text b.number, b.balance.toData])

def balancesOfData (v : Value) : Attempt (List AccountBalance) := do
  let rows ← Attempt.ofTyped v.items?
  rows.mapM fun
    | .list [number, balance] => AccountBalance.ofValues number balance
    | _ => Attempt.mistyped

/-- The balances that an object lists; none if they are missing. -/
def balancesOfMember (v : Value) : Attempt (List AccountBalance) :=
  balancesOfData ((v.get? "balances").getD (.list []))

def Ledger.ofData (v : Value) : Attempt Ledger := do
  let balances ← balancesOfMember v
  .ok ⟨v.getD "entity", v.getD "year", v.getD "version", balances⟩

/-! ### Caches -/

/-- A cache key from a list of its parts. -/
def CacheKey.ofData (v : Value) : Attempt CacheKey :=
  match v with
  | .list [entity, year, version, formula] => CacheKey.ofValues entity year version formula
  | _ => Attempt.mistyped

def Cache.countsToData (c : Cache) : Value :=
  .object [("hits", .int c.hits), ("misses", .int c.misses), ("coalesced", .int c.coalesced),
    ("evictions", .int c.evictions), ("size", .int c.size), ("in_flight", .int c.flights.length),
    ("hit_rate", .text (Binary.fixed 6 c.hitRate))]

end KeyFigures
