/-
  KeyFigures/Service/Series.lean
  ==============================
  **One figure for each fiscal year.**

  A series covers every year of a range in order.  A year whose ledger is
  missing has a point like any other; its result says so.
-/
import KeyFigures.Result
import KeyFigures.Log.Journal

namespace KeyFigures

/-- The result of a year. -/
structure SeriesPoint where
  year : Int
  result : Result
deriving DecidableEq, Repr, Inhabited

namespace Series

/-- The years from `first` to `last`. -/
def years (first last : Int) : List Int :=
  (List.range (last + 1 - first).toNat).map fun (k : Nat) => first + (k : Int)

/-- The first and the last year of a range, which must not end before it
    starts; only whole numbers make a range. -/
def range (first last : Value) : Attempt (Int × Int) := do
  if ← Attempt.ofTyped (last.before? first) then Attempt.refuse (.yearsReversed first last)
  else
    let last ← Attempt.ofTyped last.index?
    let first ← Attempt.ofTyped first.index?
    .ok (first, last)

/-- The point of a year; a missing ledger makes one too. -/
def point (kind : ResultKind) (year : Int) (r : Attempt Result) : Attempt SeriesPoint :=
  match r with
  | .ok r => .ok ⟨year, r⟩
  | .error f => if f.isMissingLedger then .ok ⟨year, .missing kind⟩ else .error f

/-- Records that the ledger of a year is missing. -/
def noteMissing (year : Int) (r : Attempt Result) : Log.Recorded Unit :=
  match r with
  | .error (.missingLedger entity _ _) =>
    Log.event Log.info "services.series" "series_point_missing_ledger"
      [("entity_id", entity), ("fiscal_year", .int year)]
  | _ => pure ()

end Series

end KeyFigures
