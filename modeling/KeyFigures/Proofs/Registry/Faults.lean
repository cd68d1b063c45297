/-
  KeyFigures/Proofs/Registry/Faults.lean
  ======================================
  **Only a walk along references tells of a circle.**

  Finding a formula can fail in many ways: an id that is no key, a table that is
  missing, a stored row that cannot be read.  None of them is a circle of
  references or a chain that is too long (`Registry.noCircle_definition`), so
  such a failure of an expansion comes from the expansion itself; and none of
  them is mistaken for a formula that is not there
  (`Registry.failsOnly_definition`).
-/
import KeyFigures.Registry.Basic
import KeyFigures.Proofs.Value.Failing

namespace KeyFigures

open Attempt (FailsOnly)

/-- A failure that tells of data, and not of the formulas that an id or a
    reference leads to. -/
def Failure.IsOfData : Failure → Prop
  | .circularReference .. | .formulaNotFound _ => False
  | _ => True

/-- An attempt that does not fail for references in a circle, or too deep. -/
def Attempt.NoCircle {α : Type} (x : Attempt α) : Prop :=
  ∀ id chain maxDepth, x ≠ .error (.circularReference id chain maxDepth)

/-! ### Reading formula text and decimals -/

theorem failsOnly_scan (source : String) (position : Nat) (cs : List Char) :
    (scan source position cs).FailsOnly Failure.IsOfData := by
  induction position, cs using scan.induct with
  | case1 position =>
    rw [scan]
    exact .ok []
  | case2 position c r hblank ih =>
    rw [scan, if_pos hblank]
    exact ih
  | case3 position c r hblank fault hfault =>
    rw [scan, if_neg hblank, hfault]
    cases fault <;> exact .error trivial
  | case4 position c r hblank token more hread ih =>
    rw [scan, if_neg hblank, hread]
    exact ih.bind fun rest => .ok _

theorem failsOnly_parseText (s : String) : (parseText s).FailsOnly Failure.IsOfData := by
  refine (failsOnly_scan s 0 s.toList).bind fun ts => ?_
  unfold parseTokens
  split
  · exact .ok _
  · exact .error trivial

theorem failsOnly_ofPartValues (items : List Value) :
    (Decimal.ofPartValues items).FailsOnly Failure.IsOfData := by
  have hsign : ∀ v, (Decimal.signPart v).FailsOnly Failure.IsOfData := by
    intro v
    unfold Decimal.signPart
    split
    · exact .ok _
    · exact .ok _
    · exact .error trivial
  have hpower : ∀ v, (Decimal.powerPart v).FailsOnly Failure.IsOfData := by
    intro v
    unfold Decimal.powerPart
    split
    · exact .ok _
    · exact .ok _
    · exact .ok _
    · exact .error trivial
    · split
      · exact .ok _
      · exact .error trivial
  have hdigit : ∀ v, (Decimal.digitPart v).FailsOnly Failure.IsOfData := by
    intro v
    unfold Decimal.digitPart
    split
    · split
      · exact .ok _
      · exact .error trivial
    · exact .error trivial
  have hdigits : ∀ v, (Decimal.digitsPart v).FailsOnly Failure.IsOfData := by
    intro v
    unfold Decimal.digitsPart
    split
    · exact .mapM hdigit _
    · exact .mapM hdigit _
    · exact .error trivial
  unfold Decimal.ofPartValues
  split
  · exact (hsign _).bind fun sign => (hpower _).bind fun _ => (hdigits _).bind fun ds =>
      .ofDecimal fun _ => trivial
  · exact .error trivial

theorem failsOnly_toDecimal (v : Value) : v.toDecimal.FailsOnly Failure.IsOfData := by
  unfold Value.toDecimal
  split
  · exact .ofDecimal fun _ => trivial
  · exact .ok _
  · exact .ok _
  · exact failsOnly_ofPartValues _
  · exact failsOnly_ofPartValues _
  · exact (FailsOnly.ofTyped trivial).bind fun n => .ok _

/-! ### Reading stored formulas -/

theorem failsOnly_textCell (v : Value) : (Database.textCell v).FailsOnly Failure.IsOfData := by
  have hbound : (Database.bound v).FailsOnly Failure.IsOfData := by
    unfold Database.bound
    split
    · exact .ok _
    · exact .ok _
    · exact .ok _
    · split
      · split
        · exact .ok _
        · exact .error trivial
      · exact .error trivial
  refine hbound.bind fun cell => ?_
  split <;> exact .ok _

theorem failsOnly_benchmarksOf (v : Value) :
    (Database.benchmarksOf v).FailsOnly Failure.IsOfData := by
  have hthreshold : ∀ (members : List (String × Value)) (name : String),
      (Definition.required members name >>= Value.toDecimal).FailsOnly Failure.IsOfData := by
    intro members name
    refine FailsOnly.bind ?_ failsOnly_toDecimal
    unfold Definition.required
    split
    · exact .ok _
    · exact .error trivial
  unfold Database.benchmarksOf
  split
  · split
    · exact (hthreshold _ _).bind fun excellent => (hthreshold _ _).bind fun good =>
        (hthreshold _ _).bind fun poor => .ok _
    · exact .error trivial
  · exact .ok _

theorem failsOnly_row (row : Database.FormulaRow) :
    row.definition.FailsOnly Failure.IsOfData := by
  have hextras : row.extras.FailsOnly Failure.IsOfData := by
    unfold Database.FormulaRow.extras
    split
    · split
      · exact .ok _
      · exact .error trivial
    · exact .ok _
  have hkind : (ResultKind.ofValue (.text row.kind)).FailsOnly Failure.IsOfData := by
    unfold ResultKind.ofValue
    split
    · exact .ok _
    · exact .error trivial
  exact hextras.bind fun extras => (failsOnly_parseText row.expression).bind fun tree =>
    hkind.bind fun kind => (failsOnly_benchmarksOf _).bind fun benchmarks => .ok _

theorem failsOnly_table (t : Database.FormulaTable) (id : Value) :
    (t.get? id).FailsOnly Failure.IsOfData := by
  have hrows : (t.rowsFor id).FailsOnly Failure.IsOfData := by
    refine (failsOnly_textCell id).bind fun cell => ?_
    cases cell <;> exact .ok _
  refine hrows.bind fun rows => ?_
  split
  · exact (failsOnly_row _).map some
  · exact .ok _

/-! ### Looking up -/

namespace Registry

theorem UserStore.failsOnly_get? (store : UserStore) (id : Value) :
    (store.get? id).FailsOnly Failure.IsOfData := by
  cases store with
  | memory a =>
    unfold UserStore.get?
    dsimp only
    split
    · exact .ok _
    · exact .error trivial
  | stored db =>
    refine FailsOnly.bind ?_ fun tables => failsOnly_table _ id
    unfold Database.tables
    split
    · exact .ok _
    · exact .error trivial

theorem failsOnly_definition? (r : Registry) (id : Value) :
    (r.definition? id).FailsOnly Failure.IsOfData := by
  have hstandard : (r.standard? id).FailsOnly Failure.IsOfData := by
    unfold Registry.standard?
    split
    · exact .ok _
    · exact .error trivial
  refine hstandard.bind fun found => ?_
  cases found with
  | some d => exact .ok _
  | none =>
    dsimp only
    split
    · exact UserStore.failsOnly_get? _ id
    · exact .ok _

/-- Looking up a formula fails for data, or since there is none. -/
theorem failsOnly_definition (r : Registry) (id : Value) :
    (r.definition id).FailsOnly fun f => f.IsOfData ∨ f = .formulaNotFound id := by
  refine ((r.failsOnly_definition? id).mono fun _ => .inl).bind fun found => ?_
  cases found with
  | some d => exact .ok _
  | none => exact .error (.inr rfl)

/-- Looking up a formula never tells of a circle. -/
theorem noCircle_definition (r : Registry) (id : Value) : (r.definition id).NoCircle := by
  intro last chain maxDepth h
  rcases r.failsOnly_definition id _ h with hdata | hnotFound
  · exact hdata
  · cases hnotFound

end Registry

end KeyFigures
