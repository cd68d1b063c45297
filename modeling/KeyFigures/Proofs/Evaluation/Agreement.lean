/-
  KeyFigures/Proofs/Evaluation/Agreement.lean
  ===========================================
  **Trees that evaluate alike.**

  Two trees evaluate alike if on every ledger, whatever warnings were met
  before, both leave the same warnings and stop for the same reason or come to
  values that agree.  Every node keeps this (`EvaluatesLike.binary`,
  `EvaluatesLike.grouping`), and it starts at constants that agree
  (`evaluatesLike_constant`); so how a constant is written shows in no result
  but in the digits that a value is printed with.
-/
import KeyFigures.Evaluation
import KeyFigures.Proofs.Decimal.Agreement

namespace KeyFigures

open Decimal (Agrees)

/-! ### Results -/

/-- Two results of the same kind and with the same warnings, both invalid for
    the same reason or both valid with values that agree. -/
structure Result.Agrees (r s : Result) : Prop where
  kind_eq : r.kind = s.kind
  warnings_eq : r.warnings = s.warnings
  error_eq : r.error? = s.error?
  value_agrees : ∀ d e, r.value? = some d → s.value? = some e → Decimal.Agrees d e

namespace Result

theorem Agrees.refl (r : Result) : r.Agrees r where
  kind_eq := rfl
  warnings_eq := rfl
  error_eq := rfl
  value_agrees := by
    intro d e hd he
    rw [hd] at he
    cases he
    exact .same d

theorem Agrees.symm {r s : Result} (h : r.Agrees s) : s.Agrees r where
  kind_eq := h.kind_eq.symm
  warnings_eq := h.warnings_eq.symm
  error_eq := h.error_eq.symm
  value_agrees := fun d e hd he => (h.value_agrees e d he hd).symm

/-- A result has a value exactly if it has no error. -/
theorem value?_isSome_iff (r : Result) : r.value?.isSome ↔ r.error? = none := by
  rcases r with ⟨⟨d⟩ | ⟨error⟩, kind, warnings⟩ <;> simp [value?, error?]

theorem Agrees.isValid_eq {r s : Result} (h : r.Agrees s) : r.isValid = s.isValid := by
  rw [Bool.eq_iff_iff, isValid, isValid, value?_isSome_iff, value?_isSome_iff, h.error_eq]

theorem Agrees.trans {r s t : Result} (hrs : r.Agrees s) (hst : s.Agrees t) : r.Agrees t where
  kind_eq := hrs.kind_eq.trans hst.kind_eq
  warnings_eq := hrs.warnings_eq.trans hst.warnings_eq
  error_eq := hrs.error_eq.trans hst.error_eq
  value_agrees := by
    intro d f hd hf
    have hvalid : s.value?.isSome := by
      rw [value?_isSome_iff, ← hrs.error_eq, ← value?_isSome_iff, hd]
      rfl
    obtain ⟨e, he⟩ := Option.isSome_iff_exists.mp hvalid
    exact (hrs.value_agrees d e hd he).trans (hst.value_agrees e f he hf)

end Result

/-! ### Operators -/

theorem Operator.apply_agrees (op : Operator) {x x' y y' : Decimal} (hx : Agrees x x')
    (hy : Agrees y y') : Alike Agrees (op.apply x y) (op.apply x' y') := by
  cases op with
  | add => exact (Decimal.add_agrees hx hy).mapError _
  | sub => exact (Decimal.sub_agrees hx hy).mapError _
  | mul => exact (Decimal.mul_agrees hx hy).mapError _
  | div =>
    have hzero := Decimal.equalValue_zero_congr hy
    unfold Operator.apply
    dsimp only
    rw [← hzero]
    cases htest : y.equalValue .zero with
    | error fault => rfl
    | ok isZero =>
      cases isZero with
      | true => rfl
      | false =>
        have hne := Decimal.isZero_eq_false_of_equalValue htest
        exact (Decimal.div_agrees hx hy hne).mapError _

/-! ### Trees -/

namespace Term

/-- On every ledger two trees leave the same warnings, and stop for the same
    reason or come to values that agree. -/
def EvaluatesLike (t u : Term) : Prop :=
  ∀ (balances : List AccountBalance) (ws : List Warning),
    Alike Agrees ((t.value balances).run ws).1 ((u.value balances).run ws).1 ∧
      ((t.value balances).run ws).2 = ((u.value balances).run ws).2

theorem run_bind {α β : Type} (m : Walk α) (f : α → Walk β) (ws : List Warning) :
    (m >>= f).run ws =
      match m.run ws with
      | (.ok x, ws) => (f x).run ws
      | (.error stop, ws) => (.error stop, ws) := by
  show (ExceptT.bind m f) ws = _
  simp only [ExceptT.bind, ExceptT.mk, ExceptT.run, bind, StateT.bind, ExceptT.bindCont]
  rcases m ws with ⟨stop | x, ws⟩ <;> rfl

/-- The walk through an operation: left, right, and then the operation itself. -/
theorem run_binary (left : Term) (op : Operator) (right : Term) (balances : List AccountBalance)
    (ws : List Warning) :
    ((binary left op right).value balances).run ws =
      match (left.value balances).run ws with
      | (.ok x, ws) =>
        match (right.value balances).run ws with
        | (.ok y, ws) => (op.apply x y, ws)
        | (.error stop, ws) => (.error stop, ws)
      | (.error stop, ws) => (.error stop, ws) := by
  rw [value, run_bind]
  rcases (left.value balances).run ws with ⟨stop | x, ws⟩
  · rfl
  · dsimp only
    rw [run_bind]
    rcases (right.value balances).run ws with ⟨stop | y, ws⟩ <;> rfl

theorem EvaluatesLike.refl (t : Term) : t.EvaluatesLike t :=
  fun _ _ => ⟨Alike.refl Agrees.same _, rfl⟩

theorem evaluatesLike_constant {x y : Decimal} (h : Agrees x y) :
    (constant x).EvaluatesLike (constant y) :=
  fun _ _ => ⟨h, rfl⟩

theorem EvaluatesLike.grouping {t u : Term} (h : t.EvaluatesLike u) :
    (grouping t).EvaluatesLike (grouping u) := h

theorem EvaluatesLike.binary {l l' r r' : Term} (op : Operator) (hl : l.EvaluatesLike l')
    (hr : r.EvaluatesLike r') : (binary l op r).EvaluatesLike (binary l' op r') := by
  intro balances ws
  rw [run_binary, run_binary]
  obtain ⟨hl, hlw⟩ := hl balances ws
  revert hl hlw
  rcases (l.value balances).run ws with ⟨stop | x, ws⟩ <;>
    rcases (l'.value balances).run _ with ⟨stop' | x', ws'⟩ <;> intro hx hlw
  · exact ⟨hx, hlw⟩
  · exact hx.elim
  · exact hx.elim
  · dsimp only at hlw
    subst hlw
    dsimp only
    obtain ⟨hr, hrw⟩ := hr balances ws
    revert hr hrw
    rcases (r.value balances).run ws with ⟨stop | y, ws⟩ <;>
      rcases (r'.value balances).run _ with ⟨stop' | y', ws'⟩ <;> intro hy hrw
    · exact ⟨hy, hrw⟩
    · exact hy.elim
    · exact hy.elim
    · exact ⟨op.apply_agrees hx hy, hrw⟩

theorem EvaluatesLike.symm {t u : Term} (h : t.EvaluatesLike u) : u.EvaluatesLike t := by
  intro balances ws
  obtain ⟨h, hw⟩ := h balances ws
  exact ⟨h.symm Agrees.symm, hw.symm⟩

theorem EvaluatesLike.trans {t u v : Term} (htu : t.EvaluatesLike u) (huv : u.EvaluatesLike v) :
    t.EvaluatesLike v := by
  intro balances ws
  obtain ⟨h, hw⟩ := htu balances ws
  obtain ⟨h', hw'⟩ := huv balances ws
  exact ⟨h.trans h' fun _ _ _ => Agrees.trans, hw.trans hw'⟩

/-- Trees that evaluate alike have results that agree, or fail alike. -/
theorem EvaluatesLike.result {t u : Term} (h : t.EvaluatesLike u) (balances : List AccountBalance)
    (kind : ResultKind) : Alike Result.Agrees (t.result balances kind) (u.result balances kind) := by
  obtain ⟨h, hw⟩ := h balances []
  unfold Term.result
  revert h hw
  rcases (t.value balances).run [] with ⟨stop | x, ws⟩ <;>
    rcases (u.value balances).run [] with ⟨stop' | y, ws'⟩ <;> intro h hw
  · cases h
    cases hw
    cases stop with
    | divisionByZero => exact Result.Agrees.refl _
    | failed cause => rfl
  · exact h.elim
  · exact h.elim
  · cases hw
    refine ⟨rfl, rfl, rfl, ?_⟩
    rintro d e ⟨⟩ ⟨⟩
    exact h

end Term

end KeyFigures
