/-
  KeyFigures/Proofs/Evaluation/Settled.lean
  =========================================
  **What an evaluation comes to.**

  On a ledger a formula has a value, or it divides by zero, or its evaluation
  fails (`Term.isSettled_of_result`).  Evaluations fail in many ways, but none of
  them says that a ledger is missing (`Term.neverMissing_result`): only a source
  of ledgers says that.
-/
import KeyFigures.Proofs.Evaluation.Agreement
import KeyFigures.Proofs.Value.Failing

namespace KeyFigures

/-- An attempt that does not fail for a missing ledger. -/
abbrev Attempt.NeverMissing {α : Type} (x : Attempt α) : Prop :=
  x.FailsOnly fun f => f.isMissingLedger = false

open Attempt (FailsOnly NeverMissing)

/-! ### Selecting balances -/

theorem Value.neverMissing_toWhole (v : Value) : v.toWhole.NeverMissing := by
  unfold Value.toWhole
  split
  · split
    · exact .ok _
    · exact .error rfl
  · split
    · exact .ok _
    · exact .error rfl
    · exact .error rfl
  · exact .ofTyped rfl

namespace AccountReference

theorem neverMissing_selects (ref : AccountReference) (account : String) :
    (ref.selects account).NeverMissing := by
  unfold selects
  split
  · exact .ok _
  · exact .error rfl
  · unfold inRange
    dsimp only
    split
    · exact .ok _
    · refine (Value.neverMissing_toWhole _).bind fun low =>
        (Value.neverMissing_toWhole _).bind fun n => ?_
      split
      · exact (Value.neverMissing_toWhole _).bind fun high => .ok _
      · exact .ok _

theorem neverMissing_resolve (ref : AccountReference) (balances : List AccountBalance) :
    (ref.resolve balances).NeverMissing := by
  refine FailsOnly.foldlM (fun s b => ?_) balances Selection.empty
  refine (ref.neverMissing_selects b.number).bind fun isSelected => ?_
  split
  · exact FailsOnly.bind (.ofDecimal fun _ => rfl) fun total => .ok _
  · exact .ok _

end AccountReference

/-! ### Walks -/

namespace Walk

/-- A walk that does not fail for a missing ledger, whatever it has warned of. -/
def NeverMissing {α : Type} (m : Walk α) : Prop :=
  ∀ ws cause, (m.run ws).1 = .error (.failed cause) → cause.isMissingLedger = false

variable {α β : Type}

theorem NeverMissing.bind {m : Walk α} {next : α → Walk β} (hm : m.NeverMissing)
    (hnext : ∀ a, (next a).NeverMissing) : (m >>= next).NeverMissing := by
  intro ws cause h
  rw [Term.run_bind] at h
  have hfirst := hm ws cause
  revert h hfirst
  rcases m.run ws with ⟨stop | a, ws⟩
  · intro h hfirst
    cases h
    exact hfirst rfl
  · exact fun h _ => hnext a ws cause h

theorem neverMissing_attempt {x : Attempt α} (hx : x.NeverMissing) :
    (Walk.attempt x).NeverMissing := by
  intro ws cause h
  cases x with
  | ok a => cases h
  | error f =>
    obtain rfl : f = cause := by simpa [Walk.attempt, ExceptT.run] using h
    exact hx f rfl

end Walk

theorem Operator.neverMissing_apply (op : Operator) (x y : Decimal) {cause : Failure}
    (h : op.apply x y = .error (.failed cause)) : cause.isMissingLedger = false := by
  have hcomputed : ∀ r : Except Decimal.Fault Decimal,
      (r.mapError fun fault => Stop.failed (.number fault)) = .error (.failed cause) →
        cause.isMissingLedger = false := by
    intro r hr
    cases r with
    | ok d => cases hr
    | error fault =>
      cases hr
      rfl
  cases op with
  | add => exact hcomputed _ h
  | sub => exact hcomputed _ h
  | mul => exact hcomputed _ h
  | div =>
    unfold Operator.apply at h
    dsimp only at h
    split at h
    · cases h
      rfl
    · cases h
    · exact hcomputed _ h

namespace Term

variable {t : Term} {balances : List AccountBalance} {kind : ResultKind}

theorem neverMissing_value (t : Term) (balances : List AccountBalance) :
    (t.value balances).NeverMissing := by
  induction t with
  | account ref =>
    refine (Walk.neverMissing_attempt (ref.neverMissing_resolve balances)).bind fun selection => ?_
    intro ws cause h
    split at h <;> cases h
  | constant d =>
    intro ws cause h
    cases h
  | grouping inner ih => exact ih
  | binary left op right ihl ihr =>
    refine ihl.bind fun x => ihr.bind fun y => ?_
    intro ws cause h
    exact op.neverMissing_apply x y h
  | formula id =>
    intro ws cause h
    cases h
    rfl
  | unsupported left symbol right ihl ihr =>
    refine ihl.bind fun _ => ihr.bind fun _ => ?_
    intro ws cause h
    cases h
    rfl
  | foreign thing =>
    intro ws cause h
    cases h
    rfl

/-- Evaluating a formula does not fail for a missing ledger. -/
theorem neverMissing_result (t : Term) (balances : List AccountBalance) (kind : ResultKind) :
    (t.result balances kind).NeverMissing := by
  have hvalue := t.neverMissing_value balances []
  unfold Term.result
  revert hvalue
  rcases (t.value balances).run [] with ⟨(_ | cause) | d, ws⟩ <;> intro hvalue
  · exact .ok _
  · exact .error (hvalue cause rfl)
  · exact .ok _

end Term

/-! ### Results -/

/-- A result that an evaluation can come to: a value, or a division by zero. -/
def Result.IsSettled (r : Result) : Prop := r.isValid = true ∨ r.error? = some .divisionByZero

theorem Result.IsSettled.error_ne {r : Result} (h : r.IsSettled) :
    r.error? ≠ some .missingLedgerData := by
  intro hmissing
  rcases h with hvalid | herror
  · obtain ⟨_ | error, kind, warnings⟩ := r
    · cases hmissing
    · cases hvalid
  · rw [hmissing] at herror
    cases herror

theorem Term.isSettled_of_result {t : Term} {balances : List AccountBalance} {kind : ResultKind}
    {r : Result} (h : t.result balances kind = .ok r) : r.IsSettled := by
  unfold Term.result at h
  split at h
  · cases h
    exact .inl rfl
  · cases h
    exact .inr rfl
  · cases h

end KeyFigures
