/-
  KeyFigures/Proofs/Evaluation/Exact.lean
  =======================================
  **Evaluation is exact whenever it can be.**

  A tree of references, numbers and operations has a reading in the rational
  numbers (`Term.reading`): a reference stands for the sum of the balances that
  it selects.  Where every number that comes up on the way is representable
  (`Term.IsExactOn`), nothing is ever rounded, and the walk follows the reading:
  it divides by zero exactly if the reading of some divisor that it reaches is
  zero, and otherwise its value denotes the reading (`evaluate_eq_reading`).

  A walk has to be able to read the account numbers.  One that passes for a
  number and is none makes a range fail, however exact the sums are
  (`not_evaluate_eq_reading`).
-/
import KeyFigures.Proofs.Decimal.Exact
import KeyFigures.Proofs.Evaluation.Recorded
import KeyFigures.Proofs.Evaluation.Unmatched

namespace KeyFigures

open Decimal (Denotes IsRepresentable)

/-! ### Readings -/

/-- The operation on rational numbers. -/
def Operator.exactly : Operator → ℚ → ℚ → ℚ
  | .add => (· + ·)
  | .sub => (· - ·)
  | .mul => (· * ·)
  | .div => (· / ·)

/-- The exact sum of balances. -/
def exactSum (balances : List AccountBalance) : ℚ := (balances.map (·.balance.toRat)).sum

@[simp]
theorem exactSum_append (balances more : List AccountBalance) :
    exactSum (balances ++ more) = exactSum balances + exactSum more := by
  rw [exactSum, List.map_append, List.sum_append]
  rfl

@[simp]
theorem exactSum_singleton (b : AccountBalance) : exactSum [b] = b.balance.toRat :=
  add_zero _

namespace AccountReference

/-- Whether the reference selects the balance. -/
def picks (ref : AccountReference) (b : AccountBalance) : Bool :=
  match ref.selects b.number with
  | .ok isSelected => isSelected
  | .error _ => false

/-- The balances that the reference selects. -/
def picked (balances : List AccountBalance) (ref : AccountReference) : List AccountBalance :=
  balances.filter ref.picks

/-- Every account number can be held against the reference. -/
def CanRead (balances : List AccountBalance) (ref : AccountReference) : Prop :=
  ∀ b ∈ balances, ∃ isSelected, ref.selects b.number = .ok isSelected

/-- Every running sum of the balances that the reference selects is
    representable. -/
def SumsExactly (balances : List AccountBalance) (ref : AccountReference) : Prop :=
  ∀ seen, seen <+: balances → IsRepresentable (exactSum (ref.picked seen))

end AccountReference

namespace Term

/-- A tree of references, finite numbers and operations. -/
def IsArithmetic : Term → Prop
  | .account _ => True
  | .constant value => value.isFinite
  | .binary left _ right => left.IsArithmetic ∧ right.IsArithmetic
  | .grouping inner => inner.IsArithmetic
  | .formula _ | .unsupported .. | .foreign _ => False

/-- The exact value of the tree. -/
def reading (balances : List AccountBalance) : Term → ℚ
  | .account ref => exactSum (ref.picked balances)
  | .constant value => value.toRat
  | .binary left op right => op.exactly (left.reading balances) (right.reading balances)
  | .grouping inner => inner.reading balances
  | .formula _ | .unsupported .. | .foreign _ => 0

/-- Some divisor that is reached has exact value zero. -/
def ReachesZero (balances : List AccountBalance) : Term → Prop
  | .binary left op right =>
    left.ReachesZero balances ∨ right.ReachesZero balances ∨
      op = .div ∧ right.reading balances = 0
  | .grouping inner => inner.ReachesZero balances
  | _ => False

/-- Up to the first zero divisor every running sum of a reference and the exact
    result of every operation are representable. -/
def IsExactOn (balances : List AccountBalance) : Term → Prop
  | .account ref => ref.SumsExactly balances
  | .binary left op right =>
    left.IsExactOn balances ∧
      (¬left.ReachesZero balances → right.IsExactOn balances ∧
        (¬(binary left op right).ReachesZero balances →
          IsRepresentable (op.exactly (left.reading balances) (right.reading balances))))
  | .grouping inner => inner.IsExactOn balances
  | _ => True

end Term

/-! ### Operations -/

namespace Operator

variable {op : Operator} {d d' : Decimal} {x y : ℚ}

/-- An operation with a representable result has one that denotes it. -/
theorem apply_denotes (hd : d.Denotes x) (hd' : d'.Denotes y) (hzero : ¬(op = .div ∧ y = 0))
    (h : IsRepresentable (op.exactly x y)) :
    ∃ s, op.apply d d' = .ok s ∧ s.Denotes (op.exactly x y) := by
  have hcomputed : ∀ {r : Except Decimal.Fault Decimal} {z : ℚ},
      (∃ s, r = .ok s ∧ s.Denotes z) →
        ∃ s, (r.mapError fun fault => Stop.failed (.number fault)) = .ok s ∧ s.Denotes z := by
    rintro r z ⟨s, rfl, hs⟩
    exact ⟨s, rfl, hs⟩
  cases op with
  | add => exact hcomputed (hd.add hd' h)
  | sub => exact hcomputed (hd.sub hd' h)
  | mul => exact hcomputed (hd.mul hd' h)
  | div =>
    have hy : y ≠ 0 := fun hy => hzero ⟨rfl, hy⟩
    unfold apply
    dsimp only
    rw [hd'.equalValue_zero, decide_eq_false hy]
    exact hcomputed (hd.div hd' hy h)

theorem apply_zero (d : Decimal) (hd' : d'.Denotes 0) :
    apply .div d d' = .error .divisionByZero := by
  unfold apply
  dsimp only
  rw [hd'.equalValue_zero]
  rfl

end Operator

/-! ### References -/

namespace AccountReference

variable {ref : AccountReference} {balances more : List AccountBalance}

@[simp]
theorem picked_append (ref : AccountReference) (balances more : List AccountBalance) :
    ref.picked (balances ++ more) = ref.picked balances ++ ref.picked more :=
  List.filter_append ..

theorem picked_singleton {b : AccountBalance} {isSelected : Bool}
    (h : ref.selects b.number = .ok isSelected) :
    ref.picked [b] = if isSelected then [b] else [] := by
  have hpicks : ref.picks b = isSelected := by
    unfold picks
    rw [h]
  rw [picked, List.filter_singleton, hpicks]
  cases isSelected <;> rfl

theorem CanRead.of_append (h : ref.CanRead (balances ++ more)) :
    ref.CanRead balances ∧ ref.CanRead more :=
  List.forall_mem_append.mp h

theorem SumsExactly.of_prefix (h : ref.SumsExactly more) (hseen : balances <+: more) :
    ref.SumsExactly balances :=
  fun seen hprior => h seen (hprior.trans hseen)

/-- Whole balances are summed exactly as long as no running sum has too many
    digits. -/
theorem sumsExactly_of_whole
    (h : ∀ seen ∈ balances.inits, ∃ k : ℤ, exactSum (ref.picked seen) = k ∧ k.natAbs < 10 ^ 28) :
    ref.SumsExactly balances := by
  intro seen hseen
  obtain ⟨k, hk, hdigits⟩ := h seen ((List.mem_inits _ _).mpr hseen)
  rw [hk]
  exact Decimal.isRepresentable_intCast hdigits

theorem resolve_append {b : AccountBalance} {s : Selection} (h : ref.resolve balances = .ok s) :
    ref.resolve (balances ++ [b]) = ref.collect s b := by
  rw [resolve, List.foldlM_append, ← resolve, h]
  exact bind_pure (ref.collect s b)

/-- The sum of a reference denotes the exact sum of what it selects. -/
theorem resolve_denotes (hread : ref.CanRead balances)
    (hfinite : ∀ b ∈ balances, b.balance.isFinite) (hexact : ref.SumsExactly balances) :
    ∃ s, ref.resolve balances = .ok s ∧ s.total.Denotes (exactSum (ref.picked balances)) := by
  induction balances using List.reverseRecOn with
  | nil => exact ⟨.empty, rfl, rfl, Decimal.toRat_zero_coefficient false 0⟩
  | append_singleton seen b ih =>
    obtain ⟨hread, hlast⟩ := hread.of_append
    obtain ⟨hfinite, hb⟩ := List.forall_mem_append.mp hfinite
    obtain ⟨s, hs, htotal⟩ := ih hread hfinite (hexact.of_prefix (List.prefix_append _ _))
    obtain ⟨isSelected, hselects⟩ := hlast b List.mem_cons_self
    have hfits := hexact _ (List.prefix_refl _)
    rw [resolve_append hs, collect, hselects]
    rw [picked_append, picked_singleton hselects, exactSum_append] at hfits ⊢
    cases isSelected with
    | false => exact ⟨s, rfl, by simpa [exactSum] using htotal⟩
    | true =>
      rw [if_pos rfl, exactSum_singleton] at hfits ⊢
      have hbalance := Decimal.denotes_toRat (hb b List.mem_cons_self)
      obtain ⟨sum, hsum, hdenotes⟩ := htotal.add hbalance hfits
      refine ⟨⟨sum, s.count + 1⟩, ?_, hdenotes⟩
      show (Attempt.ofDecimal (s.total.add b.balance) >>= fun total =>
        .ok (⟨total, s.count + 1⟩ : Selection)) = _
      rw [hsum]
      rfl

end AccountReference

/-! ### The walk follows the reading -/

namespace Term

variable {t : Term} {balances : List AccountBalance}

/-- **Where nothing is rounded, a walk follows the reading**: it divides by zero
    if the reading does, and otherwise has a value that denotes it. -/
theorem run_reading (harithmetic : t.IsArithmetic)
    (hfinite : ∀ b ∈ balances, b.balance.isFinite)
    (hread : ∀ ref ∈ t.accountReferences, ref.CanRead balances) (hexact : t.IsExactOn balances)
    (ws : List Warning) :
    (t.ReachesZero balances → ((t.value balances).run ws).1 = .error .divisionByZero) ∧
      (¬t.ReachesZero balances →
        ∃ d, ((t.value balances).run ws).1 = .ok d ∧ d.Denotes (t.reading balances)) := by
  induction t generalizing ws with
  | account ref =>
    obtain ⟨s, hs, htotal⟩ :=
      AccountReference.resolve_denotes (hread ref (by simp)) hfinite hexact
    refine ⟨nofun, fun _ => ⟨s.total, ?_, htotal⟩⟩
    rw [run_account, hs]
  | constant value => exact ⟨nofun, fun _ => ⟨value, rfl, Decimal.denotes_toRat harithmetic⟩⟩
  | grouping inner ih => exact ih harithmetic (by simpa using hread) hexact ws
  | binary left op right ihl ihr =>
    rw [accountReferences_binary] at hread
    obtain ⟨hreadl, hreadr⟩ := List.forall_mem_append.mp hread
    have hleft := ihl harithmetic.1 hreadl hexact.1
    by_cases hzerol : left.ReachesZero balances
    · exact ⟨fun _ => Walk.run_bind_fst_of_error ((hleft ws).1 hzerol),
        fun hzero => absurd (.inl hzerol) hzero⟩
    obtain ⟨hexactr, hresult⟩ := hexact.2 hzerol
    have hright := ihr harithmetic.2 hreadr hexactr
    obtain ⟨x, hx, hdx⟩ := (hleft ws).2 hzerol
    by_cases hzeror : right.ReachesZero balances
    · exact ⟨fun _ => Walk.run_bind_fst_of_ok hx fun ws =>
          Walk.run_bind_fst_of_error ((hright ws).1 hzeror),
        fun hzero => absurd (.inr (.inl hzeror)) hzero⟩
    -- The value of a part does not depend on the warnings that it finds.
    obtain ⟨y, hy, hdy⟩ := (hright []).2 hzeror
    have hrun : ∀ {outcome : Except Stop Decimal}, op.apply x y = outcome →
        (((binary left op right).value balances).run ws).1 = outcome := by
      intro outcome happly
      refine Walk.run_bind_fst_of_ok hx fun ws => ?_
      exact Walk.run_bind_fst_of_ok ((right.run_fst balances ws).trans hy) fun _ => happly
    by_cases hdivisor : op = .div ∧ right.reading balances = 0
    · obtain ⟨rfl, hreading⟩ := hdivisor
      rw [hreading] at hdy
      exact ⟨fun _ => hrun (Operator.apply_zero x hdy),
        fun hzero => absurd (.inr (.inr ⟨rfl, hreading⟩)) hzero⟩
    · have hzero : ¬(binary left op right).ReachesZero balances := by
        rintro (h | h | h)
        · exact hzerol h
        · exact hzeror h
        · exact hdivisor h
      obtain ⟨d, happly, hd⟩ := Operator.apply_denotes hdx hdy hdivisor (hresult hzero)
      exact ⟨fun h => absurd h hzero, fun _ => ⟨d, hrun happly, hd⟩⟩
  | formula id => exact harithmetic.elim
  | unsupported => exact harithmetic.elim
  | foreign => exact harithmetic.elim

/-- What the tree comes to is what its walk comes to. -/
theorem result_of_run_ok (kind : ResultKind) {d : Decimal}
    (h : ((t.value balances).run []).1 = .ok d) :
    ∃ warnings, t.result balances kind = .ok ⟨.value d, kind, warnings⟩ := by
  unfold result
  revert h
  rcases (t.value balances).run [] with ⟨stop | d', warnings⟩ <;> intro h
  · cases h
  · obtain rfl := Except.ok.inj h
    exact ⟨warnings, rfl⟩

theorem result_of_run_divisionByZero (kind : ResultKind)
    (h : ((t.value balances).run []).1 = .error .divisionByZero) :
    ∃ warnings, t.result balances kind = .ok ⟨.invalid .divisionByZero, kind, warnings⟩ := by
  unfold result
  revert h
  rcases (t.value balances).run [] with ⟨stop | d', warnings⟩ <;> intro h
  · obtain rfl := Except.error.inj h
    exact ⟨warnings, rfl⟩
  · cases h

end Term

/-! ### Evaluations -/

/-- **Evaluation is exact whenever it can be.**  Where every number on the way is
    representable, an evaluation reports a division by zero exactly if some
    divisor that it reaches has exact value zero, and otherwise its value denotes
    the exact one. -/
theorem evaluate_eq_reading {t : Term} {balances : List AccountBalance} {kind : ResultKind}
    {j : Log.Journal} (harithmetic : t.IsArithmetic)
    (hfinite : ∀ b ∈ balances, b.balance.isFinite)
    (hread : ∀ ref ∈ t.accountReferences, ref.CanRead balances) (hexact : t.IsExactOn balances)
    (hj : j.IsQuiet ∨ t.IsTraceable kind) :
    ∃ r, ((evaluate t balances kind).play j).1 = .ok r ∧ r.kind = kind ∧
      (r.error? = some .divisionByZero ↔ t.ReachesZero balances) ∧
      (¬t.ReachesZero balances → r.isValid = true ∧
        ∃ d, r.value? = some d ∧ d.Denotes (t.reading balances)) := by
  have hplay : ((evaluate t balances kind).play j).1 = t.result balances kind :=
    fst_play_evaluate_of_traceable hj
  obtain ⟨hdivides, hvalue⟩ := t.run_reading harithmetic hfinite hread hexact []
  rw [hplay]
  by_cases hzero : t.ReachesZero balances
  · obtain ⟨warnings, hr⟩ := Term.result_of_run_divisionByZero kind (hdivides hzero)
    exact ⟨_, hr, rfl, ⟨fun _ => hzero, fun _ => rfl⟩, fun h => absurd hzero h⟩
  · obtain ⟨d, hrun, hd⟩ := hvalue hzero
    obtain ⟨warnings, hr⟩ := Term.result_of_run_ok kind hrun
    exact ⟨_, hr, rfl, ⟨nofun, fun h => absurd h hzero⟩, fun _ => ⟨rfl, d, rfl, hd⟩⟩

/-- A share of accounts of which one is booked with the other sign. -/
def bookedShare : Term :=
  .binary (.account (.starting (.text "3"))) .div (.account (.starting (.text "8")))

def bookedBalances : List AccountBalance :=
  [⟨"30", .finite false 13 0⟩, ⟨"31", .finite true 3 0⟩, ⟨"80", .finite false 4 0⟩]

/-- Thirteen less three is four times two and a half. -/
theorem evaluate_eq_reading_bookedShare :
    ∃ r, ((evaluate bookedShare bookedBalances .ratio).play {}).1 = .ok r ∧ r.isValid = true ∧
      ∃ d, r.value? = some d ∧ d.Denotes (5 / 2) := by
  have hthree : bookedBalances.map (AccountReference.picks (.starting (.text "3"))) =
      [true, true, false] := by decide
  have height : bookedBalances.map (AccountReference.picks (.starting (.text "8"))) =
      [false, false, true] := by decide
  simp only [bookedBalances, List.map_cons, List.map_nil, List.cons.injEq, and_true] at hthree height
  obtain ⟨h₁, h₂, h₃⟩ := hthree
  obtain ⟨h₄, h₅, h₆⟩ := height
  have hfirst : exactSum (AccountReference.picked bookedBalances (.starting (.text "3"))) = 10 := by
    norm_num [bookedBalances, AccountReference.picked, h₁, h₂, h₃, exactSum, Decimal.toRat_finite]
  have hsecond : exactSum (AccountReference.picked bookedBalances (.starting (.text "8"))) = 4 := by
    norm_num [bookedBalances, AccountReference.picked, h₄, h₅, h₆, exactSum, Decimal.toRat_finite]
  have hreading : bookedShare.reading bookedBalances = 5 / 2 := by
    simp only [bookedShare, Term.reading, Operator.exactly, hfirst, hsecond]
    norm_num
  have hzero : ¬bookedShare.ReachesZero bookedBalances := by
    simp [bookedShare, Term.ReachesZero, Term.reading, hsecond]
  have hhalf : IsRepresentable (5 / 2) :=
    ⟨false, 25, -1, by simp [Decimal.digitCount, Decimal.precision], by decide,
      by simp [Decimal.adjusted, Decimal.digitCount, Decimal.maxAdjusted],
      by norm_num [Decimal.toRat_finite]⟩
  have hexact : bookedShare.IsExactOn bookedBalances := by
    refine ⟨AccountReference.sumsExactly_of_whole ?_, fun _ =>
      ⟨AccountReference.sumsExactly_of_whole ?_, fun _ => ?_⟩⟩
    · norm_num [bookedBalances, AccountReference.picked, h₁, h₂, h₃, exactSum, Decimal.toRat_finite]
      exact ⟨⟨0, by norm_num⟩, ⟨13, by norm_num⟩, ⟨10, by norm_num⟩⟩
    · norm_num [bookedBalances, AccountReference.picked, h₄, h₅, h₆, exactSum, Decimal.toRat_finite]
      exact ⟨⟨0, by norm_num⟩, ⟨4, by norm_num⟩⟩
    · exact (congrArg IsRepresentable hreading).mpr hhalf
  have hread : ∀ ref ∈ bookedShare.accountReferences, ref.CanRead bookedBalances := by
    simp only [bookedShare, Term.accountReferences_binary, Term.accountReferences_account]
    rintro ref href b -
    rcases List.mem_pair.mp href with rfl | rfl <;> exact ⟨_, rfl⟩
  obtain ⟨r, hr, -, -, hvalue⟩ := @evaluate_eq_reading bookedShare bookedBalances .ratio {}
    ⟨trivial, trivial⟩ (by simp [bookedBalances, Decimal.isFinite]) hread hexact (.inl rfl)
  obtain ⟨hvalid, d, hd, hdenotes⟩ := hvalue hzero
  rw [hreading] at hdenotes
  exact ⟨r, hr, hvalid, d, hd, hdenotes⟩

/-- The accounts from one to five. -/
def lowAccounts : Term := .account (.between (.text "1") (.text "5"))

/-- A ledger with an account number that passes for a number and is none. -/
def oddBalances : List AccountBalance := [⟨"3", .finite false 7 0⟩, ⟨"²", .finite false 100 0⟩]

/-- **An account number that passes for a number and is none breaks a range**,
    though every sum is exact. -/
theorem not_evaluate_eq_reading :
    lowAccounts.IsArithmetic ∧ (∀ b ∈ oddBalances, b.balance.isFinite) ∧
      lowAccounts.IsExactOn oddBalances ∧ ¬lowAccounts.ReachesZero oddBalances ∧
      ∀ r, ((evaluate lowAccounts oddBalances .amount).play {}).1 ≠ .ok r := by
  have hexact : lowAccounts.IsExactOn oddBalances := by
    have hthree : AccountReference.picks (.between (.text "1") (.text "5"))
        ⟨"3", .finite false 7 0⟩ = true := by decide +kernel
    have hodd : AccountReference.picks (.between (.text "1") (.text "5"))
        ⟨"²", .finite false 100 0⟩ = false := by decide +kernel
    apply AccountReference.sumsExactly_of_whole
    simp [oddBalances, AccountReference.picked, hthree, hodd, exactSum, Decimal.toRat_finite]
    exact ⟨⟨0, by norm_num⟩, ⟨7, by norm_num⟩⟩
  have hfails : ((evaluate lowAccounts oddBalances .amount).play {}).1.toOption = none := by
    decide +kernel
  refine ⟨trivial, by simp [oddBalances, Decimal.isFinite], hexact, nofun, fun r h => ?_⟩
  rw [h] at hfails
  cases hfails

end KeyFigures
