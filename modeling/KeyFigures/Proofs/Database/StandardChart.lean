/-
  KeyFigures/Proofs/Database/StandardChart.lean
  =============================================
  **Ledgers that are read from rows.**

  A ledger is read from the rows of a client and a year, and possibly of one
  version (`IsSelected`).  It is missing exactly if there is no such row; by the
  numbers of the standard chart it is the view of these rows, and reading it
  fails only if the sum of some number cannot be formed (`IsAnswer`).  What is
  recorded on the way never decides what is read.

  The range of the number columns shows through: a year of more than sixty-four
  bits cannot even be asked for.
-/
import KeyFigures.Proofs.Database.StandardView
import KeyFigures.Proofs.Log.Steady

namespace KeyFigures.Database

open Decimal (total AddsUp IsTotal Agrees)
open Log (Journal)
open Log.Recorded (fst_play_bind fst_play_event play_attempt)

/-! ### Rows that are asked for -/

/-- What asks for the ledger of a client and a year, and possibly of one
    version. -/
def LedgerKey.of (client : String) (year : Int) (version : Option String) : LedgerKey :=
  ⟨.text client, .int year, (version.map .text).getD .null⟩

/-- The row belongs to the client, the year and, if one is asked for, the
    version. -/
def IsSelected (client : String) (year : Int) (version : Option String) (r : BalanceRow) : Prop :=
  r.client = client ∧ r.year.same (.int year) = true ∧ (version = none ∨ r.version = version)

instance (client : String) (year : Int) (version : Option String) :
    DecidablePred (IsSelected client year version) :=
  fun _ => inferInstanceAs (Decidable (_ ∧ _ ∧ _))

/-- The rows that are asked for, in the order of the account numbers. -/
def selection (rows : List BalanceRow) (client : String) (year : Int) (version : Option String) :
    List BalanceRow :=
  (rows.filter fun r => IsSelected client year version r).mergeSort
    fun a b => decide (a.account ≤ b.account)

section Selection

variable {client : String} {year : Int} {version : Option String} {rows : List BalanceRow}

theorem mem_selection {r : BalanceRow} :
    r ∈ selection rows client year version ↔ r ∈ rows ∧ IsSelected client year version r := by
  simp [selection]

theorem selection_eq_nil_iff :
    selection rows client year version = [] ↔ ∀ r ∈ rows, ¬ IsSelected client year version r := by
  simp only [List.eq_nil_iff_forall_not_mem, mem_selection, not_and]

/-- Years of more than sixty-four bits cannot be asked for. -/
theorem selector_of (client : String) (year : Int) (version : Option String) :
    (LedgerKey.of client year version).selector =
      if isStorable year then
        .ok ⟨some client, .int year, (version.map fun v => .only (some v)).getD .all⟩
      else .error (.range .column) := by
  have hyear : numberCell (.int year) =
      if isStorable year then .ok (.int year) else .error (.range .column) := by
    unfold numberCell bound
    simp only [Value.index?]
    split <;> rfl
  have hselector : (LedgerKey.of client year version).selector =
      numberCell (.int year) >>= fun year =>
        .ok ⟨some client, year, (version.map fun v => .only (some v)).getD .all⟩ := by
    cases version <;> rfl
  rw [hselector, hyear]
  split <;> rfl

theorem selectedRows_of (rows : List BalanceRow) :
    selectedRows rows ⟨some client, .int year, (version.map fun v => .only (some v)).getD .all⟩ =
      selection rows client year version := by
  unfold selectedRows selection
  congr 1
  refine List.filter_congr fun r _ => ?_
  rw [Bool.eq_iff_iff, decide_eq_true_eq]
  cases version <;> simp [Selector.selects, IsSelected, VersionFilter.passes, and_assoc]

end Selection

/-! ### What is read -/

/-- A ledger of some rows is missing nothing: only its sums can fail. -/
theorem ledgerOf_of_ne_nil {mappings : List AccountMapping} {selected : List BalanceRow}
    (k : LedgerKey) (h : selected ≠ []) (byNumber : Bool) :
    ledgerOf mappings k selected byNumber =
      (balancesOf mappings selected byNumber).map fun balances =>
        ⟨k.client, k.year, k.version, balances⟩ := by
  obtain ⟨r, rest, rfl⟩ := List.exists_cons_of_ne_nil h
  show (balancesOf mappings (r :: rest) byNumber >>= fun balances =>
    .ok (⟨k.client, k.year, k.version, balances⟩ : Ledger)) = _
  cases balancesOf mappings (r :: rest) byNumber <;> rfl

/-- A ledger is read alike in every journal: recording it cannot fail. -/
theorem fst_play_readLedger (rows : List BalanceRow) (mappings : List AccountMapping)
    (k : LedgerKey) (standardMapping : Value) (j : Journal) :
    ((readLedger rows mappings k standardMapping).play j).1 =
      k.selector >>= fun selector =>
        ledgerOf mappings k (selectedRows rows selector) standardMapping.isTruthy := by
  unfold readLedger
  rw [fst_play_bind, play_attempt]
  cases k.selector with
  | error f => rfl
  | ok selector =>
    show ((Log.Recorded.attempt _ >>= _).play j).1 = ledgerOf _ _ _ _
    rw [fst_play_bind, play_attempt]
    cases ledgerOf mappings k (selectedRows rows selector) standardMapping.isTruthy with
    | error f => rfl
    | ok ledger =>
      have hbuilt : ∀ j : Journal, ((do
          Log.event Log.debug ledgerLogger "ledger_snapshot_built"
            [("client_id", k.client), ("fiscal_year", k.year), ("version", k.version),
              ("row_count", .int (selectedRows rows selector).length),
              ("balance_count", .int ledger.balances.length),
              ("standard_mapping", standardMapping)]
          return ledger : Log.Recorded Ledger).play j).1 = .ok ledger := by
        intro j
        rw [fst_play_bind, fst_play_event _ _ _
          ["client_id", "fiscal_year", "version", "row_count", "balance_count", "standard_mapping"]
          rfl (by decide)]
        rfl
      show ((ite _ _ _ : Log.Recorded Ledger).play j).1 = .ok ledger
      split
      · rw [fst_play_bind, fst_play_event _ _ _ ["client_id", "skipped"] rfl (by decide)]
        exact hbuilt _
      · exact hbuilt _

/-- Mappings of other clients have no effect, neither on what is read nor on what
    is recorded. -/
theorem readLedger_ownMappings (rows : List BalanceRow) (mappings : List AccountMapping)
    (client : String) (year : Int) (version : Option String) (standardMapping : Value) :
    readLedger rows (ownMappings mappings client) (.of client year version) standardMapping =
      readLedger rows mappings (.of client year version) standardMapping := by
  have hnumber : ∀ r ∈ selection rows client year version,
      standardNumber? (ownMappings mappings client) r = standardNumber? mappings r := by
    intro r hr
    obtain ⟨-, rfl, -⟩ := mem_selection.mp hr
    exact standardNumber?_ownMappings mappings r
  have hsums : sumsByNumber (ownMappings mappings client) (selection rows client year version) =
      sumsByNumber mappings (selection rows client year version) := by
    rw [sumsByNumber_eq, sumsByNumber_eq]
    congr 2
    exact List.filterMap_congr fun r hr => by rw [hnumber r hr]
  have hcount : unmappedCount (ownMappings mappings client) (selection rows client year version) =
      unmappedCount mappings (selection rows client year version) := by
    unfold unmappedCount
    congr 1
    exact List.filter_congr fun r hr => by rw [hnumber r hr]
  have hledger : ∀ k byNumber,
      ledgerOf (ownMappings mappings client) k (selection rows client year version) byNumber =
        ledgerOf mappings k (selection rows client year version) byNumber := by
    intro k byNumber
    have hbalances : balancesOf (ownMappings mappings client) (selection rows client year version)
        byNumber = balancesOf mappings (selection rows client year version) byNumber := by
      unfold balancesOf
      rw [hsums]
    unfold ledgerOf
    split
    · rfl
    · rw [hbalances]
  unfold readLedger
  rw [selector_of]
  split
  · have hfound : ∀ (s : Selector) (next : Selector → Log.Recorded Ledger),
        Log.Recorded.attempt (.ok s) >>= next = next s := fun _ _ => rfl
    simp only [hfound, selectedRows_of, hledger, hcount]
  · rfl

/-- What a question for a ledger is answered with, by standard number or not.  A
    ledger is missing exactly if no row is asked for; one by standard number is
    the view of the rows asked for, unless the sum of some number cannot be
    formed. -/
structure IsAnswer (mappings : List AccountMapping) (rows : List BalanceRow) (client : String)
    (year : Int) (version : Option String) (byNumber : Bool) (answer : Attempt Ledger) : Prop where
  missing_iff : answer = .error (.missingLedger (.text client) (.int year)
    ((version.map .text).getD .null)) ↔ ∀ r ∈ rows, ¬ IsSelected client year version r
  missing : ∀ f, answer = .error f → f.isMissingLedger = true →
    ∀ r ∈ rows, ¬ IsSelected client year version r
  byAccount : byNumber = false → (∃ r ∈ rows, IsSelected client year version r) →
    answer = .ok ⟨.text client, .int year, (version.map .text).getD .null,
      (selection rows client year version).map fun r => ⟨r.account, r.balance⟩⟩
  byStandard : byNumber = true → (∃ r ∈ rows, IsSelected client year version r) →
    (∃ balances, answer = .ok ⟨.text client, .int year, (version.map .text).getD .null, balances⟩ ∧
      IsStandardView mappings (selection rows client year version) balances) ∨
    ∃ number fault, answer = .error (.number fault) ∧
      total (amountsFor mappings (selection rows client year version) number) = .error fault

theorem isAnswer {mappings : List AccountMapping} (hunique : AreUnique mappings)
    (rows : List BalanceRow) (client : String) {year : Int} (version : Option String)
    (hyear : isStorable year = true) (standardMapping : Value) (j : Journal) :
    IsAnswer mappings rows client year version standardMapping.isTruthy
      ((readLedger rows mappings (.of client year version) standardMapping).play j).1 := by
  rw [fst_play_readLedger, selector_of, if_pos hyear]
  show IsAnswer _ _ _ _ _ _ (ledgerOf _ _ (selectedRows _ _) _)
  rw [selectedRows_of]
  by_cases hnone : selection rows client year version = []
  · have hnot := selection_eq_nil_iff.mp hnone
    have hsome : ¬ ∃ r ∈ rows, IsSelected client year version r := fun ⟨r, hr, h⟩ => hnot r hr h
    rw [hnone]
    exact ⟨⟨fun _ => hnot, fun _ => rfl⟩, fun _ _ _ => hnot, fun _ h => absurd h hsome,
      fun _ h => absurd h hsome⟩
  · have hsome := selection_eq_nil_iff.not.mp hnone
    rw [ledgerOf_of_ne_nil _ hnone]
    cases hstandard : standardMapping.isTruthy with
    | false =>
      refine ⟨⟨nofun, fun h => absurd h hsome⟩, nofun, fun _ _ => rfl, nofun⟩
    | true =>
      show IsAnswer _ _ _ _ _ _ ((sumsByNumber mappings (selection rows client year version)).map _)
      rcases sumsByNumber_cases hunique (selection rows client year version) with
        ⟨balances, hbalances, hview⟩ | ⟨number, fault, hfails, hfault⟩
      · rw [hbalances]
        exact ⟨⟨nofun, fun h => absurd h hsome⟩, nofun, nofun,
          fun _ _ => .inl ⟨balances, rfl, hview⟩⟩
      · rw [hfails]
        refine ⟨⟨nofun, fun h => absurd h hsome⟩, ?_, nofun,
          fun _ _ => .inr ⟨number, fault, rfl, hfault⟩⟩
        rintro _ ⟨⟩ hmissing
        cases hmissing

/-- Three accounts of one version, two of them mapped to one number and one not
    mapped, and a row of another version. -/
def sampleRows : List BalanceRow := [
  ⟨"acme", .int 2024, some "v1", "1500", .ofNat 100⟩,
  ⟨"acme", .int 2024, some "v2", "1500", .ofNat 120⟩,
  ⟨"acme", .int 2024, some "v1", "1510", .ofNat 50⟩,
  ⟨"acme", .int 2024, some "v1", "1920", .ofNat 250⟩]

def sampleMappings : List AccountMapping := [⟨"acme", "1500", "15"⟩, ⟨"acme", "1510", "15"⟩]

theorem selection_sampleRows : selection sampleRows "acme" 2024 (some "v1") = [
    ⟨"acme", .int 2024, some "v1", "1500", .ofNat 100⟩,
    ⟨"acme", .int 2024, some "v1", "1510", .ofNat 50⟩,
    ⟨"acme", .int 2024, some "v1", "1920", .ofNat 250⟩] := by
  have hselected : (sampleRows.filter fun r => IsSelected "acme" 2024 (some "v1") r) = [
      ⟨"acme", .int 2024, some "v1", "1500", .ofNat 100⟩,
      ⟨"acme", .int 2024, some "v1", "1510", .ofNat 50⟩,
      ⟨"acme", .int 2024, some "v1", "1920", .ofNat 250⟩] := by
    simp [sampleRows, IsSelected]
  rw [selection, hselected, List.mergeSort_of_pairwise (by decide)]

theorem amountsFor_sampleRows (number : String) :
    amountsFor sampleMappings (selection sampleRows "acme" 2024 (some "v1")) number =
      if number = "15" then [.ofNat 100, .ofNat 50] else [] := by
  rw [selection_sampleRows]
  by_cases h : number = "15"
  · simp [amountsFor, IsMappedTo, sampleMappings, h]
  · simp [amountsFor, IsMappedTo, sampleMappings, h, Ne.symm h]

theorem readLedger_sampleRows :
    ((readLedger sampleRows sampleMappings (.of "acme" 2024 (some "v1")) (.bool true)).play {}).1 =
      .ok ⟨.text "acme", .int 2024, .text "v1", [⟨"15", .ofNat 150⟩]⟩ := by
  have htally : tally (entriesOf sampleMappings (selection sampleRows "acme" 2024 (some "v1"))) =
      .ok [⟨"15", .ofNat 150⟩] := by
    rw [selection_sampleRows]
    decide +kernel
  have hsums : sumsByNumber sampleMappings (selection sampleRows "acme" 2024 (some "v1")) =
      .ok [⟨"15", .ofNat 150⟩] := by
    rw [sumsByNumber_eq, htally, Except.map, List.mergeSort_singleton]
  rw [fst_play_readLedger, selector_of, if_pos (by decide)]
  show ledgerOf _ _ (selectedRows _ _) true = _
  rw [selectedRows_of, ledgerOf_of_ne_nil _ (by simp [selection_sampleRows]), balancesOf,
    if_pos rfl, hsums]
  rfl

/-- Two accounts with infinite balances of opposite signs, mapped to one number. -/
def oppositeRows : List BalanceRow := [
  ⟨"c", .int 1, none, "1", .infinite false⟩, ⟨"c", .int 1, none, "2", .infinite true⟩]

def oppositeMappings : List AccountMapping := [⟨"c", "1", "A"⟩, ⟨"c", "2", "A"⟩]

end KeyFigures.Database
