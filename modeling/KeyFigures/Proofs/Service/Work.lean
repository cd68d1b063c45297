/-
  KeyFigures/Proofs/Service/Work.lean
  ===================================
  **The recorded work of the service.**

  What the service records never decides what it answers: fetching a ledger,
  evaluating a formula on it and putting the results of parts together are
  steady, and the messages in between leave the setup of the journal alone.
  All of it is composed of attempts and messages, so none looks at what was
  recorded before.
-/
import KeyFigures.Proofs.Evaluation.Recorded
import KeyFigures.Proofs.Log.Carried
import KeyFigures.Proofs.Service.Meaning
import KeyFigures.Service.Run

namespace KeyFigures

open Log (Recorded)
open Log.Recorded (Composed Steady fst_play_bind fst_play_event play_attempt)

/-- Messages with these fields are recorded before work that is steady. -/
theorem Log.Recorded.Steady.afterEvent {α : Type} {level : Log.Level} {logger message : String}
    {extra : List (String × Value)} {next : Unit → Recorded α} {r : Attempt α}
    (names : List String) (hnext : Steady (next ()) r) (hnames : extra.map Prod.fst = names)
    (h : ∀ name ∈ names, (Log.refusedFields ++ Log.reservedFields).contains name = false) :
    Steady (Log.event level logger message extra >>= next) r :=
  .after (.event level logger message names hnames h) (fun _ => hnext.keepsSetup) hnext

/-! ### Fetching -/

namespace Database

theorem steady_readLedger (rows : List BalanceRow) (mappings : List AccountMapping) (k : LedgerKey)
    (standardMapping : Value) :
    Steady (readLedger rows mappings k standardMapping)
      (k.selector >>= fun selector =>
        ledgerOf mappings k (selectedRows rows selector) standardMapping.isTruthy >>= .ok) := by
  refine .bind (.attempt _) fun selector => .bind (.attempt _) fun ledger => ?_
  have hbuilt : Steady (do
      Log.event Log.debug ledgerLogger "ledger_snapshot_built"
        [("client_id", k.client), ("fiscal_year", k.year), ("version", k.version),
          ("row_count", .int (selectedRows rows selector).length),
          ("balance_count", .int ledger.balances.length), ("standard_mapping", standardMapping)]
      return ledger) (.ok ledger) :=
    .afterEvent ["client_id", "fiscal_year", "version", "row_count", "balance_count",
      "standard_mapping"] (.pure ledger) rfl (by decide)
  dsimp only
  split
  · exact .afterEvent ["client_id", "skipped"] hbuilt rfl (by decide)
  · exact hbuilt

theorem steady_fetch (db : Database) (k : LedgerKey) (standardMapping : Value) :
    ∃ r, Steady (db.fetch k standardMapping) r := by
  refine ⟨(db.tables >>= fun t => _) >>= .ok, .bind (.bind (.attempt _) fun t =>
    steady_readLedger t.balances t.mappings k standardMapping) fun ledger => ?_⟩
  exact .afterEvent ["entity_id", "fiscal_year", "balance_count"] (.pure ledger) rfl (by decide)

end Database

namespace LedgerSource

/-- What a source answers to a question for a ledger. -/
def answer (source : LedgerSource) (entity year version : Value) : Attempt Ledger :=
  ((source.fetch entity year version).play {}).1

theorem steady_fetch (source : LedgerSource) (entity year version : Value) :
    Steady (source.fetch entity year version) (source.answer entity year version) := by
  have hsome : ∃ r, Steady (source.fetch entity year version) r := by
    cases source with
    | memory ledgers =>
      unfold fetch
      dsimp only
      split
      · exact ⟨_, .pure _⟩
      · exact ⟨_, .throw _⟩
    | database db standardMapping => exact db.steady_fetch _ standardMapping
  obtain ⟨r, hr⟩ := hsome
  obtain rfl : source.answer entity year version = r := hr.play_eq {} rfl
  exact hr

end LedgerSource

/-! ### Evaluating -/

theorem composed_noteResult (r : Result) : Composed (noteResult r) := by
  unfold noteResult
  split
  · split
    · exact .event _ _ _ _
    · exact .pure ()
  · exact .event _ _ _ _

theorem composed_evaluate (t : Term) (balances : List AccountBalance) (kind : ResultKind) :
    Composed (evaluate t balances kind) := by
  refine .bind (.isEnabled _) fun isTraced => ?_
  split
  · exact .bind (.attempt _) fun _ => .bind (.attempt _) fun r =>
      .bind (composed_noteResult r) fun _ => .bind (.event _ _ _ _) fun _ => .pure _
  · exact .bind (.attempt _) fun r => .bind (composed_noteResult r) fun _ => .pure _

theorem steady_evaluate (t : Term) (balances : List AccountBalance) (kind : ResultKind) :
    Steady (evaluate t balances kind) (t.result balances kind) :=
  ⟨(composed_evaluate t balances kind).keepsSetup,
    fun _ hj => fst_play_evaluate_of_traceable (.inl hj)⟩

/-- What a formula comes to on a ledger. -/
theorem steady_evaluation (c : Computation) (ledger : Ledger) :
    Steady (Service.evaluation c ledger)
      (c.formula.tree.result ledger.balances c.formula.kind) := by
  have hnote : ∀ r : Result, Steady (do
      Log.event Log.debug "services.calculation" "evaluation_computed"
        [("is_valid", .bool r.isValid), ("warning_count", .int r.warnings.length)]
      return r) (.ok r) :=
    fun r => .afterEvent ["is_valid", "warning_count"] (.pure r) rfl (by decide)
  have hbind := (steady_evaluate c.formula.tree ledger.balances c.formula.kind).bind hnote
  cases hr : c.formula.tree.result ledger.balances c.formula.kind with
  | error f => rwa [hr] at hbind
  | ok r => rwa [hr] at hbind

/-! ### Answering -/

namespace Aggregate

variable (kind : ResultKind) (entities : List Value) (results : List Result)

theorem composed_noteExcluded : Composed (noteExcluded entities results) := by
  unfold noteExcluded
  dsimp only
  split
  · exact .event _ _ _ _
  · exact .pure ()

theorem fst_play_noteExcluded (j : Log.Journal) :
    ((noteExcluded entities results).play j).1 = .ok () := by
  unfold noteExcluded
  dsimp only
  split
  · exact fst_play_event _ _ _ ["excluded", "contributors"] rfl (by decide) j
  · rfl

theorem composed_summedRecorded : Composed (summedRecorded kind entities results) :=
  .bind (.attempt _) fun _ => .bind (composed_noteExcluded entities results) fun _ => .pure _

/-- Noting who is left out does not change the sum. -/
theorem fst_play_summedRecorded (j : Log.Journal) :
    ((summedRecorded kind entities results).play j).1 = summed kind results := by
  unfold summedRecorded
  rw [fst_play_bind, play_attempt]
  cases summed kind results with
  | error f => rfl
  | ok r =>
    show ((noteExcluded entities results >>= fun _ => pure r).play j).1 = _
    rw [fst_play_bind, fst_play_noteExcluded]
    rfl

theorem steady_summedRecorded :
    Steady (summedRecorded kind entities results) (summed kind results) :=
  ⟨(composed_summedRecorded kind entities results).keepsSetup,
    fun j _ => fst_play_summedRecorded kind entities results j⟩

end Aggregate

/-- The response of a task is put together from the results of its parts. -/
theorem Task.steady_respond (t : Task) :
    Steady t.respond (t.job.combine t.formula.kind t.ordered) := by
  unfold respond
  split
  · rename_i heq
    rw [heq]
    exact .pure _
  · rename_i entities year heq
    rw [heq]
    have hsum := (Aggregate.steady_summedRecorded t.formula.kind (Value.distinct entities)
      t.ordered).bind fun r => Steady.pure (Response.figure r)
    unfold Job.combine
    cases hr : Aggregate.summed t.formula.kind t.ordered with
    | error f => rwa [hr] at hsum
    | ok r => rwa [hr] at hsum
  · rename_i entities first last heq
    rw [heq]
    exact .pure _

/-! ### How work is composed -/

theorem Call.composed_note (c : Call) (key : String) : Composed (c.note key) := by
  unfold note
  split
  · exact .event _ _ _ _
  · exact .pure ()

theorem Cache.Lookup.composed_note (l : Cache.Lookup) (key : CacheKey) :
    Composed (l.note key) := by
  cases l with
  | joined n => exact .event _ _ _ _
  | hit r => exact .pure ()
  | started n => exact .pure ()

theorem Cache.Landing.composed_note (l : Cache.Landing) (key : CacheKey) :
    Composed (l.note key) := by
  cases l with
  | stored evicted => exact .forM fun e => .event _ _ _ _
  | stale => exact .event _ _ _ _
  | failed => exact .pure ()

theorem Cache.composed_noteInvalidated (entity year : Value) (count : Nat) :
    Composed (noteInvalidated entity year count) := by
  unfold noteInvalidated
  split
  · exact .event _ _ _ _
  · exact .pure ()

theorem Database.composed_readLedger (rows : List BalanceRow) (mappings : List AccountMapping)
    (k : LedgerKey) (standardMapping : Value) :
    Composed (readLedger rows mappings k standardMapping) := by
  refine .bind (.attempt _) fun selector => .bind (.attempt _) fun ledger => ?_
  dsimp only
  split
  · exact .bind (.event _ _ _ _) fun _ => .bind (.event _ _ _ _) fun _ => .pure _
  · exact .bind (.event _ _ _ _) fun _ => .pure _

theorem LedgerSource.composed_fetch (source : LedgerSource) (entity year version : Value) :
    Composed (source.fetch entity year version) := by
  cases source with
  | memory ledgers =>
    unfold fetch
    dsimp only
    split
    · exact .pure _
    · exact .throw _
  | database db standardMapping =>
    exact .bind (.bind (.attempt _) fun t => Database.composed_readLedger _ _ _ _) fun _ =>
      .bind (.event _ _ _ _) fun _ => .pure _

/-- Notes that a computation has come to a result, and returns that. -/
def noteComputed (r : Result) : Recorded Result := do
  Log.event Log.debug "services.calculation" "evaluation_computed"
    [("is_valid", .bool r.isValid), ("warning_count", .int r.warnings.length)]
  return r

theorem composed_noteComputed (r : Result) : Composed (noteComputed r) :=
  .bind (.event _ _ _ _) fun _ => .pure r

theorem evaluation_eq (c : Computation) (ledger : Ledger) :
    Service.evaluation c ledger =
      evaluate c.formula.tree ledger.balances c.formula.kind >>= noteComputed := rfl

theorem composed_evaluation (c : Computation) (ledger : Ledger) :
    Composed (Service.evaluation c ledger) :=
  .bind (composed_evaluate _ _ _) composed_noteComputed

/-- The work of a computation: it fetches its ledger and evaluates its formula. -/
def Computation.work (c : Computation) (source : LedgerSource) : Recorded Result := do
  let ledger ← source.fetch c.entity c.year c.version
  Service.evaluation c ledger

theorem Computation.composed_work (c : Computation) (source : LedgerSource) :
    Composed (c.work source) :=
  .bind (source.composed_fetch c.entity c.year c.version) (composed_evaluation c)

theorem Computation.steady_work (c : Computation) (source : LedgerSource) :
    Steady (c.work source) (c.formula.outcome source.answer c.entity c.year c.version) := by
  have hbind := (source.steady_fetch c.entity c.year c.version).bind (steady_evaluation c)
  unfold Compiled.outcome
  cases hr : source.answer c.entity c.year c.version with
  | error f => rwa [hr] at hbind
  | ok ledger => rwa [hr] at hbind

theorem Task.composed_respond (t : Task) : Composed t.respond := by
  unfold respond
  split
  · exact .pure _
  · exact .bind (Aggregate.composed_summedRecorded _ _ _) fun _ => .pure _
  · exact .pure _

theorem Registry.composed_saveRecorded (r : Registry) (d : Definition) :
    Composed (r.saveRecorded d) := by
  refine .bind (.attempt _) fun store => .bind (.bind (.attempt _) ?_) fun (store, d) =>
    .bind (.event _ _ _ _) fun _ => .pure _
  rintro ⟨saved, d⟩
  cases saved with
  | memory rows => exact .bind (.pure ()) fun _ => .pure _
  | stored db => exact .bind (.event _ _ _ _) fun _ => .pure _

end KeyFigures
