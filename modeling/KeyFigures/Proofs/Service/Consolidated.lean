/-
  KeyFigures/Proofs/Service/Consolidated.lean
  ===========================================
  **A group of entities and their consolidated ledger.**

  Where nothing is rounded, the results of an additive formula for the entities
  of a group sum up to what the formula comes to on all their ledgers in one, and
  what is warned of there is warned of by every entity
  (`Compiled.sum_eq_consolidated`).

  As in a single evaluation the account numbers have to be readable.  One that
  passes for a number and is none breaks the sum of a whole group
  (`Compiled.not_sum_eq_consolidated`).
-/
import KeyFigures.Proofs.Evaluation.Additive
import KeyFigures.Proofs.Service.Group

namespace KeyFigures

open Decimal (Denotes IsRepresentable)

/-! ### Sums of decimals -/

/-- Decimals add up to one that denotes the exact sum, if every running sum is
    representable. -/
theorem Decimal.foldlM_add_denotes {ds : List Decimal} {xs : List ℚ}
    (h : List.Forall₂ Denotes ds xs) {sum : Decimal} {x : ℚ} (hsum : sum.Denotes x)
    (hsums : ∀ seen, seen <+: xs → IsRepresentable (x + seen.sum)) :
    ∃ total, ds.foldlM Decimal.add sum = .ok total ∧ total.Denotes (x + xs.sum) := by
  induction h generalizing sum x with
  | nil => exact ⟨sum, rfl, by simpa using hsum⟩
  | @cons d y ds xs hd _ ih =>
    have hfirst : IsRepresentable (x + y) := by
      simpa using hsums [y] (List.prefix_append [y] xs)
    obtain ⟨next, hnext, hdenotes⟩ := hsum.add hd hfirst
    obtain ⟨total, htotal, hdenotes⟩ := ih hdenotes fun seen hseen => by
      simpa [add_assoc] using hsums (y :: seen) ((List.prefix_cons_inj y).mpr hseen)
    refine ⟨total, ?_, by simpa [add_assoc] using hdenotes⟩
    rw [List.foldlM_cons, hnext]
    exact htotal

/-! ### A formula over a group -/

namespace Group

variable {g : Group} {x : String → ℚ}

theorem values_denote (hdistinct : g.ids.Nodup)
    (h : ∀ id ∈ g.ids, ∃ d, (g.result? id).bind (·.value?) = some d ∧ d.Denotes (x id)) :
    List.Forall₂ Denotes g.values (g.ids.map x) := by
  unfold values entities
  rw [eraseDups_of_nodup hdistinct]
  generalize g.ids = ids at h
  induction ids with
  | nil => exact .nil
  | cons id ids ih =>
    obtain ⟨⟨d, hvalue, hd⟩, hrest⟩ := List.forall_mem_cons.mp h
    rw [List.filterMap_cons, hvalue]
    exact .cons hd (ih hrest)

/-- Values that denote numbers with representable running sums have a sum that
    denotes the exact one. -/
theorem exists_total (hdistinct : g.ids.Nodup)
    (h : ∀ id ∈ g.ids, ∃ d, (g.result? id).bind (·.value?) = some d ∧ d.Denotes (x id))
    (hsums : ∀ seen, seen <+: g.ids.map x → IsRepresentable seen.sum) :
    ∃ total, g.values.foldlM Decimal.add .zero = .ok total ∧ total.Denotes (g.ids.map x).sum := by
  have hzero : Denotes .zero 0 := ⟨rfl, Decimal.toRat_zero_coefficient false 0⟩
  simpa only [zero_add] using
    Decimal.foldlM_add_denotes (values_denote hdistinct h) hzero (by simpa only [zero_add] using hsums)

end Group

namespace Compiled

/-- The group of entities whose ledgers of a year the formula is evaluated on. -/
def group (f : Compiled) (fetched : Value → Value → Value → Attempt Ledger) (year version : Value)
    (ids : List String) : Group where
  kind := f.kind
  evaluation id := f.outcome fetched (.text id) year version
  ids := ids

/-- The balances of each entity. -/
def ledgersOf (ledger : String → Ledger) (ids : List String) : List (List AccountBalance) :=
  ids.map fun id => (ledger id).balances

theorem mem_flatten_ledgersOf {ledger : String → Ledger} {ids : List String} {b : AccountBalance} :
    b ∈ (ledgersOf ledger ids).flatten ↔ ∃ id ∈ ids, b ∈ (ledger id).balances := by
  rw [ledgersOf, ← List.flatMap_def, List.mem_flatMap]

theorem map_reading_ledgersOf (ledger : String → Ledger) (ids : List String) (t : Term) :
    (ledgersOf ledger ids).map (Term.reading · t) =
      ids.map fun id => t.reading (ledger id).balances := by
  rw [ledgersOf, List.map_map]
  rfl

/-- Each entity has a snapshot of finite balances, whose account numbers can be
    held against the references of the formula. -/
structure HasLedgers (f : Compiled) (fetched : Value → Value → Value → Attempt Ledger)
    (year version : Value) (ids : List String) (ledger : String → Ledger) : Prop where
  found : ∀ id ∈ ids, fetched (.text id) year version = .ok (ledger id)
  finite : ∀ id ∈ ids, ∀ b ∈ (ledger id).balances, b.balance.isFinite
  canRead : ∀ id ∈ ids, ∀ ref ∈ f.tree.accountReferences, ref.CanRead (ledger id).balances

section Consolidation

variable {f : Compiled} {fetched : Value → Value → Value → Attempt Ledger} {year version : Value}
  {ids : List String} {ledger : String → Ledger}

/-- The figure of several entities is the sum of what they contribute. -/
theorem figure_sum (hids : ids ≠ [])
    (h : ∀ id ∈ ids, Group.Yields (f.outcome fetched (.text id) year version)) :
    f.figure fetched version (.sum (ids.map .text) year) =
      Aggregate.summed f.kind (f.group fetched year version ids).contributions := by
  have hentities : Aggregate.entitiesOf (ids.map .text) =
      .ok ((f.group fetched year version ids).entities.map .text) :=
    @Group.entitiesOf_ids (f.group fetched year version ids) hids
  have hresults : ((f.group fetched year version ids).entities.map Value.text).mapM
      (fun entity => Aggregate.contribution f.kind (f.outcome fetched entity year version)) =
        .ok (f.group fetched year version ids).contributions := by
    rw [List.mapM_map]
    exact @Group.mapM_contribution (f.group fetched year version ids) h
  unfold figure
  dsimp only
  rw [hentities]
  show (List.mapM _ _ >>= fun results => Aggregate.summed f.kind results) = _
  rw [hresults]
  rfl

/-- What the formula comes to for an entity: the reading of its ledger, with
    warnings of all that matches nothing in any ledger. -/
theorem exists_outcome (hadditive : f.tree.IsAdditive)
    (hledgers : f.HasLedgers fetched year version ids ledger)
    (hexact : f.tree.IsExactAcross (ledgersOf ledger ids)) {id : String} (hid : id ∈ ids) :
    ∃ r, f.outcome fetched (.text id) year version = .ok r ∧
      r.Covers (f.tree.reading (ledger id).balances)
        (f.tree.unmatchedWarnings (ledgersOf ledger ids).flatten) ∧
      ∀ w ∈ r.warnings, ∃ s, w.reference = .text s := by
  obtain ⟨r, hr, hcovers, hwarnings⟩ := hadditive.exists_result f.kind
    (hledgers.finite id hid) (hledgers.canRead id hid) (hexact.each _ (List.mem_map_of_mem hid))
  have hpart : (ledger id).balances ⊆ (ledgersOf ledger ids).flatten :=
    fun b hb => mem_flatten_ledgersOf.mpr ⟨id, hid, hb⟩
  refine ⟨r, ?_, { hcovers with subset := ?_ }, ?_⟩
  · unfold outcome
    rw [hledgers.found id hid]
    exact hr
  · rw [hwarnings]
    exact List.map_subset _ (AccountReference.unmatchedTexts_subset hpart _)
  · rw [hwarnings]
    exact List.forall_mem_map.mpr fun s _ => ⟨s, rfl⟩

theorem yields (hadditive : f.tree.IsAdditive)
    (hledgers : f.HasLedgers fetched year version ids ledger)
    (hexact : f.tree.IsExactAcross (ledgersOf ledger ids)) :
    ∀ id ∈ ids, Group.Yields (f.outcome fetched (.text id) year version) := by
  intro id hid
  obtain ⟨r, hr, hcovers, htexts⟩ := exists_outcome hadditive hledgers hexact hid
  rw [hr]
  refine ⟨fun error herror => ?_, htexts⟩
  rw [r.value?_isSome_iff.mp hcovers.isValid] at herror
  cases herror

/-- What the entities contribute sums up to the reading of all ledgers in one. -/
theorem exists_summed (hids : ids ≠ []) (hdistinct : ids.Nodup) (hadditive : f.tree.IsAdditive)
    (hledgers : f.HasLedgers fetched year version ids ledger)
    (hexact : f.tree.IsExactAcross (ledgersOf ledger ids)) :
    ∃ r, Aggregate.summed f.kind (f.group fetched year version ids).contributions = .ok r ∧
      r.Covers (f.tree.reading (ledgersOf ledger ids).flatten)
        (f.tree.unmatchedWarnings (ledgersOf ledger ids).flatten) := by
  let g := f.group fetched year version ids
  have houtcome : ∀ id ∈ g.ids, ∃ r, g.evaluation id = .ok r ∧
      r.Covers (f.tree.reading (ledger id).balances)
        (f.tree.unmatchedWarnings (ledgersOf ledger ids).flatten) ∧
      ∀ w ∈ r.warnings, ∃ s, w.reference = .text s :=
    fun id hid => exists_outcome hadditive hledgers hexact hid
  have hvalues : ∀ id ∈ g.ids, ∃ d, (g.result? id).bind (·.value?) = some d ∧
      d.Denotes (f.tree.reading (ledger id).balances) := by
    intro id hid
    obtain ⟨r, hr, hcovers, -⟩ := houtcome id hid
    unfold Group.result?
    rw [hr]
    exact hcovers.value
  have hsums := hexact.sums
  rw [map_reading_ledgersOf] at hsums
  obtain ⟨total, htotal, hdenotes⟩ := Group.exists_total hdistinct hvalues hsums
  obtain ⟨r, hr, hsummed⟩ :=
    @Group.exists_summedUp g total (yields hadditive hledgers hexact) htotal
  obtain ⟨id, hid⟩ := List.exists_mem_of_ne_nil ids hids
  obtain ⟨own, hown, hcovers, -⟩ := houtcome id hid
  have hvalid : r.isValid = true := by
    refine hsummed.isValid_iff.mpr ⟨id, hid, ?_⟩
    unfold Group.isValidFor Group.result?
    rw [hown]
    exact hcovers.isValid
  refine ⟨r, hr, hvalid, ⟨total, hsummed.value_eq hvalid, ?_⟩, ?_⟩
  · rw [hadditive.reading_flatten, map_reading_ledgersOf]
    exact hdenotes
  · intro w hw
    rw [hsummed.warnings_eq, List.mem_eraseDups]
    refine List.mem_flatMap.mpr ⟨id, Group.mem_entities.mpr hid, ?_⟩
    unfold Group.result?
    rw [hown]
    exact hcovers.subset hw

/-- **A group sums up to its consolidated ledger.**  Where nothing is rounded, an
    additive formula comes to the same number on all ledgers in one and summed
    over the entities, in every course of the sum and as the figure of a call;
    and what the one warns of, the other warns of too. -/
theorem sum_eq_consolidated {j : Log.Journal} (hids : ids ≠ []) (hdistinct : ids.Nodup)
    (hadditive : f.tree.IsAdditive) (hledgers : f.HasLedgers fetched year version ids ledger)
    (hexact : f.tree.IsExactAcross (ledgersOf ledger ids))
    (hj : j.IsQuiet ∨ f.tree.IsTraceable f.kind) :
    ∃ whole x,
      ((evaluate f.tree (ledgersOf ledger ids).flatten f.kind).play j).1 = .ok whole ∧
      whole.Covers x whole.warnings ∧
      (∃ r, (∀ c : (f.group fetched year version ids).Course, c.LeadsTo r) ∧
        r.Covers x whole.warnings) ∧
      ∃ r, f.figure fetched version (.ofYear (ids.map .text) year) = .ok r ∧
        r.Covers x whole.warnings := by
  have hfinite : ∀ b ∈ (ledgersOf ledger ids).flatten, b.balance.isFinite := by
    intro b hb
    obtain ⟨id, hid, hb⟩ := mem_flatten_ledgersOf.mp hb
    exact hledgers.finite id hid b hb
  have hread : ∀ ref ∈ f.tree.accountReferences, ref.CanRead (ledgersOf ledger ids).flatten := by
    intro ref href b hb
    obtain ⟨id, hid, hb⟩ := mem_flatten_ledgersOf.mp hb
    exact hledgers.canRead id hid ref href b hb
  obtain ⟨whole, hwhole, hcovers, hwarnings⟩ :=
    hadditive.exists_result f.kind hfinite hread hexact.whole
  rw [← fst_play_evaluate_of_traceable hj] at hwhole
  obtain ⟨r, hsummed, hsum⟩ := exists_summed hids hdistinct hadditive hledgers hexact
  rw [← hwarnings] at hsum
  have hyields := yields hadditive hledgers hexact
  refine ⟨whole, _, hwhole, hcovers, ⟨r, fun c => c.leadsTo hids hyields hsummed, hsum⟩, ?_⟩
  rcases ids with _ | ⟨id, _ | ⟨other, rest⟩⟩
  · exact absurd rfl hids
  · -- A single entity stands for itself.
    obtain ⟨own, hown, hcovers, -⟩ := exists_outcome hadditive hledgers hexact List.mem_cons_self
    refine ⟨own, ?_, ?_⟩
    · show Aggregate.contribution f.kind (f.outcome fetched (.text id) year version) = _
      rw [hown]
      rfl
    · simpa [ledgersOf, hwarnings] using hcovers
  · exact ⟨r, (figure_sum hids hyields).trans hsummed, hsum⟩

end Consolidation

/-- What accounts that begin with three exceed those that begin with eight by,
    and those that begin with nine. -/
def margin : Compiled where
  tree :=
    .binary
      (.grouping (.binary (.account (.starting (.text "3"))) .sub (.account (.starting (.text "8")))))
      .add (.account (.starting (.text "9")))
  kind := .amount
  key := "margin"

/-- The ledgers of two entities. -/
def branchLedger (id : String) : Ledger where
  entity := .text id
  year := .int 2024
  version := .null
  balances :=
    if id = "north" then [⟨"30", .finite false 1250 (-2)⟩, ⟨"80", .finite false 4 0⟩]
    else [⟨"31", .finite true 5 (-1)⟩]

/-- A source of these ledgers. -/
def branches : LedgerSource := .memory [branchLedger "north", branchLedger "south"]

/-- Eight and a half less a half is what remains of both; only the southern
    ledger has no account that begins with eight, none has one with nine. -/
theorem sum_eq_consolidated_branches :
    ∃ r, margin.figure branches.answer .null (.ofYear [.text "north", .text "south"] (.int 2024)) =
        .ok r ∧ r.isValid = true ∧ (∃ d, r.value? = some d ∧ d.Denotes 8) ∧
      (⟨.text "[9]"⟩ : Warning) ∈ r.warnings := by
  have hadditive : margin.tree.IsAdditive := by simp [margin, Term.IsAdditive]
  have hledgers : margin.HasLedgers branches.answer (.int 2024) .null ["north", "south"]
      branchLedger := by
    refine ⟨?_, ?_, ?_⟩
    · simp only [List.forall_mem_cons]
      exact ⟨rfl, rfl, nofun⟩
    · simp [branchLedger, Decimal.isFinite]
    · simp only [margin, Term.accountReferences_binary, Term.accountReferences_grouping,
        Term.accountReferences_account]
      rintro id - ref href b -
      simp only [List.cons_append, List.nil_append, List.mem_cons, List.not_mem_nil, or_false] at href
      rcases href with rfl | rfl | rfl <;> exact ⟨_, rfl⟩
  have hamounts : AreAmounts 2 margin.tree (ledgersOf branchLedger ["north", "south"]).flatten := by
    have hflatten : (ledgersOf branchLedger ["north", "south"]).flatten =
        [⟨"30", .finite false 1250 (-2)⟩, ⟨"80", .finite false 4 0⟩, ⟨"31", .finite true 5 (-1)⟩] :=
      rfl
    rw [hflatten]
    refine ⟨by decide, ?_, ?_, ?_⟩
    · simp [Decimal.isFinite]
    · simp [Decimal.exponent]
    · norm_num [margin, Decimal.abs_toRat]
  obtain ⟨whole, x, hwhole, hcovers, -, r, hr, hsum⟩ := @sum_eq_consolidated margin branches.answer
    (.int 2024) .null ["north", "south"] branchLedger {} (by simp) (by decide) hadditive hledgers
    (hadditive.isExactAcross hamounts) (.inl rfl)
  have hevaluated : ((evaluate margin.tree (ledgersOf branchLedger ["north", "south"]).flatten
      .amount).play {}).1 = .ok ⟨.value (.finite false 800 (-2)), .amount, [⟨.text "[9]"⟩]⟩ := by
    decide +kernel
  obtain rfl : whole = _ := Except.ok.inj (hwhole.symm.trans hevaluated)
  obtain rfl : x = 8 := by
    obtain ⟨d, hd, hx⟩ := hcovers.value
    obtain rfl := Option.some.inj hd
    rw [← hx.toRat_eq]
    norm_num [Decimal.toRat_finite]
  exact ⟨r, hr, hsum.isValid, hsum.value, hsum.subset (by simp)⟩

/-- The accounts from one to five. -/
def low : Compiled := ⟨lowAccounts, .amount, "low"⟩

/-- The ledgers of two entities, of which one has an account number that passes
    for a number and is none. -/
def oddLedger (id : String) : Ledger where
  entity := .text id
  year := .int 2024
  version := .null
  balances := if id = "north" then oddBalances else [⟨"3", .finite false 5 0⟩]

def oddBranches : LedgerSource := .memory [oddLedger "north", oddLedger "south"]

/-- Both evaluations end where they begin. -/
def oddCourse :
    (low.group oddBranches.answer (.int 2024) .null ["north", "south"]).Course where
  limit := none
  limit_ne := by decide
  atOnce := fun _ => true
  events := [.take, .take, .take, .take, .take]
  completes := by simp [FanOut.Event.Completes]

/-- **An account number that passes for a number and is none breaks the sum of a
    group**, though every sum is exact: neither all ledgers in one nor the group
    come to anything. -/
theorem not_sum_eq_consolidated :
    low.tree.IsAdditive ∧
      (∀ id ∈ ["north", "south"],
        oddBranches.answer (.text id) (.int 2024) .null = .ok (oddLedger id)) ∧
      (∀ id ∈ ["north", "south"], ∀ b ∈ (oddLedger id).balances, b.balance.isFinite) ∧
      low.tree.IsExactAcross (ledgersOf oddLedger ["north", "south"]) ∧
      (∀ r, ((evaluate low.tree (ledgersOf oddLedger ["north", "south"]).flatten .amount).play
        {}).1 ≠ .ok r) ∧
      (∀ r, low.figure oddBranches.answer .null
        (.ofYear [.text "north", .text "south"] (.int 2024)) ≠ .ok r) ∧
      oddCourse.state.IsIdle ∧ ∀ r, ¬oddCourse.LeadsTo r := by
  have hadditive : low.tree.IsAdditive := trivial
  have hflatten : (ledgersOf oddLedger ["north", "south"]).flatten =
      [⟨"3", .finite false 7 0⟩, ⟨"²", .finite false 100 0⟩, ⟨"3", .finite false 5 0⟩] := rfl
  have hamounts : AreAmounts 0 low.tree (ledgersOf oddLedger ["north", "south"]).flatten := by
    rw [hflatten]
    refine ⟨by decide, ?_, ?_, ?_⟩
    · simp [Decimal.isFinite]
    · simp [Decimal.exponent]
    · norm_num [low, lowAccounts, Decimal.abs_toRat]
  have hwhole : ((evaluate low.tree (ledgersOf oddLedger ["north", "south"]).flatten .amount).play
      {}).1.toOption = none := by
    decide +kernel
  have hfigure : (low.figure oddBranches.answer .null
      (.ofYear [.text "north", .text "south"] (.int 2024))).toOption = none := by
    decide +kernel
  have hanswer : ((low.group oddBranches.answer (.int 2024) .null ["north", "south"]).answer
      oddCourse.state).map (fun work => (work.play {}).1.toOption) = some none := by
    decide +kernel
  have hidle : oddCourse.state.IsIdle := by
    refine ⟨List.isEmpty_iff.mp ?_, List.isEmpty_iff.mp ?_⟩ <;> decide +kernel
  refine ⟨hadditive, ?_, ?_, hadditive.isExactAcross hamounts, fun r h => ?_, fun r h => ?_, hidle,
    fun r hleads => ?_⟩
  · simp only [List.forall_mem_cons]
    exact ⟨rfl, rfl, fun _ hid => absurd hid List.not_mem_nil⟩
  · simp [oddLedger, oddBalances, Decimal.isFinite]
  · rw [h] at hwhole
    cases hwhole
  · rw [h] at hfigure
    cases hfigure
  · obtain ⟨-, work, hwork, hplay⟩ := hleads.ended hidle
    rw [hwork, Option.map_some, hplay {}] at hanswer
    cases hanswer

end Compiled

end KeyFigures
