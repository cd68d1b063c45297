/-
  KeyFigures/Proofs/Evaluation/Traced.lean
  ========================================
  **What recording details does to an evaluation.**

  Details are to be recorded beside an evaluation and not to change it.  They
  are, and do not, for every tree from a formula source whose numbers have a
  normal form and whose formula ids can be written, as all data from JSON can.
  A number without normal form can be evaluated like any other, but not be
  fingerprinted: while details are recorded the evaluation fails on every
  ledger, as the first such number or id does (`evaluate_isTraced`).
-/
import KeyFigures.Proofs.Evaluation.Recorded
import KeyFigures.Proofs.Formula.Stored

namespace KeyFigures

open Log (Journal)

/-! ### Ids from JSON -/

theorem formula_of_ofValue {v : Value} {e : Entry} (h : Entry.ofValue v = .ok e) :
    e.formula =
      if (v.getD "formula_id").isTruthy then v.getD "formula_id" else v.getD "variable" := by
  unfold Entry.ofValue at h
  split at h
  · split at h
    · cases h
    · obtain ⟨operator, -, h⟩ := Attempt.bind_eq_ok.mp h
      dsimp only at h
      split at h
      · cases h
        rfl
      · obtain ⟨constant, -, h⟩ := Attempt.bind_eq_ok.mp h
        cases h
        rfl
  · cases h

theorem isJson_formula_of_ofValue {v : Value} {e : Entry} (hv : v.IsJson)
    (h : Entry.ofValue v = .ok e) : e.formula.IsJson := by
  rw [formula_of_ofValue h]
  split
  · exact hv.getD "formula_id"
  · exact hv.getD "variable"

theorem readEntries_eq_ok {items : List Value} {entries : List Entry}
    (h : readEntries items = .ok entries) : items.mapM Entry.ofValue = .ok entries := by
  unfold readEntries at h
  split at h
  · rename_i heq
    cases h
    exact heq
  · cases h
  · cases h

theorem formula_eq_of_entryToken {source : String} {index : Nat} {e : Entry} {id : Value}
    (h : e.token source index = .ok (.formula id)) : id = e.formula := by
  unfold Entry.token at h
  dsimp only at h
  split at h
  · split at h
    · cases h
    · rename_i account _
      cases hparse : AccountReference.parse account source index <;> rw [hparse] at h <;> cases h
  · split at h <;> cases h
  · split at h
    · cases h
    · split at h <;> cases h
    · cases h
  · split at h
    · cases h
      rfl
    · cases h

theorem eq_ok_of_toOption {α : Type} {x : Attempt α} {a : α} (h : x.toOption = some a) :
    x = .ok a := by
  cases x with
  | error f => cases h
  | ok b => rw [Option.some.inj h]

/-- The formula ids of a tree come from its source. -/
theorem isJson_of_mem_formulaReferences {source : Value} {t : Term} (hsource : source.IsJson)
    (ht : parseSource source = .ok t) {id : Value} (hid : id ∈ t.formulaReferences) :
    id.IsJson := by
  have htoken : Token.formula id ∈ t.tokens :=
    Term.formula_mem_tokens (phrase_of_parseSource ht).1.wellFormed hid
  rcases parseSource_cases ht with ⟨s, hs⟩ | ⟨items, entries, ts, hitems, hentries, hts, -, htokens⟩
  · have hreadable := (phrase_of_parseText hs).2 _ htoken
    cases id with
    | text s => exact .text s
    | _ => exact hreadable.elim
  · rw [htokens] at htoken
    obtain ⟨e, he, i, hfound⟩ := exists_entry_of_mem_bare rfl hts htoken
    rw [eq_filterMap_of_mapM (readEntries_eq_ok hentries)] at he
    obtain ⟨v, hv, hread⟩ := List.mem_filterMap.mp he
    rw [formula_eq_of_entryToken hfound]
    exact isJson_formula_of_ofValue (hsource.items? hitems v hv) (eq_ok_of_toOption hread)

/-! ### Leaves that cannot be written -/

namespace Term

variable {t : Term}

/-- The leaves of a tree are account numbers, which are texts, numbers and
    ids. -/
theorem mem_leaves_cases (ht : t.WellFormed)
    (haccounts : ∀ ref, Token.account ref ∈ t.tokens → ref.Readable) {v : Value}
    (hv : v ∈ t.leaves) : v.IsText ∨ (∃ d, v = .decimal d) ∨ v ∈ t.formulaReferences := by
  induction t with
  | account ref =>
    have htextual := (haccounts ref (by simp [tokens])).textual
    cases ref with
    | starting code =>
      obtain rfl := List.mem_singleton.mp hv
      exact .inl htextual
    | between first last =>
      rcases List.mem_pair.mp hv with rfl | rfl
      · exact .inl htextual.2
      · exact .inl htextual.1
  | constant value => exact .inr (.inl ⟨value, List.mem_singleton.mp hv⟩)
  | formula id => exact .inr (.inr (by simpa [leaves] using hv))
  | grouping inner ih =>
    rw [formulaReferences_grouping]
    exact ih ht (fun ref href => haccounts ref (by simp [tokens, href])) hv
  | binary left op right ihl ihr =>
    rw [formulaReferences_binary, List.mem_append]
    rcases List.mem_append.mp hv with hv | hv
    · rcases ihl ht.1 (fun ref href => haccounts ref (by simp [tokens, href])) hv with h | h | h
      · exact .inl h
      · exact .inr (.inl h)
      · exact .inr (.inr (.inl h))
    · rcases ihr ht.2 (fun ref href => haccounts ref (by simp [tokens, href])) hv with h | h | h
      · exact .inl h
      · exact .inr (.inl h)
      · exact .inr (.inr (.inr h))
  | unsupported => exact ht.elim
  | foreign => exact ht.elim

/-- Every number has a normal form, and every formula id a canonical text. -/
def IsRecordable (t : Term) : Prop :=
  t.AllConstants Decimal.Normalizes ∧ ∀ id ∈ t.formulaReferences, id.unwritable? = none

theorem unwritable?_eq_none_iff (ht : t.WellFormed)
    (haccounts : ∀ ref, Token.account ref ∈ t.tokens → ref.Readable) :
    t.unwritable? = none ↔ t.IsRecordable := by
  unfold IsRecordable
  induction t with
  | account ref =>
    have htextual := (haccounts ref (by simp [tokens])).textual
    cases ref with
    | starting code =>
      obtain ⟨s, rfl⟩ := htextual
      simp [unwritable?, leaves, AllConstants]
    | between first last =>
      obtain ⟨⟨s, rfl⟩, s', rfl⟩ := htextual
      simp [unwritable?, leaves, AllConstants]
  | constant value =>
    simp [unwritable?, leaves, AllConstants, Value.unwritable?_decimal_eq_none_iff]
  | formula id => simp [unwritable?, leaves, AllConstants]
  | grouping inner ih =>
    rw [unwritable?_grouping, formulaReferences_grouping]
    exact ih ht fun ref href => haccounts ref (by simp [tokens, href])
  | binary left op right ihl ihr =>
    have hleft := ihl ht.1 fun ref href => haccounts ref (by simp [tokens, href])
    have hright := ihr ht.2 fun ref href => haccounts ref (by simp [tokens, href])
    rw [unwritable?_binary, Option.or_eq_none_iff, hleft, hright, formulaReferences_binary,
      List.forall_mem_append]
    exact and_and_and_comm
  | unsupported => exact ht.elim
  | foreign => exact ht.elim

/-- The first leaf that cannot be written is a number that signals, a number
    that is too large, or an id. -/
theorem unwritable?_cases (ht : t.WellFormed)
    (haccounts : ∀ ref, Token.account ref ∈ t.tokens → ref.Readable) {f : Failure}
    (h : t.unwritable? = some f) :
    (∃ d, .decimal d ∈ t.leaves ∧ d.isSignalling = true ∧ f = .number .invalid) ∨
      (∃ d, .decimal d ∈ t.leaves ∧ d.normalize = .error .overflow ∧ f = .number .overflow) ∨
      ∃ id ∈ t.formulaReferences, id.unwritable? = some f := by
  obtain ⟨v, hv, hfails⟩ := List.exists_of_findSome?_eq_some h
  rcases mem_leaves_cases ht haccounts hv with ⟨s, rfl⟩ | ⟨d, rfl⟩ | hid
  · cases hfails
  · rcases Value.unwritable?_decimal_cases hfails with ⟨hsignals, hf⟩ | ⟨hlarge, hf⟩
    · exact .inl ⟨d, hv, hsignals, hf⟩
    · exact .inr (.inl ⟨d, hv, hlarge, hf⟩)
  · exact .inr (.inr ⟨v, hid, hfails⟩)

/-! ### Evaluations -/

/-- An evaluation of the tree comes to the same in every journal. -/
def IsUndisturbed (t : Term) (kind : ResultKind) : Prop :=
  ∀ (balances : List AccountBalance) (j j' : Journal),
    ((evaluate t balances kind).play j).1 = ((evaluate t balances kind).play j').1

/-- What recording details does to the evaluations of a tree from a source. -/
structure IsTraced (t : Term) (source : Value) (kind : ResultKind) : Prop where
  /-- Where all can be written it does nothing. -/
  isUndisturbed : t.IsRecordable → t.IsUndisturbed kind
  /-- Formula ids from JSON can be written. -/
  ids_written : source.IsJson → ∀ id ∈ t.formulaReferences, id.unwritable? = none
  /-- Without details the result is that of the tree, whatever can be written. -/
  quiet : ∀ (balances : List AccountBalance) (j : Journal), j.IsQuiet →
    ((evaluate t balances kind).play j).1 = t.result balances kind
  /-- Otherwise there is no result while details are recorded, but the failure of
      the first leaf that cannot be written, on every ledger. -/
  fails : ¬t.IsRecordable → ∃ f, t.unwritable? = some f ∧
    ((∃ d, .decimal d ∈ t.leaves ∧ d.isSignalling = true ∧ f = .number .invalid) ∨
      (∃ d, .decimal d ∈ t.leaves ∧ d.normalize = .error .overflow ∧ f = .number .overflow) ∨
      ∃ id ∈ t.formulaReferences, id.unwritable? = some f) ∧
    ∀ (balances : List AccountBalance) (j : Journal), ¬j.IsQuiet →
      ((evaluate t balances kind).play j).1 = .error f

end Term

/-- **Recording details and the figures.**  An evaluation of a tree from text or a
    term list comes to the same with and without details being recorded, if its
    numbers have a normal form and its ids can be written; if not, only the one
    without details has the result of the tree. -/
theorem evaluate_isTraced {source : Value} {t : Term} {kind : ResultKind}
    (ht : parseSource source = .ok t) (hkind : kind.IsProper) : t.IsTraced source kind := by
  obtain ⟨hphrase, haccounts⟩ := phrase_of_parseSource ht
  have hwellFormed := hphrase.wellFormed
  have hwritten := Term.unwritable?_eq_none_iff hwellFormed haccounts
  constructor
  case isUndisturbed =>
    intro hrecordable balances j j'
    have htraceable : t.IsTraceable kind :=
      (Term.isTraceable_iff hwellFormed hkind).mpr (hwritten.mpr hrecordable)
    rw [fst_play_evaluate_of_traceable (.inr htraceable),
      fst_play_evaluate_of_traceable (.inr htraceable)]
  case ids_written =>
    intro hsource id hid
    exact (isJson_of_mem_formulaReferences hsource ht hid).unwritable?
  case quiet =>
    intro balances j hj
    exact fst_play_evaluate_of_traceable (.inl hj)
  case fails =>
    intro hnot
    obtain ⟨f, hf⟩ := Option.ne_none_iff_exists'.mp (mt hwritten.mp hnot)
    refine ⟨f, hf, Term.unwritable?_cases hwellFormed haccounts hf, fun balances j hj => ?_⟩
    rw [fst_play_evaluate_eq_tracedResult hwellFormed hkind balances hj, Term.tracedResult, hf]

/-- An account over a number that is too large to be normalized, as a term
    list. -/
def overHuge : Value :=
  .list [.object [("type", .text "account"), ("account", .text "10")],
    .object [("type", .text "constant"), ("operator", .text "/"),
      ("constant", .text "1E+1000000")]]

def overHugeTree : Term :=
  .binary (.account (.starting (.text "10"))) .div (.constant (.finite false 1 1000000))

theorem parseSource_overHuge : parseSource overHuge = .ok overHugeTree := by
  have hnumber : Decimal.ofText "1E+1000000" = .ok (.finite false 1 1000000) := by
    decide +kernel
  have haccount : Entry.ofValue (.object [("type", .text "account"), ("account", .text "10")]) =
      .ok ⟨.account, none, some "10", none, .null, .null⟩ := by
    cbv
  have hconstant : Entry.ofValue (.object [("type", .text "constant"), ("operator", .text "/"),
      ("constant", .text "1E+1000000")]) =
        .ok ⟨.constant, some .div, none, some (.finite false 1 1000000), .null, .null⟩ := by
    show (do
      let constant ← (Attempt.ofDecimal (Decimal.ofText "1E+1000000")).map some
      .ok ⟨.constant, some .div, none, constant, .null, .null⟩ : Attempt Entry) = _
    rw [hnumber]
    rfl
  have hentries : readEntries [.object [("type", .text "account"), ("account", .text "10")],
      .object [("type", .text "constant"), ("operator", .text "/"),
        ("constant", .text "1E+1000000")]] =
        .ok [⟨.account, none, some "10", none, .null, .null⟩,
          ⟨.constant, some .div, none, some (.finite false 1 1000000), .null, .null⟩] := by
    unfold readEntries
    rw [List.mapM_cons, List.mapM_cons, haccount, hconstant]
    rfl
  show (readEntries _ >>= parseEntries) = _
  rw [hentries]
  cbv

/-- While details are recorded it fails on every ledger; with a quarter in its
    place nothing does. -/
theorem evaluate_isTraced_overHuge :
    (parseSource overHuge = .ok overHugeTree ∧ ResultKind.amount.IsProper ∧
      overHugeTree.IsTraced overHuge .amount ∧
      ∀ (balances : List AccountBalance) (j : Journal), ¬j.IsQuiet →
        ((evaluate overHugeTree balances .amount).play j).1 = .error (.number .overflow)) ∧
    ∃ t, parseSource (.text "[10] * 0.25") = .ok t ∧ t.IsUndisturbed .amount := by
  have hkind : ResultKind.amount.IsProper := trivial
  have htraced := evaluate_isTraced parseSource_overHuge hkind
  have hunwritable : overHugeTree.unwritable? = some (.number .overflow) := by
    decide +kernel
  have hlarge : Decimal.normalize (.finite false 1 1000000) = .error .overflow := by
    decide +kernel
  obtain ⟨f, hf, -, hfails⟩ := htraced.fails fun h => h.1.2.2 hlarge
  obtain rfl : f = .number .overflow := Option.some.inj (hf.symm.trans hunwritable)
  have hquarter : parseSource (.text "[10] * 0.25") = .ok
      (.binary (.account (.starting (.text "10"))) .mul (.constant (.finite false 25 (-2)))) := by
    cbv
  have hnormalizes : (Decimal.finite false 25 (-2)).Normalizes := ⟨rfl, by decide +kernel⟩
  exact ⟨⟨parseSource_overHuge, hkind, htraced, hfails⟩, _, hquarter,
    (evaluate_isTraced hquarter hkind).isUndisturbed ⟨⟨trivial, hnormalizes⟩, by simp⟩⟩

/-- A number that is too large for its normal form is evaluated, but not while
    details are recorded. -/
theorem not_isUndisturbed_of_parseSource :
    ¬ ∀ {source : Value} {t : Term} {kind : ResultKind}, parseSource source = .ok t →
      kind.IsProper → t.IsUndisturbed kind := by
  intro h
  have hdetailed : ¬Journal.IsQuiet { setup := ⟨true, some (.int 10)⟩ } := by
    show ¬Log.Setup.isEnabled ⟨true, some (.int 10)⟩ Log.debug = false
    decide
  have hquiet : Journal.IsQuiet {} := by
    show Log.Setup.isEnabled {} Log.debug = false
    decide
  have hresult : overHugeTree.result [⟨"10", .finite false 300 0⟩] .amount =
      .ok ⟨.value (.finite false 300 (-1000000)), .amount, []⟩ := by
    decide +kernel
  have hwellFormed : overHugeTree.WellFormed := ⟨trivial, trivial⟩
  have hunwritable : overHugeTree.unwritable? = some (.number .overflow) := by
    decide +kernel
  have hkind : ResultKind.amount.IsProper := trivial
  have hsame := h parseSource_overHuge hkind [⟨"10", .finite false 300 0⟩]
    { setup := ⟨true, some (.int 10)⟩ } {}
  rw [fst_play_evaluate_eq_tracedResult hwellFormed hkind _ hdetailed, Term.tracedResult,
    hunwritable, fst_play_evaluate_of_traceable (.inl hquiet), hresult] at hsame
  cases hsame

end KeyFigures
