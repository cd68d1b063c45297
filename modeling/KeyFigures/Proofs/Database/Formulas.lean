/-
  KeyFigures/Proofs/Database/Formulas.lean
  ========================================
  **What the formula table accepts it can load.**

  The rows of a table that was filled by saving stand for the saved definitions
  one by one (`StandsFor`), and the versions of an id are numbered in the order
  of the rows (`Numbered`).  Both hold of the empty table, and one accepted
  save keeps them (`StandsFor.save`); hence the last row of an id is its latest
  definition, and every row can be read.

  A row keeps the canonical text of the tree, so what is loaded is the tree of
  that text.  It has the saved tree's figures wherever the text can hold the
  tree (`Term.IsStorable`); a tree from formula text is always such.
-/
import KeyFigures.Database.Formulas
import KeyFigures.Proofs.Decimal.RoundTrip
import KeyFigures.Proofs.Formula.Identity
import KeyFigures.Proofs.Formula.Stored
import KeyFigures.Proofs.Value.Failing

namespace KeyFigures

/-! ### Definitions that are saved, and what is loaded -/

/-- A definition with members of their types whose tree was read from a
    source. -/
structure Definition.ComesFrom (source : Value) (d : Definition) : Prop where
  parse_eq : parseSource source = .ok d.tree
  id : d.id.IsText
  name : d.name.IsText
  category : d.category.IsText
  description : d.description.IsText
  interpretation : d.interpretation = .null ∨ d.interpretation.IsText
  benchmarks : ∀ b ∈ d.benchmarks,
    b.excellent.IsReadable ∧ b.good.IsReadable ∧ b.poor.IsReadable

/-- The loaded definition `e` says what the saved `d` says; an empty
    interpretation is none. -/
structure Definition.Restores (e d : Definition) : Prop where
  id_eq : e.id = d.id
  name_eq : e.name = d.name
  category_eq : e.category = d.category
  kind_eq : e.kind = d.kind
  description_eq : e.description = d.description
  interpretation_eq : e.interpretation = if d.interpretation = .text "" then .null else d.interpretation
  benchmarks_eq : e.benchmarks = d.benchmarks
  references_eq : e.tree.formulaReferences = d.tree.formulaReferences
  result_alike : ∀ balances kind,
    Alike Result.Agrees (e.tree.result balances kind) (d.tree.result balances kind)

namespace Database

/-! ### Cells -/

@[simp]
theorem textCell_text (s : String) : textCell (.text s) = .ok (some s) := rfl

theorem numberCell_int {n : Int} {v : Value} (h : numberCell (.int n) = .ok v) : v = .int n := by
  unfold numberCell bound at h
  obtain ⟨bounded, hbounded, h⟩ := Attempt.bind_eq_ok.mp h
  dsimp only [Value.index?] at hbounded
  split at hbounded
  · cases hbounded
    cases h
    rfl
  · cases hbounded

theorem cellUpTo_int {m n : Int} (h : m ≤ n) : cellUpTo (.int m) (.int n) = true := by
  have hcompare : compare n m ≠ .lt := by
    rw [ne_eq, compare_lt_iff_lt]
    omega
  simpa [cellUpTo, Value.before?, Value.magnitude?, Magnitude.compare?] using hcompare

/-! ### Extras -/

/-- The interpretation and the benchmarks of a definition come back out of its
    stored extras. -/
theorem extras_of_saved {source : Value} {d : Definition} (hd : d.ComesFrom source)
    {r : FormulaRow} (h : r.metadata = FormulaTable.extrasOf d) :
    ∃ v, r.extras = .ok v ∧
      v.getD "interpretation" =
        (if d.interpretation = .text "" then .null else d.interpretation) ∧
      benchmarksOf (v.getD "benchmarks") = .ok d.benchmarks := by
  have hread : ∀ b ∈ d.benchmarks,
      benchmarksOf (.object [("excellent", .text b.excellent.toText),
        ("good", .text b.good.toText), ("poor", .text b.poor.toText)]) = .ok (some b) := by
    intro b hb
    obtain ⟨hexcellent, hgood, hpoor⟩ := hd.benchmarks b hb
    simp [benchmarksOf, Value.isTruthy, Definition.required, Value.lookup?, Value.toDecimal,
      Decimal.ofText_toText, hexcellent, hgood, hpoor, Attempt.ofDecimal, bind, Except.bind]
  have hnone : benchmarksOf .null = .ok none := rfl
  unfold FormulaRow.extras
  rw [h, FormulaTable.extrasOf]
  cases hb : d.benchmarks with
  | none =>
    rcases hd.interpretation with hi | ⟨s, hi⟩
    · simp [hi, Value.isTruthy, Value.getD, Value.get?, Value.lookup?, hnone]
    · by_cases hs : s = "" <;>
        simp [hi, hs, Value.isTruthy, Value.getD, Value.get?, Value.lookup?, hnone]
  | some b =>
    have hthresholds := hread b hb
    rcases hd.interpretation with hi | ⟨s, hi⟩
    · simp [hi, Value.isTruthy, Value.getD, Value.get?, Value.lookup?, hthresholds]
    · by_cases hs : s = "" <;>
        simp [hi, hs, Value.isTruthy, Value.getD, Value.get?, Value.lookup?, hthresholds]

/-! ### Rows -/

/-- A row can be read, as a definition that restores the saved one. -/
structure FormulaRow.Holds (r : FormulaRow) (d : Definition) : Prop where
  id_eq : d.id = .text r.id
  definition : ∃ e, r.definition = .ok e ∧ e.Restores d

theorem kind_of_kindWord {kind : ResultKind} {word : String}
    (h : FormulaTable.kindWord kind = .ok word) : ResultKind.ofValue (.text word) = .ok kind := by
  cases kind with
  | other v => cases h
  | _ =>
    cases h
    rfl

/-- The columns of a definition under a version, with these texts for its tree
    and its kind. -/
def FormulaTable.dataOf (d : Definition) (version : Value) (expression kind : String) :
    FormulaData where
  id := d.id
  version := version
  name := d.name
  category := d.category
  expression := .text expression
  kind := .text kind
  description := if d.description.isTruthy then d.description else .null
  metadata := FormulaTable.extrasOf d

/-- The row of a definition is taken if the number fits its column, and what is
    read from it differs from the definition in the parts that are not stored:
    the tree is that of the stored text, which is the source text as well. -/
theorem FormulaRow.ofValues_dataOf {source : Value} {d : Definition} (hd : d.ComesFrom source)
    (n : Int) {expression kind : String} {t : Term} (htree : parseText expression = .ok t)
    (hkind : FormulaTable.kindWord d.kind = .ok kind) :
    ∃ r : FormulaRow,
      FormulaRow.ofValues (FormulaTable.dataOf d (.int n) expression kind) =
        (numberCell (.int n)).map (fun _ => r) ∧
      d.id = .text r.id ∧ r.version = .int n ∧ r.expression = expression ∧
      r.definition = .ok { d with
        tree := t
        sourceText := .text expression
        version := .int n
        interpretation := if d.interpretation = .text "" then .null else d.interpretation } := by
  obtain ⟨id, hid⟩ := hd.id
  obtain ⟨name, hname⟩ := hd.name
  obtain ⟨category, hcategory⟩ := hd.category
  obtain ⟨description, hdescription⟩ := hd.description
  -- an empty description is not stored
  obtain ⟨cell, hcell, hdescribed⟩ : ∃ cell,
      textCell (if d.description.isTruthy then d.description else .null) = .ok cell ∧
        cell.getD "" = description := by
    rw [hdescription]
    by_cases hempty : description = ""
    · exact ⟨none, by simp [hempty, Value.isTruthy, textCell, bound, bind, Except.bind], by simp [hempty]⟩
    · exact ⟨some description, by simp [hempty, Value.isTruthy], rfl⟩
  obtain ⟨v, hextras, hinterpretation, hbenchmarks⟩ := extras_of_saved hd
    (r := ⟨id, .int n, name, category, expression, kind, cell, FormulaTable.extrasOf d⟩) rfl
  refine ⟨⟨id, .int n, name, category, expression, kind, cell, FormulaTable.extrasOf d⟩,
    ?_, hid, rfl, rfl, ?_⟩
  · unfold FormulaRow.ofValues
    simp only [FormulaTable.dataOf, hid, hname, hcategory, hcell, orElse, Value.isNull,
      textCell_text, Bool.false_eq_true, if_false]
    cases hnumber : numberCell (.int n) with
    | error f => rfl
    | ok version =>
      obtain rfl := numberCell_int hnumber
      rfl
  · unfold FormulaRow.definition
    rw [hextras]
    simp only [htree, kind_of_kindWord hkind, hbenchmarks, bind, Except.bind, hdescribed,
      hinterpretation, hid, hname, hcategory, hdescription]

/-- The row of a definition whose tree formula text can hold. -/
theorem FormulaRow.holds_of_saved {source : Value} {d : Definition} (hd : d.ComesFrom source)
    (hstorable : d.tree.IsStorable) {n : Int} {expression kind : String} {r : FormulaRow}
    (hexpression : d.tree.toText = .ok expression) (hkind : FormulaTable.kindWord d.kind = .ok kind)
    (hrow : FormulaRow.ofValues (FormulaTable.dataOf d (.int n) expression kind) = .ok r) :
    r.Holds d ∧ r.version = .int n := by
  obtain ⟨t, htree, hreferences, hlike⟩ :=
    parseText_toText_of_isStorable hd.parse_eq hstorable hexpression
  obtain ⟨row, hvalues, hid, hversion, -, hdefinition⟩ :=
    FormulaRow.ofValues_dataOf hd n htree hkind
  obtain rfl : row = r := by
    rw [hvalues] at hrow
    cases hnumber : numberCell (.int n) with
    | error f =>
      rw [hnumber] at hrow
      cases hrow
    | ok v =>
      rw [hnumber] at hrow
      exact Except.ok.inj hrow
  exact ⟨⟨hid, _, hdefinition, rfl, rfl, rfl, rfl, rfl, rfl, rfl, hreferences,
    fun balances kind => hlike.result balances kind⟩, hversion⟩

namespace FormulaTable

/-- The rows of an id in the order of the table. -/
def own (t : FormulaTable) (id : String) : List FormulaRow := t.filter (·.id == id)

/-- The versions of every id count up from one in the order of the rows. -/
def Numbered (t : FormulaTable) : Prop :=
  ∀ id, (t.own id).map (·.version) = (List.range (t.own id).length).map fun i => .int (i + 1)

theorem Numbered.rowsOf_eq {t : FormulaTable} (h : t.Numbered) (id : String) :
    t.rowsOf id = t.own id := by
  apply List.mergeSort_of_pairwise
  have hpairs : ((t.own id).map (·.version)).Pairwise fun a b => cellUpTo a b = true := by
    rw [h id, List.pairwise_map]
    refine List.pairwise_lt_range.imp fun {i j} hij => cellUpTo_int ?_
    omega
  exact List.pairwise_map.mp hpairs

/-- The last row of an id has the number of its rows. -/
theorem Numbered.version_of_last {t : FormulaTable} (h : t.Numbered) {id : String}
    {r : FormulaRow} (hr : (t.own id).getLast? = some r) : r.version = .int (t.own id).length := by
  have hlast : (t.own id).getLast?.map (·.version) =
      (List.range (t.own id).length).getLast?.map fun i => .int (i + 1) := by
    rw [← List.getLast?_map, h id, List.getLast?_map]
  rw [hr, List.getLast?_range] at hlast
  split at hlast
  · cases hlast
  · have hcast : (((t.own id).length - 1 : Nat) : Int) + 1 = (t.own id).length := by omega
    simpa [hcast] using hlast

theorem Numbered.nextNumber_eq {t : FormulaTable} (h : t.Numbered) (id : String) :
    t.nextNumber (.text id) = .ok (.int ((t.own id).length + 1)) := by
  unfold nextNumber rowsFor
  simp only [textCell_text, bind, Except.bind, h.rowsOf_eq]
  cases hown : (t.own id).getLast? with
  | none =>
    rw [List.getLast?_eq_none_iff.mp hown]
    rfl
  | some r =>
    have hne : t.own id ≠ [] := by
      intro hnil
      rw [hnil] at hown
      cases hown
    simp [h.version_of_last hown, Value.isTruthy, hne, Value.successor?, Attempt.ofTyped]

/-- A row under the next number of its id goes on with the numbering. -/
theorem Numbered.concat {t : FormulaTable} (h : t.Numbered) {r : FormulaRow}
    (hr : r.version = .int ((t.own r.id).length + 1)) : Numbered (t ++ [r]) := by
  intro other
  have hown : own (t ++ [r]) other = t.own other ++ [r].filter (·.id == other) :=
    List.filter_append ..
  by_cases hother : r.id = other
  · subst hother
    rw [hown, List.filter_cons_of_pos (by simp)]
    simp [h r.id, List.range_succ, hr]
  · rw [hown, List.filter_cons_of_neg (by simpa using hother)]
    simpa using h other

/-- Saving, taken apart: a row under the next number is put behind the others. -/
theorem save_eq_ok {t t' : FormulaTable} {d d' : Definition} (h : t.save d = .ok (t', d')) :
    ∃ number expression kind row,
      t.nextNumber d.id = .ok number ∧ d.tree.toText = .ok expression ∧
      kindWord d.kind = .ok kind ∧
      FormulaRow.ofValues (dataOf d number expression kind) = .ok row ∧
      t' = t ++ [row] := by
  unfold save at h
  obtain ⟨number, hnumber, h⟩ := Attempt.bind_eq_ok.mp h
  obtain ⟨expression, hexpression, h⟩ := Attempt.bind_eq_ok.mp h
  obtain ⟨kind, hkind, h⟩ := Attempt.bind_eq_ok.mp h
  obtain ⟨row, hrow, h⟩ := Attempt.bind_eq_ok.mp h
  obtain ⟨t'', hinsert, h⟩ := Attempt.bind_eq_ok.mp h
  cases h
  refine ⟨number, expression, kind, row, hnumber, hexpression, hkind, hrow, ?_⟩
  unfold insert at hinsert
  split at hinsert
  · cases hinsert
  · cases hinsert
    rfl

/-- The numbering and the rows: one for every saved definition. -/
structure StandsFor (t : FormulaTable) (ds : List Definition) : Prop where
  numbered : t.Numbered
  rows : List.Forall₂ FormulaRow.Holds t ds

theorem StandsFor.empty : StandsFor [] [] where
  numbered := by
    intro id
    rfl
  rows := .nil

/-- An accepted save adds a row that holds its definition, under the next number
    of the id. -/
theorem StandsFor.save {t t' : FormulaTable} {ds : List Definition} {source : Value}
    {d d' : Definition} (ht : t.StandsFor ds) (hd : d.ComesFrom source)
    (hstorable : d.tree.IsStorable) (h : t.save d = .ok (t', d')) : t'.StandsFor (ds ++ [d]) := by
  obtain ⟨number, expression, kind, row, hnumber, hexpression, hkind, hrow, rfl⟩ := save_eq_ok h
  obtain ⟨id, hid⟩ := hd.id
  rw [hid, ht.numbered.nextNumber_eq] at hnumber
  cases hnumber
  obtain ⟨hholds, hversion⟩ := FormulaRow.holds_of_saved hd hstorable hexpression hkind hrow
  obtain rfl : row.id = id := Value.text.inj (hholds.id_eq.symm.trans hid)
  exact ⟨ht.numbered.concat hversion, List.rel_append ht.rows (.cons hholds .nil)⟩

/-- One save after the other, as long as they are accepted. -/
def saveAll (t : FormulaTable) : List Definition → Attempt FormulaTable
  | [] => .ok t
  | d :: ds => do
    let (t, _) ← t.save d
    t.saveAll ds

theorem StandsFor.saveAll {ds : List Definition} :
    ∀ {t t' : FormulaTable} {before : List Definition}, t.StandsFor before →
      (∀ d ∈ ds, ∃ source, d.ComesFrom source ∧ d.tree.IsStorable) →
      t.saveAll ds = .ok t' → t'.StandsFor (before ++ ds) := by
  induction ds with
  | nil =>
    intro t t' before ht _ h
    cases h
    rwa [List.append_nil]
  | cons d ds ih =>
    intro t t' before ht hds h
    obtain ⟨source, hd, hstorable⟩ := hds d List.mem_cons_self
    obtain ⟨⟨next, d'⟩, hsave, h⟩ := Attempt.bind_eq_ok.mp h
    rw [List.append_cons]
    exact ih (ht.save hd hstorable hsave) (fun e he => hds e (List.mem_cons_of_mem _ he)) h

/-! ### Loading -/

/-- Every row of the table can be read. -/
theorem StandsFor.definition_isOk {t : FormulaTable} {ds : List Definition} (ht : t.StandsFor ds)
    {r : FormulaRow} (hr : r ∈ t) : ∃ e, r.definition = .ok e := by
  obtain ⟨i, hi, rfl⟩ := List.mem_iff_getElem.mp hr
  obtain ⟨e, he, -⟩ := (ht.rows.get hi (ht.rows.length_eq ▸ hi)).definition
  exact ⟨e, he⟩

theorem StandsFor.mem_of_last {t : FormulaTable} {ds : List Definition} (ht : t.StandsFor ds)
    {id : String} {r : FormulaRow} (hr : (t.rowsOf id).getLast? = some r) : r ∈ t := by
  rw [ht.numbered.rowsOf_eq] at hr
  exact List.mem_of_mem_filter (List.mem_of_getLast? hr)

/-- The last row of an id holds the latest of its definitions. -/
theorem StandsFor.get?_latest {t : FormulaTable} {before after : List Definition} {d : Definition}
    (ht : t.StandsFor (before ++ d :: after)) (hafter : ∀ e ∈ after, e.id ≠ d.id) :
    ∃ e, t.get? d.id = .ok (some e) ∧ e.Restores d := by
  have hrest := List.forall₂_drop_append t before (d :: after) ht.rows
  cases hdrop : t.drop before.length with
  | nil =>
    rw [hdrop] at hrest
    cases hrest
  | cons row later =>
  rw [hdrop] at hrest
  obtain ⟨hrow, hlater⟩ := List.forall₂_cons.mp hrest
  -- no later row has that id
  have hnone : own later row.id = [] := by
    refine List.filter_eq_nil_iff.mpr fun r hr => ?_
    obtain ⟨i, hi, rfl⟩ := List.mem_iff_getElem.mp hr
    have hother := hlater.get hi (hlater.length_eq ▸ hi)
    have hne := hafter _ (List.getElem_mem (hlater.length_eq ▸ hi))
    rw [hrow.id_eq] at hne
    simpa using fun heq => hne (hother.id_eq.trans (congrArg Value.text heq))
  have hlast : (t.own row.id).getLast? = some row := by
    have hsplit : t.own row.id =
        own (t.take before.length) row.id ++ (row :: later).filter (·.id == row.id) := by
      rw [← hdrop, own, own, ← List.filter_append, List.take_append_drop]
    rw [hsplit, List.filter_cons_of_pos (by simp)]
    have hlater' : later.filter (·.id == row.id) = [] := hnone
    simp [hlater']
  obtain ⟨e, he, hrestores⟩ := hrow.definition
  refine ⟨e, ?_, hrestores⟩
  unfold get? rowsFor
  simp only [hrow.id_eq, textCell_text, bind, Except.bind, ht.numbered.rowsOf_eq, hlast, he]
  rfl

theorem StandsFor.get?_isOk {t : FormulaTable} {ds : List Definition} (ht : t.StandsFor ds)
    (id : String) : ∃ found, t.get? (.text id) = .ok found := by
  unfold get? rowsFor
  simp only [textCell_text, bind, Except.bind]
  cases hlast : (t.rowsOf id).getLast? with
  | none => exact ⟨none, rfl⟩
  | some r =>
    obtain ⟨e, he⟩ := ht.definition_isOk (ht.mem_of_last hlast)
    exact ⟨some e, by simp only [he]; rfl⟩

theorem exists_mapM_eq_ok {α β : Type} {f : α → Attempt β} {xs : List α}
    (h : ∀ x ∈ xs, ∃ y, f x = .ok y) : ∃ ys, xs.mapM f = .ok ys := by
  have hall : ∀ x ∈ xs, ∃ y, f x = .ok y ∧ True := fun x hx =>
    (h x hx).imp fun y hy => ⟨hy, trivial⟩
  obtain ⟨ys, hys, -⟩ := exists_mapM_forall₂ hall
  exact ⟨ys, hys⟩

theorem StandsFor.all_isOk {t : FormulaTable} {ds : List Definition} (ht : t.StandsFor ds) :
    ∃ all, t.all = .ok all := by
  apply exists_mapM_eq_ok
  intro r hr
  obtain ⟨id, -, hlast⟩ := List.mem_filterMap.mp hr
  exact ht.definition_isOk (ht.mem_of_last hlast)

/-- **Whatever the table accepts it can load.**  After any accepted saves of
    definitions whose trees come from formula text, or from other sources but
    can be held by such text, every id and the list of all formulas can be
    asked for; and the latest definition saved under an id is restored. -/
theorem loads_of_saves {ds : List Definition} {t : FormulaTable}
    (hds : ∀ d ∈ ds, ∃ source, d.ComesFrom source ∧ (source.IsText ∨ d.tree.IsStorable))
    (h : saveAll [] ds = .ok t) :
    (∃ all, t.all = .ok all) ∧ (∀ id, ∃ found, t.get? (.text id) = .ok found) ∧
      ∀ before d after, ds = before ++ d :: after → (∀ e ∈ after, e.id ≠ d.id) →
        ∃ e, t.get? d.id = .ok (some e) ∧ e.Restores d := by
  have hstorable : ∀ d ∈ ds, ∃ source, d.ComesFrom source ∧ d.tree.IsStorable := by
    intro d hd
    obtain ⟨source, hsource, ⟨s, rfl⟩ | hstorable⟩ := hds d hd
    · exact ⟨_, hsource, isStorable_of_parseText hsource.parse_eq⟩
    · exact ⟨source, hsource, hstorable⟩
  have ht : t.StandsFor ds := StandsFor.empty.saveAll hstorable h
  refine ⟨ht.all_isOk, ht.get?_isOk, ?_⟩
  rintro before d after rfl hafter
  exact ht.get?_latest hafter

/-- A loss margin from a term list with a negative number, with benchmarks. -/
theorem loads_of_saves_negative :
    ∃ d t, parseSource (.list [
        .object [("type", .text "constant"), ("constant", .text "-1.5")],
        .object [("operator", .text "*"), ("type", .text "account"), ("account", .text "10")]]) =
          .ok d.tree ∧
      d.benchmarks.isSome ∧ saveAll [] [d] = .ok t ∧
        ∃ e, t.get? d.id = .ok (some e) ∧ e.Restores d := by
  let tree : Term :=
    .binary (.constant (.finite true 15 (-1))) .mul (.account (.starting (.text "10")))
  let d : Definition := {
    id := .text "loss"
    name := .text "Loss"
    category := .text "custom"
    tree := tree
    kind := .amount
    description := .text ""
    sourceText := .text ""
    version := .int 1
    interpretation := .text "the more the worse"
    benchmarks := some ⟨.finite true 1000 (-2), .finite false 0 0, .finite false 2 1⟩ }
  have hparse : parseSource (.list [
      .object [("type", .text "constant"), ("constant", .text "-1.5")],
      .object [("operator", .text "*"), ("type", .text "account"), ("account", .text "10")]]) =
        .ok tree := by
    decide +kernel
  have hstorable : tree.IsStorable :=
    ⟨⟨⟨by decide, Decimal.isExact_of_digits (by decide +kernel) (by decide) (by decide +kernel)⟩,
      trivial⟩, by decide +kernel⟩
  have hd : d.ComesFrom _ :=
    ⟨hparse, ⟨_, rfl⟩, ⟨_, rfl⟩, ⟨_, rfl⟩, ⟨_, rfl⟩, .inr ⟨_, rfl⟩, by decide +kernel⟩
  obtain ⟨t, ht⟩ : ∃ t, saveAll [] [d] = .ok t := by
    have hisOk : (saveAll [] [d]).isOk = true := by decide +kernel
    cases hsave : saveAll [] [d] with
    | ok t => exact ⟨t, rfl⟩
    | error failure =>
      rw [hsave] at hisOk
      cases hisOk
  have hloads := loads_of_saves (by simpa using ⟨_, hd, .inr hstorable⟩) ht
  have hrestores : ∃ e, t.get? d.id = .ok (some e) ∧ e.Restores d := by
    apply hloads.2.2 [] d []
    · rfl
    · intro e he
      cases he
  exact ⟨d, t, hparse, rfl, ht, hrestores⟩

/-- A negative zero is accepted and cannot be loaded: it is no less than zero,
    so its sign is written, and formula text has no signs. -/
theorem not_loads_of_saves :
    ∃ d t failure, parseSource (.list [
        .object [("type", .text "constant"), ("constant", .text "-0")]]) = .ok d.tree ∧
      saveAll [] [d] = .ok t ∧ t.get? d.id = .error failure ∧ t.all = .error failure := by
  refine ⟨{
    id := .text "z"
    name := .text "z"
    category := .text "custom"
    tree := .constant (.finite true 0 0)
    kind := .amount
    description := .text ""
    sourceText := .text ""
    version := .int 1
    interpretation := .null
    benchmarks := none },
    [⟨"z", .int 1, "z", "custom", "-0", "amount", none, .null⟩],
    .parse ⟨"-0", .leadingOperator .sub, some 0⟩, ?_, ?_, ?_, ?_⟩
  all_goals decide +kernel

end FormulaTable

end Database

end KeyFigures
