/-
  KeyFigures/Proofs/Registry/Stores.lean
  ======================================
  **Memory and database keep the same formulas.**

  The archive in memory keeps definitions with their trees, the table keeps
  rows with texts.  `Mirrors` relates the two: the rows stand for the saved
  definitions one by one and in the same order, and the versions of an id are
  numbered in that order.  It holds of the empty stores, and saving the same
  definition in both keeps it (`Mirrors.save`), because both give it the number
  of the id's rows plus one, and because the tree of a formula text is read
  back from its canonical text.

  What can be asked of the stores follows from the relation: the rows of an id
  stand for its versions, its last row for the version in force, and the ids
  come in the same order.
-/
import KeyFigures.Proofs.Database.Formulas
import KeyFigures.Proofs.Registry.Lookup
import KeyFigures.Proofs.Value.Distinct

namespace KeyFigures

/-! ### Definitions that are saved -/

/-- A definition as it is written by hand: its tree comes from formula text, it
    is a first version of a proper kind, and its interpretation says something
    if there is one. -/
structure Definition.IsWritten (d : Definition) : Prop where
  comesFrom : ∃ s : String, d.ComesFrom (.text s)
  version_eq : d.version = .int 1
  isProper : d.kind.IsProper
  interpretation_ne : d.interpretation ≠ .text ""

/-- The definition with its canonical text as the source text. -/
def Definition.StoredAs (d e : Definition) : Prop :=
  ∃ s, d.tree.toText = .ok s ∧ e = { d with sourceText := .text s }

namespace Database

theorem numberCell_of_isStorable {n : Int} (h : isStorable n = true) :
    numberCell (.int n) = .ok (.int n) := by
  simp [numberCell, bound, Value.index?, h, withoutFraction, bind, Except.bind]

theorem exists_kindWord {kind : ResultKind} (h : kind.IsProper) :
    ∃ word, FormulaTable.kindWord kind = .ok word := by
  cases kind with
  | other v => exact h.elim
  | _ => exact ⟨_, rfl⟩

end Database

namespace Registry

open Database Database.FormulaTable

/-! ### Rows and saved definitions -/

/-- A row stands for a saved definition: reading it gives the definition with
    its canonical text. -/
structure KeptBy (r : FormulaRow) (d : Definition) : Prop where
  id_eq : d.id = .text r.id
  version_eq : d.version = r.version
  text_eq : d.tree.toText = .ok r.expression
  definition_eq : r.definition = .ok { d with sourceText := .text r.expression }

theorem KeptBy.exists_storedAs {r : FormulaRow} {d : Definition} (h : KeptBy r d) :
    ∃ e, r.definition = .ok e ∧ d.StoredAs e :=
  ⟨_, h.definition_eq, _, h.text_eq, rfl⟩

theorem exists_mapM_definition {rows : List FormulaRow} {ds : List Definition}
    (h : List.Forall₂ KeptBy rows ds) :
    ∃ es, rows.mapM (·.definition) = .ok es ∧ List.Forall₂ Definition.StoredAs ds es := by
  induction h with
  | nil => exact ⟨[], rfl, .nil⟩
  | cons hrow _ ih =>
    obtain ⟨e, he, hstored⟩ := hrow.exists_storedAs
    obtain ⟨es, hes, hall⟩ := ih
    exact ⟨e :: es, by rw [List.mapM_cons, he, hes]; rfl, .cons hstored hall⟩

theorem rel_getLast? {α β : Type} {R : α → β → Prop} {xs : List α} {ys : List β}
    (h : List.Forall₂ R xs ys) : Option.Rel R xs.getLast? ys.getLast? := by
  rw [List.getLast?_eq_head?_reverse, List.getLast?_eq_head?_reverse]
  have hreverse : List.Forall₂ R xs.reverse ys.reverse := List.rel_reverse h
  revert hreverse
  generalize xs.reverse = us
  generalize ys.reverse = vs
  rintro (_ | ⟨hlast, _⟩)
  · exact .none
  · exact .some hlast

/-- The rows of a table stand for what an archive has saved, and the versions of
    every id count up from one. -/
structure Mirrors (t : FormulaTable) (a : Archive) : Prop where
  numbered : t.Numbered
  rows : List.Forall₂ KeptBy t a.saved

namespace Mirrors

variable {t : FormulaTable} {a : Archive}

theorem empty : Mirrors [] .empty where
  numbered := fun _ => rfl
  rows := .nil

/-- The rows of an id stand for its versions. -/
theorem own (h : Mirrors t a) (id : String) :
    List.Forall₂ KeptBy (t.own id) (a.versions (.text id)) := by
  refine List.rel_filter (fun r d hrow => ?_) h.rows
  simp only [hrow.id_eq, Value.same_text_iff, beq_iff_eq, Value.text.injEq]

/-- The last row of an id stands for the version in force. -/
theorem latest (h : Mirrors t a) (id : String) :
    Option.Rel KeptBy (t.own id).getLast? (a.get? (.text id)) :=
  rel_getLast? (h.own id)

/-! ### Saving -/

/-- In memory a first version gets the number after those of its id. -/
theorem numbered_eq (h : Mirrors t a) {d : Definition} {id : String} (hid : d.id = .text id)
    (hversion : d.version = .int 1) :
    a.numbered d = .ok { d with version := .int ((t.own id).length + 1) } := by
  have hlatest := h.latest id
  rw [← hid] at hlatest
  unfold Archive.numbered
  cases hget : a.get? d.id with
  | none =>
    rw [hget] at hlatest
    cases hlast : (t.own id).getLast? with
    | none =>
      rw [List.getLast?_eq_none_iff.mp hlast]
      simp only [List.length_nil, Nat.cast_zero, zero_add, ← hversion]
    | some r =>
      rw [hlast] at hlatest
      cases hlatest
  | some latest =>
    rw [hget] at hlatest
    cases hlast : (t.own id).getLast? with
    | none =>
      rw [hlast] at hlatest
      cases hlatest
    | some r =>
      rw [hlast] at hlatest
      obtain ⟨hrow⟩ := hlatest
      simp [hrow.version_eq, h.numbered.version_of_last hlast, Value.successor?, Attempt.ofTyped,
        bind, Except.bind]

/-- A row under the next number of its id clashes with no other. -/
theorem insert_eq (h : Mirrors t a) {r : FormulaRow}
    (hr : r.version = .int ((t.own r.id).length + 1)) : t.insert r = .ok (t ++ [r]) := by
  refine if_neg ?_
  rw [List.any_eq_true]
  rintro ⟨s, hs, hclash⟩
  rw [Bool.and_eq_true, beq_iff_eq] at hclash
  have hown : s ∈ t.own r.id := List.mem_filter.mpr ⟨hs, by simp [hclash.1]⟩
  have hversions := List.mem_map_of_mem (f := (·.version)) hown
  rw [h.numbered r.id] at hversions
  obtain ⟨i, hi, hversion⟩ := List.mem_map.mp hversions
  have hlt : i < (t.own r.id).length := List.mem_range.mp hi
  have hsame := Value.same_iff.mp hclash.2
  rw [← hversion, hr] at hsame
  simp only [Value.unified, Value.int.injEq] at hsame
  omega

/-- What both stores do with a definition: they take it under the next number of
    its id, the table if the number fits its column. -/
theorem save (h : Mirrors t a) {d : Definition} (hd : d.IsWritten) {id : String}
    (hid : d.id = .text id) :
    ∃ a' d' t' e, a.save d = .ok (a', d') ∧
      (isStorable ((t.own id).length + 1) = true → t.save d = .ok (t', e)) ∧
      (∀ p, t.save d = .ok p → p = (t', e)) ∧ Mirrors t' a' ∧
      ∀ other, (t'.own other).length = (t.own other).length + if id = other then 1 else 0 := by
  obtain ⟨s, hsource⟩ := hd.comesFrom
  obtain ⟨expression, htext, hparse, -⟩ := parseText_toText hsource.parse_eq
  obtain ⟨word, hword⟩ := exists_kindWord hd.isProper
  obtain ⟨r, hvalues, hrid, hversion, hexpression, hdefinition⟩ :=
    FormulaRow.ofValues_dataOf hsource ((t.own id).length + 1) hparse hword
  obtain rfl : r.id = id := Value.text.inj (hrid.symm.trans hid)
  have hmemory : a.save d = .ok
      (a.add { d with version := .int ((t.own r.id).length + 1) },
        { d with version := .int ((t.own r.id).length + 1) }) := by
    unfold Archive.save
    rw [h.numbered_eq hid hd.version_eq, hid]
    rfl
  have htable : t.save d = (numberCell (.int ((t.own r.id).length + 1))).map fun _ =>
      (t ++ [r],
        { d with sourceText := .text expression, version := .int ((t.own r.id).length + 1) }) := by
    have hnext : t.nextNumber d.id = .ok (.int ((t.own r.id).length + 1)) := by
      rw [hid, h.numbered.nextNumber_eq]
    unfold FormulaTable.dataOf at hvalues
    unfold FormulaTable.save
    rw [hnext, htext, hword]
    simp only [bind, Except.bind]
    rw [hvalues]
    cases numberCell (.int ((t.own r.id).length + 1)) with
    | error f => rfl
    | ok version => simp only [Except.map, h.insert_eq hversion]
  have hkept : KeptBy r { d with version := .int ((t.own r.id).length + 1) } := by
    refine ⟨hid, hversion.symm, ?_, ?_⟩
    · rw [hexpression]
      exact htext
    · rw [hdefinition, if_neg hd.interpretation_ne, hexpression]
  refine ⟨_, _, t ++ [r],
    { d with sourceText := .text expression, version := .int ((t.own r.id).length + 1) },
    hmemory, fun hnumber => ?_, fun p hp => ?_, ⟨h.numbered.concat hversion, ?_⟩, fun other => ?_⟩
  · rw [htable, numberCell_of_isStorable hnumber]
    rfl
  · rw [htable] at hp
    generalize numberCell (.int ((t.own r.id).length + 1)) = cell at hp
    cases cell with
    | error f => cases hp
    | ok number => exact (Except.ok.inj hp).symm
  · exact List.rel_append h.rows (.cons hkept .nil)
  · unfold FormulaTable.own
    rw [List.filter_append, List.length_append]
    by_cases hother : r.id = other <;> simp [hother]

/-! ### Asking -/

theorem get? (h : Mirrors t a) (id : String) :
    ∃ loaded, t.get? (.text id) = .ok loaded ∧
      Option.Rel Definition.StoredAs (a.get? (.text id)) loaded := by
  have hlatest := h.latest id
  unfold FormulaTable.get? rowsFor
  simp only [textCell_text, bind, Except.bind, h.numbered.rowsOf_eq]
  revert hlatest
  cases (t.own id).getLast? with
  | none =>
    intro hlatest
    cases hget : a.get? (.text id) with
    | none => exact ⟨none, rfl, .none⟩
    | some d =>
      rw [hget] at hlatest
      cases hlatest
  | some r =>
    intro hlatest
    cases hget : a.get? (.text id) with
    | none =>
      rw [hget] at hlatest
      cases hlatest
    | some d =>
      rw [hget] at hlatest
      obtain ⟨hrow⟩ := hlatest
      obtain ⟨e, he, hstored⟩ := hrow.exists_storedAs
      exact ⟨some e, by simp [he, Except.map], .some hstored⟩

theorem versions (h : Mirrors t a) (id : String) :
    ∃ es, t.versions (.text id) = .ok es ∧
      List.Forall₂ Definition.StoredAs (a.versions (.text id)) es := by
  obtain ⟨es, hes, hall⟩ := exists_mapM_definition (h.own id)
  refine ⟨es, ?_, hall⟩
  unfold FormulaTable.versions rowsFor
  simp only [textCell_text, bind, Except.bind, h.numbered.rowsOf_eq]
  exact hes

end Mirrors

/-! ### The order of the ids -/

theorem before?_text (s t : String) :
    (Value.text s).before? (.text t) = some (decide (s < t)) := by
  rw [Value.before?]

theorem sorted?_map_text (xs : List String) :
    Value.sorted? (xs.map .text) =
      some ((xs.mergeSort fun a b => decide (a ≤ b)).map .text) := by
  have hordered : (xs.map Value.text).all fun a =>
      (xs.map Value.text).all fun b => (a.before? b).isSome := by
    simp [before?_text]
  unfold Value.sorted?
  rw [if_pos (.inr hordered), List.map_mergeSort]
  intro a _ b _
  rw [before?_text]
  by_cases hlt : b < a
  · simp [hlt]
  · simp [hlt, String.not_lt.mp hlt]

namespace Mirrors

variable {t : FormulaTable} {a : Archive}

theorem sorted_ids (h : Mirrors t a) : Value.sorted? a.ids = some (t.ids.map .text) := by
  have hids : a.saved.map (·.id) = (t.map (·.id)).map .text := by
    rw [List.map_map, ← List.forall₂_eq_eq_eq, List.forall₂_map_left_iff,
      List.forall₂_map_right_iff]
    exact h.rows.flip.imp fun d r hrow => hrow.id_eq
  unfold Archive.ids FormulaTable.ids
  rw [hids, Value.distinct_map_text, sorted?_map_text]

theorem all (h : Mirrors t a) :
    ∃ ds es, a.all = .ok ds ∧ t.all = .ok es ∧ List.Forall₂ Definition.StoredAs ds es := by
  have hlatest : List.Forall₂ KeptBy (t.ids.filterMap fun id => (t.rowsOf id).getLast?)
      (t.ids.filterMap fun id => a.get? (.text id)) := by
    refine List.rel_filterMap (R := Eq) ?_ (List.forall₂_refl _)
    rintro id _ rfl
    simp only [h.numbered.rowsOf_eq]
    exact h.latest id
  obtain ⟨es, hes, hall⟩ := exists_mapM_definition hlatest
  refine ⟨_, es, ?_, hes, hall⟩
  unfold Archive.all
  rw [h.sorted_ids]
  simp only [Attempt.ofTyped, bind, Except.bind, List.filterMap_map, Function.comp_def]

end Mirrors

/-! ### The two stores -/

namespace UserStore

/-- One save after the other, as long as they are accepted. -/
def saveAll (s : UserStore) : List Definition → Attempt UserStore
  | [] => .ok s
  | d :: ds => do
    let (s, _) ← s.save d
    s.saveAll ds

/-- Whatever is asked of the second store, it answers as the first one does,
    with the canonical texts as source texts. -/
structure AnsweredBy (m s : UserStore) : Prop where
  get? : ∀ id : String, ∃ found loaded, m.get? (.text id) = .ok found ∧
    s.get? (.text id) = .ok loaded ∧ Option.Rel Definition.StoredAs found loaded
  versions : ∀ id : String, ∃ ds es, m.versions (.text id) = .ok ds ∧
    s.versions (.text id) = .ok es ∧ List.Forall₂ Definition.StoredAs ds es
  all : ∃ ds es, m.all = .ok ds ∧ s.all = .ok es ∧ List.Forall₂ Definition.StoredAs ds es

/-- A store in memory and one in a database whose table mirrors it. -/
inductive Twins : UserStore → UserStore → Prop
  | intro {a : Archive} {db : Database} {tables : Tables} : db.tables = .ok tables →
    Mirrors tables.formulas a → Twins (.memory a) (.stored db)

theorem Twins.answeredBy {m s : UserStore} (h : Twins m s) : m.AnsweredBy s := by
  obtain ⟨htables, hmirrors⟩ := h
  refine ⟨fun id => ?_, fun id => ?_, ?_⟩
  · obtain ⟨loaded, hloaded, hrel⟩ := hmirrors.get? id
    refine ⟨_, loaded, rfl, ?_, hrel⟩
    rw [UserStore.get?, htables]
    exact hloaded
  · obtain ⟨es, hes, hall⟩ := hmirrors.versions id
    refine ⟨_, es, rfl, ?_, hall⟩
    rw [UserStore.versions, htables]
    exact hes
  · obtain ⟨ds, es, hds, hes, hall⟩ := hmirrors.all
    refine ⟨ds, es, hds, ?_, hall⟩
    rw [UserStore.all, htables]
    exact hes

theorem isStorable_of_lt {n : Nat} (h : n < 2 ^ 63) : isStorable n = true := by
  have hpow : (Nat.pow 2 63 : Int) = 2 ^ 63 := rfl
  unfold isStorable
  rw [hpow, Bool.and_eq_true, decide_eq_true_eq, decide_eq_true_eq]
  omega

theorem save_stored_eq_ok {db : Database} {tables : Tables} (htables : db.tables = .ok tables)
    {d : Definition} {p : UserStore × Definition} :
    (UserStore.stored db).save d = .ok p ↔ ∃ q, tables.formulas.save d = .ok q ∧
      (.stored (db.withTables { tables with formulas := q.1 }), q.2) = p := by
  have hsave : (UserStore.stored db).save d = (tables.formulas.save d >>= fun q =>
      .ok (.stored (db.withTables { tables with formulas := q.1 }), q.2)) := by
    rw [UserStore.save, htables]
    rfl
  rw [hsave, Attempt.bind_eq_ok]
  simp only [Except.ok.injEq]

/-- Saves in both stores: memory takes every definition, the table as long as
    the numbers fit their column, and it mirrors the archive as long as it takes
    them. -/
theorem saveAll_twins {ds : List Definition} (hds : ∀ d ∈ ds, d.IsWritten) :
    ∀ {a : Archive} {db : Database} {tables : Tables}, db.tables = .ok tables →
      Mirrors tables.formulas a →
      ∃ m, (UserStore.memory a).saveAll ds = .ok m ∧
        ((∀ id, (tables.formulas.own id).length + ds.countP (·.id = .text id) < 2 ^ 63) →
          ∃ s, (UserStore.stored db).saveAll ds = .ok s) ∧
        ∀ s, (UserStore.stored db).saveAll ds = .ok s → Twins m s := by
  induction ds with
  | nil =>
    intro a db tables htables hmirrors
    refine ⟨_, rfl, fun _ => ⟨_, rfl⟩, fun s hs => ?_⟩
    obtain rfl := Except.ok.inj hs
    exact .intro htables hmirrors
  | cons d ds ih =>
    intro a db tables htables hmirrors
    have hd : d.IsWritten := hds d (by simp)
    obtain ⟨source, hsource⟩ := hd.comesFrom
    obtain ⟨id, hid⟩ := hsource.id
    obtain ⟨a', d', t', e, hmemory, htaken, honly, hmirrors', hlength⟩ := hmirrors.save hd hid
    have htables' : (db.withTables { tables with formulas := t' }).tables =
        .ok { tables with formulas := t' } := rfl
    obtain ⟨m, hm, haccepts, htwins⟩ := ih (fun x hx => hds x (by simp [hx])) htables' hmirrors'
    refine ⟨m, ?_, fun hroom => ?_, fun s hs => ?_⟩
    · have hsave : (UserStore.memory a).save d = .ok (.memory a', d') := by
        rw [UserStore.save, hmemory]
        rfl
      exact Attempt.bind_eq_ok.mpr ⟨_, hsave, hm⟩
    · have hnumber : isStorable ((tables.formulas.own id).length + 1) = true := by
        have hfits := hroom id
        simp only [List.countP_cons, hid, decide_true, if_true] at hfits
        exact_mod_cast isStorable_of_lt (n := (tables.formulas.own id).length + 1) (by omega)
      obtain ⟨s, hs⟩ := haccepts fun other => by
        have hfits := hroom other
        simp only [List.countP_cons, hid, Value.text.injEq, decide_eq_true_eq] at hfits
        rw [hlength other]
        omega
      have hsave := (save_stored_eq_ok htables).mpr ⟨_, htaken hnumber, rfl⟩
      exact ⟨s, Attempt.bind_eq_ok.mpr ⟨_, hsave, hs⟩⟩
    · obtain ⟨⟨s', e'⟩, hsave, hrest⟩ := Attempt.bind_eq_ok.mp hs
      obtain ⟨q, hq, heq⟩ := (save_stored_eq_ok htables).mp hsave
      obtain rfl := honly q hq
      obtain ⟨rfl, -⟩ := Prod.mk.inj heq
      exact htwins s hrest

/-- **The two stores are interchangeable.**  After any saves of the same written
    definitions, an archive in memory and a database with an empty formula table
    have the same formulas with the same versions and trees, in the same order;
    the database has their canonical texts as source texts.  The archive takes
    every such definition, and so does the database as long as no formula has
    more versions than a column of sixty-four bits can number. -/
theorem stores_interchangeable {db : Database} {tables : Tables} (htables : db.tables = .ok tables)
    (hempty : tables.formulas = []) {ds : List Definition} (hds : ∀ d ∈ ds, d.IsWritten) :
    ∃ m, (memory .empty).saveAll ds = .ok m ∧
      ((∀ id, ds.countP (·.id = .text id) < 2 ^ 63) → ∃ s, (stored db).saveAll ds = .ok s) ∧
      ∀ s, (stored db).saveAll ds = .ok s → m.AnsweredBy s := by
  have hmirrors : Mirrors tables.formulas .empty := by
    rw [hempty]
    exact Mirrors.empty
  obtain ⟨m, hm, haccepts, htwins⟩ := saveAll_twins hds htables hmirrors
  refine ⟨m, hm, fun hroom => haccepts fun id => ?_, fun s hs => (htwins s hs).answeredBy⟩
  rw [hempty]
  simpa [FormulaTable.own] using hroom id

/-- Two versions of one formula, and in between one whose id comes first. -/
def threeSaves : List Definition := [
  .ofTree "share" (.binary (.account (.starting (.text "10"))) .div (.formula (.text "base"))),
  { Definition.ofTree "base" (.account (.between (.text "1") (.text "7"))) with
    interpretation := .text "the more the better" },
  .ofTree "share" (.constant (.finite false 250 (-2)))]

theorem threeSaves_isWritten : ∀ d ∈ threeSaves, d.IsWritten := by
  intro d hd
  simp only [threeSaves, List.mem_cons, List.not_mem_nil, or_false] at hd
  have hmembers : ∀ (s id : String) (t : Term), parseText s = .ok t →
      (Definition.ofTree id t).ComesFrom (.text s) := fun s id t hs =>
    ⟨hs, ⟨_, rfl⟩, ⟨_, rfl⟩, ⟨_, rfl⟩, ⟨_, rfl⟩, .inl rfl, by simp [Definition.ofTree]⟩
  rcases hd with rfl | rfl | rfl
  · exact ⟨⟨"[10] / \x7bbase\x7d", hmembers _ _ _ (by decide +kernel)⟩, rfl, trivial,
      by simp [Definition.ofTree]⟩
  · have hrange : parseText "[1-7]" = .ok (.account (.between (.text "1") (.text "7"))) := by
      decide +kernel
    exact ⟨⟨"[1-7]", { hmembers _ "base" _ hrange with interpretation := .inr ⟨_, rfl⟩ }⟩, rfl,
      trivial, by simp⟩
  · exact ⟨⟨"2.50", hmembers _ _ _ (by decide +kernel)⟩, rfl, trivial, by simp [Definition.ofTree]⟩

theorem stores_interchangeable_threeSaves :
    ∃ m s, (memory .empty).saveAll threeSaves = .ok m ∧ (stored {}).saveAll threeSaves = .ok s ∧
      m.AnsweredBy s := by
  have htables : ({} : Database).tables = .ok {} := rfl
  obtain ⟨m, hm, haccepts, hanswers⟩ := stores_interchangeable htables rfl threeSaves_isWritten
  obtain ⟨s, hs⟩ := haccepts fun id =>
    Nat.lt_of_le_of_lt List.countP_le_length (by decide)
  exact ⟨m, s, hm, hs, hanswers s hs⟩

end UserStore

end Registry

end KeyFigures
