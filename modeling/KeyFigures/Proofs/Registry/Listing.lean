/-
  KeyFigures/Proofs/Registry/Listing.lean
  =======================================
  **One formula for each id.**

  A library that is accepted has one formula for each id, and a store lists the
  newest version of each id that it keeps.  No save is accepted under an id of
  the library, so the two never meet (`TwoTiers`): what is listed has different
  ids, and looking up an id finds exactly what is listed under it
  (`afterSaves_lists_what_is_found`).

  A database may keep rows that it cannot read.  Then the listing fails, and it
  fails as looking up one of the ids does.
-/
import KeyFigures.Library.Basic
import KeyFigures.Proofs.Registry.Saving
import KeyFigures.Proofs.Registry.Stores

namespace KeyFigures

/-! ### Definitions with different ids -/

namespace Definition

/-- No two definitions have ids that count as the same. -/
def DistinctIds (ds : List Definition) : Prop := ds.Pairwise fun d e => d.id.same e.id = false

namespace DistinctIds

variable {ds es : List Definition}

theorem eq_of_same (h : DistinctIds ds) {d e : Definition} (hd : d ∈ ds) (he : e ∈ ds)
    (hsame : d.id.same e.id = true) : d = e := by
  by_contra hne
  have hsymm : Std.Symm fun d e : Definition => d.id.same e.id = false :=
    ⟨fun d e hde => by rw [Value.same_comm, hde]⟩
  have hdiffer := h.forall hd he hne
  rw [hsame] at hdiffer
  cases hdiffer

/-- The first definition with an id is the only one. -/
theorem find?_eq_some_iff (h : DistinctIds ds) {id : Value} {d : Definition} :
    ds.find? (·.id.same id) = some d ↔ d ∈ ds ∧ d.id.same id = true := by
  constructor
  · intro hfind
    exact ⟨List.mem_of_find?_eq_some hfind, by simpa using List.find?_some hfind⟩
  · rintro ⟨hd, hsame⟩
    cases hfind : ds.find? (·.id.same id) with
    | none => exact absurd hsame (by simpa using List.find?_eq_none.mp hfind d hd)
    | some e =>
      have he : e.id.same id = true := by simpa using List.find?_some hfind
      have heq : e = d := by
        refine h.eq_of_same (List.mem_of_find?_eq_some hfind) hd ?_
        rwa [Value.same_congr_right hsame]
      rw [heq]

/-- The last definition with an id is the first one. -/
theorem getLast?_filter (h : DistinctIds ds) (id : Value) :
    (ds.filter (·.id.same id)).getLast? = ds.find? (·.id.same id) := by
  cases hlast : (ds.filter (·.id.same id)).getLast? with
  | none =>
    have hnil := List.getLast?_eq_none_iff.mp hlast
    rw [← List.head?_filter, hnil]
    rfl
  | some d => exact (h.find?_eq_some_iff.mpr (List.mem_filter.mp (List.mem_of_getLast? hlast))).symm

theorem append (hds : DistinctIds ds) (hes : DistinctIds es)
    (h : ∀ d ∈ ds, ∀ e ∈ es, d.id.same e.id = false) : DistinctIds (ds ++ es) :=
  List.pairwise_append.mpr ⟨hds, hes, h⟩

end DistinctIds

end Definition

open Definition (DistinctIds)

/-! ### Libraries -/

namespace Library

/-- Formulas as a library has them: their ids are keys, and differ. -/
structure IsCatalogue (formulas : List Definition) : Prop where
  keys : ∀ d ∈ formulas, d.id.isKey = true
  distinct : DistinctIds formulas

theorem IsCatalogue.nil : IsCatalogue [] where
  keys := by simp
  distinct := .nil

/-- Of a formula that is added the id is a key, and it is a new one. -/
theorem IsCatalogue.addFormula {categories : List Category} {formulas formulas' : List Definition}
    {v : Value} (h : IsCatalogue formulas) (hadd : addFormula categories formulas v = .ok formulas') :
    IsCatalogue formulas' := by
  obtain ⟨d, -, hadd⟩ := Attempt.bind_eq_ok.mp hadd
  obtain ⟨hkey, hnew, rfl⟩ : d.id.isKey = true ∧ formulas.any (·.id.same d.id) = false ∧
      formulas' = formulas ++ [d] := by
    simp only [Attempt.mistyped, Attempt.refuse, bind, Except.bind] at hadd
    split at hadd
    · cases hadd
    rename_i hkey
    split at hadd
    · cases hadd
    rename_i hnew
    refine ⟨by simpa using hkey, by simpa using hnew, ?_⟩
    -- whatever the categories are, the formula comes last
    repeat' split at hadd
    all_goals cases hadd
    all_goals rfl
  constructor
  · intro e he
    rcases List.mem_append.mp he with hold | hnew
    · exact h.keys e hold
    · rw [List.mem_singleton.mp hnew, hkey]
  · refine h.distinct.append (List.pairwise_singleton _ _) fun e he d' hd' => ?_
    rw [List.mem_singleton.mp hd']
    simpa using List.any_eq_false.mp hnew e he

theorem IsCatalogue.foldlM {categories : List Category} {items : List Value}
    {formulas formulas' : List Definition} (h : IsCatalogue formulas)
    (hread : items.foldlM (Library.addFormula categories) formulas = .ok formulas') :
    IsCatalogue formulas' := by
  induction items generalizing formulas with
  | nil =>
    obtain rfl := Except.ok.inj hread
    exact h
  | cons v items ih =>
    rw [List.foldlM_cons] at hread
    obtain ⟨next, hadd, hrest⟩ := Attempt.bind_eq_ok.mp hread
    exact ih (h.addFormula hadd) hrest

/-- **An accepted library has one formula for each id.** -/
theorem isCatalogue_of_ofValue {v : Value} {library : Library} (h : ofValue v = .ok library) :
    IsCatalogue library.formulas := by
  unfold ofValue at h
  split at h
  · obtain ⟨categories, -, h⟩ := Attempt.bind_eq_ok.mp h
    obtain ⟨formulas, hformulas, h⟩ := Attempt.bind_eq_ok.mp h
    obtain ⟨checksum, -, h⟩ := Attempt.bind_eq_ok.mp h
    obtain rfl := Except.ok.inj h
    unfold readFormulas at hformulas
    split at hformulas
    · obtain ⟨items, -, hread⟩ := Attempt.bind_eq_ok.mp hformulas
      exact IsCatalogue.nil.foldlM hread
    · obtain rfl := Except.ok.inj hformulas
      exact .nil
  · cases h

end Library

/-! ### Newest versions by name -/

/-- The ids that a store lists, in order. -/
theorem nodup_sorted_eraseDups (names : List String) :
    (names.eraseDups.mergeSort fun a b => decide (a ≤ b)).Nodup := by
  refine (List.mergeSort_perm _ _).nodup_iff.mpr ?_
  have hdistinct := Value.pairwise_distinct (names.map .text)
  rw [Value.distinct_map_text, List.pairwise_map] at hdistinct
  refine hdistinct.imp fun {a b} hne heq => ?_
  rw [heq, Value.same_self] at hne
  cases hne

section Newest

variable {names : List String} {latest : String → Option Definition}

theorem distinctIds_newest (hnames : names.Nodup)
    (hid : ∀ id d, latest id = some d → d.id = .text id) :
    DistinctIds (names.filterMap latest) := by
  apply List.pairwise_filterMap.mpr
  refine hnames.imp fun {id other} hne d hd e he => ?_
  rw [hid id d hd, hid other e he]
  by_contra hsame
  have heq := Value.same_text_iff.mp (Bool.not_eq_false _ ▸ hsame)
  exact hne (Value.text.inj heq)

theorem find?_newest (hnames : names.Nodup)
    (hid : ∀ id d, latest id = some d → d.id = .text id)
    (hmem : ∀ id d, latest id = some d → id ∈ names) (id : String) :
    (names.filterMap latest).find? (·.id.same (.text id)) = latest id := by
  cases hlatest : latest id with
  | some d =>
    refine (distinctIds_newest hnames hid).find?_eq_some_iff.mpr
      ⟨List.mem_filterMap.mpr ⟨id, hmem id d hlatest, hlatest⟩, ?_⟩
    rw [hid id d hlatest, Value.same_self]
  | none =>
    refine List.find?_eq_none.mpr fun d hd hsame => ?_
    obtain ⟨other, -, hother⟩ := List.mem_filterMap.mp hd
    rw [hid other d hother] at hsame
    obtain rfl : other = id := Value.text.inj (Value.same_text_iff.mp hsame)
    rw [hlatest] at hother
    cases hother

end Newest

/-! ### The table of formulas -/

namespace Database

theorem FormulaRow.id_of_definition {r : FormulaRow} {d : Definition} (h : r.definition = .ok d) :
    d.id = .text r.id := by
  obtain ⟨extras, -, h⟩ := Attempt.bind_eq_ok.mp h
  obtain ⟨tree, -, h⟩ := Attempt.bind_eq_ok.mp h
  obtain ⟨kind, -, h⟩ := Attempt.bind_eq_ok.mp h
  obtain ⟨benchmarks, -, h⟩ := Attempt.bind_eq_ok.mp h
  obtain rfl := Except.ok.inj h
  rfl

/-- A row keeps an id that is a text. -/
theorem FormulaRow.id_of_ofValues {data : FormulaData} {r : FormulaRow} {id : String}
    (hid : data.id = .text id) (h : FormulaRow.ofValues data = .ok r) : r.id = id := by
  unfold FormulaRow.ofValues at h
  rw [hid, textCell_text] at h
  obtain ⟨id', hid', h⟩ := Attempt.bind_eq_ok.mp h
  obtain rfl := Except.ok.inj hid'
  obtain ⟨version, -, h⟩ := Attempt.bind_eq_ok.mp h
  obtain ⟨name, -, h⟩ := Attempt.bind_eq_ok.mp h
  obtain ⟨category, -, h⟩ := Attempt.bind_eq_ok.mp h
  obtain ⟨expression, -, h⟩ := Attempt.bind_eq_ok.mp h
  obtain ⟨kind, -, h⟩ := Attempt.bind_eq_ok.mp h
  obtain ⟨description, -, h⟩ := Attempt.bind_eq_ok.mp h
  split at h
  · rename_i hsome _ _ _ _
    obtain rfl := Option.some.inj hsome
    split at h
    · cases h
    · obtain rfl := Except.ok.inj h
      rfl
  · cases h

namespace FormulaTable

variable {t : FormulaTable}

/-- The row that is in force for an id. -/
def newest? (t : FormulaTable) (id : String) : Option FormulaRow := (t.rowsOf id).getLast?

theorem mem_of_newest? {id : String} {r : FormulaRow} (h : t.newest? id = some r) :
    r ∈ t ∧ r.id = id := by
  have hmem : r ∈ t.rowsOf id := List.mem_of_getLast? h
  unfold rowsOf at hmem
  rw [List.mem_mergeSort, List.mem_filter, beq_iff_eq] at hmem
  exact hmem

theorem mem_ids {r : FormulaRow} (h : r ∈ t) : r.id ∈ t.ids := by
  unfold ids
  rw [List.mem_mergeSort, List.mem_eraseDups]
  exact List.mem_map_of_mem h

theorem nodup_ids (t : FormulaTable) : t.ids.Nodup := nodup_sorted_eraseDups _

theorem get?_text (t : FormulaTable) (id : String) :
    t.get? (.text id) =
      match t.newest? id with
      | some r => r.definition.map some
      | none => .ok none := rfl

/-- The formula that is in force for an id, if there is one that can be read. -/
def readable? (t : FormulaTable) (id : String) : Option Definition :=
  (t.newest? id).bind fun r => r.definition.toOption

theorem readable?_eq_some {id : String} {d : Definition} (h : t.readable? id = some d) :
    ∃ r, t.newest? id = some r ∧ r.definition = .ok d := by
  obtain ⟨r, hr, hd⟩ := Option.bind_eq_some_iff.mp h
  refine ⟨r, hr, ?_⟩
  cases hdefinition : r.definition with
  | error f =>
    rw [hdefinition] at hd
    cases hd
  | ok e =>
    rw [hdefinition] at hd
    rw [Option.some.inj hd]

/-- A list of all formulas has the readable ones, and no row in force is
    unreadable. -/
theorem all_eq_ok {ds : List Definition} (h : t.all = .ok ds) :
    ds = t.ids.filterMap t.readable? ∧ ∀ id, t.get? (.text id) = .ok (t.readable? id) := by
  refine ⟨?_, fun id => ?_⟩
  · rw [eq_filterMap_of_mapM h, List.filterMap_filterMap]
    rfl
  · rw [get?_text, readable?]
    cases hnewest : t.newest? id with
    | none => rfl
    | some r =>
      obtain ⟨hmem, rfl⟩ := mem_of_newest? hnewest
      have hlisted := List.mem_filterMap.mpr ⟨r.id, mem_ids hmem, hnewest⟩
      obtain ⟨d, -, hd⟩ := exists_of_mem_of_mapM h hlisted
      rw [Option.bind_some, hd]
      dsimp only
      rw [hd]
      rfl

/-- A list of all formulas fails as looking up one of the ids does. -/
theorem exists_get?_of_all_eq_error {f : Failure} (h : t.all = .error f) :
    ∃ r ∈ t, t.get? (.text r.id) = .error f := by
  obtain ⟨r, hlisted, hr⟩ := exists_of_mapM_eq_error h
  obtain ⟨id, -, hnewest⟩ := List.mem_filterMap.mp hlisted
  obtain ⟨hmem, rfl⟩ := mem_of_newest? hnewest
  refine ⟨r, hmem, ?_⟩
  rw [get?_text, show t.newest? r.id = some r from hnewest]
  dsimp only
  rw [hr]
  rfl

end FormulaTable

end Database

/-! ### What a store lists -/

namespace Registry

open Database Database.FormulaTable

namespace UserStore

/-- The ids of all versions that a store keeps, with repeats. -/
def savedIds : UserStore → List Value
  | .memory a => a.saved.map (·.id)
  | .stored db => ((db.tables?.map (·.formulas)).getD []).map fun r => .text r.id

theorem savedIds_stored {db : Database} {tables : Tables} (htables : db.tables = .ok tables) :
    (stored db).savedIds = tables.formulas.map fun r => .text r.id := by
  unfold Database.tables at htables
  cases hfound : db.tables? with
  | none =>
    rw [hfound] at htables
    cases htables
  | some found =>
    rw [hfound] at htables
    obtain rfl := Except.ok.inj htables
    rw [savedIds, hfound]
    rfl

/-- All ids that a store keeps are texts. -/
def KeepsTexts (s : UserStore) : Prop := ∀ id ∈ s.savedIds, ∃ name, id = .text name

/-- A list of one formula for each id of the store: what looking up the id
    finds. -/
structure Lists (s : UserStore) (ds : List Definition) : Prop where
  distinct : DistinctIds ds
  saved : ∀ d ∈ ds, d.id ∈ s.savedIds
  get?_eq : ∀ id : String, s.get? (.text id) = .ok (ds.find? (·.id.same (.text id)))

/-- The formulas in memory can always be listed. -/
theorem lists_memory {a : Archive} (htexts : (memory a).KeepsTexts) :
    ∃ ds, a.all = .ok ds ∧ (memory a).Lists ds := by
  obtain ⟨names, hnames⟩ : a.saved.map (·.id) ∈ Set.range (List.map Value.text) := by
    rw [Set.range_list_map]
    intro id hid
    obtain ⟨name, rfl⟩ := htexts id hid
    exact ⟨name, rfl⟩
  have hid : ∀ id d, a.get? (.text id) = some d → d.id = .text id := by
    intro id d hd
    exact Value.same_text_iff.mp (List.mem_filter.mp (List.mem_of_getLast? hd)).2
  have hmem : ∀ id d, a.get? (.text id) = some d →
      id ∈ names.eraseDups.mergeSort fun a b => decide (a ≤ b) := by
    intro id d hd
    have hsaved : d.id ∈ a.saved.map (·.id) :=
      List.mem_map_of_mem (List.mem_filter.mp (List.mem_of_getLast? hd)).1
    rw [hid id d hd, ← hnames] at hsaved
    obtain ⟨name, hname, htext⟩ := List.mem_map.mp hsaved
    rw [List.mem_mergeSort, List.mem_eraseDups, ← Value.text.inj htext]
    exact hname
  have hall : a.all = .ok ((names.eraseDups.mergeSort fun a b => decide (a ≤ b)).filterMap
      fun id => a.get? (.text id)) := by
    unfold Archive.all Archive.ids
    rw [← hnames, Value.distinct_map_text, sorted?_map_text]
    simp only [Attempt.ofTyped, bind, Except.bind, List.filterMap_map, Function.comp_def]
  refine ⟨_, hall, distinctIds_newest (nodup_sorted_eraseDups names) hid, fun d hd => ?_,
    fun id => ?_⟩
  · exact List.mem_map_of_mem (Archive.mem_saved_of_mem_all hall hd)
  · rw [find?_newest (nodup_sorted_eraseDups names) hid hmem id]
    rfl

theorem lists_stored {db : Database} {tables : Tables} (htables : db.tables = .ok tables)
    {ds : List Definition} (hall : tables.formulas.all = .ok ds) : (stored db).Lists ds := by
  obtain ⟨rfl, hget⟩ := FormulaTable.all_eq_ok hall
  have hid : ∀ id d, tables.formulas.readable? id = some d → d.id = .text id := by
    intro id d hd
    obtain ⟨r, hr, hdefinition⟩ := FormulaTable.readable?_eq_some hd
    rw [FormulaRow.id_of_definition hdefinition, (FormulaTable.mem_of_newest? hr).2]
  have hmem : ∀ id d, tables.formulas.readable? id = some d → ∃ r ∈ tables.formulas, r.id = id := by
    intro id d hd
    obtain ⟨r, hr, -⟩ := FormulaTable.readable?_eq_some hd
    exact ⟨r, FormulaTable.mem_of_newest? hr⟩
  have hids : ∀ id d, tables.formulas.readable? id = some d → id ∈ tables.formulas.ids := by
    intro id d hd
    obtain ⟨r, hr, rfl⟩ := hmem id d hd
    exact FormulaTable.mem_ids hr
  refine ⟨distinctIds_newest tables.formulas.nodup_ids hid, fun d hd => ?_, fun id => ?_⟩
  · obtain ⟨id, -, hreadable⟩ := List.mem_filterMap.mp hd
    obtain ⟨r, hr, rfl⟩ := hmem id d hreadable
    rw [savedIds_stored htables, hid _ d hreadable]
    exact List.mem_map_of_mem (f := fun r => Value.text r.id) hr
  · rw [find?_newest tables.formulas.nodup_ids hid hids id, ← hget id, get?, htables]
    rfl

/-- **What a store lists is what it finds.** -/
theorem lists_of_all {s : UserStore} (htexts : s.KeepsTexts) {ds : List Definition}
    (hall : s.all = .ok ds) : s.Lists ds := by
  cases s with
  | memory a =>
    obtain ⟨ds', hall', hlists⟩ := lists_memory htexts
    obtain rfl : ds' = ds := Except.ok.inj (hall'.symm.trans hall)
    exact hlists
  | stored db =>
    obtain ⟨tables, htables, hall⟩ := Attempt.bind_eq_ok.mp hall
    exact lists_stored htables hall

/-- A listing fails as looking up one of the kept ids does, or any id. -/
theorem get?_eq_error_of_all {s : UserStore} (htexts : s.KeepsTexts) {f : Failure}
    (hall : s.all = .error f) :
    (∃ id, .text id ∈ s.savedIds ∧ s.get? (.text id) = .error f) ∨
      ∀ id, s.get? id = .error f := by
  cases s with
  | memory a =>
    obtain ⟨ds, hall', -⟩ := lists_memory htexts
    cases hall'.symm.trans hall
  | stored db =>
    rcases Attempt.bind_eq_error.mp hall with hnone | ⟨tables, htables, hall⟩
    · refine .inr fun id => ?_
      rw [get?, hnone]
      rfl
    · obtain ⟨r, hr, hget⟩ := FormulaTable.exists_get?_of_all_eq_error hall
      refine .inl ⟨r.id, ?_, ?_⟩
      · rw [savedIds_stored htables]
        exact List.mem_map_of_mem (f := fun r => Value.text r.id) hr
      · rw [get?, htables]
        exact hget

/-- A save adds its id to the ids that are kept. -/
theorem savedIds_save {s s' : UserStore} {d stored : Definition} {name : String}
    (hid : d.id = .text name) (h : s.save d = .ok (s', stored)) :
    s'.savedIds = s.savedIds ++ [d.id] := by
  cases s with
  | memory a =>
    obtain ⟨⟨a', e⟩, hsave, h⟩ := Attempt.bind_eq_ok.mp h
    obtain ⟨rfl, -⟩ := Prod.mk.inj (Except.ok.inj h)
    obtain ⟨-, hid', -, rfl⟩ := Archive.eq_of_save hsave
    simp [savedIds, Archive.add, hid']
  | stored db =>
    obtain ⟨tables, htables, -⟩ := Attempt.bind_eq_ok.mp h
    obtain ⟨⟨t, e⟩, hsave, hsaved⟩ := (save_stored_eq_ok htables).mp h
    obtain ⟨rfl, -⟩ := Prod.mk.inj hsaved
    obtain ⟨number, expression, kind, row, -, -, -, hrow, rfl⟩ := FormulaTable.save_eq_ok hsave
    have hrowId : row.id = name := FormulaRow.id_of_ofValues hid hrow
    rw [savedIds_stored htables,
      savedIds_stored (show (db.withTables _).tables = .ok _ from rfl), hid, ← hrowId]
    exact List.map_append

end UserStore

/-! ### Two tiers that never meet -/

variable {r r' : Registry}

/-- A library with one formula for each id, and a store that keeps none of the
    ids of the library; the ids that it keeps are texts. -/
structure TwoTiers (r : Registry) : Prop where
  catalogue : Library.IsCatalogue r.standard
  texts : ∀ s, r.user = some s → s.KeepsTexts
  apart : ∀ s, r.user = some s → ∀ d ∈ r.standard, ∀ id ∈ s.savedIds, d.id.same id = false

/-- No id of the library is that name. -/
theorem exists_fresh (r : Registry) : ∃ name : String, ∀ d ∈ r.standard, d.id ≠ .text name := by
  obtain ⟨name, hname⟩ :=
    Infinite.exists_notMem_finset (r.standard.filterMap (·.id.text?)).toFinset
  refine ⟨name, fun d hd hid => hname ?_⟩
  rw [List.mem_toFinset, List.mem_filterMap]
  exact ⟨d, hd, by rw [hid]; rfl⟩

namespace TwoTiers

/-- An accepted save is made under an id that the library does not have. -/
theorem save (h : r.TwoTiers) {d stored : Definition} {name : String} (hid : d.id = .text name)
    (hsave : r.save d = .ok (r', stored)) : r'.TwoTiers ∧ r'.standard = r.standard := by
  obtain ⟨store, hvetted, hsave⟩ := Attempt.bind_eq_ok.mp hsave
  obtain ⟨⟨store', stored'⟩, hstored, hsave⟩ := Attempt.bind_eq_ok.mp hsave
  obtain ⟨rfl, -⟩ := Prod.mk.inj (Except.ok.inj hsave)
  obtain ⟨huser, hfree, -⟩ := vetted_eq_ok_iff.mp hvetted
  have hids := UserStore.savedIds_save hid hstored
  refine ⟨⟨h.catalogue, ?_, ?_⟩, rfl⟩
  · rintro s ⟨⟩ id hmem
    rw [hids] at hmem
    rcases List.mem_append.mp hmem with hold | hnew
    · exact h.texts store huser id hold
    · exact ⟨name, by rw [List.mem_singleton.mp hnew, hid]⟩
  · rintro s ⟨⟩ e he id hmem
    rw [hids] at hmem
    rcases List.mem_append.mp hmem with hold | hnew
    · exact h.apart store huser e he id hold
    · -- the check has looked for the id in the library
      rw [List.mem_singleton.mp hnew]
      by_contra hsame
      have hnone : (r.standard.filter (·.id.same d.id)).getLast? = none := by
        unfold standard? at hfree
        split at hfree
        · exact Except.ok.inj hfree
        · cases hfree
      have hmem : e ∈ r.standard.filter (·.id.same d.id) :=
        List.mem_filter.mpr ⟨he, Bool.not_eq_false _ ▸ hsame⟩
      rw [List.getLast?_eq_none_iff.mp hnone] at hmem
      cases hmem

theorem afterSave (h : r.TwoTiers) {d : Definition} {name : String} (hid : d.id = .text name) :
    (r.afterSave d).TwoTiers ∧ (r.afterSave d).standard = r.standard := by
  unfold Registry.afterSave
  split
  · rename_i r' stored hsave
    exact h.save hid hsave
  · exact ⟨h, rfl⟩

/-- The tiers stay apart in every row of saves, and the library stays as it is. -/
theorem afterSaves {ds : List Definition} (hids : ∀ d ∈ ds, ∃ name, d.id = .text name)
    (h : r.TwoTiers) : (r.afterSaves ds).TwoTiers ∧ (r.afterSaves ds).standard = r.standard := by
  induction ds generalizing r with
  | nil => exact ⟨h, rfl⟩
  | cons d rest ih =>
    obtain ⟨name, hid⟩ := hids d List.mem_cons_self
    obtain ⟨hnext, hstandard⟩ := h.afterSave hid
    obtain ⟨hrest, hstandard'⟩ := ih (fun e he => hids e (List.mem_cons_of_mem _ he)) hnext
    exact ⟨hrest, hstandard'.trans hstandard⟩

theorem standard?_eq (h : r.TwoTiers) {id : Value} (hkey : id.isKey = true) :
    r.standard? id = .ok (r.standard.find? (·.id.same id)) := by
  unfold standard?
  rw [if_pos hkey, h.catalogue.distinct.getLast?_filter]

/-- A formula of the library is what its id finds. -/
theorem definition_of_standard (h : r.TwoTiers) {d : Definition} (hd : d ∈ r.standard) :
    r.definition d.id = .ok d := by
  have hfind : r.standard.find? (·.id.same d.id) = some d :=
    h.catalogue.distinct.find?_eq_some_iff.mpr ⟨hd, d.id.same_self⟩
  unfold definition definition?
  rw [h.standard?_eq (h.catalogue.keys d hd), hfind]
  rfl

/-- What is listed has different ids, and an id finds what is listed under it. -/
theorem definition?_eq (h : r.TwoTiers) {all : List Definition} (hall : r.definitions = .ok all) :
    DistinctIds all ∧
      ∀ id : String, r.definition? (.text id) = .ok (all.find? (·.id.same (.text id))) := by
  unfold definitions at hall
  cases huser : r.user with
  | none =>
    rw [huser] at hall
    obtain rfl := Except.ok.inj hall
    refine ⟨h.catalogue.distinct, fun id => ?_⟩
    unfold definition?
    rw [h.standard?_eq rfl, huser]
    cases r.standard.find? (·.id.same (.text id)) <;> rfl
  | some store =>
    rw [huser] at hall
    obtain ⟨saved, hsaved, hall⟩ := Attempt.bind_eq_ok.mp hall
    obtain rfl := Except.ok.inj hall
    have hlists := UserStore.lists_of_all (h.texts store huser) hsaved
    refine ⟨h.catalogue.distinct.append hlists.distinct fun d hd e he =>
      h.apart store huser d hd e.id (hlists.saved e he), fun id => ?_⟩
    unfold definition?
    rw [h.standard?_eq rfl, huser, List.find?_append]
    cases r.standard.find? (·.id.same (.text id)) with
    | some d => rfl
    | none => exact hlists.get?_eq id

/-- Formulas that cannot be listed are kept in a database, and one of them
    cannot be looked up for the same reason. -/
theorem definition_eq_error (h : r.TwoTiers) {f : Failure} (hall : r.definitions = .error f) :
    (∃ db, r.user = some (.stored db)) ∧
      ∃ id : String, r.definition (.text id) = .error f ∧ f ≠ .formulaNotFound (.text id) := by
  unfold definitions at hall
  cases huser : r.user with
  | none =>
    rw [huser] at hall
    cases hall
  | some store =>
    rw [huser] at hall
    have hall' : store.all = .error f := by
      rcases Attempt.bind_eq_error.mp hall with hfail | ⟨saved, -, hok⟩
      · exact hfail
      · cases hok
    -- below the library an id fails as it does in the store
    have hbelow : ∀ id : String, (∀ d ∈ r.standard, d.id.same (.text id) = false) →
        store.get? (.text id) = .error f →
        r.definition (.text id) = .error f ∧ f ≠ .formulaNotFound (.text id) := by
      intro id hfree hget
      have hfind : r.standard.find? (·.id.same (.text id)) = none :=
        List.find?_eq_none.mpr fun d hd => by simp [hfree d hd]
      have hfound : r.definition? (.text id) = .error f := by
        unfold definition?
        rw [h.standard?_eq rfl, hfind, huser]
        exact hget
      refine ⟨by rw [definition, hfound]; rfl, ?_⟩
      rintro rfl
      exact failsOnly_definition? r (.text id) _ hfound
    refine ⟨?_, ?_⟩
    · cases store with
      | memory a =>
        obtain ⟨ds, hds, -⟩ := UserStore.lists_memory (h.texts _ huser)
        cases hds.symm.trans hall'
      | stored db => exact ⟨db, rfl⟩
    · rcases UserStore.get?_eq_error_of_all (h.texts store huser) hall' with
        ⟨id, hsaved, hget⟩ | hget
      · exact ⟨id, hbelow id (fun d hd => h.apart store huser d hd _ hsaved) hget⟩
      · obtain ⟨name, hfree⟩ := exists_fresh r
        refine ⟨name, hbelow name (fun d hd => ?_) (hget _)⟩
        by_contra hsame
        exact hfree d hd (Value.same_text_iff.mp (Bool.not_eq_false _ ▸ hsame))

end TwoTiers

/-- A library of one formula, as data. -/
def oneFormula : Value :=
  .object [("formulas", .list [.object [("id", .text "sum"), ("name", .text "Sum"),
    ("category", .text "base"), ("expression", .text "[1] + [2]")]])]

/-- The formula that is read from that data. -/
def readFormula : Definition := {
  Definition.ofTree "sum"
    (.binary (.account (.starting (.text "1"))) .add (.account (.starting (.text "2")))) with
  name := .text "Sum"
  category := .text "base"
  sourceText := .text "[1] + [2]" }

theorem exists_library_oneFormula :
    ∃ checksum, Library.ofValue oneFormula = .ok ⟨"1", [], [readFormula], checksum⟩ := by
  have hformulas : Library.readFormulas [] (oneFormula.getD "formulas") = .ok [readFormula] := by
    decide +kernel
  have hplain : oneFormula.IsPlain := by
    refine .object (List.forall_mem_singleton.mpr (.list (List.forall_mem_singleton.mpr
      (.object ?_ (by simp))))) (by simp)
    simp only [List.forall_mem_cons]
    exact ⟨.text _, .text _, .text _, .text _, by simp⟩
  obtain ⟨checksum, hchecksum⟩ : ∃ checksum, oneFormula.digest = .ok checksum := by
    unfold Value.digest Value.canonical
    rw [Value.canonicalChars_eq hplain]
    exact ⟨_, rfl⟩
  exact ⟨checksum, Attempt.bind_eq_ok.mpr ⟨[], rfl,
    Attempt.bind_eq_ok.mpr ⟨_, hformulas, Attempt.bind_eq_ok.mpr ⟨_, hchecksum, rfl⟩⟩⟩⟩

/-- Three attempts: the first is refused, since the library has the id. -/
def ownSaves : List Definition := [
  .ofTree "sum" (.account (.starting (.text "3"))), .ofTree "own" (.formula (.text "sum")),
  .ofTree "own" (.account (.starting (.text "3")))]

end Registry

end KeyFigures
