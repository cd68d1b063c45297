/-
  KeyFigures/Proofs/Registry/Lookup.lean
  ======================================
  **Which formula an id finds.**

  In memory, ids that count as the same find the same formula.  A database goes
  by the text that its column makes of an id, and `1` and `1.0`, which count as
  the same, make different texts; there it takes references that are texts, as
  every formula text and every stored formula has them.  `Registry.TellsApart`
  says that one of the two is given.
-/
import KeyFigures.Proofs.Registry.References
import KeyFigures.Proofs.Formula.RoundTrip
import KeyFigures.Registry.Basic

namespace KeyFigures

open Registry

/-- A formula of which nothing is told but its id and its tree. -/
def Definition.ofTree (id : String) (t : Term) : Definition := {
  id := .text id
  name := .text id
  category := .text "custom"
  tree := t
  kind := .amount
  description := .text ""
  sourceText := .null
  version := .int 1
  interpretation := .null
  benchmarks := none }

/-! ### References that are texts -/

/-- Every formula reference of a tree is a text. -/
def Term.RefersByText (t : Term) : Prop := ∀ id ∈ t.formulaReferences, ∃ s, id = .text s

theorem refersByText_of_parseText {s : String} {t : Term} (h : parseText s = .ok t) :
    t.RefersByText := by
  intro id hid
  obtain ⟨hphrase, hreadable⟩ := phrase_of_parseText h
  have htoken : (Token.formula id).Readable :=
    hreadable _ (Term.formula_mem_tokens hphrase.wellFormed hid)
  cases id with
  | text s => exact ⟨s, rfl⟩
  | _ => exact htoken.elim

namespace Registry

variable {r : Registry} {pending : Option Definition}

/-! ### Formulas in memory -/

/-- Users' formulas, if there are any, are kept in memory. -/
def InMemory (r : Registry) : Prop := ∀ db, r.user ≠ some (.stored db)

theorem inMemory_of_make {standard : List Definition} {user : Option UserStore} {maxDepth : Value}
    (h : make standard user maxDepth = .ok r) (huser : ∀ db, user ≠ some (.stored db)) :
    r.InMemory := by
  obtain ⟨depth, -, h⟩ := Attempt.bind_eq_ok.mp h
  cases h
  exact huser

theorem standard?_of_same {id other : Value} (h : id.same other = true) :
    r.standard? id = r.standard? other := by
  simp only [standard?, Value.isKey_of_same h, Value.same_congr_right h]

theorem Archive.get?_of_same (a : Archive) {id other : Value} (h : id.same other = true) :
    a.get? id = a.get? other := by
  simp only [Archive.get?, Archive.versions, Value.same_congr_right h]

theorem definition?_of_same (hr : r.InMemory) {id other : Value} (h : id.same other = true) :
    r.definition? id = r.definition? other := by
  unfold definition?
  rw [standard?_of_same h]
  cases huser : r.user with
  | none => rfl
  | some store =>
    cases store with
    | stored db => exact absurd huser (hr db)
    | memory a => simp only [UserStore.get?, Value.isKey_of_same h, a.get?_of_same h]

theorem bodyOf_eq_ok_iff {id : Value} {body : Term} :
    r.bodyOf none id = .ok body ↔ ∃ d, r.definition id = .ok d ∧ d.tree = body := by
  unfold bodyOf
  cases r.definition id with
  | error f => simp [Except.map]
  | ok d => simp [Except.map]

theorem definition_eq_ok_iff {id : Value} {d : Definition} :
    r.definition id = .ok d ↔ r.definition? id = .ok (some d) := by
  unfold definition
  cases r.definition? id with
  | error f => simp [bind, Except.bind]
  | ok found => cases found <;> simp [bind, Except.bind]

theorem definition_of_same (hr : r.InMemory) {id other : Value} {d : Definition}
    (h : id.same other = true) (hid : r.definition id = .ok d) : r.definition other = .ok d := by
  rw [definition_eq_ok_iff] at hid ⊢
  rw [← definition?_of_same hr h, hid]

/-- The tree of an id whose formula is about to be saved is that of the formula. -/
theorem bodyOf_pending_of_same {d : Definition} {id : Value} (h : d.id.same id = true) :
    r.bodyOf (some d) id = .ok d.tree := by
  simp [bodyOf, h]

theorem bodyOf_pending_of_not_same {d : Definition} {id : Value} (h : d.id.same id = false) :
    r.bodyOf (some d) id = r.bodyOf none id := by
  simp [bodyOf, h]

theorem bodyOf_of_same (hr : r.InMemory) {id other : Value} {body : Term}
    (h : id.same other = true) (hid : r.bodyOf pending id = .ok body) :
    r.bodyOf pending other = .ok body := by
  have hnone : r.bodyOf none id = .ok body → r.bodyOf none other = .ok body := by
    intro hbody
    obtain ⟨d, hd, rfl⟩ := bodyOf_eq_ok_iff.mp hbody
    exact bodyOf_eq_ok_iff.mpr ⟨d, definition_of_same hr h hd, rfl⟩
  cases pending with
  | none => exact hnone hid
  | some d =>
    have hsame : d.id.same id = d.id.same other := Value.same_congr_right h d.id
    cases hd : d.id.same id with
    | true =>
      rw [bodyOf_pending_of_same hd] at hid
      rw [bodyOf_pending_of_same (hsame ▸ hd), hid]
    | false =>
      rw [bodyOf_pending_of_not_same hd] at hid
      rw [bodyOf_pending_of_not_same (hsame ▸ hd)]
      exact hnone hid

theorem InMemory.unambiguous (hr : r.InMemory) {t : Term} : Unambiguous (r.bodyOf pending) t := by
  intro id _ other hsame body hbody
  exact bodyOf_of_same hr (by rw [Value.same_comm, hsame]) hbody

/-! ### Formulas in a database -/

theorem refersByText_of_row {row : Database.FormulaRow} {d : Definition}
    (h : row.definition = .ok d) : d.tree.RefersByText := by
  unfold Database.FormulaRow.definition at h
  obtain ⟨extras, -, h⟩ := Attempt.bind_eq_ok.mp h
  obtain ⟨tree, htree, h⟩ := Attempt.bind_eq_ok.mp h
  obtain ⟨kind, -, h⟩ := Attempt.bind_eq_ok.mp h
  obtain ⟨benchmarks, -, h⟩ := Attempt.bind_eq_ok.mp h
  cases h
  exact refersByText_of_parseText htree

theorem refersByText_of_table {t : Database.FormulaTable} {id : Value} {d : Definition}
    (h : t.get? id = .ok (some d)) : d.tree.RefersByText := by
  unfold Database.FormulaTable.get? at h
  obtain ⟨rows, -, h⟩ := Attempt.bind_eq_ok.mp h
  cases hlast : rows.getLast? with
  | none =>
    rw [hlast] at h
    cases h
  | some row =>
    rw [hlast] at h
    cases hrow : row.definition with
    | error f =>
      simp only [hrow, Except.map] at h
      cases h
    | ok found =>
      simp only [hrow, Except.map, Except.ok.injEq, Option.some.injEq] at h
      exact refersByText_of_row (h ▸ hrow)

theorem mem_of_standard? {id : Value} {d : Definition} (h : r.standard? id = .ok (some d)) :
    d ∈ r.standard ∧ d.id.same id = true := by
  unfold standard? at h
  split at h
  · exact List.mem_filter.mp (List.mem_of_getLast? (Except.ok.inj h))
  · cases h

/-- A formula that is found is one of the library or comes from the users'
    store. -/
theorem definition_cases {id : Value} {d : Definition} (h : r.definition id = .ok d) :
    d ∈ r.standard ∧ d.id.same id = true ∨
      ∃ store, r.user = some store ∧ store.get? id = .ok (some d) := by
  rw [definition_eq_ok_iff] at h
  obtain ⟨found, hfound, h⟩ := Attempt.bind_eq_ok.mp h
  cases found with
  | some e =>
    cases h
    exact .inl (mem_of_standard? hfound)
  | none =>
    simp only at h
    split at h
    · rename_i store hstore
      exact .inr ⟨store, hstore, h⟩
    · cases h

/-- An id that counts as that of a formula of the library finds a formula. -/
theorem exists_definition_of_standard {id : Value} {d : Definition} (hd : d ∈ r.standard)
    (hsame : d.id.same id = true) (hkey : id.isKey = true) : ∃ e, r.definition id = .ok e := by
  have hmem : d ∈ r.standard.filter (·.id.same id) := List.mem_filter.mpr ⟨hd, hsame⟩
  obtain ⟨e, he⟩ : ∃ e, (r.standard.filter (·.id.same id)).getLast? = some e :=
    ⟨_, List.getLast?_eq_some_getLast (List.ne_nil_of_mem hmem)⟩
  refine ⟨e, definition_eq_ok_iff.mpr ?_⟩
  simp [definition?, standard?, hkey, he, bind, Except.bind]

/-! ### Ids that are told apart -/

/-- The references of a tree are told apart: formulas are kept in memory, or the
    references are texts. -/
def TellsApart (r : Registry) (t : Term) : Prop := r.InMemory ∨ t.RefersByText

/-- The references of a formula that is found are told apart if those of the
    library are. -/
theorem tellsApart_of_definition {id : Value} {d : Definition}
    (hstandard : ∀ e ∈ r.standard, r.TellsApart e.tree) (hd : r.definition id = .ok d) :
    r.TellsApart d.tree := by
  rcases definition_cases hd with ⟨hmem, -⟩ | ⟨store, hstore, hget⟩
  · exact hstandard d hmem
  · cases store with
    | memory a =>
      refine .inl fun db hdb => ?_
      rw [hstore] at hdb
      cases hdb
    | stored db =>
      obtain ⟨tables, -, htable⟩ := Attempt.bind_eq_ok.mp hget
      exact .inr (refersByText_of_table htable)

theorem tellsApart_of_bodyOf {id : Value} {body : Term}
    (hstandard : ∀ d ∈ r.standard, r.TellsApart d.tree)
    (hpending : ∀ d ∈ pending, r.TellsApart d.tree) (h : r.bodyOf pending id = .ok body) :
    r.TellsApart body := by
  have hnone : r.bodyOf none id = .ok body → r.TellsApart body := by
    intro hbody
    obtain ⟨d, hd, rfl⟩ := bodyOf_eq_ok_iff.mp hbody
    exact tellsApart_of_definition hstandard hd
  cases pending with
  | none => exact hnone h
  | some d =>
    cases hd : d.id.same id with
    | true =>
      rw [bodyOf_pending_of_same hd] at h
      cases h
      exact hpending d rfl
    | false =>
      rw [bodyOf_pending_of_not_same hd] at h
      exact hnone h

/-- Whatever a walk meets below a tree whose references are told apart is
    unambiguous. -/
theorem TellsApart.unambiguous {t : Term} (h : r.TellsApart t)
    (hstandard : ∀ d ∈ r.standard, r.TellsApart d.tree)
    (hpending : ∀ d ∈ pending, r.TellsApart d.tree) : Unambiguous (r.bodyOf pending) t := by
  by_cases hr : r.InMemory
  · exact hr.unambiguous
  · -- in a database every reference that a path can take is a text
    have htext : ∀ id, Below (r.bodyOf pending) t id → ∃ s, id = .text s := by
      rintro id ⟨first, hfirst, hpath⟩
      cases hpath with
      | refl => exact h.resolve_left hr id hfirst
      | tail _ hrefers =>
        obtain ⟨body, hbody, hid⟩ := hrefers
        exact (tellsApart_of_bodyOf hstandard hpending hbody).resolve_left hr id hid
    intro id hid other hsame body hbody
    obtain ⟨s, rfl⟩ := htext id hid
    rw [Value.same_text_iff.mp hsame, hbody]

end Registry

end KeyFigures
