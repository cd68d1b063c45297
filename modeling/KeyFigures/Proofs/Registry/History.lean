/-
  KeyFigures/Proofs/Registry/History.lean
  =======================================
  **What a save leaves behind.**

  Users' formulas in memory form one history for each id.  An attempt to save
  that is refused leaves the registry as it was, and there are four reasons for
  that (`Refuses`).  One that is accepted puts the definition at the end of the
  history of its id, under the next number, and touches no other history; from
  then on the id finds it and resolves to the very tree that the check before
  the save arrived at (`Registry.Saved`).

  What is recorded about a save comes after the store has changed, so it matters
  that recording cannot fail (`fst_play_saveRecorded`).
-/
import KeyFigures.Proofs.Registry.Saving
import KeyFigures.Proofs.Log.Steady

namespace KeyFigures

open Log (Journal)
open Log.Recorded (fst_play_bind fst_play_event play_attempt)

/-! ### Histories -/

/-- A definition under the number that comes next in a history: one above the
    number of the last version, or its own if there is none. -/
inductive Definition.NextIn (history : List Definition) (d : Definition) : Definition → Prop
  | first : history = [] → NextIn history d d
  | next {latest : Definition} {number : Value} : history.getLast? = some latest →
    latest.version.successor? = some number → NextIn history d { d with version := number }

/-- After a version with a whole number comes the next whole number. -/
theorem Definition.NextIn.version_eq {history : List Definition} {d stored latest : Definition}
    {n : Int} (h : NextIn history d stored) (hlatest : history.getLast? = some latest)
    (hn : latest.version = .int n) : stored.version = .int (n + 1) := by
  cases h with
  | first hnil =>
    rw [hnil] at hlatest
    cases hlatest
  | next hlast hnumber =>
    obtain rfl := Option.some.inj (hlatest.symm.trans hlast)
    rw [hn] at hnumber
    exact (Option.some.inj hnumber).symm

namespace Registry

open Definition (NextIn)

namespace Archive

variable {a a' : Archive} {d stored : Definition}

/-- What is added to an archive is the last version of its id, and of no other
    id. -/
theorem versions_add (a : Archive) (d : Definition) (id : Value) :
    (a.add d).versions id = a.versions id ++ if d.id.same id then [d] else [] := by
  cases hsame : d.id.same id with
  | true => rw [versions_add_self hsame, if_pos rfl]
  | false => rw [versions_add_of_not_same hsame, if_neg (by simp), List.append_nil]

theorem nextIn_of_numbered (h : a.numbered d = .ok stored) : NextIn (a.versions d.id) d stored := by
  unfold numbered get? at h
  split at h
  · rename_i latest hlatest
    obtain ⟨number, hnumber, h⟩ := Attempt.bind_eq_ok.mp h
    cases h
    cases hsuccessor : latest.version.successor? with
    | none =>
      rw [hsuccessor] at hnumber
      cases hnumber
    | some next =>
      rw [hsuccessor] at hnumber
      cases hnumber
      exact .next hlatest hsuccessor
  · rename_i hnone
    cases h
    exact .first (List.getLast?_eq_none_iff.mp hnone)

theorem numbered_eq_error_iff {f : Failure} :
    a.numbered d = .error f ↔ f = .misuse .mistyped ∧
      ∃ latest, (a.versions d.id).getLast? = some latest ∧ latest.version.successor? = none := by
  unfold numbered get?
  cases (a.versions d.id).getLast? with
  | none => simp
  | some latest =>
    cases hsuccessor : latest.version.successor? with
    | none => simp [hsuccessor, Attempt.ofTyped, Attempt.mistyped, bind, Except.bind, eq_comm]
    | some number => simp [hsuccessor, Attempt.ofTyped, bind, Except.bind]

end Archive

theorem UserStore.save_memory {a : Archive} {d : Definition} (hkey : d.id.isKey = true) :
    (UserStore.memory a).save d = (a.numbered d).map fun e => (.memory (a.add e), e) := by
  have hsave : (UserStore.memory a).save d =
      (a.save d >>= fun p => .ok (UserStore.memory p.1, p.2)) := rfl
  rw [hsave, Archive.save, if_pos hkey]
  cases a.numbered d <;> rfl

/-! ### Refusals -/

variable {r r' : Registry} {a : Archive} {d stored : Definition}

/-- The reasons why a definition is not saved: its id is no key, or one of the
    library; its references cannot be replaced; or the version before it has a
    number that nothing comes after. -/
inductive Refuses (r : Registry) (a : Archive) (d : Definition) : Failure → Prop
  | noKey : d.id.isKey = false → Refuses r a d (.misuse .mistyped)
  | reserved {e : Definition} : r.standard? d.id = .ok (some e) → Refuses r a d (.reservedId d.id)
  | references {f : Failure} : r.standard? d.id = .ok none →
    expand (r.bodyOf (some d)) r.depth [d.id] d.tree = .error f → Refuses r a d f
  | unnumbered {t : Term} {latest : Definition} : r.standard? d.id = .ok none →
    expand (r.bodyOf (some d)) r.depth [d.id] d.tree = .ok t →
    (a.versions d.id).getLast? = some latest → latest.version.successor? = none →
    Refuses r a d (.misuse .mistyped)

theorem standard?_eq_error_iff {id : Value} {f : Failure} :
    r.standard? id = .error f ↔ f = .misuse .mistyped ∧ id.isKey = false := by
  unfold standard?
  cases id.isKey <;> simp [Attempt.mistyped, eq_comm]

theorem isKey_of_standard? {id : Value} {found : Option Definition}
    (h : r.standard? id = .ok found) : id.isKey = true := by
  unfold standard? at h
  split at h
  · assumption
  · cases h

/-- The check before a save fails for one of the first three reasons. -/
theorem vetted_eq_error_iff (huser : r.user = some (.memory a)) {f : Failure} :
    r.vetted d = .error f ↔
      (f = .misuse .mistyped ∧ d.id.isKey = false) ∨
      (f = .reservedId d.id ∧ ∃ e, r.standard? d.id = .ok (some e)) ∨
      (r.standard? d.id = .ok none ∧
        expand (r.bodyOf (some d)) r.depth [d.id] d.tree = .error f) := by
  unfold vetted
  rw [huser]
  cases hfound : r.standard? d.id with
  | error g =>
    obtain ⟨rfl, hkey⟩ := standard?_eq_error_iff.mp hfound
    simp [bind, Except.bind, hkey, eq_comm]
  | ok found =>
    have hkey := isKey_of_standard? hfound
    cases found with
    | some e => simp [bind, Except.bind, hkey, eq_comm]
    | none =>
      cases expand (r.bodyOf (some d)) r.depth [d.id] d.tree with
      | error g => simp [bind, Except.bind, hkey]
      | ok t => simp [bind, Except.bind, hkey]

/-- A definition is refused for one of these reasons and for no other. -/
theorem save_eq_error_iff (huser : r.user = some (.memory a)) {f : Failure} :
    r.save d = .error f ↔ r.Refuses a d f := by
  have hstore : ∀ {store : UserStore}, store = .memory a → d.id.isKey = true →
      ((store.save d >>= fun p => .ok ({ r with user := some p.1 }, p.2) :
        Attempt (Registry × Definition)) = .error f ↔ a.numbered d = .error f) := by
    rintro _ rfl hkey
    rw [UserStore.save_memory hkey]
    cases a.numbered d <;> simp [bind, Except.bind, Except.map]
  constructor
  · intro h
    rcases Attempt.bind_eq_error.mp h with hvetted | ⟨store, hvetted, hsave⟩
    · rcases (vetted_eq_error_iff huser).mp hvetted with ⟨rfl, hkey⟩ | ⟨rfl, e, he⟩ | ⟨hfree, hfail⟩
      · exact .noKey hkey
      · exact .reserved he
      · exact .references hfree hfail
    · obtain ⟨hkept, hfree, t, ht⟩ := vetted_eq_ok_iff.mp hvetted
      have hmemory : store = .memory a := Option.some.inj (hkept.symm.trans huser)
      have hnumbered := (hstore hmemory (isKey_of_standard? hfree)).mp hsave
      obtain ⟨rfl, latest, hlatest, hnone⟩ := Archive.numbered_eq_error_iff.mp hnumbered
      exact .unnumbered hfree ht hlatest hnone
  · intro h
    cases h with
    | noKey hkey =>
      exact Attempt.bind_eq_error.mpr (.inl ((vetted_eq_error_iff huser).mpr (.inl ⟨rfl, hkey⟩)))
    | reserved he =>
      exact Attempt.bind_eq_error.mpr
        (.inl ((vetted_eq_error_iff huser).mpr (.inr (.inl ⟨rfl, _, he⟩))))
    | references hfree hfail =>
      exact Attempt.bind_eq_error.mpr
        (.inl ((vetted_eq_error_iff huser).mpr (.inr (.inr ⟨hfree, hfail⟩))))
    | unnumbered hfree ht hlatest hnone =>
      have hvetted := vetted_eq_ok_iff.mpr ⟨huser, hfree, _, ht⟩
      have hnumbered := Archive.numbered_eq_error_iff.mpr ⟨rfl, _, hlatest, hnone⟩
      exact Attempt.bind_eq_error.mpr
        (.inr ⟨_, hvetted, (hstore rfl (isKey_of_standard? hfree)).mpr hnumbered⟩)

/-! ### What is recorded -/

theorem UserStore.fst_play_saveRecorded (s : UserStore) (d : Definition) (j : Journal) :
    ((s.saveRecorded d).play j).1 = s.save d := by
  unfold UserStore.saveRecorded
  rw [fst_play_bind, play_attempt]
  cases s.save d with
  | error f => rfl
  | ok p =>
    obtain ⟨saved, e⟩ := p
    cases saved with
    | memory a => rfl
    | stored db =>
      show ((Database.noteStored e >>= fun _ => pure (UserStore.stored db, e)).play j).1 = _
      rw [fst_play_bind, Database.noteStored,
        fst_play_event _ _ _ ["formula_id", "version"] rfl (by decide)]
      rfl

/-- A save comes to the same in every journal: recording it cannot fail. -/
theorem fst_play_saveRecorded (r : Registry) (d : Definition) (j : Journal) :
    ((r.saveRecorded d).play j).1 = r.save d := by
  unfold saveRecorded save
  rw [fst_play_bind, play_attempt]
  cases r.vetted d with
  | error f => rfl
  | ok store =>
    show ((store.saveRecorded d >>= _).play j).1 = _
    rw [fst_play_bind, UserStore.fst_play_saveRecorded]
    cases hsave : store.save d with
    | error f => simp [bind, Except.bind, hsave]
    | ok p =>
      show ((Log.event _ _ _ _ >>= fun _ => pure ({ r with user := some p.1 }, p.2)).play _).1 = _
      rw [fst_play_bind, fst_play_event _ _ _ ["formula_id", "version", "category"] rfl (by decide)]
      simp [bind, Except.bind, hsave]

/-! ### Accepted saves -/

/-- What an accepted save leaves behind: the history of the saved id has grown
    by the stored definition, under the next number, and no other history has
    changed, the id finds it, all other ids find what they found, and resolving
    the id gives the tree that the check arrived at. -/
structure Saved (r : Registry) (a : Archive) (d : Definition) (r' : Registry)
    (stored : Definition) : Prop where
  numbered : NextIn (a.versions d.id) d stored
  counted : ∀ latest n, (a.versions d.id).getLast? = some latest → latest.version = .int n →
    stored.version = .int (n + 1)
  library : r'.standard = r.standard
  history : ∃ a', r'.user = some (.memory a') ∧
    ∀ id, a'.versions id = a.versions id ++ if d.id.same id then [stored] else []
  found : r'.definition d.id = .ok stored
  others : ∀ id, d.id.same id = false → r'.definition id = r.definition id
  resolves : ∃ t, expand (r.bodyOf (some d)) r.depth [d.id] d.tree = .ok t ∧
    r'.resolveId d.id = .ok t

/-- An accepted save has found the library without the id, has replaced all
    references and has put the definition, under its number, in the archive. -/
theorem exists_of_save (huser : r.user = some (.memory a)) (h : r.save d = .ok (r', stored)) :
    r.standard? d.id = .ok none ∧
      (∃ t, expand (r.bodyOf (some d)) r.depth [d.id] d.tree = .ok t) ∧
      a.numbered d = .ok stored ∧ r' = { r with user := some (.memory (a.add stored)) } := by
  obtain ⟨store, hvetted, h⟩ := Attempt.bind_eq_ok.mp h
  obtain ⟨hkept, hfree, hexpands⟩ := vetted_eq_ok_iff.mp hvetted
  obtain rfl : store = .memory a := Option.some.inj (hkept.symm.trans huser)
  rw [UserStore.save_memory (isKey_of_standard? hfree)] at h
  cases hnumbered : a.numbered d with
  | error f =>
    rw [hnumbered] at h
    cases h
  | ok e =>
    rw [hnumbered] at h
    cases h
    exact ⟨hfree, hexpands, rfl, rfl⟩

/-- An id that is not the saved one finds what it found before. -/
theorem definition_add_of_not_same (huser : r.user = some (.memory a)) {id : Value}
    (h : stored.id.same id = false) :
    definition { r with user := some (.memory (a.add stored)) } id = r.definition id := by
  unfold definition definition? UserStore.get?
  rw [huser]
  simp only [standard?, Archive.get?_add_of_not_same h]

theorem definition_add_self (hfree : r.standard? d.id = .ok none) (hid : stored.id = d.id) :
    definition { r with user := some (.memory (a.add stored)) } d.id = .ok stored := by
  have hnone : standard? { r with user := some (.memory (a.add stored)) } d.id = .ok none := hfree
  have hget : (a.add stored).get? d.id = some stored :=
    Archive.get?_add_self (by rw [hid, Value.same_self])
  unfold definition definition? UserStore.get?
  rw [hnone]
  simp [bind, Except.bind, isKey_of_standard? hfree, hget]

/-- **What an accepted save leaves behind.** -/
theorem saved_of_save (huser : r.user = some (.memory a)) (h : r.save d = .ok (r', stored)) :
    r.Saved a d r' stored := by
  have hmemory : r.InMemory := by
    intro db hdb
    rw [huser] at hdb
    cases hdb
  have haccepted : r.Accepted d r' stored := hmemory.accepted h
  obtain ⟨hfree, ⟨t, ht⟩, hnumbered, hadded⟩ := exists_of_save huser h
  have hid : stored.id = d.id := haccepted.id_eq
  have hfound : r'.definition d.id = .ok stored := by
    rw [hadded]
    exact definition_add_self hfree hid
  have hnext : NextIn (a.versions d.id) d stored := Archive.nextIn_of_numbered hnumbered
  refine ⟨hnext, fun latest n => hnext.version_eq, by rw [hadded],
    ⟨a.add stored, by rw [hadded], ?_⟩, hfound, ?_, t, ht, ?_⟩
  · intro id
    rw [Archive.versions_add, hid]
  · intro id hother
    rw [hadded, definition_add_of_not_same huser (by rwa [hid])]
  · -- after the save every id finds the tree that it found during the check
    refine resolveId_eq_ok_iff.mpr ⟨stored, hfound, ?_⟩
    have hdepth : r'.depth = r.depth := by rw [hadded]
    rw [haccepted.bodyOf_eq, haccepted.tree_eq, hdepth, ht]

/-! ### Rows of saves -/

/-- An attempt to save leaves users' formulas in memory and only adds to their
    histories. -/
theorem history_afterSave (huser : r.user = some (.memory a)) (d : Definition) :
    ∃ a', (r.afterSave d).user = some (.memory a') ∧ ∀ id, a.versions id <+: a'.versions id := by
  unfold afterSave
  split
  · rename_i r' stored hsave
    obtain ⟨a', huser', hhistory⟩ := (saved_of_save huser hsave).history
    refine ⟨a', huser', fun id => ?_⟩
    rw [hhistory id]
    exact List.prefix_append _ _
  · exact ⟨a, huser, fun id => List.prefix_rfl⟩

/-- Histories only grow, whatever is saved, by induction on the row of saves. -/
theorem history_afterSaves (huser : r.user = some (.memory a)) (ds : List Definition) :
    ∃ a', (r.afterSaves ds).user = some (.memory a') ∧ ∀ id, a.versions id <+: a'.versions id := by
  induction ds generalizing r a with
  | nil => exact ⟨a, huser, fun id => List.prefix_rfl⟩
  | cons d rest ih =>
    obtain ⟨a₁, huser₁, hgrows₁⟩ := history_afterSave huser d
    obtain ⟨a₂, huser₂, hgrows₂⟩ := ih huser₁
    exact ⟨a₂, huser₂, fun id => (hgrows₁ id).trans (hgrows₂ id)⟩

/-- **Saving is atomic, append-only and visible at once**, in every registry over
    a store in memory and for every definition.  An attempt is refused for one of
    four reasons, and then the registry is as it was.  An attempt that is
    accepted adds one version to the history of its id, under the next number,
    and touches nothing else; the id then finds that version and resolves to the
    tree that the check arrived at.  Recording the attempt does not change what
    comes of it, and no row of attempts ever takes a version away. -/
theorem save_appends_or_changes_nothing (huser : r.user = some (.memory a)) (d : Definition) :
    (∀ j : Journal, ((r.saveRecorded d).play j).1 = r.save d) ∧
    (∀ f, r.save d = .error f → r.Refuses a d f ∧ r.afterSave d = r) ∧
    (∀ r' stored, r.save d = .ok (r', stored) → r.Saved a d r' stored ∧ r.afterSave d = r') ∧
    ∀ ds, ∃ a', (r.afterSaves ds).user = some (.memory a') ∧
      ∀ id, a.versions id <+: a'.versions id := by
  refine ⟨r.fst_play_saveRecorded d, fun f h => ⟨(save_eq_error_iff huser).mp h, ?_⟩,
    fun r' stored h => ⟨saved_of_save huser h, ?_⟩, history_afterSaves huser⟩
  · rw [afterSave, h]
  · rw [afterSave, h]

/-- Two formulas, of which the second refers to the first, and an edit of the
    first. -/
def editedBlock : List Definition := [
  .ofTree "a" (.account (.starting (.text "1"))), .ofTree "b" (.formula (.text "a")),
  .ofTree "a" (.account (.starting (.text "2")))]

/-- The edit is the second version of its id; putting `a` above `b` would close a
    circle and changes nothing. -/
theorem save_appends_or_changes_nothing_editedBlock :
    ∃ r r' a stored, r = (⟨[], some (.memory a), .whole 2⟩ : Registry) ∧
      r.save (.ofTree "a" (.account (.starting (.text "2")))) = .ok (r', stored) ∧
      stored.version = .int 2 ∧
      r.Saved a (.ofTree "a" (.account (.starting (.text "2")))) r' stored ∧
      r.Refuses a (.ofTree "a" (.formula (.text "b")))
        (.circularReference "a" ["a", "b", "a"] none) := by
  have huser : (⟨[], some (.memory ⟨editedBlock.take 2⟩), .whole 2⟩ : Registry).user =
      some (.memory ⟨editedBlock.take 2⟩) := rfl
  have hsave : (⟨[], some (.memory ⟨editedBlock.take 2⟩), .whole 2⟩ : Registry).save
      (.ofTree "a" (.account (.starting (.text "2")))) =
        .ok (⟨[], some (.memory ⟨editedBlock.take 2 ++
          [{ Definition.ofTree "a" (.account (.starting (.text "2"))) with version := .int 2 }]⟩),
          .whole 2⟩,
          { Definition.ofTree "a" (.account (.starting (.text "2"))) with version := .int 2 }) := by
    cbv
  have hcircle : (⟨[], some (.memory ⟨editedBlock.take 2⟩), .whole 2⟩ : Registry).save
      (.ofTree "a" (.formula (.text "b"))) =
        .error (.circularReference "a" ["a", "b", "a"] none) := by
    cbv
  obtain ⟨-, -, haccepted, -⟩ := save_appends_or_changes_nothing huser
    (.ofTree "a" (.account (.starting (.text "2"))))
  obtain ⟨-, hrefused, -⟩ := save_appends_or_changes_nothing huser
    (.ofTree "a" (.formula (.text "b")))
  exact ⟨_, _, _, _, rfl, hsave, rfl, (haccepted _ _ hsave).1, (hrefused _ hcircle).1⟩

end Registry

end KeyFigures
