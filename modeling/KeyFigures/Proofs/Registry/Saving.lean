/-
  KeyFigures/Proofs/Registry/Saving.lean
  ======================================
  **What saving does to the graph of references.**

  A save in memory replaces the references of one id and leaves those of all
  others, and the check before it walks through the graph as it will be
  (`Accepted.bodyOf_eq`).  So a new circle would have to pass through the saved id, and
  the walk would have met it; and every id that the saved formula refers to was
  found on the walk.  `Sound.save` is that step, `Kept.afterSaves` the run.

  The check does not look at the formulas above the saved one.  They keep their
  references, but a path through the saved formula may get longer than the
  bound; `Kept.resolves_after_iff` says exactly when a formula that resolved
  before still does.
-/
import KeyFigures.Proofs.Registry.Resolution

namespace KeyFigures

open Relation (ReflTransGen TransGen)

namespace Registry

variable {r r' : Registry} {d stored : Definition}

/-! ### One save -/

/-- The check before a save passes if there is a store, the library does not have
    the id and all references can be replaced. -/
theorem vetted_eq_ok_iff {store : UserStore} :
    r.vetted d = .ok store ↔ r.user = some store ∧ r.standard? d.id = .ok none ∧
      ∃ t, expand (r.bodyOf (some d)) r.depth [d.id] d.tree = .ok t := by
  unfold vetted
  cases r.user with
  | none => simp
  | some kept =>
    cases r.standard? d.id with
    | error f => simp [bind, Except.bind]
    | ok found =>
      cases found with
      | some e => simp [bind, Except.bind]
      | none =>
        cases expand (r.bodyOf (some d)) r.depth [d.id] d.tree with
        | error f => simp [bind, Except.bind]
        | ok t => simp [bind, Except.bind]

theorem Archive.eq_of_save {a a' : Archive} (h : a.save d = .ok (a', stored)) :
    d.id.isKey = true ∧ stored.id = d.id ∧ stored.tree = d.tree ∧ a' = a.add stored := by
  unfold Archive.save at h
  split at h
  · rename_i hkey
    obtain ⟨e, he, h⟩ := Attempt.bind_eq_ok.mp h
    cases h
    exact ⟨hkey, Archive.numbered_id he, Archive.numbered_tree he, rfl⟩
  · cases h

/-- A save in memory that is accepted: the id is not one of the library, all
    references could be replaced as if it were saved already, and it is added to
    the archive. -/
structure Accepted (r : Registry) (d : Definition) (r' : Registry) (stored : Definition) :
    Prop where
  unreserved : r.standard? d.id = .ok none
  expands : ∃ t, expand (r.bodyOf (some d)) r.depth [d.id] d.tree = .ok t
  key : d.id.isKey = true
  id_eq : stored.id = d.id
  tree_eq : stored.tree = d.tree
  added : ∃ a, r.user = some (.memory a) ∧ r' = { r with user := some (.memory (a.add stored)) }

theorem InMemory.accepted (hr : r.InMemory) (h : r.save d = .ok (r', stored)) :
    r.Accepted d r' stored := by
  obtain ⟨store, hvetted, h⟩ := Attempt.bind_eq_ok.mp h
  obtain ⟨⟨store', stored'⟩, hsave, h⟩ := Attempt.bind_eq_ok.mp h
  cases h
  obtain ⟨huser, hfree, hexpands⟩ := vetted_eq_ok_iff.mp hvetted
  cases store with
  | stored db => exact absurd huser (hr db)
  | memory a =>
    obtain ⟨⟨a', e⟩, harchive, hsave⟩ := Attempt.bind_eq_ok.mp hsave
    cases hsave
    obtain ⟨hkey, hid, htree, rfl⟩ := Archive.eq_of_save harchive
    exact ⟨hfree, hexpands, hkey, hid, htree, a, huser, rfl⟩

/-- After a save every id finds the tree that it found during the check. -/
theorem Accepted.bodyOf_eq (h : r.Accepted d r' stored) : r'.bodyOf none = r.bodyOf (some d) := by
  obtain ⟨hstandard, -, hkey, hid, htree, a, huser, rfl⟩ := h
  funext id
  cases hsame : d.id.same id with
  | true =>
    have hsame' : id.same d.id = true := by rw [Value.same_comm, hsame]
    rw [bodyOf_pending_of_same hsame, bodyOf_eq_ok_iff]
    refine ⟨stored, definition_eq_ok_iff.mpr ?_, htree⟩
    have hnone : standard? { r with user := some (.memory (a.add stored)) } id = .ok none :=
      (standard?_of_same hsame').trans hstandard
    unfold definition?
    rw [hnone]
    simp [bind, Except.bind, UserStore.get?, Value.isKey_of_same hsame', hkey,
      Archive.get?_add_self (hid ▸ hsame)]
  | false =>
    rw [bodyOf_pending_of_not_same hsame]
    have hfound : definition? { r with user := some (.memory (a.add stored)) } id =
        r.definition? id := by
      unfold definition?
      rw [huser]
      simp [standard?, UserStore.get?, Archive.get?_add_of_not_same (hid ▸ hsame)]
    simp only [bodyOf, definition, hfound]

/-! ### Changing the references of one id -/

/-- A path of the new graph is one of the old graph, or it begins as one that
    leads to an id whose references have changed. -/
theorem transGen_or_through {old new : Value → Value → Prop} {changed : Value → Prop}
    (h : ∀ id other, new id other → old id other ∨ changed id) {id other : Value}
    (hpath : TransGen new id other) :
    TransGen old id other ∨
      ∃ mid, changed mid ∧ ReflTransGen old id mid ∧ ReflTransGen new id mid ∧
        TransGen new mid other := by
  induction hpath with
  | single hstep =>
    rcases h _ _ hstep with hold | hchanged
    · exact .inl (.single hold)
    · exact .inr ⟨id, hchanged, .refl, .refl, .single hstep⟩
  | @tail mid last hpath hstep ih =>
    rcases ih with hold | ⟨through, hthrough, hbefore, hnew, hafter⟩
    · rcases h _ _ hstep with hstep' | hchanged
      · exact .inl (hold.tail hstep')
      · exact .inr ⟨mid, hchanged, hold.to_reflTransGen, hpath.to_reflTransGen, .single hstep⟩
    · exact .inr ⟨through, hthrough, hbefore, hnew, hafter.tail hstep⟩

/-- A registry whose references lead to formulas, and never back. -/
structure Sound (r : Registry) : Prop where
  closed : ∀ id other, r.Uses id other → ∃ d, r.definition other = .ok d
  acyclic : ∀ id, ¬ TransGen r.Uses id id

theorem Accepted.uses_or_same (h : r.Accepted d r' stored) (id other : Value)
    (huses : r'.Uses id other) : r.Uses id other ∨ d.id.same id = true := by
  rw [uses_eq_refers, h.bodyOf_eq] at huses
  cases hsame : d.id.same id with
  | true => exact .inr rfl
  | false =>
    obtain ⟨body, hbody, hother⟩ := huses
    rw [bodyOf_pending_of_not_same hsame] at hbody
    rw [uses_eq_refers]
    exact .inl ⟨body, hbody, hother⟩

/-- What was found before is found after a save. -/
theorem Accepted.exists_definition (h : r.Accepted d r' stored) {id : Value} {e : Definition}
    (he : r.definition id = .ok e) : ∃ e', r'.definition id = .ok e' := by
  have hbody : ∃ body, r.bodyOf (some d) id = .ok body := by
    cases hsame : d.id.same id with
    | true => exact ⟨_, bodyOf_pending_of_same hsame⟩
    | false =>
      rw [bodyOf_pending_of_not_same hsame]
      exact ⟨_, bodyOf_eq_ok_iff.mpr ⟨e, he, rfl⟩⟩
  obtain ⟨body, hbody⟩ := hbody
  rw [← h.bodyOf_eq] at hbody
  obtain ⟨e', he', -⟩ := bodyOf_eq_ok_iff.mp hbody
  exact ⟨e', he'⟩

/-- **A save keeps the graph sound.**  Its check has walked through everything
    below the saved formula, in the graph as it is after the save. -/
theorem Sound.save {bound : Int} (hr : r.InMemory) (hbound : r.Bounded bound) (hsound : r.Sound)
    (h : r.Accepted d r' stored) : r'.Sound := by
  have hu : Unambiguous (r.bodyOf (some d)) d.tree := hr.unambiguous
  obtain ⟨e, he, hclear, -⟩ := (exists_expand_eq_ok_iff hbound.most_eq hu).mp h.expands
  rw [← h.bodyOf_eq] at he hclear
  have hchanged : ∀ id, d.id.same id = true → r'.bodyOf none id = .ok d.tree := by
    intro id hsame
    rw [h.bodyOf_eq, bodyOf_pending_of_same hsame]
  constructor
  · intro id other huses
    rcases h.uses_or_same id other huses with hold | hsame
    · obtain ⟨e', he'⟩ := hsound.closed id other hold
      exact h.exists_definition he'
    · rw [uses_eq_refers] at huses
      obtain ⟨body, hbody, hother⟩ := huses
      rw [hchanged id hsame] at hbody
      cases hbody
      obtain ⟨e', he', -⟩ := he.of_mem hother
      cases he' with
      | formula hbody _ =>
        obtain ⟨found, hfound, -⟩ := bodyOf_eq_ok_iff.mp hbody
        exact ⟨found, hfound⟩
  · intro id hcycle
    rcases transGen_or_through h.uses_or_same hcycle with hold | ⟨mid, hmid, -, hto, hback⟩
    · exact hsound.acyclic id hold
    · -- the cycle passes through the saved formula, so it is below its own tree
      have hself : TransGen r'.Uses mid mid := hback.trans_left hto
      rw [uses_eq_refers, transGen_iff_of_body (hchanged mid hmid)] at hself
      have hfree := hclear.free mid hself
      simp [isAmong, hmid] at hfree

/-! ### Failing in a sound registry -/

/-- On a path every id leads to all that come after it. -/
theorem pairwise_of_isChain {R : Value → Value → Prop} {path : List Value} (h : path.IsChain R) :
    path.Pairwise (TransGen R) :=
  List.isChain_iff_pairwise.mp (h.imp fun _ _ => TransGen.single)

/-- A failure for the depth, told of the last id of a path of references. -/
def TellsDepth (r : Registry) (id : Value) (f : Failure) : Prop :=
  ∃ path last, (id :: path ++ [last]).IsChain r.Uses ∧ f = tooDeepAt r.depth (id :: path) last

/-- In a sound registry an expansion can fail only for the depth. -/
theorem Sound.tellsDepth (hr : r.InMemory) (hsound : r.Sound) {id : Value} {found : Definition}
    {f : Failure} (hfound : r.definition id = .ok found) (h : r.resolveId id = .error f) :
    r.TellsDepth id f := by
  have hbody : r.bodyOf none id = .ok found.tree := bodyOf_eq_ok_iff.mpr ⟨found, hfound, rfl⟩
  have hexpand : expand (r.bodyOf none) r.depth [id] found.tree = .error f := by
    unfold resolveId at h
    rwa [hfound] at h
  have hpath : ∀ path last, PathFrom (r.bodyOf none) found.tree (path ++ [last]) →
      (id :: path ++ [last]).IsChain r.Uses := by
    intro path last hpath
    rw [uses_eq_refers, List.cons_append, isChain_cons_iff_pathFrom hbody (by simp)]
    exact hpath
  cases blame_of_expand hexpand with
  | @lookup other _ hbelow hfail =>
    have hreached : TransGen r.Uses id other := by
      rw [uses_eq_refers, transGen_iff_of_body hbody]
      exact hbelow
    obtain ⟨before, -, huses⟩ := TransGen.tail'_iff.mp hreached
    obtain ⟨e, he⟩ := hsound.closed before other huses
    rw [bodyOf_eq_ok_iff.mpr ⟨e, he, rfl⟩] at hfail
    cases hfail
  | @cycle path last hlast hamong =>
    obtain ⟨again, hagain, hsame⟩ := List.any_eq_true.mp hamong
    have hpairs : (id :: path ++ [last]).Pairwise (TransGen r.Uses) :=
      pairwise_of_isChain (hpath path last hlast)
    have hto : TransGen r.Uses again last :=
      (List.pairwise_append.mp hpairs).2.2 again hagain last (List.mem_singleton.mpr rfl)
    -- the last id finds the formula of the one that came up before
    rw [uses_eq_refers] at hto
    obtain ⟨next, ⟨body, hnext, hmem⟩, hrest⟩ := TransGen.head'_iff.mp hto
    have hcycle : TransGen r.Uses last last := by
      rw [uses_eq_refers]
      exact TransGen.head' ⟨body, bodyOf_of_same hr hsame hnext, hmem⟩ hrest
    exact absurd hcycle (hsound.acyclic last)
  | @tooDeep path last hlast => exact ⟨path, last, hpath path last hlast, rfl⟩

/-! ### A row of saves -/

/-- The registry after an attempt to save; one that is refused changes nothing. -/
def afterSave (r : Registry) (d : Definition) : Registry :=
  match r.save d with
  | .ok (r', _) => r'
  | .error _ => r

def afterSaves (r : Registry) (ds : List Definition) : Registry := ds.foldl afterSave r

/-- A formula of the library refers to an id. -/
def LibraryUses (r : Registry) (id other : Value) : Prop :=
  ∃ d, r.standard? id = .ok (some d) ∧ other ∈ d.tree.formulaReferences

/-- A library whose formulas refer to each other only, and never in a circle;
    its ids are keys. -/
structure SelfContained (r : Registry) : Prop where
  keys : ∀ d ∈ r.standard, d.id.isKey = true
  closed : ∀ id other, r.LibraryUses id other → ∃ d, r.standard? other = .ok (some d)
  acyclic : ∀ id, ¬ TransGen r.LibraryUses id id

theorem selfContained_of_rank (rank : Value → Nat) (hkeys : ∀ d ∈ r.standard, d.id.isKey = true)
    (h : ∀ id d, r.standard? id = .ok (some d) → ∀ other ∈ d.tree.formulaReferences,
      rank other < rank id ∧ ∃ e, r.standard? other = .ok (some e)) : r.SelfContained := by
  refine ⟨hkeys, fun id other ⟨d, hd, hother⟩ => (h id d hd other hother).2, fun id hcycle => ?_⟩
  have hrank : ∀ other, TransGen r.LibraryUses id other → rank other < rank id := by
    intro other hpath
    induction hpath with
    | single huses =>
      obtain ⟨d, hd, hother⟩ := huses
      exact (h id d hd _ hother).1
    | tail _ huses ih =>
      obtain ⟨d, hd, hother⟩ := huses
      exact (h _ d hd _ hother).1.trans ih
  exact Nat.lt_irrefl _ (hrank id hcycle)

/-- What saving keeps: users' formulas are in memory, ids are keys, the bound
    is the one that was set, and the graph is sound. -/
structure Kept (r : Registry) (bound : Int) : Prop where
  archive : ∃ a, r.user = some (.memory a) ∧ ∀ d ∈ a.saved, d.id.isKey = true
  keys : ∀ d ∈ r.standard, d.id.isKey = true
  bounded : r.Bounded bound
  sound : r.Sound

variable {bound : Int}

theorem Kept.inMemory (h : r.Kept bound) : r.InMemory := by
  obtain ⟨a, huser, -⟩ := h.archive
  intro db hdb
  rw [huser] at hdb
  cases hdb

/-- With no formula of a user's, a formula that is found is one of the library. -/
theorem definition_of_empty (huser : r.user = some (.memory .empty)) {id : Value} {d : Definition} :
    r.definition id = .ok d ↔ r.standard? id = .ok (some d) := by
  rw [definition_eq_ok_iff]
  unfold definition?
  rw [huser]
  cases hfound : r.standard? id with
  | error f => simp [bind, Except.bind]
  | ok found =>
    cases found with
    | some e => simp [bind, Except.bind]
    | none =>
      have hnone : Archive.empty.get? id = none := rfl
      by_cases hkey : id.isKey <;>
        simp [bind, Except.bind, UserStore.get?, hkey, hnone, Attempt.mistyped]

theorem kept_of_make {standard : List Definition}
    (hmake : make standard (some (.memory .empty)) (.int bound) = .ok r) (h : r.SelfContained) :
    r.Kept bound := by
  have hbounded : r.Bounded bound := bounded_of_make hmake
  have huser : r.user = some (.memory .empty) := by
    obtain ⟨-, rfl⟩ := make_int hmake
    rfl
  have huses : r.Uses = r.LibraryUses := by
    funext id other
    simp only [Uses, LibraryUses, definition_of_empty huser]
  refine ⟨⟨.empty, huser, ?_⟩, h.keys, hbounded, ⟨?_, ?_⟩⟩
  · intro d hd
    cases hd
  · intro id other hother
    rw [huses] at hother
    obtain ⟨d, hd⟩ := h.closed id other hother
    exact ⟨d, (definition_of_empty huser).mpr hd⟩
  · rw [huses]
    exact h.acyclic

/-- What one save keeps. -/
theorem Kept.save (hkept : r.Kept bound) (h : r.Accepted d r' stored) : r'.Kept bound := by
  have hsound : r'.Sound := hkept.sound.save hkept.inMemory hkept.bounded h
  obtain ⟨b, hb, hkeys⟩ := hkept.archive
  obtain ⟨-, -, hkey, hid, -, a, huser, rfl⟩ := h
  obtain rfl : b = a := by simpa [hb] using huser
  refine ⟨⟨b.add stored, rfl, fun e he => ?_⟩, hkept.keys, ?_, hsound⟩
  · rcases List.mem_append.mp he with hold | hnew
    · exact hkeys e hold
    · rw [List.mem_singleton.mp hnew, hid, hkey]
  · obtain ⟨hmost, hreached, hpos⟩ := hkept.bounded
    exact ⟨hmost, hreached, hpos⟩

theorem Kept.afterSave (h : r.Kept bound) (d : Definition) : (r.afterSave d).Kept bound := by
  unfold Registry.afterSave
  split
  · rename_i r' stored hsave
    exact h.save (h.inMemory.accepted hsave)
  · exact h

/-- What any row of saves keeps, by induction on the row. -/
theorem Kept.afterSaves (h : r.Kept bound) (ds : List Definition) :
    (r.afterSaves ds).Kept bound := by
  induction ds generalizing r with
  | nil => exact h
  | cons d rest ih => exact ih (h.afterSave d)

/-! ### Listed formulas -/

theorem Archive.mem_saved_of_mem_all {a : Archive} {all : List Definition} (hall : a.all = .ok all)
    (hd : d ∈ all) : d ∈ a.saved := by
  obtain ⟨ids, -, h⟩ := Attempt.bind_eq_ok.mp hall
  cases h
  obtain ⟨id, -, hget⟩ := List.mem_filterMap.mp hd
  exact List.mem_of_mem_filter (List.mem_of_getLast? hget)

theorem Archive.exists_get?_of_mem {a : Archive} (hd : d ∈ a.saved) :
    ∃ e, a.get? d.id = some e := by
  have hmem : d ∈ a.versions d.id := List.mem_filter.mpr ⟨hd, d.id.same_self⟩
  exact ⟨_, List.getLast?_eq_some_getLast (List.ne_nil_of_mem hmem)⟩

/-- A formula that is listed is found under its id, maybe another one. -/
theorem Kept.exists_definition_of_listed (h : r.Kept bound) {all : List Definition}
    (hall : r.definitions = .ok all) (hd : d ∈ all) : ∃ e, r.definition d.id = .ok e := by
  obtain ⟨a, huser, hkeys⟩ := h.archive
  unfold definitions at hall
  rw [huser] at hall
  obtain ⟨saved, hsaved, hall⟩ := Attempt.bind_eq_ok.mp hall
  cases hall
  rcases List.mem_append.mp hd with hstandard | huser'
  · exact exists_definition_of_standard hstandard d.id.same_self (h.keys d hstandard)
  · have hmem : d ∈ a.saved := Archive.mem_saved_of_mem_all hsaved huser'
    obtain ⟨e, he⟩ := Archive.exists_get?_of_mem hmem
    have hkey := hkeys d hmem
    simp only [definition_eq_ok_iff, definition?, standard?, hkey, huser, UserStore.get?, he]
    cases (r.standard.filter (·.id.same d.id)).getLast? with
    | some e' => exact ⟨e', rfl⟩
    | none => exact ⟨e, rfl⟩

/-- **Saving never corrupts the graph of references.**  From a library that
    refers to itself only and without circles, and from an empty archive, every
    row of attempts to save leads to a registry whose references all lead to
    formulas and never back; an id that it lists is found, and resolving one
    that is found can fail only for the depth. -/
theorem afterSaves_sound {standard : List Definition}
    (hmake : make standard (some (.memory .empty)) (.int bound) = .ok r)
    (hlibrary : r.SelfContained) (ds : List Definition) :
    (r.afterSaves ds).Sound ∧
    (∀ all, (r.afterSaves ds).definitions = .ok all →
      ∀ d ∈ all, ∃ found, (r.afterSaves ds).definition d.id = .ok found) ∧
    (∀ id found f, (r.afterSaves ds).definition id = .ok found →
      (r.afterSaves ds).resolveId id = .error f → (r.afterSaves ds).TellsDepth id f) := by
  have hkept : (r.afterSaves ds).Kept bound := (kept_of_make hmake hlibrary).afterSaves ds
  exact ⟨hkept.sound, fun all hall d hd => hkept.exists_definition_of_listed hall hd,
    fun id found f hfound h => hkept.sound.tellsDepth hkept.inMemory hfound h⟩

/-- A block and a formula above it. -/
def smallLibrary : List Definition := [
  .ofTree "base" (.account (.starting (.text "1"))), .ofTree "ratio" (.formula (.text "base"))]

theorem smallLibrary_selfContained {user : Option UserStore} {depth : Depth} :
    SelfContained ⟨smallLibrary, user, depth⟩ := by
  have hmem : ∀ d, d ∈ smallLibrary → d = .ofTree "base" (.account (.starting (.text "1"))) ∨
      d = .ofTree "ratio" (.formula (.text "base")) := by
    simp [smallLibrary]
  refine selfContained_of_rank (fun id => if id = .text "ratio" then 1 else 0) ?_ ?_
  · intro d hd
    rcases hmem d hd with rfl | rfl <;> rfl
  · intro id d hd other hother
    obtain ⟨hd, hsame⟩ := mem_of_standard? hd
    rcases hmem d hd with rfl | rfl
    · simp [Definition.ofTree] at hother
    · obtain rfl : other = .text "base" := by simpa [Definition.ofTree] using hother
      obtain rfl : id = .text "ratio" := by
        rw [Value.same_comm] at hsame
        exact Value.same_text_iff.mp hsame
      exact ⟨by decide, _, by cbv⟩

/-- Four attempts, of which the third is refused, since it would close a circle;
    the fourth makes `b` too deep. -/
def smallEdits : List Definition := [
  .ofTree "a" (.account (.starting (.text "2"))), .ofTree "b" (.formula (.text "a")),
  .ofTree "a" (.formula (.text "b")), .ofTree "a" (.formula (.text "base"))]

theorem afterSaves_sound_smallEdits :
    ∃ r, make smallLibrary (some (.memory .empty)) (.int 2) = .ok r ∧ r.SelfContained ∧
      (r.afterSaves smallEdits).Sound ∧
      (r.afterSaves smallEdits).TellsDepth (.text "b")
        (.circularReference "base" ["b", "a", "base"] (some (.int 2))) := by
  have hmake : make smallLibrary (some (.memory .empty)) (.int 2) =
      .ok ⟨smallLibrary, some (.memory .empty), .whole 2⟩ :=
    make_of_pos (by decide) _ _
  obtain ⟨hsound, -, hfail⟩ := afterSaves_sound hmake smallLibrary_selfContained smallEdits
  exact ⟨_, hmake, smallLibrary_selfContained, hsound, hfail _ _ _ (by cbv) (by cbv)⟩

/-! ### What a save does to other formulas -/

/-- Every path of references from an id through the saved formula has at most
    `bound` formulas. -/
def RoomThrough (r : Registry) (bound : Int) (saved id : Value) : Prop :=
  ∀ rest, (id :: rest).IsChain r.Uses → (∃ through ∈ id :: rest, saved.same through = true) →
    ((id :: rest).length : Int) ≤ bound

theorem Kept.exists_resolveId_iff (h : r.Kept bound) (id : Value) :
    (∃ t, r.resolveId id = .ok t) ↔ r.Resolvable bound id :=
  Registry.exists_resolveId_iff h.bounded (fun _ _ => .inl h.inMemory) id

/-- In a sound registry only the bound can be in the way of an id that is found. -/
theorem Sound.resolvable_iff (hsound : r.Sound) {id : Value} {found : Definition}
    (hfound : r.definition id = .ok found) :
    r.Resolvable bound id ↔
      ∀ rest, (id :: rest).IsChain r.Uses → ((id :: rest).length : Int) ≤ bound := by
  refine ⟨Resolvable.bounded, fun hbounded =>
    ⟨fun other hpath => ?_, fun other _ => hsound.acyclic other, hbounded⟩⟩
  rcases ReflTransGen.cases_tail hpath with rfl | ⟨before, -, huses⟩
  · exact ⟨found, hfound⟩
  · exact hsound.closed before other huses

/-- A formula that resolved before a save resolves after it exactly if there is
    room for the paths through the saved formula. -/
theorem Kept.resolves_after_iff (hkept : r.Kept bound) (h : r.Accepted d r' stored) {id : Value}
    {t : Term} (hid : r.resolveId id = .ok t) :
    (∃ t', r'.resolveId id = .ok t') ↔ r'.RoomThrough bound d.id id := by
  have hkept' : r'.Kept bound := hkept.save h
  have hbefore : r.Resolvable bound id := (hkept.exists_resolveId_iff id).mp ⟨t, hid⟩
  obtain ⟨e, he⟩ := hbefore.defined id .refl
  obtain ⟨e', he'⟩ := h.exists_definition he
  rw [hkept'.exists_resolveId_iff, hkept'.sound.resolvable_iff he']
  constructor
  · intro hall rest hchain _
    exact hall rest hchain
  · intro hroom rest hchain
    by_cases hthrough : ∃ through ∈ id :: rest, d.id.same through = true
    · exact hroom rest hchain hthrough
    · -- a path that does not meet the saved formula was there before
      refine hbefore.bounded rest (hchain.imp_of_mem_imp fun first next hfirst _ huses => ?_)
      rcases h.uses_or_same first next huses with hold | hsame
      · exact hold
      · exact absurd ⟨first, hfirst, hsame⟩ hthrough

/-- A formula with a new id is in no other formula's way: none that resolved
    refers to it. -/
theorem Kept.resolves_after_new (hkept : r.Kept bound) (h : r.Accepted d r' stored)
    (hnew : ∀ e, r.definition d.id ≠ .ok e) {id : Value} {t : Term}
    (hid : r.resolveId id = .ok t) : ∃ t', r'.resolveId id = .ok t' := by
  have hbefore : r.Resolvable bound id := (hkept.exists_resolveId_iff id).mp ⟨t, hid⟩
  have huntouched : ∀ other, ReflTransGen r.Uses id other → ¬ d.id.same other = true := by
    intro other hother hsame
    obtain ⟨e, he⟩ := hbefore.defined other hother
    exact hnew e (definition_of_same hkept.inMemory (by rw [Value.same_comm, hsame]) he)
  refine (hkept.resolves_after_iff h hid).mpr fun rest hchain ⟨through, hmem, hsame⟩ => ?_
  rcases List.mem_cons.mp hmem with rfl | hrest
  · exact absurd hsame (huntouched _ .refl)
  · have hpath : TransGen r'.Uses id through :=
      List.rel_of_pairwise_cons (pairwise_of_isChain hchain) hrest
    -- the first saved id on the path is reached by references that were there before
    rcases transGen_or_through h.uses_or_same hpath with hold | ⟨mid, hmid, hold, -, -⟩
    · exact absurd hsame (huntouched through hold.to_reflTransGen)
    · exact absurd hmid (huntouched mid hold)

/-- **When a formula outlives a save.**  In every registry that is reached by
    saving, from a library that refers to itself only and without circles, a
    formula that resolved before a save resolves after it exactly if there is
    room for the paths through the saved formula; otherwise it fails for the
    depth.  Only an edit can do that: a formula with a new id breaks none. -/
theorem resolves_after_save_iff {standard : List Definition} {first : Registry}
    (hmake : make standard (some (.memory .empty)) (.int bound) = .ok first)
    (hlibrary : first.SelfContained) (ds : List Definition)
    (h : (first.afterSaves ds).save d = .ok (r', stored)) {id : Value} {t : Term}
    (hid : (first.afterSaves ds).resolveId id = .ok t) :
    ((∃ t', r'.resolveId id = .ok t') ↔ r'.RoomThrough bound d.id id) ∧
    (∀ f, r'.resolveId id = .error f → r'.TellsDepth id f) ∧
    ((∀ e, (first.afterSaves ds).definition d.id ≠ .ok e) → ∃ t', r'.resolveId id = .ok t') := by
  have hkept : (first.afterSaves ds).Kept bound := (kept_of_make hmake hlibrary).afterSaves ds
  have haccepted : (first.afterSaves ds).Accepted d r' stored := hkept.inMemory.accepted h
  have hkept' : r'.Kept bound := hkept.save haccepted
  obtain ⟨e, he, -⟩ := resolveId_eq_ok_iff.mp hid
  obtain ⟨e', he'⟩ := haccepted.exists_definition he
  exact ⟨hkept.resolves_after_iff haccepted hid,
    fun f hf => hkept'.sound.tellsDepth hkept'.inMemory he' hf,
    fun hnew => hkept.resolves_after_new haccepted hnew hid⟩

/-- With a bound of three there is room for the edit that makes `b` too deep for
    two. -/
theorem resolves_after_save_iff_smallEdits :
    ∃ first r' stored t, make smallLibrary (some (.memory .empty)) (.int 3) = .ok first ∧
      first.SelfContained ∧
      (first.afterSaves (smallEdits.take 3)).save (.ofTree "a" (.formula (.text "base"))) =
        .ok (r', stored) ∧
      (first.afterSaves (smallEdits.take 3)).resolveId (.text "b") = .ok t ∧
      r'.RoomThrough 3 (.text "a") (.text "b") := by
  have hmake : make smallLibrary (some (.memory .empty)) (.int 3) =
      .ok ⟨smallLibrary, some (.memory .empty), .whole 3⟩ :=
    make_of_pos (by decide) _ _
  have hsave : (afterSaves ⟨smallLibrary, some (.memory .empty), .whole 3⟩ (smallEdits.take 3)).save
      (.ofTree "a" (.formula (.text "base"))) =
        .ok (⟨smallLibrary, some (.memory ⟨smallEdits.take 2 ++
          [{ Definition.ofTree "a" (.formula (.text "base")) with version := .int 2 }]⟩), .whole 3⟩,
          { Definition.ofTree "a" (.formula (.text "base")) with version := .int 2 }) := by
    cbv
  have hbefore : (afterSaves ⟨smallLibrary, some (.memory .empty), .whole 3⟩
      (smallEdits.take 3)).resolveId (.text "b") =
        .ok (.grouping (.account (.starting (.text "2")))) := by
    cbv
  obtain ⟨hroom, -⟩ := resolves_after_save_iff hmake smallLibrary_selfContained (smallEdits.take 3)
    hsave hbefore
  exact ⟨_, _, _, _, hmake, smallLibrary_selfContained, hsave, hbefore, hroom.mp ⟨_, by cbv⟩⟩

/-- Two blocks, `a` and `c`, and a formula above `a`. -/
def twoBlocks : List Definition := [
  .ofTree "a" (.account (.starting (.text "1"))), .ofTree "b" (.formula (.text "a")),
  .ofTree "c" (.account (.starting (.text "2")))]

/-- Saving one formula can break another: with a bound of two, `b` resolves
    while `a` is a block, and no longer when `a` is put above `c`. -/
theorem not_always_resolves_after_save :
    ¬ ∀ (standard : List Definition) (bound : Int) (first : Registry) (ds : List Definition)
      (d : Definition) (r' : Registry) (stored : Definition) (id : Value) (t : Term),
      make standard (some (.memory .empty)) (.int bound) = .ok first → first.SelfContained →
      (first.afterSaves ds).save d = .ok (r', stored) →
      (first.afterSaves ds).resolveId id = .ok t → ∃ t', r'.resolveId id = .ok t' := by
  intro h
  have hlibrary : SelfContained ⟨[], some (.memory .empty), .whole 2⟩ :=
    selfContained_of_rank (fun _ => 0) (by simp) fun id d hd => by
      cases (mem_of_standard? hd).1
  have hsave : (afterSaves ⟨[], some (.memory .empty), .whole 2⟩ twoBlocks).save
      (.ofTree "a" (.formula (.text "c"))) =
        .ok (⟨[], some (.memory ⟨twoBlocks ++
          [{ Definition.ofTree "a" (.formula (.text "c")) with version := .int 2 }]⟩), .whole 2⟩,
          { Definition.ofTree "a" (.formula (.text "c")) with version := .int 2 }) := by
    cbv
  obtain ⟨t, ht⟩ := h [] 2 _ twoBlocks _ _ _ (.text "b")
    (.grouping (.account (.starting (.text "1")))) (make_of_pos (by decide) _ _) hlibrary hsave
    (by cbv)
  have hfail : resolveId ⟨[], some (.memory ⟨twoBlocks ++
        [{ Definition.ofTree "a" (.formula (.text "c")) with version := .int 2 }]⟩), .whole 2⟩
        (.text "b") =
      .error (.circularReference "c" ["b", "a", "c"] (some (.int 2))) := by
    cbv
  cases hfail.symm.trans ht

end Registry

end KeyFigures
