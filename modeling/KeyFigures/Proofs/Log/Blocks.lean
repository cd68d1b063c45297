/-
  KeyFigures/Proofs/Log/Blocks.lean
  =================================
  **What a block binds, and what it leaves behind.**

  A block binds fields for its length; inside it fields are set and cleared and
  further blocks are run (`Step`).  Its end undoes its own bindings and nothing
  else: a field that the block gave a value has the text that it had before, and
  every other field keeps the text with which the inside left it, however the
  inside ends (`run_block_restores`).  So what is written to a field inside a
  block that binds it is not seen outside (`get_runAll_of_not_writes`).

  Bindings are made one after another.  An unknown name ends that in the middle,
  and what stands before it stays bound (`refused_bind_leaves`): nothing undoes
  it, since the block was not entered.
-/
import KeyFigures.Proofs.Log.Carried

namespace KeyFigures.Log

/-! ### Named values -/

/-- Whether the field is given a value; a null is none. -/
def gives (fields : List (String × Value)) (f : Field) : Bool :=
  fields.any fun m => m.1 == f.name && !m.2.isNull

/-- Whether all that is given a value is a field. -/
def areKnown (fields : List (String × Value)) : Bool :=
  fields.all fun m => m.2.isNull || (Field.ofName? m.1).isSome

/-- The named values of which the names are those of fields. -/
def known (fields : List (String × Value)) : List (Field × Value) :=
  fields.filterMap fun m => (Field.ofName? m.1).map fun f => (f, m.2)

theorem gives_cons (name : String) (v : Value) (rest : List (String × Value)) (f : Field) :
    gives ((name, v) :: rest) f = (name == f.name && !v.isNull || gives rest f) := rfl

theorem areKnown_cons (name : String) (v : Value) (rest : List (String × Value)) :
    areKnown ((name, v) :: rest) =
      ((v.isNull || (Field.ofName? name).isSome) && areKnown rest) := rfl

theorem known_cons_of_field {name : String} {f : Field} (h : Field.ofName? name = some f)
    (v : Value) (rest : List (String × Value)) :
    known ((name, v) :: rest) = (f, v) :: known rest := by
  unfold known
  rw [List.filterMap_cons, h]
  rfl

theorem known_cons_of_unknown {name : String} (h : Field.ofName? name = none) (v : Value)
    (rest : List (String × Value)) : known ((name, v) :: rest) = known rest := by
  unfold known
  rw [List.filterMap_cons, h]
  rfl

theorem Field.ofName?_eq_some_iff {name : String} {f : Field} :
    Field.ofName? name = some f ↔ name = f.name := by
  constructor
  · intro h
    have hname := List.find?_some h
    exact (eq_of_beq hname).symm
  · rintro rfl
    cases f <;> rfl

theorem Field.name_inj {f g : Field} : f.name = g.name ↔ f = g := by
  cases f <;> cases g <;> decide

theorem mem_known {fields : List (String × Value)} {f : Field} {v : Value} :
    (f, v) ∈ known fields ↔ (f.name, v) ∈ fields := by
  unfold known
  rw [List.mem_filterMap]
  constructor
  · rintro ⟨⟨name, w⟩, hmem, h⟩
    obtain ⟨g, hg, heq⟩ := Option.map_eq_some_iff.mp h
    cases heq
    rw [← Field.ofName?_eq_some_iff.mp hg]
    exact hmem
  · intro h
    exact ⟨_, h, by rw [Field.ofName?_eq_some_iff.mpr rfl]; rfl⟩

namespace Context

theorem ext_get {c c' : Context} (h : ∀ f, c.get f = c'.get f) : c = c' := by
  obtain ⟨request, entity, year, formula⟩ := c
  obtain ⟨request', entity', year', formula'⟩ := c'
  have hrequest : request = request' := h .requestId
  have hentity : entity = entity' := h .entityId
  have hyear : year = year' := h .fiscalYear
  have hformula : formula = formula' := h .formulaKey
  rw [hrequest, hentity, hyear, hformula]

/-- Contexts that show the same are the same. -/
theorem toList_inj {c c' : Context} : c.toList = c'.toList ↔ c = c' := by
  constructor
  · intro h
    apply ext_get
    intro f
    have hshown := lookup?_toList c f
    rw [h, lookup?_toList] at hshown
    exact Option.map_injective (fun s t hst => Value.text.inj hst) hshown.symm
  · rintro rfl
    rfl

/-! ### Setting -/

theorem set_cons (c : Context) (f : Field) (v : Value) (rest : List (Field × Value)) :
    c.set ((f, v) :: rest) = (if v.isNull then c else c.put f (some v.display)).set rest := rfl

/-- A field that is given nothing keeps its text. -/
theorem get_set_of_forall {c : Context} {f : Field} {fields : List (Field × Value)}
    (h : ∀ v, (f, v) ∈ fields → v.isNull = true) : (c.set fields).get f = c.get f := by
  induction fields generalizing c with
  | nil => rfl
  | cons m rest ih =>
    obtain ⟨g, v⟩ := m
    rw [set_cons, ih fun w hw => h w (List.mem_cons_of_mem _ hw)]
    split
    · rfl
    · rename_i hv
      refine get_put_of_ne c _ ?_
      rintro rfl
      exact hv (h v List.mem_cons_self)

/-- A field that is given one value has its text. -/
theorem get_set_of_mem {c : Context} {f : Field} {v : Value} {fields : List (Field × Value)}
    (hnames : (fields.map (·.1)).Nodup) (h : (f, v) ∈ fields) (hv : v.isNull = false) :
    (c.set fields).get f = some v.display := by
  induction fields generalizing c with
  | nil => cases h
  | cons m rest ih =>
    obtain ⟨g, w⟩ := m
    obtain ⟨hnew, hrest⟩ := List.nodup_cons.mp hnames
    rw [set_cons]
    rcases List.mem_cons.mp h with heq | h
    · cases heq
      have hothers : ∀ u, (f, u) ∈ rest → u.isNull = true := fun u hu =>
        absurd (List.mem_map.mpr ⟨_, hu, rfl⟩) hnew
      rw [get_set_of_forall hothers, hv]
      exact get_put_self c f _
    · exact ih hrest h

theorem get_set_known_of_not_gives {c : Context} {f : Field} {fields : List (String × Value)}
    (h : gives fields f = false) : (c.set (known fields)).get f = c.get f := by
  apply get_set_of_forall
  intro v hv
  have hnot := List.any_eq_false.mp h _ (mem_known.mp hv)
  simpa using hnot

/-! ### Binding -/

theorem go_cons_of_isNull (c : Context) (saved : Saved) (name : String) {v : Value}
    (hv : v.isNull = true) (rest : List (String × Value)) :
    bind.go c saved ((name, v) :: rest) = bind.go c saved rest := by
  rw [bind.go, if_pos hv]

theorem go_cons_of_field (c : Context) (saved : Saved) {name : String} {f : Field} {v : Value}
    (hv : v.isNull = false) (hname : Field.ofName? name = some f) (rest : List (String × Value)) :
    bind.go c saved ((name, v) :: rest) =
      bind.go (c.put f (some v.display)) ((f, c.get f) :: saved) rest := by
  rw [bind.go, hv, hname]
  rfl

theorem go_cons_of_unknown (c : Context) (saved : Saved) {name : String} {v : Value}
    (hv : v.isNull = false) (hname : Field.ofName? name = none) (rest : List (String × Value)) :
    bind.go c saved ((name, v) :: rest) = (.error (.missingKey (Text.quoted name)), c) := by
  rw [bind.go, hv, hname]
  rfl

theorem restore_concat (c : Context) (saved : Saved) (f : Field) (v : Option String) :
    c.restore (saved ++ [(f, v)]) = (c.restore saved).put f v := by
  unfold restore
  rw [List.foldl_append]
  rfl

/-- Known names are bound one after another.  What is to be restored for them
    gives each field that got a value the text that it had, and no other field
    any. -/
theorem exists_go_append {before : List (String × Value)} (hknown : areKnown before = true)
    (c : Context) (saved : Saved) (rest : List (String × Value)) :
    ∃ undone, bind.go c saved (before ++ rest) =
        bind.go (c.set (known before)) (undone ++ saved) rest ∧
      ∀ (left : Context) (f : Field),
        (left.restore undone).get f = if gives before f then c.get f else left.get f := by
  -- what the first name had is restored last, so it prevails over what a later
  -- binding of the same name found
  induction before generalizing c saved with
  | nil => exact ⟨[], rfl, fun _ _ => rfl⟩
  | cons m before ih =>
    obtain ⟨name, v⟩ := m
    obtain ⟨hfirst, hbefore⟩ := Bool.and_eq_true_iff.mp (areKnown_cons name v before ▸ hknown)
    cases hv : v.isNull with
    | true =>
      have hset : c.set (known ((name, v) :: before)) = c.set (known before) := by
        cases hname : Field.ofName? name with
        | none => rw [known_cons_of_unknown hname]
        | some f => rw [known_cons_of_field hname, set_cons, if_pos hv]
      obtain ⟨undone, hgo, hundone⟩ := ih hbefore c saved
      refine ⟨undone, ?_, fun left f => ?_⟩
      · rw [List.cons_append, go_cons_of_isNull c saved name hv, hgo, hset]
      · rw [hundone, gives_cons, hv, Bool.not_true, Bool.and_false, Bool.false_or]
    | false =>
      rw [hv, Bool.false_or] at hfirst
      obtain ⟨f, hname⟩ := Option.isSome_iff_exists.mp hfirst
      obtain ⟨undone, hgo, hundone⟩ := ih hbefore (c.put f (some v.display)) ((f, c.get f) :: saved)
      refine ⟨undone ++ [(f, c.get f)], ?_, fun left g => ?_⟩
      · rw [List.cons_append, go_cons_of_field c saved hv hname, hgo, known_cons_of_field hname,
          set_cons, hv, List.append_assoc]
        rfl
      · obtain rfl := Field.ofName?_eq_some_iff.mp hname
        rw [restore_concat, gives_cons, hv]
        by_cases hg : g = f
        · subst hg
          simp [get_put_self]
        · have hne : f.name ≠ g.name := fun h => hg (Field.name_inj.mp h).symm
          rw [get_put_of_ne _ _ hg, hundone, get_put_of_ne _ _ hg]
          simp [hne]

/-- A block is entered if it gives values to fields only.  Restoring undoes what
    it binds and nothing else. -/
theorem exists_bind_eq {fields : List (String × Value)} (hknown : areKnown fields = true)
    (c : Context) :
    ∃ saved, c.bind fields = (.ok saved, c.set (known fields)) ∧
      ∀ (left : Context) (f : Field),
        (left.restore saved).get f = if gives fields f then c.get f else left.get f := by
  obtain ⟨undone, hgo, hundone⟩ := exists_go_append hknown c [] []
  rw [List.append_nil, List.append_nil] at hgo
  exact ⟨undone, hgo, hundone⟩

/-- The first unknown name is refused after all that stands before it is bound. -/
theorem bind_append_unknown {before : List (String × Value)} (hknown : areKnown before = true)
    {name : String} {v : Value} (hv : v.isNull = false) (hname : Field.ofName? name = none)
    (c : Context) (after : List (String × Value)) :
    c.bind (before ++ (name, v) :: after) =
      (.error (.missingKey (Text.quoted name)), c.set (known before)) := by
  obtain ⟨undone, hgo, -⟩ := exists_go_append hknown c [] ((name, v) :: after)
  exact hgo.trans (go_cons_of_unknown _ _ hv hname after)

/-- Where not all is known there is a first unknown name. -/
theorem exists_unknown {fields : List (String × Value)} (h : areKnown fields = false) :
    ∃ before name v after, fields = before ++ (name, v) :: after ∧ areKnown before = true ∧
      v.isNull = false ∧ Field.ofName? name = none := by
  induction fields with
  | nil => cases h
  | cons m rest ih =>
    obtain ⟨name, v⟩ := m
    rw [areKnown_cons] at h
    cases hfirst : v.isNull || (Field.ofName? name).isSome with
    | false =>
      obtain ⟨hv, hname⟩ := Bool.or_eq_false_iff.mp hfirst
      have hname : Field.ofName? name = none := Option.isNone_iff_eq_none.mp (by simpa using hname)
      exact ⟨[], name, v, rest, rfl, rfl, hv, hname⟩
    | true =>
      rw [hfirst, Bool.true_and] at h
      obtain ⟨before, name', w, after, rfl, hbefore, hw, hname'⟩ := ih h
      refine ⟨(name, v) :: before, name', w, after, rfl, ?_, hw, hname'⟩
      rw [areKnown_cons, hfirst, hbefore]
      rfl

end Context

/-! ### Blocks -/

/-- A step of work on a context.  A block binds fields for the length of its
    body; a failure ends it and what it stands in. -/
inductive Step where
  | set (fields : List (Field × Value))
  | clear
  | fail (f : Failure)
  | block (fields : List (String × Value)) (body : List Step)

namespace Step

mutual

/-- How a step ends, and the context afterwards.  A block that is entered
    restores what it bound, however its body ends. -/
def run (c : Context) : Step → Attempt Unit × Context
  | .set fields => (.ok (), c.set fields)
  | .clear => (.ok (), .empty)
  | .fail f => (.error f, c)
  | .block fields body =>
    match c.bind fields with
    | (.error f, c) => (.error f, c)
    | (.ok saved, c) =>
      let (ending, left) := runAll c body
      (ending, left.restore saved)

/-- How steps one after another end, and the context afterwards. -/
def runAll (c : Context) : List Step → Attempt Unit × Context
  | [] => (.ok (), c)
  | step :: rest =>
    match run c step with
    | (.error f, c) => (.error f, c)
    | (.ok (), c) => runAll c rest

end

theorem run_block_eq {c entered : Context} {fields : List (String × Value)} {saved : Context.Saved}
    (h : c.bind fields = (.ok saved, entered)) (body : List Step) :
    run c (.block fields body) =
      ((runAll entered body).1, (runAll entered body).2.restore saved) := by
  rw [run, h]

theorem run_block_of_refused {c c' : Context} {fields : List (String × Value)} {e : Failure}
    (h : c.bind fields = (.error e, c')) (body : List Step) :
    run c (.block fields body) = (.error e, c') := by
  rw [run, h]

/-- **A block undoes what it binds.**  It is entered if it gives values to
    fields only, and it ends as its body does.  Afterwards each field that it
    gave a value has what it had before, and every other field what the body
    left it with. -/
theorem run_block_restores (c : Context) {fields : List (String × Value)}
    (hknown : areKnown fields = true) (body : List Step) :
    ∃ saved entered ending left after, c.bind fields = (.ok saved, entered) ∧
      runAll entered body = (ending, left) ∧ run c (.block fields body) = (ending, after) ∧
      ∀ f, after.get f = if gives fields f then c.get f else left.get f := by
  obtain ⟨saved, hbind, hrestore⟩ := Context.exists_bind_eq hknown c
  exact ⟨saved, _, _, _, _, hbind, rfl, run_block_eq hbind body, hrestore _⟩

/-- Work inside a block that clears all, sets other fields and those that the
    block binds, has a block of its own, and fails in the end. -/
def busyBody : List Step :=
  [.clear, .set [(.requestId, .text "r"), (.entityId, .text "late")],
    .block [("entity_id", .text "inner"), ("formula_key", .int 7)] [.set [(.fiscalYear, .int 1)]],
    .fail .missingItem]

/-- The entity is restored and the year is gone; the request, which the block
    does not bind, keeps what the body gave it. -/
theorem run_block_restores_busyBody :
    areKnown [("entity_id", .text "middle"), ("fiscal_year", .int 2024)] = true ∧
      ∃ after, run { entityId := some "outer" }
          (.block [("entity_id", .text "middle"), ("fiscal_year", .int 2024)] busyBody) =
        (.error .missingItem, after) ∧
      after.get .entityId = some "outer" ∧ after.get .fiscalYear = none ∧
      after.get .requestId = some "r" ∧ after.get .formulaKey = none := by
  have hknown : areKnown [("entity_id", .text "middle"), ("fiscal_year", .int 2024)] = true := rfl
  refine ⟨hknown, ?_⟩
  obtain ⟨saved, entered, ending, left, after, hbind, hbody, hrun, hget⟩ :=
    run_block_restores { entityId := some "outer" } hknown busyBody
  cases hbind
  cases hbody
  exact ⟨after, hrun, hget .entityId, hget .fiscalYear, hget .requestId, hget .formulaKey⟩

/-! ### What is written -/

mutual

/-- Whether a step can change a field for what comes after it.  What a block
    writes to fields that it binds is undone; a block that is refused binds
    fields and does not undo it. -/
def writes (f : Field) : Step → Bool
  | .set fields => fields.any fun m => m.1 == f && !m.2.isNull
  | .clear => true
  | .fail _ => false
  | .block fields body =>
    if areKnown fields then !gives fields f && writesAny f body else gives fields f

/-- Whether one of the steps can change a field. -/
def writesAny (f : Field) : List Step → Bool
  | [] => false
  | step :: rest => writes f step || writesAny f rest

end

mutual

/-- A step leaves a field alone that it does not write. -/
theorem get_run_of_not_writes {f : Field} (c : Context) (step : Step) (h : writes f step = false) :
    (run c step).2.get f = c.get f := by
  cases step with
  | set fields =>
    apply Context.get_set_of_forall
    intro v hv
    simpa using List.any_eq_false.mp h _ hv
  | clear => cases h
  | fail => rfl
  | block fields body =>
    rw [writes] at h
    cases hknown : areKnown fields with
    | true =>
      obtain ⟨saved, hbind, hrestore⟩ := Context.exists_bind_eq hknown c
      rw [run_block_eq hbind, hrestore]
      cases hgives : gives fields f with
      | true => rfl
      | false =>
        have hbody : writesAny f body = false := by simpa [hknown, hgives] using h
        exact (get_runAll_of_not_writes _ body hbody).trans
          (Context.get_set_known_of_not_gives hgives)
    | false =>
      -- the body is not run, and only what stands before the unknown name is bound
      obtain ⟨before, name, v, after, rfl, hbefore, hv, hname⟩ := Context.exists_unknown hknown
      have hgives : gives before f = false := by
        rw [hknown] at h
        unfold gives at h ⊢
        rw [if_neg nofun, List.any_append] at h
        exact (Bool.or_eq_false_iff.mp h).1
      rw [run_block_of_refused (Context.bind_append_unknown hbefore hv hname c after)]
      exact Context.get_set_known_of_not_gives hgives

/-- Steps leave a field alone that none of them writes. -/
theorem get_runAll_of_not_writes {f : Field} (c : Context) (body : List Step)
    (h : writesAny f body = false) : (runAll c body).2.get f = c.get f := by
  cases body with
  | nil => rfl
  | cons step rest =>
    obtain ⟨hstep, hrest⟩ := Bool.or_eq_false_iff.mp h
    have hfirst := get_run_of_not_writes c step hstep
    rw [runAll]
    revert hfirst
    rcases run c step with ⟨e | ⟨⟩, c'⟩ <;> intro hfirst
    · exact hfirst
    · exact (get_runAll_of_not_writes c' rest hrest).trans hfirst

end

end Step

/-! ### Refused bindings -/

theorem nodup_known {fields : List (String × Value)} (h : (fields.map (·.1)).Nodup) :
    ((known fields).map (·.1)).Nodup := by
  induction fields with
  | nil => exact List.nodup_nil
  | cons m rest ih =>
    obtain ⟨name, v⟩ := m
    obtain ⟨hnew, hrest⟩ := List.nodup_cons.mp h
    cases hname : Field.ofName? name with
    | none =>
      rw [known_cons_of_unknown hname]
      exact ih hrest
    | some f =>
      rw [known_cons_of_field hname, List.map_cons]
      refine List.nodup_cons.mpr ⟨fun hmem => hnew ?_, ih hrest⟩
      obtain ⟨⟨g, w⟩, hg, rfl⟩ := List.mem_map.mp hmem
      rw [Field.ofName?_eq_some_iff.mp hname]
      exact List.mem_map.mpr ⟨_, mem_known.mp hg, rfl⟩

namespace Context

/-- Setting fields changes nothing exactly if each has the text already. -/
theorem set_known_eq_self_iff {c : Context} {fields : List (String × Value)}
    (hnames : (fields.map (·.1)).Nodup) :
    c.set (known fields) = c ↔
      ∀ f v, (f.name, v) ∈ fields → v.isNull = false → c.get f = some v.display := by
  constructor
  · intro h f v hmem hv
    rw [← get_set_of_mem (nodup_known hnames) (mem_known.mpr hmem) hv, h]
  · intro h
    apply ext_get
    intro f
    cases hgives : gives fields f with
    | false => exact get_set_known_of_not_gives hgives
    | true =>
      obtain ⟨⟨name, v⟩, hmem, hgiven⟩ := List.any_eq_true.mp hgives
      obtain ⟨hname, hv⟩ := Bool.and_eq_true_iff.mp hgiven
      obtain rfl := eq_of_beq hname
      have hv : v.isNull = false := by simpa using hv
      rw [get_set_of_mem (nodup_known hnames) (mem_known.mpr hmem) hv, h f v hmem hv]

/-- A block is refused exactly if it gives a value to something unknown. -/
theorem bind_fails_iff {c : Context} {fields : List (String × Value)} :
    (∃ e, (c.bind fields).1 = .error e) ↔ areKnown fields = false := by
  constructor
  · rintro ⟨e, he⟩
    cases hknown : areKnown fields with
    | false => rfl
    | true =>
      obtain ⟨saved, hbind, -⟩ := exists_bind_eq hknown c
      rw [hbind] at he
      cases he
  · intro h
    obtain ⟨before, name, v, after, rfl, hbefore, hv, hname⟩ := exists_unknown h
    rw [bind_append_unknown hbefore hv hname]
    exact ⟨_, rfl⟩

/-- **A refused block leaves traces.**  Names are bound in their order up to the
    first unknown one, which is the one that is named; what was bound by then
    stays.  So the context is as before exactly if all that was given before
    the unknown name had its text already. -/
theorem refused_bind_leaves {c c' : Context} {fields : List (String × Value)} {e : Failure}
    (hnames : (fields.map (·.1)).Nodup) (h : c.bind fields = (.error e, c')) :
    ∃ before name v after, fields = before ++ (name, v) :: after ∧ areKnown before = true ∧
      v.isNull = false ∧ Field.ofName? name = none ∧ e = .missingKey (Text.quoted name) ∧
      c' = c.set (known before) ∧
      (c'.toList = c.toList ↔
        ∀ f w, (f.name, w) ∈ before → w.isNull = false → c.get f = some w.display) := by
  obtain ⟨before, name, v, after, rfl, hbefore, hv, hname⟩ :=
    exists_unknown (bind_fails_iff.mp ⟨e, by rw [h]⟩)
  rw [bind_append_unknown hbefore hv hname] at h
  cases h
  have hnames : (before.map (·.1)).Nodup := by
    rw [List.map_append] at hnames
    exact hnames.of_append_left
  refine ⟨before, name, v, after, rfl, hbefore, hv, hname, rfl, rfl, ?_⟩
  rw [toList_inj, set_known_eq_self_iff hnames]

/-- A field that stands before an unknown name stays bound to its new text. -/
theorem refused_bind_leaves_entity :
    (([("entity_id", .text "b"), ("unknown", .int 1)] : List (String × Value)).map (·.1)).Nodup ∧
      ∃ c', bind { entityId := some "a" } [("entity_id", .text "b"), ("unknown", .int 1)] =
        (.error (.missingKey (Text.quoted "unknown")), c') ∧
        c'.toList ≠ toList { entityId := some "a" } := by
  have hnames : (([("entity_id", .text "b"), ("unknown", .int 1)] :
      List (String × Value)).map (·.1)).Nodup := by decide
  refine ⟨hnames, _, rfl, fun hsame => ?_⟩
  obtain ⟨before, name, v, after, hfields, -, -, hname, -, -, hiff⟩ :=
    refused_bind_leaves (c := { entityId := some "a" }) hnames rfl
  rcases before with _ | ⟨m, _ | ⟨m', rest⟩⟩
  · cases hfields
    cases hname
  · cases hfields
    have htext := hiff.mp hsame .entityId (.text "b") (List.mem_singleton_self _) rfl
    exact absurd htext (by decide)
  · simp at hfields

/-- A refused block may have bound something. -/
theorem not_refused_bind_changes_nothing :
    ¬∀ (c c' : Context) (fields : List (String × Value)) (e : Failure),
      (fields.map (·.1)).Nodup → c.bind fields = (.error e, c') → c'.toList = c.toList := by
  intro h
  have hsame := h .empty _ [("entity_id", .text "leak"), ("unknown", .int 1)] _ (by decide) rfl
  revert hsame
  decide +kernel

end Context

end KeyFigures.Log
