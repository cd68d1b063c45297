/-
  KeyFigures/Proofs/Log/Encoding.lean
  ===================================
  **How records hold what JSON has not.**

  Data of a record is meant to be written in its standard form (`standardForm`):
  a moment as its standard text, a number and a choice as their texts, a set as
  the list of its items, at any depth of lists and objects.  What is written
  (`encode`) is in standard form except for moments and sets: these are written
  as the texts that display them, whatever they hold (`displayed`).  So a line
  is in standard form exactly if neither a moment nor a set stands in its
  record (`line_in_standardForm_iff`).
-/
import KeyFigures.Proofs.Log.Carried
import KeyFigures.Proofs.Value.Canonical
import KeyFigures.Proofs.Value.Failing

namespace KeyFigures

namespace Value

/-- What a record is meant to hold: JSON mixed with numbers, moments, choices
    and sets, at any depth. -/
inductive IsLoggable : Value → Prop
  | null : IsLoggable .null
  | bool (b : Bool) : IsLoggable (.bool b)
  | int (n : Int) : IsLoggable (.int n)
  | float (x : Float) : IsLoggable (.float x)
  | text (s : String) : IsLoggable (.text s)
  | decimal (d : Decimal) : IsLoggable (.decimal d)
  | moment (m : Moment) : IsLoggable (.moment m)
  | choice (c : Choice) : IsLoggable (.choice c)
  | list {items : List Value} : (∀ v ∈ items, IsLoggable v) → IsLoggable (.list items)
  | tuple {items : List Value} : (∀ v ∈ items, IsLoggable v) → IsLoggable (.tuple items)
  | set {items : List Value} : (∀ v ∈ items, IsLoggable v) → IsLoggable (.set items)
  | object {members : List (String × Value)} : (∀ m ∈ members, IsLoggable m.2) →
      IsLoggable (.object members)

/-! ### The standard form -/

mutual

/-- The plain data by which a record is meant to hold data.  Days and things
    with named fields have none. -/
def standardForm : Value → Attempt Value
  | .moment m => .ok (.text m.toText)
  | .decimal d => .ok (.text d.toText)
  | .choice c => .ok (.text c.text)
  | .list items | .tuple items | .set items => (standardItems items).map .list
  | .object members => (standardMembers members).map .object
  | .day _ => .error (.misuse (.notSerializable "date"))
  | .record typeName _ => .error (.misuse (.notSerializable typeName))
  | v => .ok v

/-- The standard forms of the items of a list. -/
def standardItems : List Value → Attempt (List Value)
  | [] => .ok []
  | v :: rest => do
    let first ← v.standardForm
    let others ← standardItems rest
    .ok (first :: others)

/-- The standard forms of the members of an object. -/
def standardMembers : List (String × Value) → Attempt (List (String × Value))
  | [] => .ok []
  | (name, v) :: rest => do
    let first ← v.standardForm
    let others ← standardMembers rest
    .ok ((name, first) :: others)

end

mutual

/-- Whether a moment or a set stands in data. -/
def hasMisfit : Value → Bool
  | .moment _ | .set _ => true
  | .list items | .tuple items => anyMisfit items
  | .object members => anyMisfitMember members
  | _ => false

def anyMisfit : List Value → Bool
  | [] => false
  | v :: rest => v.hasMisfit || anyMisfit rest

def anyMisfitMember : List (String × Value) → Bool
  | [] => false
  | (_, v) :: rest => v.hasMisfit || anyMisfitMember rest

end

mutual

/-- Data with the texts that display them in the place of moments and sets. -/
def displayed : Value → Value
  | .moment m => .text (Value.moment m).display
  | .set items => .text (Value.set items).display
  | .list items => .list (displayedItems items)
  | .tuple items => .tuple (displayedItems items)
  | .object members => .object (displayedMembers members)
  | v => v

def displayedItems : List Value → List Value
  | [] => []
  | v :: rest => v.displayed :: displayedItems rest

def displayedMembers : List (String × Value) → List (String × Value)
  | [] => []
  | (name, v) :: rest => (name, v.displayed) :: displayedMembers rest

end

theorem displayedItems_eq_map (items : List Value) :
    displayedItems items = items.map displayed := by
  induction items with
  | nil => rfl
  | cons v rest ih => rw [displayedItems, ih, List.map_cons]

theorem displayedMembers_eq_map (members : List (String × Value)) :
    displayedMembers members = members.map fun m => (m.1, m.2.displayed) := by
  induction members with
  | nil => rfl
  | cons m rest ih => rw [displayedMembers, ih, List.map_cons]

theorem standardItems_eq_mapM (items : List Value) :
    standardItems items = items.mapM standardForm := by
  induction items with
  | nil => rfl
  | cons v rest ih =>
    rw [standardItems, ih, List.mapM_cons]
    rfl

theorem standardMembers_eq_mapM (members : List (String × Value)) :
    standardMembers members =
      members.mapM fun m => (m.2.standardForm).map fun w => (m.1, w) := by
  induction members with
  | nil => rfl
  | cons m rest ih =>
    rw [standardMembers, ih, List.mapM_cons]
    cases m.2.standardForm <;> rfl

theorem anyMisfit_eq_any (items : List Value) : anyMisfit items = items.any hasMisfit := by
  induction items with
  | nil => rfl
  | cons v rest ih => rw [anyMisfit, ih, List.any_cons]

theorem anyMisfitMember_eq_any (members : List (String × Value)) :
    anyMisfitMember members = members.any fun m => m.2.hasMisfit := by
  induction members with
  | nil => rfl
  | cons m rest ih => rw [anyMisfitMember, ih, List.any_cons]

end Value

namespace Log

open Value

theorem encodeItems_eq_map (items : List Value) : encodeItems items = items.map encode := by
  induction items with
  | nil => rfl
  | cons v rest ih => rw [encodeItems, ih, List.map_cons]

theorem encodeMembers_eq_map (members : List (String × Value)) :
    encodeMembers members = members.map fun m => (m.1, encode m.2) := by
  induction members with
  | nil => rfl
  | cons m rest ih => rw [encodeMembers, ih, List.map_cons]

/-- A moment is displayed with a blank where its standard text has a letter. -/
theorem display_moment_ne (m : Moment) : (Value.moment m).display ≠ m.toText := by
  intro h
  have hchars : m.chars ' ' = m.chars 'T' := String.ofList_injective h
  unfold Moment.chars at hchars
  simp only [List.append_assoc] at hchars
  have htail := List.append_cancel_left hchars
  cases htail

/-! ### Lists of data -/

/-- A list comes out as another one if each item does, that is, if none of them
    is marked. -/
theorem map_eq_iff_of_forall₂ {α β : Type} {g : α → β} {marked : α → Bool} {items : List α}
    {bs : List β} (h : List.Forall₂ (fun a b => g a = b ↔ marked a = false) items bs) :
    items.map g = bs ↔ items.any marked = false := by
  induction h with
  | nil => simp
  | cons hfirst _ ih =>
    rw [List.map_cons, List.cons.injEq, List.any_cons, Bool.or_eq_false_iff, hfirst, ih]

/-! ### What is written -/

/-- Data has a standard form, and it is what is written exactly if neither a
    moment nor a set stands in the data. -/
theorem exists_standardForm {v : Value} (h : v.IsLoggable) :
    ∃ w, v.standardForm = .ok w ∧ (encode v = w ↔ v.hasMisfit = false) := by
  -- lists, tuples and sets have the same items in the standard form
  have hitems : ∀ {items : List Value},
      (∀ v ∈ items, ∃ w, v.standardForm = .ok w ∧ (encode v = w ↔ v.hasMisfit = false)) →
      ∃ ws, standardItems items = .ok ws ∧ (encodeItems items = ws ↔ anyMisfit items = false) := by
    intro items hall
    obtain ⟨ws, hws, hrest⟩ := exists_mapM_forall₂ hall
    refine ⟨ws, ?_, ?_⟩
    · rw [standardItems_eq_mapM, hws]
    · rw [encodeItems_eq_map, anyMisfit_eq_any]
      exact map_eq_iff_of_forall₂ hrest
  induction h with
  | null => exact ⟨_, rfl, iff_of_true rfl rfl⟩
  | bool b => exact ⟨_, rfl, iff_of_true rfl rfl⟩
  | int n => exact ⟨_, rfl, iff_of_true rfl rfl⟩
  | float x => exact ⟨_, rfl, iff_of_true rfl rfl⟩
  | text s => exact ⟨_, rfl, iff_of_true rfl rfl⟩
  | decimal d => exact ⟨_, rfl, iff_of_true rfl rfl⟩
  | choice c => exact ⟨_, rfl, iff_of_true rfl rfl⟩
  | moment m =>
    refine ⟨_, rfl, iff_of_false (fun heq => ?_) nofun⟩
    exact display_moment_ne m (Value.text.inj heq)
  | list _ ih =>
    obtain ⟨ws, hws, hsame⟩ := hitems ih
    refine ⟨.list ws, ?_, ?_⟩
    · rw [standardForm, hws]
      rfl
    · rw [encode, hasMisfit, Value.list.injEq, hsame]
  | tuple _ ih =>
    obtain ⟨ws, hws, hsame⟩ := hitems ih
    refine ⟨.list ws, ?_, ?_⟩
    · rw [standardForm, hws]
      rfl
    · rw [encode, hasMisfit, Value.list.injEq, hsame]
  | set _ ih =>
    obtain ⟨ws, hws, -⟩ := hitems ih
    refine ⟨.list ws, ?_, iff_of_false nofun nofun⟩
    rw [standardForm, hws]
    rfl
  | @object members _ ih =>
    have hmembers : ∀ m ∈ members, ∃ n : String × Value,
        (m.2.standardForm.map fun w => (m.1, w)) = .ok n ∧
          ((m.1, encode m.2) = n ↔ m.2.hasMisfit = false) := by
      intro m hm
      obtain ⟨w, hw, hsame⟩ := ih m hm
      refine ⟨(m.1, w), by rw [hw]; rfl, ?_⟩
      rw [Prod.mk.injEq, ← hsame]
      exact and_iff_right rfl
    obtain ⟨ns, hns, hrest⟩ := exists_mapM_forall₂ hmembers
    refine ⟨.object ns, ?_, ?_⟩
    · rw [standardForm, standardMembers_eq_mapM, hns]
      rfl
    · rw [encode, hasMisfit, Value.object.injEq, encodeMembers_eq_map, anyMisfitMember_eq_any]
      exact map_eq_iff_of_forall₂ hrest

/-- What is written is the standard form, once the texts that display them
    stand in the place of moments and sets. -/
theorem standardForm_displayed {v : Value} (h : v.IsLoggable) :
    v.displayed.standardForm = .ok (encode v) := by
  have hitems : ∀ {items : List Value},
      (∀ v ∈ items, v.displayed.standardForm = .ok (encode v)) →
      standardItems (displayedItems items) = .ok (encodeItems items) := by
    intro items hall
    rw [displayedItems_eq_map, standardItems_eq_mapM, encodeItems_eq_map, List.mapM_map]
    exact mapM_ok _ encode hall
  induction h with
  | null => rfl
  | bool b => rfl
  | int n => rfl
  | float x => rfl
  | text s => rfl
  | decimal d => rfl
  | choice c => rfl
  | moment m => rfl
  | set => rfl
  | list _ ih =>
    rw [displayed, standardForm, hitems ih, encode]
    rfl
  | tuple _ ih =>
    rw [displayed, standardForm, hitems ih, encode]
    rfl
  | object _ ih =>
    rw [displayed, standardForm, displayedMembers_eq_map, standardMembers_eq_mapM, encode,
      encodeMembers_eq_map, List.mapM_map,
      mapM_ok _ (fun m : String × Value => (m.1, encode m.2))]
    · rfl
    · intro m hm
      simp only [Function.comp_apply, ih m hm]
      rfl

/-! ### Lines -/

/-- The fields with which every record begins. -/
def heading (context : Context) (level : Value) (logger message : String) : Record :=
  [("level", .text (levelName level)), ("logger", .text (loggerName logger)),
    ("message", .text message)] ++ context.toList.map fun m => (m.1, .text m.2)

/-- The fields with which a record begins, and those given with the call that it
    does not have already. -/
def body (context : Context) (level : Value) (logger message : String)
    (extra : List (String × Value)) : Record :=
  let head := heading context level logger message
  head ++ extra.filter fun m =>
    !(reservedFields ++ silentFields ++ head.map (·.1)).contains m.1

/-- The fields of a record before they are made plain. -/
def entries (context : Context) (level : Value) (logger message : String)
    (extra : List (String × Value)) (failure : Option Failure) : Record :=
  failure.elim (body context level logger message extra) fun f =>
    (failureFields f).foldl (fun r m => Value.put r m.1 m.2)
      (body context level logger message extra)

theorem record_eq_encode_entries (context : Context) (level : Value) (logger message : String)
    (extra : List (String × Value)) (failure : Option Failure) :
    Value.object (record context level logger message extra failure) =
      encode (.object (entries context level logger message extra failure)) := by
  rw [encode, encodeMembers_eq_map]
  cases failure <;> rfl

theorem forall_put {P : Value → Prop} {members : List (String × Value)} {name : String} {v : Value}
    (h : ∀ m ∈ members, P m.2) (hv : P v) : ∀ m ∈ Value.put members name v, P m.2 := by
  intro m hm
  unfold Value.put at hm
  split at hm
  · obtain ⟨n, hn, rfl⟩ := List.mem_map.mp hm
    split
    · exact hv
    · exact h n hn
  · rcases List.mem_append.mp hm with hm | hm
    · exact h m hm
    · rw [List.mem_singleton.mp hm]
      exact hv

theorem isLoggable_failureFields {f : Failure} (h : ∀ m ∈ f.attributes, m.2.IsLoggable) :
    ∀ m ∈ failureFields f, m.2.IsLoggable := by
  intro m hm
  unfold failureFields at hm
  simp only [List.mem_append, List.mem_cons, List.not_mem_nil, or_false, Option.mem_toList,
    Option.map_eq_some_iff, List.mem_map] at hm
  rcases hm with ((rfl | rfl) | ⟨code, -, rfl⟩) | ⟨n, hn, rfl⟩
  · exact .text _
  · exact .text _
  · exact .text _
  · exact h n hn

theorem forall_foldl_put {P : Value → Prop} {news : List (String × Value)}
    (hnews : ∀ m ∈ news, P m.2) {members : List (String × Value)} (h : ∀ m ∈ members, P m.2) :
    ∀ m ∈ news.foldl (fun r m => Value.put r m.1 m.2) members, P m.2 := by
  induction news generalizing members with
  | nil => exact h
  | cons n news ih =>
    rw [List.foldl_cons]
    exact ih (fun m hm => hnews m (List.mem_cons_of_mem _ hm))
      (forall_put h (hnews n List.mem_cons_self))

theorem isLoggable_body (context : Context) (level : Value) (logger message : String)
    {extra : List (String × Value)} (h : ∀ m ∈ extra, m.2.IsLoggable) :
    ∀ m ∈ body context level logger message extra, m.2.IsLoggable := by
  intro m hm
  rcases List.mem_append.mp hm with hm | hm
  · unfold heading at hm
    simp only [List.mem_append, List.mem_cons, List.not_mem_nil, or_false, List.mem_map] at hm
    rcases hm with (rfl | rfl | rfl) | ⟨n, -, rfl⟩ <;> exact .text _
  · exact h m (List.mem_filter.mp hm).1

/-- A record can be held if all that is given for it can. -/
theorem isLoggable_entries (context : Context) (level : Value) (logger message : String)
    {extra : List (String × Value)} {failure : Option Failure}
    (hextra : ∀ m ∈ extra, m.2.IsLoggable)
    (hfailure : ∀ f ∈ failure, ∀ m ∈ f.attributes, m.2.IsLoggable) :
    (Value.object (entries context level logger message extra failure)).IsLoggable := by
  have hbody := isLoggable_body context level logger message hextra
  apply IsLoggable.object
  cases failure with
  | none => exact hbody
  | some f => exact forall_foldl_put (isLoggable_failureFields (hfailure f rfl)) hbody

/-- **Lines in standard form.**  All that a record is meant to hold has a
    standard form, at any depth.  The line that is written is that form exactly
    if neither a moment nor a set stands in the record; otherwise it is the
    standard form of the record with the texts that display them in the place
    of moments and sets. -/
theorem line_in_standardForm_iff (context : Context) (level : Value) (logger message : String)
    {extra : List (String × Value)} {failure : Option Failure}
    (hextra : ∀ m ∈ extra, m.2.IsLoggable)
    (hfailure : ∀ f ∈ failure, ∀ m ∈ f.attributes, m.2.IsLoggable) :
    ∃ form, (Value.object (entries context level logger message extra failure)).standardForm =
        .ok form ∧
      (Value.object (record context level logger message extra failure) = form ↔
        (Value.object (entries context level logger message extra failure)).hasMisfit = false) ∧
      (Value.object (entries context level logger message extra failure)).displayed.standardForm =
        .ok (.object (record context level logger message extra failure)) := by
  have hloggable := isLoggable_entries context level logger message hextra hfailure
  obtain ⟨form, hform, hsame⟩ := exists_standardForm hloggable
  rw [record_eq_encode_entries]
  exact ⟨form, hform, hsame, standardForm_displayed hloggable⟩

/-- A number and a choice inside a list. -/
def figures : List (String × Value) :=
  [("figures", .list [.decimal (.finite false 150 (-2)), .choice ⟨"ResultKind", "RATIO", "ratio"⟩])]

/-- Numbers and choices are written in standard form, with a failure that is
    told besides. -/
theorem line_in_standardForm_iff_figures :
    (∀ m ∈ figures, m.2.IsLoggable) ∧
      (∀ f ∈ some (Failure.formulaNotFound (.text "a")), ∀ m ∈ f.attributes, m.2.IsLoggable) ∧
      (Value.object (entries .empty (.int info) "t" "m" figures
          (some (.formulaNotFound (.text "a"))))).standardForm =
        .ok (.object (record .empty (.int info) "t" "m" figures
          (some (.formulaNotFound (.text "a"))))) := by
  have hfigures : ∀ m ∈ figures, m.2.IsLoggable := by
    refine List.forall_mem_singleton.mpr (.list ?_)
    simp only [List.forall_mem_cons]
    exact ⟨.decimal _, .choice _, nofun⟩
  have hfailure : ∀ f ∈ some (Failure.formulaNotFound (.text "a")), ∀ m ∈ f.attributes,
      m.2.IsLoggable := by
    rintro f ⟨⟩
    exact List.forall_mem_singleton.mpr (.text "a")
  refine ⟨hfigures, hfailure, ?_⟩
  obtain ⟨form, hform, hsame, -⟩ :=
    line_in_standardForm_iff .empty (.int info) "t" "m" hfigures hfailure
  rw [hsame.mpr (by decide +kernel)]
  exact hform

/-- Noon of the first day of 2024 in universal time. -/
def noon : Moment := ⟨63839707200000000, some 0⟩

/-- A moment is not written as its standard text. -/
theorem not_line_in_standardForm :
    ¬∀ (context : Context) (level : Value) (logger message : String)
      (extra : List (String × Value)), (∀ m ∈ extra, m.2.IsLoggable) →
      (Value.object (entries context level logger message extra none)).standardForm =
        .ok (.object (record context level logger message extra none)) := by
  intro h
  have hextra : ∀ m ∈ [("at", Value.moment noon)], m.2.IsLoggable := by
    simpa using IsLoggable.moment noon
  have hnone : ∀ f ∈ (none : Option Failure), ∀ m ∈ f.attributes, m.2.IsLoggable := nofun
  have hform := h .empty (.int info) "t" "m" [("at", .moment noon)] hextra
  obtain ⟨form, hform', hsame⟩ := exists_standardForm
    (isLoggable_entries .empty (.int info) "t" "m" hextra hnone)
  rw [hform, record_eq_encode_entries] at hform'
  have hfree := hsame.mp (Except.ok.inj hform')
  revert hfree
  decide +kernel

end Log

end KeyFigures
