/-
  KeyFigures/Proofs/Registry/References.lean
  ==========================================
  **The graph of references, and what it takes to replace them all.**

  A formula refers to the ids in its tree.  `Below` is what a tree refers to,
  directly or through other formulas.  `Expands` says that the references of a
  tree can all be replaced, without a word about chains or bounds: the tree
  that results, and the height, which is the number of references on the
  longest path.

  The height settles what a walk can meet.  Every id below a tree expands to no
  greater height than the tree (`Expands.of_below`), and an id has a greater
  height than anything below it, so no id is below itself (`Expands.not_same`,
  `Expands.not_transGen`).  Conversely references that all lead somewhere on
  paths of bounded length expand within the bound (`exists_expands`).
-/
import KeyFigures.Proofs.Formula.Traversal
import KeyFigures.Registry.Expansion

namespace KeyFigures.Registry

open Relation (ReflTransGen TransGen)

variable {bodyOf : Value → Attempt Term}

/-! ### The graph -/

/-- One formula refers to another in its tree. -/
def Refers (bodyOf : Value → Attempt Term) (id other : Value) : Prop :=
  ∃ body, bodyOf id = .ok body ∧ other ∈ body.formulaReferences

/-- What a tree refers to, directly or through other formulas. -/
def Below (bodyOf : Value → Attempt Term) (t : Term) (id : Value) : Prop :=
  ∃ first ∈ t.formulaReferences, ReflTransGen (Refers bodyOf) first id

@[simp]
theorem below_formula {id other : Value} :
    Below bodyOf (.formula id) other ↔ ReflTransGen (Refers bodyOf) id other := by
  simp [Below]

@[simp]
theorem below_grouping {inner : Term} {id : Value} :
    Below bodyOf (.grouping inner) id ↔ Below bodyOf inner id := by
  simp [Below]

@[simp]
theorem below_binary {left right : Term} {op : Operator} {id : Value} :
    Below bodyOf (.binary left op right) id ↔ Below bodyOf left id ∨ Below bodyOf right id := by
  simp [Below, or_and_right, exists_or]

@[simp]
theorem below_unsupported {left right : Term} {symbol id : Value} :
    Below bodyOf (.unsupported left symbol right) id ↔
      Below bodyOf left id ∨ Below bodyOf right id := by
  simp [Below, or_and_right, exists_or]

/-- What an id leads to is the id itself or below its tree. -/
theorem reflTransGen_iff_of_body {id other : Value} {body : Term} (h : bodyOf id = .ok body) :
    ReflTransGen (Refers bodyOf) id other ↔ other = id ∨ Below bodyOf body other := by
  constructor
  · intro hpath
    rcases ReflTransGen.cases_head hpath with rfl | ⟨next, ⟨body', hbody, hnext⟩, hrest⟩
    · exact .inl rfl
    · rw [h] at hbody
      cases hbody
      exact .inr ⟨next, hnext, hrest⟩
  · rintro (rfl | ⟨first, hfirst, hrest⟩)
    · exact .refl
    · exact .head ⟨body, h, hfirst⟩ hrest

/-- A path of one step or more from an id stays below its tree. -/
theorem transGen_iff_of_body {id other : Value} {body : Term} (h : bodyOf id = .ok body) :
    TransGen (Refers bodyOf) id other ↔ Below bodyOf body other := by
  rw [TransGen.head'_iff]
  constructor
  · rintro ⟨next, ⟨body', hbody, hnext⟩, hrest⟩
    rw [h] at hbody
    cases hbody
    exact ⟨next, hnext, hrest⟩
  · rintro ⟨first, hfirst, hrest⟩
    exact ⟨first, ⟨body, h, hfirst⟩, hrest⟩

theorem Below.trans {t : Term} {id other : Value} (h : Below bodyOf t id)
    (hpath : ReflTransGen (Refers bodyOf) id other) : Below bodyOf t other := by
  obtain ⟨first, hfirst, hrest⟩ := h
  exact ⟨first, hfirst, hrest.trans hpath⟩

theorem Below.body {t body : Term} {id other : Value} (h : Below bodyOf t id)
    (hbody : bodyOf id = .ok body) (hother : Below bodyOf body other) : Below bodyOf t other :=
  h.trans ((reflTransGen_iff_of_body hbody).mpr (.inr hother))

/-- Whatever counts as the same as an id below the tree finds the same tree as
    that id. -/
def Unambiguous (bodyOf : Value → Attempt Term) (t : Term) : Prop :=
  ∀ id, Below bodyOf t id → ∀ other, other.same id = true →
    ∀ body, bodyOf id = .ok body → bodyOf other = .ok body

/-- Nothing becomes ambiguous below a part of what is below a tree. -/
theorem Unambiguous.mono {t part : Term} (h : Unambiguous bodyOf t)
    (hpart : ∀ id, Below bodyOf part id → Below bodyOf t id) : Unambiguous bodyOf part :=
  fun id hid => h id (hpart id hid)

theorem Unambiguous.body {id : Value} {body : Term} (h : Unambiguous bodyOf (.formula id))
    (hbody : bodyOf id = .ok body) : Unambiguous bodyOf body :=
  h.mono fun _ hother => below_formula.mpr ((reflTransGen_iff_of_body hbody).mpr (.inr hother))

theorem Unambiguous.formula {t : Term} {id : Value} (h : Unambiguous bodyOf t)
    (hid : Below bodyOf t id) : Unambiguous bodyOf (.formula id) :=
  h.mono fun _ hother => hid.trans (below_formula.mp hother)

/-! ### Replacing all references -/

/-- The references of a tree can all be replaced; the result is the tree
    without references and the number of references that nest in it. -/
inductive Expands (bodyOf : Value → Attempt Term) : Term → Expanded → Prop
  | formula {id : Value} {body : Term} {inner : Expanded} :
    bodyOf id = .ok body → Expands bodyOf body inner →
      Expands bodyOf (.formula id) ⟨.grouping inner.tree, inner.height + 1⟩
  | binary {left right : Term} {l r : Expanded} (op : Operator) :
    Expands bodyOf left l → Expands bodyOf right r →
      Expands bodyOf (.binary left op right) ⟨.binary l.tree op r.tree, max l.height r.height⟩
  | unsupported {left right : Term} {l r : Expanded} (symbol : Value) :
    Expands bodyOf left l → Expands bodyOf right r →
      Expands bodyOf (.unsupported left symbol right)
        ⟨.unsupported l.tree symbol r.tree, max l.height r.height⟩
  | grouping {inner : Term} {i : Expanded} :
    Expands bodyOf inner i → Expands bodyOf (.grouping inner) ⟨.grouping i.tree, i.height⟩
  | account (ref : AccountReference) : Expands bodyOf (.account ref) ⟨.account ref, 0⟩
  | constant (value : Decimal) : Expands bodyOf (.constant value) ⟨.constant value, 0⟩
  | foreign (thing : Value) : Expands bodyOf (.foreign thing) ⟨.foreign thing, 0⟩

namespace Expands

theorem unique {t : Term} {e e' : Expanded} (h : Expands bodyOf t e) (h' : Expands bodyOf t e') :
    e = e' := by
  induction h generalizing e' with
  | formula hbody _ ih =>
    cases h' with
    | formula hbody' hinner' =>
      rw [hbody] at hbody'
      cases hbody'
      rw [ih hinner']
  | binary op _ _ ihl ihr =>
    cases h' with
    | binary _ hl' hr' => rw [ihl hl', ihr hr']
  | unsupported symbol _ _ ihl ihr =>
    cases h' with
    | unsupported _ hl' hr' => rw [ihl hl', ihr hr']
  | grouping _ ih =>
    cases h' with
    | grouping hi' => rw [ih hi']
  | account => cases h'; rfl
  | constant => cases h'; rfl
  | foreign => cases h'; rfl

theorem height_pos {id : Value} {e : Expanded} (h : Expands bodyOf (.formula id) e) :
    0 < e.height := by
  cases h
  exact Nat.succ_pos _

/-- Nothing is left to replace. -/
theorem formulaReferences_tree {t : Term} {e : Expanded} (h : Expands bodyOf t e) :
    e.tree.formulaReferences = [] := by
  induction h with
  | formula _ _ ih => simpa using ih
  | binary op _ _ ihl ihr => simp [ihl, ihr]
  | unsupported symbol _ _ ihl ihr => simp [ihl, ihr]
  | grouping _ ih => simpa using ih
  | account => simp
  | constant => simp
  | foreign => simp

/-- A reference in a tree expands to no greater height than the tree. -/
theorem of_mem {t : Term} {e : Expanded} {id : Value} (h : Expands bodyOf t e)
    (hid : id ∈ t.formulaReferences) :
    ∃ e', Expands bodyOf (.formula id) e' ∧ e'.height ≤ e.height := by
  induction h with
  | @formula other _ _ hbody hinner _ =>
    rw [Term.formulaReferences_formula, List.mem_singleton] at hid
    rw [hid]
    exact ⟨_, .formula hbody hinner, Nat.le_refl _⟩
  | binary op _ _ ihl ihr =>
    rw [Term.formulaReferences_binary, List.mem_append] at hid
    rcases hid with hid | hid
    · obtain ⟨e', he', hle⟩ := ihl hid
      exact ⟨e', he', Nat.le_trans hle (Nat.le_max_left _ _)⟩
    · obtain ⟨e', he', hle⟩ := ihr hid
      exact ⟨e', he', Nat.le_trans hle (Nat.le_max_right _ _)⟩
  | unsupported symbol _ _ ihl ihr =>
    rw [Term.formulaReferences_unsupported, List.mem_append] at hid
    rcases hid with hid | hid
    · obtain ⟨e', he', hle⟩ := ihl hid
      exact ⟨e', he', Nat.le_trans hle (Nat.le_max_left _ _)⟩
    · obtain ⟨e', he', hle⟩ := ihr hid
      exact ⟨e', he', Nat.le_trans hle (Nat.le_max_right _ _)⟩
  | grouping _ ih => exact ih (by simpa using hid)
  | account => simp at hid
  | constant => simp at hid
  | foreign => simp at hid

/-- Every step along a reference lowers the height. -/
theorem of_refers {id other : Value} {e : Expanded} (h : Expands bodyOf (.formula id) e)
    (hrefers : Refers bodyOf id other) :
    ∃ e', Expands bodyOf (.formula other) e' ∧ e'.height < e.height := by
  obtain ⟨body', hbody', hother⟩ := hrefers
  cases h with
  | formula hbody hinner =>
    rw [hbody'] at hbody
    cases hbody
    obtain ⟨e', he', hle⟩ := hinner.of_mem hother
    exact ⟨e', he', Nat.lt_succ_of_le hle⟩

theorem of_transGen {id other : Value} {e : Expanded} (h : Expands bodyOf (.formula id) e)
    (hpath : TransGen (Refers bodyOf) id other) :
    ∃ e', Expands bodyOf (.formula other) e' ∧ e'.height < e.height := by
  induction hpath with
  | single hrefers => exact h.of_refers hrefers
  | tail _ hrefers ih =>
    obtain ⟨e', he', hlt⟩ := ih
    obtain ⟨e'', he'', hlt'⟩ := he'.of_refers hrefers
    exact ⟨e'', he'', Nat.lt_trans hlt' hlt⟩

/-- What expands is not below itself. -/
theorem not_transGen {id : Value} {e : Expanded} (h : Expands bodyOf (.formula id) e) :
    ¬ TransGen (Refers bodyOf) id id := by
  intro hcycle
  obtain ⟨e', he', hlt⟩ := h.of_transGen hcycle
  rw [h.unique he'] at hlt
  exact Nat.lt_irrefl _ hlt

/-- Every id below a tree expands to no greater height than the tree. -/
theorem of_below {t : Term} {e : Expanded} {id : Value} (h : Expands bodyOf t e)
    (hid : Below bodyOf t id) :
    ∃ e', Expands bodyOf (.formula id) e' ∧ e'.height ≤ e.height := by
  obtain ⟨first, hfirst, hpath⟩ := hid
  obtain ⟨e', he', hle⟩ := h.of_mem hfirst
  rcases Relation.reflTransGen_iff_eq_or_transGen.mp hpath with rfl | hpath
  · exact ⟨e', he', hle⟩
  · obtain ⟨e'', he'', hlt⟩ := he'.of_transGen hpath
    exact ⟨e'', he'', Nat.le_trans (Nat.le_of_lt hlt) hle⟩

/-- What counts as the same expands the same. -/
theorem of_same {id other : Value} {e : Expanded} (h : Expands bodyOf (.formula id) e)
    (hu : Unambiguous bodyOf (.formula id)) (hsame : other.same id = true) :
    Expands bodyOf (.formula other) e := by
  cases h with
  | formula hbody hinner =>
    exact .formula (hu id (below_formula.mpr .refl) other hsame _ hbody) hinner

/-- Nothing below the tree of an id counts as the same as the id. -/
theorem not_same {id other : Value} {body : Term} {inner : Expanded}
    (h : Expands bodyOf body inner) (hbody : bodyOf id = .ok body)
    (hu : Unambiguous bodyOf body) (hother : Below bodyOf body other) :
    id.same other = false := by
  rw [← Bool.not_eq_true]
  intro hsame
  -- it would expand as the id does, and so be higher than the tree that it is below
  obtain ⟨e', he', hle⟩ := h.of_below hother
  have hid : Expands bodyOf (.formula id) e' := he'.of_same (hu.formula hother) hsame
  have heq : e' = ⟨.grouping inner.tree, inner.height + 1⟩ := hid.unique (.formula hbody h)
  rw [heq] at hle
  exact Nat.not_succ_le_self _ hle

end Expands

/-! ### Paths -/

/-- A path of references that begins in a tree. -/
def PathFrom (bodyOf : Value → Attempt Term) (t : Term) (path : List Value) : Prop :=
  (∃ first ∈ path.head?, first ∈ t.formulaReferences) ∧ path.IsChain (Refers bodyOf)

theorem pathFrom_cons {t : Term} {id : Value} {rest : List Value} :
    PathFrom bodyOf t (id :: rest) ↔
      id ∈ t.formulaReferences ∧ (id :: rest).IsChain (Refers bodyOf) := by
  simp [PathFrom]

/-- A path goes on in the tree of its first id. -/
theorem isChain_cons_iff_pathFrom {id : Value} {body : Term} {rest : List Value}
    (h : bodyOf id = .ok body) (hne : rest ≠ []) :
    (id :: rest).IsChain (Refers bodyOf) ↔ PathFrom bodyOf body rest := by
  obtain ⟨next, rest, rfl⟩ := List.exists_cons_of_ne_nil hne
  rw [List.isChain_cons_cons, pathFrom_cons]
  refine and_congr_left fun _ => ⟨?_, fun hnext => ⟨body, h, hnext⟩⟩
  rintro ⟨body', hbody, hnext⟩
  rw [h] at hbody
  cases hbody
  exact hnext

/-- No path in a tree has more references than the tree has height. -/
theorem Expands.length_le {t : Term} {e : Expanded} {path : List Value}
    (h : Expands bodyOf t e) (hpath : PathFrom bodyOf t path) : path.length ≤ e.height := by
  induction path generalizing t e with
  | nil => exact Nat.zero_le _
  | cons id rest ih =>
    obtain ⟨hid, hchain⟩ := pathFrom_cons.mp hpath
    obtain ⟨e', he', hle⟩ := h.of_mem hid
    cases he' with
    | @formula _ body inner hbody hinner =>
      refine Nat.le_trans ?_ hle
      cases rest with
      | nil => exact Nat.succ_le_succ (Nat.zero_le _)
      | cons next rest =>
        have hrest := (isChain_cons_iff_pathFrom hbody (List.cons_ne_nil _ _)).mp hchain
        exact Nat.succ_le_succ (ih hinner hrest)

/-- A tree expands as soon as its own references do. -/
theorem Expands.exists_of_references {t : Term} {room : Nat}
    (h : ∀ id ∈ t.formulaReferences, ∃ e, Expands bodyOf (.formula id) e ∧ e.height ≤ room) :
    ∃ e, Expands bodyOf t e ∧ e.height ≤ room := by
  induction t with
  | formula id => exact h id (by simp)
  | binary left op right ihl ihr =>
    obtain ⟨l, hl, hlle⟩ := ihl fun id hid => h id (by simp [hid])
    obtain ⟨r, hr, hrle⟩ := ihr fun id hid => h id (by simp [hid])
    exact ⟨_, .binary op hl hr, Nat.max_le.mpr ⟨hlle, hrle⟩⟩
  | unsupported left symbol right ihl ihr =>
    obtain ⟨l, hl, hlle⟩ := ihl fun id hid => h id (by simp [hid])
    obtain ⟨r, hr, hrle⟩ := ihr fun id hid => h id (by simp [hid])
    exact ⟨_, .unsupported symbol hl hr, Nat.max_le.mpr ⟨hlle, hrle⟩⟩
  | grouping inner ih =>
    obtain ⟨i, hi, hle⟩ := ih fun id hid => h id (by simpa using hid)
    exact ⟨_, .grouping hi, hle⟩
  | account ref => exact ⟨_, .account ref, Nat.zero_le _⟩
  | constant value => exact ⟨_, .constant value, Nat.zero_le _⟩
  | foreign thing => exact ⟨_, .foreign thing, Nat.zero_le _⟩

/-- References that all lead somewhere, on paths of bounded length, can be
    replaced. -/
theorem exists_expands {t : Term} {room : Nat}
    (hdefined : ∀ id, Below bodyOf t id → ∃ body, bodyOf id = .ok body)
    (hpaths : ∀ path, PathFrom bodyOf t path → path.length ≤ room) :
    ∃ e, Expands bodyOf t e ∧ e.height ≤ room := by
  -- on the room, not on the tree: a reference is replaced by a tree of any size
  induction room generalizing t with
  | zero =>
    refine Expands.exists_of_references fun id hid => ?_
    have hlength := hpaths [id] (pathFrom_cons.mpr ⟨hid, .singleton id⟩)
    exact absurd hlength (Nat.not_succ_le_zero 0)
  | succ room ih =>
    refine Expands.exists_of_references fun id hid => ?_
    have hbelow : Below bodyOf t id := ⟨id, hid, .refl⟩
    obtain ⟨body, hbody⟩ := hdefined id hbelow
    have hinner : ∃ inner, Expands bodyOf body inner ∧ inner.height ≤ room := by
      refine ih (fun other hother => hdefined other (hbelow.body hbody hother)) ?_
      intro path hpath
      cases path with
      | nil => exact Nat.zero_le _
      | cons next rest =>
        have hchain := (isChain_cons_iff_pathFrom hbody (List.cons_ne_nil next rest)).mpr hpath
        exact Nat.le_of_succ_le_succ (hpaths (id :: next :: rest) (pathFrom_cons.mpr ⟨hid, hchain⟩))
    obtain ⟨inner, hexpands, hle⟩ := hinner
    exact ⟨_, .formula hbody hexpands, Nat.succ_le_succ hle⟩

end KeyFigures.Registry
