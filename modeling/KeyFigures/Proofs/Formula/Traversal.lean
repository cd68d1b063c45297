/-
  KeyFigures/Proofs/Formula/Traversal.lean
  ========================================
  **The stack walk meets a tree in its order.**

  `Term.visit` takes trees from a stack; `visit_cons` says that it goes through
  the top of the stack in preorder before it turns to the rest, whatever the
  rest is.  Hence the references of a tree are those of its parts, from left to
  right.  The leaves that the walk meets are the operands among the tokens of the
  tree (`filterMap_leafToken?`), so that the references are read off the tokens
  in their order.
-/
import KeyFigures.Proofs.Formula.Chain

namespace KeyFigures

/-! ### Tokens that stand for operands -/

namespace Token

def isOperand : Token → Bool
  | .number _ | .account _ | .formula _ => true
  | .operator _ | .opening | .closing => false

def account? : Token → Option AccountReference
  | .account ref => some ref
  | _ => none

def formula? : Token → Option Value
  | .formula id => some id
  | _ => none

theorem isOperand_of_mem_account? {token : Token} {ref : AccountReference}
    (h : ref ∈ token.account?) : token.isOperand = true := by
  cases token with
  | account => rfl
  | _ => cases h

theorem isOperand_of_mem_formula? {token : Token} {id : Value} (h : id ∈ token.formula?) :
    token.isOperand = true := by
  cases token with
  | formula => rfl
  | _ => cases h

end Token

namespace Term

/-! ### The order of the walk -/

/-- The walk goes through the tree on top of the stack in preorder, then through
    the rest of the stack. -/
theorem visit_cons (t : Term) (rest : List Term) :
    visit (t :: rest) = t.preorder ++ visit rest := by
  induction t generalizing rest with
  | binary left op right ihl ihr | unsupported left op right ihl ihr =>
    rw [visit]
    simp only [children, preorder, List.cons_append, List.nil_append, List.append_assoc]
    rw [ihl, ihr]
  | grouping inner ih =>
    rw [visit]
    simp only [children, preorder, List.cons_append, List.nil_append]
    rw [ih]
  | account ref => rw [visit]; rfl
  | constant value => rw [visit]; rfl
  | formula id => rw [visit]; rfl
  | foreign thing => rw [visit]; rfl

theorem nodes_eq_preorder (t : Term) : t.nodes = t.preorder := by
  rw [nodes, visit_cons, visit, List.append_nil]

/-! ### References, part by part -/

theorem formulaReferences_eq_preorder (t : Term) :
    t.formulaReferences = t.preorder.filterMap fun
      | .formula id => some id
      | _ => none := by
  rw [← nodes_eq_preorder]
  rfl

@[simp]
theorem formulaReferences_account (ref : AccountReference) :
    (account ref).formulaReferences = [] :=
  formulaReferences_eq_preorder _

@[simp]
theorem formulaReferences_constant (value : Decimal) : (constant value).formulaReferences = [] :=
  formulaReferences_eq_preorder _

@[simp]
theorem formulaReferences_formula (id : Value) : (formula id).formulaReferences = [id] :=
  formulaReferences_eq_preorder _

@[simp]
theorem formulaReferences_foreign (thing : Value) : (foreign thing).formulaReferences = [] :=
  formulaReferences_eq_preorder _

@[simp]
theorem formulaReferences_grouping (inner : Term) :
    (grouping inner).formulaReferences = inner.formulaReferences := by
  rw [formulaReferences_eq_preorder, formulaReferences_eq_preorder inner]
  rfl

@[simp]
theorem formulaReferences_binary (left : Term) (op : Operator) (right : Term) :
    (binary left op right).formulaReferences =
      left.formulaReferences ++ right.formulaReferences := by
  rw [formulaReferences_eq_preorder, formulaReferences_eq_preorder left,
    formulaReferences_eq_preorder right]
  exact List.filterMap_append

@[simp]
theorem formulaReferences_unsupported (left : Term) (symbol : Value) (right : Term) :
    (unsupported left symbol right).formulaReferences =
      left.formulaReferences ++ right.formulaReferences := by
  rw [formulaReferences_eq_preorder, formulaReferences_eq_preorder left,
    formulaReferences_eq_preorder right]
  exact List.filterMap_append

theorem accountReferences_eq_preorder (t : Term) :
    t.accountReferences = t.preorder.filterMap fun
      | .account ref => some ref
      | _ => none := by
  rw [← nodes_eq_preorder]
  rfl

@[simp]
theorem accountReferences_account (ref : AccountReference) :
    (account ref).accountReferences = [ref] :=
  accountReferences_eq_preorder _

@[simp]
theorem accountReferences_constant (value : Decimal) : (constant value).accountReferences = [] :=
  accountReferences_eq_preorder _

@[simp]
theorem accountReferences_formula (id : Value) : (formula id).accountReferences = [] :=
  accountReferences_eq_preorder _

@[simp]
theorem accountReferences_foreign (thing : Value) : (foreign thing).accountReferences = [] :=
  accountReferences_eq_preorder _

@[simp]
theorem accountReferences_grouping (inner : Term) :
    (grouping inner).accountReferences = inner.accountReferences := by
  rw [accountReferences_eq_preorder, accountReferences_eq_preorder inner]
  rfl

@[simp]
theorem accountReferences_binary (left : Term) (op : Operator) (right : Term) :
    (binary left op right).accountReferences =
      left.accountReferences ++ right.accountReferences := by
  rw [accountReferences_eq_preorder, accountReferences_eq_preorder left,
    accountReferences_eq_preorder right]
  exact List.filterMap_append

@[simp]
theorem accountReferences_unsupported (left : Term) (symbol : Value) (right : Term) :
    (unsupported left symbol right).accountReferences =
      left.accountReferences ++ right.accountReferences := by
  rw [accountReferences_eq_preorder, accountReferences_eq_preorder left,
    accountReferences_eq_preorder right]
  exact List.filterMap_append

/-! ### References among the tokens -/

/-- The token that a leaf is read from. -/
def leafToken? : Term → Option Token
  | .account ref => some (.account ref)
  | .constant value => some (.number value)
  | .formula id => some (.formula id)
  | _ => none

/-- The leaves that the walk meets are the operands among the tokens. -/
theorem filterMap_leafToken? {t : Term} (h : t.WellFormed) :
    t.nodes.filterMap leafToken? = t.tokens.filter Token.isOperand := by
  rw [nodes_eq_preorder]
  induction t with
  | account ref => rfl
  | constant value => rfl
  | formula id => rfl
  | grouping inner ih =>
    rw [preorder, List.filterMap_cons_none rfl, ih h]
    simp [tokens, Token.isOperand]
  | binary left op right ihl ihr =>
    rw [preorder, List.filterMap_cons_none rfl, List.filterMap_append, ihl h.1, ihr h.2]
    simp [tokens, Token.isOperand]
  | unsupported => exact h.elim
  | foreign => exact h.elim

/-- What is read off the leaves of a tree is read off its tokens. -/
theorem filterMap_leaves {α : Type} {t : Term} (h : t.WellFormed) {f : Token → Option α}
    (hf : ∀ token x, x ∈ f token → token.isOperand = true) :
    t.nodes.filterMap (fun u => u.leafToken?.bind f) = t.tokens.filterMap f := by
  rw [← List.filterMap_filterMap, filterMap_leafToken? h, List.filterMap_filter]
  refine List.filterMap_congr fun token _ => ?_
  cases hvalue : f token with
  | none => split <;> rfl
  | some x => rw [if_pos (hf token x hvalue)]

/-- The account references of a tree are the accounts among its tokens. -/
theorem accountReferences_eq_tokens {t : Term} (h : t.WellFormed) :
    t.accountReferences = t.tokens.filterMap Token.account? := by
  rw [← filterMap_leaves h fun _ _ hx => Token.isOperand_of_mem_account? hx]
  refine List.filterMap_congr fun u _ => ?_
  cases u <;> rfl

/-- The formula references of a tree are the formulas among its tokens. -/
theorem formulaReferences_eq_tokens {t : Term} (h : t.WellFormed) :
    t.formulaReferences = t.tokens.filterMap Token.formula? := by
  rw [← filterMap_leaves h fun _ _ hx => Token.isOperand_of_mem_formula? hx]
  refine List.filterMap_congr fun u _ => ?_
  cases u <;> rfl

/-- An account reference of a tree of formula nodes is among its tokens. -/
theorem account_mem_tokens {t : Term} (ht : t.WellFormed) {ref : AccountReference}
    (h : ref ∈ t.accountReferences) : Token.account ref ∈ t.tokens := by
  rw [accountReferences_eq_tokens ht] at h
  obtain ⟨token, htoken, href⟩ := List.mem_filterMap.mp h
  cases token with
  | account other => exact Option.some.inj href ▸ htoken
  | _ => cases href

/-- A formula reference of a tree of formula nodes is among its tokens. -/
theorem formula_mem_tokens {t : Term} {id : Value} (ht : t.WellFormed)
    (h : id ∈ t.formulaReferences) : Token.formula id ∈ t.tokens := by
  rw [formulaReferences_eq_tokens ht] at h
  obtain ⟨token, htoken, hid⟩ := List.mem_filterMap.mp h
  cases token with
  | formula other => exact Option.some.inj hid ▸ htoken
  | _ => cases hid

end Term

end KeyFigures
