/-
  KeyFigures/Proofs/Formula/Chain.lean
  ====================================
  **Chains of operands and the trees that stand for them.**

  A tree without misplaced parentheses is `Stratified`: a left operand binds at
  least as tight as its operator, a right operand tighter.  Such a tree is the
  same thing as a chain of operands with operators between them.  One direction
  is `buildChain_phrase` with `buildChain_tokens`: whatever chain is built, the
  tree is stratified and its tokens are the tokens of the chain in their order.
  The other is `buildChain_spine`: a stratified tree is built back from the
  chain along its left and right edges (`spineFirst`, `spineMore`).

  Both are facts about one step of the construction, `Pending.push`, carried
  along the chain.
-/
import KeyFigures.Formula.Parse
import KeyFigures.Formula.Written
import Mathlib

namespace KeyFigures

/-! ### Tokens and levels of a tree -/

namespace Term

/-- The tokens of a tree from left to right.  What is no formula node has
    none. -/
def tokens : Term → List Token
  | .account ref => [.account ref]
  | .constant value => [.number value]
  | .formula id => [.formula id]
  | .grouping inner => .opening :: (inner.tokens ++ [.closing])
  | .binary left op right => left.tokens ++ .operator op :: right.tokens
  | .unsupported .. | .foreign _ => []

/-- No operation is a left operand of a tighter one, or a right operand of one
    at least as tight, unless parentheses stand between them. -/
def Stratified : Term → Prop
  | .binary left op right =>
    left.Stratified ∧ right.Stratified ∧
      (∀ p ∈ left.precedence?, op.precedence ≤ p) ∧ (∀ p ∈ right.precedence?, op.precedence < p)
  | .unsupported left _ right => left.Stratified ∧ right.Stratified
  | .grouping inner => inner.Stratified
  | .account _ | .constant _ | .formula _ | .foreign _ => True

/-- A stratified tree of formula nodes whose parentheses nest at most `room`
    deep. -/
structure Phrase (room : Nat) (t : Term) : Prop where
  wellFormed : t.WellFormed
  stratified : t.Stratified
  nesting_le : t.nesting ≤ room

/-- A phrase that is no bare operation. -/
structure Operand (room : Nat) (t : Term) : Prop extends Phrase room t where
  precedence?_eq : t.precedence? = none

theorem Phrase.binary_iff {room : Nat} {left right : Term} {op : Operator} :
    (Term.binary left op right).Phrase room ↔
      left.Phrase room ∧ right.Phrase room ∧
        (∀ p ∈ left.precedence?, op.precedence ≤ p) ∧
        (∀ p ∈ right.precedence?, op.precedence < p) := by
  constructor
  · rintro ⟨⟨hwl, hwr⟩, ⟨hsl, hsr, hl, hr⟩, hn⟩
    have hn' : left.nesting ≤ room ∧ right.nesting ≤ room := Nat.max_le.mp hn
    exact ⟨⟨hwl, hsl, hn'.1⟩, ⟨hwr, hsr, hn'.2⟩, hl, hr⟩
  · rintro ⟨hl, hr, hlp, hrp⟩
    exact ⟨⟨hl.wellFormed, hr.wellFormed⟩, ⟨hl.stratified, hr.stratified, hlp, hrp⟩,
      Nat.max_le.mpr ⟨hl.nesting_le, hr.nesting_le⟩⟩

/-- A grouping is an operand as soon as its inner tree is a phrase one level
    below. -/
theorem operand_grouping_iff {room : Nat} {inner : Term} :
    (Term.grouping inner).Operand (room + 1) ↔ inner.Phrase room := by
  constructor
  · intro h
    exact ⟨h.wellFormed, h.stratified, Nat.le_of_succ_le_succ h.nesting_le⟩
  · intro h
    exact ⟨⟨h.wellFormed, h.stratified, Nat.succ_le_succ h.nesting_le⟩, rfl⟩

/-- The tokens of a tree of formula nodes begin with one that is no closing
    parenthesis. -/
theorem exists_tokens_eq_cons (t : Term) (h : t.WellFormed) :
    ∃ first rest, t.tokens = first :: rest ∧ first ≠ .closing := by
  induction t with
  | account ref => exact ⟨_, _, rfl, nofun⟩
  | constant value => exact ⟨_, _, rfl, nofun⟩
  | formula id => exact ⟨_, _, rfl, nofun⟩
  | grouping inner _ => exact ⟨_, _, rfl, nofun⟩
  | binary left op right ihl _ =>
    obtain ⟨first, rest, hleft, hfirst⟩ := ihl h.1
    exact ⟨first, rest ++ .operator op :: right.tokens, by simp [tokens, hleft], hfirst⟩
  | unsupported => exact h.elim
  | foreign => exact h.elim

end Term

theorem Operator.precedence_cases (op : Operator) : op.precedence = 1 ∨ op.precedence = 2 := by
  cases op <;> simp [precedence]

theorem Term.eq_one_or_two_of_mem_precedence? {t : Term} {p : Nat} (h : p ∈ t.precedence?) :
    p = 1 ∨ p = 2 := by
  cases t with
  | binary left op right =>
    obtain rfl : op.precedence = p := Option.some.inj h
    exact op.precedence_cases
  | _ => cases h

/-! ### From chains to trees -/

/-- The tokens of operators with the operands behind them. -/
def tailTokens (more : List (Operator × Term)) : List Token :=
  more.flatMap fun x => .operator x.1 :: x.2.tokens

/-- What a chain under construction is at any time: a product of the given
    room, and a phrase with a loose operator before it. -/
structure Pending.Sound (room : Nat) (p : Pending) : Prop where
  product : p.product.Phrase room
  product_tight : ∀ q ∈ p.product.precedence?, q = 2
  sum : ∀ s ∈ p.sum, s.1.Phrase room ∧ s.2.precedence = 1

theorem Pending.Sound.close {room : Nat} {p : Pending} (h : p.Sound room) :
    p.close.Phrase room := by
  obtain ⟨sum, product⟩ := p
  cases sum with
  | none => exact h.product
  | some s =>
    obtain ⟨hleft, hop⟩ := h.sum s rfl
    have htight : ∀ q ∈ product.precedence?, s.2.precedence < q := by
      intro q hq
      have : q = 2 := h.product_tight q hq
      omega
    have hloose : ∀ q ∈ s.1.precedence?, s.2.precedence ≤ q := by
      intro q hq
      rcases Term.eq_one_or_two_of_mem_precedence? hq with rfl | rfl <;> omega
    exact Term.Phrase.binary_iff.mpr ⟨hleft, h.product, hloose, htight⟩

theorem Pending.Sound.push {room : Nat} {p : Pending} {op : Operator} {x : Term}
    (h : p.Sound room) (hx : x.Operand room) : (p.push op x).Sound room := by
  have hno : x.precedence? = none := hx.precedence?_eq
  rcases op.precedence_cases with hop | hop
  · have hpush : p.push op x = ⟨some (p.close, op), x⟩ := by simp [Pending.push, hop]
    rw [hpush]
    refine ⟨hx.toPhrase, ?_, ?_⟩
    · simp [hno]
    · intro s hs
      obtain rfl : (p.close, op) = s := Option.some.inj hs
      exact ⟨h.close, hop⟩
  · have hpush : p.push op x = { p with product := .binary p.product op x } := by
      simp [Pending.push, hop]
    rw [hpush]
    refine ⟨?_, by simp [Term.precedence?, hop], h.sum⟩
    refine Term.Phrase.binary_iff.mpr ⟨h.product, hx.toPhrase, ?_, by simp [hno]⟩
    intro q hq
    have : q = 2 := h.product_tight q hq
    omega

theorem Pending.tokens_close_push (p : Pending) (op : Operator) (x : Term) :
    (p.push op x).close.tokens = p.close.tokens ++ .operator op :: x.tokens := by
  obtain ⟨sum, product⟩ := p
  by_cases hop : op.precedence = 2
  · cases sum <;> simp [Pending.push, Pending.close, Term.tokens, hop]
  · simp [Pending.push, Pending.close, Term.tokens, hop]

/-- A chain as it is built: one push per operand. -/
def Pending.extend (p : Pending) (more : List (Operator × Term)) : Pending :=
  more.foldl (fun p x => p.push x.1 x.2) p

@[simp]
theorem Pending.extend_nil (p : Pending) : p.extend [] = p := rfl

@[simp]
theorem Pending.extend_cons (p : Pending) (x : Operator × Term) (more : List (Operator × Term)) :
    p.extend (x :: more) = (p.push x.1 x.2).extend more := rfl

@[simp]
theorem Pending.extend_append (p : Pending) (xs ys : List (Operator × Term)) :
    p.extend (xs ++ ys) = (p.extend xs).extend ys := by
  simp [Pending.extend]

theorem buildChain_eq (first : Term) (more : List (Operator × Term)) :
    buildChain first more = (Pending.extend ⟨none, first⟩ more).close := rfl

theorem Pending.Sound.extend {room : Nat} {more : List (Operator × Term)} :
    ∀ {p : Pending}, p.Sound room → (∀ x ∈ more, x.2.Operand room) → (p.extend more).Sound room := by
  induction more with
  | nil => intro p h _; exact h
  | cons x more ih =>
    intro p h hmore
    rw [Pending.extend_cons]
    exact ih (h.push (hmore x (by simp))) fun y hy => hmore y (by simp [hy])

/-- The tree of a chain of operands is a phrase. -/
theorem buildChain_phrase {room : Nat} {first : Term} {more : List (Operator × Term)}
    (hfirst : first.Operand room) (hmore : ∀ x ∈ more, x.2.Operand room) :
    (buildChain first more).Phrase room := by
  have hstart : Pending.Sound room ⟨none, first⟩ :=
    ⟨hfirst.toPhrase, by simp [hfirst.precedence?_eq], nofun⟩
  exact (hstart.extend hmore).close

theorem Pending.tokens_close_extend (more : List (Operator × Term)) :
    ∀ p : Pending, (p.extend more).close.tokens = p.close.tokens ++ tailTokens more := by
  induction more with
  | nil => intro p; simp [tailTokens]
  | cons x more ih =>
    intro p
    rw [Pending.extend_cons, ih, Pending.tokens_close_push]
    simp [tailTokens]

/-- No token of a chain is lost, added or moved in its tree. -/
theorem buildChain_tokens (first : Term) (more : List (Operator × Term)) :
    (buildChain first more).tokens = first.tokens ++ tailTokens more := by
  rw [buildChain_eq, Pending.tokens_close_extend]
  rfl

/-! ### From trees to chains -/

namespace Term

/-- The first operand of the chain that a tree stands for. -/
def spineFirst : Term → Term
  | .binary left _ _ => left.spineFirst
  | t => t

/-- The operators and the further operands of the chain that a tree stands
    for. -/
def spineMore : Term → List (Operator × Term)
  | .binary left op right => left.spineMore ++ (op, right.spineFirst) :: right.spineMore
  | _ => []

theorem spineMore_of_precedence?_eq_none {t : Term} (h : t.precedence? = none) :
    t.spineFirst = t ∧ t.spineMore = [] := by
  cases t with
  | binary => simp [precedence?] at h
  | _ => exact ⟨rfl, rfl⟩

/-- The operands of the chain of a phrase are operands. -/
theorem Phrase.spine {room : Nat} {t : Term} (h : t.Phrase room) :
    t.spineFirst.Operand room ∧ ∀ x ∈ t.spineMore, x.2.Operand room := by
  induction t with
  | binary left op right ihl ihr =>
    obtain ⟨hl, hr, -, -⟩ := Phrase.binary_iff.mp h
    obtain ⟨hlfirst, hlmore⟩ := ihl hl
    obtain ⟨hrfirst, hrmore⟩ := ihr hr
    refine ⟨hlfirst, ?_⟩
    intro x hx
    rcases List.mem_append.mp hx with hx | hx
    · exact hlmore x hx
    · rcases List.mem_cons.mp hx with rfl | hx
      · exact hrfirst
      · exact hrmore x hx
  | _ => exact ⟨⟨h, rfl⟩, nofun⟩

end Term

/-- A product is built onto whatever sum waits for it. -/
theorem Pending.extend_spine_of_tight {t : Term} (hs : t.Stratified)
    (ht : ∀ p ∈ t.precedence?, p = 2) (sum : Option (Term × Operator)) :
    Pending.extend ⟨sum, t.spineFirst⟩ t.spineMore = ⟨sum, t⟩ := by
  induction t with
  | binary left op right ihl _ =>
    obtain ⟨hsl, -, hlp, hrp⟩ := hs
    have hop : op.precedence = 2 := ht _ rfl
    have hright : right.precedence? = none := by
      refine Option.eq_none_iff_forall_not_mem.mpr fun p hp => ?_
      have := hrp p hp
      rcases Term.eq_one_or_two_of_mem_precedence? hp with rfl | rfl <;> omega
    have hleft : ∀ p ∈ left.precedence?, p = 2 := by
      intro p hp
      have := hlp p hp
      rcases Term.eq_one_or_two_of_mem_precedence? hp with rfl | rfl <;> omega
    obtain ⟨hfirst, hmore⟩ := Term.spineMore_of_precedence?_eq_none hright
    simp [Term.spineFirst, Term.spineMore, ihl hsl hleft, hfirst, hmore, Pending.push, hop]
  | _ => rfl

theorem Pending.close_extend_spine {t : Term} (hs : t.Stratified) :
    (Pending.extend ⟨none, t.spineFirst⟩ t.spineMore).close = t := by
  induction t with
  | binary left op right ihl _ =>
    by_cases hop : op.precedence = 2
    · rw [Pending.extend_spine_of_tight hs (by simp [Term.precedence?, hop])]
      rfl
    · obtain ⟨hsl, hsr, -, hrp⟩ := hs
      have hright : ∀ p ∈ right.precedence?, p = 2 := by
        intro p hp
        have := hrp p hp
        rcases op.precedence_cases with h | h <;>
          rcases Term.eq_one_or_two_of_mem_precedence? hp with rfl | rfl <;> omega
      -- the loose operator closes what the left operand has become
      have hpush : ∀ p : Pending, p.push op right.spineFirst =
          ⟨some (p.close, op), right.spineFirst⟩ := by
        intro p
        simp [Pending.push, hop]
      simp only [Term.spineFirst, Term.spineMore, Pending.extend_append, Pending.extend_cons,
        hpush, ihl hsl, Pending.extend_spine_of_tight hsr hright]
      rfl
  | _ => rfl

/-- A stratified tree is built back from its chain. -/
theorem buildChain_spine {t : Term} (hs : t.Stratified) :
    buildChain t.spineFirst t.spineMore = t :=
  Pending.close_extend_spine hs

theorem tokens_spine {t : Term} (hs : t.Stratified) :
    t.tokens = t.spineFirst.tokens ++ tailTokens t.spineMore := by
  rw [← buildChain_tokens, buildChain_spine hs]

end KeyFigures
