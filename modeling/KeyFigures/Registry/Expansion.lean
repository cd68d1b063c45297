/-
  KeyFigures/Registry/Expansion.lean
  ==================================
  **Putting formulas in the place of their ids.**

  A reference is replaced by the tree of the formula it names, in parentheses,
  and the references in that tree in turn.  The chain holds the ids that are
  being replaced, the outermost first: an id that comes up again in it is a
  cycle, and its length is bounded.

  `expandPlain` is the rule.  `expandShared` does the same work and replaces
  an id only once: it remembers the finished tree of an id together with its
  height, the number of references that nest in it, so that a finished tree
  can be refused where it would hang too deep.
-/
import KeyFigures.Failure

namespace KeyFigures.Registry

/-! ### How deep references may nest -/

/-- A bound on the depth of references.  A bound that is no whole number lies
    between two: a chain is full when it has `reached` ids, and a finished tree
    may nest `most` deep. -/
structure Depth where
  given : Value
  reached : Nat
  most : Nat
deriving DecidableEq, Repr, Inhabited

namespace Depth

def whole (n : Nat) : Depth := ⟨.int n, n, n⟩

/-- The bound where none is set but the patience of the machine. -/
def unlimited : Nat := 1000

/-- The bound that data gives, which is at least one. -/
def ofValue (v : Value) : Attempt Depth := do
  if ← Attempt.ofTyped (v.before? (.int 1)) then
    Attempt.refuse (.belowOne "max_reference_depth" v.display)
  else
    match v.magnitude? with
    | some (.fraction n d) => .ok ⟨v, (-(-n / (d : Int))).toNat, (n / (d : Int)).toNat⟩
    | _ => .ok ⟨v, unlimited, unlimited⟩

theorem ofValue_int (n : Int) :
    Depth.ofValue (.int n) =
      if n < 1 then Attempt.refuse (.belowOne "max_reference_depth" (Value.int n).display)
      else .ok (Depth.mk (.int n) n.toNat n.toNat) := by
  have hbefore : (Value.int n).before? (.int 1) = some (decide (n < 1)) := by
    rw [Value.before?]
    · by_cases h : n < 1
      · simp [Value.magnitude?, Magnitude.compare?, compare, compareOfLessAndEq, h]
      · by_cases h' : n = 1
        · simp [Value.magnitude?, Magnitude.compare?, compare, compareOfLessAndEq, h']
        · simp [Value.magnitude?, Magnitude.compare?, compare, compareOfLessAndEq, h, h']
    all_goals simp
  unfold Depth.ofValue
  rw [hbefore]
  simp [Attempt.ofTyped, bind, Except.bind, Value.magnitude?]

end Depth

/-- The failure of a chain that ends with that id; a chain is told by the texts
    of its ids. -/
def chainFailure (maxDepth : Option Value) (chain : List Value) (id : Value) : Failure :=
  match id.text?, (chain ++ [id]).mapM Value.text? with
  | some last, some ids => .circularReference last ids maxDepth
  | _, _ => .misuse .mistyped

/-- The failure of an id that comes up again in its own chain. -/
def cycleAt (chain : List Value) (id : Value) : Failure := chainFailure none chain id

/-- The failure of an id that would make the chain too long. -/
def tooDeepAt (depth : Depth) (chain : List Value) (id : Value) : Failure :=
  chainFailure (some depth.given) chain id

def isAmong (chain : List Value) (id : Value) : Bool := chain.any (·.same id)

/-! ### The rule -/

/-- The tree without references: `bodyOf` gives the tree of an id, and `chain`
    is what is being replaced already. -/
def expandPlain (bodyOf : Value → Attempt Term) (depth : Depth) (chain : List Value) (t : Term) :
    Attempt Term :=
  match t with
  | .formula id =>
    if isAmong chain id then .error (cycleAt chain id)
    else if _h : depth.reached ≤ chain.length then .error (tooDeepAt depth chain id)
    else
      match bodyOf id with
      | .error f => .error f
      | .ok body => do
        let inner ← expandPlain bodyOf depth (chain ++ [id]) body
        .ok (.grouping inner)
  | .binary left op right => do
    let l ← expandPlain bodyOf depth chain left
    let r ← expandPlain bodyOf depth chain right
    .ok (.binary l op r)
  | .unsupported left symbol right => do
    let l ← expandPlain bodyOf depth chain left
    let r ← expandPlain bodyOf depth chain right
    .ok (.unsupported l symbol r)
  | .grouping inner => do
    let i ← expandPlain bodyOf depth chain inner
    .ok (.grouping i)
  | .account ref => .ok (.account ref)
  | .constant value => .ok (.constant value)
  | .foreign thing => .ok (.foreign thing)
termination_by (depth.reached - chain.length, t)
decreasing_by all_goals simp_wf; (try simp [Prod.lex_def]) <;> omega

/-! ### Replacing an id once -/

/-- A tree without references and the number of references that nested in the
    tree it was made from. -/
structure Expanded where
  tree : Term
  height : Nat
deriving DecidableEq, Repr, Inhabited

abbrev Memo := List (Value × Expanded)

def Memo.recall (memo : Memo) (id : Value) : Option Expanded :=
  (memo.find? (·.1.same id)).map (·.2)

/-- Refuses a finished tree where it would hang too deep. -/
def hang (depth : Depth) (chain : List Value) (id : Value) (e : Expanded) : Attempt Expanded :=
  if depth.most < chain.length + e.height then .error (tooDeepAt depth chain id) else .ok e

/-- The tree without references, with its height and what was finished on the
    way. -/
def expandShared (bodyOf : Value → Attempt Term) (depth : Depth) (chain : List Value) (t : Term)
    (memo : Memo) : Attempt (Expanded × Memo) :=
  match t with
  | .formula id =>
    if isAmong chain id then .error (cycleAt chain id)
    else
      match memo.recall id with
      | some e => do
        let e ← hang depth chain id e
        .ok (e, memo)
      | none =>
        if _h : depth.reached ≤ chain.length then .error (tooDeepAt depth chain id)
        else
          match bodyOf id with
          | .error f => .error f
          | .ok body => do
            let (inner, memo) ← expandShared bodyOf depth (chain ++ [id]) body memo
            let e ← hang depth chain id ⟨.grouping inner.tree, inner.height + 1⟩
            .ok (e, (id, e) :: memo)
  | .binary left op right => do
    let (l, memo) ← expandShared bodyOf depth chain left memo
    let (r, memo) ← expandShared bodyOf depth chain right memo
    .ok (⟨.binary l.tree op r.tree, max l.height r.height⟩, memo)
  | .unsupported left symbol right => do
    let (l, memo) ← expandShared bodyOf depth chain left memo
    let (r, memo) ← expandShared bodyOf depth chain right memo
    .ok (⟨.unsupported l.tree symbol r.tree, max l.height r.height⟩, memo)
  | .grouping inner => do
    let (i, memo) ← expandShared bodyOf depth chain inner memo
    .ok (⟨.grouping i.tree, i.height⟩, memo)
  | .account ref => .ok (⟨.account ref, 0⟩, memo)
  | .constant value => .ok (⟨.constant value, 0⟩, memo)
  | .foreign thing => .ok (⟨.foreign thing, 0⟩, memo)
termination_by (depth.reached - chain.length, t)
decreasing_by all_goals simp_wf; (try simp [Prod.lex_def]) <;> omega

def expand (bodyOf : Value → Attempt Term) (depth : Depth) (chain : List Value) (t : Term) :
    Attempt Term :=
  (expandShared bodyOf depth chain t []).map (·.1.tree)

end KeyFigures.Registry
