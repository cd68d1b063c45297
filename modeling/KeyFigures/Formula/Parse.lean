/-
  KeyFigures/Formula/Parse.lean
  =============================
  **From tokens to a formula tree.**

  A formula is a chain: operands with operators between them.  An operand is a
  number, an account reference, a formula reference or a chain in parentheses.
  `buildChain` gives a chain its tree: multiplication and division bind
  tighter, and operators of equal strength associate to the left.

  A reader takes tokens from the front of a row and returns the rest together
  with the proof that it is shorter.  Parentheses may nest `maxNesting` deep;
  the readers recurse on the depth that is left.
-/
import KeyFigures.Formula.Token

namespace KeyFigures

/-! ### The tree of a chain -/

/-- A chain under construction: a finished sum with the operator that waits for
    its right operand, if any, and the product that may still grow. -/
structure Pending where
  sum : Option (Term × Operator)
  product : Term

/-- The sum with the product as its right operand. -/
def Pending.close (p : Pending) : Term :=
  match p.sum with
  | none => p.product
  | some (left, op) => .binary left op p.product

/-- Appends an operator and an operand: a tight operator extends the product, a
    loose one closes it. -/
def Pending.push (p : Pending) (op : Operator) (operand : Term) : Pending :=
  if op.precedence = 2 then { p with product := .binary p.product op operand }
  else ⟨some (p.close, op), operand⟩

/-- The tree of a chain of operands with operators between them. -/
def buildChain (first : Term) (more : List (Operator × Term)) : Term :=
  (more.foldl (fun (p : Pending) x => p.push x.1 x.2) ⟨none, first⟩).close

/-! ### Reading -/

/-- What is wrong with a row of tokens, and where. -/
structure Complaint where
  reason : ParseReason
  position : Option Nat
deriving DecidableEq, Repr

/-- A term read from the front of `ts`, the last token taken, and the rest. -/
structure Reading (ts : List Placed) where
  term : Term
  last : Placed
  rest : List Placed
  shorter : rest.length < ts.length

/-- Operators and operands read from the front of `ts`, the last token taken,
    and the rest. -/
structure MoreReading (ts : List Placed) where
  items : List (Operator × Term)
  last : Placed
  rest : List Placed
  notLonger : rest.length ≤ ts.length

/-- Reads a term from the front of a row of tokens, `before` being the token
    that stands before them. -/
abbrev TermReader := (before : Option Placed) → (ts : List Placed) → Except Complaint (Reading ts)

def Token.isOperator : Token → Bool
  | .operator _ => true
  | _ => false

/-- The complaint that the row ends where an operand is due. -/
def endComplaint (before : Option Placed) : Complaint :=
  match before with
  | some ⟨.operator _, position⟩ => ⟨.trailingOperator, some position⟩
  | _ => ⟨.missingClose, none⟩

/-- The complaint that an operator stands where an operand is due. -/
def operatorComplaint (before : Option Placed) (op : Operator) (position : Nat) : Complaint :=
  match before with
  | none | some ⟨.opening, _⟩ => ⟨.leadingOperator op, some position⟩
  | _ => ⟨.unexpectedOperator op, some position⟩

/-- The complaint that a closing parenthesis stands where an operand is due. -/
def closingComplaint (before : Option Placed) (position : Nat) : Complaint :=
  match before with
  | some ⟨.operator _, _⟩ => ⟨.trailingOperatorBeforeClose, some position⟩
  | _ => ⟨.unexpectedClose, some position⟩

/-- Reads the chain behind an opening parenthesis and the closing one. -/
def readGroup (chain : TermReader) (opening : Placed) (ts : List Placed) :
    Except Complaint (Reading (opening :: ts)) :=
  match chain (some opening) ts with
  | .error complaint => .error complaint
  | .ok inner =>
    match h : inner.rest with
    | [] => .error ⟨.missingClose, some opening.position⟩
    | ⟨.closing, position⟩ :: rest =>
      .ok ⟨.grouping inner.term, ⟨.closing, position⟩, rest, by
        have := inner.shorter
        simp only [h, List.length_cons] at *
        omega⟩
    | ⟨_, position⟩ :: _ => .error ⟨.missingOperator, some position⟩

/-- Reads one operand.  Without a chain reader parentheses nest too deep. -/
def readOperand (chain : Option TermReader) : TermReader := fun before ts =>
  match ts with
  | [] => .error (endComplaint before)
  | ⟨token, position⟩ :: rest =>
    match token with
    | .number value => .ok ⟨.constant value, ⟨token, position⟩, rest, Nat.lt_succ_self _⟩
    | .account ref => .ok ⟨.account ref, ⟨token, position⟩, rest, Nat.lt_succ_self _⟩
    | .formula id => .ok ⟨.formula id, ⟨token, position⟩, rest, Nat.lt_succ_self _⟩
    | .operator op => .error (operatorComplaint before op position)
    | .closing => .error (closingComplaint before position)
    | .opening =>
      match rest, chain with
      | ⟨.closing, p⟩ :: _, _ => .error ⟨.emptyParentheses, some p⟩
      | _, none => .error ⟨.tooDeep, some position⟩
      | rest, some chain => readGroup chain ⟨.opening, position⟩ rest

/-- Reads operators and operands for as long as an operator follows. -/
def readMore (operand : TermReader) (last : Placed) (ts : List Placed) :
    Except Complaint (MoreReading ts) :=
  match ts with
  | ⟨.operator op, position⟩ :: rest =>
    match operand (some ⟨.operator op, position⟩) rest with
    | .error complaint => .error complaint
    | .ok x =>
      match readMore operand x.last x.rest with
      | .error complaint => .error complaint
      | .ok more =>
        .ok ⟨(op, x.term) :: more.items, more.last, more.rest, by
          have := x.shorter
          have := more.notLonger
          simp only [List.length_cons]
          omega⟩
  | ts => .ok ⟨[], last, ts, Nat.le_refl _⟩
termination_by ts.length
decreasing_by
  have := x.shorter
  simp only [List.length_cons]
  omega

def readChain (operand : TermReader) : TermReader := fun before ts =>
  match operand before ts with
  | .error complaint => .error complaint
  | .ok first =>
    match readMore operand first.last first.rest with
    | .error complaint => .error complaint
    | .ok more =>
      .ok ⟨buildChain first.term more.items, more.last, more.rest,
        Nat.lt_of_le_of_lt more.notLonger first.shorter⟩

/-- Reads a chain in which parentheses nest at most `room` deep. -/
def chainWithin : (room : Nat) → TermReader
  | 0 => readChain (readOperand none)
  | room + 1 => readChain (readOperand (some (chainWithin room)))

def treeOf (ts : List Placed) : Except Complaint Term :=
  if ts.isEmpty then .error ⟨.emptyFormula, none⟩
  else
    match chainWithin maxNesting none ts with
    | .error complaint => .error complaint
    | .ok reading =>
      match reading.rest with
      | [] => .ok reading.term
      | ⟨.closing, position⟩ :: _ => .error ⟨.unexpectedClose, some position⟩
      | ⟨_, position⟩ :: _ => .error ⟨.missingOperator, some position⟩

def parseTokens (source : String) (ts : List Placed) : Attempt Term :=
  match treeOf ts with
  | .ok t => .ok t
  | .error complaint => .error (.parse ⟨source, complaint.reason, complaint.position⟩)

def parseText (source : String) : Attempt Term := do
  let ts ← tokenize source
  parseTokens source ts

end KeyFigures
