/-
  KeyFigures/Database/Column.lean
  ===============================
  **What columns make of data.**

  A column holds texts or whole numbers, and data of another type is converted
  on the way in: a text column writes numbers as text, a number column reads
  numerals and drops an empty fraction.  What is not numeric stays a text even
  there, and a fraction stays.  The same holds for data that a column is
  compared with.

  Truth values count as zero and one, a double that is no number counts as
  null, whole numbers have at most sixty-four bits, and lists and objects
  cannot be stored at all.
-/
import KeyFigures.Failure

namespace KeyFigures.Database

/-- Whether a whole number has at most sixty-four bits. -/
def isStorable (n : Int) : Bool := decide (-(Nat.pow 2 63 : Int) ≤ n) && decide (n < Nat.pow 2 63)

/-- Data as the connection takes it: null, a whole number, a double or a
    text. -/
def bound (v : Value) : Attempt Value :=
  match v with
  | .null => .ok .null
  | .text s => .ok (.text s)
  | .float x => .ok (if x.isNaN then .null else .float x)
  | v =>
    match v.index? with
    | some n => if isStorable n then .ok (.int n) else .error (.range .column)
    | none => .error .unstorable

/-! ### Text columns -/

/-- Doubles are written with fifteen digits, and with a power of ten from there
    on. -/
def realLayout : Binary.Layout := ⟨-4, 15, 2, true⟩

def realText (x : Float) : String :=
  match Binary.parts x with
  | .finite negative m q =>
    if m = 0 then "0.0"
    else
      let (k, place) := Binary.significant 15 m q
      String.ofList (Decimal.signChars negative ++ realLayout.chars k place)
  | .infinite negative => if negative then "-Inf" else "Inf"
  | .nan => ""

/-- What a text column makes of data; nothing of null. -/
def textCell (v : Value) : Attempt (Option String) := do
  match ← bound v with
  | .text s => .ok (some s)
  | .int n => .ok (some (intText n))
  | .float x => .ok (some (realText x))
  | _ => .ok none

/-! ### Number columns -/

def surroundsNumeral (c : Char) : Bool := c == ' ' || (decide (9 ≤ c.toNat) && decide (c.toNat ≤ 13))

/-- The longest row of ASCII digits that a text begins with, and the rest. -/
def digitRow (cs : List Char) : List Char × List Char := cs.span Char.isDigit

/-- A text without a sign, and whether it had a minus. -/
def unsigned : List Char → Bool × List Char
  | '-' :: rest => (true, rest)
  | '+' :: rest => (false, rest)
  | cs => (false, cs)

/-- The power of ten that ends a numeral; nothing else may follow it. -/
def powerOf (cs : List Char) : Option Int :=
  match cs with
  | [] => some 0
  | c :: rest =>
    if c == 'e' || c == 'E' then
      let (negative, rest) := unsigned rest
      if !rest.isEmpty && rest.all Char.isDigit then
        some (if negative then -(Text.valueOf rest : Int) else Text.valueOf rest)
      else none
    else none

/-- The number that a text denotes, if it is a numeral. -/
def numeral? (s : String) : Option Value :=
  let (negative, cs) := unsigned (Text.stripWhere surroundsNumeral s.toList)
  let (whole, rest) := digitRow cs
  let (places, tail) := match rest with
    | '.' :: rest => digitRow rest
    | rest => ([], rest)
  if whole.isEmpty && places.isEmpty then none
  else
    let magnitude := Text.valueOf whole
    let n : Int := if negative then -magnitude else magnitude
    if rest.isEmpty && isStorable n then some (.int n)
    else
      (powerOf tail).map fun power =>
        .float (Binary.nearest negative (Text.valueOf (whole ++ places)) (power - places.length))

def withoutFraction (v : Value) : Value :=
  match v with
  | .float x =>
    match (Magnitude.ofFloat x).whole? with
    | some n => if -(Nat.pow 2 63 : Int) < n ∧ n < (Nat.pow 2 63 : Int) - 1 then .int n else .float x
    | none => .float x
  | v => v

def numberCell (v : Value) : Attempt Value := do
  match ← bound v with
  | .text s => .ok (((numeral? s).map withoutFraction).getD (.text s))
  | v => .ok (withoutFraction v)

/-- Whether a cell of a number column does not come after another: numbers come
    before texts. -/
def cellUpTo (a b : Value) : Bool :=
  match a, b with
  | .text s, .text t => decide (s ≤ t)
  | .text _, _ => false
  | _, .text _ => true
  | a, b => b.before? a != some true

end KeyFigures.Database
