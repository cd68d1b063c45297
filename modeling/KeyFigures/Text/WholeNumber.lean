/-
  KeyFigures/Text/WholeNumber.lean
  ================================
  **Reading whole numbers.**

  A whole number is a row of digits of any script with an optional sign;
  blanks other than the separators of ASCII may surround it and single
  underscores may stand between its digits.  Rows beyond a fixed length are
  refused.
-/
import KeyFigures.Failure

namespace KeyFigures

open KeyFigures.Text

/-- Whether underscores stand only between digits, and nothing but digits and
    underscores is there. -/
def isDigitRow : List Char → Bool
  | [] => false
  | [c] => isDigit c
  | c :: '_' :: r => isDigit c && isDigitRow r
  | c :: r => isDigit c && isDigitRow r

def surroundsNumber (c : Char) : Bool :=
  isBlank c && !(decide (0x1C ≤ c.toNat) && decide (c.toNat ≤ 0x1F))

def readInt (s : String) : Except ValueFault Int :=
  let (negative, row) := match stripWhere surroundsNumber s.toList with
    | '-' :: r => (true, r)
    | '+' :: r => (false, r)
    | r => (false, r)
  if isDigitRow row then
    let ds := row.filter (· != '_')
    if maxIntDigits < ds.length then .error (.tooManyDigits ds.length)
    else .ok (if negative then -(valueOf ds : Int) else valueOf ds)
  else .error (.notAWholeNumber s)

/-- The whole number that data denotes: a text is read, a double loses its
    fraction. -/
def Value.toWhole : Value → Attempt Int
  | .text s =>
    match readInt s with
    | .ok n => .ok n
    | .error fault => Attempt.refuse fault
  | .float x =>
    match Magnitude.ofFloat x with
    | .fraction n d => .ok (Int.tdiv n d)
    | .infinite _ => .error (.range .infiniteWhole)
    | .undefined => Attempt.refuse .undefinedNumber
  | v => Attempt.ofTyped v.index?

end KeyFigures
