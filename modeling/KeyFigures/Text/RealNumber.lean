/-
  KeyFigures/Text/RealNumber.lean
  ===============================
  **Texts that denote real numbers.**

  A real number is a row of digits with at most one point before, in or after
  it, and an exponent if need be; a sign may stand before it and before the
  exponent.  The infinite and the undefined are written as words, whatever the
  case of their letters.
-/
import KeyFigures.Text.WholeNumber

namespace KeyFigures

open KeyFigures.Text

def unsigned : List Char → List Char
  | '-' :: r => r
  | '+' :: r => r
  | r => r

/-- Whether digits with at most one point are there. -/
def isMantissa (cs : List Char) : Bool :=
  let whole := cs.takeWhile (· ≠ '.')
  match cs.dropWhile (· ≠ '.') with
  | [] => isDigitRow whole
  | _ :: fraction =>
    if fraction.isEmpty then isDigitRow whole
    else (whole.isEmpty || isDigitRow whole) && isDigitRow fraction

/-- Whether nothing or the mark of an exponent and its digits are there. -/
def isExponent : List Char → Bool
  | [] => true
  | _ :: exponent => isDigitRow (unsigned exponent)

def boundlessWords : List String := ["inf", "infinity", "nan"]

def isRealNumber (s : String) : Bool :=
  let cs := unsigned (stripWhere surroundsNumber s.toList)
  let isMark (c : Char) : Bool := c == 'e' || c == 'E'
  boundlessWords.contains (String.ofList (cs.map Char.toLower))
    || isMantissa (cs.takeWhile fun c => !isMark c) && isExponent (cs.dropWhile fun c => !isMark c)

end KeyFigures
