/-
  KeyFigures/Decimal/Written.lean
  ===============================
  **Decimals in writing.**

  `toText` writes every digit of the coefficient and keeps the exponent
  recognisable: in plain places while the exponent is not positive and the
  number is not too small, with a power of ten otherwise.  `toPlain` never
  uses a power of ten.  `ofText` reads both forms, the names of the infinities
  and of the not-a-numbers, and digits of every script.
-/
import KeyFigures.Decimal.Basic
import KeyFigures.Text.Digit

namespace KeyFigures.Decimal

open KeyFigures.Text

/-! ### Writing -/

def zeros (n : Nat) : List Char := List.replicate n '0'

/-- A row of digits with the point after its first `point` places. -/
def pointed (ds : List Char) (point : Int) : List Char :=
  if point ≤ 0 then '0' :: '.' :: zeros (-point).toNat ++ ds
  else if (ds.length : Int) ≤ point then ds ++ zeros (point - ds.length).toNat
  else ds.take point.toNat ++ '.' :: ds.drop point.toNat

def signChars (negative : Bool) : List Char := if negative then ['-'] else []

def powerChars (n : Int) : List Char :=
  'E' :: (if n < 0 then '-' else '+') :: digits n.natAbs

/-- A finite number without its sign: the power of ten is left out when the
    exponent is not positive and the leading digit stands at most six places
    after the point. -/
def magnitudeChars (c : Nat) (e : Int) : List Char :=
  let ds := digits c
  let point := e + ds.length
  if e ≤ 0 ∧ -6 < point then pointed ds point
  else pointed ds 1 ++ powerChars (point - 1)

/-- The name of a number that is not finite. -/
def specialChars : Decimal → List Char
  | .infinite _ => "Infinity".toList
  | .nan _ signalling payload =>
    (if signalling then "sNaN".toList else "NaN".toList) ++
      (if payload = 0 then [] else digits payload)
  | .finite .. => []

def chars (x : Decimal) : List Char :=
  signChars x.isNegative ++
    match x with
    | .finite _ c e => magnitudeChars c e
    | _ => specialChars x

def toText (x : Decimal) : String := String.ofList x.chars

/-- A finite number without sign and without a power of ten. -/
def plainMagnitude (c : Nat) (e : Int) : List Char :=
  let ds := digits c
  if c = 0 ∧ 0 ≤ e then ds else pointed ds (e + ds.length)

/-- The characters of a number without a power of ten. -/
def plainChars (x : Decimal) : List Char :=
  signChars x.isNegative ++
    match x with
    | .finite _ c e => plainMagnitude c e
    | _ => specialChars x

/-- Puts `separator` between groups of three digits, counted from the right. -/
def grouped (separator : Char) (ds : List Char) : List Char :=
  if ds.length ≤ 3 then ds
  else grouped separator (ds.take (ds.length - 3)) ++ separator :: ds.drop (ds.length - 3)
termination_by ds.length
decreasing_by simp; omega

/-- A number with its whole digits in groups of three; a number with places or
    a positive exponent, and one that is not finite, is left as it is. -/
def groupedChars (separator : Char) (x : Decimal) : List Char :=
  match x with
  | .finite negative c 0 => signChars negative ++ grouped separator (digits c)
  | _ => x.chars

/-! ### Reading -/

/-- The number `whole.fraction`, for two rows of digits. -/
def ofDigits (whole fraction : List Char) : Decimal :=
  .finite false (valueOf (whole ++ fraction)) (-(fraction.length : Int))

/-- The largest adjusted exponent a written number may have. -/
def maxReadable : Int := 999999999999999999

def minReadable : Int := -1999999999999999997

/-- A written finite number is taken exactly, or refused if its exponent is
    out of all bounds. -/
def ofParts (negative : Bool) (whole fraction : List Char) (power : Int) : Except Fault Decimal :=
  let c := valueOf (whole ++ fraction)
  let e := power - fraction.length
  if maxReadable < (if c = 0 then e else adjusted c e) ∨ e < minReadable then .error .invalid
  else .ok (.finite negative c e)

/-- A row of at least one digit, with an optional sign in front. -/
def readPower? (cs : List Char) : Option Int :=
  let (negative, ds) :=
    match cs with
    | '-' :: r => (true, r)
    | '+' :: r => (false, r)
    | r => (false, r)
  if ds.isEmpty || !ds.all isDigit then none
  else some (if negative then -(valueOf ds : Int) else valueOf ds)

/-- Digits, an optional point with further digits, an optional power of ten. -/
def readFinite (negative : Bool) (cs : List Char) : Except Fault Decimal :=
  let whole := cs.takeWhile isDigit
  let rest := cs.dropWhile isDigit
  let (fraction, rest) :=
    match rest with
    | '.' :: r => (r.takeWhile isDigit, r.dropWhile isDigit)
    | r => ([], r)
  if whole.isEmpty && fraction.isEmpty then .error .notANumber
  else
    match rest with
    | [] => ofParts negative whole fraction 0
    | c :: r =>
      if c = 'e' ∨ c = 'E' then
        match readPower? r with
        | some power => ofParts negative whole fraction power
        | none => .error .notANumber
      else .error .notANumber

/-- The rest of `cs` behind `word`, whatever the case of the letters. -/
def afterWord? (word cs : List Char) : Option (List Char) :=
  if (cs.take word.length).map Char.toLower = word then some (cs.drop word.length) else none

def readUnsigned (negative : Bool) (cs : List Char) : Except Fault Decimal :=
  let nan (signalling : Bool) (payload : List Char) : Except Fault Decimal :=
    if payload.all isDigit then .ok (.nan negative signalling (valueOf payload))
    else .error .notANumber
  match afterWord? ['i', 'n', 'f'] cs with
  | some r =>
    if r.isEmpty || afterWord? ['i', 'n', 'i', 't', 'y'] r == some [] then
      .ok (.infinite negative)
    else .error .notANumber
  | none =>
    match afterWord? ['n', 'a', 'n'] cs, afterWord? ['s', 'n', 'a', 'n'] cs with
    | some r, _ => nan false r
    | _, some r => nan true r
    | none, none => readFinite negative cs

/-- Reads a number; blanks around it and underscores in it do not count. -/
def ofChars (cs : List Char) : Except Fault Decimal :=
  match (strip cs).filter (· != '_') with
  | '-' :: r => readUnsigned true r
  | '+' :: r => readUnsigned false r
  | r => readUnsigned false r

/-- Reads a number; blanks around it and underscores in it do not count. -/
def ofText (s : String) : Except Fault Decimal := ofChars s.toList

end KeyFigures.Decimal
