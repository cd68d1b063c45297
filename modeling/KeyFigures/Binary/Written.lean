/-
  KeyFigures/Binary/Written.lean
  ==============================
  **Doubles in writing.**

  The shortest text of a double has the fewest digits that read back as the
  same double, and of those the digits nearest to its exact value.  Such a
  digit string is looked for on the decimal grids of one to seventeen digits:
  if a point of a grid reads back, one of the two neighbours of the value on
  that grid does.  All arithmetic is exact.

  `fixed` writes a given number of places instead, correctly rounded.
-/
import KeyFigures.Binary.Basic
import KeyFigures.Decimal.Arithmetic
import KeyFigures.Decimal.Written

namespace KeyFigures.Binary

open KeyFigures.Text

/-! ### Shortest digits -/

/-- The reals that round to `m · 2^q`, in quarters of `2^q`: half a unit up,
    and half a unit down, or a quarter below a power of two. -/
def interval (m : Nat) (q : Int) : Nat × Nat :=
  (if m = Nat.pow 2 52 ∧ minPower < q then 4 * m - 1 else 4 * m - 2, 4 * m + 2)

/-- The position of the leading digit of `n / d`, counted from the point:
    `n / d` lies in `[10^p, 10^(p+1))`.  At most `fuel` places are tried below
    the point. -/
def leadingPlace (n d : Nat) : Nat → Int
  | 0 => 0
  | fuel + 1 =>
    if d ≤ n then (Decimal.digitCount (n / d) : Int) - 1
    else leadingPlace (10 * n) d fuel - 1

/-- Whether `k` units of `10^place` read back as `m · 2^q`; the ends of the
    interval do so if `m` is even. -/
def readsBack (m : Nat) (q : Int) (k : Nat) (place : Int) : Bool :=
  let (low, high) := interval m q
  let (n, d) := ratio 1 q
  let x := if 0 ≤ place then k * Nat.pow 10 place.toNat * 4 * d else k * 4 * d
  let scale := if 0 ≤ place then n else n * Nat.pow 10 (-place).toNat
  if m % 2 = 0 then decide (low * scale ≤ x) && decide (x ≤ high * scale)
  else decide (low * scale < x) && decide (x < high * scale)

/-- The multiple of `10^place` nearest to `m · 2^q` that reads back. -/
def onGrid? (m : Nat) (q : Int) (place : Int) : Option Nat :=
  let (n, d) := ratio m q
  let n := if 0 ≤ place then n else n * Nat.pow 10 (-place).toNat
  let d := if 0 ≤ place then d * Nat.pow 10 place.toNat else d
  let near := Decimal.roundQuotient .toEven n d
  let floor := n / d
  let other := if near = floor then floor + 1 else floor
  if readsBack m q near place then some near
  else if readsBack m q other place then some other
  else none

/-- The shortest decimal `k · 10^place` that reads back as `m · 2^q`. -/
def shortest (m : Nat) (q : Int) : Nat × Int :=
  let (n, d) := ratio m q
  let lead := leadingPlace n d 400
  match (List.range 17).findSome? fun (i : Nat) =>
      (onGrid? m q (lead - i)).map fun k => (k, lead - (i : Int)) with
  | some found => found
  | none => (m, q)

/-- The value `m · 2^q` rounded to `count` digits, a half going up: the digits
    and the place of the last. -/
def significant (count : Nat) (m : Nat) (q : Int) : Nat × Int :=
  let (n, d) := ratio m q
  let place := leadingPlace n d 400 - count + 1
  let n := if 0 ≤ place then n else n * Nat.pow 10 (-place).toNat
  let d := if 0 ≤ place then d * Nat.pow 10 place.toNat else d
  (Decimal.roundQuotient .awayFromZero n d, place)

/-! ### Text -/

/-- How the shortest digits are laid out. -/
structure Layout where
  /-- Leading digits below this place are written with a power of ten. -/
  least : Int
  /-- Leading digits from this place on are written with a power of ten. -/
  most : Int
  powerDigits : Nat
  /-- Whether a single digit before a power of ten gets a decimal place. -/
  powerAfterPlace : Bool

/-- Numbers from a ten-thousandth to below ten to the sixteenth are written in
    places, with at least one place; a power of ten has a sign and at least two
    digits. -/
def layout : Layout := ⟨-4, 16, 2, false⟩

/-- The magnitude `k · 10^place` in a layout. -/
def Layout.chars (l : Layout) (k : Nat) (place : Int) : List Char :=
  let (k, place) := Decimal.stripZeros k place 1000
  let ds := digits k
  let lead := place + ds.length - 1
  if l.least ≤ lead ∧ lead < l.most then
    if 0 ≤ place then ds ++ Decimal.zeros place.toNat ++ ['.', '0']
    else Decimal.pointed ds (lead + 1)
  else
    let power := digits lead.natAbs
    Decimal.pointed ds 1 ++ (if l.powerAfterPlace && ds.length == 1 then ['.', '0'] else []) ++
      'e' :: (if lead < 0 then '-' else '+') :: Decimal.zeros (l.powerDigits - power.length) ++ power

def chars (x : Float) : List Char :=
  match parts x with
  | .finite negative m q =>
    Decimal.signChars negative ++
      if m = 0 then ['0', '.', '0']
      else
        let (k, place) := shortest m q
        layout.chars k place
  | .infinite negative => Decimal.signChars negative ++ "inf".toList
  | .nan => "nan".toList

def toText (x : Float) : String := String.ofList (chars x)

/-- A finite double rounded to `places` decimal places, a half going to the
    even neighbour. -/
def rounded (places : Nat) (m : Nat) (q : Int) : Nat :=
  let (n, d) := ratio m q
  Decimal.roundQuotient .toEven (n * Nat.pow 10 places) d

/-- A double with a fixed number of decimal places. -/
def fixed (places : Nat) (x : Float) : String :=
  match parts x with
  | .finite negative m q =>
    let c := rounded places m q
    let ds := digits c
    String.ofList (Decimal.signChars negative ++
      (if places = 0 then ds
        else
          let ds := Decimal.zeros (places + 1 - ds.length) ++ ds
          ds.take (ds.length - places) ++ '.' :: ds.drop (ds.length - places)))
  | .infinite negative => if negative then "-inf" else "inf"
  | .nan => "nan"

end KeyFigures.Binary
