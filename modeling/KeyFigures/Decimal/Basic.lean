/-
  KeyFigures/Decimal/Basic.lean
  =============================
  **Decimal numbers as sign, coefficient and exponent.**

  A finite decimal is `± c · 10^e`.  Two decimals of equal value may differ in
  their exponent (`1.0` and `1.00`), and the difference is kept: it decides how
  many places are printed.  Beside the finite numbers there are the two
  infinities and the quiet and signalling not-a-numbers with their payloads.

  The file holds the type, the size of a coefficient, the one rounding rule
  everything else uses (`roundQuotient`), and `round`, which brings a number
  into the working range of `precision` digits and adjusted exponents between
  `minAdjusted` and `maxAdjusted`.
-/
namespace KeyFigures

/-! ### The type -/

/-- A decimal number: `± coefficient · 10^exponent`, an infinity, or a
    not-a-number with a diagnostic payload (`0` for none). -/
inductive Decimal where
  | finite (negative : Bool) (coefficient : Nat) (exponent : Int)
  | infinite (negative : Bool)
  | nan (negative signalling : Bool) (payload : Nat)
deriving DecidableEq, Repr

namespace Decimal

/-- Why an operation on decimals has no result. -/
inductive Fault where
  | notANumber
  /-- The operands are outside the operation's domain. -/
  | invalid
  /-- The result is too large for the working range. -/
  | overflow
  /-- A nonzero number was divided by zero. -/
  | divisionByZero
deriving DecidableEq, Repr

/-- The nonnegative whole number `n`. -/
def ofNat (n : Nat) : Decimal := .finite false n 0

/-- The whole number `n`. -/
def ofInt (n : Int) : Decimal := .finite (decide (n < 0)) n.natAbs 0

def zero : Decimal := ofNat 0

instance : Inhabited Decimal := ⟨zero⟩

/-- Whether the number is a zero of either sign and any exponent. -/
def isZero : Decimal → Bool
  | .finite _ c _ => c == 0
  | _ => false

def isFinite : Decimal → Bool
  | .finite .. => true
  | _ => false

/-- Whether the number is a not-a-number of either sort. -/
def isNan : Decimal → Bool
  | .nan .. => true
  | _ => false

def isSignalling : Decimal → Bool
  | .nan _ signalling _ => signalling
  | _ => false

/-- Whether the sign is set; a zero may carry it too. -/
def isNegative : Decimal → Bool
  | .finite negative _ _ => negative
  | .infinite negative => negative
  | .nan negative _ _ => negative

/-! ### Digits -/

/-- How many decimal digits `n` has; zero has one. -/
def digitCount (n : Nat) : Nat :=
  if n < 10 then 1 else digitCount (n / 10) + 1
termination_by n

/-- The position of the first digit of `c · 10^e` relative to the point. -/
def adjusted (c : Nat) (e : Int) : Int := e + digitCount c - 1

/-! ### Rounding a quotient -/

/-- Which neighbour takes a quotient that lies halfway between two whole
    numbers. -/
inductive Tie where
  | toEven
  | awayFromZero
deriving DecidableEq, Repr

/-- The whole number nearest to `n / d`. -/
def roundQuotient (tie : Tie) (n d : Nat) : Nat :=
  let q := n / d
  let r := n % d
  if 2 * r < d then q
  else if d < 2 * r then q + 1
  else match tie with
    | .toEven => q + q % 2
    | .awayFromZero => q + 1

/-- The coefficient of `c · 10^e` at exponent `target`: exact when `target` is
    not above `e`, and rounded otherwise.  A number below a tenth of the last
    place rounds to zero whatever the tie rule, so the power of ten is not
    computed for it. -/
def coefficientAt (tie : Tie) (c : Nat) (e target : Int) : Nat :=
  if target ≤ e then
    if c = 0 then 0 else c * Nat.pow 10 (e - target).toNat
  else if (digitCount c : Int) < target - e then 0
  else roundQuotient tie c (Nat.pow 10 (target - e).toNat)

/-! ### The working range -/

def precision : Nat := 28

def maxAdjusted : Int := 999999

/-- The smallest adjusted exponent of a number computed at full precision. -/
def minAdjusted : Int := -999999

def minExponent : Int := minAdjusted - precision + 1

/-- The largest exponent of a computed number that uses every digit. -/
def maxFullExponent : Int := maxAdjusted - precision + 1

/-- Brings `± c · 10^e` into the working range: at most `precision` digits, a
    half going to the even neighbour, no exponent below `minExponent`.  A zero
    only has its exponent clipped.  Too large a number is an overflow. -/
def roundFinite (negative : Bool) (c : Nat) (e : Int) : Except Fault Decimal :=
  if c = 0 then .ok (.finite negative 0 (min (max e minExponent) maxAdjusted))
  else
    let least := max (e + digitCount c - precision) minExponent
    if maxFullExponent < least then .error .overflow
    else if least ≤ e then .ok (.finite negative c e)
    else
      let rounded := coefficientAt .toEven c e least
      if digitCount rounded ≤ precision then .ok (.finite negative rounded least)
      else if maxFullExponent < least + 1 then .error .overflow
      else .ok (.finite negative (rounded / 10) (least + 1))

/-- The payload of a computed not-a-number keeps its last `precision` digits. -/
def clipPayload (payload : Nat) : Nat := payload % Nat.pow 10 precision

def round : Decimal → Except Fault Decimal
  | .finite negative c e => roundFinite negative c e
  | .infinite negative => .ok (.infinite negative)
  | .nan negative signalling payload => .ok (.nan negative signalling (clipPayload payload))

end Decimal

end KeyFigures
