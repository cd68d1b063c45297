/-
  KeyFigures/Decimal/Arithmetic.lean
  ==================================
  **Arithmetic in the working range.**

  Every operation computes the exact result and rounds it once.  Where the
  exponents of two summands lie so far apart that the smaller cannot show in
  the result's digits, it is replaced by one unit far below the last digit
  (`faint`), which rounds the same way and keeps the numbers small.

  A not-a-number passes through every operation; a signalling one is invalid.
-/
import KeyFigures.Decimal.Basic

namespace KeyFigures.Decimal

/-! ### Sums -/

/-- What a smaller summand `c · 10^e` may be replaced by beside a larger
    summand with exponent `bigExponent` and coefficient `big`: itself, or one
    unit below every digit that can matter. -/
def faint (big : Nat) (bigExponent : Int) (c : Nat) (e : Int) : Nat × Int :=
  let floor := bigExponent + min (-1) ((digitCount big : Int) - precision - 2)
  if e + digitCount c - 1 < floor then (1, floor) else (c, e)

/-- The signed coefficient `± c`. -/
def signed (negative : Bool) (c : Nat) : Int := if negative then -(c : Int) else c

/-- The sum of two nonzero finite numbers before rounding; the first has the
    larger exponent. -/
def sumAligned (n₁ : Bool) (c₁ : Nat) (e₁ : Int) (n₂ : Bool) (c₂ : Nat) (e₂ : Int) : Int × Int :=
  let (small, low) := faint c₁ e₁ c₂ e₂
  (signed n₁ (coefficientAt .toEven c₁ e₁ low) + signed n₂ small, low)

/-- The sum of two finite numbers.  An exact zero is positive unless both
    summands are negative zeros. -/
def addFinite (n₁ : Bool) (c₁ : Nat) (e₁ : Int) (n₂ : Bool) (c₂ : Nat) (e₂ : Int) :
    Except Fault Decimal :=
  if c₁ = 0 ∧ c₂ = 0 then roundFinite (n₁ && n₂) 0 (min e₁ e₂)
  else if c₁ = 0 then
    let e := max (min e₁ e₂) (e₂ - precision - 1)
    roundFinite n₂ (coefficientAt .toEven c₂ e₂ e) e
  else if c₂ = 0 then
    let e := max (min e₁ e₂) (e₁ - precision - 1)
    roundFinite n₁ (coefficientAt .toEven c₁ e₁ e) e
  else
    let (total, e) :=
      if e₂ ≤ e₁ then sumAligned n₁ c₁ e₁ n₂ c₂ e₂ else sumAligned n₂ c₂ e₂ n₁ c₁ e₁
    if total = 0 then roundFinite false 0 (min e₁ e₂)
    else roundFinite (decide (total < 0)) total.natAbs e

/-- The not-a-number that an operation passes on: a signalling operand is
    invalid, and of two quiet ones the first counts. -/
def passNan (x y : Decimal) : Option (Except Fault Decimal) :=
  if x.isSignalling || y.isSignalling then some (.error .invalid)
  else if x.isNan then some x.round
  else if y.isNan then some y.round
  else none

/-- The sum of two numbers; opposite infinities have none. -/
def add (x y : Decimal) : Except Fault Decimal :=
  match passNan x y with
  | some r => r
  | none =>
    match x, y with
    | .finite n₁ c₁ e₁, .finite n₂ c₂ e₂ => addFinite n₁ c₁ e₁ n₂ c₂ e₂
    | .infinite n₁, .infinite n₂ => if n₁ = n₂ then .ok x else .error .invalid
    | .infinite _, _ => .ok x
    | _, _ => .ok y

/-- The number with its sign turned, not rounded. -/
def flipSign : Decimal → Decimal
  | .finite n c e => .finite (!n) c e
  | .infinite n => .infinite (!n)
  | .nan n s p => .nan (!n) s p

/-- The difference of two numbers.  A not-a-number keeps its own sign. -/
def sub (x y : Decimal) : Except Fault Decimal :=
  match passNan x y with
  | some r => r
  | none => add x y.flipSign

/-- The product of two numbers; zero times infinity has none. -/
def mul (x y : Decimal) : Except Fault Decimal :=
  match passNan x y with
  | some r => r
  | none =>
    let negative := x.isNegative != y.isNegative
    match x, y with
    | .finite _ c₁ e₁, .finite _ c₂ e₂ => roundFinite negative (c₁ * c₂) (e₁ + e₂)
    | _, _ => if x.isZero || y.isZero then .error .invalid else .ok (.infinite negative)

/-! ### Quotients -/

/-- Drops trailing zeros of `c · 10^e` while the exponent is below `ceiling`. -/
def stripZeros (c : Nat) (e ceiling : Int) : Nat × Int :=
  if h : e < ceiling ∧ c % 10 = 0 ∧ c ≠ 0 then stripZeros (c / 10) (e + 1) ceiling else (c, e)
termination_by c
decreasing_by omega

/-- The quotient of two finite numbers with nonzero divisor: one digit more
    than `precision`, a last digit that records whether the division was exact,
    then rounded; an exact quotient takes the exponent nearest to `e₁ - e₂`. -/
def divFinite (negative : Bool) (c₁ : Nat) (e₁ : Int) (c₂ : Nat) (e₂ : Int) :
    Except Fault Decimal :=
  if c₁ = 0 then roundFinite negative 0 (e₁ - e₂)
  else
    let shift : Int := (digitCount c₂ : Int) - digitCount c₁ + precision + 1
    let n := if 0 ≤ shift then c₁ * Nat.pow 10 shift.toNat else c₁
    let d := if 0 ≤ shift then c₂ else c₂ * Nat.pow 10 (-shift).toNat
    let q := n / d
    let e := e₁ - e₂ - shift
    if n % d = 0 then
      let (c, e) := stripZeros q e (e₁ - e₂)
      roundFinite negative c e
    else roundFinite negative (if q % 5 = 0 then q + 1 else q) e

def div (x y : Decimal) : Except Fault Decimal :=
  match passNan x y with
  | some r => r
  | none =>
    let negative := x.isNegative != y.isNegative
    match x, y with
    | .infinite _, .infinite _ => .error .invalid
    | .infinite _, _ => .ok (.infinite negative)
    | _, .infinite _ => .ok (.finite negative 0 minExponent)
    | .finite _ c₁ e₁, .finite _ c₂ e₂ =>
      if c₂ = 0 then .error (if c₁ = 0 then .invalid else .divisionByZero)
      else divFinite negative c₁ e₁ c₂ e₂
    | _, _ => .error .invalid

/-! ### Sign, places and normal form -/

/-- The number rounded, with a zero made positive. -/
def plus (x : Decimal) : Except Fault Decimal :=
  match x with
  | .finite n c e => roundFinite (n && c != 0) c e
  | .infinite _ => .ok x
  | .nan _ signalling _ => if signalling then .error .invalid else x.round

/-- The number of opposite sign, rounded; a zero comes out positive. -/
def neg (x : Decimal) : Except Fault Decimal :=
  match x with
  | .finite .. | .infinite _ => plus x.flipSign
  | .nan .. => plus x

/-- The number without its sign, rounded. -/
def abs (x : Decimal) : Except Fault Decimal :=
  match x with
  | .finite _ c e => roundFinite false c e
  | .infinite _ => .ok (.infinite false)
  | .nan .. => plus x

/-- The nearest number with exponent `e`, a half going to `tie`.  It is
    invalid when more than `precision` digits would be needed. -/
def quantize (tie : Tie) (x : Decimal) (e : Int) : Except Fault Decimal :=
  match x with
  | .nan _ signalling _ => if signalling then .error .invalid else x.round
  | .infinite _ => .error .invalid
  | .finite n c e₀ =>
    if e < minExponent ∨ maxAdjusted < e then .error .invalid
    else if c = 0 then roundFinite n 0 e
    else if maxAdjusted < adjusted c e₀ ∨ (precision : Int) < adjusted c e₀ - e + 1 then
      .error .invalid
    else
      let rounded := coefficientAt tie c e₀ e
      if maxAdjusted < adjusted rounded e ∨ precision < digitCount rounded then .error .invalid
      else roundFinite n rounded e

/-- The rounded number without trailing zeros; every zero has exponent zero. -/
def normalize (x : Decimal) : Except Fault Decimal :=
  match x with
  | .nan _ signalling _ => if signalling then .error .invalid else x.round
  | .infinite _ => .ok x
  | .finite n c e => do
    match ← roundFinite n c e with
    | .finite n 0 _ => .ok (.finite n 0 0)
    | .finite n c e =>
      let (c, e) := stripZeros c e maxAdjusted
      .ok (.finite n c e)
    | y => .ok y

/-! ### Comparison -/

/-- The order of `c₁ · 10^e₁` and `c₂ · 10^e₂`, both nonzero: first by the
    position of the leading digit, so that far apart numbers are not scaled. -/
def compareMagnitude (c₁ : Nat) (e₁ : Int) (c₂ : Nat) (e₂ : Int) : Ordering :=
  if adjusted c₁ e₁ ≠ adjusted c₂ e₂ then compare (adjusted c₁ e₁) (adjusted c₂ e₂)
  else
    let e := min e₁ e₂
    compare (coefficientAt .toEven c₁ e₁ e) (coefficientAt .toEven c₂ e₂ e)

def compareFinite (n₁ : Bool) (c₁ : Nat) (e₁ : Int) (n₂ : Bool) (c₂ : Nat) (e₂ : Int) : Ordering :=
  if c₁ = 0 ∧ c₂ = 0 then .eq
  else if c₁ = 0 then (if n₂ then .gt else .lt)
  else if c₂ = 0 then (if n₁ then .lt else .gt)
  else
    match n₁, n₂ with
    | false, true => .gt
    | true, false => .lt
    | false, false => compareMagnitude c₁ e₁ c₂ e₂
    | true, true => compareMagnitude c₂ e₂ c₁ e₁

/-- The order of two numbers by value; a not-a-number has no place in it. -/
def compareValue : Decimal → Decimal → Option Ordering
  | .nan .., _ => none
  | _, .nan .. => none
  | .finite n₁ c₁ e₁, .finite n₂ c₂ e₂ => some (compareFinite n₁ c₁ e₁ n₂ c₂ e₂)
  | .infinite n₁, .infinite n₂ =>
    some (match n₁, n₂ with | true, false => .lt | false, true => .gt | _, _ => .eq)
  | .infinite n, .finite .. => some (if n then .lt else .gt)
  | .finite .., .infinite n => some (if n then .gt else .lt)

/-- Whether two numbers are equal by value.  A quiet not-a-number equals
    nothing; a signalling one is invalid. -/
def equalValue (x y : Decimal) : Except Fault Bool :=
  if x.isSignalling || y.isSignalling then .error .invalid
  else .ok (compareValue x y == some .eq)

/-- The order of two numbers where it has to exist: invalid for a
    not-a-number. -/
def order (x y : Decimal) : Except Fault Ordering :=
  match compareValue x y with
  | some o => .ok o
  | none => .error .invalid

end KeyFigures.Decimal
