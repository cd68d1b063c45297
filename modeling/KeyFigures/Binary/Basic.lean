/-
  KeyFigures/Binary/Basic.lean
  ============================
  **Binary numbers of double precision, taken apart.**

  A finite double is `± m · 2^q` with a significand `m` below `2^53`.  The
  functions here give that form, and the double nearest to a decimal number.
-/
import KeyFigures.Decimal.Basic

namespace KeyFigures.Binary

/-- A double taken apart: `± significand · 2^power`, an infinity, or no
    number. -/
inductive Parts where
  | finite (negative : Bool) (significand : Nat) (power : Int)
  | infinite (negative : Bool)
  | nan
deriving DecidableEq, Repr

def minPower : Int := -1074

def Parts.ofBits (bits : Nat) : Parts :=
  let negative := decide (bits / Nat.pow 2 63 % 2 = 1)
  let field : Nat := bits / Nat.pow 2 52 % Nat.pow 2 11
  let fraction : Nat := bits % Nat.pow 2 52
  if field = 2047 then (if fraction = 0 then .infinite negative else .nan)
  else if field = 0 then .finite negative fraction minPower
  else .finite negative (Nat.pow 2 52 + fraction) (minPower + (field : Int) - 1)

def parts (x : Float) : Parts := Parts.ofBits x.toBits.toNat

/-- The positive rational `m · 2^q` as numerator and denominator. -/
def ratio (m : Nat) (q : Int) : Nat × Nat :=
  if 0 ≤ q then (m * Nat.pow 2 q.toNat, 1) else (m, Nat.pow 2 (-q).toNat)

/-- The double nearest to `± c · 10^e`.  Numbers beyond all doubles are
    recognised by their leading digit, so that no huge power is computed. -/
def nearest (negative : Bool) (c : Nat) (e : Int) : Float :=
  let magnitude : Float :=
    if c = 0 ∨ Decimal.adjusted c e < -400 then 0.0
    else if 400 < Decimal.adjusted c e then 1.0 / 0.0
    else if 0 ≤ e then Float.ofScientific (c * Nat.pow 10 e.toNat) false 0
    else Float.ofScientific c true (-e).toNat
  if negative then -magnitude else magnitude

def ofDecimal : Decimal → Float
  | .finite negative c e => nearest negative c e
  | .infinite negative => if negative then -1.0 / 0.0 else 1.0 / 0.0
  | .nan .. => 0.0 / 0.0

/-- Halves a number as often as it is even, at most `k` times; the second part
    is the number of halvings left. -/
def halved (m : Nat) : Nat → Nat × Nat
  | 0 => (m, 0)
  | k + 1 => if m % 2 = 0 then halved (m / 2) k else (m, k + 1)

/-- The exact value of a double, with no more decimal places than it needs. -/
def exact (x : Float) : Decimal :=
  match parts x with
  | .finite negative m q =>
    if m = 0 then .finite negative 0 0
    else if 0 ≤ q then .finite negative (m * Nat.pow 2 q.toNat) 0
    else
      let (m, places) := halved m (-q).toNat
      .finite negative (m * Nat.pow 5 places) (-places)
  | .infinite negative => .infinite negative
  | .nan => .nan false false 0

end KeyFigures.Binary
