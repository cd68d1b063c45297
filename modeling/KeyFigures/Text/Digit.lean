/-
  KeyFigures/Text/Digit.lean
  ==========================
  **Decimal digits of every script.**

  A decimal digit stands in one of the blocks of ten consecutive characters
  that begin with a zero.  Superscripts and circled digits look like digits
  and are recognised as such (`isDigitLike`), but they have no place value.

  `digits` writes a number, `valueOf` reads one; `valueOf_digits` says that
  reading gives back what was written.
-/
import KeyFigures.Text.Blank

namespace KeyFigures.Text

/-! ### Classes -/

/-- The code points of the decimal zeros, in ascending order. -/
def zeroDigits : List Nat := [
   0x30, 0x660, 0x6F0, 0x7C0, 0x966, 0x9E6, 0xA66, 0xAE6, 0xB66, 0xBE6,
   0xC66, 0xCE6, 0xD66, 0xDE6, 0xE50, 0xED0, 0xF20, 0x1040, 0x1090, 0x17E0,
   0x1810, 0x1946, 0x19D0, 0x1A80, 0x1A90, 0x1B50, 0x1BB0, 0x1C40, 0x1C50, 0xA620,
   0xA8D0, 0xA900, 0xA9D0, 0xA9F0, 0xAA50, 0xABF0, 0xFF10, 0x104A0, 0x10D30, 0x11066,
   0x110F0, 0x11136, 0x111D0, 0x112F0, 0x11450, 0x114D0, 0x11650, 0x116C0, 0x11730, 0x118E0,
   0x11950, 0x11C50, 0x11D50, 0x11DA0, 0x16A60, 0x16AC0, 0x16B50, 0x1D7CE, 0x1D7D8, 0x1D7E2,
   0x1D7EC, 0x1D7F6, 0x1E140, 0x1E2F0, 0x1E950, 0x1FBF0]

/-- The place value of a decimal digit of any script. -/
def digitValue? (c : Char) : Option Nat :=
  (zeroDigits.find? fun z => decide (z ≤ c.toNat) && decide (c.toNat < z + 10)).map (c.toNat - ·)

/-- Whether a character is a decimal digit of some script. -/
def isDigit (c : Char) : Bool := (digitValue? c).isSome

/-- Closed ranges of the digit-like characters without a place value. -/
def figureRanges : List (Nat × Nat) := [
   (0xB2, 0xB3), (0xB9, 0xB9), (0x1369, 0x1371), (0x19DA, 0x19DA), (0x2070, 0x2070), (0x2074, 0x2079),
   (0x2080, 0x2089), (0x2460, 0x2468), (0x2474, 0x247C), (0x2488, 0x2490), (0x24EA, 0x24EA), (0x24F5, 0x24FD),
   (0x24FF, 0x24FF), (0x2776, 0x277E), (0x2780, 0x2788), (0x278A, 0x2792), (0x10A40, 0x10A43), (0x10E60, 0x10E68),
   (0x11052, 0x1105A), (0x1F100, 0x1F10A)]

/-- Whether a character is a digit or looks like one. -/
def isDigitLike (c : Char) : Bool := isDigit c || inRanges figureRanges c.toNat

/-! ### Numbers in digits -/

/-- The digit of value `d`, for `d` below ten. -/
def digitChar (d : Nat) : Char := Char.ofNat (48 + d)

/-- A number in decimal digits, without leading zeros. -/
def digits (n : Nat) : List Char :=
  if n < 10 then [digitChar n] else digits (n / 10) ++ [digitChar (n % 10)]
termination_by n

/-- The number that a row of digits denotes; other characters count as zero. -/
def valueOf (cs : List Char) : Nat :=
  cs.foldl (fun n c => n * 10 + (digitValue? c).getD 0) 0

theorem digitValue?_digitChar {d : Nat} (h : d < 10) : digitValue? (digitChar d) = some d := by
  have : ∀ d : Fin 10, digitValue? (digitChar d) = some d.val := by decide
  exact this ⟨d, h⟩

theorem valueOf_append_singleton (cs : List Char) (c : Char) :
    valueOf (cs ++ [c]) = valueOf cs * 10 + (digitValue? c).getD 0 := by
  simp [valueOf]

/-- Reading a written number gives the number back. -/
theorem valueOf_digits (n : Nat) : valueOf (digits n) = n := by
  induction n using digits.induct with
  | case1 n h => rw [digits, if_pos h]; simp [valueOf, digitValue?_digitChar h]
  | case2 n h ih =>
    rw [digits, if_neg h, valueOf_append_singleton, ih,
      digitValue?_digitChar (Nat.mod_lt n (by decide))]
    simp only [Option.getD_some]
    omega

/-- A whole number in decimal digits, with a sign if it is negative. -/
def signedDigits (n : Int) : List Char :=
  if n < 0 then '-' :: digits n.natAbs else digits n.natAbs

end KeyFigures.Text
