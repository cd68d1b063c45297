/-
  KeyFigures/Proofs/Decimal/Plain.lean
  ====================================
  **Plain digits read back.**

  The text of a number without a power of ten is a row of digits, for a number
  with places followed by a point and a further row.  `exists_plainMagnitude_eq`
  names the two rows and says that they denote the very number they were
  written for: same coefficient, same exponent.
-/
import KeyFigures.Proofs.Text.Classes

namespace KeyFigures.Decimal

open KeyFigures.Text

/-- The places of a number with the point before them, if there are any. -/
def placesChars (fraction : List Char) : List Char :=
  if fraction.isEmpty then [] else '.' :: fraction

theorem isDigit_of_mem_zeros {n : Nat} : ∀ c ∈ zeros n, isDigit c = true := by
  intro c hc
  obtain rfl := List.eq_of_mem_replicate hc
  decide

/-- Two rows of digits that denote a number with coefficient `c` and exponent
    `e`, the first of which is not empty. -/
structure Rows (c : Nat) (e : Int) (whole fraction : List Char) : Prop where
  whole_ne_nil : whole ≠ []
  isDigit_whole : ∀ d ∈ whole, isDigit d = true
  isDigit_fraction : ∀ d ∈ fraction, isDigit d = true
  valueOf_eq : valueOf (whole ++ fraction) = c
  length_fraction : -(fraction.length : Int) = e

theorem Rows.ofDigits_eq {c : Nat} {e : Int} {whole fraction : List Char}
    (h : Rows c e whole fraction) : ofDigits whole fraction = .finite false c e := by
  rw [ofDigits, h.valueOf_eq, h.length_fraction]

theorem rows_digits (c : Nat) : Rows c 0 (digits c) [] where
  whole_ne_nil := digits_ne_nil c
  isDigit_whole := isDigit_of_mem_digits c
  isDigit_fraction := nofun
  valueOf_eq := by rw [List.append_nil, valueOf_digits]
  length_fraction := rfl

/-- A number all of whose digits stand behind the point. -/
theorem rows_zero {c k : Nat} {e : Int} (he : e + (digits c).length = -k) :
    Rows c e ['0'] (zeros k ++ digits c) where
  whole_ne_nil := nofun
  isDigit_whole := isDigit_of_mem_zeros (n := 1)
  isDigit_fraction := by
    intro d hd
    rcases List.mem_append.mp hd with hd | hd
    · exact isDigit_of_mem_zeros d hd
    · exact isDigit_of_mem_digits c d hd
  valueOf_eq := by
    have hzeros : ['0'] ++ (zeros k ++ digits c) = zeros (k + 1) ++ digits c := rfl
    rw [hzeros, valueOf_zeros_append, valueOf_digits]
  length_fraction := by
    rw [List.length_append, zeros, List.length_replicate]
    omega

/-- A number with digits on both sides of the point. -/
theorem rows_split {c p : Nat} {e : Int} (he : e + (digits c).length = p) (hpos : 0 < p)
    (hlt : p < (digits c).length) :
    Rows c e ((digits c).take p) ((digits c).drop p) where
  whole_ne_nil := by
    rw [ne_eq, List.take_eq_nil_iff]
    rintro (h | h)
    · omega
    · exact digits_ne_nil c h
  isDigit_whole := fun d hd => isDigit_of_mem_digits c d (List.mem_of_mem_take hd)
  isDigit_fraction := fun d hd => isDigit_of_mem_digits c d (List.mem_of_mem_drop hd)
  valueOf_eq := by rw [List.take_append_drop, valueOf_digits]
  length_fraction := by
    rw [List.length_drop]
    omega

@[simp]
theorem placesChars_nil : placesChars [] = [] := rfl

theorem placesChars_of_ne_nil {fraction : List Char} (h : fraction ≠ []) :
    placesChars fraction = '.' :: fraction := by
  simp [placesChars, h]

/-- A number without a positive exponent is written as two rows of digits that
    denote it. -/
theorem exists_plainMagnitude_eq {c : Nat} {e : Int} (he : e ≤ 0) :
    ∃ whole fraction, plainMagnitude c e = whole ++ placesChars fraction ∧
      Rows c e whole fraction := by
  unfold plainMagnitude pointed
  dsimp only
  split
  · rename_i h
    obtain rfl : e = 0 := by omega
    exact ⟨digits c, [], by simp [placesChars], rows_digits c⟩
  split
  · refine ⟨['0'], zeros (-(e + (digits c).length)).toNat ++ digits c, ?_, rows_zero (by omega)⟩
    rw [placesChars_of_ne_nil (by simp [digits_ne_nil])]
    rfl
  split
  · rename_i h
    obtain rfl : e = 0 := by omega
    exact ⟨digits c, [], by simp [placesChars, zeros], rows_digits c⟩
  · refine ⟨_, _, ?_, rows_split (p := (e + (digits c).length).toNat) ?_ ?_ ?_⟩
    · rw [placesChars_of_ne_nil]
      rw [ne_eq, List.drop_eq_nil_iff]
      omega
    all_goals omega

end KeyFigures.Decimal
