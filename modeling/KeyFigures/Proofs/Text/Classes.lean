/-
  KeyFigures/Proofs/Text/Classes.lean
  ===================================
  **How the classes of characters lie to each other.**

  A digit of any script is never blank, and neither is a character of an
  account code.  Both facts are read off the tables: the blocks of ten digits
  and the ranges of blanks do not overlap (`zeroDigits_apart`), and a code
  character is one of the first 128.

  The rest is about rows of characters of one class: what `takeWhile`,
  `dropWhile` and `strip` do to them, and which number a row of digits denotes.
-/
import KeyFigures.Formula.Token
import KeyFigures.Decimal.Written
import Mathlib

namespace KeyFigures.Text

/-! ### Blanks, digits and code characters -/

theorem inRanges_iff {ranges : List (Nat × Nat)} {n : Nat} :
    inRanges ranges n = true ↔ ∃ r ∈ ranges, r.1 ≤ n ∧ n ≤ r.2 := by
  simp [inRanges]

theorem isDigit_iff {c : Char} :
    isDigit c = true ↔ ∃ z ∈ zeroDigits, z ≤ c.toNat ∧ c.toNat < z + 10 := by
  simp [isDigit, digitValue?]

/-- No block of ten digits meets a range of blanks. -/
theorem zeroDigits_apart :
    ∀ z ∈ zeroDigits, ∀ r ∈ blankRanges, z + 10 ≤ r.1 ∨ r.2 < z := by
  decide

theorem isBlank_of_isDigit {c : Char} (h : isDigit c = true) : isBlank c = false := by
  obtain ⟨z, hz, hlow, hhigh⟩ := isDigit_iff.mp h
  refine Bool.eq_false_iff.mpr fun hblank => ?_
  obtain ⟨r, hr, hfirst, hlast⟩ := inRanges_iff.mp hblank
  rcases zeroDigits_apart z hz r hr with hapart | hapart <;> omega

theorem toNat_lt_of_isCodeChar {c : Char} (h : isCodeChar c = true) : c.toNat < 128 := by
  simp only [isCodeChar, Char.isAlphanum, Char.isAlpha, Char.isUpper, Char.isLower, Char.isDigit,
    Bool.or_eq_true, Bool.and_eq_true, decide_eq_true_eq, beq_iff_eq, ge_iff_le,
    UInt32.le_iff_toNat_le] at h
  have htoNat : c.toNat = c.val.toNat := rfl
  have hZ : 'Z'.val.toNat = 90 := rfl
  have hz : 'z'.val.toNat = 122 := rfl
  have h9 : '9'.val.toNat = 57 := rfl
  rcases h with (h | rfl) | rfl
  · omega
  · decide
  · decide

/-- What holds of the first 128 characters holds of a code character. -/
theorem forall_isCodeChar {P : Char → Prop}
    (h : ∀ n : Fin 128, isCodeChar (Char.ofNat n) = true → P (Char.ofNat n)) {c : Char}
    (hc : isCodeChar c = true) : P c := by
  have hof : Char.ofNat c.toNat = c := Char.ofNat_toNat c
  have := h ⟨c.toNat, toNat_lt_of_isCodeChar hc⟩
  rw [hof] at this
  exact this hc

theorem isBlank_of_isCodeChar {c : Char} (h : isCodeChar c = true) : isBlank c = false :=
  forall_isCodeChar (P := fun c => isBlank c = false) (by decide) h

theorem isBlank_of_isFormulaIdChar {c : Char} (h : (isCodeChar c || c == '-') = true) :
    isBlank c = false := by
  rcases Bool.or_eq_true _ _ ▸ h with h | h
  · exact isBlank_of_isCodeChar h
  · obtain rfl := eq_of_beq h
    decide

/-- A character outside a class differs from every character in it. -/
theorem ne_of_class {p : Char → Bool} {c d : Char} (hc : p c = true) (hd : p d = false) :
    c ≠ d := by
  rintro rfl
  rw [hc] at hd
  cases hd

theorem not_mem_of_class {p : Char → Bool} {cs : List Char} {d : Char}
    (hcs : ∀ c ∈ cs, p c = true) (hd : p d = false) : d ∉ cs :=
  fun hmem => ne_of_class (hcs d hmem) hd rfl

/-! ### Rows of one class -/

/-- A row does not go on with a character of a class. -/
def StopsAt (p : Char → Bool) (rest : List Char) : Prop :=
  ∀ c ∈ rest.head?, p c = false

theorem takeWhile_append_stop {p : Char → Bool} {cs rest : List Char}
    (hcs : ∀ c ∈ cs, p c = true) (hrest : StopsAt p rest) : (cs ++ rest).takeWhile p = cs := by
  rw [List.takeWhile_append_of_pos hcs]
  cases rest with
  | nil => simp
  | cons c rest => simp [hrest c rfl]

theorem dropWhile_eq_self {p : Char → Bool} {cs : List Char} (h : StopsAt p cs) :
    cs.dropWhile p = cs := by
  cases cs with
  | nil => rfl
  | cons c cs => simp [h c rfl]

theorem dropWhile_append_stop {p : Char → Bool} {cs rest : List Char}
    (hcs : ∀ c ∈ cs, p c = true) (hrest : StopsAt p rest) : (cs ++ rest).dropWhile p = rest := by
  rw [List.dropWhile_append_of_pos hcs]
  exact dropWhile_eq_self hrest

theorem stripWhere_eq_self {p : Char → Bool} {cs : List Char} (h : ∀ c ∈ cs, p c = false) :
    stripWhere p cs = cs := by
  have hstop : ∀ ds : List Char, (∀ d ∈ ds, p d = false) → StopsAt p ds :=
    fun ds hds d hd => hds d (List.mem_of_mem_head? hd)
  unfold stripWhere
  rw [dropWhile_eq_self (hstop cs h), dropWhile_eq_self (hstop _ (by simpa using h)),
    List.reverse_reverse]

/-! ### Rows of digits -/

theorem isDigit_digitChar {d : Nat} (h : d < 10) : isDigit (digitChar d) = true := by
  rw [isDigit, digitValue?_digitChar h]
  rfl

theorem isDigit_of_mem_digits (n : Nat) : ∀ c ∈ digits n, isDigit c = true := by
  induction n using digits.induct with
  | case1 n h =>
    intro c hc
    rw [digits, if_pos h] at hc
    obtain rfl := List.mem_singleton.mp hc
    exact isDigit_digitChar h
  | case2 n h ih =>
    intro c hc
    rw [digits, if_neg h] at hc
    rcases List.mem_append.mp hc with hc | hc
    · exact ih c hc
    · obtain rfl := List.mem_singleton.mp hc
      exact isDigit_digitChar (Nat.mod_lt n (by decide))

theorem digits_ne_nil (n : Nat) : digits n ≠ [] := by
  rw [digits]
  split <;> simp

/-- Zeros in front do not count. -/
theorem valueOf_zeros_append (n : Nat) (cs : List Char) :
    valueOf (Decimal.zeros n ++ cs) = valueOf cs := by
  induction n with
  | zero => rfl
  | succ n ih =>
    rw [Decimal.zeros, List.replicate_succ, List.cons_append]
    have hzero : digitValue? '0' = some 0 := by decide
    simpa [valueOf, hzero, Decimal.zeros] using ih

end KeyFigures.Text
