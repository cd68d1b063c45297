/-
  KeyFigures/Proofs/Decimal/Exact.lean
  ====================================
  **When the working range changes nothing.**

  A number is representable if it can be written with the digits that the
  working range keeps and within its bounds.  Rounding leaves such a number
  alone, so an operation whose exact result is representable has a result that
  denotes it (`Denotes.add` and its companions), however the operands were
  written.

  How the result is written is another matter.  On a grid, where every number
  is so many units of a power of ten and small enough, sums keep every digit:
  their exponent is the smallest of all exponents that took part, and so the
  sum itself is known, not only what it denotes (`Counts.add`).
-/
import KeyFigures.Proofs.Decimal.NormalForm

namespace KeyFigures.Decimal

/-! ### Representable numbers -/

/-- Some decimal within the working range denotes the number. -/
def IsRepresentable (x : ℚ) : Prop :=
  ∃ n c e, digitCount c ≤ precision ∧ minExponent ≤ e ∧ adjusted c e ≤ maxAdjusted ∧
    toRat (.finite n c e) = x

theorem isRepresentable_zero : IsRepresentable 0 :=
  ⟨false, 0, 0, by simp [digitCount, precision], by decide, by simp [adjusted, digitCount, maxAdjusted],
    toRat_zero_coefficient false 0⟩

/-- So many units of a power of ten are representable if they have no more
    digits than are kept. -/
theorem isRepresentable_units {k : ℤ} {p : Int} (hlow : minExponent ≤ p) (hhigh : p ≤ 0)
    (h : k.natAbs < 10 ^ precision) : IsRepresentable (k * 10 ^ p) := by
  by_cases hzero : k.natAbs = 0
  · rw [Int.natAbs_eq_zero.mp hzero, Int.cast_zero, zero_mul]
    exact isRepresentable_zero
  · have hdigits := (digitCount_le_iff hzero).mpr h
    have hprecision : precision = 28 := rfl
    have hmax : maxAdjusted = 999999 := rfl
    refine ⟨decide (k < 0), k.natAbs, p, hdigits, hlow, ?_, toRat_natAbs k p⟩
    unfold adjusted
    omega

/-- A whole number of not too many digits is representable. -/
theorem isRepresentable_intCast {k : ℤ} (h : k.natAbs < 10 ^ precision) : IsRepresentable k := by
  simpa using isRepresentable_units (p := 0) (by decide) le_rfl h

theorem IsRepresentable.rounded_eq {x : ℚ} (h : IsRepresentable x) : rounded x = .ok x := by
  obtain ⟨n, c, e, hdigits, hlow, hhigh, rfl⟩ := h
  exact isExact_of_digits hdigits hlow hhigh

/-- The decimal is finite and denotes the number. -/
structure Denotes (d : Decimal) (x : ℚ) : Prop where
  isFinite : d.isFinite = true
  toRat_eq : d.toRat = x

theorem denotes_toRat {d : Decimal} (h : d.isFinite) : d.Denotes d.toRat := ⟨h, rfl⟩

/-- A representable number comes out of rounding as it went in. -/
theorem Rounds.exists_denotes {r : Except Fault Decimal} {x : ℚ} (h : Rounds r x)
    (hx : IsRepresentable x) : ∃ d, r = .ok d ∧ d.Denotes x := by
  have hmap := h.map_toRat
  rw [hx.rounded_eq] at hmap
  cases hr : r with
  | error f =>
    rw [hr] at hmap
    cases hmap
  | ok d =>
    rw [hr] at hmap
    exact ⟨d, rfl, h.isFinite d hr, Except.ok.inj hmap⟩

namespace Denotes

variable {d d' : Decimal} {x y : ℚ}

theorem exists_eq (h : d.Denotes x) : ∃ n c e, d = .finite n c e ∧ toRat (.finite n c e) = x := by
  cases d with
  | finite n c e => exact ⟨n, c, e, rfl, h.toRat_eq⟩
  | infinite n => cases h.isFinite
  | nan n s p => cases h.isFinite

theorem agrees (h : d.Denotes x) (h' : d'.Denotes x) : Agrees d d' :=
  .of_toRat_eq h.isFinite h'.isFinite (h.toRat_eq.trans h'.toRat_eq.symm)

theorem add (hd : d.Denotes x) (hd' : d'.Denotes y) (h : IsRepresentable (x + y)) :
    ∃ s, d.add d' = .ok s ∧ s.Denotes (x + y) := by
  obtain ⟨n, c, e, rfl, rfl⟩ := hd.exists_eq
  obtain ⟨n', c', e', rfl, rfl⟩ := hd'.exists_eq
  exact add_rounds.exists_denotes h

theorem sub (hd : d.Denotes x) (hd' : d'.Denotes y) (h : IsRepresentable (x - y)) :
    ∃ s, d.sub d' = .ok s ∧ s.Denotes (x - y) := by
  obtain ⟨n, c, e, rfl, rfl⟩ := hd.exists_eq
  obtain ⟨n', c', e', rfl, rfl⟩ := hd'.exists_eq
  exact sub_rounds.exists_denotes h

theorem mul (hd : d.Denotes x) (hd' : d'.Denotes y) (h : IsRepresentable (x * y)) :
    ∃ s, d.mul d' = .ok s ∧ s.Denotes (x * y) := by
  obtain ⟨n, c, e, rfl, rfl⟩ := hd.exists_eq
  obtain ⟨n', c', e', rfl, rfl⟩ := hd'.exists_eq
  exact mul_rounds.exists_denotes h

theorem div (hd : d.Denotes x) (hd' : d'.Denotes y) (hy : y ≠ 0) (h : IsRepresentable (x / y)) :
    ∃ s, d.div d' = .ok s ∧ s.Denotes (x / y) := by
  obtain ⟨n, c, e, rfl, rfl⟩ := hd.exists_eq
  obtain ⟨n', c', e', rfl, rfl⟩ := hd'.exists_eq
  exact (div_rounds (toRat_eq_zero_iff.not.mp hy)).exists_denotes h

/-- Whether a number equals zero is a matter of what it denotes. -/
theorem equalValue_zero (h : d.Denotes x) : d.equalValue .zero = .ok (decide (x = 0)) := by
  obtain ⟨n, c, e, rfl, rfl⟩ := h.exists_eq
  rw [equalValue_zero_finite, Except.ok.injEq, Bool.eq_iff_iff, beq_iff_eq, decide_eq_true_iff,
    toRat_eq_zero_iff]

end Denotes

/-! ### Sums that keep every digit -/

/-- A sum is no larger than the sizes of its parts together. -/
theorem abs_sum_map_le {α : Type} (f : α → ℚ) (items : List α) :
    |(items.map f).sum| ≤ (items.map fun a => |f a|).sum := by
  have h := Multiset.abs_sum_le_sum_abs (s := (items.map f : Multiset ℚ))
  simpa [Function.comp_def] using h

theorem sum_abs_map_le {α : Type} (f : α → ℚ) {part items : List α} (h : part.Sublist items) :
    (part.map fun a => |f a|).sum ≤ (items.map fun a => |f a|).sum := by
  refine (h.map _).sum_le_sum fun x hx => ?_
  obtain ⟨a, -, rfl⟩ := List.mem_map.mp hx
  exact abs_nonneg _

/-- The exponent that a decimal is written with. -/
def exponent : Decimal → Int
  | .finite _ _ e => e
  | .infinite _ | .nan .. => 0

/-- The decimal is the number, counted in units of `10 ^ e`; a zero is
    positive. -/
def Counts (d : Decimal) (x : ℚ) (e : Int) : Prop :=
  ∃ n : ℤ, d = .finite (decide (n < 0)) n.natAbs e ∧ n * (10 : ℚ) ^ e = x

theorem counts_zero : Counts .zero 0 0 := ⟨0, rfl, by simp⟩

/-- There is one way to count a number in given units. -/
theorem Counts.unique {d d' : Decimal} {x : ℚ} {e : Int} (h : d.Counts x e) (h' : d'.Counts x e) :
    d = d' := by
  obtain ⟨n, rfl, hn⟩ := h
  obtain ⟨n', rfl, hn'⟩ := h'
  have heq : (n : ℚ) = n' := mul_right_cancel₀ (ten_zpow_pos e).ne' (hn.trans hn'.symm)
  obtain rfl : n = n' := by exact_mod_cast heq
  rfl

/-- Numbers on a grid: small enough for so many units of `10 ^ p`, or of a larger
    power of ten, to be written with the digits that are kept. -/
def Fits (p : Int) (x : ℚ) : Prop := |x| < 10 ^ (p + precision)

/-- A number that fits the grid and is so many of its units is representable. -/
theorem isRepresentable_of_fits {k : ℤ} {p : Int} (hlow : minExponent ≤ p) (hhigh : p ≤ 0)
    (h : Fits p (k * 10 ^ p)) : IsRepresentable (k * 10 ^ p) := by
  refine isRepresentable_units hlow hhigh ?_
  have hten := ten_zpow_pos p
  unfold Fits at h
  rw [abs_mul, abs_of_pos hten, zpow_add₀ (by norm_num), mul_comm, mul_lt_mul_iff_right₀ hten,
    zpow_natCast] at h
  rw [← Int.cast_abs, Int.abs_eq_natAbs] at h
  exact_mod_cast h

/-- A decimal is so many units of every smaller power of ten. -/
theorem Denotes.exists_units {d : Decimal} {x : ℚ} (h : d.Denotes x) {p : Int}
    (hp : p ≤ d.exponent) : ∃ k : ℤ, x = k * 10 ^ p := by
  obtain ⟨n, c, e, rfl, rfl⟩ := h.exists_eq
  refine ⟨signed n c * 10 ^ (e - p).toNat, ?_⟩
  have hsplit : e = ((e - p).toNat : ℤ) + p := by
    have hle : p ≤ e := hp
    omega
  rw [toRat_finite]
  conv_lhs => rw [hsplit, zpow_add₀ (by norm_num), zpow_natCast]
  push_cast
  rw [signed_eq_mul]
  ring

section Grid

variable {p e e₁ e₂ : Int} {n n₁ n₂ : Bool} {c c₁ c₂ : Nat}

/-- A number on the grid has no digit above the first one that is kept. -/
theorem adjusted_lt_of_fits (hc : c ≠ 0) (h : Fits p (toRat (.finite n c e))) :
    adjusted c e < p + precision := by
  unfold Fits at h
  rw [abs_toRat] at h
  rw [← log_eq_adjusted hc]
  exact (Int.lt_zpow_iff_log_lt (by norm_num) (magnitude_pos hc e)).mp (by exact_mod_cast h)

/-- Rounding leaves so many units alone. -/
theorem roundFinite_counts {x : ℚ} {k : ℤ} (hlow : minExponent ≤ p) (hp : p ≤ e) (he : e ≤ 0)
    (hx : Fits p x) (hk : k * (10 : ℚ) ^ e = x) :
    ∃ d, roundFinite (decide (k < 0)) k.natAbs e = .ok d ∧ d.Counts x e := by
  refine ⟨.finite (decide (k < 0)) k.natAbs e, ?_, k, rfl, hk⟩
  have hmax : maxAdjusted = 999999 := rfl
  have hprecision : precision = 28 := rfl
  by_cases hzero : k.natAbs = 0
  · have hclip : min (max e minExponent) maxAdjusted = e := by omega
    rw [hzero, roundFinite, if_pos rfl, hclip]
  · rw [← hk, ← toRat_natAbs] at hx
    have hadjusted := adjusted_lt_of_fits hzero hx
    have hdigits : digitCount k.natAbs ≤ precision := by
      unfold adjusted at hadjusted
      omega
    exact roundFinite_eq hzero hdigits (by omega) (by omega)

/-- Two numbers on the grid are added without loss, in units of the smaller one
    of their exponents. -/
theorem addFinite_counts (hlow : minExponent ≤ p) (hp₁ : p ≤ e₁) (hp₂ : p ≤ e₂) (he : e₁ ≤ 0)
    (hn₁ : c₁ = 0 → n₁ = false) (hfit₁ : Fits p (toRat (.finite n₁ c₁ e₁)))
    (hfit₂ : Fits p (toRat (.finite n₂ c₂ e₂)))
    (hfit : Fits p (toRat (.finite n₁ c₁ e₁) + toRat (.finite n₂ c₂ e₂))) :
    ∃ d, addFinite n₁ c₁ e₁ n₂ c₂ e₂ = .ok d ∧
      d.Counts (toRat (.finite n₁ c₁ e₁) + toRat (.finite n₂ c₂ e₂)) (min e₁ e₂) := by
  have hprecision : precision = 28 := rfl
  have hrange : p ≤ min e₁ e₂ ∧ min e₁ e₂ ≤ 0 := by omega
  -- A number that stands alone, written with the smaller exponent.
  have halone : ∀ {n c e}, c ≠ 0 → min e₁ e₂ ≤ e → Fits p (toRat (.finite n c e)) →
      ∃ d, roundFinite n (coefficientAt .toEven c e (max (min e₁ e₂) (e - precision - 1)))
        (max (min e₁ e₂) (e - precision - 1)) = .ok d ∧
        d.Counts (toRat (.finite n c e)) (min e₁ e₂) := by
    intro n c e hc hle hfits
    have hadjusted := adjusted_lt_of_fits hc hfits
    have hcount := digitCount_pos c
    have hmax : max (min e₁ e₂) (e - precision - 1) = min e₁ e₂ := by
      unfold adjusted at hadjusted
      omega
    rw [hmax]
    have hvalue : (coefficientAt .toEven c e (min e₁ e₂) : ℚ) * 10 ^ min e₁ e₂ = c * 10 ^ e :=
      coefficientAt_mul hle
    have hne : coefficientAt .toEven c e (min e₁ e₂) ≠ 0 := by
      intro h
      rw [h] at hvalue
      exact (magnitude_pos hc e).ne' (by simpa using hvalue.symm)
    generalize coefficientAt .toEven c e (min e₁ e₂) = k at hvalue hne ⊢
    have hsign : decide (signed n k < 0) = n ∧ (signed n k).natAbs = k := by
      cases n with
      | false => simp [signed]
      | true => simp [signed]; omega
    have hround := roundFinite_counts (k := signed n k) hlow hrange.1 hrange.2 hfits (by
      rw [signed_eq_mul, mul_assoc, hvalue, toRat_finite])
    rwa [hsign.1, hsign.2] at hround
  unfold addFinite
  by_cases h₁ : c₁ = 0
  · obtain rfl := hn₁ h₁
    subst h₁
    by_cases h₂ : c₂ = 0
    · subst h₂
      have hround := roundFinite_counts (k := 0) hlow hrange.1 hrange.2 hfit
        (by simp [toRat_zero_coefficient])
      simpa using hround
    · simp only [h₂, and_false, if_false, if_true, toRat_zero_coefficient, zero_add]
      exact halone h₂ (min_le_right _ _) hfit₂
  by_cases h₂ : c₂ = 0
  · subst h₂
    simp only [h₁, false_and, if_false, if_true, toRat_zero_coefficient, add_zero]
    exact halone h₁ (min_le_left _ _) hfit₁
  simp only [h₁, h₂, false_and, if_false]
  have hadjusted₁ := adjusted_lt_of_fits h₁ hfit₁
  have hadjusted₂ := adjusted_lt_of_fits h₂ hfit₂
  have hcount₁ := digitCount_pos c₁
  have hcount₂ := digitCount_pos c₂
  unfold adjusted at hadjusted₁ hadjusted₂
  -- Neither is too small to show beside the other.
  have haligned : ∃ k : ℤ, (if e₂ ≤ e₁ then sumAligned n₁ c₁ e₁ n₂ c₂ e₂
        else sumAligned n₂ c₂ e₂ n₁ c₁ e₁) = (k, min e₁ e₂) ∧
      k * (10 : ℚ) ^ min e₁ e₂ = toRat (.finite n₁ c₁ e₁) + toRat (.finite n₂ c₂ e₂) := by
    by_cases hle : e₂ ≤ e₁
    · obtain ⟨hexponent, hsum⟩ := sumAligned_of_near n₁ c₁ n₂ c₂ hle (by omega)
      rw [if_pos hle, min_eq_right hle]
      exact ⟨_, Prod.ext rfl hexponent, hsum⟩
    · obtain ⟨hexponent, hsum⟩ := sumAligned_of_near n₂ c₂ n₁ c₁ (le_of_not_ge hle)
        (by omega)
      rw [if_neg hle, min_eq_left (by omega), add_comm]
      exact ⟨_, Prod.ext rfl hexponent, hsum⟩
  obtain ⟨k, hsum, hk⟩ := haligned
  rw [hsum]
  dsimp only
  have hround := roundFinite_counts hlow hrange.1 hrange.2 hfit hk
  by_cases hzero : k = 0
  · rw [if_pos hzero]
    rwa [hzero] at hround
  · rwa [if_neg hzero]

end Grid

/-- Adding a number on the grid to such a sum keeps every digit. -/
theorem Counts.add {p e : Int} {s d : Decimal} {x : ℚ} (hs : s.Counts x e) (hd : d.isFinite)
    (hlow : minExponent ≤ p) (hp : p ≤ e) (hpd : p ≤ d.exponent) (he : e ≤ 0) (hx : Fits p x)
    (hfits : Fits p d.toRat) (hsum : Fits p (x + d.toRat)) :
    ∃ s', s.add d = .ok s' ∧ s'.Counts (x + d.toRat) (min e d.exponent) := by
  obtain ⟨n, c, e', rfl, -⟩ := (denotes_toRat hd).exists_eq
  obtain ⟨k, rfl, rfl⟩ := hs
  rw [← toRat_natAbs] at hx hsum ⊢
  refine addFinite_counts hlow hp hpd he ?_ hx hfits hsum
  intro hzero
  rw [Int.natAbs_eq_zero.mp hzero]
  rfl

end KeyFigures.Decimal
