/-
  KeyFigures/Proofs/Decimal/Quantized.lean
  ========================================
  **Rounding to a fixed number of places.**

  A decimal with a given number of places is a whole number of units, and the
  one nearest to a decimal is found by rounding its size in these units, a half
  going away from zero (`IsNearest`).  `quantize_eq` says that this is what
  comes out, with the sign of the decimal, unless it has more digits than are
  kept; nothing is rounded on the way, so nothing is rounded twice.

  Taking the size of a decimal first does not change what is nearest to it
  (`exists_abs_eq`): a decimal of the working range is kept as it is, and one
  below all places of the working range stays far below one half.
-/
import KeyFigures.Proofs.Decimal.NormalForm

namespace KeyFigures.Decimal

/-! ### The nearest whole number, a half going away from zero -/

/-- The whole number nearest to a number that is not negative; of two that are
    equally near, the one farther from zero. -/
structure IsNearest (k : ℕ) (y : ℚ) : Prop where
  nearest : ∀ m : ℤ, |y - k| ≤ |y - m|
  away : ∀ m : ℤ, |y - m| = |y - k| → m ≤ k

theorem isNearest_iff {k : ℕ} {y : ℚ} : IsNearest k y ↔ (k : ℚ) - 1 / 2 ≤ y ∧ y < k + 1 / 2 := by
  constructor
  · intro h
    have hbelow := h.nearest (k - 1)
    have habove := h.nearest (k + 1)
    have htie := h.away (k + 1)
    push_cast at hbelow habove htie
    refine ⟨?_, ?_⟩
    · by_contra hlow
      rw [abs_of_neg (by linarith : y - k < 0)] at hbelow
      have hless : |y - (k - 1)| < -(y - k) := abs_lt.mpr ⟨by linarith, by linarith⟩
      linarith
    · by_contra hhigh
      rw [abs_of_nonneg (by linarith : 0 ≤ y - k)] at habove htie
      rcases eq_or_lt_of_le (not_lt.mp hhigh) with heq | hlt
      · have hupper : |y - (k + 1)| = y - k := by
          rw [abs_of_neg (by linarith)]
          linarith
        have := htie hupper
        omega
      · have hless : |y - (k + 1)| < y - k := abs_lt.mpr ⟨by linarith, by linarith⟩
        linarith
  · rintro ⟨hlow, hhigh⟩
    have hsize : |y - k| ≤ 1 / 2 := abs_le.mpr ⟨by linarith, by linarith⟩
    refine ⟨fun m => ?_, fun m hm => ?_⟩
    · rcases lt_trichotomy m k with hm | rfl | hm
      · have hcast : (m : ℚ) + 1 ≤ k := by exact_mod_cast hm
        rw [abs_of_nonneg (by linarith : 0 ≤ y - m)]
        exact hsize.trans (by linarith)
      · exact le_rfl
      · have hcast : (k : ℚ) + 1 ≤ m := by exact_mod_cast hm
        rw [abs_of_neg (by linarith : y - m < 0)]
        exact hsize.trans (by linarith)
    · by_contra hgt
      have hcast : (k : ℚ) + 1 ≤ m := by exact_mod_cast not_le.mp hgt
      rw [abs_of_neg (by linarith : y - m < 0)] at hm
      -- a number above is as near only at the half, which belongs to it
      have hfar : 1 / 2 < |y - k| := by
        rw [← hm]
        linarith
      linarith

namespace IsNearest

variable {k l : ℕ} {y : ℚ}

theorem unique (h : IsNearest k y) (h' : IsNearest l y) : k = l :=
  le_antisymm
    (by exact_mod_cast h'.away k (le_antisymm (h.nearest l) (by simpa using h'.nearest k)))
    (by exact_mod_cast h.away l (le_antisymm (by simpa using h'.nearest k) (h.nearest l)))

/-- Rounding does not pass a whole number. -/
theorem le_of_le (h : IsNearest k y) (hl : (l : ℚ) ≤ y) : l ≤ k := by
  have hhigh := (isNearest_iff.mp h).2
  have hlt : (l : ℚ) < k + 1 := by linarith
  have : l < k + 1 := by exact_mod_cast hlt
  omega

/-- Of all that are equally near none is larger, on either side of zero. -/
theorem abs_le_of_tie (h : IsNearest k y) (hy : 0 ≤ y) {m : ℤ} (hm : |y - m| = |y - k|) :
    |m| ≤ k := by
  refine abs_le.mpr ⟨?_, h.away m hm⟩
  by_contra hneg
  -- zero would be nearer than a number on the other side of it
  have hother : (m : ℚ) < 0 := by exact_mod_cast lt_of_lt_of_le (not_le.mp hneg) (by omega)
  have hzero := h.nearest 0
  rw [Int.cast_zero, sub_zero, abs_of_nonneg hy] at hzero
  rw [abs_of_pos (by linarith)] at hm
  linarith

end IsNearest

theorem exists_isNearest {y : ℚ} (hy : 0 ≤ y) : ∃ k, IsNearest k y := by
  refine ⟨⌊y + 1 / 2⌋₊, isNearest_iff.mpr ⟨?_, ?_⟩⟩
  · linarith [Nat.floor_le (by linarith : 0 ≤ y + 1 / 2)]
  · linarith [Nat.lt_floor_add_one (y + 1 / 2)]

theorem isNearest_zero {y : ℚ} (hy : 0 ≤ y) (hhalf : y < 1 / 2) : IsNearest 0 y :=
  isNearest_iff.mpr ⟨by push_cast; linarith, by push_cast; linarith⟩

theorem isNearest_natCast (k : ℕ) : IsNearest k k :=
  isNearest_iff.mpr ⟨by linarith, by linarith⟩

theorem roundQuotient_isNearest (n : Nat) {d : Nat} (hd : 0 < d) :
    IsNearest (roundQuotient .awayFromZero n d) ((n : ℚ) / d) := by
  have hdq : (0 : ℚ) < d := by exact_mod_cast hd
  have hdiv : (n : ℚ) = d * (n / d : ℕ) + (n % d : ℕ) := by exact_mod_cast (Nat.div_add_mod n d).symm
  have hrest : (n % d : ℕ) < (d : ℚ) := by exact_mod_cast Nat.mod_lt n hd
  have hnonneg : (0 : ℚ) ≤ (n % d : ℕ) := by positivity
  rw [isNearest_iff, le_div_iff₀ hdq, div_lt_iff₀ hdq, hdiv]
  unfold roundQuotient
  dsimp only
  split_ifs with hless hmore
  · have hlessq : (2 : ℚ) * (n % d : ℕ) < d := by exact_mod_cast hless
    constructor <;> nlinarith
  · have hmoreq : (d : ℚ) < 2 * (n % d : ℕ) := by exact_mod_cast hmore
    push_cast
    constructor <;> nlinarith
  · have hhalf : (2 : ℚ) * (n % d : ℕ) = d := by exact_mod_cast (by omega : 2 * (n % d) = d)
    push_cast
    constructor <;> nlinarith

/-- The coefficient at any exponent is the nearest one. -/
theorem coefficientAt_isNearest (c : Nat) (e target : Int) :
    IsNearest (coefficientAt .awayFromZero c e target) ((c : ℚ) * 10 ^ e / 10 ^ target) := by
  by_cases hle : target ≤ e
  · rw [← coefficientAt_mul hle, mul_div_assoc, div_self (ten_zpow_pos target).ne', mul_one]
    exact isNearest_natCast _
  · have hlt : e < target := not_le.mp hle
    rw [scaled_eq_div c hlt, coefficientAt_eq_roundQuotient .awayFromZero c hlt]
    exact roundQuotient_isNearest c (by positivity)

/-! ### Numbers of places -/

section Places

variable {n : Bool} {c k : Nat} {e : Int} {places : Nat}

/-- So many units can be written with the digits that are kept. -/
theorem roundFinite_units (hplaces : places ≤ precision) (hk : k < 10 ^ precision) :
    roundFinite n k (-places) = .ok (.finite n k (-places)) := by
  have hprecision : precision = 28 := rfl
  have hmin : minExponent = -1000026 := by decide
  have hmax : maxAdjusted = 999999 := rfl
  by_cases hzero : k = 0
  · have hclip : min (max (-(places : Int)) minExponent) maxAdjusted = -places := by omega
    rw [hzero, roundFinite, if_pos rfl, hclip]
  · have hdigits := (digitCount_le_iff hzero).mpr hk
    refine roundFinite_eq hzero hdigits (by omega) ?_
    unfold adjusted
    omega

/-- A number with more digits before its last place than are kept is so many
    units. -/
theorem le_of_adjusted (hc : c ≠ 0) (h : (precision : Int) < adjusted c e + places + 1) :
    ((10 ^ precision : ℕ) : ℚ) ≤ c * 10 ^ e / 10 ^ (-(places : ℤ)) := by
  rw [le_div_iff₀ (ten_zpow_pos _)]
  calc ((10 ^ precision : ℕ) : ℚ) * 10 ^ (-(places : ℤ))
      = 10 ^ ((precision : ℤ) + -(places : ℤ)) := by
        rw [zpow_add₀ (by norm_num), zpow_natCast]
        push_cast
        rfl
    _ ≤ 10 ^ adjusted c e := ten_zpow_le (by omega)
    _ ≤ c * 10 ^ e := by
        rw [← log_eq_adjusted hc]
        exact Int.zpow_log_le_self (by norm_num) (magnitude_pos hc e)

/-- **Rounding to a number of places gives the nearest number of units**, or is
    refused if that needs more digits than are kept. -/
theorem quantize_eq (hplaces : places ≤ precision) (hrange : c = 0 ∨ adjusted c e ≤ maxAdjusted)
    (hk : IsNearest k (c * 10 ^ e / 10 ^ (-(places : ℤ)))) :
    quantize .awayFromZero (.finite n c e) (-places) =
      if k < 10 ^ precision then .ok (.finite n k (-places)) else .error .invalid := by
  have hprecision : precision = 28 := rfl
  have hmin : minExponent = -1000026 := by decide
  have hmax : maxAdjusted = 999999 := rfl
  unfold quantize
  dsimp only
  rw [if_neg (by omega)]
  by_cases hzero : c = 0
  · obtain rfl : k = 0 := hk.unique (by
      rw [hzero, Nat.cast_zero, zero_mul, zero_div]
      exact_mod_cast isNearest_natCast 0)
    rw [if_pos hzero, if_pos (by positivity)]
    exact roundFinite_units hplaces (by positivity)
  · obtain hrange := hrange.resolve_left hzero
    rw [if_neg hzero]
    by_cases hlarge : (precision : Int) < adjusted c e + places + 1
    · have hmany : 10 ^ precision ≤ k := hk.le_of_le (le_of_adjusted hzero hlarge)
      rw [if_pos (.inr (by omega)), if_neg (not_lt.mpr hmany)]
    · rw [if_neg (by omega), (coefficientAt_isNearest c e (-places)).unique hk]
      by_cases hfits : k < 10 ^ precision
      · have hdigits : digitCount k ≤ precision := by
          by_cases hk0 : k = 0
          · simp [hk0, digitCount, precision]
          · exact (digitCount_le_iff hk0).mpr hfits
        rw [if_neg (by unfold adjusted; omega), if_pos hfits, roundFinite_units hplaces hfits]
      · have hk0 : k ≠ 0 := by
          rintro rfl
          exact hfits (by positivity)
        rw [if_neg hfits, if_pos (.inr (not_le.mp ((digitCount_le_iff hk0).not.mpr hfits)))]

/-- A number below all places of the working range is far below one half. -/
theorem lt_half_of_tiny (hk : k ≤ 10 ^ precision) {u : Int} (hu : u ≤ minExponent) :
    (k : ℚ) * 10 ^ u < 1 / 2 := by
  have hprecision : precision = 28 := rfl
  have hmin : minExponent = -1000026 := by decide
  have hkq : (k : ℚ) ≤ 10 ^ precision := by exact_mod_cast hk
  calc (k : ℚ) * 10 ^ u ≤ 10 ^ precision * 10 ^ u :=
        mul_le_mul_of_nonneg_right hkq (ten_zpow_pos u).le
    _ = 10 ^ ((precision : ℤ) + u) := by rw [zpow_add₀ (by norm_num), zpow_natCast]
    _ ≤ 10 ^ (-1 : ℤ) := ten_zpow_le (by omega)
    _ < 1 / 2 := by norm_num

/-- Taking the size of a number does not change what is nearest to it. -/
theorem exists_abs_eq (hdigits : digitCount c ≤ precision)
    (hrange : adjusted c e ≤ maxAdjusted) (n : Bool) :
    ∃ c' e', abs (.finite n c e) = .ok (.finite false c' e') ∧
      (c' = 0 ∨ adjusted c' e' ≤ maxAdjusted) ∧
      ∀ k, IsNearest k ((c : ℚ) * 10 ^ e) → IsNearest k ((c' : ℚ) * 10 ^ e') := by
  have hprecision : precision = 28 := rfl
  have hmin : minExponent = -1000026 := by decide
  have hmax : maxAdjusted = 999999 := rfl
  have hfull : maxFullExponent = maxAdjusted - 27 := by decide
  unfold abs
  by_cases hzero : c = 0
  · subst hzero
    exact ⟨0, _, if_pos rfl, .inl rfl, fun k hk => by simpa using hk⟩
  by_cases hlow : minExponent ≤ e
  · exact ⟨c, e, roundFinite_eq hzero hdigits hlow hrange, .inr hrange, fun k hk => hk⟩
  · -- the number and what it is rounded to are both next to nothing
    have hcount := digitCount_pos c
    have hc : c < 10 ^ precision := (digitCount_le_iff hzero).mp hdigits
    have hsmall := lt_half_of_tiny hc.le (not_le.mp hlow).le
    have hnothing : ∀ {c' : Nat} {e' : Int}, (c' : ℚ) * 10 ^ e' < 1 / 2 →
        ∀ k, IsNearest k ((c : ℚ) * 10 ^ e) → IsNearest k ((c' : ℚ) * 10 ^ e') := by
      intro c' e' hsmall' k hk
      have hten := ten_zpow_pos e
      have hten' := ten_zpow_pos e'
      obtain rfl := hk.unique (isNearest_zero (by positivity) hsmall)
      exact isNearest_zero (by positivity) hsmall'
    have hleast : max (e + digitCount c - precision) minExponent = minExponent := by omega
    have hle : coefficientAt .toEven c e minExponent ≤ 10 ^ precision :=
      coefficientAt_le (by omega) (by omega)
    unfold roundFinite
    simp only [if_neg hzero, hleast, if_neg hlow]
    rw [if_neg (by omega)]
    generalize coefficientAt .toEven c e minExponent = k at hle ⊢
    have hk := lt_half_of_tiny hle le_rfl
    by_cases hfits : digitCount k ≤ precision
    · rw [if_pos hfits]
      exact ⟨k, minExponent, rfl, .inr (by unfold adjusted; omega), hnothing hk⟩
    · rw [if_neg hfits, if_neg (by omega)]
      have hcarry : ((k / 10 : ℕ) : ℚ) * 10 ^ (minExponent + 1) ≤ k * 10 ^ minExponent := by
        have hdiv : ((k / 10 : ℕ) : ℚ) * 10 ≤ k := by exact_mod_cast Nat.div_mul_le_self k 10
        calc ((k / 10 : ℕ) : ℚ) * 10 ^ (minExponent + 1)
            = (k / 10 : ℕ) * 10 * 10 ^ minExponent := by
              rw [zpow_add₀ (by norm_num), zpow_one]
              ring
          _ ≤ k * 10 ^ minExponent := mul_le_mul_of_nonneg_right hdiv (ten_zpow_pos _).le
      refine ⟨k / 10, minExponent + 1, rfl, ?_, hnothing (lt_of_le_of_lt hcarry hk)⟩
      by_cases hk10 : k / 10 = 0
      · exact .inl hk10
      · have hlt : k / 10 < 10 ^ precision := by omega
        have := (digitCount_le_iff hk10).mpr hlt
        exact .inr (by unfold adjusted; omega)

end Places

end KeyFigures.Decimal
