/-
  KeyFigures/Proofs/Decimal/Arithmetic.lean
  =========================================
  **Every operation computes the exact result and rounds it once.**

  For finite operands the sum, the difference, the product and the quotient are
  the rounded sum, difference, product and quotient of the numbers that the
  operands denote (`add_rounds`, `sub_rounds`, `mul_rounds`, `div_rounds`).

  Two of them do not go by the exact result.  A summand that cannot show is
  replaced by one unit below every digit that matters, and a quotient without
  end is cut off with a last digit that is neither zero nor five.  Either way
  the number stays between the same two neighbouring multiples of half a unit,
  and that is all that rounding sees.
-/
import KeyFigures.Proofs.Decimal.Rounding

namespace KeyFigures.Decimal

/-! ### Sums -/

/-- Written with a smaller exponent a number stays the same. -/
theorem coefficientAt_mul {tie : Tie} {c : Nat} {e target : Int} (h : target ≤ e) :
    (coefficientAt tie c e target : ℚ) * 10 ^ target = c * 10 ^ e := by
  unfold coefficientAt
  rw [if_pos h]
  by_cases hc : c = 0
  · simp [hc]
  · have hsplit : e = ((e - target).toNat : ℤ) + target := by omega
    conv_rhs => rw [hsplit]
    rw [if_neg hc, zpow_add₀ (by norm_num), zpow_natCast]
    push_cast [Nat.pow_eq]
    ring

theorem ten_zpow_eq_ten_mul (p : ℤ) : (10 : ℚ) ^ p = 10 * 10 ^ (p - 1) := by
  rw [← zpow_one_add₀ (by norm_num)]
  congr 1
  ring

/-- A number between two multiples of a power of ten below half its unit is
    rounded like any other between them. -/
theorem roundMagnitude_eq_of_between_tens {x y : ℚ} {u s : ℤ} {m : ℕ} (hu : unitExponent x = u)
    (hs : s < u) (hx : Between (10 ^ s) m x) (hy : Between (10 ^ s) m y) :
    roundMagnitude x = roundMagnitude y := by
  obtain ⟨k, -, hk⟩ := exists_ten_zpow_eq (Int.le_sub_one_of_lt hs)
  apply roundMagnitude_eq_of_between (b := 5 * k) (ten_zpow_pos s) hx hy
  rw [hu, ten_zpow_eq_ten_mul u, hk]
  push_cast
  ring

/-- Of a positive number and a smaller one far below its digits, only that there
    is something to be added matters. -/
theorem roundMagnitude_add_faint {c : Nat} (hc : c ≠ 0) {e f : Int} (hstep : f < e)
    (hfar : f ≤ adjusted c e - 29) {z z' : ℚ} (hz : 0 < z ∧ z ≤ 10 ^ f)
    (hz' : 0 < z' ∧ z' ≤ 10 ^ f) :
    roundMagnitude (c * 10 ^ e + z) = roundMagnitude (c * 10 ^ e + z') := by
  have hlog : adjusted c e ≤ Int.log 10 (c * 10 ^ e + z) := by
    rw [← log_eq_adjusted hc e]
    exact Int.log_mono_right (magnitude_pos hc e) (by linarith [hz.1])
  have hprecision : precision = 28 := rfl
  -- a step that goes into the larger number and into half a unit
  obtain ⟨n, -, hn⟩ := exists_ten_zpow_eq (a := f + 1) (b := e) (by omega)
  have hsmall : (10 : ℚ) ^ f < 10 ^ (f + 1) := ten_zpow_lt (by omega)
  have hmul : (c : ℚ) * 10 ^ e = ((c * n : ℕ) : ℚ) * 10 ^ (f + 1) := by
    rw [hn]
    push_cast
    ring
  have hbetween : ∀ y, 0 < y ∧ y ≤ 10 ^ f → Between (10 ^ (f + 1)) (c * n) (c * 10 ^ e + y) := by
    intro y hy
    constructor
    · rw [← hmul]
      linarith [hy.1]
    · rw [add_mul, ← hmul]
      linarith [hy.2]
  apply roundMagnitude_eq_of_between_tens rfl _ (hbetween z hz) (hbetween z' hz')
  unfold unitExponent
  omega

/-- What is taken from a power of ten leaves a number with one digit less. -/
theorem roundMagnitude_sub_faint_of_power {p f : Int} (hfar : f ≤ p - 29) {z z' : ℚ}
    (hz : 0 < z ∧ z ≤ 10 ^ f) (hz' : 0 < z' ∧ z' ≤ 10 ^ f) :
    roundMagnitude (10 ^ p - z) = roundMagnitude (10 ^ p - z') := by
  have hprecision : precision = 28 := rfl
  have hsmall : (10 : ℚ) ^ f < 10 ^ (p - 1) := ten_zpow_lt (by omega)
  have htens := ten_zpow_eq_ten_mul p
  have hpos := ten_zpow_pos f
  have hlog : p - 1 ≤ Int.log 10 (10 ^ p - z) := by
    apply (Int.zpow_le_iff_le_log (by norm_num) _).mp
    · push_cast
      linarith [hz.2]
    · linarith [hz.2]
  -- half a unit below the power of ten there is room for both
  have hstep : (10 : ℚ) ^ (p - 28) = 2 * (10 ^ (p - 28) / 2) := by ring
  have hhalf : (10 : ℚ) ^ f < 10 ^ (p - 28) / 2 := by
    have hle : (10 : ℚ) ^ f ≤ 10 ^ (p - 28 - 1) := ten_zpow_le (by omega)
    have := ten_zpow_eq_ten_mul (p - 28)
    linarith
  obtain ⟨n, hn, hmul⟩ := exists_ten_zpow_eq (a := p - 28) (b := p) (by omega)
  have hcast : (((2 * n - 1 : ℕ) : ℚ)) = 2 * n - 1 := by
    rw [Nat.cast_sub (by omega)]
    push_cast
    ring
  have hbetween : ∀ y : ℚ, 0 < y ∧ y ≤ 10 ^ f →
      Between (10 ^ (p - 28) / 2) (2 * n - 1) (10 ^ p - y) := by
    intro y hy
    constructor
    · rw [hcast, hmul]
      linarith [hy.2]
    · rw [hcast, hmul]
      linarith [hy.1]
  obtain ⟨k, -, hk⟩ := exists_ten_zpow_eq (a := p - 28) (b := unitExponent (10 ^ p - z))
    (by unfold unitExponent; omega)
  apply roundMagnitude_eq_of_between (b := k) (by linarith) (hbetween z hz) (hbetween z' hz')
  rw [hk]
  ring

/-- The same for what is taken away. -/
theorem roundMagnitude_sub_faint {c : Nat} (hc : c ≠ 0) {e f : Int} (hstep : f < e)
    (hfar : f ≤ adjusted c e - 29) {z z' : ℚ} (hz : 0 < z ∧ z ≤ 10 ^ f)
    (hz' : 0 < z' ∧ z' ≤ 10 ^ f) :
    roundMagnitude (c * 10 ^ e - z) = roundMagnitude (c * 10 ^ e - z') := by
  have hcount := digitCount_pos c
  have hprecision : precision = 28 := rfl
  rcases (ten_pow_le_of_digitCount hc).eq_or_lt with hpower | hlarger
  · have hten : (c : ℚ) * 10 ^ e = 10 ^ adjusted c e := by
      have hexp : adjusted c e = ((digitCount c - 1 : ℕ) : ℤ) + e := by
        unfold adjusted
        omega
      have hcast : (c : ℚ) = 10 ^ (digitCount c - 1) := by exact_mod_cast hpower.symm
      rw [hexp, zpow_add₀ (by norm_num), zpow_natCast, ← hcast]
    rw [hten]
    exact roundMagnitude_sub_faint_of_power hfar hz hz'
  · have hsmall : (10 : ℚ) ^ f < 10 ^ (f + 1) := ten_zpow_lt (by omega)
    obtain ⟨n, hn, hmul⟩ := exists_ten_zpow_eq (a := f + 1) (b := e) (by omega)
    have hcn : 0 < c * n := Nat.mul_pos (Nat.pos_of_ne_zero hc) hn
    have hvalue : (c : ℚ) * 10 ^ e = ((c * n : ℕ) : ℚ) * 10 ^ (f + 1) := by
      rw [hmul]
      push_cast
      ring
    have hcast : ((c * n - 1 : ℕ) : ℚ) = ((c * n : ℕ) : ℚ) - 1 := by
      rw [Nat.cast_sub hcn]
      rfl
    have hbetween : ∀ y : ℚ, 0 < y ∧ y ≤ 10 ^ f →
        Between (10 ^ (f + 1)) (c * n - 1) (c * 10 ^ e - y) := by
      intro y hy
      constructor
      · rw [hcast, sub_mul, ← hvalue]
        linarith [hy.2]
      · rw [hcast, sub_add_cancel, ← hvalue]
        linarith [hy.1]
    -- the leading digit stays where it is
    have hlog : adjusted c e ≤ Int.log 10 (c * 10 ^ e - z) := by
      have hle : (10 : ℚ) ^ adjusted c e ≤ c * 10 ^ e - z := by
        have hexp : adjusted c e = ((digitCount c - 1 : ℕ) : ℤ) + e := by
          unfold adjusted
          omega
        have hnext : (10 : ℚ) ^ (digitCount c - 1) + 1 ≤ c := by exact_mod_cast hlarger
        have hmore := mul_le_mul_of_nonneg_right hnext (ten_zpow_pos e).le
        have hlt : (10 : ℚ) ^ f < 10 ^ e := ten_zpow_lt hstep
        rw [hexp, zpow_add₀ (by norm_num), zpow_natCast]
        linarith [hz.2]
      have hpos := lt_of_lt_of_le (ten_zpow_pos _) hle
      apply (Int.zpow_le_iff_le_log (by norm_num) hpos).mp
      push_cast
      exact hle
    apply roundMagnitude_eq_of_between_tens rfl _ (hbetween z hz) (hbetween z' hz')
    unfold unitExponent
    omega

/-- A summand too small to show may be replaced by another such one of the same
    sign. -/
theorem rounded_add_faint {c : Nat} (hc : c ≠ 0) {e f : Int} (hstep : f < e)
    (hfar : f ≤ adjusted c e - 29) {z z' : ℚ} (hz : 0 < z ∧ z ≤ 10 ^ f)
    (hz' : 0 < z' ∧ z' ≤ 10 ^ f) (n₁ n₂ : Bool) :
    rounded ((if n₁ then -1 else 1) * (c * 10 ^ e) + (if n₂ then -1 else 1) * z) =
      rounded ((if n₁ then -1 else 1) * (c * 10 ^ e) + (if n₂ then -1 else 1) * z') := by
  have hone : (1 : ℚ) ≤ c := by exact_mod_cast Nat.pos_of_ne_zero hc
  have hlarge : (10 : ℚ) ^ f < c * 10 ^ e := by
    have hmul := mul_le_mul_of_nonneg_right hone (ten_zpow_pos e).le
    have hlt : (10 : ℚ) ^ f < 10 ^ e := ten_zpow_lt hstep
    linarith
  have hadd : rounded (c * 10 ^ e + z) = rounded (c * 10 ^ e + z') := by
    rw [rounded, rounded, if_neg (by linarith [hz.1]), if_neg (by linarith [hz'.1])]
    exact roundMagnitude_add_faint hc hstep hfar hz hz'
  have hsub : rounded (c * 10 ^ e - z) = rounded (c * 10 ^ e - z') := by
    rw [rounded, rounded, if_neg (by linarith [hz.2]), if_neg (by linarith [hz'.2])]
    exact roundMagnitude_sub_faint hc hstep hfar hz hz'
  have hflip : ∀ a b : ℚ, -a + b = -(a - b) := fun a b => by ring
  have hboth : ∀ a b : ℚ, -a + -b = -(a + b) := fun a b => by ring
  cases n₁ <;> cases n₂ <;>
    simp only [Bool.false_eq_true, if_true, if_false, one_mul, neg_one_mul, ← sub_eq_add_neg]
  · exact hadd
  · exact hsub
  · rw [hflip, hflip, rounded_neg, rounded_neg, hsub]
  · rw [sub_eq_add_neg, sub_eq_add_neg, hboth, hboth, rounded_neg, rounded_neg, hadd]

theorem lt_ten_zpow_adjusted (c : Nat) (e : Int) : (c : ℚ) * 10 ^ e < 10 ^ (adjusted c e + 1) := by
  have hcount : (c : ℚ) < 10 ^ digitCount c := by exact_mod_cast lt_ten_pow_digitCount c
  have hexp : adjusted c e + 1 = digitCount c + e := by
    unfold adjusted
    omega
  rw [hexp, zpow_add₀ (by norm_num), zpow_natCast]
  exact mul_lt_mul_of_pos_right hcount (ten_zpow_pos e)

theorem signed_eq_mul (n : Bool) (c : Nat) : ((signed n c : ℤ) : ℚ) = (if n then -1 else 1) * c := by
  cases n <;> simp [signed]

/-- Summands that can both show are aligned without loss. -/
theorem sumAligned_of_near (n₁ : Bool) (c₁ : Nat) (n₂ : Bool) (c₂ : Nat) {e₁ e₂ : Int}
    (he : e₂ ≤ e₁)
    (hnear : ¬e₂ + digitCount c₂ - 1 < e₁ + min (-1) ((digitCount c₁ : Int) - precision - 2)) :
    (sumAligned n₁ c₁ e₁ n₂ c₂ e₂).2 = e₂ ∧
      ((sumAligned n₁ c₁ e₁ n₂ c₂ e₂).1 : ℚ) * 10 ^ e₂ =
        toRat (.finite n₁ c₁ e₁) + toRat (.finite n₂ c₂ e₂) := by
  simp only [sumAligned, faint, if_neg hnear, true_and]
  push_cast
  rw [signed_eq_mul, signed_eq_mul, toRat_finite, toRat_finite, add_mul, mul_assoc,
    coefficientAt_mul he]
  ring

/-- The aligned sum is rounded like the sum of the two numbers. -/
theorem rounded_sumAligned (n₁ n₂ : Bool) {c₁ c₂ : Nat} (h₁ : c₁ ≠ 0) (h₂ : c₂ ≠ 0) {e₁ e₂ : Int}
    (he : e₂ ≤ e₁) :
    rounded ((sumAligned n₁ c₁ e₁ n₂ c₂ e₂).1 * 10 ^ (sumAligned n₁ c₁ e₁ n₂ c₂ e₂).2) =
      rounded (toRat (.finite n₁ c₁ e₁) + toRat (.finite n₂ c₂ e₂)) := by
  have hprecision : precision = 28 := rfl
  by_cases hsmall : e₂ + digitCount c₂ - 1 <
      e₁ + min (-1) ((digitCount c₁ : Int) - precision - 2)
  · rw [toRat_finite, toRat_finite]
    obtain ⟨f, hf⟩ : ∃ f, e₁ + min (-1) ((digitCount c₁ : Int) - precision - 2) = f := ⟨_, rfl⟩
    have hvalue : ((sumAligned n₁ c₁ e₁ n₂ c₂ e₂).1 : ℚ) * 10 ^ (sumAligned n₁ c₁ e₁ n₂ c₂ e₂).2 =
        (if n₁ then -1 else 1) * (c₁ * 10 ^ e₁) + (if n₂ then -1 else 1) * 10 ^ f := by
      simp only [sumAligned, faint, if_pos hsmall]
      rw [hf]
      push_cast
      rw [signed_eq_mul, signed_eq_mul, add_mul, mul_assoc, coefficientAt_mul (by omega)]
      push_cast
      ring
    have hfaint : (c₂ : ℚ) * 10 ^ e₂ ≤ 10 ^ f := by
      have hlt := lt_ten_zpow_adjusted c₂ e₂
      have hle : (10 : ℚ) ^ (adjusted c₂ e₂ + 1) ≤ 10 ^ f :=
        ten_zpow_le (by unfold adjusted; omega)
      linarith
    rw [hvalue]
    apply rounded_add_faint h₁ (f := f) (by omega) _ ⟨ten_zpow_pos f, le_rfl⟩
      ⟨magnitude_pos h₂ e₂, hfaint⟩
    unfold adjusted
    omega
  · obtain ⟨hexponent, hsum⟩ := sumAligned_of_near n₁ _ n₂ _ he hsmall
    rw [hexponent, hsum]

/-- So many units of a power of ten, their sign apart. -/
theorem toRat_natAbs (n : ℤ) (e : Int) :
    toRat (.finite (decide (n < 0)) n.natAbs e) = n * 10 ^ e := by
  have hsigned : signed (decide (n < 0)) n.natAbs = n := by
    unfold signed
    by_cases hn : n < 0
    · simp only [hn, decide_true, if_true]
      omega
    · simp only [hn, decide_false, Bool.false_eq_true, if_false]
      omega
  show (signed (decide (n < 0)) n.natAbs : ℚ) * 10 ^ e = n * 10 ^ e
  rw [hsigned]

theorem roundFinite_rounds_int (n : ℤ) (e : Int) :
    Rounds (roundFinite (decide (n < 0)) n.natAbs e) (n * 10 ^ e) := by
  have := roundFinite_rounds (decide (n < 0)) n.natAbs e
  rwa [toRat_natAbs] at this

theorem toRat_zero_coefficient (n : Bool) (e : Int) : toRat (.finite n 0 e) = 0 := by
  simp [toRat_finite]

/-- The number next to which a zero stands, written with another exponent. -/
theorem roundFinite_coefficientAt_rounds (n : Bool) (c : Nat) {e target : Int} (h : target ≤ e) :
    Rounds (roundFinite n (coefficientAt .toEven c e target) target) (toRat (.finite n c e)) := by
  have hvalue : toRat (.finite n (coefficientAt .toEven c e target) target) =
      toRat (.finite n c e) := by
    rw [toRat_finite, toRat_finite, coefficientAt_mul h]
  rw [← hvalue]
  exact roundFinite_rounds _ _ _

theorem addFinite_rounds (n₁ : Bool) (c₁ : Nat) (e₁ : Int) (n₂ : Bool) (c₂ : Nat) (e₂ : Int) :
    Rounds (addFinite n₁ c₁ e₁ n₂ c₂ e₂)
      (toRat (.finite n₁ c₁ e₁) + toRat (.finite n₂ c₂ e₂)) := by
  unfold addFinite
  by_cases h₁ : c₁ = 0
  · subst h₁
    rw [toRat_zero_coefficient, zero_add]
    by_cases h₂ : c₂ = 0
    · subst h₂
      have := roundFinite_rounds (n₁ && n₂) 0 (min e₁ e₂)
      simpa only [toRat_zero_coefficient, and_self, if_true] using this
    · simp only [h₂, and_false, if_false, if_true]
      exact roundFinite_coefficientAt_rounds n₂ c₂ (by unfold precision; omega)
  by_cases h₂ : c₂ = 0
  · subst h₂
    simp only [h₁, false_and, if_false, if_true, toRat_zero_coefficient, add_zero]
    exact roundFinite_coefficientAt_rounds n₁ c₁ (by unfold precision; omega)
  simp only [h₁, h₂, false_and, if_false]
  -- the aligned sum, the number with the larger exponent first
  have hsum : rounded ((if e₂ ≤ e₁ then sumAligned n₁ c₁ e₁ n₂ c₂ e₂
        else sumAligned n₂ c₂ e₂ n₁ c₁ e₁).1 *
      10 ^ (if e₂ ≤ e₁ then sumAligned n₁ c₁ e₁ n₂ c₂ e₂ else sumAligned n₂ c₂ e₂ n₁ c₁ e₁).2) =
      rounded (toRat (.finite n₁ c₁ e₁) + toRat (.finite n₂ c₂ e₂)) := by
    by_cases he : e₂ ≤ e₁
    · simp only [if_pos he]
      exact rounded_sumAligned n₁ n₂ h₁ h₂ he
    · simp only [if_neg he]
      rw [rounded_sumAligned n₂ n₁ h₂ h₁ (by omega), add_comm]
  generalize (if e₂ ≤ e₁ then sumAligned n₁ c₁ e₁ n₂ c₂ e₂
    else sumAligned n₂ c₂ e₂ n₁ c₁ e₁) = sum at hsum ⊢
  obtain ⟨total, e⟩ := sum
  dsimp only at hsum ⊢
  by_cases htotal : total = 0
  · rw [if_pos htotal]
    have := roundFinite_rounds false 0 (min e₁ e₂)
    rw [toRat_zero_coefficient] at this
    refine ⟨this.isFinite, ?_⟩
    rw [this.map_toRat, ← hsum, htotal]
    simp
  · rw [if_neg htotal]
    have := roundFinite_rounds_int total e
    exact ⟨this.isFinite, by rw [this.map_toRat, hsum]⟩

/-! ### Products -/

theorem roundFinite_mul_rounds (n₁ : Bool) (c₁ : Nat) (e₁ : Int) (n₂ : Bool) (c₂ : Nat)
    (e₂ : Int) :
    Rounds (roundFinite (n₁ != n₂) (c₁ * c₂) (e₁ + e₂))
      (toRat (.finite n₁ c₁ e₁) * toRat (.finite n₂ c₂ e₂)) := by
  have hvalue : toRat (.finite (n₁ != n₂) (c₁ * c₂) (e₁ + e₂)) =
      toRat (.finite n₁ c₁ e₁) * toRat (.finite n₂ c₂ e₂) := by
    rw [toRat_finite, toRat_finite, toRat_finite, zpow_add₀ (by norm_num)]
    cases n₁ <;> cases n₂ <;> simp <;> ring
  rw [← hvalue]
  exact roundFinite_rounds _ _ _

/-! ### Quotients -/

theorem stripZeros_mul (c : Nat) (e ceiling : Int) :
    ((stripZeros c e ceiling).1 : ℚ) * 10 ^ (stripZeros c e ceiling).2 = c * 10 ^ e := by
  fun_induction stripZeros c e ceiling with
  | case1 c e h ih =>
    obtain ⟨k, rfl⟩ : ∃ k, c = 10 * k := ⟨c / 10, by omega⟩
    have hdiv : 10 * k / 10 = k := by omega
    rw [ih, hdiv, zpow_add₀ (by norm_num)]
    push_cast
    ring
  | case2 c e h => rfl

/-- A quotient cut off below its unit, where the last digit is neither zero nor
    five, is rounded like the whole of it. -/
theorem roundMagnitude_cut {n d : Nat} (hd : 0 < d) (hrest : n % d ≠ 0)
    (hlarge : 10 ^ 28 ≤ n / d) (e : Int) :
    roundMagnitude ((if n / d % 5 = 0 then n / d + 1 else n / d : ℕ) * 10 ^ e) =
      roundMagnitude ((n : ℚ) / d * 10 ^ e) := by
  have hdq : (0 : ℚ) < d := by exact_mod_cast hd
  have hten := ten_zpow_pos e
  have hprecision : precision = 28 := rfl
  generalize hq : n / d = q at hlarge ⊢
  have hsplit := Nat.div_add_mod n d
  rw [hq] at hsplit
  have hlow : (q : ℚ) < n / d := by
    rw [lt_div_iff₀ hdq]
    have : q * d < n := by
      have : q * d = d * q := Nat.mul_comm q d
      omega
    exact_mod_cast this
  have hhigh : (n : ℚ) / d < q + 1 := by
    rw [div_lt_iff₀ hdq]
    have : n < (q + 1) * d := by
      have := Nat.mod_lt n hd
      have : (q + 1) * d = d * q + d := by ring
      omega
    exact_mod_cast this
  have hfive : ((5 * (q / 5) : ℕ) : ℚ) ≤ q := by exact_mod_cast Nat.mul_div_le q 5
  have hnext : (q : ℚ) + 1 ≤ ((5 * (q / 5) + 5 : ℕ) : ℚ) := by
    have : q + 1 ≤ 5 * (q / 5) + 5 := by omega
    exact_mod_cast this
  push_cast at hfive hnext
  have hwhole : Between (5 * 10 ^ e) (q / 5) ((n : ℚ) / d * 10 ^ e) := by
    constructor
    · rw [← mul_assoc]
      exact mul_lt_mul_of_pos_right (by linarith) hten
    · rw [← mul_assoc]
      exact mul_lt_mul_of_pos_right (by linarith) hten
  have hcut : Between (5 * 10 ^ e) (q / 5) (((if q % 5 = 0 then q + 1 else q : ℕ) : ℚ) * 10 ^ e) := by
    have hstrict : 5 * (q / 5) < (if q % 5 = 0 then q + 1 else q) ∧
        (if q % 5 = 0 then q + 1 else q) < 5 * (q / 5) + 5 := by
      split <;> omega
    have hlow' : ((5 * (q / 5) : ℕ) : ℚ) < ((if q % 5 = 0 then q + 1 else q : ℕ) : ℚ) := by
      exact_mod_cast hstrict.1
    have hhigh' : ((if q % 5 = 0 then q + 1 else q : ℕ) : ℚ) < ((5 * (q / 5) + 5 : ℕ) : ℚ) := by
      exact_mod_cast hstrict.2
    push_cast at hlow' hhigh' ⊢
    constructor
    · rw [← mul_assoc]
      exact mul_lt_mul_of_pos_right (by linarith) hten
    · rw [← mul_assoc]
      exact mul_lt_mul_of_pos_right (by linarith) hten
  -- twenty-nine digits before the cut put the unit above it
  have hlog : 28 + e ≤ Int.log 10 ((n : ℚ) / d * 10 ^ e) := by
    apply (Int.zpow_le_iff_le_log (by norm_num) (hwhole.pos (by linarith))).mp
    have hq28 : ((10 ^ 28 : ℕ) : ℚ) ≤ q := by exact_mod_cast hlarge
    have hten28 : ((10 : ℕ) : ℚ) ^ (28 + e) = ((10 ^ 28 : ℕ) : ℚ) * 10 ^ e := by
      rw [Nat.cast_ofNat, zpow_add₀ (by norm_num)]
      norm_num
    rw [hten28]
    exact mul_le_mul_of_nonneg_right (hq28.trans hlow.le) hten.le
  obtain ⟨k, -, hk⟩ := exists_ten_zpow_eq (a := e + 1) (b := unitExponent ((n : ℚ) / d * 10 ^ e))
    (by unfold unitExponent; omega)
  symm
  apply roundMagnitude_eq_of_between (b := k) (by linarith) hwhole hcut
  rw [hk, zpow_add₀ (by norm_num)]
  ring

/-- The digits of dividend and divisor leave at least twenty-nine for the
    quotient. -/
theorem le_div_of_digits {n d a b : Nat} (hn : 10 ^ a ≤ n) (hd : d < 10 ^ b) (hpos : 0 < d)
    (h : b + 28 ≤ a) : 10 ^ 28 ≤ n / d := by
  rw [Nat.le_div_iff_mul_le hpos]
  calc 10 ^ 28 * d ≤ 10 ^ 28 * 10 ^ b := Nat.mul_le_mul_left _ hd.le
    _ = 10 ^ (b + 28) := by rw [← Nat.pow_add, Nat.add_comm]
    _ ≤ 10 ^ a := Nat.pow_le_pow_right (by norm_num) h
    _ ≤ n := hn

/-- Dividend and divisor as the long division takes them: one of the two is
    scaled, so that the quotient has the digits it needs. -/
theorem le_div_scaled {c₁ c₂ : Nat} (h₁ : c₁ ≠ 0) (h₂ : c₂ ≠ 0) {shift : Int}
    (hshift : (digitCount c₂ : Int) - digitCount c₁ + precision + 1 = shift) :
    10 ^ 28 ≤ (if 0 ≤ shift then c₁ * Nat.pow 10 shift.toNat else c₁) /
      (if 0 ≤ shift then c₂ else c₂ * Nat.pow 10 (-shift).toNat) := by
  have hprecision : precision = 28 := rfl
  have hcount := digitCount_pos c₁
  have hfirst := ten_pow_le_of_digitCount h₁
  have hsecond := lt_ten_pow_digitCount c₂
  have hten : ∀ k : Nat, 0 < Nat.pow 10 k := fun k => Nat.pow_pos (by norm_num)
  by_cases hpos : 0 ≤ shift
  · rw [if_pos hpos, if_pos hpos]
    apply le_div_of_digits (a := digitCount c₁ - 1 + shift.toNat) (b := digitCount c₂) _
      hsecond (Nat.pos_of_ne_zero h₂) (by omega)
    rw [Nat.pow_add]
    exact Nat.mul_le_mul_right _ hfirst
  · rw [if_neg hpos, if_neg hpos]
    apply le_div_of_digits (a := digitCount c₁ - 1) (b := digitCount c₂ + (-shift).toNat)
      hfirst _ (Nat.mul_pos (Nat.pos_of_ne_zero h₂) (hten _)) (by omega)
    rw [Nat.pow_add]
    exact Nat.mul_lt_mul_of_pos_right hsecond (hten _)

theorem div_scaled (c₁ : Nat) {c₂ : Nat} (h₂ : c₂ ≠ 0) (shift : Int) :
    ((if 0 ≤ shift then c₁ * Nat.pow 10 shift.toNat else c₁ : ℕ) : ℚ) /
        (if 0 ≤ shift then c₂ else c₂ * Nat.pow 10 (-shift).toNat : ℕ) =
      c₁ / c₂ * 10 ^ shift := by
  have hc₂ : (c₂ : ℚ) ≠ 0 := by exact_mod_cast h₂
  by_cases hpos : 0 ≤ shift
  · obtain ⟨k, rfl⟩ := Int.eq_ofNat_of_zero_le hpos
    rw [if_pos hpos, if_pos hpos, zpow_natCast]
    push_cast [Nat.pow_eq, Int.toNat_natCast]
    ring
  · obtain ⟨k, hk⟩ := Int.eq_ofNat_of_zero_le (a := -shift) (by omega)
    have hneg : shift = -(k : ℤ) := by omega
    rw [if_neg hpos, if_neg hpos, hneg, zpow_neg, zpow_natCast]
    push_cast [Nat.pow_eq, neg_neg, Int.toNat_natCast]
    field_simp

theorem divFinite_rounds (negative : Bool) (c₁ : Nat) (e₁ : Int) {c₂ : Nat} (h₂ : c₂ ≠ 0)
    (e₂ : Int) :
    Rounds (divFinite negative c₁ e₁ c₂ e₂)
      ((if negative then -1 else 1) * (c₁ * 10 ^ e₁ / (c₂ * 10 ^ e₂))) := by
  unfold divFinite
  by_cases h₁ : c₁ = 0
  · subst h₁
    have := roundFinite_rounds negative 0 (e₁ - e₂)
    simpa [toRat_zero_coefficient] using this
  rw [if_neg h₁]
  generalize hshift : (digitCount c₂ : Int) - digitCount c₁ + precision + 1 = shift
  have hlarge := le_div_scaled h₁ h₂ hshift
  have hscaled := div_scaled c₁ h₂ shift
  dsimp only
  generalize (if 0 ≤ shift then c₁ * Nat.pow 10 shift.toNat else c₁) = n at hlarge hscaled ⊢
  generalize (if 0 ≤ shift then c₂ else c₂ * Nat.pow 10 (-shift).toNat) = d at hlarge hscaled ⊢
  have hdpos : 0 < d := by
    rcases Nat.eq_zero_or_pos d with rfl | hpos
    · simp at hlarge
    · exact hpos
  have hratio : (c₁ : ℚ) * 10 ^ e₁ / (c₂ * 10 ^ e₂) = (n : ℚ) / d * 10 ^ (e₁ - e₂ - shift) := by
    have hc₂ : (c₂ : ℚ) ≠ 0 := by exact_mod_cast h₂
    have hne : (10 : ℚ) ^ shift ≠ 0 := (ten_zpow_pos shift).ne'
    have hne₂ : (10 : ℚ) ^ e₂ ≠ 0 := (ten_zpow_pos e₂).ne'
    rw [hscaled, zpow_sub₀ (by norm_num), zpow_sub₀ (by norm_num)]
    field_simp
  rw [hratio]
  by_cases hexact : n % d = 0
  · rw [if_pos hexact]
    have hdq : (d : ℚ) ≠ 0 := by exact_mod_cast hdpos.ne'
    have hdiv : (n : ℚ) / d = (n / d : ℕ) := by
      rw [Nat.cast_div (Nat.dvd_of_mod_eq_zero hexact) hdq]
    have hstrip := stripZeros_mul (n / d) (e₁ - e₂ - shift) (e₁ - e₂)
    generalize stripZeros (n / d) (e₁ - e₂ - shift) (e₁ - e₂) = stripped at hstrip ⊢
    have := roundFinite_rounds negative stripped.1 stripped.2
    rwa [toRat_finite, hstrip, ← hdiv] at this
  · rw [if_neg hexact]
    have hcut := roundMagnitude_cut hdpos hexact hlarge (e₁ - e₂ - shift)
    have := roundFinite_rounds negative (if n / d % 5 = 0 then n / d + 1 else n / d) (e₁ - e₂ - shift)
    rw [toRat_finite] at this
    refine ⟨this.isFinite, ?_⟩
    rw [this.map_toRat]
    have hpos : (0 : ℚ) ≤ (n : ℚ) / d * 10 ^ (e₁ - e₂ - shift) := by positivity
    have hpos' : (0 : ℚ) ≤ ((if n / d % 5 = 0 then n / d + 1 else n / d : ℕ) : ℚ) *
        10 ^ (e₁ - e₂ - shift) := by positivity
    have hsame : rounded (((if n / d % 5 = 0 then n / d + 1 else n / d : ℕ) : ℚ) *
        10 ^ (e₁ - e₂ - shift)) = rounded ((n : ℚ) / d * 10 ^ (e₁ - e₂ - shift)) := by
      rw [rounded, rounded, if_neg (not_lt.mpr hpos), if_neg (not_lt.mpr hpos')]
      exact hcut
    cases negative with
    | false => simpa only [Bool.false_eq_true, if_false, one_mul] using hsame
    | true => simp only [if_true, neg_one_mul, rounded_neg, hsame]

/-! ### Operations on finite numbers -/

variable {n₁ n₂ : Bool} {c₁ c₂ : Nat} {e₁ e₂ : Int}

theorem add_rounds :
    Rounds (add (.finite n₁ c₁ e₁) (.finite n₂ c₂ e₂))
      (toRat (.finite n₁ c₁ e₁) + toRat (.finite n₂ c₂ e₂)) :=
  addFinite_rounds n₁ c₁ e₁ n₂ c₂ e₂

theorem sub_rounds :
    Rounds (sub (.finite n₁ c₁ e₁) (.finite n₂ c₂ e₂))
      (toRat (.finite n₁ c₁ e₁) - toRat (.finite n₂ c₂ e₂)) := by
  have hflip : toRat (.finite (!n₂) c₂ e₂) = -toRat (.finite n₂ c₂ e₂) := by
    rw [toRat_finite, toRat_finite]
    cases n₂ <;> simp
  have := addFinite_rounds n₁ c₁ e₁ (!n₂) c₂ e₂
  rwa [hflip, ← sub_eq_add_neg] at this

theorem mul_rounds :
    Rounds (mul (.finite n₁ c₁ e₁) (.finite n₂ c₂ e₂))
      (toRat (.finite n₁ c₁ e₁) * toRat (.finite n₂ c₂ e₂)) :=
  roundFinite_mul_rounds n₁ c₁ e₁ n₂ c₂ e₂

theorem div_rounds (h : c₂ ≠ 0) :
    Rounds (div (.finite n₁ c₁ e₁) (.finite n₂ c₂ e₂))
      (toRat (.finite n₁ c₁ e₁) / toRat (.finite n₂ c₂ e₂)) := by
  have hvalue : toRat (.finite n₁ c₁ e₁) / toRat (.finite n₂ c₂ e₂) =
      (if (n₁ != n₂) then -1 else 1) * (c₁ * 10 ^ e₁ / (c₂ * 10 ^ e₂)) := by
    rw [toRat_finite, toRat_finite]
    cases n₁ <;> cases n₂ <;> simp [neg_div, div_neg]
  have hdiv : div (.finite n₁ c₁ e₁) (.finite n₂ c₂ e₂) =
      divFinite (n₁ != n₂) c₁ e₁ c₂ e₂ := by
    simp only [div, passNan, isSignalling, isNan, isNegative, Bool.or_false, Bool.false_eq_true,
      if_false, if_neg h]
  rw [hvalue, hdiv]
  exact divFinite_rounds (n₁ != n₂) c₁ e₁ h e₂

theorem plus_rounds : Rounds (plus (.finite n₁ c₁ e₁)) (toRat (.finite n₁ c₁ e₁)) := by
  by_cases hc : c₁ = 0
  · subst hc
    have := roundFinite_rounds false 0 e₁
    rw [toRat_zero_coefficient] at this
    simpa [plus, toRat_zero_coefficient] using this
  · have hne : (c₁ != 0) = true := bne_iff_ne.mpr hc
    simp only [plus, hne, Bool.and_true]
    exact roundFinite_rounds n₁ c₁ e₁

/-- The normal form only rounds. -/
theorem normalize_rounds (n : Bool) (c : Nat) (e : Int) :
    Rounds (normalize (.finite n c e)) (toRat (.finite n c e)) := by
  have hround := roundFinite_rounds n c e
  unfold normalize
  dsimp only
  cases hr : roundFinite n c e with
  | error f =>
    rw [hr] at hround
    exact hround
  | ok y =>
    rw [hr] at hround
    have hfinite := hround.isFinite y rfl
    cases y with
    | infinite n => simp [isFinite] at hfinite
    | nan n s p => simp [isFinite] at hfinite
    | finite n c e =>
      have hmap := hround.map_toRat
      cases c with
      | zero =>
        constructor
        · rintro d ⟨⟩
          rfl
        · rw [← hmap]
          simp [Except.map, bind, Except.bind, toRat_zero_coefficient]
      | succ c =>
        have hstrip := stripZeros_mul (c + 1) e maxAdjusted
        constructor
        · rintro d ⟨⟩
          rfl
        · rw [← hmap]
          simp only [Except.map, bind, Except.bind, toRat_finite, hstrip]

end KeyFigures.Decimal
