/-
  KeyFigures/Proofs/Decimal/Rounding.lean
  =======================================
  **Rounding, as a function of the number alone.**

  A finite decimal denotes a rational number (`toRat`), and decimals with
  different exponents can denote the same.  `rounded` says what the working
  range makes of a rational number: the nearest multiple of a unit that depends
  on the size of the number only, a half going to the even multiple, or an
  overflow.  `roundFinite_rounds` says that a decimal is rounded to just that,
  however it is written.

  Two numbers between the same two neighbouring multiples of half a unit are
  rounded alike (`roundMagnitude_eq_of_between`).  This is what allows a
  summand too small to matter, or the endless digits of a quotient, to be
  replaced by something shorter.
-/
import KeyFigures.Decimal.Arithmetic
import Mathlib

namespace KeyFigures.Decimal

/-! ### What a decimal denotes -/

/-- The rational number that a finite decimal denotes; the others denote none,
    and zero stands in. -/
def toRat : Decimal → ℚ
  | .finite negative c e => signed negative c * (10 : ℚ) ^ e
  | .infinite _ | .nan .. => 0

theorem ten_zpow_pos (e : ℤ) : (0 : ℚ) < 10 ^ e := zpow_pos (by norm_num) e

theorem ten_zpow_lt {a b : ℤ} (h : a < b) : (10 : ℚ) ^ a < 10 ^ b :=
  zpow_lt_zpow_right₀ (by norm_num) h

theorem ten_zpow_le {a b : ℤ} (h : a ≤ b) : (10 : ℚ) ^ a ≤ 10 ^ b :=
  zpow_le_zpow_right₀ (by norm_num) h

/-- A smaller power of ten divides a larger one. -/
theorem exists_ten_zpow_eq {a b : ℤ} (h : a ≤ b) : ∃ n : ℕ, 0 < n ∧ (10 : ℚ) ^ b = n * 10 ^ a := by
  obtain ⟨k, rfl⟩ := Int.le.dest h
  refine ⟨10 ^ k, by positivity, ?_⟩
  rw [zpow_add₀ (by norm_num), zpow_natCast]
  push_cast
  ring

theorem digitCount_pos (n : Nat) : 0 < digitCount n := by
  rw [digitCount]
  split <;> omega

theorem lt_ten_pow_digitCount (n : Nat) : n < 10 ^ digitCount n := by
  induction n using digitCount.induct with
  | case1 n h =>
    rw [digitCount, if_pos h]
    omega
  | case2 n h ih =>
    rw [digitCount, if_neg h, Nat.pow_succ]
    omega

theorem ten_pow_le_of_digitCount {n : Nat} (h : n ≠ 0) : 10 ^ (digitCount n - 1) ≤ n := by
  induction n using digitCount.induct with
  | case1 n hn =>
    rw [digitCount, if_pos hn]
    omega
  | case2 n hn ih =>
    have hpos := digitCount_pos (n / 10)
    have hle : 10 ^ (digitCount (n / 10) - 1) ≤ n / 10 := ih (by omega)
    rw [digitCount, if_neg hn]
    have hsucc : digitCount (n / 10) + 1 - 1 = (digitCount (n / 10) - 1) + 1 := by omega
    rw [hsucc, Nat.pow_succ]
    omega

theorem digitCount_le_iff {n k : Nat} (h : n ≠ 0) : digitCount n ≤ k ↔ n < 10 ^ k := by
  constructor
  · intro hle
    exact lt_of_lt_of_le (lt_ten_pow_digitCount n) (Nat.pow_le_pow_right (by norm_num) hle)
  · intro hlt
    by_contra hgt
    have hpow : 10 ^ k ≤ 10 ^ (digitCount n - 1) := Nat.pow_le_pow_right (by norm_num) (by omega)
    have := ten_pow_le_of_digitCount h
    omega

theorem magnitude_pos {c : Nat} (hc : c ≠ 0) (e : ℤ) : (0 : ℚ) < c * 10 ^ e := by
  have := ten_zpow_pos e
  have : (0 : ℚ) < c := by exact_mod_cast Nat.pos_of_ne_zero hc
  positivity

/-- The first digit of a number stands where its size says. -/
theorem log_eq_adjusted {c : Nat} (hc : c ≠ 0) (e : ℤ) :
    Int.log 10 ((c : ℚ) * 10 ^ e) = adjusted c e := by
  have hpos := magnitude_pos hc e
  have hcount := digitCount_pos c
  have hten := ten_zpow_pos e
  have hle : (10 : ℚ) ^ (digitCount c - 1) ≤ c := by exact_mod_cast ten_pow_le_of_digitCount hc
  have hlt : (c : ℚ) < 10 ^ digitCount c := by exact_mod_cast lt_ten_pow_digitCount c
  apply le_antisymm
  · apply Int.lt_add_one_iff.mp
    apply (Int.lt_zpow_iff_log_lt (by norm_num) hpos).mp
    have hexp : adjusted c e + 1 = digitCount c + e := by
      unfold adjusted
      omega
    rw [hexp, zpow_add₀ (by norm_num), zpow_natCast]
    push_cast
    exact mul_lt_mul_of_pos_right hlt hten
  · apply (Int.zpow_le_iff_le_log (by norm_num) hpos).mp
    have hexp : adjusted c e = ((digitCount c - 1 : ℕ) : ℤ) + e := by
      unfold adjusted
      omega
    rw [hexp, zpow_add₀ (by norm_num), zpow_natCast]
    push_cast
    exact mul_le_mul_of_nonneg_right hle hten.le

/-! ### The nearest whole number -/

/-- The whole number nearest to a rational one, a half going to the even
    neighbour. -/
def nearestEven (x : ℚ) : ℤ :=
  if x - ⌊x⌋ < 1 / 2 then ⌊x⌋ else if 1 / 2 < x - ⌊x⌋ then ⌊x⌋ + 1 else ⌊x⌋ + ⌊x⌋ % 2

@[simp]
theorem nearestEven_intCast (n : ℤ) : nearestEven n = n := by
  simp [nearestEven]

theorem nearestEven_le {x : ℚ} {n : ℤ} (h : x ≤ n) : nearestEven x ≤ n := by
  have hfloor := Int.floor_le x
  unfold nearestEven
  by_cases hx : x = n
  · simp [hx]
  · have hlt : ⌊x⌋ < n := Int.floor_lt.mpr (lt_of_le_of_ne h hx)
    split_ifs <;> omega

theorem le_nearestEven {x : ℚ} {n : ℤ} (h : (n : ℚ) ≤ x) : n ≤ nearestEven x := by
  have hfloor : n ≤ ⌊x⌋ := Int.le_floor.mpr h
  unfold nearestEven
  split_ifs <;> omega

/-- Between two neighbouring multiples of one half there is nothing to
    decide. -/
theorem nearestEven_of_between {x : ℚ} {m : ℤ} (hlow : (m : ℚ) < 2 * x) (hhigh : 2 * x < m + 1) :
    nearestEven x = (m + 1) / 2 := by
  rcases Int.even_or_odd' m with ⟨k, rfl | rfl⟩
  · push_cast at hlow hhigh
    have hfloor : ⌊x⌋ = k := Int.floor_eq_iff.mpr ⟨by linarith, by linarith⟩
    rw [nearestEven, hfloor, if_pos (by linarith)]
    omega
  · push_cast at hlow hhigh
    have hfloor : ⌊x⌋ = k := Int.floor_eq_iff.mpr ⟨by linarith, by linarith⟩
    rw [nearestEven, hfloor, if_neg (by linarith), if_pos (by linarith)]
    omega

theorem roundQuotient_eq_nearestEven (n : Nat) {d : Nat} (hd : 0 < d) :
    (roundQuotient .toEven n d : ℤ) = nearestEven ((n : ℚ) / d) := by
  have hdq : (0 : ℚ) < d := by exact_mod_cast hd
  have hdiv : (n : ℚ) = d * (n / d : ℕ) + (n % d : ℕ) := by exact_mod_cast (Nat.div_add_mod n d).symm
  have hfloor : ⌊(n : ℚ) / d⌋ = ((n / d : ℕ) : ℤ) := by
    rw [Rat.floor_natCast_div_natCast]
    rfl
  -- what is left over, in units of `d`
  have hrest : (n : ℚ) / d - (n / d : ℕ) = (n % d : ℕ) / d := by
    rw [div_sub' hdq.ne', div_left_inj' hdq.ne']
    linarith
  have hless : (n : ℚ) / d - (n / d : ℕ) < 1 / 2 ↔ 2 * (n % d) < d := by
    rw [hrest, div_lt_div_iff₀ hdq (by norm_num)]
    constructor
    · intro h
      have : (2 * (n % d) : ℕ) < (d : ℚ) := by push_cast; linarith
      exact_mod_cast this
    · intro h
      have : ((2 * (n % d) : ℕ) : ℚ) < (d : ℚ) := by exact_mod_cast h
      push_cast at this
      linarith
  have hmore : 1 / 2 < (n : ℚ) / d - (n / d : ℕ) ↔ d < 2 * (n % d) := by
    rw [hrest, div_lt_div_iff₀ (by norm_num) hdq]
    constructor
    · intro h
      have : (d : ℚ) < (2 * (n % d) : ℕ) := by push_cast; linarith
      exact_mod_cast this
    · intro h
      have : (d : ℚ) < ((2 * (n % d) : ℕ) : ℚ) := by exact_mod_cast h
      push_cast at this
      linarith
  unfold roundQuotient nearestEven
  rw [hfloor]
  simp only [Int.cast_natCast, hless, hmore]
  split_ifs <;> push_cast <;> rfl

/-- At a larger exponent the coefficient is rounded, whatever the tie rule. -/
theorem coefficientAt_eq_roundQuotient (tie : Tie) (c : Nat) {e target : ℤ} (h : e < target) :
    coefficientAt tie c e target = roundQuotient tie c (10 ^ (target - e).toNat) := by
  unfold coefficientAt
  rw [if_neg (by omega)]
  split
  · rename_i hsmall
    -- a number below a tenth of the unit
    have hlt : 10 * c < 10 ^ (target - e).toNat := by
      calc 10 * c < 10 * 10 ^ digitCount c := by
            have := lt_ten_pow_digitCount c
            omega
        _ = 10 ^ (digitCount c + 1) := by ring
        _ ≤ 10 ^ (target - e).toNat := Nat.pow_le_pow_right (by norm_num) (by omega)
    simp only [roundQuotient, Nat.div_eq_of_lt (show c < 10 ^ (target - e).toNat by omega),
      Nat.mod_eq_of_lt (show c < 10 ^ (target - e).toNat by omega)]
    rw [if_pos (by omega)]
  · rw [Nat.pow_eq]

/-- A number in units of a larger exponent. -/
theorem scaled_eq_div (c : Nat) {e target : ℤ} (h : e < target) :
    (c : ℚ) * 10 ^ e / 10 ^ target = (c : ℚ) / (10 ^ (target - e).toNat : ℕ) := by
  have hpow : (10 : ℚ) ^ target = ((10 ^ (target - e).toNat : ℕ) : ℚ) * 10 ^ e := by
    have hsplit : target = ((target - e).toNat : ℤ) + e := by omega
    conv_lhs => rw [hsplit]
    rw [zpow_add₀ (by norm_num), zpow_natCast]
    push_cast
    rfl
  rw [hpow, mul_div_mul_right _ _ (ten_zpow_pos e).ne']

/-- The coefficient of a number at a larger exponent is the nearest one. -/
theorem coefficientAt_eq_nearestEven {c : Nat} {e target : ℤ} (h : e < target) :
    (coefficientAt .toEven c e target : ℤ) = nearestEven ((c : ℚ) * 10 ^ e / 10 ^ target) := by
  rw [scaled_eq_div c h, ← roundQuotient_eq_nearestEven c (by positivity),
    coefficientAt_eq_roundQuotient .toEven c h]

/-! ### Rounding to the working range -/

/-- The exponent of the last digit that a positive number keeps. -/
def unitExponent (x : ℚ) : ℤ := max (Int.log 10 x + 1 - precision) minExponent

/-- What the working range makes of a number that is not negative. -/
def roundMagnitude (x : ℚ) : Except Fault ℚ :=
  let unit : ℚ := 10 ^ unitExponent x
  let y := nearestEven (x / unit) * unit
  if (10 : ℚ) ^ (maxAdjusted + 1) ≤ y then .error .overflow else .ok y

/-- What the working range makes of a number. -/
def rounded (x : ℚ) : Except Fault ℚ :=
  if x < 0 then (roundMagnitude (-x)).map (- ·) else roundMagnitude x

/-- A result is the rounded number `x`, and finite if it is a number. -/
structure Rounds (r : Except Fault Decimal) (x : ℚ) : Prop where
  isFinite : ∀ d, r = .ok d → d.isFinite = true
  map_toRat : r.map toRat = rounded x

theorem roundMagnitude_zero : roundMagnitude 0 = .ok 0 := by
  have hzero : nearestEven 0 = 0 := by simpa using nearestEven_intCast 0
  have hpos := ten_zpow_pos (maxAdjusted + 1)
  simp [roundMagnitude, hzero, not_le.mpr hpos]

theorem rounded_zero : rounded 0 = .ok 0 := by
  simp [rounded, roundMagnitude_zero]

theorem rounded_neg (x : ℚ) : rounded (-x) = (rounded x).map (- ·) := by
  rcases lt_trichotomy x 0 with h | rfl | h
  · have hneg : ¬ -x < 0 := by linarith
    rw [rounded, rounded, if_neg hneg, if_pos h]
    cases roundMagnitude (-x) <;> simp [Except.map]
  · simp [rounded_zero, Except.map]
  · have hneg : -x < 0 := by linarith
    rw [rounded, rounded, if_pos hneg, if_neg (by linarith), neg_neg]

/-- A number lies strictly between a multiple of a step and the next one. -/
structure Between (g : ℚ) (m : ℕ) (x : ℚ) : Prop where
  low : m * g < x
  high : x < (m + 1) * g

namespace Between

variable {x y g : ℚ} {m b : ℕ}

theorem pos (hg : 0 < g) (h : Between g m x) : 0 < x := by
  have : 0 ≤ m * g := by positivity
  exact lt_of_le_of_lt this h.low

theorem mul_le_iff (hg : 0 < g) (h : Between g m x) (n : ℕ) : (n : ℚ) * g ≤ x ↔ n ≤ m := by
  constructor
  · intro hle
    have hlt : (n : ℚ) * g < (m + 1) * g := lt_of_le_of_lt hle h.high
    have : (n : ℚ) < m + 1 := lt_of_mul_lt_mul_right hlt hg.le
    have : n < m + 1 := by exact_mod_cast this
    omega
  · intro hle
    have : (n : ℚ) ≤ m := by exact_mod_cast hle
    have := mul_le_mul_of_nonneg_right this hg.le
    exact this.trans h.low.le

/-- A larger power of ten is a multiple of the step, so it does not come between
    the two numbers. -/
theorem le_log_iff (hg : 0 < g) (hx : Between g m x) (hy : Between g m y)
    (hb : 2 * (b * g) = 10 ^ unitExponent x) {k : ℤ} (hk : unitExponent x ≤ k) :
    k ≤ Int.log 10 x ↔ k ≤ Int.log 10 y := by
  obtain ⟨n, -, hn⟩ := exists_ten_zpow_eq hk
  have hmul : (10 : ℚ) ^ k = ((n * (2 * b) : ℕ) : ℚ) * g := by
    rw [hn, ← hb]
    push_cast
    ring
  have hxk := Int.zpow_le_iff_le_log (b := 10) (by norm_num) (x := k) (hx.pos hg)
  have hyk := Int.zpow_le_iff_le_log (b := 10) (by norm_num) (x := k) (hy.pos hg)
  rw [Nat.cast_ofNat, hmul] at hxk hyk
  rw [← hxk, ← hyk, hx.mul_le_iff hg, hy.mul_le_iff hg]

theorem unitExponent_eq (hg : 0 < g) (hx : Between g m x) (hy : Between g m y)
    (hb : 2 * (b * g) = 10 ^ unitExponent x) : unitExponent y = unitExponent x := by
  have hlog : ∀ k, unitExponent x ≤ k → (k ≤ Int.log 10 x ↔ k ≤ Int.log 10 y) :=
    fun k hk => le_log_iff hg hx hy hb hk
  by_cases hsize : unitExponent x ≤ Int.log 10 x
  · have h1 := (hlog _ hsize).mp le_rfl
    have h2 := hlog (Int.log 10 x + 1) (by omega)
    have heq : Int.log 10 x = Int.log 10 y := by omega
    rw [unitExponent, unitExponent, heq]
  · -- both are below the smallest unit there is
    have h1 := hlog _ le_rfl
    have hprecision : precision = 28 := rfl
    unfold unitExponent at hsize h1 ⊢
    omega

theorem nearestEven_eq (hg : 0 < g) (hx : Between g m x) {u : ℚ} (hu : 0 < u)
    (hb : 2 * (b * g) = u) : nearestEven (x / u) = ((m / b : ℕ) + 1 : ℤ) / 2 := by
  have hbpos : 0 < b := by
    rcases Nat.eq_zero_or_pos b with rfl | h
    · simp at hb
      linarith
    · exact h
  have hbg : 0 < (b : ℚ) * g := by positivity
  have hscale : 2 * (x / u) = x / (b * g) := by
    rw [← hb]
    field_simp
  have hfloor : ((m / b : ℕ) : ℚ) * b ≤ m := by exact_mod_cast Nat.div_mul_le_self m b
  have hceil : (m : ℚ) + 1 ≤ ((m / b : ℕ) + 1) * b := by
    have : m < (m / b + 1) * b := Nat.lt_mul_of_div_lt (Nat.lt_succ_self _) hbpos
    exact_mod_cast this
  apply nearestEven_of_between
  · rw [hscale, lt_div_iff₀ hbg, Int.cast_natCast]
    calc ((m / b : ℕ) : ℚ) * (b * g) = ((m / b : ℕ) : ℚ) * b * g := by ring
      _ ≤ m * g := mul_le_mul_of_nonneg_right hfloor hg.le
      _ < x := hx.low
  · rw [hscale, div_lt_iff₀ hbg, Int.cast_natCast]
    calc x < (m + 1) * g := hx.high
      _ ≤ ((m / b : ℕ) + 1) * b * g := mul_le_mul_of_nonneg_right hceil hg.le
      _ = ((m / b : ℕ) + 1) * (b * g) := by ring

end Between

/-- Numbers between the same two neighbouring multiples of a step are rounded
    alike if the step goes into half a unit. -/
theorem roundMagnitude_eq_of_between {x y g : ℚ} {m b : ℕ} (hg : 0 < g) (hx : Between g m x)
    (hy : Between g m y) (hb : 2 * (b * g) = 10 ^ unitExponent x) :
    roundMagnitude x = roundMagnitude y := by
  have hunit := hx.unitExponent_eq hg hy hb
  have hpos := ten_zpow_pos (unitExponent x)
  unfold roundMagnitude
  dsimp only
  rw [hunit, hx.nearestEven_eq hg hpos hb, hy.nearestEven_eq hg hpos hb]

/-! ### Decimals -/

theorem toRat_finite (negative : Bool) (c : Nat) (e : Int) :
    toRat (.finite negative c e) = (if negative then -1 else 1) * (c * (10 : ℚ) ^ e) := by
  cases negative <;> simp [toRat, signed]

/-- The unit of a number is the exponent that rounding looks for. -/
theorem unitExponent_eq_adjusted {c : Nat} (hc : c ≠ 0) (e : Int) :
    unitExponent (c * 10 ^ e) = max (e + digitCount c - precision) minExponent := by
  rw [unitExponent, log_eq_adjusted hc, adjusted]
  congr 1
  ring

/-- A number below ten to the power of its digits stays there or reaches it. -/
theorem coefficientAt_le {c : Nat} {e least : Int}
    (hleast : e + digitCount c - precision ≤ least) (h : e < least) :
    coefficientAt .toEven c e least ≤ 10 ^ precision := by
  have hcount : (c : ℚ) < 10 ^ digitCount c := by exact_mod_cast lt_ten_pow_digitCount c
  have hle : (c : ℚ) * 10 ^ e / 10 ^ least ≤ ((10 ^ precision : ℕ) : ℤ) := by
    rw [div_le_iff₀ (ten_zpow_pos least)]
    calc (c : ℚ) * 10 ^ e ≤ 10 ^ digitCount c * 10 ^ e :=
          mul_le_mul_of_nonneg_right hcount.le (ten_zpow_pos e).le
      _ = 10 ^ ((digitCount c : ℤ) + e) := by rw [zpow_add₀ (by norm_num), zpow_natCast]
      _ ≤ 10 ^ ((precision : ℤ) + least) := ten_zpow_le (by omega)
      _ = ((10 ^ precision : ℕ) : ℤ) * 10 ^ least := by
          rw [zpow_add₀ (by norm_num), zpow_natCast]
          push_cast
          rfl
  have := nearestEven_le hle
  rw [← coefficientAt_eq_nearestEven h] at this
  exact_mod_cast this

/-- A number whose nearest multiple of the unit is in range is rounded to it. -/
theorem roundMagnitude_eq_ok {x : ℚ} {u : Int} {k : Nat} (hu : unitExponent x = u)
    (hk : nearestEven (x / 10 ^ u) = k) (hrange : (k : ℚ) * 10 ^ u < 10 ^ (maxAdjusted + 1)) :
    roundMagnitude x = .ok (k * 10 ^ u) := by
  unfold roundMagnitude
  dsimp only
  rw [hu, hk, Int.cast_natCast, if_neg (not_le.mpr hrange)]

theorem roundMagnitude_eq_error {x : ℚ} {u : Int} {k : Nat} (hu : unitExponent x = u)
    (hk : nearestEven (x / 10 ^ u) = k) (hrange : (10 : ℚ) ^ (maxAdjusted + 1) ≤ k * 10 ^ u) :
    roundMagnitude x = .error .overflow := by
  unfold roundMagnitude
  dsimp only
  rw [hu, hk, Int.cast_natCast, if_pos hrange]

theorem lt_range_of_digits {k : Nat} {u : Int} (hk : k < 10 ^ precision) (hu : u ≤ maxFullExponent) :
    (k : ℚ) * 10 ^ u < 10 ^ (maxAdjusted + 1) := by
  have hk' : (k : ℚ) < 10 ^ precision := by exact_mod_cast hk
  calc (k : ℚ) * 10 ^ u < 10 ^ precision * 10 ^ u := mul_lt_mul_of_pos_right hk' (ten_zpow_pos u)
    _ = 10 ^ ((precision : ℤ) + u) := by rw [zpow_add₀ (by norm_num), zpow_natCast]
    _ ≤ 10 ^ (maxAdjusted + 1) := ten_zpow_le (by unfold maxFullExponent at hu; omega)

theorem range_le_of_digits {k : Nat} {u : Int} {d : Nat} (hk : 10 ^ d ≤ k)
    (hu : maxAdjusted + 1 ≤ d + u) : (10 : ℚ) ^ (maxAdjusted + 1) ≤ k * 10 ^ u := by
  have hk' : (10 : ℚ) ^ d ≤ k := by exact_mod_cast hk
  calc (10 : ℚ) ^ (maxAdjusted + 1) ≤ 10 ^ ((d : ℤ) + u) := ten_zpow_le hu
    _ = 10 ^ d * 10 ^ u := by rw [zpow_add₀ (by norm_num), zpow_natCast]
    _ ≤ k * 10 ^ u := mul_le_mul_of_nonneg_right hk' (ten_zpow_pos u).le

/-- The number has fewer digits than its unit leaves room for. -/
theorem lt_ten_zpow_of_unit {c : Nat} {e u : Int} (hu : e + digitCount c - precision ≤ u) :
    (c : ℚ) * 10 ^ e < 10 ^ precision * 10 ^ u := by
  have hcount : (c : ℚ) < 10 ^ digitCount c := by exact_mod_cast lt_ten_pow_digitCount c
  calc (c : ℚ) * 10 ^ e < 10 ^ digitCount c * 10 ^ e :=
        mul_lt_mul_of_pos_right hcount (ten_zpow_pos e)
    _ = 10 ^ ((digitCount c : ℤ) + e) := by rw [zpow_add₀ (by norm_num), zpow_natCast]
    _ ≤ 10 ^ ((precision : ℤ) + u) := ten_zpow_le (by omega)
    _ = 10 ^ precision * 10 ^ u := by rw [zpow_add₀ (by norm_num), zpow_natCast]

/-- A multiple of its unit needs no rounding. -/
theorem roundMagnitude_of_exact {c : Nat} {e u : Int} (hu : unitExponent (c * 10 ^ e) = u)
    (hdigits : e + digitCount c - precision ≤ u) (he : u ≤ e) (hrange : u ≤ maxFullExponent) :
    roundMagnitude (c * 10 ^ e) = .ok (c * 10 ^ e) := by
  obtain ⟨n, -, hn⟩ := exists_ten_zpow_eq he
  have hvalue : (c : ℚ) * 10 ^ e = ((c * n : ℕ) : ℚ) * 10 ^ u := by
    rw [hn]
    push_cast
    ring
  have hnearest : nearestEven ((c : ℚ) * 10 ^ e / 10 ^ u) = (c * n : ℕ) := by
    rw [hvalue, mul_div_assoc, div_self (ten_zpow_pos u).ne', mul_one]
    exact nearestEven_intCast (c * n : ℕ)
  have hsmall : c * n < 10 ^ precision := by
    have hlt := lt_ten_zpow_of_unit hdigits
    rw [hvalue] at hlt
    exact_mod_cast lt_of_mul_lt_mul_right hlt (ten_zpow_pos u).le
  rw [roundMagnitude_eq_ok hu hnearest (lt_range_of_digits hsmall hrange), ← hvalue]

/-- A number whose leading digit stands too far to the left does not fit. -/
theorem roundMagnitude_of_large {c : Nat} (hc : c ≠ 0) {e u : Int}
    (hu : unitExponent (c * 10 ^ e) = u) (hdigits : e + digitCount c - precision = u)
    (h : maxFullExponent < u) : roundMagnitude (c * 10 ^ e) = .error .overflow := by
  have hcount := digitCount_pos c
  have hprecision : precision = 28 := rfl
  have hfull : maxFullExponent = maxAdjusted - 27 := by decide
  have hlow : ((10 ^ 27 : ℕ) : ℤ) ≤ (c : ℚ) * 10 ^ e / 10 ^ u := by
    have hfirst : (10 : ℚ) ^ (digitCount c - 1) ≤ c := by
      exact_mod_cast ten_pow_le_of_digitCount hc
    rw [le_div_iff₀ (ten_zpow_pos u)]
    calc (((10 ^ 27 : ℕ) : ℤ) : ℚ) * 10 ^ u = 10 ^ ((27 : ℕ) + u) := by
          rw [zpow_add₀ (by norm_num), zpow_natCast]
          push_cast
          rfl
      _ = 10 ^ (((digitCount c - 1 : ℕ) : ℤ) + e) := by
          congr 1
          omega
      _ = 10 ^ (digitCount c - 1) * 10 ^ e := by rw [zpow_add₀ (by norm_num), zpow_natCast]
      _ ≤ c * 10 ^ e := mul_le_mul_of_nonneg_right hfirst (ten_zpow_pos e).le
  have hnearest := le_nearestEven hlow
  obtain ⟨k, hk⟩ := Int.eq_ofNat_of_zero_le (le_trans (by positivity) hnearest)
  rw [hk] at hnearest
  apply roundMagnitude_eq_error hu hk
  apply range_le_of_digits (d := 27) (by exact_mod_cast hnearest)
  push_cast
  omega

/-- Rounding a decimal without its sign is rounding the number it denotes. -/
theorem roundFinite_magnitude {c : Nat} (hc : c ≠ 0) (e : Int) :
    (∃ (k : Nat) (u : Int), roundMagnitude (c * 10 ^ e) = .ok (k * 10 ^ u) ∧
      ∀ negative, roundFinite negative c e = .ok (.finite negative k u)) ∨
    (roundMagnitude (c * 10 ^ e) = .error .overflow ∧
      ∀ negative, roundFinite negative c e = .error .overflow) := by
  obtain ⟨u, hu⟩ : ∃ u, unitExponent (c * 10 ^ e) = u := ⟨_, rfl⟩
  have hleast := unitExponent_eq_adjusted hc e
  rw [hu] at hleast
  have hfull : maxFullExponent = maxAdjusted - 27 := by decide
  have hmin : minExponent ≤ maxFullExponent := by decide
  have hprecision : precision = 28 := rfl
  simp only [roundFinite, if_neg hc, ← hleast]
  by_cases hlarge : maxFullExponent < u
  · right
    refine ⟨roundMagnitude_of_large hc hu (by omega) hlarge, ?_⟩
    simp [hlarge]
  simp only [if_neg hlarge]
  by_cases hexact : u ≤ e
  · left
    refine ⟨c, e, roundMagnitude_of_exact hu (by omega) hexact (by omega), ?_⟩
    simp [hexact]
  simp only [if_neg hexact]
  generalize hk : coefficientAt .toEven c e u = k
  have hnearest : nearestEven ((c : ℚ) * 10 ^ e / 10 ^ u) = k := by
    rw [← coefficientAt_eq_nearestEven (by omega), hk]
  have hle : k ≤ 10 ^ precision := by
    rw [← hk]
    exact coefficientAt_le (by omega) (by omega)
  by_cases hdigits : digitCount k ≤ precision
  · left
    refine ⟨k, u, ?_, by simp [hdigits]⟩
    apply roundMagnitude_eq_ok hu hnearest
    apply lt_range_of_digits _ (by omega)
    exact lt_of_lt_of_le (lt_ten_pow_digitCount k) (Nat.pow_le_pow_right (by norm_num) hdigits)
  simp only [if_neg hdigits]
  -- a carry into one digit more leaves a power of ten
  have hpow : k = 10 ^ 28 := by
    have hne : k ≠ 0 := by
      rintro rfl
      simp [digitCount, precision] at hdigits
    have := (digitCount_le_iff (k := precision) hne).not.mp hdigits
    rw [hprecision] at this hle
    omega
  by_cases hover : maxFullExponent < u + 1
  · right
    refine ⟨?_, by simp [hover]⟩
    apply roundMagnitude_eq_error hu hnearest
    apply range_le_of_digits (d := 28) (by omega)
    omega
  · left
    refine ⟨k / 10, u + 1, ?_, by simp [hover]⟩
    have hrange : (k : ℚ) * 10 ^ u < 10 ^ (maxAdjusted + 1) := by
      have hcarry : (k : ℚ) * 10 ^ u = 10 ^ ((28 : ℕ) + u) := by
        rw [hpow, zpow_add₀ (by norm_num), zpow_natCast]
        push_cast
        rfl
      rw [hcarry]
      exact ten_zpow_lt (by push_cast; omega)
    rw [roundMagnitude_eq_ok hu hnearest hrange, zpow_add₀ (by norm_num), hpow]
    norm_num
    ring

/-- A finite decimal is rounded to what its number is rounded to. -/
theorem roundFinite_rounds (negative : Bool) (c : Nat) (e : Int) :
    Rounds (roundFinite negative c e) (toRat (.finite negative c e)) := by
  by_cases hc : c = 0
  · subst hc
    have hvalue : toRat (.finite negative 0 e) = 0 := by simp [toRat_finite]
    rw [hvalue]
    constructor
    · intro d hd
      simp only [roundFinite, if_pos] at hd
      cases hd
      rfl
    · simp [roundFinite, Except.map, toRat_finite, rounded_zero]
  · have hpos := magnitude_pos hc e
    have hrounded : rounded (toRat (.finite negative c e)) =
        (roundMagnitude (c * 10 ^ e)).map ((if negative then -1 else 1) * ·) := by
      rw [toRat_finite]
      cases negative with
      | false =>
        simp only [Bool.false_eq_true, if_false, one_mul, rounded, if_neg (not_lt.mpr hpos.le)]
        cases roundMagnitude (c * 10 ^ e) <;> rfl
      | true =>
        have hneg : -((c : ℚ) * 10 ^ e) < 0 := by linarith
        simp only [if_true, neg_one_mul, rounded, if_pos hneg, neg_neg]
    rcases roundFinite_magnitude hc e with ⟨k, u, hround, heq⟩ | ⟨hround, heq⟩
    · constructor
      · intro d hd
        rw [heq] at hd
        cases hd
        rfl
      · rw [heq, hrounded, hround]
        simp [Except.map, toRat_finite]
    · constructor
      · intro d hd
        rw [heq] at hd
        cases hd
      · rw [heq, hrounded, hround]
        rfl

end KeyFigures.Decimal
