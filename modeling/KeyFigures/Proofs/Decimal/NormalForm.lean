/-
  KeyFigures/Proofs/Decimal/NormalForm.lean
  =========================================
  **The normal form of a decimal.**

  A decimal has a normal form unless it is a signalling not-a-number or too
  large (`normalize_eq`).  The normal form can be written and read back
  (`normalForm_isReadable`), and it denotes the number rounded to the working
  range, so it stands for the decimal itself exactly if rounding leaves that
  one alone (`IsExact`, `normalForm_agrees`).
-/
import KeyFigures.Proofs.Decimal.Agreement
import KeyFigures.Proofs.Decimal.RoundTrip

namespace KeyFigures.Decimal

/-- The decimal has a normal form. -/
def Normalizes (x : Decimal) : Prop := x.isSignalling = false ∧ x.normalize ≠ .error .overflow

/-- The normal form, if there is one. -/
def normalForm (x : Decimal) : Decimal :=
  match x.normalize with
  | .ok y => y
  | .error _ => x

theorem roundFinite_error {n : Bool} {c : Nat} {e : Int} {f : Fault}
    (h : roundFinite n c e = .error f) : f = .overflow := by
  by_cases hc : c = 0
  · simp [roundFinite, hc] at h
  · rcases roundFinite_magnitude hc e with ⟨k, u, -, heq⟩ | ⟨-, heq⟩
    · rw [heq] at h
      cases h
    · rw [heq] at h
      cases h
      rfl

theorem normalize_finite_error {n : Bool} {c : Nat} {e : Int} {f : Fault}
    (h : normalize (.finite n c e) = .error f) : f = .overflow := by
  have hmap := (normalize_rounds n c e).map_toRat
  rw [h, ← (roundFinite_rounds n c e).map_toRat] at hmap
  cases hround : roundFinite n c e with
  | error f' =>
    rw [hround] at hmap
    cases hmap
    exact roundFinite_error hround
  | ok y =>
    rw [hround] at hmap
    cases hmap

/-- Whatever has a normal form is normalized to it. -/
theorem normalize_eq {x : Decimal} (h : x.Normalizes) : x.normalize = .ok x.normalForm := by
  unfold normalForm
  cases hx : x.normalize with
  | ok y => rfl
  | error f =>
    exfalso
    cases x with
    | finite n c e =>
      apply h.2
      rw [hx, normalize_finite_error hx]
    | infinite n => cases hx
    | nan n s p =>
      have hs : s = false := h.1
      simp [normalize, hs, round] at hx

/-! ### The range of the normal form -/

theorem abs_lt_of_rounded {x y : ℚ} (h : rounded x = .ok y) : |y| < 10 ^ (maxAdjusted + 1) := by
  have hmagnitude : ∀ {x y : ℚ}, 0 ≤ x → roundMagnitude x = .ok y →
      |y| < 10 ^ (maxAdjusted + 1) := by
    intro x y hx hround
    unfold roundMagnitude at hround
    dsimp only at hround
    split at hround
    · cases hround
    · rename_i hlt
      cases hround
      have hunit := ten_zpow_pos (unitExponent x)
      have hnearest : 0 ≤ nearestEven (x / 10 ^ unitExponent x) := by
        apply le_nearestEven
        push_cast
        positivity
      have hcast : (0 : ℚ) ≤ nearestEven (x / 10 ^ unitExponent x) := by exact_mod_cast hnearest
      rw [abs_of_nonneg (by positivity)]
      exact not_le.mp hlt
  unfold rounded at h
  split at h
  · rename_i hneg
    cases hround : roundMagnitude (-x) with
    | error f =>
      rw [hround] at h
      cases h
    | ok z =>
      rw [hround] at h
      cases h
      rw [abs_neg]
      exact hmagnitude (by linarith) hround
  · rename_i hneg
    exact hmagnitude (not_lt.mp hneg) h

theorem abs_toRat (n : Bool) (c : Nat) (e : Int) : |toRat (.finite n c e)| = c * 10 ^ e := by
  have hten := (ten_zpow_pos e).le
  rw [toRat_finite, abs_mul, abs_of_nonneg (by positivity : (0 : ℚ) ≤ c * 10 ^ e)]
  cases n <;> simp

theorem adjusted_le_of_abs_lt {n : Bool} {c : Nat} {e : Int} (hc : c ≠ 0)
    (h : |toRat (.finite n c e)| < 10 ^ (maxAdjusted + 1)) : adjusted c e ≤ maxAdjusted := by
  have hpos := magnitude_pos hc e
  rw [abs_toRat] at h
  have hlog : Int.log 10 ((c : ℚ) * 10 ^ e) < maxAdjusted + 1 :=
    (Int.lt_zpow_iff_log_lt (by norm_num) hpos).mp (by exact_mod_cast h)
  rw [log_eq_adjusted hc] at hlog
  omega

theorem minExponent_le_of_roundFinite {n m : Bool} {c k : Nat} {e u : Int}
    (h : roundFinite n c e = .ok (.finite m k u)) : minExponent ≤ u := by
  have hmin : minExponent ≤ maxAdjusted := by decide
  unfold roundFinite at h
  split at h
  · cases h
    omega
  · dsimp only at h
    split at h
    · cases h
    split at h
    · cases h
      omega
    split at h
    · cases h
      omega
    split at h
    · cases h
    · cases h
      omega

theorem le_stripZeros (c : Nat) (e ceiling : Int) : e ≤ (stripZeros c e ceiling).2 := by
  fun_induction stripZeros c e ceiling with
  | case1 c e h ih => omega
  | case2 c e h => exact le_rfl

theorem stripZeros_ne_zero {c : Nat} (hc : c ≠ 0) (e ceiling : Int) :
    (stripZeros c e ceiling).1 ≠ 0 := by
  intro hzero
  have hmul := stripZeros_mul c e ceiling
  have hpos := magnitude_pos hc e
  rw [hzero, Nat.cast_zero, zero_mul] at hmul
  linarith

/-- A normal form can be written and read back. -/
theorem isReadable_of_normalize {x y : Decimal} (h : x.normalize = .ok y) : y.IsReadable := by
  cases x with
  | infinite n =>
    cases h
    trivial
  | nan n s p =>
    unfold normalize at h
    dsimp only at h
    split at h
    · cases h
    · cases h
      trivial
  | finite n c e =>
    have hrounds := normalize_rounds n c e
    have hmap := hrounds.map_toRat
    rw [h] at hmap
    have habs := abs_lt_of_rounded hmap.symm
    unfold normalize at h
    dsimp only at h
    cases hround : roundFinite n c e with
    | error f =>
      rw [hround] at h
      cases h
    | ok z =>
      have hfinite := (roundFinite_rounds n c e).isFinite z hround
      rw [hround] at h
      cases z with
      | infinite m => cases hfinite
      | nan m s p => cases hfinite
      | finite m k u =>
        have hlow := minExponent_le_of_roundFinite hround
        have hmax : maxAdjusted ≤ maxReadable := by decide
        have hmin : minReadable ≤ minExponent := by decide
        cases k with
        | zero =>
          cases h
          exact ⟨by decide, by decide⟩
        | succ k =>
          cases h
          have hexp := le_stripZeros (k + 1) u maxAdjusted
          have hne := stripZeros_ne_zero (c := k + 1) (by omega) u maxAdjusted
          have hadjusted := adjusted_le_of_abs_lt hne habs
          constructor
          · rw [if_neg hne]
            omega
          · omega

theorem normalForm_isReadable {x : Decimal} (h : x.Normalizes) : x.normalForm.IsReadable :=
  isReadable_of_normalize (normalize_eq h)

/-! ### What the normal form denotes -/

/-- The number fits the working range as it is: rounding does not change it. -/
def IsExact (x : Decimal) : Prop :=
  match x with
  | .finite .. => rounded x.toRat = .ok x.toRat
  | .infinite _ => True
  | .nan _ signalling payload => signalling = false ∧ clipPayload payload = payload

theorem IsExact.normalizes {x : Decimal} (h : x.IsExact) : x.Normalizes := by
  cases x with
  | finite n c e =>
    refine ⟨rfl, fun hover => ?_⟩
    have hmap := (normalize_rounds n c e).map_toRat
    have hexact : rounded (toRat (.finite n c e)) = .ok (toRat (.finite n c e)) := h
    rw [hover, hexact] at hmap
    cases hmap
  | infinite n => exact ⟨rfl, nofun⟩
  | nan n s p =>
    obtain ⟨rfl, -⟩ := h
    exact ⟨rfl, by simp [normalize, round]⟩

/-- A number that fits the working range agrees with its normal form. -/
theorem normalForm_agrees {x : Decimal} (h : x.IsExact) : Agrees x.normalForm x := by
  have heq := normalize_eq h.normalizes
  cases x with
  | finite n c e =>
    have hrounds := normalize_rounds n c e
    have hmap := hrounds.map_toRat
    have hexact : rounded (toRat (.finite n c e)) = .ok (toRat (.finite n c e)) := h
    rw [heq, hexact] at hmap
    exact .of_toRat_eq (hrounds.isFinite _ heq) rfl (Except.ok.inj hmap)
  | infinite n =>
    cases heq
    exact .same _
  | nan n s p =>
    obtain ⟨rfl, hp⟩ := h
    have hform : normalForm (.nan n false p) = .nan n false p := by
      simp [normalForm, normalize, round, hp]
    rw [hform]
    exact .same _

/-- A number other than zero with no more digits than the working range keeps,
    and in its bounds, is not rounded. -/
theorem roundFinite_eq {n : Bool} {c : Nat} {e : Int} (hzero : c ≠ 0)
    (hc : digitCount c ≤ precision) (hlow : minExponent ≤ e) (hhigh : adjusted c e ≤ maxAdjusted) :
    roundFinite n c e = .ok (.finite n c e) := by
  have hprecision : precision = 28 := rfl
  have hfull : maxFullExponent = maxAdjusted - 27 := by decide
  have hmin : minExponent ≤ maxFullExponent := by decide
  unfold adjusted at hhigh
  simp only [roundFinite, if_neg hzero]
  rw [if_neg (by omega), if_pos (by omega)]

/-- A number with no more digits than the working range keeps, and in its
    bounds, fits. -/
theorem isExact_of_digits {n : Bool} {c : Nat} {e : Int} (hc : digitCount c ≤ precision)
    (hlow : minExponent ≤ e) (hhigh : adjusted c e ≤ maxAdjusted) : (finite n c e).IsExact := by
  by_cases hzero : c = 0
  · subst hzero
    show rounded (toRat (.finite n 0 e)) = .ok (toRat (.finite n 0 e))
    rw [toRat_zero_coefficient, rounded_zero]
  · have hmap := (roundFinite_rounds n c e).map_toRat
    rw [roundFinite_eq hzero hc hlow hhigh] at hmap
    exact hmap.symm

end KeyFigures.Decimal
