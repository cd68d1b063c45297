/-
  KeyFigures/Proofs/Decimal/Agreement.lean
  ========================================
  **Arithmetic does not see how a number is written.**

  Two decimals agree if they are the same or denote the same number: `1.0` and
  `1.00` agree, and so do the two zeros, while a not-a-number agrees only with
  itself.  Every operation takes agreeing operands to agreeing results, or to
  the same fault (`add_agrees`, `sub_agrees`, `mul_agrees`, `div_agrees`), since
  on finite numbers it rounds the exact result.
-/
import KeyFigures.Proofs.Decimal.Arithmetic

namespace KeyFigures

/-! ### Computations that may fail -/

/-- Two computations fail alike, or have results that are related. -/
def Alike {ε α β : Type} (R : α → β → Prop) : Except ε α → Except ε β → Prop
  | .ok a, .ok b => R a b
  | .error e, .error f => e = f
  | _, _ => False

namespace Alike

variable {ε δ α β γ : Type} {R : α → α → Prop}

theorem refl (h : ∀ a, R a a) (x : Except ε α) : Alike R x x := by
  cases x with
  | ok a => exact h a
  | error e => rfl

theorem symm {S : β → α → Prop} {T : α → β → Prop} {x : Except ε α} {y : Except ε β}
    (h : Alike T x y) (hS : ∀ {a b}, T a b → S b a) : Alike S y x := by
  cases x with
  | ok a =>
    cases y with
    | ok b => exact hS h
    | error e => exact h.elim
  | error e =>
    cases y with
    | ok b => exact h.elim
    | error e' => exact Eq.symm h

theorem trans {x y z : Except ε α} (hxy : Alike R x y) (hyz : Alike R y z)
    (hR : ∀ a b c, R a b → R b c → R a c) : Alike R x z := by
  cases x <;> cases y <;> cases z
  all_goals first | exact hxy.elim | exact hyz.elim | exact hR _ _ _ hxy hyz | exact Eq.trans hxy hyz

theorem mapError {x y : Except ε α} (h : Alike R x y) (f : ε → δ) :
    Alike R (x.mapError f) (y.mapError f) := by
  cases x <;> cases y <;> simp_all [Alike, Except.mapError]

theorem map {S : β → β → Prop} {x y : Except ε α} (h : Alike R x y) {f g : α → β}
    (hf : ∀ a b, R a b → S (f a) (g b)) : Alike S (x.map f) (y.map g) := by
  cases x <;> cases y <;> simp_all [Alike, Except.map]

theorem bind {S : β → γ → Prop} {T : α → δ → Prop} {x : Except ε α} {y : Except ε δ}
    {f : α → Except ε β} {g : δ → Except ε γ} (h : Alike T x y)
    (hf : ∀ a b, T a b → Alike S (f a) (g b)) : Alike S (x >>= f) (y >>= g) := by
  cases x with
  | ok a =>
    cases y with
    | ok b => exact hf a b h
    | error e => exact h.elim
  | error e =>
    cases y with
    | ok b => exact h.elim
    | error e' => exact h

end Alike

namespace Decimal

/-! ### Numbers that denote the same -/

/-- Two decimals are the same, or finite and of the same value. -/
inductive Agrees : Decimal → Decimal → Prop where
  | same (x : Decimal) : Agrees x x
  | finite {n₁ n₂ : Bool} {c₁ c₂ : Nat} {e₁ e₂ : Int}
      (h : toRat (.finite n₁ c₁ e₁) = toRat (.finite n₂ c₂ e₂)) :
      Agrees (.finite n₁ c₁ e₁) (.finite n₂ c₂ e₂)

namespace Agrees

theorem of_toRat_eq {x y : Decimal} (hx : x.isFinite) (hy : y.isFinite)
    (h : x.toRat = y.toRat) : Agrees x y := by
  cases x with
  | finite n₁ c₁ e₁ =>
    cases y with
    | finite n₂ c₂ e₂ => exact .finite h
    | _ => simp [isFinite] at hy
  | _ => simp [isFinite] at hx

theorem symm {x y : Decimal} (h : Agrees x y) : Agrees y x := by
  cases h with
  | same x => exact .same x
  | finite h => exact .finite h.symm

theorem trans {x y z : Decimal} (hxy : Agrees x y) (hyz : Agrees y z) : Agrees x z := by
  cases hxy with
  | same x => exact hyz
  | finite h =>
    cases hyz with
    | same y => exact .finite h
    | finite h' => exact .finite (h.trans h')

end Agrees

theorem Rounds.alike {r s : Except Fault Decimal} {x y : ℚ} (hr : Rounds r x) (hs : Rounds s y)
    (h : x = y) : Alike Agrees r s := by
  have hmap : r.map toRat = s.map toRat := by rw [hr.map_toRat, hs.map_toRat, h]
  cases r with
  | error e =>
    cases s with
    | error f => simpa [Except.map, Alike] using hmap
    | ok y => simp [Except.map] at hmap
  | ok x =>
    cases s with
    | error f => simp [Except.map] at hmap
    | ok y =>
      have hvalue : x.toRat = y.toRat := by simpa [Except.map] using hmap
      exact .of_toRat_eq (hr.isFinite x rfl) (hs.isFinite y rfl) hvalue

theorem toRat_eq_zero_iff {n : Bool} {c : Nat} {e : Int} :
    toRat (.finite n c e) = 0 ↔ c = 0 := by
  have hten := (ten_zpow_pos e).ne'
  rw [toRat_finite]
  cases n <;> simp [hten]

theorem toRat_neg_iff {n : Bool} {c : Nat} {e : Int} :
    toRat (.finite n c e) < 0 ↔ n = true ∧ c ≠ 0 := by
  by_cases hc : c = 0
  · simp [hc, toRat_finite]
  · have hpos := magnitude_pos hc e
    rw [toRat_finite]
    cases n with
    | false => simp [hc, hpos.le]
    | true => simpa [hc] using hpos

variable {n₁ n₂ : Bool} {c₁ c₂ : Nat} {e₁ e₂ : Int}

theorem coefficient_eq_zero_congr (h : toRat (.finite n₁ c₁ e₁) = toRat (.finite n₂ c₂ e₂)) :
    c₁ = 0 ↔ c₂ = 0 := by
  rw [← toRat_eq_zero_iff (n := n₁) (e := e₁), h, toRat_eq_zero_iff]

/-- The sign of a number other than zero is a matter of its value. -/
theorem negative_eq_of_toRat_eq (h : toRat (.finite n₁ c₁ e₁) = toRat (.finite n₂ c₂ e₂))
    (hc : c₁ ≠ 0) : n₁ = n₂ := by
  have hc₂ : c₂ ≠ 0 := (coefficient_eq_zero_congr h).not.mp hc
  have hsign := toRat_neg_iff (n := n₁) (c := c₁) (e := e₁)
  rw [h, toRat_neg_iff] at hsign
  cases n₁ <;> cases n₂ <;> simp_all

/-! ### Operations -/

theorem add_agrees {x x' y y' : Decimal} (hx : Agrees x x') (hy : Agrees y y') :
    Alike Agrees (x.add y) (x'.add y') := by
  cases hx with
  | same x =>
    cases hy with
    | same y => exact Alike.refl Agrees.same _
    | finite hy =>
      cases x with
      | finite n c e => exact add_rounds.alike add_rounds (by rw [hy])
      | infinite m => exact Alike.refl Agrees.same _
      | nan n s p => cases s <;> exact Alike.refl Agrees.same _
  | finite hx =>
    cases hy with
    | same y =>
      cases y with
      | finite n c e => exact add_rounds.alike add_rounds (by rw [hx])
      | infinite m => exact Alike.refl Agrees.same _
      | nan n s p => cases s <;> exact Alike.refl Agrees.same _
    | finite hy => exact add_rounds.alike add_rounds (by rw [hx, hy])

theorem flipSign_agrees {x y : Decimal} (h : Agrees x y) : Agrees x.flipSign y.flipSign := by
  cases h with
  | same x => exact .same _
  | @finite n₁ n₂ c₁ c₂ e₁ e₂ h =>
    have hflip : ∀ (n : Bool) (c : Nat) (e : Int),
        toRat (.finite (!n) c e) = -toRat (.finite n c e) := by
      intro n c e
      rw [toRat_finite, toRat_finite]
      cases n <;> simp
    apply Agrees.finite
    rw [hflip, hflip, h]

theorem passNan_congr {x x' y y' : Decimal} (hx : Agrees x x') (hy : Agrees y y') :
    passNan x y = passNan x' y' := by
  cases hx <;> cases hy <;> rfl

theorem sub_agrees {x x' y y' : Decimal} (hx : Agrees x x') (hy : Agrees y y') :
    Alike Agrees (x.sub y) (x'.sub y') := by
  unfold sub
  rw [passNan_congr hx hy]
  cases passNan x' y' with
  | some r => exact Alike.refl Agrees.same r
  | none => exact add_agrees hx (flipSign_agrees hy)

/-- Beside an infinite factor, only whether a number is zero and its sign
    matter. -/
theorem mul_infinite_congr (m : Bool) (h : toRat (.finite n₁ c₁ e₁) = toRat (.finite n₂ c₂ e₂)) :
    mul (.infinite m) (.finite n₁ c₁ e₁) = mul (.infinite m) (.finite n₂ c₂ e₂) ∧
      mul (.finite n₁ c₁ e₁) (.infinite m) = mul (.finite n₂ c₂ e₂) (.infinite m) := by
  have hzero := coefficient_eq_zero_congr h
  by_cases hc : c₁ = 0
  · simp [mul, passNan, isSignalling, isNan, isZero, hc, hzero.mp hc]
  · have hsign := negative_eq_of_toRat_eq h hc
    simp [mul, passNan, isSignalling, isNan, isZero, isNegative, hc, hzero.not.mp hc, hsign]

theorem mul_agrees {x x' y y' : Decimal} (hx : Agrees x x') (hy : Agrees y y') :
    Alike Agrees (x.mul y) (x'.mul y') := by
  cases hx with
  | same x =>
    cases hy with
    | same y => exact Alike.refl Agrees.same _
    | finite hy =>
      cases x with
      | finite n c e => exact mul_rounds.alike mul_rounds (by rw [hy])
      | infinite m =>
        rw [(mul_infinite_congr m hy).1]
        exact Alike.refl Agrees.same _
      | nan n s p => cases s <;> exact Alike.refl Agrees.same _
  | finite hx =>
    cases hy with
    | same y =>
      cases y with
      | finite n c e => exact mul_rounds.alike mul_rounds (by rw [hx])
      | infinite m =>
        rw [(mul_infinite_congr m hx).2]
        exact Alike.refl Agrees.same _
      | nan n s p => cases s <;> exact Alike.refl Agrees.same _
    | finite hy => exact mul_rounds.alike mul_rounds (by rw [hx, hy])

/-- Quotients agree where the divisor is not zero. -/
theorem div_agrees {x x' y y' : Decimal} (hx : Agrees x x') (hy : Agrees y y')
    (hne : y.isZero = false) : Alike Agrees (x.div y) (x'.div y') := by
  cases hx with
  | same x =>
    cases hy with
    | same y => exact Alike.refl Agrees.same _
    | @finite n₁ n₂ c₁ c₂ e₁ e₂ hy =>
      have hc₁ : c₁ ≠ 0 := by simpa [isZero] using hne
      have hc₂ : c₂ ≠ 0 := (coefficient_eq_zero_congr hy).not.mp hc₁
      cases x with
      | finite n c e => exact (div_rounds hc₁).alike (div_rounds hc₂) (by rw [hy])
      | infinite m =>
        rw [negative_eq_of_toRat_eq hy hc₁]
        exact Alike.refl Agrees.same _
      | nan n s p => cases s <;> exact Alike.refl Agrees.same _
  | @finite n₁ n₂ c₁ c₂ e₁ e₂ hx =>
    cases hy with
    | same y =>
      cases y with
      | finite n c e =>
        have hc : c ≠ 0 := by simpa [isZero] using hne
        exact (div_rounds hc).alike (div_rounds hc) (by rw [hx])
      | infinite m => exact .finite (by simp [toRat_finite])
      | nan n s p => cases s <;> exact Alike.refl Agrees.same _
    | @finite m₁ m₂ d₁ d₂ f₁ f₂ hy =>
      have hd₁ : d₁ ≠ 0 := by simpa [isZero] using hne
      have hd₂ : d₂ ≠ 0 := (coefficient_eq_zero_congr hy).not.mp hd₁
      exact (div_rounds hd₁).alike (div_rounds hd₂) (by rw [hx, hy])

theorem equalValue_zero_finite (n : Bool) (c : Nat) (e : Int) :
    equalValue (.finite n c e) .zero = .ok (c == 0) := by
  by_cases hc : c = 0
  · simp [equalValue, isSignalling, compareValue, compareFinite, zero, ofNat, hc]
  · cases n <;>
      simp [equalValue, isSignalling, compareValue, compareFinite, zero, ofNat, hc]

theorem isZero_eq_false_of_equalValue {y : Decimal} (h : y.equalValue .zero = .ok false) :
    y.isZero = false := by
  cases y with
  | finite n c e =>
    rw [equalValue_zero_finite] at h
    simpa [isZero] using h
  | _ => rfl

theorem equalValue_zero_congr {y y' : Decimal} (h : Agrees y y') :
    y.equalValue .zero = y'.equalValue .zero := by
  cases h with
  | same y => rfl
  | finite h =>
    rw [equalValue_zero_finite, equalValue_zero_finite]
    congr 1
    exact Bool.eq_iff_iff.mpr (by simpa using coefficient_eq_zero_congr h)

/-- Equal magnitudes are in no order, however they are written. -/
theorem compareMagnitude_eq {c₁ c₂ : Nat} {e₁ e₂ : Int} (h₁ : c₁ ≠ 0) (h₂ : c₂ ≠ 0)
    (h : (c₁ : ℚ) * 10 ^ e₁ = c₂ * 10 ^ e₂) : compareMagnitude c₁ e₁ c₂ e₂ = .eq := by
  have hadjusted : adjusted c₁ e₁ = adjusted c₂ e₂ := by
    rw [← log_eq_adjusted h₁, ← log_eq_adjusted h₂, h]
  have hcoefficient : coefficientAt .toEven c₁ e₁ (min e₁ e₂) =
      coefficientAt .toEven c₂ e₂ (min e₁ e₂) := by
    have hten := ten_zpow_pos (min e₁ e₂)
    have heq : (coefficientAt .toEven c₁ e₁ (min e₁ e₂) : ℚ) * 10 ^ min e₁ e₂ =
        coefficientAt .toEven c₂ e₂ (min e₁ e₂) * 10 ^ min e₁ e₂ := by
      rw [coefficientAt_mul (min_le_left _ _), coefficientAt_mul (min_le_right _ _), h]
    exact_mod_cast mul_right_cancel₀ hten.ne' heq
  simp [compareMagnitude, hadjusted, hcoefficient]

theorem compareFinite_eq {n₁ n₂ : Bool} {c₁ c₂ : Nat} {e₁ e₂ : Int}
    (h : toRat (.finite n₁ c₁ e₁) = toRat (.finite n₂ c₂ e₂)) :
    compareFinite n₁ c₁ e₁ n₂ c₂ e₂ = .eq := by
  by_cases h₁ : c₁ = 0
  · have h₂ : c₂ = 0 := (coefficient_eq_zero_congr h).mp h₁
    simp [compareFinite, h₁, h₂]
  · have h₂ : c₂ ≠ 0 := (coefficient_eq_zero_congr h).not.mp h₁
    obtain rfl := negative_eq_of_toRat_eq h h₁
    have hmagnitude : (c₁ : ℚ) * 10 ^ e₁ = c₂ * 10 ^ e₂ := by
      cases n₁ <;> simpa [toRat_finite] using h
    cases n₁
    · simp [compareFinite, h₁, h₂, compareMagnitude_eq h₁ h₂ hmagnitude]
    · simp [compareFinite, h₁, h₂, compareMagnitude_eq h₂ h₁ hmagnitude.symm]

/-- Numbers that agree are equal by value. -/
theorem equalValue_of_agrees {x y : Decimal} (h : Agrees x y) (hx : x.isFinite) :
    x.equalValue y = .ok true := by
  have heq : ∀ n₁ c₁ e₁ n₂ c₂ e₂,
      toRat (.finite n₁ c₁ e₁) = toRat (.finite n₂ c₂ e₂) →
      equalValue (.finite n₁ c₁ e₁) (.finite n₂ c₂ e₂) = .ok true := by
    intro n₁ c₁ e₁ n₂ c₂ e₂ h
    simp [equalValue, isSignalling, compareValue, compareFinite_eq h]
  cases h with
  | same x =>
    cases x with
    | finite n c e => exact heq _ _ _ _ _ _ rfl
    | _ => simp [isFinite] at hx
  | finite h => exact heq _ _ _ _ _ _ h

end Decimal

end KeyFigures
