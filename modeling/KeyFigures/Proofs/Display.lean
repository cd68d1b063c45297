/-
  KeyFigures/Proofs/Display.lean
  ==============================
  **What displayed figures say.**

  A displayed figure is the nearest number that can be shown in its place, a half
  going away from zero: an amount is the size in whole units, a percentage or a
  ratio the decimal with one or two places (`IsRoundedTo`).  The only way to fail
  is a rounded number with more digits than are kept.

  The digits of an amount stand in groups of three and can be read off by leaving
  out what separates the groups (`IsGrouped`); a percentage or a ratio is written
  with its whole digits, a point and its places.
-/
import KeyFigures.Display
import KeyFigures.Proofs.Decimal.Quantized

namespace KeyFigures

open Text
open Decimal (precision maxAdjusted adjusted digitCount signed signChars grouped pointed zeros toRat
  toRat_finite abs_toRat ten_zpow_pos IsNearest exists_isNearest quantize_eq exists_abs_eq)

/-! ### Rows of digits -/

namespace Text

/-- The digits of a number are its decimal digits. -/
theorem digits_eq_toDigits (n : Nat) : digits n = Nat.toDigits 10 n := by
  have hchar : ∀ d : Fin 10, digitChar d = Nat.digitChar d := by decide
  induction n using digits.induct with
  | case1 n h => rw [digits, if_pos h, Nat.toDigits_of_lt_base h, hchar ⟨n, h⟩]
  | case2 n h ih =>
    rw [digits, if_neg h, ih, Nat.toDigits_of_base_le (by norm_num) (not_lt.mp h),
      hchar ⟨n % 10, Nat.mod_lt n (by norm_num)⟩]

/-- The last so many digits of a number, with zeros where it has none. -/
def lastDigits : Nat → Nat → List Char
  | 0, _ => []
  | count + 1, n => lastDigits count (n / 10) ++ [digitChar (n % 10)]

@[simp]
theorem length_lastDigits (count n : Nat) : (lastDigits count n).length = count := by
  induction count generalizing n with
  | zero => rfl
  | succ count ih => simp [lastDigits, ih]

/-- Read as a number they are what is left of it without its first digits. -/
theorem valueOf_lastDigits (count n : Nat) : valueOf (lastDigits count n) = n % 10 ^ count := by
  induction count generalizing n with
  | zero => simp [lastDigits, valueOf, Nat.mod_one]
  | succ count ih =>
    rw [lastDigits, valueOf_append_singleton, ih, digitValue?_digitChar (Nat.mod_lt n (by norm_num)),
      Option.getD_some, Nat.pow_succ', Nat.mod_mul]
    ring

/-- A number with more digits than that is its first digits and its last. -/
theorem digits_eq_append_lastDigits {count n : Nat} (h : 10 ^ count ≤ n) :
    digits n = digits (n / 10 ^ count) ++ lastDigits count n := by
  induction count generalizing n with
  | zero => simp [lastDigits]
  | succ count ih =>
    have hten : ¬ n < 10 := by
      have := Nat.one_le_pow count 10 (by norm_num)
      rw [Nat.pow_succ] at h
      omega
    have hrest : 10 ^ count ≤ n / 10 := by
      rw [Nat.le_div_iff_mul_le (by norm_num)]
      rwa [Nat.pow_succ] at h
    rw [digits, if_neg hten, ih hrest, lastDigits, Nat.div_div_eq_div_mul, Nat.pow_succ',
      List.append_assoc]

theorem lastDigits_zero (count : Nat) : lastDigits count 0 = zeros count := by
  induction count with
  | zero => rfl
  | succ count ih => rw [lastDigits, Nat.zero_div, ih, zeros, zeros, List.replicate_succ']; rfl

/-- A number with no more digits than that has zeros in front of them. -/
theorem lastDigits_of_lt {count n : Nat} (hcount : 0 < count) (h : n < 10 ^ count) :
    (digits n).length ≤ count ∧
      lastDigits count n = zeros (count - (digits n).length) ++ digits n := by
  induction count generalizing n with
  | zero => omega
  | succ count ih =>
    rw [digits]
    by_cases hn : n < 10
    · rw [if_pos hn, lastDigits, Nat.div_eq_of_lt hn, Nat.mod_eq_of_lt hn, lastDigits_zero]
      exact ⟨by simp, rfl⟩
    · have hrest : n / 10 < 10 ^ count := by
        rw [Nat.div_lt_iff_lt_mul (by norm_num)]
        rwa [Nat.pow_succ] at h
      have hpos : 0 < count := by
        rcases Nat.eq_zero_or_pos count with rfl | hpos
        · simp at hrest
          omega
        · exact hpos
      obtain ⟨hlength, hlast⟩ := ih hpos hrest
      rw [if_neg hn, lastDigits, hlast, List.length_append, List.length_singleton]
      refine ⟨by omega, ?_⟩
      rw [List.append_assoc]
      congr 2
      omega

end Text

/-! ### Groups of digits -/

/-- The row `ds` in groups of three, counted from the right, with the separator
    between them; the first group has one to three. -/
def IsGrouped (separator : Char) (ds shown : List Char) : Prop :=
  ∃ (first : List Char) (groups : List (List Char)), shown = first ++ groups.flatMap (separator :: ·) ∧
    ds = first ++ groups.flatten ∧ 1 ≤ first.length ∧ first.length ≤ 3 ∧ ∀ g ∈ groups, g.length = 3

theorem isGrouped_grouped (separator : Char) {ds : List Char} (h : ds ≠ []) :
    IsGrouped separator ds (grouped separator ds) := by
  fun_induction grouped separator ds with
  | case1 ds hshort =>
    exact ⟨ds, [], by simp, by simp, List.length_pos_iff.mpr h, hshort, by simp⟩
  | case2 ds hlong ih =>
    have hne : ds.take (ds.length - 3) ≠ [] := by
      rw [ne_eq, List.take_eq_nil_iff]
      rintro (hnone | hnil)
      · omega
      · exact h hnil
    obtain ⟨first, groups, hshown, hds, hlow, hhigh, hgroups⟩ := ih hne
    rw [hshown]
    refine ⟨first, groups ++ [ds.drop (ds.length - 3)], by simp, ?_, hlow, hhigh, ?_⟩
    · rw [List.flatten_append, List.flatten_singleton, ← List.append_assoc, ← hds,
        List.take_append_drop]
    · intro g hg
      rcases List.mem_append.mp hg with hg | hg
      · exact hgroups g hg
      · rw [List.mem_singleton.mp hg, List.length_drop]
        omega

/-- Leaving out the separators gives the row back. -/
theorem IsGrouped.filter_eq {separator : Char} {ds shown : List Char}
    (h : IsGrouped separator ds shown) (hds : separator ∉ ds) :
    shown.filter (· ≠ separator) = ds := by
  obtain ⟨first, groups, rfl, rfl, -⟩ := h
  have hkept : ∀ row : List Char, separator ∉ row → row.filter (· ≠ separator) = row := by
    intro row hrow
    refine List.filter_eq_self.mpr fun c hc => ?_
    exact decide_eq_true fun heq => hrow (heq ▸ hc)
  rw [List.mem_append, not_or] at hds
  rw [List.filter_append, hkept first hds.1]
  congr 1
  have hgroups := hds.2
  induction groups with
  | nil => rfl
  | cons g groups ih =>
    rw [List.flatten_cons, List.mem_append, not_or] at hgroups
    rw [List.flatMap_cons, List.filter_append, List.filter_cons_of_neg (by simp), hkept g hgroups.1,
      ih ⟨hds.1, hgroups.2⟩ hgroups.2, List.flatten_cons]

/-! ### Decimals with places -/

namespace Decimal

/-- A number of units with places behind a point: its whole digits, without
    leading zeros, and as many places as there are. -/
theorem pointed_digits {places : Nat} (hplaces : 0 < places) (k : Nat) :
    pointed (digits k) (-(places : Int) + (digits k).length) =
      digits (k / 10 ^ places) ++ '.' :: lastDigits places k := by
  unfold pointed
  by_cases hlt : k < 10 ^ places
  · obtain ⟨hlength, hlast⟩ := lastDigits_of_lt hplaces hlt
    have hcount : (-(-(places : Int) + (digits k).length)).toNat = places - (digits k).length := by
      omega
    have hzero : digits 0 = ['0'] := by
      rw [digits, if_pos (by norm_num)]
      rfl
    rw [if_pos (by omega), Nat.div_eq_of_lt hlt, hlast, hcount, hzero]
    rfl
  · have hsplit := digits_eq_append_lastDigits (not_lt.mp hlt)
    have hlength : (digits k).length = (digits (k / 10 ^ places)).length + places := by
      conv_lhs => rw [hsplit]
      rw [List.length_append, length_lastDigits]
    have hfirst := List.length_pos_iff.mpr (digits_ne_nil (k / 10 ^ places))
    have hpoint : (-(places : Int) + (digits k).length).toNat =
        (digits (k / 10 ^ places)).length := by
      omega
    rw [if_neg (by omega), if_neg (by omega), hpoint]
    conv_lhs => rw [hsplit]
    rw [List.take_left, List.drop_left]

/-- A number of units with one to six places is written without a power of ten. -/
theorem toText_places {places : Nat} (hplaces : 0 < places) (hfew : places ≤ 6) (n : Bool)
    (k : Nat) :
    (finite n k (-places)).toText =
      String.ofList (signChars n ++ digits (k / 10 ^ places) ++ '.' :: lastDigits places k) := by
  have hlength := List.length_pos_iff.mpr (digits_ne_nil k)
  unfold toText chars
  dsimp only [isNegative]
  unfold magnitudeChars
  dsimp only
  rw [if_pos (by omega), pointed_digits hplaces, List.append_assoc]

/-- The decimal with so many places that is nearest to a number, of two that are
    equally near the one farther from zero, under the sign of the number. -/
structure IsRoundedTo (places : Nat) (x shown : Decimal) : Prop where
  exists_units : ∃ k, shown = .finite x.isNegative k (-places)
  nearest : ∀ m : ℤ, |x.toRat - shown.toRat| ≤ |x.toRat - m * 10 ^ (-(places : ℤ))|
  away : ∀ m : ℤ, |x.toRat - m * 10 ^ (-(places : ℤ))| = |x.toRat - shown.toRat| →
    |(m : ℚ) * 10 ^ (-(places : ℤ))| ≤ |shown.toRat|

/-- What is nearest to the size is nearest to the number, under its sign. -/
theorem IsNearest.isRoundedTo {places k c : Nat} {e : Int}
    (h : IsNearest k (c * 10 ^ e / 10 ^ (-(places : ℤ)))) (n : Bool) :
    IsRoundedTo places (.finite n c e) (.finite n k (-places)) := by
  have hunit := ten_zpow_pos (-(places : ℤ))
  obtain ⟨u, hu⟩ : ∃ u, u = (10 : ℚ) ^ (-(places : ℤ)) := ⟨_, rfl⟩
  obtain ⟨s, hs, hsize⟩ : ∃ s : ℤ, (if n then (-1 : ℚ) else 1) = s ∧ (s = 1 ∨ s = -1) := by
    cases n
    · exact ⟨1, by simp, .inl rfl⟩
    · exact ⟨-1, by simp, .inr rfl⟩
  obtain ⟨y, hy⟩ : ∃ y, y = (c : ℚ) * 10 ^ e / u := ⟨_, rfl⟩
  have hsquare : (s : ℚ) * s = 1 := by rcases hsize with rfl | rfl <;> norm_num
  have hone : |(s : ℚ)| = 1 := by rcases hsize with rfl | rfl <;> norm_num
  rw [← hu] at hunit
  rw [← hu, ← hy] at h
  have hvalue : (c : ℚ) * 10 ^ e = y * u := by rw [hy, div_mul_cancel₀ _ hunit.ne']
  have hynonneg : 0 ≤ y := by
    rw [hy]
    have := ten_zpow_pos e
    positivity
  -- distances from the number are those from its size, in units and under the sign
  have hdistance : ∀ m : ℤ, |s * (y * u) - m * u| = |y - (s * m : ℤ)| * u := by
    intro m
    have hfactor : (s : ℚ) * (y * u) - m * u = s * (y - (s * m : ℤ)) * u := by
      push_cast
      linear_combination ((m : ℚ) * u) * hsquare
    rw [hfactor, abs_mul, abs_mul, hone, one_mul, abs_of_pos hunit]
  have hshown : |s * (y * u) - s * (k * u)| = |y - k| * u := by
    rw [← mul_sub, ← sub_mul, abs_mul, abs_mul, hone, one_mul, abs_of_pos hunit]
  refine ⟨⟨k, rfl⟩, fun m => ?_, fun m hm => ?_⟩
  · rw [toRat_finite, toRat_finite, ← hu, hs, hvalue, hdistance, hshown]
    exact mul_le_mul_of_nonneg_right (h.nearest _) hunit.le
  · rw [toRat_finite, toRat_finite, ← hu, hs, hvalue, hdistance, hshown] at hm
    have htie := mul_right_cancel₀ hunit.ne' hm
    rw [toRat_finite, ← hu, hs, abs_mul, abs_mul, abs_mul, hone, one_mul, abs_of_pos hunit,
      abs_of_nonneg (by positivity : (0 : ℚ) ≤ k)]
    refine mul_le_mul_of_nonneg_right ?_ hunit.le
    have habs : |s * m| ≤ (k : ℤ) := h.abs_le_of_tie hynonneg htie
    have hm : |(m : ℚ)| = ((|s * m| : ℤ) : ℚ) := by
      push_cast
      rw [abs_mul, hone, one_mul]
    rw [hm]
    exact_mod_cast habs

/-- There is one such number of units. -/
theorem IsRoundedTo.unique {places k l : Nat} {x : Decimal}
    (h : IsRoundedTo places x (.finite x.isNegative k (-places)))
    (h' : IsRoundedTo places x (.finite x.isNegative l (-places))) : k = l := by
  have hunit := ten_zpow_pos (-(places : ℤ))
  have hvalue : ∀ m : ℕ, (finite x.isNegative m (-places)).toRat =
      (signed x.isNegative m : ℤ) * 10 ^ (-(places : ℤ)) := fun _ => rfl
  have hsize : ∀ m : ℕ, |(finite x.isNegative m (-places)).toRat| = m * 10 ^ (-(places : ℤ)) :=
    fun m => abs_toRat _ _ _
  have hdistance : |x.toRat - (finite x.isNegative k (-places)).toRat| =
      |x.toRat - (finite x.isNegative l (-places)).toRat| := by
    refine le_antisymm ?_ ?_
    · conv_rhs => rw [hvalue l]
      exact h.nearest _
    · conv_rhs => rw [hvalue k]
      exact h'.nearest _
  have hle := h'.away (signed x.isNegative k) (by rw [← hvalue, hdistance])
  have hge := h.away (signed x.isNegative l) (by rw [← hvalue, hdistance])
  rw [← hvalue, hsize, hsize] at hle hge
  have heq : (k : ℚ) = l := mul_right_cancel₀ hunit.ne' (le_antisymm hle hge)
  exact_mod_cast heq

end Decimal

/-! ### Figures -/

open Decimal (IsRoundedTo toText_places)

/-- What shows a number with so many places: the nearest decimal with that many,
    written out, unless it has more digits than are kept. -/
structure ShowsPlaces (places : Nat) (suffix : String) (x : Decimal) (answer : Attempt String) :
    Prop where
  exists_nearest : ∃ k, IsRoundedTo places x (.finite x.isNegative k (-places))
  refused : ∀ k, IsRoundedTo places x (.finite x.isNegative k (-places)) → 10 ^ precision ≤ k →
    answer = .error (.number .invalid)
  shown : ∀ k, IsRoundedTo places x (.finite x.isNegative k (-places)) → k < 10 ^ precision →
    ∃ text, answer = .ok (text ++ suffix) ∧
      text.toList = signChars x.isNegative ++ Nat.toDigits 10 (k / 10 ^ places) ++
        '.' :: lastDigits places k ∧
      Decimal.ofText text = .ok (.finite x.isNegative k (-places))

/-- What shows the size of a number in whole units behind a label: the digits of
    the nearest whole number in groups, unless there are more than are kept. -/
structure ShowsAmount (label : String) (x : Decimal) (answer : Attempt String) : Prop where
  exists_nearest : ∃ k, IsNearest k |x.toRat|
  refused : ∀ k, IsNearest k |x.toRat| → 10 ^ precision ≤ k → answer = .error (.number .invalid)
  shown : ∀ k, IsNearest k |x.toRat| → k < 10 ^ precision →
    ∃ row, answer = .ok (label ++ " " ++ String.ofList row) ∧
      IsGrouped groupSeparator (Nat.toDigits 10 k) row ∧
      row.filter (· ≠ groupSeparator) = Nat.toDigits 10 k

section Figures

variable {n : Bool} {c : Nat} {e : Int}

theorem isReadable_units {k places : Nat} (hk : k < 10 ^ precision) (hplaces : places ≤ precision)
    (n : Bool) : (Decimal.finite n k (-places)).IsReadable := by
  have hprecision : precision = 28 := rfl
  have hmin : Decimal.minReadable = -1999999999999999997 := rfl
  have hmax : Decimal.maxReadable = 999999999999999999 := rfl
  show (if k = 0 then -(places : Int) else adjusted k (-places)) ≤ Decimal.maxReadable ∧
    Decimal.minReadable ≤ -(places : Int)
  by_cases hzero : k = 0
  · rw [if_pos hzero]
    omega
  · have hdigits := (Decimal.digitCount_le_iff hzero).mpr hk
    rw [if_neg hzero, adjusted]
    omega

/-- Rounding to one to six places and writing the result out shows the number. -/
theorem showsPlaces {places : Nat} (hplaces : 0 < places) (hfew : places ≤ 6)
    (hrange : c = 0 ∨ adjusted c e ≤ maxAdjusted) (suffix : String) {answer : Attempt String}
    (hanswer : answer = Attempt.ofDecimal ((Decimal.finite n c e).quantize .awayFromZero (-places))
      >>= fun d => .ok (d.toText ++ suffix)) :
    ShowsPlaces places suffix (.finite n c e) answer := by
  have hprecision : precision = 28 := rfl
  have hnonneg : 0 ≤ (c : ℚ) * 10 ^ e / 10 ^ (-(places : ℤ)) := by
    have := ten_zpow_pos e
    have := ten_zpow_pos (-(places : ℤ))
    positivity
  obtain ⟨k, hk⟩ := exists_isNearest hnonneg
  have hrounded := hk.isRoundedTo n
  have hquantize := quantize_eq (n := n) (by omega) hrange hk
  refine ⟨⟨k, hrounded⟩, fun l hl hlarge => ?_, fun l hl hsmall => ?_⟩
  · obtain rfl := hrounded.unique hl
    rw [hanswer, hquantize, if_neg (not_lt.mpr hlarge)]
    rfl
  · obtain rfl := hrounded.unique hl
    rw [if_pos hsmall] at hquantize
    refine ⟨(Decimal.finite n k (-places)).toText, ?_, ?_,
      Decimal.ofText_toText (isReadable_units hsmall (by omega) n)⟩
    · rw [hanswer, hquantize]
      rfl
    · rw [toText_places hplaces hfew, String.toList_ofList, digits_eq_toDigits]
      rfl

theorem groupSeparator_not_mem_digits (k : Nat) : groupSeparator ∉ digits k := by
  intro hmem
  have hdigit := isDigit_of_mem_digits k _ hmem
  revert hdigit
  decide

theorem showsAmount (hdigits : digitCount c ≤ precision) (hrange : adjusted c e ≤ maxAdjusted)
    (label : String) : ShowsAmount label (.finite n c e) (displayValue (.finite n c e) .amount label) := by
  have hsize : |(Decimal.finite n c e).toRat| = c * 10 ^ e := abs_toRat n c e
  have hnonneg : 0 ≤ (c : ℚ) * 10 ^ e := hsize ▸ abs_nonneg _
  obtain ⟨c', e', habs, hrange', hsame⟩ := exists_abs_eq hdigits hrange n
  have hdisplay : displayValue (.finite n c e) .amount label =
      Attempt.ofDecimal ((Decimal.finite false c' e').quantize .awayFromZero 0) >>= fun d =>
        .ok (label ++ " " ++ String.ofList (d.groupedChars groupSeparator)) := by
    unfold displayValue
    dsimp only
    rw [habs]
    rfl
  have hquantize : ∀ k, IsNearest k ((c : ℚ) * 10 ^ e) →
      (Decimal.finite false c' e').quantize .awayFromZero 0 =
        if k < 10 ^ precision then .ok (.finite false k 0) else .error .invalid := by
    intro k hk
    have hunits : IsNearest k (c' * 10 ^ e' / 10 ^ (-((0 : ℕ) : ℤ))) := by
      simpa using hsame k hk
    simpa using quantize_eq (n := false) (by decide) hrange' hunits
  constructor
  · rw [hsize]
    exact exists_isNearest hnonneg
  · intro k hk hlarge
    rw [hsize] at hk
    rw [hdisplay, hquantize k hk, if_neg (not_lt.mpr hlarge)]
    rfl
  · intro k hk hsmall
    rw [hsize] at hk
    have hgrouped := isGrouped_grouped groupSeparator (Text.digits_ne_nil k)
    refine ⟨grouped groupSeparator (digits k), ?_, ?_, ?_⟩
    · rw [hdisplay, hquantize k hk, if_pos hsmall]
      rfl
    · rw [← digits_eq_toDigits]
      exact hgrouped
    · rw [← digits_eq_toDigits]
      exact hgrouped.filter_eq (groupSeparator_not_mem_digits k)

/-- **Displayed figures are correctly rounded.**  Whatever finite value of the
    working range is shown, an amount has the digits of the whole number nearest
    to its size, in groups of three, and a percentage or a ratio is the nearest
    decimal with one or two places, under the sign of the value.  A half goes
    away from zero.  It fails exactly if the rounded number has more digits than
    are kept. -/
theorem displayValue_shows_nearest (hdigits : digitCount c ≤ precision)
    (hrange : adjusted c e ≤ maxAdjusted) (n : Bool) (label : String) :
    ShowsAmount label (.finite n c e) (displayValue (.finite n c e) .amount label) ∧
    ShowsPlaces 1 "%" (.finite n c e) (displayValue (.finite n c e) .percentage label) ∧
    ShowsPlaces 2 "" (.finite n c e) (displayValue (.finite n c e) .ratio label) := by
  refine ⟨showsAmount hdigits hrange label, showsPlaces (by norm_num) (by norm_num) (.inr hrange) "%" rfl,
    showsPlaces (by norm_num) (by norm_num) (.inr hrange) "" ?_⟩
  simp only [String.append_empty]
  rfl

/-- A half below zero: the size is carried into a new group, and the sign stays
    with the places. -/
theorem displayValue_shows_nearest_half :
    digitCount 9995 ≤ precision ∧ adjusted 9995 (-1) ≤ maxAdjusted ∧
    ShowsAmount "kr" (.finite true 9995 (-1)) (.ok "kr 1\u00a0000") ∧
    ShowsPlaces 1 "%" (.finite true 9995 (-1)) (.ok "-999.5%") ∧
    ShowsPlaces 2 "" (.finite true 9995 (-1)) (.ok "-999.50") := by
  have hdigits : digitCount 9995 ≤ precision := by decide +kernel
  have hrange : adjusted 9995 (-1) ≤ maxAdjusted := by decide +kernel
  obtain ⟨hamount, hpercentage, hratio⟩ := displayValue_shows_nearest hdigits hrange true "kr"
  have hshown : displayValue (.finite true 9995 (-1)) .amount "kr" = .ok "kr 1\u00a0000" ∧
      displayValue (.finite true 9995 (-1)) .percentage "kr" = .ok "-999.5%" ∧
      displayValue (.finite true 9995 (-1)) .ratio "kr" = .ok "-999.50" := by
    decide +kernel
  rw [hshown.1] at hamount
  rw [hshown.2.1] at hpercentage
  rw [hshown.2.2] at hratio
  exact ⟨hdigits, hrange, hamount, hpercentage, hratio⟩

end Figures

end KeyFigures
