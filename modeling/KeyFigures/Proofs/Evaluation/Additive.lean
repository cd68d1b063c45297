/-
  KeyFigures/Proofs/Evaluation/Additive.lean
  ==========================================
  **Trees that read ledgers additively.**

  References, additions and subtractions read ledgers additively: on ledgers put
  one after another a tree of them has the sum of its readings
  (`Term.IsAdditive.reading_flatten`), and a reference that matches nothing in all
  of them matches nothing in any (`AccountReference.unmatchedTexts_subset`).

  Nothing is rounded on the way as long as the amounts are not too large for the
  places that they have (`Term.IsAdditive.isExactAcross`).
-/
import KeyFigures.Proofs.Evaluation.RowOrder

namespace KeyFigures

open AccountReference (unmatchedTexts)
open Decimal (Denotes IsRepresentable)

/-! ### Additive trees -/

/-- What matches nothing in a whole matches nothing in its parts. -/
theorem AccountReference.unmatchedTexts_subset {balances more : List AccountBalance}
    (h : balances ⊆ more) (refs : List AccountReference) :
    unmatchedTexts more refs ⊆ unmatchedTexts balances refs := by
  intro s hs
  unfold unmatchedTexts at hs ⊢
  rw [List.mem_eraseDups] at hs ⊢
  obtain ⟨ref, href, rfl⟩ := List.mem_map.mp hs
  obtain ⟨href, hunmatched⟩ := List.mem_filter.mp href
  rw [AccountReference.isUnmatched_iff] at hunmatched
  refine List.mem_map.mpr ⟨ref, List.mem_filter.mpr ⟨href, ?_⟩, rfl⟩
  exact AccountReference.isUnmatched_iff.mpr fun b hb => hunmatched b (h hb)

/-- The result is valid with a value that denotes the number, and has all these
    warnings. -/
structure Result.Covers (r : Result) (x : ℚ) (warnings : List Warning) : Prop where
  isValid : r.isValid = true
  value : ∃ d, r.value? = some d ∧ d.Denotes x
  subset : warnings ⊆ r.warnings

/-- What the tree warns of where it has a value. -/
def Term.unmatchedWarnings (balances : List AccountBalance) (t : Term) : List Warning :=
  (unmatchedTexts balances t.accountReferences).map fun s => ⟨.text s⟩

namespace Term

/-- A tree of references, additions and subtractions. -/
def IsAdditive : Term → Prop
  | .account _ => True
  | .binary left op right => left.IsAdditive ∧ (op = .add ∨ op = .sub) ∧ right.IsAdditive
  | .grouping inner => inner.IsAdditive
  | .constant _ | .formula _ | .unsupported .. | .foreign _ => False

/-- Nothing is rounded: neither on a ledger, nor on all ledgers in one, nor in a
    running sum of the readings. -/
structure IsExactAcross (ledgers : List (List AccountBalance)) (t : Term) : Prop where
  each : ∀ balances ∈ ledgers, t.IsExactOn balances
  whole : t.IsExactOn ledgers.flatten
  sums : ∀ seen, seen <+: ledgers.map (reading · t) → IsRepresentable seen.sum

namespace IsAdditive

variable {t : Term} {balances more : List AccountBalance}

theorem isArithmetic (h : t.IsAdditive) : t.IsArithmetic := by
  induction t with
  | account ref => trivial
  | binary left op right ihl ihr => exact ⟨ihl h.1, ihr h.2.2⟩
  | grouping inner ih => exact ih h
  | _ => exact h.elim

/-- Nothing is divided. -/
theorem not_reachesZero (h : t.IsAdditive) : ¬t.ReachesZero balances := by
  induction t with
  | binary left op right ihl ihr =>
    rintro (hzero | hzero | ⟨rfl, -⟩)
    · exact ihl h.1 hzero
    · exact ihr h.2.2 hzero
    · rcases h.2.1 with hop | hop <;> cases hop
  | grouping inner ih => exact ih h
  | _ => exact id

theorem reading_nil (h : t.IsAdditive) : t.reading [] = 0 := by
  induction t with
  | account ref => rfl
  | binary left op right ihl ihr =>
    rw [reading, ihl h.1, ihr h.2.2]
    rcases h.2.1 with rfl | rfl <;> norm_num [Operator.exactly]
  | grouping inner ih => exact ih h
  | _ => exact h.elim

/-- Readings of two ledgers add up. -/
theorem reading_append (h : t.IsAdditive) :
    t.reading (balances ++ more) = t.reading balances + t.reading more := by
  induction t with
  | account ref => simp [reading]
  | binary left op right ihl ihr =>
    simp only [reading]
    rw [ihl h.1, ihr h.2.2]
    rcases h.2.1 with rfl | rfl
    · exact add_add_add_comm _ _ _ _
    · exact add_sub_add_comm _ _ _ _
  | grouping inner ih => exact ih h
  | _ => exact h.elim

/-- **Readings of ledgers add up to the reading of all ledgers in one.** -/
theorem reading_flatten (h : t.IsAdditive) (ledgers : List (List AccountBalance)) :
    t.reading ledgers.flatten = (ledgers.map (reading · t)).sum := by
  induction ledgers with
  | nil => exact h.reading_nil
  | cons balances ledgers ih =>
    rw [List.flatten_cons, h.reading_append, ih, List.map_cons, List.sum_cons]

/-- Where nothing is rounded an additive tree has a value that denotes its
    reading, and warns of the references that match nothing. -/
theorem exists_result (h : t.IsAdditive) (kind : ResultKind)
    (hfinite : ∀ b ∈ balances, b.balance.isFinite)
    (hread : ∀ ref ∈ t.accountReferences, ref.CanRead balances) (hexact : t.IsExactOn balances) :
    ∃ r, t.result balances kind = .ok r ∧ r.Covers (t.reading balances) r.warnings ∧
      r.warnings = t.unmatchedWarnings balances := by
  obtain ⟨d, hrun, hd⟩ :=
    (t.run_reading h.isArithmetic hfinite hread hexact []).2 h.not_reachesZero
  obtain ⟨warnings, hr⟩ := result_of_run_ok kind hrun
  exact ⟨_, hr, ⟨rfl, ⟨d, rfl, hd⟩, List.Subset.refl _⟩, warnings_of_result_valid hr rfl⟩

end IsAdditive

end Term

/-! ### Amounts that are never rounded -/

section Amounts

variable {k : Nat} {t : Term} {balances : List AccountBalance}

/-- Finite balances with at most `k` places, of which so many times as the tree
    has references fit the digits that go with them. -/
structure AreAmounts (k : Nat) (t : Term) (balances : List AccountBalance) : Prop where
  le : k ≤ 28
  finite : ∀ b ∈ balances, b.balance.isFinite
  places : ∀ b ∈ balances, -(k : Int) ≤ b.balance.exponent
  small : t.accountReferences.length * (balances.map fun b => |b.balance.toRat|).sum < 10 ^ (28 - k)

namespace AreAmounts

theorem sublist (h : AreAmounts k t balances) {part : List AccountBalance}
    (hpart : part.Sublist balances) : AreAmounts k t part where
  le := h.le
  finite b hb := h.finite b (hpart.subset hb)
  places b hb := h.places b (hpart.subset hb)
  small := lt_of_le_of_lt (mul_le_mul_of_nonneg_left (sum_abs_le hpart) (Nat.cast_nonneg _)) h.small

/-- Part of a tree has no more references. -/
theorem of_le (h : AreAmounts k t balances) {part : Term}
    (hpart : part.accountReferences.length ≤ t.accountReferences.length) :
    AreAmounts k part balances := by
  have hsum : 0 ≤ (balances.map fun b => |b.balance.toRat|).sum :=
    (abs_nonneg _).trans (abs_exactSum_le balances)
  refine { h with small := lt_of_le_of_lt (mul_le_mul_of_nonneg_right ?_ hsum) h.small }
  exact_mod_cast hpart

end AreAmounts

/-- The sum of balances with at most `k` places is a number with at most `k`
    places. -/
theorem exists_units_exactSum (hfinite : ∀ b ∈ balances, b.balance.isFinite)
    (hplaces : ∀ b ∈ balances, -(k : Int) ≤ b.balance.exponent) :
    ∃ m : ℤ, exactSum balances = m * 10 ^ (-(k : Int)) := by
  induction balances with
  | nil => exact ⟨0, by simp [exactSum]⟩
  | cons b balances ih =>
    obtain ⟨hb, hfinite⟩ := List.forall_mem_cons.mp hfinite
    obtain ⟨hplace, hplaces⟩ := List.forall_mem_cons.mp hplaces
    obtain ⟨m, hm⟩ := ih hfinite hplaces
    obtain ⟨m', hm'⟩ := (Decimal.denotes_toRat hb).exists_units hplace
    refine ⟨m' + m, ?_⟩
    rw [exactSum, List.map_cons, List.sum_cons, ← exactSum, hm, hm', Int.cast_add, add_mul]

namespace Term.IsAdditive

/-- So is the reading of a ledger of such balances. -/
theorem exists_units (h : t.IsAdditive) (hfinite : ∀ b ∈ balances, b.balance.isFinite)
    (hplaces : ∀ b ∈ balances, -(k : Int) ≤ b.balance.exponent) :
    ∃ m : ℤ, t.reading balances = m * 10 ^ (-(k : Int)) := by
  induction t with
  | account ref =>
    exact exists_units_exactSum (fun b hb => hfinite b (List.mem_of_mem_filter hb))
      fun b hb => hplaces b (List.mem_of_mem_filter hb)
  | binary left op right ihl ihr =>
    obtain ⟨m, hm⟩ := ihl h.1
    obtain ⟨m', hm'⟩ := ihr h.2.2
    rcases h.2.1 with rfl | rfl
    · exact ⟨m + m', by rw [reading, hm, hm', Operator.exactly, Int.cast_add, add_mul]⟩
    · exact ⟨m - m', by rw [reading, hm, hm', Operator.exactly, Int.cast_sub, sub_mul]⟩
  | grouping inner ih => exact ih h
  | _ => exact h.elim

/-- Every reference adds at most the absolute values of all balances. -/
theorem abs_reading_le (h : t.IsAdditive) :
    |t.reading balances| ≤
      t.accountReferences.length * (balances.map fun b => |b.balance.toRat|).sum := by
  induction t with
  | account ref =>
    simpa [reading] using
      (abs_exactSum_le (ref.picked balances)).trans (sum_abs_le List.filter_sublist)
  | binary left op right ihl ihr =>
    have hparts : |(binary left op right).reading balances| ≤
        |left.reading balances| + |right.reading balances| := by
      rcases h.2.1 with rfl | rfl
      · exact abs_add_le _ _
      · exact abs_sub _ _
    rw [accountReferences_binary, List.length_append, Nat.cast_add, add_mul]
    exact hparts.trans (add_le_add (ihl h.1) (ihr h.2.2))
  | grouping inner ih => simpa [reading] using ih h
  | _ => exact h.elim

theorem isRepresentable_reading (h : t.IsAdditive) (hamounts : AreAmounts k t balances) :
    IsRepresentable (t.reading balances) := by
  obtain ⟨m, hm⟩ := h.exists_units hamounts.finite hamounts.places
  have hfits : Decimal.Fits (-k) (t.reading balances) :=
    (fits_iff_places hamounts.le).mpr (lt_of_le_of_lt h.abs_reading_le hamounts.small)
  have hlow : Decimal.minExponent ≤ -(k : Int) := by
    have hmin : Decimal.minExponent = -1000026 := by decide
    have hk := hamounts.le
    omega
  rw [hm] at hfits ⊢
  exact Decimal.isRepresentable_of_fits hlow (by omega) hfits

theorem isExactOn (h : t.IsAdditive) (hamounts : AreAmounts k t balances) :
    t.IsExactOn balances := by
  induction t with
  | account ref =>
    intro seen hseen
    have hpart : (account ref).IsAdditive := trivial
    exact hpart.isRepresentable_reading (hamounts.sublist hseen.sublist)
  | binary left op right ihl ihr =>
    exact ⟨ihl h.1 (hamounts.of_le (by simp)), fun _ => ⟨ihr h.2.2 (hamounts.of_le (by simp)),
      fun _ => h.isRepresentable_reading hamounts⟩⟩
  | grouping inner ih => exact ih h (hamounts.of_le (by simp))
  | _ => exact h.elim

/-- **Amounts with few places are consolidated exactly**, as long as so many
    times their absolute values as the tree has references leave the digits that
    go with the places. -/
theorem isExactAcross (h : t.IsAdditive) {ledgers : List (List AccountBalance)}
    (hamounts : AreAmounts k t ledgers.flatten) : t.IsExactAcross ledgers where
  each balances hbalances :=
    h.isExactOn (hamounts.sublist (List.sublist_flatten_of_mem hbalances))
  whole := h.isExactOn hamounts
  sums := by
    intro seen hseen
    obtain ⟨first, hfirst, rfl⟩ := List.prefix_map_iff.mp hseen
    rw [← h.reading_flatten]
    exact h.isRepresentable_reading (hamounts.sublist hfirst.sublist.flatten)

end Term.IsAdditive

end Amounts

end KeyFigures
