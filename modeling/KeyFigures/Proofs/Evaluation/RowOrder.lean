/-
  KeyFigures/Proofs/Evaluation/RowOrder.lean
  ==========================================
  **The order of the rows does not matter.**

  Rounded sums depend on the order of their parts.  On a ledger whose balances
  have few places and are small enough together (`OnGrid`), no sum is ever
  rounded, whatever the order, and what a reference comes to is known down to
  the writing of its total (`AccountReference.resolve_counts`): the exact sum in
  units of the smallest exponent.  Neither that nor the number of balances that
  are selected depends on the order, so an evaluation yields the same result on
  every rearrangement of the ledger (`evaluate_perm`).

  An account number that cannot be read makes a range fail in every order, but
  not with the same message: the first such number is named.
-/
import KeyFigures.Proofs.Evaluation.Exact

namespace KeyFigures

open Decimal (Fits Counts)
open AccountReference (warningsOf)

/-! ### Ledgers on a grid -/

/-- Finite balances with at most `k` places, which have no more than the digits
    before the point that go with them, all together. -/
structure OnGrid (k : Nat) (balances : List AccountBalance) : Prop where
  finite : ∀ b ∈ balances, b.balance.isFinite
  places : ∀ b ∈ balances, -(k : Int) ≤ b.balance.exponent
  small : (balances.map fun b => |b.balance.toRat|).sum < 10 ^ (28 - k)

/-- The smallest exponent that a sum of balances meets; it starts from zero. -/
def leastExponent (balances : List AccountBalance) : Int :=
  (balances.map (·.balance.exponent)).foldl min 0

theorem leastExponent_append (balances : List AccountBalance) (b : AccountBalance) :
    leastExponent (balances ++ [b]) = min (leastExponent balances) b.balance.exponent := by
  unfold leastExponent
  rw [List.map_append, List.foldl_append]
  rfl

theorem leastExponent_le (balances : List AccountBalance) : leastExponent balances ≤ 0 := by
  induction balances using List.reverseRecOn with
  | nil => exact le_rfl
  | append_singleton balances b ih =>
    rw [leastExponent_append]
    exact (min_le_left _ _).trans ih

theorem le_leastExponent {p : Int} (hp : p ≤ 0) {balances : List AccountBalance}
    (h : ∀ b ∈ balances, p ≤ b.balance.exponent) : p ≤ leastExponent balances := by
  induction balances using List.reverseRecOn with
  | nil => exact hp
  | append_singleton balances b ih =>
    obtain ⟨hbalances, hb⟩ := List.forall_mem_append.mp h
    rw [leastExponent_append]
    exact le_min (ih hbalances) (hb b List.mem_cons_self)

theorem leastExponent_perm {balances balances' : List AccountBalance}
    (h : balances.Perm balances') : leastExponent balances = leastExponent balances' :=
  (h.map _).foldl_eq 0

theorem exactSum_perm {balances balances' : List AccountBalance} (h : balances.Perm balances') :
    exactSum balances = exactSum balances' :=
  (h.map _).sum_eq

theorem abs_exactSum_le (balances : List AccountBalance) :
    |exactSum balances| ≤ (balances.map fun b => |b.balance.toRat|).sum :=
  Decimal.abs_sum_map_le (fun b : AccountBalance => b.balance.toRat) balances

/-- With at most `k` places there are so many digits left before the point. -/
theorem fits_iff_places {k : Nat} (hk : k ≤ 28) {x : ℚ} : Fits (-k) x ↔ |x| < 10 ^ (28 - k) := by
  have hexp : -(k : Int) + Decimal.precision = ((28 - k : ℕ) : ℤ) := by
    unfold Decimal.precision
    omega
  unfold Fits
  rw [hexp, zpow_natCast]

theorem sum_abs_le {balances balances' : List AccountBalance} (h : balances'.Sublist balances) :
    (balances'.map fun b => |b.balance.toRat|).sum ≤
      (balances.map fun b => |b.balance.toRat|).sum :=
  Decimal.sum_abs_map_le (fun b : AccountBalance => b.balance.toRat) h

namespace OnGrid

variable {k : Nat} {balances balances' : List AccountBalance}

theorem perm (h : OnGrid k balances) (hperm : balances.Perm balances') : OnGrid k balances' where
  finite := fun b hb => h.finite b (hperm.mem_iff.mpr hb)
  places := fun b hb => h.places b (hperm.mem_iff.mpr hb)
  small := by
    rw [← (hperm.map fun b => |b.balance.toRat|).sum_eq]
    exact h.small

theorem sublist (h : OnGrid k balances) (hsub : balances'.Sublist balances) :
    OnGrid k balances' where
  finite := fun b hb => h.finite b (hsub.subset hb)
  places := fun b hb => h.places b (hsub.subset hb)
  small := lt_of_le_of_lt (sum_abs_le hsub) h.small

/-- Whatever is added up from such a ledger fits the grid. -/
theorem fits (h : OnGrid k balances) (hk : k ≤ 28) : Fits (-k) (exactSum balances) :=
  (fits_iff_places hk).mpr (lt_of_le_of_lt (abs_exactSum_le balances) h.small)

end OnGrid

/-! ### References -/

namespace AccountReference

variable {ref : AccountReference} {k : Nat} {balances balances' : List AccountBalance}

theorem CanRead.perm (h : ref.CanRead balances) (hperm : balances.Perm balances') :
    ref.CanRead balances' :=
  fun b hb => h b (hperm.mem_iff.mpr hb)

/-- A reference that comes to something could read every account number. -/
theorem canRead_of_collect {s s' : Selection} (h : balances.foldlM ref.collect s = .ok s') :
    ref.CanRead balances := by
  induction balances generalizing s with
  | nil => nofun
  | cons b balances ih =>
    rw [List.foldlM_cons] at h
    obtain ⟨next, hnext, hrest⟩ := Attempt.bind_eq_ok.mp h
    obtain ⟨isSelected, hselects, -⟩ := Attempt.bind_eq_ok.mp hnext
    exact List.forall_mem_cons.mpr ⟨⟨isSelected, hselects⟩, ih hrest⟩

/-- **On a grid a reference comes to the exact sum of what it selects**, in units
    of the smallest exponent, and to the number of balances that it selects. -/
theorem resolve_counts (hk : k ≤ 28) (hgrid : OnGrid k balances) (hread : ref.CanRead balances) :
    ∃ s, ref.resolve balances = .ok s ∧
      s.total.Counts (exactSum (ref.picked balances)) (leastExponent (ref.picked balances)) ∧
      s.count = (ref.picked balances).length := by
  induction balances using List.reverseRecOn with
  | nil => exact ⟨.empty, rfl, Decimal.counts_zero, rfl⟩
  | append_singleton seen b ih =>
    obtain ⟨hread, hlast⟩ := hread.of_append
    have hseen := hgrid.sublist (List.sublist_append_left seen [b])
    have hb := hgrid.sublist (List.sublist_append_right seen [b])
    obtain ⟨s, hs, htotal, hcount⟩ := ih hseen hread
    obtain ⟨isSelected, hselects⟩ := hlast b List.mem_cons_self
    have hwhole : OnGrid k (ref.picked (seen ++ [b])) := hgrid.sublist List.filter_sublist
    have hpicked : OnGrid k (ref.picked seen) := hseen.sublist List.filter_sublist
    rw [resolve_append hs, collect, hselects]
    rw [picked_append, picked_singleton hselects] at hwhole ⊢
    cases isSelected with
    | false => exact ⟨s, rfl, by simpa using htotal, by simpa using hcount⟩
    | true =>
      rw [if_pos rfl] at hwhole ⊢
      have hsum := hwhole.fits hk
      have hbalance := hb.fits hk
      rw [exactSum_append] at hsum
      rw [exactSum_singleton] at hsum hbalance
      have hlow : Decimal.minExponent ≤ -(k : Int) := by
        have hmin : Decimal.minExponent = -1000026 := by decide
        omega
      obtain ⟨total, htotal', hcounts⟩ := htotal.add (hb.finite b List.mem_cons_self) hlow
        (le_leastExponent (by omega) hpicked.places) (hb.places b List.mem_cons_self)
        (leastExponent_le _) (hpicked.fits hk) hbalance hsum
      refine ⟨⟨total, s.count + 1⟩, ?_, ?_, ?_⟩
      · show (Attempt.ofDecimal (s.total.add b.balance) >>= fun total =>
          .ok (⟨total, s.count + 1⟩ : Selection)) = _
        rw [htotal']
        rfl
      · rw [exactSum_append, exactSum_singleton, leastExponent_append]
        exact hcounts
      · rw [List.length_append, hcount]
        rfl

/-- A reference comes to the same in every order. -/
theorem resolve_perm (hk : k ≤ 28) (hgrid : OnGrid k balances) (hperm : balances.Perm balances')
    {s : Selection} (h : ref.resolve balances = .ok s) : ref.resolve balances' = .ok s := by
  have hread := canRead_of_collect h
  have hpicked : (ref.picked balances).Perm (ref.picked balances') := hperm.filter _
  obtain ⟨⟨total, count⟩, hs, htotal, hcount⟩ := resolve_counts hk hgrid hread
  obtain ⟨⟨total', count'⟩, hs', htotal', hcount'⟩ :=
    resolve_counts hk (hgrid.perm hperm) (hread.perm hperm)
  rw [exactSum_perm hpicked, leastExponent_perm hpicked] at htotal
  obtain rfl : total = total' := htotal.unique htotal'
  obtain rfl : count = count' := hcount.trans (hpicked.length_eq.trans hcount'.symm)
  rw [← h, hs, hs']

end AccountReference

/-! ### Walks -/

/-- After any warnings both walks come to the same and leave the same warnings,
    or both fail. -/
def Walk.SameOrFails {α : Type} (m m' : Walk α) : Prop :=
  ∀ ws, m.run ws = m'.run ws ∨
    (∃ f, (m.run ws).1 = .error (.failed f)) ∧ ∃ f, (m'.run ws).1 = .error (.failed f)

namespace Walk.SameOrFails

variable {α β : Type}

theorem refl (m : Walk α) : SameOrFails m m := fun _ => .inl rfl

theorem bind {m m' : Walk α} {next next' : α → Walk β} (hm : SameOrFails m m')
    (hnext : ∀ a, SameOrFails (next a) (next' a)) : SameOrFails (m >>= next) (m' >>= next') := by
  intro ws
  rcases hm ws with hsame | ⟨⟨f, hf⟩, f', hf'⟩
  · rw [Term.run_bind, Term.run_bind, hsame]
    rcases m'.run ws with ⟨stop | a, ws'⟩
    · exact .inl rfl
    · exact hnext a ws'
  · exact .inr ⟨⟨f, Walk.run_bind_fst_of_error hf⟩, f', Walk.run_bind_fst_of_error hf'⟩

end Walk.SameOrFails

namespace Term

variable {k : Nat} {balances balances' : List AccountBalance}

/-- A walk comes to the same in every order of the rows. -/
theorem sameOrFails_value (hk : k ≤ 28) (hgrid : OnGrid k balances)
    (hperm : balances.Perm balances') (t : Term) :
    (t.value balances).SameOrFails (t.value balances') := by
  induction t with
  | account ref =>
    intro ws
    rw [run_account, run_account]
    cases hresolve : ref.resolve balances with
    | ok s =>
      have hresolve' := ref.resolve_perm hk hgrid hperm hresolve
      have hunmatched : warningsOf balances [ref] = warningsOf balances' [ref] := by
        have hempty := (AccountReference.isEmpty_of_resolve hresolve).symm.trans
          (AccountReference.isEmpty_of_resolve hresolve')
        simp [warningsOf, List.filter_singleton, hempty]
      rw [hresolve', hunmatched]
      exact .inl rfl
    | error f =>
      cases hresolve' : ref.resolve balances' with
      | ok s =>
        rw [ref.resolve_perm hk (hgrid.perm hperm) hperm.symm hresolve'] at hresolve
        cases hresolve
      | error f' => exact .inr ⟨⟨f, rfl⟩, f', rfl⟩
  | constant value => exact .refl _
  | grouping inner ih => exact ih
  | binary left op right ihl ihr => exact ihl.bind fun _ => ihr.bind fun _ => .refl _
  | formula id => exact .refl _
  | unsupported left symbol right ihl ihr => exact ihl.bind fun _ => ihr.bind fun _ => .refl _
  | foreign thing => exact .refl _

theorem result_perm (hk : k ≤ 28) (hgrid : OnGrid k balances) (hperm : balances.Perm balances')
    {t : Term} {kind : ResultKind} {r : Result} (h : t.result balances kind = .ok r) :
    t.result balances' kind = .ok r := by
  rcases t.sameOrFails_value hk hgrid hperm [] with hsame | ⟨⟨f, hf⟩, -⟩
  · unfold result at h ⊢
    rwa [← hsame]
  · unfold result at h
    revert hf h
    rcases (t.value balances).run [] with ⟨stop | d, ws⟩ <;> intro h hf
    · obtain rfl := Except.error.inj hf
      cases h
    · cases hf

end Term

/-! ### Evaluations -/

/-- **Row order does not matter.**  On a ledger of finite balances with at most
    `k` places, the absolute values of which sum to less than `10 ^ (28 - k)`, an
    evaluation returns the identical result in every order of the rows. -/
theorem evaluate_perm {k : Nat} (hk : k ≤ 28) {balances balances' : List AccountBalance}
    (hfinite : ∀ b ∈ balances, b.balance.isFinite)
    (hplaces : ∀ b ∈ balances, -(k : Int) ≤ b.balance.exponent)
    (hsmall : (balances.map fun b => |b.balance.toRat|).sum < 10 ^ (28 - k))
    (hperm : balances.Perm balances') (t : Term) (kind : ResultKind) (j : Log.Journal)
    (r : Result) :
    ((evaluate t balances kind).play j).1 = .ok r ↔
      ((evaluate t balances' kind).play j).1 = .ok r := by
  have hgrid : OnGrid k balances := ⟨hfinite, hplaces, hsmall⟩
  have hresult : t.result balances kind = .ok r ↔ t.result balances' kind = .ok r :=
    ⟨Term.result_perm hk hgrid hperm, Term.result_perm hk (hgrid.perm hperm) hperm.symm⟩
  rw [fst_play_evaluate, fst_play_evaluate]
  split
  · simp only [Attempt.bind_eq_ok, hresult]
  · exact hresult

/-- The rows of two accounts, with different numbers of places and signs. -/
def mixedRows : List AccountBalance :=
  [⟨"30", .finite false 1250 (-2)⟩, ⟨"31", .finite true 25 (-1)⟩, ⟨"80", .finite true 0 (-1)⟩]

/-- Turned round, the rows have the same sum, printed with the same places. -/
theorem evaluate_perm_mixedRows :
    ((evaluate (.account (.starting (.text "3"))) mixedRows .amount).play {}).1 =
        .ok ⟨.value (.finite false 1000 (-2)), .amount, []⟩ ∧
      ((evaluate (.account (.starting (.text "3"))) mixedRows.reverse .amount).play {}).1 =
        .ok ⟨.value (.finite false 1000 (-2)), .amount, []⟩ := by
  have hfirst : ((evaluate (.account (.starting (.text "3"))) mixedRows .amount).play {}).1 =
      .ok ⟨.value (.finite false 1000 (-2)), .amount, []⟩ := by
    decide +kernel
  refine ⟨hfirst, (evaluate_perm (k := 2) (by decide) ?_ ?_ ?_ (List.reverse_perm _).symm _ _ _
    _).mp hfirst⟩
  · simp [mixedRows, Decimal.isFinite]
  · simp [mixedRows, Decimal.exponent]
  · norm_num [mixedRows, Decimal.abs_toRat]

end KeyFigures
