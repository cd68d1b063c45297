/-
  KeyFigures/Proofs/Database/StandardView.lean
  ============================================
  **Sums by standard number lose and repeat nothing.**

  By the numbers of the standard chart, rows come to one balance for each number
  that an account of theirs is mapped to, in ascending order, and that balance
  is the sum of exactly the rows mapped there (`IsStandardView`).  Rows without a
  mapping and the mappings of other clients take no part.

  The sums are built up row by row, so what carries the proof is what the sums
  are after any number of entries (`Tallies`).  Where nothing is rounded, the
  total of the view is the total of the rows (`IsStandardView.isTotal`).
-/
import KeyFigures.Database.Balances
import KeyFigures.Proofs.Decimal.Totals

namespace KeyFigures.Database

open Decimal (total total_append_singleton AddsUp IsTotal)

/-! ### Adding to sums -/

section Adding

variable {sums before after : List AccountBalance} {number : String} {d amount : Decimal}

/-- A number that has a sum keeps its place among the sums. -/
theorem addToSum_of_mem (h : ∀ s ∈ before, s.number ≠ number) :
    addToSum (before ++ ⟨number, d⟩ :: after) number amount =
      (Attempt.ofDecimal (d.add amount)).map fun sum => before ++ ⟨number, sum⟩ :: after := by
  induction before with
  | nil =>
    rw [List.nil_append, addToSum, if_pos (by simp)]
    cases d.add amount <;> rfl
  | cons s before ih =>
    obtain ⟨hs, hbefore⟩ := List.forall_mem_cons.mp h
    rw [List.cons_append, addToSum, if_neg (by simpa using hs), ih hbefore]
    cases d.add amount <;> rfl

/-- A number without a sum is put behind the others. -/
theorem addToSum_of_not_mem (h : ∀ s ∈ sums, s.number ≠ number) :
    addToSum sums number amount =
      (Attempt.ofDecimal (Decimal.zero.add amount)).map fun sum => sums ++ [⟨number, sum⟩] := by
  induction sums with
  | nil =>
    rw [addToSum]
    cases Decimal.zero.add amount <;> rfl
  | cons s sums ih =>
    obtain ⟨hs, hsums⟩ := List.forall_mem_cons.mp h
    rw [addToSum, if_neg (by simpa using hs), ih hsums]
    cases Decimal.zero.add amount <;> rfl

end Adding

/-! ### Sums of entries -/

/-- The amounts that are entered under a number, in order. -/
def amountsUnder (number : String) (entries : List (String × Decimal)) : List Decimal :=
  (entries.filter (·.1 = number)).map (·.2)

/-- The sums of entries by number, in the order in which the numbers occur. -/
def tally (entries : List (String × Decimal)) : Attempt (List AccountBalance) :=
  entries.foldlM (fun sums e => addToSum sums e.1 e.2) []

/-- The sums are those of the entries: one for each number that occurs, each the
    total of what is entered under its number. -/
structure Tallies (entries : List (String × Decimal)) (sums : List AccountBalance) : Prop where
  nodup : (sums.map (·.number)).Nodup
  mem_iff : ∀ number, number ∈ sums.map (·.number) ↔ number ∈ entries.map (·.1)
  total_eq : ∀ s ∈ sums, total (amountsUnder s.number entries) = .ok s.balance

section Entries

variable {entries : List (String × Decimal)} {sums sums' : List AccountBalance}
  {number other : String} {amount : Decimal}

theorem amountsUnder_append_self :
    amountsUnder number (entries ++ [(number, amount)]) = amountsUnder number entries ++ [amount] := by
  simp [amountsUnder]

theorem amountsUnder_append_of_ne (h : number ≠ other) :
    amountsUnder other (entries ++ [(number, amount)]) = amountsUnder other entries := by
  simp [amountsUnder, h]

theorem amountsUnder_eq_nil (h : number ∉ entries.map (·.1)) : amountsUnder number entries = [] := by
  rw [amountsUnder, List.map_eq_nil_iff, List.filter_eq_nil_iff]
  intro e he heq
  exact h (List.mem_map.mpr ⟨e, he, by simpa using heq⟩)

theorem Tallies.perm (h : Tallies entries sums) (hperm : sums.Perm sums') :
    Tallies entries sums' where
  nodup := (hperm.map (·.number)).nodup_iff.mp h.nodup
  mem_iff number := (hperm.map (·.number)).mem_iff.symm.trans (h.mem_iff number)
  total_eq s hs := h.total_eq s (hperm.mem_iff.mpr hs)

/-- What one more entry leaves: sums of the other numbers, as they were, and the
    sum of its own. -/
theorem Tallies.concat (h : Tallies entries sums) (hnodup : (sums'.map (·.number)).Nodup)
    {sum : Decimal} (hsum : total (amountsUnder number (entries ++ [(number, amount)])) = .ok sum)
    (hmem : ∀ s, s ∈ sums' ↔ s = ⟨number, sum⟩ ∨ (s ∈ sums ∧ s.number ≠ number)) :
    Tallies (entries ++ [(number, amount)]) sums' where
  nodup := hnodup
  mem_iff m := by
    rw [List.map_append, List.mem_append, ← h.mem_iff m, List.mem_map, List.mem_map]
    constructor
    · rintro ⟨s, hs, rfl⟩
      rcases (hmem s).mp hs with rfl | ⟨hs, -⟩
      · exact .inr (by simp)
      · exact .inl ⟨s, hs, rfl⟩
    · intro hm
      by_cases heq : m = number
      · exact ⟨_, (hmem _).mpr (.inl rfl), heq.symm⟩
      · rcases hm with ⟨s, hs, rfl⟩ | hm
        · exact ⟨s, (hmem s).mpr (.inr ⟨hs, heq⟩), rfl⟩
        · exact absurd (by simpa using hm) heq
  total_eq s hs := by
    rcases (hmem s).mp hs with rfl | ⟨hs, hne⟩
    · exact hsum
    · rw [amountsUnder_append_of_ne (Ne.symm hne)]
      exact h.total_eq s hs

/-- One more entry is added to the sum of its number, or that sum cannot be
    formed. -/
def AddsEntry (entries : List (String × Decimal)) (number : String) (amount : Decimal)
    (answer : Attempt (List AccountBalance)) : Prop :=
  (∃ sums, answer = .ok sums ∧ Tallies (entries ++ [(number, amount)]) sums) ∨
  ∃ fault, answer = .error (.number fault) ∧
    total (amountsUnder number (entries ++ [(number, amount)])) = .error fault

theorem Tallies.addsEntry_of_mem (h : Tallies entries sums) {amount : Decimal}
    (hnumber : number ∈ sums.map (·.number)) :
    AddsEntry entries number amount (addToSum sums number amount) := by
  obtain ⟨⟨m, d⟩, hs, hm⟩ := List.mem_map.mp hnumber
  obtain rfl : m = number := hm
  obtain ⟨before, after, rfl⟩ := List.append_of_mem hs
  have hnodup := h.nodup
  rw [List.map_append, List.map_cons, List.nodup_middle, List.nodup_cons, ← List.map_append]
    at hnodup
  have hother : ∀ s ∈ before ++ after, s.number ≠ m := fun s hs heq =>
    hnodup.1 (List.mem_map.mpr ⟨s, hs, heq⟩)
  rw [addToSum_of_mem fun s hs => hother s (List.mem_append_left _ hs)]
  have htotal : total (amountsUnder m (entries ++ [(m, amount)])) = d.add amount := by
    rw [amountsUnder_append_self, total_append_singleton, h.total_eq _ hs]
    rfl
  cases hsum : d.add amount with
  | error fault => exact .inr ⟨fault, rfl, htotal.trans hsum⟩
  | ok sum =>
    refine .inl ⟨_, rfl, h.concat (by simpa using h.nodup) (htotal.trans hsum) fun s => ?_⟩
    have hkept : s ∈ before ++ after → s.number ≠ m := hother s
    simp only [List.mem_append, List.mem_cons] at hkept ⊢
    constructor
    · rintro (hs | rfl | hs)
      · exact .inr ⟨.inl hs, hkept (.inl hs)⟩
      · exact .inl rfl
      · exact .inr ⟨.inr (.inr hs), hkept (.inr hs)⟩
    · rintro (rfl | ⟨hs | rfl | hs, hne⟩)
      · exact .inr (.inl rfl)
      · exact .inl hs
      · exact absurd rfl hne
      · exact .inr (.inr hs)

theorem Tallies.addsEntry_of_not_mem (h : Tallies entries sums) {amount : Decimal}
    (hnumber : number ∉ sums.map (·.number)) :
    AddsEntry entries number amount (addToSum sums number amount) := by
  have hother : ∀ s ∈ sums, s.number ≠ number := fun s hs heq =>
    hnumber (List.mem_map.mpr ⟨s, hs, heq⟩)
  rw [addToSum_of_not_mem hother]
  have htotal : total (amountsUnder number (entries ++ [(number, amount)])) =
      Decimal.zero.add amount := by
    rw [amountsUnder_append_self, total_append_singleton,
      amountsUnder_eq_nil ((h.mem_iff number).not.mp hnumber)]
    rfl
  cases hsum : Decimal.zero.add amount with
  | error fault => exact .inr ⟨fault, rfl, htotal.trans hsum⟩
  | ok sum =>
    refine .inl ⟨_, rfl, h.concat ?_ (htotal.trans hsum) fun s => ?_⟩
    · rw [List.map_append, List.map_singleton, List.nodup_append_comm]
      exact List.nodup_cons.mpr ⟨hnumber, h.nodup⟩
    · rw [List.mem_append, List.mem_singleton, or_comm]
      exact or_congr_right ⟨fun hs => ⟨hs, hother s hs⟩, And.left⟩

theorem Tallies.addsEntry (h : Tallies entries sums) (number : String) (amount : Decimal) :
    AddsEntry entries number amount (addToSum sums number amount) := by
  by_cases hnumber : number ∈ sums.map (·.number)
  · exact h.addsEntry_of_mem hnumber
  · exact h.addsEntry_of_not_mem hnumber

/-- Entries are summed up by number, or one of the sums cannot be formed; by
    induction from the last entry backwards. -/
theorem tally_cases (entries : List (String × Decimal)) :
    (∃ sums, tally entries = .ok sums ∧ Tallies entries sums) ∨
    ∃ number fault, tally entries = .error (.number fault) ∧
      total (amountsUnder number entries) = .error fault := by
  induction entries using List.reverseRecOn with
  | nil => exact .inl ⟨[], rfl, by simp, by simp, by simp⟩
  | append_singleton entries e ih =>
    obtain ⟨number, amount⟩ := e
    have hstep : tally (entries ++ [(number, amount)]) =
        tally entries >>= fun sums => addToSum sums number amount := by
      unfold tally
      rw [List.foldlM_append]
      congr 1
      funext sums
      exact bind_pure (addToSum sums number amount)
    rw [hstep]
    rcases ih with ⟨sums, hsums, htallies⟩ | ⟨m, fault, hsums, hfault⟩
    · rw [hsums]
      rcases htallies.addsEntry number amount with ⟨sums', h, htallies'⟩ | ⟨fault, h, hfault⟩
      · exact .inl ⟨sums', h, htallies'⟩
      · exact .inr ⟨number, fault, h, hfault⟩
    · refine .inr ⟨m, fault, by rw [hsums]; rfl, ?_⟩
      by_cases hm : number = m
      · rw [hm, amountsUnder_append_self, total_append_singleton, hfault]
        rfl
      · rw [amountsUnder_append_of_ne hm, hfault]

end Entries

/-! ### Mapped rows -/

/-- No account of a client has two mappings. -/
def AreUnique (mappings : List AccountMapping) : Prop :=
  mappings.Pairwise fun m m' => m.clashes m' = false

/-- A mapping takes the account of the row to the number. -/
def IsMappedTo (mappings : List AccountMapping) (r : BalanceRow) (number : String) : Prop :=
  ∃ m ∈ mappings, m.client = r.client ∧ m.account = r.account ∧ m.standard = number

/-- The account of the row has a mapping. -/
def IsMapped (mappings : List AccountMapping) (r : BalanceRow) : Prop :=
  ∃ m ∈ mappings, m.client = r.client ∧ m.account = r.account

instance (mappings : List AccountMapping) (r : BalanceRow) (number : String) :
    Decidable (IsMappedTo mappings r number) :=
  inferInstanceAs (Decidable (∃ m ∈ mappings, _))

instance (mappings : List AccountMapping) (r : BalanceRow) : Decidable (IsMapped mappings r) :=
  inferInstanceAs (Decidable (∃ m ∈ mappings, _))

/-- The balances of the rows that are mapped to a number, in order. -/
def amountsFor (mappings : List AccountMapping) (rows : List BalanceRow) (number : String) :
    List Decimal :=
  (rows.filter fun r => IsMappedTo mappings r number).map (·.balance)

/-- The balances of all mapped rows, in order. -/
def mappedAmounts (mappings : List AccountMapping) (rows : List BalanceRow) : List Decimal :=
  (rows.filter fun r => IsMapped mappings r).map (·.balance)

/-- What the mapped rows enter, and under which number. -/
def entriesOf (mappings : List AccountMapping) (rows : List BalanceRow) : List (String × Decimal) :=
  rows.filterMap fun r => (standardNumber? mappings r).map fun number => (number, r.balance)

section Mapped

variable {mappings : List AccountMapping} {rows : List BalanceRow} {r : BalanceRow} {number : String}

theorem standardNumber?_eq_some_iff (hunique : AreUnique mappings) :
    standardNumber? mappings r = some number ↔ IsMappedTo mappings r number := by
  unfold standardNumber?
  induction mappings with
  | nil => simp [IsMappedTo]
  | cons m mappings ih =>
    obtain ⟨hm, hmappings⟩ := List.pairwise_cons.mp hunique
    rw [List.find?_cons]
    cases hown : m.client == r.client && m.account == r.account with
    | false =>
      dsimp only
      rw [ih hmappings]
      simp only [IsMappedTo, List.exists_mem_cons_iff]
      refine (or_iff_right ?_).symm
      rintro ⟨hclient, haccount, -⟩
      simp [hclient, haccount] at hown
    | true =>
      obtain ⟨hclient, haccount⟩ : m.client = r.client ∧ m.account = r.account := by
        simpa using hown
      simp only [Option.map_some, Option.some.injEq, IsMappedTo, List.exists_mem_cons_iff]
      constructor
      · exact fun h => .inl ⟨hclient, haccount, h⟩
      · rintro (⟨-, -, h⟩ | ⟨m', hm', hclient', haccount', -⟩)
        · exact h
        · -- a second mapping of the account would clash with this one
          have hclash := hm m' hm'
          simp [AccountMapping.clashes, hclient, haccount, hclient', haccount'] at hclash

theorem isMapped_iff : IsMapped mappings r ↔ ∃ number, IsMappedTo mappings r number :=
  ⟨fun ⟨m, hm, hclient, haccount⟩ => ⟨m.standard, m, hm, hclient, haccount, rfl⟩,
    fun ⟨_, m, hm, hclient, haccount, _⟩ => ⟨m, hm, hclient, haccount⟩⟩

theorem amountsUnder_entriesOf (hunique : AreUnique mappings) (rows : List BalanceRow)
    (number : String) :
    amountsUnder number (entriesOf mappings rows) = amountsFor mappings rows number := by
  unfold amountsUnder amountsFor entriesOf
  induction rows with
  | nil => rfl
  | cons r rows ih =>
    rw [List.filterMap_cons, List.filter_cons]
    have hiff : standardNumber? mappings r = some number ↔ IsMappedTo mappings r number :=
      standardNumber?_eq_some_iff hunique
    cases hnumber : standardNumber? mappings r with
    | none =>
      rw [hnumber] at hiff
      simpa [← hiff] using ih
    | some m =>
      rw [hnumber, Option.some.injEq] at hiff
      by_cases hm : m = number
      · simpa [hm, hiff.mp hm] using ih
      · simpa [hm, ← hiff] using ih

theorem mem_entriesOf (hunique : AreUnique mappings) :
    number ∈ (entriesOf mappings rows).map (·.1) ↔ ∃ r ∈ rows, IsMappedTo mappings r number := by
  simp only [entriesOf, List.mem_map, List.mem_filterMap, Option.map_eq_some_iff]
  constructor
  · rintro ⟨_, ⟨r, hr, m, hm, rfl⟩, rfl⟩
    exact ⟨r, hr, (standardNumber?_eq_some_iff hunique).mp hm⟩
  · rintro ⟨r, hr, hmapped⟩
    exact ⟨(number, r.balance), ⟨r, hr, number, (standardNumber?_eq_some_iff hunique).mpr hmapped,
      rfl⟩, rfl⟩

theorem sumsByNumber_eq (mappings : List AccountMapping) (rows : List BalanceRow) :
    sumsByNumber mappings rows =
      (tally (entriesOf mappings rows)).map
        (·.mergeSort fun a b => decide (a.number ≤ b.number)) := by
  calc sumsByNumber mappings rows
      = tally (entriesOf mappings rows) >>= fun sums =>
          .ok (sums.mergeSort fun a b => decide (a.number ≤ b.number)) := by
        unfold sumsByNumber tally entriesOf
        rw [List.foldlM_filterMap]
        congr 2
        funext sums r
        cases standardNumber? mappings r <;> rfl
    _ = _ := by cases tally (entriesOf mappings rows) <;> rfl

/-- The balances are those of the rows by standard number: in ascending order,
    one for each number that a row is mapped to, each the total of exactly the
    rows that are mapped there. -/
structure IsStandardView (mappings : List AccountMapping) (rows : List BalanceRow)
    (balances : List AccountBalance) : Prop where
  ascending : balances.Pairwise fun a b => a.number < b.number
  mem_iff : ∀ number, number ∈ balances.map (·.number) ↔ ∃ r ∈ rows, IsMappedTo mappings r number
  total_eq : ∀ b ∈ balances, total (amountsFor mappings rows b.number) = .ok b.balance

theorem Tallies.isStandardView (hunique : AreUnique mappings) {sums : List AccountBalance}
    (h : Tallies (entriesOf mappings rows) sums) :
    IsStandardView mappings rows (sums.mergeSort fun a b => decide (a.number ≤ b.number)) := by
  have hsorted := h.perm (List.mergeSort_perm sums fun a b => decide (a.number ≤ b.number)).symm
  refine ⟨?_, fun number => (hsorted.mem_iff number).trans (mem_entriesOf hunique), fun b hb => ?_⟩
  · have htrans : ∀ a b c : AccountBalance, decide (a.number ≤ b.number) = true →
        decide (b.number ≤ c.number) = true → decide (a.number ≤ c.number) = true := by
      intro a b c hab hbc
      exact decide_eq_true (String.le_trans (of_decide_eq_true hab) (of_decide_eq_true hbc))
    have htotal : ∀ a b : AccountBalance,
        (decide (a.number ≤ b.number) || decide (b.number ≤ a.number)) = true := by
      intro a b
      simpa using String.le_total a.number b.number
    have horder := List.pairwise_mergeSort htrans htotal sums
    exact (horder.and (List.pairwise_map.mp hsorted.nodup)).imp fun {a b} hab =>
      lt_of_le_of_ne (of_decide_eq_true hab.1) hab.2
  · rw [← amountsUnder_entriesOf hunique]
    exact hsorted.total_eq b hb

/-- Rows are summed up by standard number, or the sum of some number cannot be
    formed. -/
theorem sumsByNumber_cases (hunique : AreUnique mappings) (rows : List BalanceRow) :
    (∃ balances, sumsByNumber mappings rows = .ok balances ∧
      IsStandardView mappings rows balances) ∨
    ∃ number fault, sumsByNumber mappings rows = .error (.number fault) ∧
      total (amountsFor mappings rows number) = .error fault := by
  rw [sumsByNumber_eq]
  rcases tally_cases (entriesOf mappings rows) with ⟨sums, hsums, htallies⟩ | ⟨number, fault, h, hfault⟩
  · rw [hsums]
    exact .inl ⟨_, rfl, htallies.isStandardView hunique⟩
  · rw [h]
    exact .inr ⟨number, fault, rfl, by rwa [← amountsUnder_entriesOf hunique]⟩

/-! ### Conservation -/

theorem IsMappedTo.eq (hunique : AreUnique mappings) {other : String}
    (h : IsMappedTo mappings r number) (h' : IsMappedTo mappings r other) : number = other :=
  Option.some.inj (((standardNumber?_eq_some_iff hunique).mpr h).symm.trans
    ((standardNumber?_eq_some_iff hunique).mpr h'))

/-- The exact sums by number add up to the exact sum of all mapped rows, since
    every mapped row counts under one number. -/
theorem sum_amountsFor (hunique : AreUnique mappings) {numbers : List String}
    (hnodup : numbers.Nodup)
    (hcovers : ∀ r ∈ rows, ∀ number, IsMappedTo mappings r number → number ∈ numbers) :
    (numbers.map fun number => ((amountsFor mappings rows number).map Decimal.toRat).sum).sum =
      ((mappedAmounts mappings rows).map Decimal.toRat).sum := by
  induction rows with
  | nil => simp [amountsFor, mappedAmounts]
  | cons r rows ih =>
    obtain ⟨hr, hrows⟩ := List.forall_mem_cons.mp hcovers
    have hentered : ∀ number, ((amountsFor mappings (r :: rows) number).map Decimal.toRat).sum =
        (if IsMappedTo mappings r number then r.balance.toRat else 0) +
          ((amountsFor mappings rows number).map Decimal.toRat).sum := by
      intro number
      by_cases h : IsMappedTo mappings r number <;> simp [amountsFor, h]
    have hall : ((mappedAmounts mappings (r :: rows)).map Decimal.toRat).sum =
        (if IsMapped mappings r then r.balance.toRat else 0) +
          ((mappedAmounts mappings rows).map Decimal.toRat).sum := by
      by_cases h : IsMapped mappings r <;> simp [mappedAmounts, h]
    simp only [hentered, List.sum_map_add, ih hrows, hall]
    congr 1
    by_cases hmapped : IsMapped mappings r
    · obtain ⟨number, hnumber⟩ := isMapped_iff.mp hmapped
      have hiff : ∀ other, IsMappedTo mappings r other ↔ other = number :=
        fun other => ⟨fun h => h.eq hunique hnumber, fun h => h ▸ hnumber⟩
      simp only [hiff, if_pos hmapped, List.sum_map_ite_eq,
        List.count_eq_one_of_mem hnodup (hr number hnumber)]
      simp
    · have hnone : ∀ other, ¬ IsMappedTo mappings r other :=
        fun other h => hmapped (isMapped_iff.mpr ⟨other, h⟩)
      simp [hnone, hmapped]

theorem mem_mappedAmounts {d : Decimal} :
    d ∈ mappedAmounts mappings rows ↔ ∃ number, d ∈ amountsFor mappings rows number := by
  simp only [mappedAmounts, amountsFor, List.mem_map, List.mem_filter, decide_eq_true_eq,
    isMapped_iff]
  constructor
  · rintro ⟨r, ⟨hr, number, h⟩, rfl⟩
    exact ⟨number, r, ⟨hr, h⟩, rfl⟩
  · rintro ⟨number, r, ⟨hr, h⟩, rfl⟩
    exact ⟨r, ⟨hr, number, h⟩, rfl⟩

namespace IsStandardView

variable {balances : List AccountBalance}

/-- A number that rows are mapped to has a balance. -/
theorem exists_mem (h : IsStandardView mappings rows balances) {d : Decimal}
    (hd : d ∈ amountsFor mappings rows number) : ∃ b ∈ balances, b.number = number := by
  obtain ⟨r, hr, -⟩ := List.mem_map.mp hd
  obtain ⟨hr, hmapped⟩ := List.mem_filter.mp hr
  exact List.mem_map.mp ((h.mem_iff number).mpr ⟨r, hr, of_decide_eq_true hmapped⟩)

/-- **Nothing is lost and nothing repeated**: if no sum needs more digits than
    are kept, the total of the view is that of all mapped rows. -/
theorem isTotal (hunique : AreUnique mappings) (h : IsStandardView mappings rows balances)
    (hnumbers : ∀ d ∈ mappedAmounts mappings rows, d.isNan = false)
    (hsums : ∀ number, AddsUp (amountsFor mappings rows number))
    (hview : AddsUp (balances.map (·.balance))) :
    IsTotal (mappedAmounts mappings rows) (total (balances.map (·.balance))) := by
  have hparts : ∀ b ∈ balances, IsTotal (amountsFor mappings rows b.number) (.ok b.balance) := by
    intro b hb
    rw [← h.total_eq b hb]
    exact Decimal.isTotal_total (fun d hd => hnumbers d (mem_mappedAmounts.mpr ⟨_, hd⟩))
      (hsums b.number)
  have hbalances : ∀ d ∈ balances.map (·.balance), d.isNan = false := by
    intro d hd
    obtain ⟨b, hb, rfl⟩ := List.mem_map.mp hd
    exact (hparts b hb).isNan_eq_false
  have hview := Decimal.isTotal_total hbalances hview
  refine hview.transfer hnumbers (fun n => ?_) fun hfinite => ?_
  · rw [mem_mappedAmounts]
    constructor
    · intro hn
      obtain ⟨b, hb, hbalance⟩ := List.mem_map.mp hn
      exact ⟨b.number, ((hparts b hb).eq_infinite_iff n).mp hbalance⟩
    · rintro ⟨number, hn⟩
      obtain ⟨b, hb, rfl⟩ := h.exists_mem hn
      exact List.mem_map.mpr ⟨b, hb, ((hparts b hb).eq_infinite_iff n).mpr hn⟩
  · have hnodup : (balances.map (·.number)).Nodup :=
      List.pairwise_map.mpr (h.ascending.imp fun hab => hab.ne)
    rw [← sum_amountsFor hunique hnodup fun r hr number hmapped =>
      (h.mem_iff number).mpr ⟨r, hr, hmapped⟩, List.map_map, List.map_map]
    congr 1
    refine List.map_congr_left fun b hb => ?_
    exact (hparts b hb).toRat_eq (hfinite _ (List.mem_map.mpr ⟨b, hb, rfl⟩))

end IsStandardView

end Mapped

/-! ### What takes no part -/

/-- Rows without a mapping contribute to no sum. -/
theorem sumsByNumber_filter_isMapped (hunique : AreUnique mappings) (rows : List BalanceRow) :
    sumsByNumber mappings (rows.filter fun r => IsMapped mappings r) =
      sumsByNumber mappings rows := by
  have hentries : entriesOf mappings (rows.filter fun r => IsMapped mappings r) =
      entriesOf mappings rows := by
    unfold entriesOf
    rw [List.filterMap_filter]
    congr 1
    funext r
    by_cases hmapped : IsMapped mappings r
    · simp [hmapped]
    · cases hnumber : standardNumber? mappings r with
      | none => simp
      | some number =>
        exact absurd (isMapped_iff.mpr ⟨number, (standardNumber?_eq_some_iff hunique).mp hnumber⟩)
          hmapped
  rw [sumsByNumber_eq, sumsByNumber_eq, hentries]

/-- The mappings of a client. -/
def ownMappings (mappings : List AccountMapping) (client : String) : List AccountMapping :=
  mappings.filter (·.client = client)

theorem standardNumber?_ownMappings (mappings : List AccountMapping) (r : BalanceRow) :
    standardNumber? (ownMappings mappings r.client) r = standardNumber? mappings r := by
  unfold standardNumber? ownMappings
  rw [List.find?_filter]
  congr 2
  funext m
  rw [Bool.eq_iff_iff]
  simp

end KeyFigures.Database
