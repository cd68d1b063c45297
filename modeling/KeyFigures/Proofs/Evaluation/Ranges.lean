/-
  KeyFigures/Proofs/Evaluation/Ranges.lean
  ========================================
  **A range selects accounts by their number.**

  Three notions of a digit meet in a range: its bounds are rows of digits of any
  script, an account number is looked at if all its characters look like digits,
  and it is then read as a whole number, which only rows of digits are, and not
  too long ones (`readInt_of_isDigit`, `readInt_of_isDigitLike`).

  Hence a range selects exactly the accounts whose number in plain digits lies
  between its bounds (`AccountReference.selects_between`), among the account
  numbers that are `IsLegible`.  One that looks like a number and cannot be read
  as one is no such account and makes the range fail.
-/
import KeyFigures.Proofs.Evaluation.RowOrder
import KeyFigures.Proofs.Formula.Described
import KeyFigures.Proofs.Formula.Stored

namespace KeyFigures

open KeyFigures.Text

/-! ### Rows of digits as whole numbers -/

/-- No range of characters that look like digits meets a range of blanks. -/
theorem figureRanges_apart :
    ∀ f ∈ figureRanges, ∀ r ∈ blankRanges, f.2 < r.1 ∨ r.2 < f.1 := by
  decide

theorem isBlank_of_isDigitLike {c : Char} (h : isDigitLike c = true) : isBlank c = false := by
  rcases Bool.or_eq_true_iff.mp h with h | h
  · exact isBlank_of_isDigit h
  · obtain ⟨f, hf, hlow, hhigh⟩ := inRanges_iff.mp h
    refine Bool.eq_false_iff.mpr fun hblank => ?_
    obtain ⟨r, hr, hfirst, hlast⟩ := inRanges_iff.mp hblank
    rcases figureRanges_apart f hf r hr with hapart | hapart <;> omega

theorem all_isDigitLike {ds : List Char} (h : ds.all isDigit = true) :
    ds.all isDigitLike = true := by
  refine List.all_eq_true.mpr fun c hc => ?_
  simp [isDigitLike, List.all_eq_true.mp h c hc]

/-- Without underscores a row of digits is just that. -/
theorem isDigitRow_iff {ds : List Char} (h : '_' ∉ ds) :
    isDigitRow ds = true ↔ ds ≠ [] ∧ ds.all isDigit = true := by
  induction ds using isDigitRow.induct with
  | case1 => simp [isDigitRow]
  | case2 c => simp [isDigitRow]
  | case3 c r _ => simp at h
  | case4 c r hne hunderscore ih =>
    have hr : r ≠ [] := fun hnil => hne hnil
    rw [isDigitRow, Bool.and_eq_true, ih fun hmem => h (List.mem_cons_of_mem c hmem),
      List.all_cons, Bool.and_eq_true]
    · simp [hr]
    · exact hne
    · exact hunderscore

/-- What looks like digits has no sign, no underscores and no blanks. -/
theorem readInt_of_isDigitLike {ds : List Char} (h : ds.all isDigitLike = true) :
    readInt (String.ofList ds) =
      if ds ≠ [] ∧ ds.all isDigit = true then
        if maxIntDigits < ds.length then .error (.tooManyDigits ds.length)
        else .ok (valueOf ds : Int)
      else .error (.notAWholeNumber (String.ofList ds)) := by
  rw [List.all_eq_true] at h
  have hminus : '-' ∉ ds := not_mem_of_class h (by decide)
  have hplus : '+' ∉ ds := not_mem_of_class h (by decide)
  have hunderscore : '_' ∉ ds := not_mem_of_class h (by decide)
  have hstrip : stripWhere surroundsNumber ds = ds := by
    refine stripWhere_eq_self fun c hc => ?_
    simp [surroundsNumber, isBlank_of_isDigitLike (h c hc)]
  have hfilter : ds.filter (· != '_') = ds := by
    refine List.filter_eq_self.mpr fun c hc => bne_iff_ne.mpr ?_
    rintro rfl
    exact hunderscore hc
  unfold readInt
  rw [String.toList_ofList, hstrip]
  split
  rename_i negative row hrow
  split at hrow
  · simp at hminus
  · simp at hplus
  · cases hrow
    simp only [isDigitRow_iff hunderscore, hfilter]
    rfl

theorem Value.toWhole_of_readInt {s : String} {n : Int} (h : readInt s = .ok n) :
    (Value.text s).toWhole = .ok n := by
  simp only [toWhole, h]

theorem Value.toWhole_of_readInt_error {s : String} {fault : ValueFault}
    (h : readInt s = .error fault) : (Value.text s).toWhole = .error (.value fault) := by
  simp only [toWhole, h]
  rfl

/-- A bound of a range is read as the number of its digits. -/
theorem Value.toWhole_of_wholeNumber {s : String} {n : Nat}
    (hs : s.toList ≠ [] ∧ ∀ c ∈ s.toList, isDigit c = true) (h : wholeNumber s.toList = .ok n) :
    (Value.text s).toWhole = .ok n := by
  have hdigits : s.toList.all isDigit = true := List.all_eq_true.mpr hs.2
  have hread := readInt_of_isDigitLike (all_isDigitLike hdigits)
  unfold wholeNumber at h
  split at h
  · cases h
  · rename_i hlength
    obtain rfl := Except.ok.inj h
    rw [String.ofList_toList, if_pos ⟨hs.1, hdigits⟩, if_neg hlength] at hread
    exact toWhole_of_readInt hread

/-! ### Account numbers -/

/-- The number that an account number is in plain digits, if it is one. -/
def accountNumber? (account : String) : Option Nat :=
  let number := strip account.toList
  if number ≠ [] ∧ number.all isDigit = true then some (valueOf number) else none

/-- Whether an account number is a number between two bounds. -/
def liesBetween (low high : Nat) (account : String) : Bool :=
  (accountNumber? account).any fun n => decide (low ≤ n) && decide (n ≤ high)

/-- An account number that looks like digits is a row of digits, and no longer
    than a whole number may be. -/
def IsLegible (account : String) : Prop :=
  let number := strip account.toList
  number.all isDigitLike = true → number.all isDigit = true ∧ number.length ≤ maxIntDigits

instance (account : String) : Decidable (IsLegible account) :=
  inferInstanceAs (Decidable (_ → _))

/-- The number of an account that does not look like digits is in no range. -/
theorem accountNumber?_eq_none {account : String}
    (h : (strip account.toList).all isDigitLike = false) : accountNumber? account = none := by
  refine if_neg fun hdigits => ?_
  simp [all_isDigitLike hdigits.2] at h

namespace AccountReference

variable {first last : Value} {low high : Nat}

/-- An account number that looks like digits is read as a whole number, and that
    is compared with the bounds. -/
theorem selects_between_of_isDigitLike {account : String} (hlow : first.toWhole = .ok low)
    (hhigh : last.toWhole = .ok high) (hne : strip account.toList ≠ [])
    (hlike : (strip account.toList).all isDigitLike = true) :
    (between first last).selects account =
      (Value.text (String.ofList (strip account.toList))).toWhole.map fun n =>
        decide ((low : Int) ≤ n) && decide (n ≤ high) := by
  have hempty : (strip account.toList).isEmpty = false := by simpa using hne
  unfold selects inRange
  simp only [hempty, hlike, hlow, hhigh, Bool.not_true, Bool.or_self, Bool.false_eq_true, if_false]
  cases (Value.text (String.ofList (strip account.toList))).toWhole with
  | error fault => rfl
  | ok n =>
    by_cases hle : (low : Int) ≤ n
    · simp [bind, Except.bind, Except.map, hle]
    · simp [bind, Except.bind, Except.map, hle]

/-- A range selects the accounts whose number in plain digits lies between its
    bounds. -/
theorem selects_between (hlow : first.toWhole = .ok low) (hhigh : last.toWhole = .ok high)
    {account : String} (h : IsLegible account) :
    (between first last).selects account = .ok (liesBetween low high account) := by
  cases hlike : (strip account.toList).all isDigitLike with
  | false => simp [selects, inRange, hlike, liesBetween, accountNumber?_eq_none hlike]
  | true =>
    obtain ⟨hdigits, hlength⟩ := h hlike
    by_cases hempty : strip account.toList = []
    · simp [selects, inRange, hempty, liesBetween, accountNumber?]
    · have hread := readInt_of_isDigitLike hlike
      rw [if_pos ⟨hempty, hdigits⟩, if_neg (Nat.not_lt.mpr hlength)] at hread
      rw [selects_between_of_isDigitLike hlow hhigh hempty hlike, Value.toWhole_of_readInt hread,
        liesBetween, accountNumber?, if_pos ⟨hempty, hdigits⟩]
      simp [Except.map]

/-- An account number that looks like digits and cannot be read as a number makes
    every range fail. -/
theorem selects_between_of_not_isLegible (hlow : first.toWhole = .ok low)
    (hhigh : last.toWhole = .ok high) {account : String} (h : ¬IsLegible account) :
    ∃ fault, (between first last).selects account = .error (.value fault) := by
  obtain ⟨hlike, hodd⟩ := Classical.not_imp.mp h
  have hne : strip account.toList ≠ [] := by
    intro hempty
    exact hodd (by simp [hempty])
  have hfault : ∃ fault, readInt (String.ofList (strip account.toList)) = .error fault := by
    rw [readInt_of_isDigitLike hlike]
    by_cases hdigits : (strip account.toList).all isDigit = true
    · have hlength : maxIntDigits < (strip account.toList).length :=
        Nat.lt_of_not_le fun hle => hodd ⟨hdigits, hle⟩
      exact ⟨_, by rw [if_pos ⟨hne, hdigits⟩, if_pos hlength]⟩
    · exact ⟨_, if_neg fun hrow => hdigits hrow.2⟩
  obtain ⟨fault, hread⟩ := hfault
  refine ⟨fault, ?_⟩
  rw [selects_between_of_isDigitLike hlow hhigh hne hlike, Value.toWhole_of_readInt_error hread]
  rfl

end AccountReference

/-! ### Sums -/

/-- The sum of balances in their order. -/
def runningSum (balances : List AccountBalance) : Attempt Decimal :=
  balances.foldlM (fun total b => Attempt.ofDecimal (total.add b.balance)) .zero

namespace AccountReference

/-- A reference counts and adds up exactly the balances that it selects. -/
theorem foldlM_collect {ref : AccountReference} {balances : List AccountBalance}
    (hread : ref.CanRead balances) (s : Selection) :
    balances.foldlM ref.collect s =
      ((ref.picked balances).foldlM
        (fun total b => Attempt.ofDecimal (total.add b.balance)) s.total).map
        fun total => ⟨total, s.count + (ref.picked balances).length⟩ := by
  induction balances generalizing s with
  | nil => rfl
  | cons b balances ih =>
    obtain ⟨⟨isSelected, hselects⟩, hread⟩ := List.forall_mem_cons.mp hread
    have hpicked := picked_append ref [b] balances
    rw [picked_singleton hselects, List.singleton_append] at hpicked
    rw [List.foldlM_cons, collect, hselects, hpicked]
    cases isSelected with
    | false =>
      exact ih hread s
    | true =>
      have hcount : s.count + (ref.picked balances).length.succ =
          s.count + 1 + (ref.picked balances).length := by omega
      rw [if_pos rfl, List.singleton_append, List.foldlM_cons, List.length_cons, hcount]
      cases Attempt.ofDecimal (s.total.add b.balance) with
      | error fault => rfl
      | ok total => exact ih hread ⟨total, s.count + 1⟩

/-- **A reference sums and counts exactly what it selects**, in the order of the
    ledger. -/
theorem resolve_eq_picked {ref : AccountReference} {balances : List AccountBalance}
    (hread : ref.CanRead balances) :
    ref.resolve balances = (runningSum (ref.picked balances)).map
      fun total => ⟨total, (ref.picked balances).length⟩ := by
  have hcollect := foldlM_collect hread .empty
  simp only [Selection.empty, Nat.zero_add] at hcollect
  exact hcollect

end AccountReference

/-! ### Ranges from the parser -/

namespace AccountReference

/-- The parser produces the reference: as part of a tree that is read from a
    formula source, or read on its own. -/
def IsParsed (ref : AccountReference) : Prop :=
  (∃ source t, parseSource source = .ok t ∧ ref ∈ t.accountReferences) ∨
    ∃ text source position, AccountReference.parse text source position = .ok ref

theorem IsParsed.readable {ref : AccountReference} (h : ref.IsParsed) : ref.Readable := by
  rcases h with ⟨source, t, ht, href⟩ | ⟨text, source, position, h⟩
  · obtain ⟨hphrase, haccounts⟩ := phrase_of_parseSource ht
    exact haccounts ref (Term.account_mem_tokens hphrase.wellFormed href)
  · exact readable_of_read (parse_eq_ok h)

/-- The bounds of a range from the parser are whole numbers in order. -/
theorem IsParsed.exists_bounds {first last : Value} (h : (between first last).IsParsed) :
    ∃ low high : Nat, first.toWhole = .ok low ∧ last.toWhole = .ok high ∧ low ≤ high := by
  have hreadable := h.readable
  match first, last, hreadable with
  | .text _, .text _, ⟨hfirst, hlast, low, high, hlow, hhigh, hle⟩ =>
    exact ⟨low, high, Value.toWhole_of_wholeNumber hfirst hlow,
      Value.toWhole_of_wholeNumber hlast hhigh, hle⟩

/-- **A range selects accounts by their number.**  The bounds of a range from the
    parser are whole numbers in order.  An account number that looks like digits
    only if it can be read as a number is selected exactly if, stripped, it is a
    number in plain digits between the bounds; any other one makes the range
    fail.  On a ledger without such numbers the range sums and counts exactly the
    balances so selected, in their order; on no other does it come to a sum. -/
theorem IsParsed.selects_by_number {first last : Value} (h : (between first last).IsParsed) :
    ∃ low high : Nat, first.toWhole = .ok low ∧ last.toWhole = .ok high ∧ low ≤ high ∧
      (∀ account, IsLegible account →
        (between first last).selects account = .ok (liesBetween low high account)) ∧
      (∀ account, ¬IsLegible account →
        ∃ fault, (between first last).selects account = .error (.value fault)) ∧
      ∀ balances : List AccountBalance,
        ((∀ b ∈ balances, IsLegible b.number) →
          let selected := balances.filter fun b => liesBetween low high b.number
          (between first last).resolve balances =
            (runningSum selected).map fun total => ⟨total, selected.length⟩) ∧
        ∀ s, (between first last).resolve balances = .ok s → ∀ b ∈ balances, IsLegible b.number := by
  obtain ⟨low, high, hlow, hhigh, hle⟩ := h.exists_bounds
  refine ⟨low, high, hlow, hhigh, hle, fun account => selects_between hlow hhigh,
    fun account => selects_between_of_not_isLegible hlow hhigh, ?_⟩
  intro balances
  refine ⟨?_, ?_⟩
  · intro hlegible selected
    have hselects : ∀ b ∈ balances,
        (between first last).selects b.number = .ok (liesBetween low high b.number) :=
      fun b hb => selects_between hlow hhigh (hlegible b hb)
    have hpicked : (between first last).picked balances = selected := by
      refine List.filter_congr fun b hb => ?_
      rw [picks, hselects b hb]
    rw [resolve_eq_picked fun b hb => ⟨_, hselects b hb⟩, hpicked]
  · intro s hs b hb
    obtain ⟨isSelected, hselects⟩ := canRead_of_collect hs b hb
    by_contra hodd
    obtain ⟨fault, hfails⟩ := selects_between_of_not_isLegible hlow hhigh hodd
    cases hfails.symm.trans hselects

/-- The accounts from one to five, read from a formula text. -/
theorem isParsed_lowAccounts : (between (.text "1") (.text "5")).IsParsed := by
  refine .inl ⟨.text "[1-5]", .account (between (.text "1") (.text "5")), ?_, by simp⟩
  cbv

/-- Account numbers with blanks, with letters and in digits of another script. -/
def mixedBalances : List AccountBalance :=
  [⟨" 3 ", .finite false 7 0⟩, ⟨"10", .finite false 5 0⟩, ⟨"x", .finite false 1 0⟩,
    ⟨"٤", .finite false 2 0⟩]

theorem IsParsed.selects_by_number_mixed :
    (between (.text "1") (.text "5")).IsParsed ∧ (∀ b ∈ mixedBalances, IsLegible b.number) ∧
      (between (.text "1") (.text "5")).resolve mixedBalances = .ok ⟨.finite false 9 0, 2⟩ := by
  have hlegible : ∀ b ∈ mixedBalances, IsLegible b.number := by decide +kernel
  obtain ⟨low, high, hlow, hhigh, -, -, -, hresolve⟩ := isParsed_lowAccounts.selects_by_number
  have hone : (Value.text "1").toWhole = .ok ((1 : Nat) : Int) := by decide +kernel
  have hfive : (Value.text "5").toWhole = .ok ((5 : Nat) : Int) := by decide +kernel
  obtain rfl : 1 = low := by exact_mod_cast Except.ok.inj (hone.symm.trans hlow)
  obtain rfl : 5 = high := by exact_mod_cast Except.ok.inj (hfive.symm.trans hhigh)
  refine ⟨isParsed_lowAccounts, hlegible, ((hresolve mixedBalances).1 hlegible).trans ?_⟩
  decide +kernel

/-- **Not every account number can be held against a range**: a raised two looks
    like a digit and is no number. -/
theorem not_selects_by_number :
    ¬∀ first last : Value, (between first last).IsParsed →
      ∀ account, ∃ isSelected, (between first last).selects account = .ok isSelected := by
  intro h
  obtain ⟨isSelected, hselects⟩ := h _ _ isParsed_lowAccounts "²"
  have hfails : (between (.text "1") (.text "5")).selects "²" =
      .error (.value (.notAWholeNumber "²")) := by
    cbv
  cases hfails.symm.trans hselects

end AccountReference

end KeyFigures
