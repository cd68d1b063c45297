/-
  KeyFigures/Proofs/Formula/Parenthesized.lean
  ============================================
  **Trees that were put together without parentheses.**

  The canonical text of any tree is that of the tree with parentheses added
  where its shape needs them (`Term.chars_parenthesized`), and with these the
  tree is stratified.  The text is read as that tree, its numbers in plain
  digits, if the parentheses nest no deeper than the reader allows; if they do
  not, it is refused, because its tokens are those of a phrase that is too deep
  and of no other phrase (`Term.Phrase.eq_of_tokens_eq`).
-/
import KeyFigures.Proofs.Formula.Stored

namespace KeyFigures

open KeyFigures.Text

theorem AccountReference.same_self (ref : AccountReference) : ref.same ref = true := by
  cases ref <;> simp [AccountReference.same]

/-! ### Trees that formula text can hold -/

namespace Term

/-- The accounts and ids of a tree are such as formula text can hold, and its
    numbers are finite and without a sign. -/
def Legible : Term → Prop
  | .account ref => ref.Readable
  | .constant (.finite false _ _) => True
  | .constant _ => False
  | .formula (.text id) => isFormulaId id.toList = true
  | .formula _ => False
  | .grouping inner => inner.Legible
  | .binary left _ right => left.Legible ∧ right.Legible
  | .unsupported .. | .foreign _ => False

theorem Legible.exists_constant_eq {value : Decimal} (h : (Term.constant value).Legible) :
    ∃ c e, value = .finite false c e := by
  match value, h with
  | .finite false c e, _ => exact ⟨c, e, rfl⟩

theorem Legible.wellFormed {t : Term} (h : t.Legible) : t.WellFormed := by
  induction t with
  | binary left op right ihl ihr => exact ⟨ihl h.1, ihr h.2⟩
  | grouping inner ih => exact ih h
  | account | constant | formula => trivial
  | unsupported => exact h.elim
  | foreign => exact h.elim

theorem Legible.isWritable {t : Term} (h : t.Legible) : t.IsWritable := by
  induction t with
  | constant value =>
    obtain ⟨c, e, rfl⟩ := h.exists_constant_eq
    trivial
  | formula id =>
    cases id with
    | text id => exact h
    | _ => exact h.elim
  | binary left op right ihl ihr => exact ⟨ihl h.1, ihr h.2⟩
  | grouping inner ih => exact ih h
  | account => trivial
  | unsupported => exact h.elim
  | foreign => exact h.elim

theorem Legible.readable_account {t : Term} (h : t.Legible) :
    ∀ ref, Token.account ref ∈ t.tokens → ref.Readable := by
  induction t with
  | account ref =>
    intro other hother
    obtain rfl : other = ref := by simpa [tokens] using hother
    exact h
  | binary left op right ihl ihr =>
    intro ref href
    have hmem : Token.account ref ∈ left.tokens ∨ Token.account ref ∈ right.tokens := by
      simpa [tokens] using href
    exact hmem.elim (ihl h.1 ref) (ihr h.2 ref)
  | grouping inner ih =>
    intro ref href
    exact ih h ref (by simpa [tokens] using href)
  | constant | formula => simp [tokens]
  | unsupported => exact h.elim
  | foreign => exact h.elim

/-! ### Parentheses where they are due -/

/-- A tree, in parentheses if they are due. -/
def groupedIf (due : Bool) (t : Term) : Term := if due then .grouping t else t

theorem parenthesized_binary (left : Term) (op : Operator) (right : Term) :
    (Term.binary left op right).parenthesized =
      .binary (groupedIf (left.needsLeft op) left.parenthesized) op
        (groupedIf (right.needsRight op) right.parenthesized) := rfl

@[simp]
theorem precedence?_parenthesized (t : Term) : t.parenthesized.precedence? = t.precedence? := by
  cases t <;> rfl

/-- Parentheses that are due are no longer due once they are there. -/
theorem needsLeft_groupedIf (op : Operator) (left : Term) :
    (groupedIf (left.needsLeft op) left.parenthesized).needsLeft op = false := by
  cases h : left.needsLeft op with
  | true => rfl
  | false =>
    show left.parenthesized.needsLeft op = false
    rw [← h]
    unfold needsLeft
    rw [precedence?_parenthesized]

theorem needsRight_groupedIf (op : Operator) (right : Term) :
    (groupedIf (right.needsRight op) right.parenthesized).needsRight op = false := by
  cases h : right.needsRight op with
  | true => rfl
  | false =>
    show right.parenthesized.needsRight op = false
    rw [← h]
    unfold needsRight
    rw [precedence?_parenthesized]

theorem chars_groupedIf (due : Bool) (t : Term) :
    (groupedIf due t).chars = t.chars.map (enclosed due) := by
  cases due with
  | false => cases h : t.chars <;> simp [groupedIf, h, Except.map, enclosed]
  | true => cases h : t.chars <;> simp [groupedIf, chars, h, Except.map, bind, Except.bind]

/-- A tree has the canonical text of the tree with the parentheses that are
    due. -/
theorem chars_parenthesized (t : Term) : t.parenthesized.chars = t.chars := by
  induction t with
  | binary left op right ihl ihr =>
    rw [parenthesized_binary, chars, chars, needsLeft_groupedIf, needsRight_groupedIf,
      chars_groupedIf, chars_groupedIf, ihl, ihr]
    cases left.chars with
    | error failure => rfl
    | ok l =>
      cases right.chars with
      | error failure => rfl
      | ok r => rfl
  | grouping inner ih => simp only [parenthesized, chars, ih]
  | account | constant | formula | unsupported | foreign => rfl

theorem stratified_groupedIf (due : Bool) {t : Term} (h : t.Stratified) :
    (groupedIf due t).Stratified := by
  cases due <;> exact h

theorem legible_groupedIf (due : Bool) {t : Term} (h : t.Legible) : (groupedIf due t).Legible := by
  cases due <;> exact h

theorem precedence_le_of_needsLeft {op : Operator} {left : Term} (h : left.needsLeft op = false) :
    ∀ p ∈ left.precedence?, op.precedence ≤ p := by
  intro p hp
  unfold needsLeft at h
  rw [Option.mem_def.mp hp] at h
  exact Nat.le_of_not_lt (of_decide_eq_false h)

theorem precedence_lt_of_needsRight {op : Operator} {right : Term}
    (h : right.needsRight op = false) : ∀ p ∈ right.precedence?, op.precedence < p := by
  intro p hp
  unfold needsRight at h
  rw [Option.mem_def.mp hp] at h
  exact Nat.lt_of_not_le (of_decide_eq_false h)

/-- With its parentheses a tree of formula nodes is stratified. -/
theorem stratified_parenthesized {t : Term} (h : t.WellFormed) : t.parenthesized.Stratified := by
  induction t with
  | binary left op right ihl ihr =>
    rw [parenthesized_binary]
    exact ⟨stratified_groupedIf _ (ihl h.1), stratified_groupedIf _ (ihr h.2),
      precedence_le_of_needsLeft (needsLeft_groupedIf op left),
      precedence_lt_of_needsRight (needsRight_groupedIf op right)⟩
  | grouping inner ih => exact ih h
  | account | constant | formula => trivial
  | unsupported => exact h.elim
  | foreign => exact h.elim

theorem Legible.parenthesized {t : Term} (h : t.Legible) : t.parenthesized.Legible := by
  induction t with
  | binary left op right ihl ihr =>
    rw [parenthesized_binary]
    exact ⟨legible_groupedIf _ (ihl h.1), legible_groupedIf _ (ihr h.2)⟩
  | grouping inner ih => exact ih h
  | account | constant | formula | unsupported | foreign => exact h

/-! ### Plain digits -/

/-- Numbers without a sign are written in plain digits, and nothing else of the
    tree changes. -/
theorem Legible.nesting_written {t : Term} (h : t.Legible) : t.written.nesting = t.nesting := by
  induction t with
  | constant value =>
    obtain ⟨c, e, rfl⟩ := h.exists_constant_eq
    rfl
  | binary left op right ihl ihr => simp only [written, nesting, ihl h.1, ihr h.2]
  | grouping inner ih => simp only [written, nesting, ih h]
  | account | formula => rfl
  | unsupported => exact h.elim
  | foreign => exact h.elim

theorem Legible.equalValue_written {t : Term} (h : t.Legible) :
    t.written.equalValue t = .ok true := by
  induction t with
  | constant value =>
    obtain ⟨c, e, rfl⟩ := h.exists_constant_eq
    obtain ⟨k, u, hplain, -⟩ := Decimal.exists_plainForm_eq false c e
    have hfinite : (Decimal.plainForm (.finite false c e)).isFinite := by rw [hplain]; rfl
    have hequal := Decimal.equalValue_of_agrees (Decimal.plainForm_agrees false c e) hfinite
    exact congrArg Attempt.ofDecimal hequal
  | account ref => exact congrArg Except.ok ref.same_self
  | formula id => exact congrArg Except.ok (Value.same_self id)
  | binary left op right ihl ihr =>
    simp [written, equalValue, ihl h.1, ihr h.2, bind, Except.bind]
  | grouping inner ih => exact ih h
  | unsupported => exact h.elim
  | foreign => exact h.elim

/-! ### Phrases of any depth -/

/-- A row of tokens is that of one phrase at most, however deep. -/
theorem Phrase.eq_of_tokens_eq {n m : Nat} {t u : Term} (ht : t.Phrase n) (hu : u.Phrase m)
    (h : t.tokens = u.tokens) : t = u := by
  have hdeep : ∀ {room : Nat} {v : Term}, v.Phrase room → room ≤ max n m → v.Phrase (max n m) :=
    fun hv hle => ⟨hv.wellFormed, hv.stratified, hv.nesting_le.trans hle⟩
  have hbare : bare (u.tokens.map (⟨·, 0⟩)) = u.tokens := by
    rw [bare, List.map_map]
    exact List.map_id _
  obtain ⟨r, hr, hrt, -⟩ := chainWithin_complete (max n m) none _ _ [] t
    (hdeep ht (le_max_left n m)) (List.append_nil _).symm (hbare.trans h.symm) (fun _ hp => by cases hp)
  obtain ⟨s, hs, hsu, -⟩ := chainWithin_complete (max n m) none _ _ [] u
    (hdeep hu (le_max_right n m)) (List.append_nil _).symm hbare (fun _ hp => by cases hp)
  obtain rfl : r = s := Except.ok.inj (hr.symm.trans hs)
  exact hrt.symm.trans hsu

end Term

/-- The canonical text of a phrase that is too deep is refused. -/
theorem parseText_toText_of_deep {t : Term} (hw : t.WellFormed) (hs : t.Stratified)
    (hreadable : ∀ x ∈ t.tokens, x.Readable) (hdeep : maxNesting < t.nesting) :
    ∃ u reason position, t.toText = .ok u ∧
      parseText u = .error (.parse ⟨u, reason, position⟩) := by
  have ht : t.Phrase t.nesting := ⟨hw, hs, le_rfl⟩
  obtain ⟨u, ts, hu, htokenize, hts⟩ := tokenize_toText ht hreadable
  have hnone : ∀ v, treeOf ts ≠ .ok v := by
    intro v hv
    obtain ⟨hphrase, htokens⟩ := Term.derives_iff.mp (treeOf_eq_ok_iff.mp hv)
    obtain rfl := ht.eq_of_tokens_eq hphrase (hts.symm.trans htokens.symm)
    exact absurd hphrase.nesting_le (Nat.not_le.mpr hdeep)
  have hrefused : ∃ reason position,
      parseTokens u ts = .error (.parse ⟨u, reason, position⟩) :=
    parseTokens_eq_error_iff.mpr hnone
  obtain ⟨reason, position, hparse⟩ := hrefused
  refine ⟨u, reason, position, hu, ?_⟩
  unfold parseText
  rw [htokenize]
  exact hparse

/-! ### Writing and reading -/

/-- **Trees in canonical text.**  A tree whose accounts and ids formula text can
    hold and whose numbers have no sign is written, and read as the same tree
    with the parentheses that its shape needs, the numbers being equal by value.
    If these parentheses nest too deep, the text is refused as malformed. -/
theorem parseText_toText_of_legible {t : Term} (h : t.Legible) :
    ∃ u, t.toText = .ok u ∧
      (t.parenthesized.nesting ≤ maxNesting →
        ∃ p, parseText u = .ok p ∧ p.equalValue t.parenthesized = .ok true) ∧
      (maxNesting < t.parenthesized.nesting →
        ∃ reason position, parseText u = .error (.parse ⟨u, reason, position⟩)) := by
  have hp : t.parenthesized.Legible := h.parenthesized
  obtain ⟨hwf, hstratified⟩ :=
    Term.phrase_written hp.wellFormed (Term.stratified_parenthesized h.wellFormed)
  have hreadable : ∀ x ∈ t.parenthesized.written.tokens, x.Readable :=
    Term.readable_written hp.wellFormed hp.isWritable hp.readable_account
  have htext : t.parenthesized.written.toText = t.toText := by
    rw [Term.toText, Term.toText, Term.chars_written hp.wellFormed hp.isWritable,
      Term.chars_parenthesized]
  obtain ⟨u, -, hu, -, -⟩ := tokenize_toText ⟨hwf, hstratified, le_rfl⟩ hreadable
  refine ⟨u, htext ▸ hu, ?_, ?_⟩
  · intro hnesting
    rw [← hp.nesting_written] at hnesting
    obtain ⟨u', hu', hparse⟩ := parseText_toText_of_phrase ⟨hwf, hstratified, hnesting⟩ hreadable
    cases hu.symm.trans hu'
    exact ⟨_, hparse, hp.equalValue_written⟩
  · intro hdeep
    rw [← hp.nesting_written] at hdeep
    obtain ⟨u', reason, position, hu', hparse⟩ :=
      parseText_toText_of_deep hwf hstratified hreadable hdeep
    cases hu.symm.trans hu'
    exact ⟨reason, position, hparse⟩

/-- A constant in so many parentheses. -/
def Term.buried (value : Decimal) : Nat → Term
  | 0 => .constant value
  | n + 1 => .grouping (Term.buried value n)

theorem Term.buried_legible (c : Nat) (e : Int) (n : Nat) :
    (Term.buried (.finite false c e) n).Legible := by
  induction n with
  | zero => trivial
  | succ n ih => exact ih

theorem Term.nesting_parenthesized_buried (value : Decimal) (n : Nat) :
    (Term.buried value n).parenthesized.nesting = n := by
  induction n with
  | zero => rfl
  | succ n ih => exact congrArg (· + 1) ih

/-- A product of sums that nobody put in parentheses, one number of it with a
    power of ten, and a number in more parentheses than the reader allows. -/
theorem parseText_toText_of_legible_sums :
    (∃ u p, Term.toText (.binary (.binary (.account (.starting (.text "10"))) .add
          (.constant (.finite false 2 3))) .mul
          (.binary (.formula (.text "a")) .sub (.constant (.finite false 25 (-1))))) = .ok u ∧
        parseText u = .ok p ∧
        p.equalValue (.binary (.grouping (.binary (.account (.starting (.text "10"))) .add
          (.constant (.finite false 2 3)))) .mul
          (.grouping (.binary (.formula (.text "a")) .sub (.constant (.finite false 25 (-1)))))) =
            .ok true) ∧
      ∃ u reason position, Term.toText (Term.buried (.finite false 1 0) 65) = .ok u ∧
        parseText u = .error (.parse ⟨u, reason, position⟩) := by
  refine ⟨?_, ?_⟩
  · have h : (Term.binary (.binary (.account (.starting (.text "10"))) .add
        (.constant (.finite false 2 3))) .mul
        (.binary (.formula (.text "a")) .sub (.constant (.finite false 25 (-1))))).Legible := by
      have haccount : AccountReference.Readable (.starting (.text "10")) :=
        ⟨by simp, by simp [isCodeChar]⟩
      have hid : isFormulaId "a".toList = true := by decide +kernel
      exact ⟨⟨haccount, trivial⟩, hid, trivial⟩
    obtain ⟨u, hu, hread, -⟩ := parseText_toText_of_legible h
    obtain ⟨p, hp, hequal⟩ := hread (by decide)
    exact ⟨u, p, hu, hp, hequal⟩
  · obtain ⟨u, hu, -, hdeep⟩ := parseText_toText_of_legible (Term.buried_legible 1 0 65)
    obtain ⟨reason, position, hrefused⟩ :=
      hdeep (by rw [Term.nesting_parenthesized_buried]; decide)
    exact ⟨u, reason, position, hu, hrefused⟩

end KeyFigures
