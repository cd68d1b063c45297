/-
  KeyFigures/Proofs/Formula/Stored.lean
  =====================================
  **Trees that survive being written down.**

  Formula text has no sign for numbers and no power of ten.  The canonical text
  of a tree is that of its written form (`Term.written`), in which a number has
  no positive exponent and a negative one is a difference from zero in
  parentheses.  Where such text can hold the ids and the numbers of a tree
  (`Term.IsWritable`) and the written form nests no deeper than the reader
  allows, the text is read as the written form (`parseText_toText_written`),
  which refers to the same formulas and evaluates like the tree itself.

  A tree that was read from formula text is writable, and it is its own written
  form.
-/
import KeyFigures.Formula.Builder
import KeyFigures.Proofs.Decimal.NormalForm
import KeyFigures.Proofs.Evaluation.Agreement
import KeyFigures.Proofs.Formula.Described
import KeyFigures.Proofs.Formula.Traversal

namespace KeyFigures

open KeyFigures.Text

/-! ### Numbers without a power of ten -/

namespace Decimal

/-- The number with its positive exponent multiplied out. -/
def plainForm : Decimal → Decimal
  | .finite n c e => if e ≤ 0 then .finite n c e else .finite n (c * Nat.pow 10 e.toNat) 0
  | x => x

theorem plainForm_of_nonpos {n : Bool} {c : Nat} {e : Int} (h : e ≤ 0) :
    plainForm (.finite n c e) = .finite n c e :=
  if_pos h

/-- The plain form of a number that is not negative can stand in a text. -/
theorem exists_plainForm_eq (n : Bool) (c : Nat) (e : Int) :
    ∃ k u, plainForm (.finite n c e) = .finite n k u ∧ u ≤ 0 := by
  unfold plainForm
  dsimp only
  split
  · rename_i h
    exact ⟨c, e, rfl, h⟩
  · exact ⟨_, 0, rfl, le_rfl⟩

theorem plainForm_agrees (n : Bool) (c : Nat) (e : Int) :
    Agrees (plainForm (.finite n c e)) (.finite n c e) := by
  unfold plainForm
  dsimp only
  split
  · exact .same _
  · rename_i h
    obtain ⟨k, rfl⟩ := Int.eq_ofNat_of_zero_le (a := e) (by omega)
    apply Agrees.finite
    rw [toRat_finite, toRat_finite, zpow_natCast]
    push_cast [Nat.pow_eq, Int.toNat_natCast]
    simp

theorem digits_mul_ten {n : Nat} (h : n ≠ 0) : digits (n * 10) = digits n ++ ['0'] := by
  have hdiv : n * 10 / 10 = n := by omega
  have hmod : n * 10 % 10 = 0 := by omega
  rw [digits, if_neg (by omega), hdiv, hmod]
  rfl

theorem digits_mul_pow {n : Nat} (h : n ≠ 0) (k : Nat) :
    digits (n * 10 ^ k) = digits n ++ zeros k := by
  induction k with
  | zero => simp [zeros]
  | succ k ih =>
    have hne : n * 10 ^ k ≠ 0 := Nat.mul_ne_zero h (by positivity)
    rw [Nat.pow_succ, ← Nat.mul_assoc, digits_mul_ten hne, ih, List.append_assoc, zeros, zeros,
      List.replicate_succ']

theorem length_digits_pos (c : Nat) : 0 < (digits c).length :=
  List.length_pos_iff.mpr (digits_ne_nil c)

/-- A whole number is written with its digits and a zero for each power of
    ten. -/
theorem plainMagnitude_of_nonneg {c : Nat} (hc : c ≠ 0) (k : Nat) :
    plainMagnitude c k = digits c ++ zeros k := by
  have hlen := length_digits_pos c
  have hcount : ((k : Int) + (digits c).length - (digits c).length).toNat = k := by omega
  have hpoint : ¬(k : Int) + (digits c).length ≤ 0 := by omega
  have hwhole : ((digits c).length : Int) ≤ k + (digits c).length := by omega
  have hzero : ¬(c = 0 ∧ (0 : Int) ≤ k) := fun h => hc h.1
  simp only [plainMagnitude, pointed, if_neg hzero, if_neg hpoint, if_pos hwhole, hcount]

/-- Without a power of ten both are written alike. -/
theorem plainChars_plainForm (n : Bool) (c : Nat) (e : Int) :
    (plainForm (.finite n c e)).plainChars = (finite n c e).plainChars := by
  unfold plainForm
  dsimp only
  split
  · rfl
  · rename_i h
    obtain ⟨k, rfl⟩ := Int.eq_ofNat_of_zero_le (a := e) (by omega)
    unfold plainChars
    dsimp only [isNegative]
    congr 1
    by_cases hc : c = 0
    · subst hc
      simp [plainMagnitude]
    · have hne : c * 10 ^ k ≠ 0 := Nat.mul_ne_zero hc (by positivity)
      have hplain := plainMagnitude_of_nonneg hne 0
      rw [digits_mul_pow hc, show zeros 0 = [] from rfl, List.append_nil] at hplain
      rw [plainMagnitude_of_nonneg hc]
      exact hplain

/-! ### Numbers that a formula text can stand for -/

/-- The number is finite, and a negative one is neither zero nor changed by
    rounding. -/
def IsWritable : Decimal → Prop
  | .finite false _ _ => True
  | .finite true c e => c ≠ 0 ∧ (finite true c e).IsExact
  | .infinite _ | .nan .. => False

/-- The opposite of a negative number that fits the working range. -/
theorem exists_neg_eq {c : Nat} {e : Int} (hc : c ≠ 0) (h : (finite true c e).IsExact) :
    ∃ k u, neg (.finite true c e) = .ok (.finite false k u) ∧
      toRat (.finite false k u) = -toRat (.finite true c e) := by
  have hvalue : toRat (.finite false c e) = -toRat (.finite true c e) := by
    simp [toRat_finite]
  have hexact : rounded (toRat (.finite false c e)) = .ok (toRat (.finite false c e)) := by
    have hr : rounded (toRat (.finite true c e)) = .ok (toRat (.finite true c e)) := h
    rw [hvalue, rounded_neg, hr]
    rfl
  have hneg : neg (.finite true c e) = roundFinite false c e := by
    simp [neg, flipSign, plus]
  rcases roundFinite_magnitude hc e with ⟨k, u, -, heq⟩ | ⟨-, heq⟩
  · have hmap := (roundFinite_rounds false c e).map_toRat
    rw [heq, hexact] at hmap
    exact ⟨k, u, by rw [hneg, heq], (Except.ok.inj hmap).trans hvalue⟩
  · have hmap := (roundFinite_rounds false c e).map_toRat
    rw [heq, hexact] at hmap
    cases hmap

end Decimal

open Decimal (plainForm)

/-! ### The written form -/

/-- The tree that the canonical text of a number stands for. -/
def writtenConstant (value : Decimal) : Term :=
  match value, value.neg with
  | .finite true _ _, .ok positive =>
    .grouping (.binary (.constant .zero) .sub (.constant positive.plainForm))
  | value, _ => .constant value.plainForm

namespace Term

/-- The tree that its canonical text stands for. -/
def written : Term → Term
  | .constant value => writtenConstant value
  | .binary left op right => .binary left.written op right.written
  | .grouping inner => .grouping inner.written
  | t => t

/-- Formula text can hold the ids and the numbers of the tree. -/
def IsWritable : Term → Prop
  | .constant value => value.IsWritable
  | .formula (.text id) => isFormulaId id.toList = true
  | .formula _ => False
  | .binary left _ right => left.IsWritable ∧ right.IsWritable
  | .unsupported left _ right => left.IsWritable ∧ right.IsWritable
  | .grouping inner => inner.IsWritable
  | .account _ | .foreign _ => True

end Term

/-- The two cases of a writable number. -/
theorem writtenConstant_cases {value : Decimal} (h : value.IsWritable) :
    (∃ c e, value = .finite false c e ∧ writtenConstant value = .constant value.plainForm) ∨
    (∃ c e k u, value = .finite true c e ∧ c ≠ 0 ∧ value.neg = .ok (.finite false k u) ∧
      Decimal.toRat (.finite false k u) = -value.toRat ∧
      writtenConstant value =
        .grouping (.binary (.constant .zero) .sub (.constant (plainForm (.finite false k u))))) := by
  cases value with
  | finite negative c e =>
    cases negative with
    | false => exact .inl ⟨c, e, rfl, rfl⟩
    | true =>
      obtain ⟨k, u, hneg, hvalue⟩ := Decimal.exists_neg_eq h.1 h.2
      refine .inr ⟨c, e, k, u, rfl, h.1, hneg, hvalue, ?_⟩
      unfold writtenConstant
      rw [hneg]
  | infinite negative => exact h.elim
  | nan negative signalling payload => exact h.elim

namespace Term

/-! ### Its shape -/

theorem precedence?_writtenConstant (value : Decimal) :
    (writtenConstant value).precedence? = none := by
  unfold writtenConstant
  split <;> rfl

theorem precedence?_written (t : Term) : t.written.precedence? = t.precedence? := by
  cases t with
  | constant value => exact precedence?_writtenConstant value
  | _ => rfl

theorem phrase_writtenConstant (value : Decimal) : (writtenConstant value).WellFormed ∧
    (writtenConstant value).Stratified := by
  unfold writtenConstant
  split
  · exact ⟨⟨trivial, trivial⟩, trivial, trivial, nofun, nofun⟩
  · exact ⟨trivial, trivial⟩

theorem phrase_written {t : Term} (hw : t.WellFormed) (hs : t.Stratified) :
    t.written.WellFormed ∧ t.written.Stratified := by
  induction t with
  | constant value => exact phrase_writtenConstant value
  | binary left op right ihl ihr =>
    obtain ⟨hlw, hls⟩ := ihl hw.1 hs.1
    obtain ⟨hrw, hrs⟩ := ihr hw.2 hs.2.1
    refine ⟨⟨hlw, hrw⟩, hls, hrs, ?_, ?_⟩
    · rw [precedence?_written]
      exact hs.2.2.1
    · rw [precedence?_written]
      exact hs.2.2.2
  | grouping inner ih => exact ih hw hs
  | account | formula => exact ⟨hw, hs⟩
  | unsupported => exact hw.elim
  | foreign => exact hw.elim

theorem formulaReferences_written (t : Term) : t.written.formulaReferences = t.formulaReferences := by
  induction t with
  | constant value =>
    unfold written writtenConstant
    split <;> simp
  | binary left op right ihl ihr => simp [written, ihl, ihr]
  | grouping inner ih => simp [written, ih]
  | _ => rfl

/-! ### Its text -/

theorem readable_plainForm (c : Nat) (e : Int) :
    (Token.number (plainForm (.finite false c e))).Readable := by
  obtain ⟨k, u, heq, hu⟩ := Decimal.exists_plainForm_eq false c e
  rw [heq]
  exact hu

theorem readable_writtenConstant {value : Decimal} (h : value.IsWritable) :
    ∀ x ∈ (writtenConstant value).tokens, x.Readable := by
  have hzero : (Token.number .zero).Readable := le_refl (0 : Int)
  rcases writtenConstant_cases h with ⟨c, e, rfl, heq⟩ | ⟨c, e, k, u, rfl, -, -, -, heq⟩
  · rw [heq]
    simpa [tokens] using readable_plainForm c e
  · rw [heq]
    simp only [tokens, List.forall_mem_cons, List.cons_append, List.nil_append]
    exact ⟨trivial, hzero, trivial, readable_plainForm k u, trivial, by simp⟩

theorem readable_written {t : Term} (hw : t.WellFormed) (ht : t.IsWritable)
    (haccounts : ∀ ref, Token.account ref ∈ t.tokens → ref.Readable) :
    ∀ x ∈ t.written.tokens, x.Readable := by
  induction t with
  | constant value => exact readable_writtenConstant ht
  | account ref =>
    intro x hx
    obtain rfl := List.mem_singleton.mp hx
    exact haccounts ref (by simp [tokens])
  | formula id =>
    intro x hx
    obtain rfl := List.mem_singleton.mp hx
    cases id with
    | text id => exact ht
    | _ => exact ht.elim
  | grouping inner ih =>
    have hinner := ih hw ht fun ref href => haccounts ref (by simp [tokens, href])
    intro x hx
    simp only [written, tokens, List.mem_cons, List.mem_append, List.not_mem_nil, or_false] at hx
    rcases hx with rfl | hx | rfl
    · trivial
    · exact hinner x hx
    · trivial
  | binary left op right ihl ihr =>
    have hleft := ihl hw.1 ht.1 fun ref href => haccounts ref (by simp [tokens, href])
    have hright := ihr hw.2 ht.2 fun ref href => haccounts ref (by simp [tokens, href])
    intro x hx
    simp only [written, tokens, List.mem_cons, List.mem_append] at hx
    rcases hx with hx | rfl | hx
    · exact hleft x hx
    · trivial
    · exact hright x hx
  | unsupported => exact hw.elim
  | foreign => exact hw.elim

end Term

theorem constantChars_nonneg (c : Nat) (e : Int) :
    constantChars (.finite false c e) = .ok (Decimal.finite false c e).plainChars := by
  unfold constantChars
  by_cases hc : c = 0
  · simp [Decimal.order, Decimal.compareValue, Decimal.compareFinite, Decimal.zero,
      Decimal.ofNat, hc]
  · simp [Decimal.order, Decimal.compareValue, Decimal.compareFinite, Decimal.zero,
      Decimal.ofNat, hc]

theorem constantChars_neg {c : Nat} {e : Int} (hc : c ≠ 0) {positive : Decimal}
    (h : (Decimal.finite true c e).neg = .ok positive) :
    constantChars (.finite true c e) = .ok ("(0 - ".toList ++ positive.plainChars ++ [')']) := by
  have horder : Decimal.order (.finite true c e) .zero = .ok .lt := by
    simp [Decimal.order, Decimal.compareValue, Decimal.compareFinite, Decimal.zero,
      Decimal.ofNat, hc]
  unfold constantChars
  rw [horder, h]
  rfl

theorem chars_writtenConstant {value : Decimal} (h : value.IsWritable) :
    (writtenConstant value).chars = constantChars value := by
  rcases writtenConstant_cases h with ⟨c, e, rfl, heq⟩ | ⟨c, e, k, u, rfl, hc, hneg, -, heq⟩
  · obtain ⟨m, v, hplain, -⟩ := Decimal.exists_plainForm_eq false c e
    rw [heq, constantChars_nonneg, ← Decimal.plainChars_plainForm, hplain, Term.chars,
      constantChars_nonneg]
  · obtain ⟨m, v, hplain, -⟩ := Decimal.exists_plainForm_eq false k u
    have hzero : constantChars .zero = .ok ['0'] := by
      have hdigits : (Decimal.finite false 0 0).plainChars = ['0'] := by
        simp [Decimal.plainChars, Decimal.plainMagnitude, Decimal.signChars,
          Decimal.isNegative, digits, digitChar]
      exact (constantChars_nonneg 0 0).trans (by rw [hdigits])
    rw [heq, constantChars_neg hc hneg, ← Decimal.plainChars_plainForm, hplain]
    simp only [Term.chars, hzero, constantChars_nonneg]
    rfl

theorem Term.chars_written {t : Term} (hw : t.WellFormed) (h : t.IsWritable) :
    t.written.chars = t.chars := by
  induction t with
  | constant value => exact chars_writtenConstant h
  | binary left op right ihl ihr =>
    have hleft : left.written.needsLeft op = left.needsLeft op := by
      unfold Term.needsLeft
      rw [Term.precedence?_written]
    have hright : right.written.needsRight op = right.needsRight op := by
      unfold Term.needsRight
      rw [Term.precedence?_written]
    simp only [Term.written, Term.chars, ihl hw.1 h.1, ihr hw.2 h.2, hleft, hright]
  | grouping inner ih => simp only [Term.written, Term.chars, ih hw h]
  | account | formula => rfl
  | unsupported => exact hw.elim
  | foreign => exact hw.elim

/-- The canonical text of a writable tree is read as its written form. -/
theorem parseText_toText_written {t : Term} (hw : t.WellFormed) (hs : t.Stratified)
    (haccounts : ∀ ref, Token.account ref ∈ t.tokens → ref.Readable) (h : t.IsWritable)
    (hnesting : t.written.nesting ≤ maxNesting) :
    ∃ s, t.toText = .ok s ∧ parseText s = .ok t.written := by
  obtain ⟨hww, hws⟩ := Term.phrase_written hw hs
  obtain ⟨s, hs, hparse⟩ := parseText_toText_of_phrase ⟨hww, hws, hnesting⟩
    (Term.readable_written hw h haccounts)
  refine ⟨s, ?_, hparse⟩
  rw [← hs, Term.toText, Term.toText, Term.chars_written hw h]

/-! ### Its figures -/

open Decimal in
/-- Zero less the opposite of a number that fits the working range is that
    number. -/
theorem Decimal.zero_sub_agrees {n m : Bool} {c k : Nat} {e u : Int}
    (h : (finite n c e).IsExact)
    (hvalue : toRat (.finite m k u) = -toRat (.finite n c e)) :
    Alike Agrees (Decimal.zero.sub (plainForm (.finite m k u)))
      (Except.ok (.finite n c e) : Except Fault Decimal) := by
  have hsub : Rounds (sub (.finite false 0 0) (.finite m k u))
      (toRat (.finite false 0 0) - toRat (.finite m k u)) := sub_rounds
  rw [toRat_zero_coefficient, hvalue, sub_neg_eq_add, zero_add] at hsub
  have hexact : Rounds (Except.ok (.finite n c e)) (toRat (.finite n c e)) :=
    ⟨fun d hd => by cases hd; rfl, h.symm⟩
  exact (sub_agrees (.same .zero) (plainForm_agrees m k u)).trans (hsub.alike hexact rfl)
    fun _ _ _ => Agrees.trans

theorem writtenConstant_evaluatesLike {value : Decimal} (h : value.IsWritable) :
    (writtenConstant value).EvaluatesLike (.constant value) := by
  rcases writtenConstant_cases h with ⟨c, e, rfl, heq⟩ | ⟨c, e, k, u, rfl, hc, -, hvalue, heq⟩
  · rw [heq]
    exact Term.evaluatesLike_constant (Decimal.plainForm_agrees false c e)
  · rw [heq]
    intro balances ws
    have hrun : ((Term.grouping (.binary (.constant .zero) .sub
        (.constant (plainForm (.finite false k u))))).value balances).run ws =
          (Operator.sub.apply .zero (plainForm (.finite false k u)), ws) :=
      Term.run_binary _ _ _ balances ws
    rw [hrun]
    exact ⟨(Decimal.zero_sub_agrees h.2 hvalue).mapError fun fault => Stop.failed (.number fault), rfl⟩

/-- A writable tree has on every ledger the figures of its written form. -/
theorem Term.written_evaluatesLike {t : Term} (hw : t.WellFormed) (h : t.IsWritable) :
    t.written.EvaluatesLike t := by
  induction t with
  | constant value => exact writtenConstant_evaluatesLike h
  | binary left op right ihl ihr => exact (ihl hw.1 h.1).binary op (ihr hw.2 h.2)
  | grouping inner ih => exact (ih hw h).grouping
  | account | formula => exact Term.EvaluatesLike.refl _
  | unsupported => exact hw.elim
  | foreign => exact hw.elim

/-! ### Trees from sources -/

/-- A tree of readable tokens is writable, and nothing of it is written
    otherwise. -/
theorem Term.isWritable_of_readable {t : Term} (hw : t.WellFormed)
    (h : ∀ x ∈ t.tokens, x.Readable) : t.IsWritable ∧ t.written = t := by
  induction t with
  | constant value =>
    match value, h _ List.mem_cons_self with
    | .finite false c e, he =>
      refine ⟨trivial, ?_⟩
      show Term.constant (plainForm (.finite false c e)) = _
      rw [Decimal.plainForm_of_nonpos he]
  | formula id =>
    cases id with
    | text id => exact ⟨h _ List.mem_cons_self, rfl⟩
    | _ => exact (h _ List.mem_cons_self).elim
  | account ref => exact ⟨trivial, rfl⟩
  | grouping inner ih =>
    obtain ⟨hinner, heq⟩ := ih hw fun x hx => h x (by simp [tokens, hx])
    exact ⟨hinner, by rw [written, heq]⟩
  | binary left op right ihl ihr =>
    obtain ⟨hleft, hleq⟩ := ihl hw.1 fun x hx => h x (by simp [tokens, hx])
    obtain ⟨hright, hreq⟩ := ihr hw.2 fun x hx => h x (by simp [tokens, hx])
    exact ⟨⟨hleft, hright⟩, by rw [written, hleq, hreq]⟩
  | unsupported => exact hw.elim
  | foreign => exact hw.elim

/-- The accounts of an entry's tokens are such as brackets can hold. -/
theorem readable_of_entryToken {source : String} {index : Nat} {e : Entry}
    {ref : AccountReference} (h : e.token source index = .ok (.account ref)) : ref.Readable := by
  unfold Entry.token at h
  dsimp only at h
  split at h
  · split at h
    · cases h
    · rename_i account _
      unfold AccountReference.parse at h
      dsimp only at h
      cases hread : AccountReference.read account.toList with
      | error fault =>
        rw [hread] at h
        cases h
      | ok other =>
        rw [hread] at h
        cases h
        exact readable_of_read hread
  · split at h <;> cases h
  · split at h
    · cases h
    · split at h <;> cases h
    · cases h
  · split at h <;> cases h

/-- The tokens of entries are the entries' own and operators. -/
theorem exists_entry_of_mem_bare {source : String} {entries : List Entry} {token : Token}
    (hoperator : token.isOperator = false) :
    ∀ {index : Nat} {ts : List Placed}, entryTokens source index entries = .ok ts →
      token ∈ bare ts → ∃ e ∈ entries, ∃ i, e.token source i = .ok token := by
  induction entries with
  | nil =>
    intro index ts h htoken
    cases h
    cases htoken
  | cons e rest ih =>
    intro index ts h htoken
    unfold entryTokens at h
    obtain ⟨own, hown, h⟩ := Attempt.bind_eq_ok.mp h
    obtain ⟨more, hmore, h⟩ := Attempt.bind_eq_ok.mp h
    cases h
    obtain ⟨found, hfound, hown⟩ := Attempt.bind_eq_ok.mp hown
    cases hown
    rw [bare_append, List.mem_append] at htoken
    rcases htoken with htoken | htoken
    · have heq : token = found := by
        cases hop : e.operator with
        | none => simpa [hop] using htoken
        | some op =>
          simp only [hop, Option.map_some, Option.toList_some, List.cons_append, List.nil_append,
            bare_cons, bare_nil, List.mem_cons, List.not_mem_nil, or_false] at htoken
          rcases htoken with rfl | rfl
          · cases hoperator
          · rfl
      exact ⟨e, List.mem_cons_self, index, heq ▸ hfound⟩
    · obtain ⟨e', he', hi⟩ := ih hmore htoken
      exact ⟨e', List.mem_cons_of_mem _ he', hi⟩

theorem readable_of_entryTokens {source : String} {entries : List Entry} {ref : AccountReference}
    {index : Nat} {ts : List Placed} (h : entryTokens source index entries = .ok ts)
    (href : Token.account ref ∈ bare ts) : ref.Readable := by
  obtain ⟨e, -, i, he⟩ := exists_entry_of_mem_bare rfl h href
  exact readable_of_entryToken he

/-- A formula source is text, or goes through its items as entries, whose tokens
    are those of the tree. -/
theorem parseSource_cases {source : Value} {t : Term} (h : parseSource source = .ok t) :
    (∃ s, parseText s = .ok t) ∨
    ∃ items entries ts, source.items? = some items ∧ readEntries items = .ok entries ∧
      entryTokens (describeEntries entries) 0 entries = .ok ts ∧
      t.Phrase maxNesting ∧ t.tokens = bare ts := by
  rcases parseSource_text_or_entries h with ⟨s, -, hs⟩ | ⟨items, entries, hitems, hentries, h⟩
  · exact .inl ⟨s, hs⟩
  · obtain ⟨ts, hts, htree⟩ := parseEntries_eq_ok_iff.mp h
    obtain ⟨hphrase, htokens⟩ := Term.derives_iff.mp (treeOf_eq_ok_iff.mp htree)
    exact .inr ⟨items, entries, ts, hitems, hentries, hts, hphrase, htokens⟩

/-- A tree from a formula source is a phrase, and the accounts in it are such as
    brackets can hold. -/
theorem phrase_of_parseSource {source : Value} {t : Term} (h : parseSource source = .ok t) :
    t.Phrase maxNesting ∧ ∀ ref, Token.account ref ∈ t.tokens → ref.Readable := by
  rcases parseSource_cases h with ⟨s, hs⟩ | ⟨_, _, ts, -, -, hts, hphrase, htokens⟩
  · obtain ⟨hphrase, hreadable⟩ := phrase_of_parseText hs
    exact ⟨hphrase, fun ref href => hreadable _ href⟩
  · exact ⟨hphrase, fun ref href => readable_of_entryTokens hts (htokens ▸ href)⟩

/-- Formula text can hold the tree, and is not too deep with parentheses
    then. -/
structure Term.IsStorable (t : Term) : Prop where
  isWritable : t.IsWritable
  nesting_le : t.written.nesting ≤ maxNesting

/-- Trees from formula text can be written again. -/
theorem isStorable_of_parseText {s : String} {t : Term} (h : parseText s = .ok t) :
    t.IsStorable := by
  obtain ⟨hphrase, hreadable⟩ := phrase_of_parseText h
  obtain ⟨hwritable, heq⟩ := Term.isWritable_of_readable hphrase.wellFormed hreadable
  exact ⟨hwritable, by rw [heq]; exact hphrase.nesting_le⟩

/-- The canonical text of a storable tree exists, and the tree read from it has
    the same references in the same order, and the same figures. -/
theorem parseText_toText_of_isStorable {source : Value} {t : Term}
    (ht : parseSource source = .ok t) (h : t.IsStorable) {s : String} (hs : t.toText = .ok s) :
    ∃ u, parseText s = .ok u ∧ u.formulaReferences = t.formulaReferences ∧ u.EvaluatesLike t := by
  obtain ⟨hphrase, haccounts⟩ := phrase_of_parseSource ht
  obtain ⟨s', hs', hparse⟩ := parseText_toText_written hphrase.wellFormed hphrase.stratified
    haccounts h.isWritable h.nesting_le
  cases hs.symm.trans hs'
  exact ⟨t.written, hparse, t.formulaReferences_written,
    Term.written_evaluatesLike hphrase.wellFormed h.isWritable⟩

end KeyFigures
