/-
  KeyFigures/Proofs/Formula/Refusals.lean
  =======================================
  **How the reader of formula text can fail.**

  Every text is read as a tree or refused as a malformed formula that names the
  text, with one exception: the bounds of a range are compared as whole numbers,
  and a row of more than `maxIntDigits` digits is none.  Such a bound fails as a
  value before anything else about the range is looked at, and nothing turns
  that failure into a malformed formula.

  `HasOverlongBound` says where that happens in a text.  It is carried up the
  readers: from the bounds to what stands between brackets
  (`AccountReference.read_eq_value_iff`), to one lexeme
  (`readLexeme_eq_value_iff`), and by the lexemes in front of it to the text
  (`parseText_eq_value_iff`).
-/
import KeyFigures.Formula.Parse
import KeyFigures.Proofs.Formula.Grammar
import KeyFigures.Proofs.Formula.Scanning

namespace KeyFigures

open KeyFigures.Text

/-! ### Bounds with too many digits -/

/-- One of two bounds has `n` digits, more than a whole number may have; the
    first is looked at first. -/
def IsOverlong (first last : List Char) (n : Nat) : Prop :=
  maxIntDigits < n ∧
    (first.length = n ∨ first.length ≤ maxIntDigits ∧ last.length = n)

/-- A range in brackets behind some lexemes of a text has a bound of `n` digits,
    more than a whole number may have. -/
def HasOverlongBound (s : String) (n : Nat) : Prop :=
  ∃ ls inner rest first last, Lexes 0 s.toList ls ('[' :: (inner ++ ']' :: rest)) ∧
    rangeBounds? (strip inner) = some (first, last) ∧ IsOverlong first last n

theorem wholeNumber_of_le {ds : List Char} (h : ds.length ≤ maxIntDigits) :
    wholeNumber ds = .ok (valueOf ds) :=
  if_neg (Nat.not_lt.mpr h)

theorem wholeNumber_of_lt {ds : List Char} (h : maxIntDigits < ds.length) :
    wholeNumber ds = .error (.tooManyDigits ds.length) :=
  if_pos h

/-- Without an overlong bound a range is read or malformed. -/
theorem AccountReference.read_ne_value {inner first last : List Char}
    (hbounds : rangeBounds? (strip inner) = some (first, last))
    (hfirst : first.length ≤ maxIntDigits) (hlast : last.length ≤ maxIntDigits)
    (fault : ValueFault) : read inner ≠ .error (.value fault) := by
  unfold read
  simp only [hbounds, wholeNumber_of_le hfirst, wholeNumber_of_le hlast]
  split
  · simp
  split <;> simp

theorem AccountReference.read_of_isOverlong {inner first last : List Char} {n : Nat}
    (hbounds : rangeBounds? (strip inner) = some (first, last)) (h : IsOverlong first last n) :
    read inner = .error (.value (.tooManyDigits n)) := by
  have hne : (strip inner).isEmpty = false := by
    cases hstrip : strip inner with
    | nil => simp [hstrip, rangeBounds?] at hbounds
    | cons c r => rfl
  unfold read
  obtain ⟨hn, rfl | ⟨hfirst, rfl⟩⟩ := h
  · simp [hne, hbounds, wholeNumber_of_lt hn]
  · simp [hne, hbounds, wholeNumber_of_le hfirst, wholeNumber_of_lt hn]

/-- What stands between brackets fails as a value exactly if it is a range with
    an overlong bound. -/
theorem AccountReference.read_eq_value_iff {inner : List Char} {fault : ValueFault} :
    read inner = .error (.value fault) ↔
      ∃ first last n, rangeBounds? (strip inner) = some (first, last) ∧
        IsOverlong first last n ∧ fault = .tooManyDigits n := by
  constructor
  · intro h
    cases hbounds : rangeBounds? (strip inner) with
    | none =>
      unfold read at h
      simp only [hbounds] at h
      split at h
      · cases h
      split at h
      · cases h
      split at h <;> cases h
    | some bounds =>
      obtain ⟨first, last⟩ := bounds
      have hoverlong : ∃ n, IsOverlong first last n := by
        by_cases hfirst : first.length ≤ maxIntDigits
        · by_cases hlast : last.length ≤ maxIntDigits
          · exact absurd h (read_ne_value hbounds hfirst hlast fault)
          · exact ⟨_, Nat.lt_of_not_le hlast, .inr ⟨hfirst, rfl⟩⟩
        · exact ⟨_, Nat.lt_of_not_le hfirst, .inl rfl⟩
      obtain ⟨n, hn⟩ := hoverlong
      rw [read_of_isOverlong hbounds hn] at h
      cases h
      exact ⟨first, last, n, rfl, hn, rfl⟩
  · rintro ⟨first, last, n, hbounds, hn, rfl⟩
    exact read_of_isOverlong hbounds hn

/-- The brackets of a range are the first behind its opening one. -/
theorem not_mem_of_rangeBounds? {inner first last : List Char}
    (h : rangeBounds? (strip inner) = some (first, last)) {d : Char}
    (hd : isInnerChar d = false) : d ∉ inner := by
  exact not_mem_of_class (isInnerChar_of_strip (isInnerChar_of_rangeBounds? h)) hd

/-- A lexeme fails as a value exactly if it is such a range in brackets. -/
theorem readLexeme_eq_value_iff {c : Char} {r : List Char} {fault : ValueFault} :
    readLexeme c r = .error (.value fault) ↔
      c = '[' ∧ ∃ inner rest, r = inner ++ ']' :: rest ∧
        AccountReference.read inner = .error (.value fault) := by
  constructor
  · intro h
    unfold readLexeme at h
    split at h
    · rename_i hc
      split at h
      · cases h
      · rename_i inner hinner
        split at h
        · cases h
        · obtain ⟨-, rest, rfl⟩ := upTo?_eq_some hinner
          refine ⟨hc, inner, rest, rfl, ?_⟩
          cases hread : AccountReference.read inner with
          | ok ref => simp [hread, Except.map] at h
          | error fault' =>
            rw [hread] at h
            cases h
            rfl
    -- no other lexeme holds a whole number
    split at h
    · split at h
      · cases h
      · dsimp only at h
        split at h <;> cases h
    split at h
    · split at h <;> cases h
    split at h
    · cases h
    split at h
    · cases h
    split at h
    · cases h
    split at h <;> cases h
  · rintro ⟨rfl, inner, rest, rfl, hread⟩
    obtain ⟨first, last, n, hbounds, -, -⟩ := AccountReference.read_eq_value_iff.mp hread
    have hclose : ']' ∉ inner := not_mem_of_rangeBounds? hbounds (by decide)
    have hopen : '[' ∉ inner := not_mem_of_rangeBounds? hbounds (by decide)
    rw [readLexeme, if_pos rfl, upTo?_append hclose]
    simp [hopen, hread, Except.map]

/-! ### Refused texts -/

/-- A text is refused as a malformed formula that names it, or fails as a
    value. -/
theorem parseText_eq_error {s : String} {f : Failure} (h : parseText s = .error f) :
    (∃ reason position, f = .parse ⟨s, reason, position⟩) ∨ ∃ fault, f = .value fault := by
  rcases Attempt.bind_eq_error.mp h with h | ⟨ts, -, h⟩
  · obtain ⟨ls, c, r, fault, -, -, -, rfl⟩ := scan_eq_error_iff.mp h
    cases fault with
    | malformed reason => exact .inl ⟨_, _, rfl⟩
    | value fault => exact .inr ⟨fault, rfl⟩
  · obtain ⟨complaint, -, hf⟩ := parseTokens_refuses_iff.mp h
    exact .inl ⟨_, _, hf⟩

/-- A text fails as a value exactly if it has an overlong bound. -/
theorem parseText_eq_value_iff {s : String} {fault : ValueFault} :
    parseText s = .error (.value fault) ↔
      ∃ n, HasOverlongBound s n ∧ fault = .tooManyDigits n := by
  unfold parseText
  rw [Attempt.bind_eq_error]
  constructor
  · rintro (h | ⟨ts, -, h⟩)
    · obtain ⟨ls, c, r, fault', hls, -, hread, hfault⟩ := scan_eq_error_iff.mp h
      cases fault' with
      | malformed reason => cases hfault
      | value fault' =>
        cases hfault
        obtain ⟨rfl, inner, rest, rfl, hinner⟩ := readLexeme_eq_value_iff.mp hread
        obtain ⟨first, last, n, hbounds, hn, rfl⟩ := AccountReference.read_eq_value_iff.mp hinner
        exact ⟨n, ⟨ls, inner, rest, first, last, hls, hbounds, hn⟩, rfl⟩
    · obtain ⟨complaint, -, hf⟩ := parseTokens_refuses_iff.mp h
      cases hf
  · rintro ⟨n, ⟨ls, inner, rest, first, last, hls, hbounds, hn⟩, rfl⟩
    have hread := readLexeme_eq_value_iff.mpr
      ⟨rfl, inner, rest, rfl, AccountReference.read_of_isOverlong hbounds hn⟩
    exact .inl (hls.scan_eq_error (by decide) hread s)

/-- **Every text is read or refused.**  A text is read as a tree, or it is
    refused as a malformed formula that names the text, or it fails because of
    the digits of a bound; and the last happens exactly if a range behind some
    lexemes of the text has an overlong bound. -/
theorem parseText_read_or_refused (s : String) :
    ((∃ t, parseText s = .ok t) ∨
      (∃ reason position, parseText s = .error (.parse ⟨s, reason, position⟩)) ∨
      ∃ n, parseText s = .error (.value (.tooManyDigits n))) ∧
    ∀ n, parseText s = .error (.value (.tooManyDigits n)) ↔ HasOverlongBound s n := by
  refine ⟨?_, ?_⟩
  · cases h : parseText s with
    | ok t => exact .inl ⟨t, rfl⟩
    | error f =>
      rcases parseText_eq_error h with ⟨reason, position, rfl⟩ | ⟨fault, rfl⟩
      · exact .inr (.inl ⟨reason, position, rfl⟩)
      · obtain ⟨n, -, rfl⟩ := parseText_eq_value_iff.mp h
        exact .inr (.inr ⟨n, rfl⟩)
  · intro n
    rw [parseText_eq_value_iff]
    simp

/-- A range of digits in brackets. -/
def rangeText (first last : List Char) : String :=
  String.ofList ('[' :: (first ++ '-' :: last ++ [']']))

theorem hasOverlongBound_rangeText {first last : List Char} {n : Nat}
    (hfirst : first ≠ [] ∧ ∀ c ∈ first, isDigit c = true)
    (hlast : last ≠ [] ∧ ∀ c ∈ last, isDigit c = true) (hn : IsOverlong first last n) :
    HasOverlongBound (rangeText first last) n := by
  have hstrip : strip (first ++ '-' :: last) = first ++ '-' :: last := by
    refine stripWhere_eq_self fun c hc => ?_
    rcases List.mem_append.mp hc with hc | hc
    · exact isBlank_of_isDigit (hfirst.2 c hc)
    · rcases List.mem_cons.mp hc with rfl | hc
      · decide
      · exact isBlank_of_isDigit (hlast.2 c hc)
  refine ⟨[], first ++ '-' :: last, [], first, last, ?_, ?_, hn⟩
  · rw [rangeText, String.toList_ofList]
    exact .done
  · rw [hstrip, rangeBounds?_complete hfirst hlast]

theorem hasOverlongBound_replicate {n : Nat} (hn : maxIntDigits < n) :
    HasOverlongBound (rangeText (List.replicate n '2') ['1']) n := by
  have hdigits : ∀ c ∈ List.replicate n '2', isDigit c = true := by
    intro c hc
    obtain rfl := List.eq_of_mem_replicate hc
    decide
  have hne : List.replicate n '2' ≠ [] := by
    intro hnil
    rw [List.replicate_eq_nil_iff] at hnil
    omega
  have hone : ['1'] ≠ [] ∧ ∀ c ∈ ['1'], isDigit c = true :=
    ⟨List.cons_ne_nil _ _, List.forall_mem_singleton.mpr (by decide)⟩
  exact hasOverlongBound_rangeText ⟨hne, hdigits⟩ hone ⟨hn, .inl List.length_replicate⟩

/-- Of a bound with too many digits not even the order of the bounds is
    looked at. -/
theorem not_parseText_read_or_refused :
    ¬∀ s, (∃ t, parseText s = .ok t) ∨
      ∃ reason position, parseText s = .error (.parse ⟨s, reason, position⟩) := by
  intro h
  have hlong : maxIntDigits < 4301 := by decide
  have hvalue := parseText_eq_value_iff.mpr ⟨4301, hasOverlongBound_replicate hlong, rfl⟩
  rcases h (rangeText (List.replicate 4301 '2') ['1']) with ⟨t, ht⟩ | ⟨reason, position, hrefused⟩
  · cases hvalue.symm.trans ht
  · cases hvalue.symm.trans hrefused

end KeyFigures
