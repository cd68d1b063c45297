/-
  KeyFigures/Proofs/Formula/Lexeme.lean
  =====================================
  **Tokens in writing, and what can be read off a text.**

  `IsLexeme` is the lexical grammar: which characters stand for which token,
  whatever they stand in front of.  A lexeme read at the front of a text is one
  of the grammar (`isLexeme_of_readLexeme`), and a lexeme of the grammar is read
  from its own characters before every rest that does not carry it on
  (`IsLexeme.readLexeme`).  Only a number can be carried on, by a digit or by a
  point.

  A token is `Readable` if formula text can hold it: a number without sign and
  without a positive exponent, an account code or a range in the characters
  that brackets may hold, an id of the form that braces may hold.  These are the
  tokens that lexemes stand for (`IsLexeme.readable`), and each of them has
  characters that are a lexeme for it (`Token.Readable.isLexeme`).
-/
import KeyFigures.Proofs.Decimal.Plain
import KeyFigures.Formula.Written

namespace KeyFigures

open KeyFigures.Text

/-! ### Account references -/

/-- An account reference that brackets can hold. -/
def AccountReference.Readable : AccountReference → Prop
  | .starting (.text code) => code.toList ≠ [] ∧ ∀ c ∈ code.toList, isCodeChar c = true
  | .between (.text first) (.text last) =>
    (first.toList ≠ [] ∧ ∀ c ∈ first.toList, isDigit c = true) ∧
      (last.toList ≠ [] ∧ ∀ c ∈ last.toList, isDigit c = true) ∧
      ∃ low high, wholeNumber first.toList = .ok low ∧ wholeNumber last.toList = .ok high ∧
        low ≤ high
  | _ => False

theorem rangeBounds?_sound {body first last : List Char}
    (h : rangeBounds? body = some (first, last)) :
    (first ≠ [] ∧ ∀ c ∈ first, isDigit c = true) ∧ (last ≠ [] ∧ ∀ c ∈ last, isDigit c = true) := by
  unfold rangeBounds? at h
  dsimp only at h
  split at h
  · split at h
    · cases h
    · rename_i hno
      cases h
      simp only [Bool.or_eq_true, not_or, Bool.not_eq_true, Bool.not_eq_false',
        List.isEmpty_eq_false_iff, List.all_eq_true] at hno
      refine ⟨⟨hno.1.1, ?_⟩, hno.1.2, hno.2⟩
      intro c hc
      exact List.all_eq_true.mp List.all_takeWhile c hc
  · cases h

theorem rangeBounds?_complete {first last : List Char}
    (hfirst : first ≠ [] ∧ ∀ c ∈ first, isDigit c = true)
    (hlast : last ≠ [] ∧ ∀ c ∈ last, isDigit c = true) :
    rangeBounds? (first ++ '-' :: last) = some (first, last) := by
  have hhyphen : StopsAt isDigit ('-' :: last) := by
    intro c hc
    obtain rfl := Option.some.inj hc
    decide
  have hblank : isBlank '-' = false := by decide
  have hlastStop : StopsAt isBlank last := fun c hc =>
    isBlank_of_isDigit (hlast.2 c (List.mem_of_mem_head? hc))
  have hall : last.all isDigit = true := List.all_eq_true.mpr hlast.2
  unfold rangeBounds?
  rw [takeWhile_append_stop hfirst.2 hhyphen, dropWhile_append_stop hfirst.2 hhyphen,
    List.dropWhile_cons, hblank]
  simp [dropWhile_eq_self hlastStop, hfirst.1, hlast.1, hall]

/-- Without a hyphen there is no range. -/
theorem rangeBounds?_eq_none {body : List Char} (h : '-' ∉ body) : rangeBounds? body = none := by
  unfold rangeBounds?
  dsimp only
  split
  · rename_i r hr
    refine absurd ?_ h
    have hmem : '-' ∈ (body.dropWhile isDigit).dropWhile isBlank := by simp [hr]
    exact (List.dropWhile_suffix isDigit).mem ((List.dropWhile_suffix isBlank).mem hmem)
  · rfl

theorem readable_of_read {inner : List Char} {ref : AccountReference}
    (h : AccountReference.read inner = .ok ref) : ref.Readable := by
  unfold AccountReference.read at h
  dsimp only at h
  split at h
  · cases h
  rename_i hne
  split at h
  · rename_i first last hbounds
    obtain ⟨hfirst, hlast⟩ := rangeBounds?_sound hbounds
    split at h
    · cases h
    · cases h
    · rename_i low high hlow hhigh
      split at h
      · cases h
      · cases h
        refine ⟨by simpa using hfirst, by simpa using hlast, low, high, ?_, ?_, by omega⟩
        · simpa using hlow
        · simpa using hhigh
  · split at h
    · cases h
    split at h
    · rename_i hcode
      cases h
      refine ⟨?_, ?_⟩
      · simpa using hne
      · simpa using hcode
    · cases h

/-- What stands between the brackets of a reference. -/
def AccountReference.inner : AccountReference → List Char
  | .starting code => code.display.toList
  | .between first last => first.display.toList ++ '-' :: last.display.toList

theorem AccountReference.bracketed_toList (ref : AccountReference) :
    ref.bracketed.toList = '[' :: (ref.inner ++ [']']) := by
  cases ref <;> simp [bracketed, inner]

/-- Whether a character can stand in the text of a readable reference. -/
def isReferenceChar (c : Char) : Bool := isCodeChar c || isDigit c || c == '-'

theorem isBlank_of_isReferenceChar {c : Char} (h : isReferenceChar c = true) :
    isBlank c = false := by
  simp only [isReferenceChar, Bool.or_eq_true, beq_iff_eq] at h
  rcases h with (h | h) | rfl
  · exact isBlank_of_isCodeChar h
  · exact isBlank_of_isDigit h
  · decide

theorem AccountReference.Readable.inner_chars {ref : AccountReference} (h : ref.Readable) :
    ∀ c ∈ ref.inner, isReferenceChar c = true := by
  intro c hc
  match ref, h with
  | .starting (.text code), h =>
    have := h.2 c hc
    simp [isReferenceChar, this]
  | .between (.text first) (.text last), h =>
    rcases List.mem_append.mp hc with hc | hc
    · have := h.1.2 c hc
      simp [isReferenceChar, this]
    · rcases List.mem_cons.mp hc with rfl | hc
      · decide
      · have := h.2.1.2 c hc
        simp [isReferenceChar, this]

/-- A readable reference is read back from what stands between its brackets. -/
theorem AccountReference.Readable.read_inner {ref : AccountReference} (h : ref.Readable) :
    read ref.inner = .ok ref := by
  have hstrip : strip ref.inner = ref.inner :=
    stripWhere_eq_self fun c hc => isBlank_of_isReferenceChar (h.inner_chars c hc)
  unfold read
  rw [hstrip]
  match ref, h with
  | .starting (.text code), h =>
    have hhyphen : '-' ∉ code.toList := not_mem_of_class h.2 (by decide)
    have hall : code.toList.all isCodeChar = true := List.all_eq_true.mpr h.2
    simp only [inner, Value.display, rangeBounds?_eq_none hhyphen]
    simp [h.1, hhyphen, hall]
  | .between (.text first) (.text last), ⟨hfirst, hlast, low, high, hlow, hhigh, hle⟩ =>
    simp only [inner, Value.display, rangeBounds?_complete hfirst hlast, hlow, hhigh]
    simp [Nat.not_lt.mpr hle]

/-! ### Texts between brackets -/

theorem mem_dropWhile_or {p : Char → Bool} {cs : List Char} {c : Char} (h : c ∈ cs) :
    p c = true ∨ c ∈ cs.dropWhile p := by
  rw [← List.takeWhile_append_dropWhile (p := p) (l := cs)] at h
  rcases List.mem_append.mp h with h | h
  · exact .inl (List.all_eq_true.mp List.all_takeWhile c h)
  · exact .inr h

/-- What `strip` takes off is blank. -/
theorem mem_strip_or {cs : List Char} {c : Char} (h : c ∈ cs) :
    isBlank c = true ∨ c ∈ strip cs := by
  rcases mem_dropWhile_or (p := isBlank) h with hblank | h
  · exact .inl hblank
  · rcases mem_dropWhile_or (p := isBlank) (List.mem_reverse.mpr h) with hblank | h
    · exact .inl hblank
    · exact .inr (List.mem_reverse.mpr h)

/-- Whether a character can stand between the brackets of a reference. -/
def isInnerChar (c : Char) : Bool := isBlank c || isReferenceChar c

theorem isInnerChar_of_isReferenceChar {c : Char} (h : isReferenceChar c = true) :
    isInnerChar c = true := by
  simp [isInnerChar, h]

theorem isInnerChar_of_strip {cs : List Char} (h : ∀ c ∈ strip cs, isInnerChar c = true) :
    ∀ c ∈ cs, isInnerChar c = true := by
  intro c hc
  rcases mem_strip_or hc with hblank | hc
  · simp [isInnerChar, hblank]
  · exact h c hc

theorem isInnerChar_of_rangeBounds? {body first last : List Char}
    (h : rangeBounds? body = some (first, last)) : ∀ c ∈ body, isInnerChar c = true := by
  have hlast := (rangeBounds?_sound h).2.2
  unfold rangeBounds? at h
  dsimp only at h
  split at h
  · rename_i r hr
    split at h
    · cases h
    · cases h
      -- digits, blanks, the hyphen, blanks, and the digits of the last bound
      intro c hc
      rcases mem_dropWhile_or (p := isDigit) hc with hdigit | hc
      · exact isInnerChar_of_isReferenceChar (by simp [isReferenceChar, hdigit])
      rcases mem_dropWhile_or (p := isBlank) hc with hblank | hc
      · simp [isInnerChar, hblank]
      rw [hr] at hc
      rcases List.mem_cons.mp hc with rfl | hc
      · decide
      rcases mem_dropWhile_or (p := isBlank) hc with hblank | hc
      · simp [isInnerChar, hblank]
      · exact isInnerChar_of_isReferenceChar (by simp [isReferenceChar, hlast c hc])
  · cases h

/-- A text that is read as a reference holds blanks and reference characters
    only. -/
theorem isInnerChar_of_read {inner : List Char} {ref : AccountReference}
    (h : AccountReference.read inner = .ok ref) : ∀ c ∈ inner, isInnerChar c = true := by
  have hbody : ∀ c ∈ strip inner, isInnerChar c = true := by
    unfold AccountReference.read at h
    dsimp only at h
    split at h
    · cases h
    split at h
    · rename_i hbounds
      exact isInnerChar_of_rangeBounds? hbounds
    split at h
    · cases h
    split at h
    · rename_i hcode
      intro c hc
      have hchar : isCodeChar c = true := List.all_eq_true.mp hcode c hc
      exact isInnerChar_of_isReferenceChar (by simp [isReferenceChar, hchar])
    · cases h
  exact isInnerChar_of_strip hbody

/-! ### Tokens -/

/-- A token that formula text can hold. -/
def Token.Readable : Token → Prop
  | .number (.finite false _ e) => e ≤ 0
  | .account ref => ref.Readable
  | .formula (.text id) => isFormulaId id.toList = true
  | .operator _ | .opening | .closing => True
  | .number _ | .formula _ => False

/-- The characters of a token. -/
def Token.chars : Token → List Char
  | .number value => value.plainChars
  | .account ref => ref.bracketed.toList
  | .formula id => '\x7b' :: (id.display.toList ++ ['\x7d'])
  | .operator op => [op.symbol]
  | .opening => ['(']
  | .closing => [')']

/-- Whether a character carries a number on. -/
def continuesNumber (c : Char) : Bool := isDigit c || c == '.'

/-- The characters of a token end before a rest: a number is not carried on. -/
def Token.EndsBefore : Token → List Char → Prop
  | .number _, rest => StopsAt continuesNumber rest
  | _, _ => True

/-! ### Numbers in text -/

/-- The digits of a number before and behind its point, of which one row may be
    missing. -/
structure IsNumber (whole fraction : List Char) : Prop where
  isDigit_whole : ∀ c ∈ whole, isDigit c = true
  isDigit_fraction : ∀ c ∈ fraction, isDigit c = true
  ne_nil : whole ≠ [] ∨ fraction ≠ []

theorem Decimal.Rows.isNumber {c : Nat} {e : Int} {whole fraction : List Char}
    (h : Decimal.Rows c e whole fraction) : IsNumber whole fraction :=
  ⟨h.isDigit_whole, h.isDigit_fraction, .inl h.whole_ne_nil⟩

theorem numberLexeme?_append {whole fraction : List Char} (h : IsNumber whole fraction)
    {rest : List Char} (hrest : StopsAt continuesNumber rest) :
    numberLexeme? (whole ++ Decimal.placesChars fraction ++ rest) = some (whole, fraction) := by
  have hdigit : StopsAt isDigit rest := fun d hd => (Bool.or_eq_false_iff.mp (hrest d hd)).1
  unfold numberLexeme?
  by_cases hfraction : fraction = []
  · subst hfraction
    have hwhole : whole ≠ [] := h.ne_nil.resolve_right fun hne => hne rfl
    have hpoint : ∀ r, rest ≠ '.' :: r := by
      rintro r rfl
      exact absurd (hrest '.' rfl) (by decide)
    simp [Decimal.placesChars, takeWhile_append_stop h.isDigit_whole hdigit,
      dropWhile_append_stop h.isDigit_whole hdigit, hwhole]
  · have hpoint : StopsAt isDigit ('.' :: (fraction ++ rest)) := by
      intro d hd
      obtain rfl := Option.some.inj hd
      decide
    rw [Decimal.placesChars_of_ne_nil hfraction, List.append_assoc, List.cons_append,
      takeWhile_append_stop h.isDigit_whole hpoint, dropWhile_append_stop h.isDigit_whole hpoint]
    simp [takeWhile_append_stop h.isDigit_fraction hdigit, hfraction]

theorem length_number (whole fraction : List Char) :
    (whole ++ Decimal.placesChars fraction).length = numberLength whole fraction := by
  by_cases h : fraction = []
  · simp [h, Decimal.placesChars, numberLength]
  · simp [Decimal.placesChars, numberLength, h]

theorem IsNumber.chars_ne_nil {whole fraction : List Char} (h : IsNumber whole fraction) :
    whole ++ Decimal.placesChars fraction ≠ [] := by
  rcases h.ne_nil with hwhole | hfraction
  · simp [hwhole]
  · simp [Decimal.placesChars_of_ne_nil hfraction]

/-- A number begins with a digit or with its point. -/
theorem IsNumber.continuesNumber_first {whole fraction : List Char} (h : IsNumber whole fraction)
    {d : Char} {r : List Char} (hcs : whole ++ Decimal.placesChars fraction = d :: r) :
    continuesNumber d = true := by
  cases whole with
  | nil =>
    rw [Decimal.placesChars_of_ne_nil (h.ne_nil.resolve_left fun hne => hne rfl)] at hcs
    obtain rfl := (List.cons.inj hcs).1
    decide
  | cons x whole =>
    obtain rfl := (List.cons.inj hcs).1
    simp [continuesNumber, h.isDigit_whole x (by simp)]

theorem isBlank_of_continuesNumber {c : Char} (h : continuesNumber c = true) :
    isBlank c = false := by
  simp only [continuesNumber, Bool.or_eq_true, beq_iff_eq] at h
  rcases h with h | rfl
  · exact isBlank_of_isDigit h
  · decide

/-- Reading a number finds the rows of its digits in front. -/
theorem numberLexeme?_eq_some {cs whole fraction : List Char}
    (h : numberLexeme? cs = some (whole, fraction)) :
    IsNumber whole fraction ∧ ∃ rest, cs = whole ++ Decimal.placesChars fraction ++ rest := by
  have hcs := List.takeWhile_append_dropWhile (p := isDigit) (l := cs)
  have hdigit : ∀ ds : List Char, ∀ c ∈ ds.takeWhile isDigit, isDigit c = true :=
    fun ds c hc => List.mem_takeWhile_imp hc
  unfold numberLexeme? at h
  dsimp only at h
  obtain ⟨hne, h⟩ := Option.ite_none_left_eq_some.mp h
  obtain ⟨rfl, hfraction⟩ := Prod.mk.inj (Option.some.inj h)
  rw [hfraction, Bool.and_eq_true, List.isEmpty_iff, List.isEmpty_iff, not_and_or] at hne
  split at hfraction
  · rename_i r hr
    subst hfraction
    refine ⟨⟨hdigit cs, hdigit r, hne⟩, ?_⟩
    by_cases hempty : r.takeWhile isDigit = []
    · exact ⟨'.' :: r, by rw [hempty, Decimal.placesChars_nil, List.append_nil, ← hr, hcs]⟩
    · refine ⟨r.dropWhile isDigit, ?_⟩
      rw [Decimal.placesChars_of_ne_nil hempty, List.append_assoc, List.cons_append,
        List.takeWhile_append_dropWhile, ← hr, hcs]
  · subst hfraction
    refine ⟨⟨hdigit cs, by simp, hne⟩, cs.dropWhile isDigit, ?_⟩
    rw [Decimal.placesChars_nil, List.append_nil, hcs]

/-! ### The lexical grammar -/

/-- The characters stand for the token. -/
inductive IsLexeme : List Char → Token → Prop where
  | account {inner : List Char} {ref : AccountReference}
      (hread : AccountReference.read inner = .ok ref) :
      IsLexeme ('[' :: (inner ++ [']'])) (.account ref)
  | formula {inner : List Char} (hclose : '\x7d' ∉ inner) (hid : isFormulaId (strip inner) = true) :
      IsLexeme ('\x7b' :: (inner ++ ['\x7d'])) (.formula (.text (String.ofList (strip inner))))
  | number {whole fraction : List Char} (h : IsNumber whole fraction) :
      IsLexeme (whole ++ Decimal.placesChars fraction) (.number (Decimal.ofDigits whole fraction))
  | operator (op : Operator) : IsLexeme [op.symbol] (.operator op)
  | opening : IsLexeme ['('] .opening
  | closing : IsLexeme [')'] .closing

theorem upTo?_append {close : Char} {inner : List Char} (h : close ∉ inner) (rest : List Char) :
    upTo? close (inner ++ close :: rest) = some inner := by
  have hinner : ∀ c ∈ inner, (c != close) = true := by
    intro c hc
    refine bne_iff_ne.mpr ?_
    rintro rfl
    exact h hc
  have hstop : StopsAt (· != close) (close :: rest) := by
    intro c hc
    obtain rfl := Option.some.inj hc
    simp
  unfold upTo?
  rw [takeWhile_append_stop hinner hstop]
  simp

/-- Reading up to a character finds what stands before its first occurrence. -/
theorem upTo?_eq_some {close : Char} {cs inner : List Char} (h : upTo? close cs = some inner) :
    close ∉ inner ∧ ∃ rest, cs = inner ++ close :: rest := by
  by_cases hmem : close ∈ cs
  · obtain ⟨front, rest, rfl, hfront⟩ := List.eq_append_cons_of_mem hmem
    obtain rfl : front = inner := Option.some.inj ((upTo?_append hfront rest).symm.trans h)
    exact ⟨hfront, rest, rfl⟩
  · simp [upTo?, hmem] at h

/-- A lexeme read at the front of a text is one of the grammar, and takes its
    characters from there. -/
theorem isLexeme_of_readLexeme {c : Char} {cs : List Char} {token : Token} {more : Nat}
    (h : readLexeme c cs = .ok (token, more)) :
    ∃ r rest, cs = r ++ rest ∧ r.length = more ∧ IsLexeme (c :: r) token := by
  unfold readLexeme at h
  split at h
  · rename_i hc
    split at h
    · cases h
    · rename_i inner hinner
      split at h
      · cases h
      · cases hread : AccountReference.read inner with
        | error fault => simp [hread, Except.map] at h
        | ok ref =>
          obtain ⟨-, rest, rfl⟩ := upTo?_eq_some hinner
          rw [hread] at h
          cases h
          subst hc
          exact ⟨inner ++ [']'], rest, by simp, by simp, .account hread⟩
  split at h
  · rename_i hc
    split at h
    · cases h
    · rename_i inner hinner
      dsimp only at h
      split at h
      · rename_i hid
        obtain ⟨hclose, rest, rfl⟩ := upTo?_eq_some hinner
        cases h
        subst hc
        exact ⟨inner ++ ['\x7d'], rest, by simp, by simp, .formula hclose hid⟩
      · cases h
  split at h
  · split at h
    · rename_i whole fraction hlexeme
      obtain ⟨hnumber, rest, hcs⟩ := numberLexeme?_eq_some hlexeme
      have hlength := length_number whole fraction
      have hnumberLexeme := IsLexeme.number hnumber
      cases h
      cases hchars : whole ++ Decimal.placesChars fraction with
      | nil => exact absurd hchars hnumber.chars_ne_nil
      | cons d r =>
        rw [hchars] at hcs hlength hnumberLexeme
        obtain ⟨rfl, rfl⟩ := List.cons.inj hcs
        exact ⟨r, rest, rfl, by simp [← hlength], hnumberLexeme⟩
    · cases h
  split at h
  · rename_i op hop
    cases h
    obtain rfl : op.symbol = c := by simpa using List.find?_some hop
    exact ⟨[], cs, rfl, rfl, .operator op⟩
  split at h
  · rename_i hc
    cases h
    subst hc
    exact ⟨[], cs, rfl, rfl, .opening⟩
  split at h
  · rename_i hc
    cases h
    subst hc
    exact ⟨[], cs, rfl, rfl, .closing⟩
  split at h
  · cases h
  · cases h

/-- What is read with all the characters it takes is a lexeme of the grammar. -/
theorem isLexeme_of_readLexeme_append {c : Char} {r rest : List Char} {token : Token}
    (h : readLexeme c (r ++ rest) = .ok (token, r.length)) : IsLexeme (c :: r) token := by
  obtain ⟨r', rest', hcs, hlength, hlexeme⟩ := isLexeme_of_readLexeme h
  obtain ⟨rfl, -⟩ := List.append_inj hcs hlength.symm
  exact hlexeme

theorem readLexeme_number {whole fraction : List Char} (h : IsNumber whole fraction)
    {rest : List Char} (hrest : StopsAt continuesNumber rest) {d : Char} {r : List Char}
    (hcs : whole ++ Decimal.placesChars fraction = d :: r) :
    readLexeme d (r ++ rest) = .ok (.number (Decimal.ofDigits whole fraction), r.length) := by
  have hd := h.continuesNumber_first hcs
  have hlike : (isDigitLike d || d == '.') = true := by
    simp only [continuesNumber, Bool.or_eq_true] at hd
    rcases hd with hd | hd <;> simp [isDigitLike, hd]
  have hbracket : d ≠ '[' := ne_of_class hd (by decide)
  have hbrace : d ≠ '\x7b' := ne_of_class hd (by decide)
  have hread := numberLexeme?_append h hrest
  have hlength := length_number whole fraction
  rw [hcs] at hread hlength
  rw [List.cons_append] at hread
  rw [readLexeme, if_neg hbracket, if_neg hbrace, if_pos hlike, hread]
  simp only [← hlength, List.length_cons, Nat.add_sub_cancel]

/-- A lexeme of the grammar is read before whatever does not carry it on. -/
theorem IsLexeme.readLexeme {c : Char} {r : List Char} {token : Token}
    (h : IsLexeme (c :: r) token) {rest : List Char} (hrest : token.EndsBefore rest) :
    readLexeme c (r ++ rest) = .ok (token, r.length) := by
  generalize hcs : c :: r = cs at h
  cases h with
  | account hread =>
    obtain ⟨rfl, rfl⟩ := List.cons.inj hcs
    have hchars := isInnerChar_of_read hread
    have hclose := upTo?_append (not_mem_of_class hchars (by decide : isInnerChar ']' = false)) rest
    have hopen := not_mem_of_class hchars (by decide : isInnerChar '[' = false)
    rw [List.append_assoc, List.singleton_append, KeyFigures.readLexeme, if_pos rfl, hclose]
    simp [hopen, hread, Except.map]
  | formula hclose hid =>
    obtain ⟨rfl, rfl⟩ := List.cons.inj hcs
    rw [List.append_assoc, List.singleton_append, KeyFigures.readLexeme, if_neg (by decide),
      if_pos rfl, upTo?_append hclose rest]
    simp [hid]
  | number hnumber => exact readLexeme_number hnumber hrest hcs.symm
  | operator op =>
    obtain ⟨rfl, rfl⟩ := List.cons.inj hcs
    cases op <;> rfl
  | opening =>
    obtain ⟨rfl, rfl⟩ := List.cons.inj hcs
    rfl
  | closing =>
    obtain ⟨rfl, rfl⟩ := List.cons.inj hcs
    rfl

/-- Formula text can hold the token of every lexeme. -/
theorem IsLexeme.readable {cs : List Char} {token : Token} (h : IsLexeme cs token) :
    token.Readable := by
  cases h with
  | account hread => exact readable_of_read hread
  | formula _ hid => simpa [Token.Readable] using hid
  | number => exact Int.neg_nonpos_of_nonneg (Int.natCast_nonneg _)
  | operator | opening | closing => trivial

/-- No lexeme begins with a blank. -/
theorem IsLexeme.exists_cons {cs : List Char} {token : Token} (h : IsLexeme cs token) :
    ∃ c r, cs = c :: r ∧ isBlank c = false := by
  cases h with
  | number hnumber =>
    obtain ⟨c, r, hcs⟩ := List.exists_cons_of_ne_nil hnumber.chars_ne_nil
    exact ⟨c, r, hcs, isBlank_of_continuesNumber (hnumber.continuesNumber_first hcs)⟩
  | operator op => exact ⟨op.symbol, [], rfl, by cases op <;> decide⟩
  | _ => exact ⟨_, _, rfl, by decide⟩

/-! ### Tokens in text -/

/-- Whether a character can stand in the id of a formula. -/
def isFormulaIdChar (c : Char) : Bool := isCodeChar c || c == '-'

theorem isFormulaIdChar_of_mem {id : List Char} (h : isFormulaId id = true) :
    ∀ c ∈ id, isFormulaIdChar c = true := by
  cases id with
  | nil => exact nofun
  | cons d r =>
    simp only [isFormulaId, Bool.and_eq_true, Bool.or_eq_true, List.all_eq_true,
      beq_iff_eq] at h
    intro c hc
    rcases List.mem_cons.mp hc with rfl | hc
    · rcases h.1 with h | rfl
      · simp [isFormulaIdChar, isCodeChar, Char.isAlphanum, h]
      · decide
    · simpa [isFormulaIdChar] using h.2 c hc

/-- The characters of a readable token are a lexeme for it. -/
theorem Token.Readable.isLexeme {token : Token} (h : token.Readable) :
    IsLexeme token.chars token := by
  match token, h with
  | .number (.finite false c e), h =>
    obtain ⟨whole, fraction, hplain, hrows⟩ := Decimal.exists_plainMagnitude_eq (c := c) h
    have hlexeme := IsLexeme.number hrows.isNumber
    rw [hrows.ofDigits_eq, ← hplain] at hlexeme
    exact hlexeme
  | .account ref, h =>
    rw [chars, ref.bracketed_toList]
    exact .account (AccountReference.Readable.read_inner h)
  | .formula (.text id), h =>
    have hchars := isFormulaIdChar_of_mem h
    have hstrip : strip id.toList = id.toList :=
      stripWhere_eq_self fun c hc => isBlank_of_isFormulaIdChar (hchars c hc)
    have hlexeme := IsLexeme.formula (not_mem_of_class hchars (by decide)) (hstrip.symm ▸ h)
    rw [hstrip, String.ofList_toList] at hlexeme
    exact hlexeme
  | .operator op, _ => exact .operator op
  | .opening, _ => exact .opening
  | .closing, _ => exact .closing

/-! ### One lexeme of a text -/

theorem scan_cons_blank {source : String} {position : Nat} {c : Char} (h : isBlank c = true)
    (r : List Char) : scan source position (c :: r) = scan source (position + 1) r := by
  rw [scan, if_pos h]

theorem scan_cons_lexeme {source : String} {position : Nat} {c : Char} {r : List Char}
    {token : Token} {more : Nat} (hc : isBlank c = false)
    (h : readLexeme c r = .ok (token, more)) :
    scan source position (c :: r) =
      (scan source (position + 1 + more) (r.drop more)).map (⟨token, position⟩ :: ·) := by
  rw [scan, if_neg (by simp [hc]), h]
  dsimp only
  cases scan source (position + 1 + more) (r.drop more) <;> rfl

/-- A lexeme is split off as its token, and the rest of the text is split as it
    is on its own. -/
theorem IsLexeme.scan_append {cs : List Char} {token : Token} (h : IsLexeme cs token)
    {rest : List Char} (hrest : token.EndsBefore rest) (source : String) (position : Nat) :
    scan source position (cs ++ rest) =
      (scan source (position + cs.length) rest).map (⟨token, position⟩ :: ·) := by
  obtain ⟨c, r, rfl, hc⟩ := h.exists_cons
  have hposition : position + 1 + r.length = position + (r.length + 1) := by omega
  rw [List.cons_append, scan_cons_lexeme hc (h.readLexeme hrest), List.drop_left,
    List.length_cons, hposition]

end KeyFigures
