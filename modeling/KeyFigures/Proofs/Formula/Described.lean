/-
  KeyFigures/Proofs/Formula/Described.lean
  ========================================
  **A term list and its description are one formula.**

  A failure shows a list of builder entries as text: the descriptions of the
  entries with blanks between them.  That text is itself a formula.  An entry
  that stands for a token is described by characters that split into its
  operator and that token (`splits_describe`): a number by its plain digits, a
  formula id between its braces, and an account text as it was given, so that
  the brackets hold the same blanks and are read in the same way.  A blank
  separates any two tokens, hence the text of the whole list splits into the
  tokens of the list (`splits_describeEntries`), and the grammar gives both the
  same tree.
-/
import KeyFigures.Formula.Builder
import KeyFigures.Proofs.Formula.RoundTrip

namespace KeyFigures

open KeyFigures.Text

/-! ### Numbers in plain digits -/

namespace Decimal

/-- The number is written as digits with an optional fraction: without a sign
    and without a power of ten. -/
def HasPlainText (x : Decimal) : Prop :=
  ∃ whole fraction, x.chars = whole ++ placesChars fraction ∧ whole ≠ [] ∧
    (∀ c ∈ whole, isDigit c = true) ∧ ∀ c ∈ fraction, isDigit c = true

/-- Plain digits hold nothing that a number does not go on with. -/
theorem HasPlainText.continuesNumber {x : Decimal} (h : x.HasPlainText) :
    ∀ c ∈ x.chars, continuesNumber c = true := by
  obtain ⟨whole, fraction, hchars, -, hwhole, hfraction⟩ := h
  have hdigit : ∀ c, isDigit c = true → KeyFigures.continuesNumber c = true := by
    intro c hc
    simp [KeyFigures.continuesNumber, hc]
  rw [hchars]
  intro c hc
  rcases List.mem_append.mp hc with hc | hc
  · exact hdigit c (hwhole c hc)
  · unfold placesChars at hc
    split at hc
    · cases hc
    · rcases List.mem_cons.mp hc with rfl | hc
      · decide
      · exact hdigit c (hfraction c hc)

/-- A number without a power of ten in its text is written like one that never
    has any. -/
theorem magnitudeChars_eq_plainMagnitude {c : Nat} {e : Int} (h : 'E' ∉ magnitudeChars c e) :
    e ≤ 0 ∧ magnitudeChars c e = plainMagnitude c e := by
  unfold magnitudeChars at h ⊢
  dsimp only at h ⊢
  split at h
  · rename_i hplain
    refine ⟨hplain.1, ?_⟩
    rw [if_pos hplain]
    unfold plainMagnitude
    dsimp only
    split
    · rename_i hzero
      obtain ⟨rfl, hnonneg⟩ := hzero
      obtain rfl : e = 0 := by omega
      simp [pointed, digits, zeros]
    · rfl
  · exact absurd (by simp [powerChars]) h

/-- A number in plain digits can be held by formula text and is written the
    same there. -/
theorem HasPlainText.readable {x : Decimal} (h : x.HasPlainText) :
    (Token.number x).Readable ∧ x.chars = x.plainChars := by
  have hother : ∀ c, KeyFigures.continuesNumber c = false → c ∉ x.chars :=
    fun c hc => not_mem_of_class h.continuesNumber hc
  cases x with
  | finite negative c e =>
    have hminus := hother '-' (by decide)
    obtain rfl : negative = false := by
      cases negative with
      | false => rfl
      | true => simp [chars, signChars, isNegative] at hminus
    have hpower : 'E' ∉ magnitudeChars c e := hother 'E' (by decide)
    obtain ⟨he, heq⟩ := magnitudeChars_eq_plainMagnitude hpower
    refine ⟨he, ?_⟩
    simp only [chars, plainChars, heq]
  | infinite negative =>
    have hname : 'I' ∈ (Decimal.infinite negative).chars := by cases negative <;> decide
    exact absurd hname (hother 'I' (by decide))
  | nan negative signalling payload =>
    have hname : 'N' ∈ (if signalling then "sNaN".toList else "NaN".toList) := by
      cases signalling <;> decide
    exact absurd (List.mem_append_right _ (List.mem_append_left _ hname)) (hother 'N' (by decide))

end Decimal

/-! ### One entry -/

/-- The numbers and ids of an entry are of the form that formula text has for
    them. -/
structure Entry.IsPlain (e : Entry) : Prop where
  constant : e.type = .constant → ∀ value, e.constant = some value → value.HasPlainText
  formula : e.type = .formula → ∃ id, e.formula = .text id ∧ isFormulaId id.toList = true

/-- The description of an entry without its operator. -/
def Entry.body (e : Entry) : String :=
  match e.type with
  | .account => "[" ++ e.account.getD "None" ++ "]"
  | .constant => (e.constant.map Decimal.toText).getD "None"
  | .parenthesis => if e.parenthesis.text? = some "open" then "(" else ")"
  | .formula => "\x7b" ++ e.formula.display ++ "\x7d"

theorem Entry.describe_toList (e : Entry) :
    e.describe.toList =
      (e.operator.map fun op => [op.symbol, ' ']).getD [] ++ e.body.toList := by
  unfold describe body
  rw [String.toList_append]
  congr 1
  cases e.operator <;> simp

theorem AccountReference.parse_eq_ok {text source : String} {position : Nat}
    {ref : AccountReference} (h : AccountReference.parse text source position = .ok ref) :
    AccountReference.read text.toList = .ok ref := by
  unfold AccountReference.parse at h
  dsimp only at h
  split at h
  · rename_i hread
    exact hread.trans (congrArg _ (Except.ok.inj h))
  · cases h

/-- The body of an entry that stands for a token splits into that token. -/
theorem splits_body {source : String} {index : Nat} {e : Entry} {token : Token}
    (htoken : e.token source index = .ok token) (he : e.IsPlain) :
    Splits e.body.toList [token] EndsTerm := by
  have hreadable : ∀ token : Token, token.Readable → Splits token.chars [token] EndsTerm :=
    fun token h => (splits_token token h).weaken fun rest hrest => hrest.endsBefore token
  unfold Entry.token at htoken
  unfold Entry.body
  cases htype : e.type with
  | account =>
    simp only [htype] at htoken ⊢
    cases haccount : e.account with
    | none => simp [haccount] at htoken
    | some account =>
      simp only [haccount] at htoken ⊢
      cases hparse : AccountReference.parse account source index with
      | error failure => simp [hparse, Except.map] at htoken
      | ok ref =>
        rw [hparse] at htoken
        obtain rfl := Except.ok.inj htoken
        have hsplits := splits_lexeme (.account (AccountReference.parse_eq_ok hparse))
        have hweak := hsplits.weaken fun rest (_ : EndsTerm rest) => trivial
        simpa using hweak
  | constant =>
    simp only [htype] at htoken ⊢
    cases hconstant : e.constant with
    | none => simp [hconstant] at htoken
    | some value =>
      simp only [hconstant] at htoken ⊢
      obtain rfl := Except.ok.inj htoken
      obtain ⟨hnumber, hchars⟩ := (he.constant htype value hconstant).readable
      have hsplits := hreadable (.number value) hnumber
      simpa [Decimal.toText, hchars, Token.chars] using hsplits
  | parenthesis =>
    simp only [htype] at htoken ⊢
    split at htoken
    · rename_i hopen
      obtain rfl := Except.ok.inj htoken
      simpa [hopen, Token.chars] using hreadable .opening trivial
    · rename_i hclose
      split at htoken
      · cases htoken
      · obtain rfl := Except.ok.inj htoken
        simpa [hclose, Token.chars] using hreadable .closing trivial
    · cases htoken
  | formula =>
    simp only [htype] at htoken ⊢
    obtain ⟨id, hid, hformat⟩ := he.formula htype
    rw [hid] at htoken ⊢
    split at htoken
    · obtain rfl := Except.ok.inj htoken
      simpa [Token.chars, Value.display] using hreadable (.formula (.text id)) hformat
    · cases htoken

/-- An entry that stands for a token is described by characters that split into
    its operator, if it has one, and that token. -/
theorem splits_describe {source : String} {index : Nat} {e : Entry} {ts : List Placed}
    (hts : e.tokens source index = .ok ts) (he : e.IsPlain) :
    Splits e.describe.toList (bare ts) EndsTerm := by
  obtain ⟨token, htoken, hts⟩ := Attempt.bind_eq_ok.mp hts
  obtain rfl := Except.ok.inj hts
  have hbody := splits_body htoken he
  rw [e.describe_toList]
  cases hop : e.operator with
  | none => simpa [bare] using hbody
  | some op =>
    have hsymbol : Splits [op.symbol] [.operator op] fun _ => True :=
      (splits_token (.operator op) trivial).weaken fun _ _ => trivial
    have hsign : Splits [op.symbol, ' '] [.operator op] fun _ => True :=
      hsymbol.append splits_blank fun _ _ => trivial
    exact hsign.append hbody fun _ _ => trivial

/-! ### The whole list -/

theorem describeEntries_toList (entries : List Entry) :
    (describeEntries entries).toList =
      [' '].intercalate (entries.map fun e => e.describe.toList) := by
  simp [describeEntries, String.toList_intercalate, Function.comp_def]

/-- The description of a list splits into the tokens of the list. -/
theorem splits_describeEntries {source : String} {entries : List Entry} :
    ∀ index ts, entryTokens source index entries = .ok ts → (∀ e ∈ entries, e.IsPlain) →
      Splits (describeEntries entries).toList (bare ts) EndsTerm := by
  rw [describeEntries_toList]
  induction entries with
  | nil =>
    intro index ts hts _
    obtain rfl := Except.ok.inj hts
    intro source position rest _
    refine ⟨[], rfl, ?_⟩
    simp only [List.map_nil, List.intercalate_nil, List.nil_append, List.length_nil, Nat.add_zero]
    cases scan source position rest <;> rfl
  | cons e rest ih =>
    intro index ts hts hplain
    obtain ⟨first, hfirst, hts⟩ := Attempt.bind_eq_ok.mp hts
    obtain ⟨more, hmore, hts⟩ := Attempt.bind_eq_ok.mp hts
    obtain rfl := Except.ok.inj hts
    have he := splits_describe hfirst (hplain e (by simp))
    cases rest with
    | nil =>
      obtain rfl := Except.ok.inj hmore
      simpa using he
    | cons e' rest =>
      have hrest := ih (index + 1) more hmore fun x hx => hplain x (by simp [hx])
      have hblank := he.append splits_blank fun tail _ => endsTerm_cons (.inl rfl) tail
      have hall := hblank.append hrest fun _ _ => trivial
      rw [bare_append]
      simpa [List.intercalate_cons_cons] using hall

theorem parseEntries_eq_ok_iff {entries : List Entry} {t : Term} :
    parseEntries entries = .ok t ↔
      ∃ ts, entryTokens (describeEntries entries) 0 entries = .ok ts ∧ treeOf ts = .ok t := by
  unfold parseEntries
  rw [Attempt.bind_eq_ok]
  simp only [parseTokens_eq_ok_iff]

/-- A source that is read is text, or holds entries. -/
theorem parseSource_text_or_entries {source : Value} {t : Term} (h : parseSource source = .ok t) :
    (∃ s, source = .text s ∧ parseText s = .ok t) ∨
      ∃ items entries, source.items? = some items ∧ readEntries items = .ok entries ∧
        parseEntries entries = .ok t := by
  unfold parseSource at h
  split at h
  · exact .inl ⟨_, rfl, h⟩
  · split at h
    · cases h
    · rename_i items hitems
      obtain ⟨entries, hentries, h⟩ := Attempt.bind_eq_ok.mp h
      exact .inr ⟨items, entries, hitems, hentries, h⟩

/-- A list that is read as a tree is described by a text that is read as the
    same tree. -/
theorem parseText_describeEntries {entries : List Entry} {t : Term}
    (h : parseEntries entries = .ok t) (hplain : ∀ e ∈ entries, e.IsPlain) :
    parseText (describeEntries entries) = .ok t := by
  obtain ⟨ts, hts, htree⟩ := parseEntries_eq_ok_iff.mp h
  obtain ⟨us, hus, hscan⟩ :=
    splits_describeEntries 0 ts hts hplain (describeEntries entries) 0 [] nofun
  rw [List.append_nil, scan] at hscan
  unfold parseText tokenize
  rw [hscan]
  simp only [Except.map, bind, Except.bind, List.append_nil, parseTokens_eq_ok_iff]
  rw [treeOf_eq_ok_iff] at htree ⊢
  rwa [hus]

/-! ### What a failure shows -/

theorem Entry.describe_ne_empty {e : Entry} (h : e.type = .account) : e.describe ≠ "" := by
  intro hempty
  have hchars : e.describe.toList = [] := by rw [hempty]; rfl
  rw [e.describe_toList] at hchars
  have hbody := (List.append_eq_nil_iff.mp hchars).2
  simp [body, h] at hbody

theorem describeEntries_ne_empty {entries : List Entry} {e : Entry} (he : e ∈ entries)
    (hne : e.describe ≠ "") : describeEntries entries ≠ "" := by
  intro hempty
  have hchars : (describeEntries entries).toList = [] := by rw [hempty]; rfl
  rw [describeEntries_toList] at hchars
  match entries, he with
  | [x], he =>
    obtain rfl := List.mem_singleton.mp he
    exact hne (String.toList_eq_nil_iff.mp (by simpa using hchars))
  | x :: y :: rest, _ => simp [List.intercalate_cons_cons] at hchars

theorem LexemeFault.source_of_at {fault : LexemeFault} {source : String} {position : Nat}
    {shown : ParseFault} (h : fault.at source position = .parse shown) : shown.source = source := by
  cases fault with
  | malformed reason => exact (Failure.parse.inj h) ▸ rfl
  | value fault => cases h

theorem AccountReference.source_of_parse {text source : String} {position : Nat}
    {shown : ParseFault} (hsource : source ≠ "")
    (h : AccountReference.parse text source position = .error (.parse shown)) :
    shown.source = source := by
  have hnonempty : source.isEmpty = false := by simpa using hsource
  unfold AccountReference.parse at h
  simp only [hnonempty] at h
  split at h
  · cases h
  · exact LexemeFault.source_of_at (Except.error.inj h)

theorem Entry.source_of_token {source : String} {index : Nat} {e : Entry} {shown : ParseFault}
    (hsource : e.type = .account → source ≠ "")
    (h : e.token source index = .error (.parse shown)) : shown.source = source := by
  unfold token at h
  dsimp only at h
  split at h
  · rename_i htype
    split at h
    · exact (Failure.parse.inj (Except.error.inj h)) ▸ rfl
    · rename_i account _
      cases hparse : AccountReference.parse account source index with
      | ok ref => simp [hparse, Except.map] at h
      | error failure =>
        rw [hparse] at h
        obtain rfl := Except.error.inj h
        exact AccountReference.source_of_parse (hsource htype) hparse
  · split at h
    · exact (Failure.parse.inj (Except.error.inj h)) ▸ rfl
    · cases h
  · split at h
    · cases h
    · split at h
      · exact (Failure.parse.inj (Except.error.inj h)) ▸ rfl
      · cases h
    · exact (Failure.parse.inj (Except.error.inj h)) ▸ rfl
  · split at h
    · cases h
    · exact (Failure.parse.inj (Except.error.inj h)) ▸ rfl

theorem source_of_entryTokens {source : String} {shown : ParseFault} {entries : List Entry} :
    ∀ index, (∀ e ∈ entries, e.type = .account → source ≠ "") →
      entryTokens source index entries = .error (.parse shown) → shown.source = source := by
  induction entries with
  | nil => exact fun _ _ h => by cases h
  | cons e rest ih =>
    intro index hsource h
    rcases Attempt.bind_eq_error.mp h with htokens | ⟨ts, -, h⟩
    · rcases Attempt.bind_eq_error.mp htokens with htoken | ⟨token, -, hok⟩
      · exact Entry.source_of_token (hsource e (by simp)) htoken
      · cases hok
    · rcases Attempt.bind_eq_error.mp h with hmore | ⟨more, -, hok⟩
      · exact ih (index + 1) (fun x hx => hsource x (by simp [hx])) hmore
      · cases hok

/-- A malformed list is shown by its description. -/
theorem source_of_parseEntries {entries : List Entry} {shown : ParseFault}
    (h : parseEntries entries = .error (.parse shown)) :
    shown.source = describeEntries entries := by
  rcases Attempt.bind_eq_error.mp h with htokens | ⟨ts, -, htree⟩
  · refine source_of_entryTokens 0 (fun e he htype => ?_) htokens
    exact describeEntries_ne_empty he (Entry.describe_ne_empty htype)
  · obtain ⟨complaint, -, hf⟩ := parseTokens_refuses_iff.mp htree
    rw [Failure.parse.inj hf]

/-! ### Two forms of one formula -/

/-- **The two source forms agree.**  The text that shows a list of entries in
    failures is read as the tree of the list, for entries built in any way and
    for entries that are read from data. -/
theorem description_agrees :
    (∀ entries t, parseEntries entries = .ok t → (∀ e ∈ entries, e.IsPlain) →
      parseText (describeEntries entries) = .ok t) ∧
    (∀ source t, (∀ s, source ≠ .text s) → parseSource source = .ok t →
      ∃ items entries, source.items? = some items ∧ readEntries items = .ok entries ∧
        ((∀ e ∈ entries, e.IsPlain) → parseText (describeEntries entries) = .ok t)) ∧
    ∀ entries shown, parseEntries entries = .error (.parse shown) →
      shown.source = describeEntries entries := by
  refine ⟨fun _ _ h hplain => parseText_describeEntries h hplain, ?_,
    fun _ _ h => source_of_parseEntries h⟩
  intro source t hsource h
  rcases parseSource_text_or_entries h with ⟨s, hs, -⟩ | ⟨items, entries, hitems, hentries, h⟩
  · exact absurd hs (hsource s)
  · exact ⟨items, entries, hitems, hentries, parseText_describeEntries h⟩

/-- A range with blanks inside its brackets, operators on the entries they
    precede, and a number with places. -/
def marginEntries : List Entry :=
  [⟨.account, none, some " 19 - 79 ", none, .null, .null⟩,
    ⟨.parenthesis, some .div, none, none, .text "open", .null⟩,
    ⟨.formula, none, none, none, .null, .text "net.sales"⟩,
    ⟨.constant, some .sub, none, some (.finite false 50 (-2)), .null, .null⟩,
    ⟨.parenthesis, none, none, none, .text "close", .null⟩]

/-- A range and a formula that goes by the name of a variable, as data. -/
def shareItems : List Value :=
  [.object [("type", .text "account"), ("account", .text " 19 - 79 ")],
    .object [("type", .text "variable"), ("operator", .text "/"), ("variable", .text "net.sales")]]

theorem description_agrees_margin :
    (∃ t, parseEntries marginEntries = .ok t ∧
      describeEntries marginEntries = "[ 19 - 79 ] / ( \x7bnet.sales\x7d - 0.50 )" ∧
      parseText (describeEntries marginEntries) = .ok t) ∧
    ∃ t entries, parseSource (.list shareItems) = .ok t ∧ readEntries shareItems = .ok entries ∧
      describeEntries entries = "[ 19 - 79 ] / \x7bnet.sales\x7d" ∧
      parseText (describeEntries entries) = .ok t := by
  constructor
  · have htokens : ∀ source, entryTokens source 0 marginEntries = .ok
        [⟨.account (.between (.text "19") (.text "79")), 0⟩, ⟨.operator .div, 1⟩, ⟨.opening, 1⟩,
          ⟨.formula (.text "net.sales"), 2⟩, ⟨.operator .sub, 3⟩,
          ⟨.number (.finite false 50 (-2)), 3⟩, ⟨.closing, 4⟩] := by
      intro source
      rfl
    have htree : parseEntries marginEntries = .ok (.binary
        (.account (.between (.text "19") (.text "79"))) .div (.grouping (.binary
          (.formula (.text "net.sales")) .sub (.constant (.finite false 50 (-2)))))) :=
      parseEntries_eq_ok_iff.mpr ⟨_, htokens _, by decide +kernel⟩
    have hdigits : digits 50 = ['5', '0'] := by decide +kernel
    have hchars : (Decimal.finite false 50 (-2)).chars = ['0', '.', '5', '0'] := by
      simp [Decimal.chars, Decimal.magnitudeChars, hdigits, Decimal.signChars, Decimal.isNegative,
        Decimal.pointed, Decimal.zeros]
    have hdescribe : describeEntries marginEntries =
        "[ 19 - 79 ] / ( \x7bnet.sales\x7d - 0.50 )" := by
      simp only [describeEntries, marginEntries, List.map_cons, List.map_nil, Entry.describe,
        Option.map_some, Decimal.toText, hchars]
      decide +kernel
    have hnumber : Decimal.HasPlainText (.finite false 50 (-2)) :=
      ⟨['0'], ['5', '0'], hchars, by simp, by simp; decide, by simp; decide⟩
    refine ⟨_, htree, hdescribe, description_agrees.1 _ _ htree fun e he => ?_⟩
    simp only [marginEntries, List.mem_cons, List.not_mem_nil, or_false] at he
    rcases he with rfl | rfl | rfl | rfl | rfl
    · exact ⟨by simp, by simp⟩
    · exact ⟨by simp, by simp⟩
    · exact ⟨by simp, fun _ => ⟨"net.sales", rfl, by decide⟩⟩
    · exact ⟨fun _ value hvalue => Option.some.inj hvalue ▸ hnumber, by simp⟩
    · exact ⟨by simp, by simp⟩
  · have htree : parseSource (.list shareItems) = .ok
        (.binary (.account (.between (.text "19") (.text "79"))) .div
          (.formula (.text "net.sales"))) := by
      decide +kernel
    have hentries : readEntries shareItems = .ok
        [⟨.account, none, some " 19 - 79 ", none, .null, .null⟩,
          ⟨.formula, some .div, none, none, .null, .text "net.sales"⟩] := by
      rfl
    obtain ⟨items, entries, hitems, hread, hparse⟩ :=
      description_agrees.2.1 (.list shareItems) _ (by simp) htree
    obtain rfl := Option.some.inj hitems
    obtain rfl := Except.ok.inj (hentries.symm.trans hread)
    refine ⟨_, _, htree, hentries, by decide +kernel, hparse fun e he => ?_⟩
    simp only [List.mem_cons, List.not_mem_nil, or_false] at he
    rcases he with rfl | rfl
    · exact ⟨by simp, by simp⟩
    · exact ⟨by simp, fun _ => ⟨"net.sales", rfl, by decide⟩⟩

end KeyFigures
