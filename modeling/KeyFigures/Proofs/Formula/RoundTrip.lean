/-
  KeyFigures/Proofs/Formula/RoundTrip.lean
  ========================================
  **Canonical text is read back as the tree it was written for.**

  A tree that was read from text is a phrase whose tokens are readable
  (`phrase_of_parseText`).  For such a tree the canonical text adds no
  parentheses and holds its tokens in their order, with blanks around the
  operators (`splits_chars`), so that splitting the text gives the tokens back
  and the grammar gives back the tree.
-/
import KeyFigures.Proofs.Formula.Grammar
import KeyFigures.Proofs.Formula.Scanning

namespace KeyFigures

open KeyFigures.Text

/-! ### Texts and their tokens -/

/-- A text splits into a row of tokens wherever it stands in front of something
    fit to follow. -/
def Splits (cs : List Char) (tokens : List Token) (fit : List Char → Prop) : Prop :=
  ∀ source position rest, fit rest →
    ∃ ts, bare ts = tokens ∧
      scan source position (cs ++ rest) =
        (scan source (position + cs.length) rest).map (ts ++ ·)

theorem Splits.append {xs ys : List Char} {a b : List Token} {fit fit' : List Char → Prop}
    (hx : Splits xs a fit) (hy : Splits ys b fit') (h : ∀ rest, fit' rest → fit (ys ++ rest)) :
    Splits (xs ++ ys) (a ++ b) fit' := by
  intro source position rest hrest
  obtain ⟨ts, hts, hscan⟩ := hx source position (ys ++ rest) (h rest hrest)
  obtain ⟨us, hus, hscan'⟩ := hy source (position + xs.length) rest hrest
  refine ⟨ts ++ us, by rw [bare_append, hts, hus], ?_⟩
  rw [List.append_assoc, hscan, hscan', List.length_append, Nat.add_assoc]
  cases scan source (position + (xs.length + ys.length)) rest <;> simp [Except.map]

theorem splits_lexeme {cs : List Char} {token : Token} (h : IsLexeme cs token) :
    Splits cs [token] token.EndsBefore :=
  fun source position _ hrest => ⟨[⟨token, position⟩], rfl, h.scan_append hrest source position⟩

theorem splits_token (token : Token) (h : token.Readable) :
    Splits token.chars [token] token.EndsBefore :=
  splits_lexeme h.isLexeme

theorem splits_blank : Splits [' '] [] fun _ => True := by
  intro source position rest _
  refine ⟨[], rfl, ?_⟩
  have hblank : isBlank ' ' = true := by decide
  rw [List.singleton_append, scan_cons_blank hblank, List.length_singleton]
  cases scan source (position + 1) rest <;> rfl

/-- What may follow the text of a term: nothing, a blank, or the parenthesis
    that closes a group. -/
def EndsTerm (rest : List Char) : Prop := ∀ c ∈ rest.head?, c = ' ' ∨ c = ')'

theorem endsTerm_cons {c : Char} (h : c = ' ' ∨ c = ')') (rest : List Char) :
    EndsTerm (c :: rest) := by
  intro d hd
  obtain rfl := Option.some.inj hd
  exact h

theorem EndsTerm.endsBefore {rest : List Char} (h : EndsTerm rest) (token : Token) :
    token.EndsBefore rest := by
  cases token with
  | number value =>
    intro c hc
    rcases h c hc with rfl | rfl
    · decide
    · decide
  | _ => trivial

theorem Splits.weaken {cs : List Char} {tokens : List Token} {fit fit' : List Char → Prop}
    (h : Splits cs tokens fit) (hfit : ∀ rest, fit' rest → fit rest) : Splits cs tokens fit' :=
  fun source position rest hrest => h source position rest (hfit rest hrest)

/-- A term in parentheses splits into its tokens in parentheses. -/
theorem Splits.group {cs : List Char} {tokens : List Token} (h : Splits cs tokens EndsTerm) :
    Splits (enclosed true cs) (.opening :: (tokens ++ [.closing])) EndsTerm := by
  have hopen : Splits ['('] [.opening] fun _ => True :=
    (splits_token .opening trivial).weaken fun _ _ => trivial
  have hclose : Splits [')'] [.closing] EndsTerm :=
    (splits_token .closing trivial).weaken fun rest hrest => hrest.endsBefore _
  have hinner : Splits (cs ++ [')']) (tokens ++ [.closing]) EndsTerm :=
    h.append hclose fun rest _ => endsTerm_cons (.inr rfl) rest
  exact hopen.append hinner fun _ _ => trivial

/-- Two terms with an operator between blanks split into the tokens of both
    with the operator between. -/
theorem Splits.binary {l r : List Char} {a b : List Token} (hl : Splits l a EndsTerm)
    (hr : Splits r b EndsTerm) (op : Operator) :
    Splits (l ++ [' ', op.symbol, ' '] ++ r) (a ++ .operator op :: b) EndsTerm := by
  have hop : Splits [op.symbol] [.operator op] fun _ => True :=
    (splits_token (.operator op) trivial).weaken fun _ _ => trivial
  have hgap : Splits [' ', op.symbol, ' '] [.operator op] fun _ => True :=
    (splits_blank.append hop fun _ _ => trivial).append splits_blank fun _ _ => trivial
  have hleft : Splits (l ++ [' ', op.symbol, ' ']) (a ++ [.operator op]) fun _ => True :=
    hl.append hgap fun rest _ => endsTerm_cons (.inl rfl) _
  have hall := hleft.append hr fun _ _ => trivial
  rw [List.append_assoc a] at hall
  exact hall

/-! ### Canonical text -/

/-- A readable number is written as its plain digits. -/
theorem constantChars_eq {value : Decimal} (h : (Token.number value).Readable) :
    constantChars value = .ok value.plainChars := by
  match value, h with
  | .finite false c e, _ =>
    unfold constantChars
    by_cases hc : c = 0
    · simp [Decimal.order, Decimal.compareValue, Decimal.compareFinite, Decimal.zero,
        Decimal.ofNat, hc]
    · simp [Decimal.order, Decimal.compareValue, Decimal.compareFinite, Decimal.zero,
        Decimal.ofNat, hc]

theorem Term.needsLeft_eq_false {op : Operator} {left : Term}
    (h : ∀ p ∈ left.precedence?, op.precedence ≤ p) : left.needsLeft op = false := by
  unfold needsLeft
  split
  · rename_i p hp
    exact decide_eq_false (Nat.not_lt.mpr (h p hp))
  · rfl

theorem Term.needsRight_eq_false {op : Operator} {right : Term}
    (h : ∀ p ∈ right.precedence?, op.precedence < p) : right.needsRight op = false := by
  unfold needsRight
  split
  · rename_i p hp
    exact decide_eq_false (Nat.not_le.mpr (h p hp))
  · rfl

theorem splits_leaf {t : Term} (token : Token) (ht : t.tokens = [token])
    (hreadable : ∀ x ∈ t.tokens, x.Readable) : Splits token.chars t.tokens EndsTerm := by
  rw [ht] at hreadable ⊢
  exact (splits_token token (hreadable token (by simp))).weaken fun rest hrest => hrest.endsBefore token

/-- The canonical text of a phrase of readable tokens exists and splits into
    these tokens. -/
theorem splits_chars {room : Nat} {t : Term} (ht : t.Phrase room)
    (hreadable : ∀ x ∈ t.tokens, x.Readable) :
    ∃ cs, t.chars = .ok cs ∧ Splits cs t.tokens EndsTerm := by
  induction t with
  | account ref => exact ⟨_, rfl, splits_leaf (.account ref) rfl hreadable⟩
  | constant value =>
    have hvalue : (Token.number value).Readable := hreadable _ (by simp [Term.tokens])
    exact ⟨_, constantChars_eq hvalue, splits_leaf (.number value) rfl hreadable⟩
  | formula id => exact ⟨_, rfl, splits_leaf (.formula id) rfl hreadable⟩
  | unsupported => exact ht.wellFormed.elim
  | foreign => exact ht.wellFormed.elim
  | grouping inner ih =>
    have hinner : inner.Phrase room :=
      ⟨ht.wellFormed, ht.stratified, Nat.le_of_succ_le ht.nesting_le⟩
    obtain ⟨cs, hcs, hsplits⟩ := ih hinner fun x hx => hreadable x (by simp [Term.tokens, hx])
    refine ⟨enclosed true cs, ?_, hsplits.group⟩
    rw [Term.chars, hcs]
    rfl
  | binary left op right ihl ihr =>
    obtain ⟨hleft, hright, hlp, hrp⟩ := Term.Phrase.binary_iff.mp ht
    obtain ⟨l, hl, hsplitsl⟩ := ihl hleft fun x hx => hreadable x (by simp [Term.tokens, hx])
    obtain ⟨r, hr, hsplitsr⟩ := ihr hright fun x hx => hreadable x (by simp [Term.tokens, hx])
    refine ⟨l ++ [' ', op.symbol, ' '] ++ r, ?_, hsplitsl.binary hsplitsr op⟩
    rw [Term.chars, hl, hr, Term.needsLeft_eq_false hlp, Term.needsRight_eq_false hrp]
    rfl

/-! ### The round trip -/

/-- A tree that was read from text is a phrase of readable tokens. -/
theorem phrase_of_parseText {s : String} {t : Term} (h : parseText s = .ok t) :
    t.Phrase maxNesting ∧ ∀ x ∈ t.tokens, x.Readable := by
  unfold parseText tokenize at h
  cases hscan : scan s 0 s.toList with
  | error failure => simp [hscan, bind, Except.bind] at h
  | ok ts =>
    rw [hscan] at h
    obtain ⟨hphrase, htokens⟩ :=
      Term.derives_iff.mp (treeOf_eq_ok_iff.mp (parseTokens_eq_ok_iff.mp h))
    refine ⟨hphrase, ?_⟩
    rw [htokens]
    intro token htoken
    obtain ⟨x, hx, rfl⟩ := List.mem_map.mp htoken
    exact readable_of_scan hscan x hx

/-- The canonical text of a phrase of readable tokens exists and is split into
    these tokens, however deep the phrase is. -/
theorem tokenize_toText {room : Nat} {t : Term} (ht : t.Phrase room)
    (hreadable : ∀ x ∈ t.tokens, x.Readable) :
    ∃ u ts, t.toText = .ok u ∧ tokenize u = .ok ts ∧ bare ts = t.tokens := by
  obtain ⟨cs, hcs, hsplits⟩ := splits_chars ht hreadable
  obtain ⟨ts, hts, hscan⟩ := hsplits (String.ofList cs) 0 [] nofun
  refine ⟨String.ofList cs, ts, by rw [Term.toText, hcs]; rfl, ?_, hts⟩
  rw [List.append_nil, scan] at hscan
  rw [tokenize, String.toList_ofList, hscan]
  simp [Except.map]

/-- The canonical text of a phrase of readable tokens is read as that phrase. -/
theorem parseText_toText_of_phrase {t : Term} (ht : t.Phrase maxNesting)
    (hreadable : ∀ x ∈ t.tokens, x.Readable) :
    ∃ u, t.toText = .ok u ∧ parseText u = .ok t := by
  obtain ⟨u, ts, hu, htokenize, hts⟩ := tokenize_toText ht hreadable
  have htree : treeOf ts = .ok t :=
    treeOf_eq_ok_iff.mpr (Term.derives_iff.mpr ⟨ht, hts.symm⟩)
  refine ⟨u, hu, ?_⟩
  unfold parseText
  rw [htokenize]
  exact parseTokens_eq_ok_iff.mpr htree

/-- **Round trip.**  The tree of a formula text has a canonical text, which is
    read as exactly that tree and is its own canonical text. -/
theorem parseText_toText {s : String} {t : Term} (h : parseText s = .ok t) :
    ∃ u, t.toText = .ok u ∧ parseText u = .ok t ∧ (parseText u >>= Term.toText) = .ok u := by
  obtain ⟨hphrase, hreadable⟩ := phrase_of_parseText h
  obtain ⟨u, hu, hparse⟩ := parseText_toText_of_phrase hphrase hreadable
  refine ⟨u, hu, hparse, ?_⟩
  rw [hparse]
  exact hu

set_option maxRecDepth 4000 in
/-- Blanks, a fraction without a whole part, leading zeros and digits of
    another script. -/
theorem parseText_toText_mixed :
    ∃ t, parseText "([ 10]-{a_b })/[1 - ٧]*.50-007" = .ok t ∧
      ∃ u, t.toText = .ok u ∧ parseText u = .ok t ∧ (parseText u >>= Term.toText) = .ok u := by
  have h : parseText "([ 10]-{a_b })/[1 - ٧]*.50-007" =
      .ok (.binary
        (.binary
          (.binary
            (.grouping (.binary (.account (.starting (.text "10"))) .sub (.formula (.text "a_b"))))
            .div (.account (.between (.text "1") (.text "٧"))))
          .mul (.constant (.finite false 50 (-2))))
        .sub (.constant (.finite false 7 0))) := by
    cbv
  exact ⟨_, h, parseText_toText h⟩

set_option maxRecDepth 4000 in
example : (parseText "([ 10]-{a_b })/[1 - ٧]*.50-007" >>= Term.toText) =
    .ok "([10] - {a_b}) / [1-٧] * 0.50 - 7" := by
  cbv

end KeyFigures
