/-
  KeyFigures/Proofs/Formula/Spacing.lean
  ======================================
  **Blanks between lexemes mean nothing.**

  `Spaced` says that a text is made of given rows of characters with nothing but
  blanks before, between and behind them.  Every text that can be split is
  `Spaced` by its own lexemes (`Lexes.spaced`).  Conversely lexemes of the
  grammar that are spaced anew are found again (`exists_lexes_of_spaced`), with
  the same tokens: where no blank is left, a number could at most be carried on
  by a number behind it, and the tokens of a tree never put two numbers side by
  side (`Term.isChain_tokens`).
-/
import KeyFigures.Proofs.Formula.Grammar
import KeyFigures.Proofs.Formula.Scanning

namespace KeyFigures

open KeyFigures.Text

/-! ### Texts made of given rows -/

/-- A text is made of the rows in their order, with nothing but blanks before,
    between and behind them. -/
inductive Spaced : List (List Char) → List Char → Prop where
  | nil {gap : List Char} (hgap : ∀ c ∈ gap, isBlank c = true) : Spaced [] gap
  | cons {gap row rest : List Char} {rows : List (List Char)}
      (hgap : ∀ c ∈ gap, isBlank c = true) (hrest : Spaced rows rest) :
      Spaced (row :: rows) (gap ++ row ++ rest)

theorem Spaced.blank {rows : List (List Char)} {cs : List Char} (h : Spaced rows cs) {c : Char}
    (hc : isBlank c = true) : Spaced rows (c :: cs) := by
  cases h with
  | nil hgap => exact .nil (List.forall_mem_cons.mpr ⟨hc, hgap⟩)
  | cons hgap hrest => exact .cons (List.forall_mem_cons.mpr ⟨hc, hgap⟩) hrest

/-- Between its lexemes a text holds nothing but blanks. -/
theorem Lexes.spaced {position : Nat} {cs : List Char} {ls : List Lexeme}
    (h : Lexes position cs ls []) : Spaced (ls.map Lexeme.chars) cs := by
  generalize hend : [] = rest at h
  induction h with
  | done =>
    subst hend
    exact .nil (List.forall_mem_nil _)
  | blank hc _ ih => exact (ih hend).blank hc
  | lexeme _ _ _ ih => exact .cons (List.forall_mem_nil _) (ih hend)

/-! ### Numbers side by side -/

def Token.isNumber : Token → Bool
  | .number _ => true
  | _ => false

/-- Not both tokens are numbers. -/
def Token.Apart (x y : Token) : Prop := x.isNumber = false ∨ y.isNumber = false

/-- The tokens of a tree never put two numbers side by side: there is an
    operator between two operands. -/
theorem Term.isChain_tokens (t : Term) : t.tokens.IsChain Token.Apart := by
  induction t with
  | account ref => exact .singleton _
  | constant value => exact .singleton _
  | formula id => exact .singleton _
  | unsupported => exact .nil
  | foreign => exact .nil
  | grouping inner ih =>
    refine List.isChain_cons.mpr ⟨fun y _ => .inl rfl, ?_⟩
    refine List.isChain_append.mpr ⟨ih, .singleton _, ?_⟩
    intro x _ y hy
    obtain rfl := Option.some.inj hy
    exact .inr rfl
  | binary left op right ihl ihr =>
    refine List.isChain_append.mpr ⟨ihl, ?_, ?_⟩
    · exact List.isChain_cons.mpr ⟨fun y _ => .inl rfl, ihr⟩
    · intro x _ y hy
      obtain rfl := Option.some.inj hy
      exact .inr rfl

/-- Only a number begins with a character that carries a number on. -/
theorem IsLexeme.isNumber {c : Char} {r : List Char} {token : Token} (h : IsLexeme (c :: r) token)
    (hc : continuesNumber c = true) : token.isNumber = true := by
  generalize hcs : c :: r = cs at h
  cases h with
  | number => rfl
  | operator op =>
    obtain ⟨rfl, -⟩ := List.cons.inj hcs
    exact absurd hc (by cases op <;> decide)
  | _ =>
    obtain ⟨rfl, -⟩ := List.cons.inj hcs
    exact absurd hc (by decide)

/-- A text that does not begin with a number does not carry one on. -/
theorem Lexes.stopsAt {position : Nat} {cs : List Char} {ls : List Lexeme}
    (h : Lexes position cs ls []) (hfirst : ∀ l ∈ ls.head?, l.token.isNumber = false) :
    StopsAt continuesNumber cs := by
  intro c hc
  refine Bool.eq_false_iff.mpr fun hnumber => ?_
  cases h with
  | done => cases hc
  | blank hblank _ =>
    obtain rfl := Option.some.inj hc
    simp [isBlank_of_continuesNumber hnumber] at hblank
  | lexeme _ hread _ =>
    obtain rfl := Option.some.inj hc
    have hother := (isLexeme_of_readLexeme_append hread).isNumber hnumber
    simp [hfirst _ rfl] at hother

/-- The characters of a token end before a text that does not begin with a
    number if the token is one. -/
theorem Lexes.endsBefore {position : Nat} {cs : List Char} {ls : List Lexeme}
    (h : Lexes position cs ls []) {token : Token}
    (happart : ∀ l ∈ ls.head?, token.Apart l.token) : token.EndsBefore cs := by
  cases token with
  | number value => exact h.stopsAt fun l hl => (happart l hl).resolve_left (by simp [Token.isNumber])
  | _ => trivial

/-! ### Lexemes spaced anew -/

theorem Lexes.blanks {gap cs rest : List Char} {ls : List Lexeme}
    (hgap : ∀ c ∈ gap, isBlank c = true) :
    ∀ position, Lexes (position + gap.length) cs ls rest → Lexes position (gap ++ cs) ls rest := by
  induction gap with
  | nil => exact fun position h => h
  | cons c gap ih =>
    intro position h
    obtain ⟨hc, hgap⟩ := List.forall_mem_cons.mp hgap
    refine .blank hc (ih hgap (position + 1) ?_)
    rwa [Nat.add_assoc, Nat.add_comm 1]

/-- A lexeme of the grammar is found in front of a text that does not carry it
    on. -/
theorem Lexes.cons {row cs rest : List Char} {token : Token} {ls : List Lexeme} {position : Nat}
    (hrow : IsLexeme row token) (h : Lexes (position + row.length) cs ls rest)
    (hcs : token.EndsBefore cs) :
    Lexes position (row ++ cs) (⟨row, token, position⟩ :: ls) rest := by
  obtain ⟨c, r, rfl, hc⟩ := hrow.exists_cons
  refine .lexeme hc (hrow.readLexeme hcs) ?_
  rwa [List.length_cons, Nat.add_comm r.length, ← Nat.add_assoc] at h

/-- Lexemes of the grammar without two numbers side by side are found again in
    every text that is made of them. -/
theorem exists_lexes_of_spaced {ls : List Lexeme} (hls : ∀ l ∈ ls, IsLexeme l.chars l.token)
    (happart : (ls.map Lexeme.token).IsChain Token.Apart) {cs : List Char}
    (hcs : Spaced (ls.map Lexeme.chars) cs) :
    ∀ position, ∃ ms, Lexes position cs ms [] ∧ ms.map Lexeme.token = ls.map Lexeme.token := by
  induction ls generalizing cs with
  | nil =>
    intro position
    cases hcs with
    | nil hgap =>
      have hend : Lexes (position + cs.length) [] [] [] := .done
      exact ⟨[], by simpa using Lexes.blanks hgap position hend, rfl⟩
  | cons l ls ih =>
    intro position
    obtain ⟨hl, hls⟩ := List.forall_mem_cons.mp hls
    obtain ⟨hnext, happart⟩ := List.isChain_cons.mp happart
    cases hcs with
    | @cons gap _ rest _ hgap hrest =>
      obtain ⟨ms, hms, htokens⟩ := ih hls happart hrest (position + gap.length + l.chars.length)
      have hend : l.token.EndsBefore rest := by
        refine hms.endsBefore fun m hm => hnext m.token ?_
        rw [← htokens, List.head?_map, hm]
        rfl
      refine ⟨⟨l.chars, l.token, position + gap.length⟩ :: ms, ?_, by simp [htokens]⟩
      rw [List.append_assoc]
      exact Lexes.blanks hgap position (hms.cons hl hend)

/-! ### The tree of a text -/

theorem bare_placed (ls : List Lexeme) : bare (ls.map Lexeme.placed) = ls.map Lexeme.token := by
  rw [bare, List.map_map]
  rfl

/-- The tree that is read from a text is the one that derives the tokens of its
    lexemes. -/
theorem parseText_eq_ok_iff {s : String} {t : Term} :
    parseText s = .ok t ↔ ∃ ls, Lexes 0 s.toList ls [] ∧ t.Derives (ls.map Lexeme.token) := by
  simp only [parseText, tokenize, Attempt.bind_eq_ok, parseTokens_eq_ok_iff, treeOf_eq_ok_iff,
    scan_eq_ok_iff]
  constructor
  · rintro ⟨ts, ⟨ls, hls, rfl⟩, ht⟩
    exact ⟨ls, hls, by rwa [bare_placed] at ht⟩
  · rintro ⟨ls, hls, ht⟩
    exact ⟨_, ⟨ls, hls, rfl⟩, by rwa [bare_placed]⟩

/-- The lexemes of a text begin one behind the other. -/
theorem Lexes.pairwise_position {position : Nat} {cs rest : List Char} {ls : List Lexeme}
    (h : Lexes position cs ls rest) : (ls.map Lexeme.position).Pairwise (· < ·) := by
  refine List.pairwise_map.mpr (h.pairwise.imp_of_mem ?_)
  intro l m hl _ hle
  obtain ⟨c, r, hchars, -⟩ := (h.isLexeme l hl).exists_cons
  rw [hchars, List.length_cons] at hle
  omega

/-- **Blanks between lexemes mean nothing.**  A text that is read as a tree is
    made of lexemes, in one way only, whose tokens are those it splits into.
    Besides them it holds nothing but blanks, each of them stands at the position
    of its token, and these positions increase.  Every text that is made of the
    same lexemes, with whatever blanks or none before, between and behind them,
    is read as the same tree. -/
theorem parseText_of_spaced {s : String} {t : Term} (h : parseText s = .ok t) :
    ∃ ls, Lexes 0 s.toList ls [] ∧ (∀ ms, Lexes 0 s.toList ms [] → ms = ls) ∧
      tokenize s = .ok (ls.map Lexeme.placed) ∧
      Spaced (ls.map Lexeme.chars) s.toList ∧
      (∀ l ∈ ls, l.chars <+: s.toList.drop l.position) ∧
      (ls.map Lexeme.position).Pairwise (· < ·) ∧
      ∀ s' : String, Spaced (ls.map Lexeme.chars) s'.toList → parseText s' = .ok t := by
  obtain ⟨ls, hls, ht⟩ := parseText_eq_ok_iff.mp h
  have happart : (ls.map Lexeme.token).IsChain Token.Apart := ht.tokens_eq ▸ t.isChain_tokens
  refine ⟨ls, hls, fun ms hms => hms.unique hls, hls.scan_eq_ok s, hls.spaced, ?_,
    hls.pairwise_position, ?_⟩
  · intro l hl
    obtain ⟨n, hposition, hchars⟩ := hls.isPrefix_drop l hl
    rwa [hposition, Nat.zero_add]
  · intro s' hs'
    obtain ⟨ms, hms, htokens⟩ := exists_lexes_of_spaced hls.isLexeme happart hs' 0
    exact parseText_eq_ok_iff.mpr ⟨ms, hms, htokens ▸ ht⟩

/-- The blanks inside a range are its own; those around it are not. -/
theorem parseText_of_spaced_share :
    ∃ t, parseText "2*[1 - 5]" = .ok t ∧ parseText " 2 * [1 - 5]" = .ok t := by
  have h : parseText "2*[1 - 5]" =
      .ok (.binary (.constant (.finite false 2 0)) .mul
        (.account (.between (.text "1") (.text "5")))) := by
    cbv
  have hlexes : Lexes 0 ['2', '*', '[', '1', ' ', '-', ' ', '5', ']']
      [⟨['2'], .number (.finite false 2 0), 0⟩, ⟨['*'], .operator .mul, 1⟩,
        ⟨['[', '1', ' ', '-', ' ', '5', ']'],
          .account (.between (.text "1") (.text "5")), 2⟩] [] := by
    refine .lexeme (r := []) (by decide) (by cbv) ?_
    refine .lexeme (r := []) (by decide) (by cbv) ?_
    exact .lexeme (r := ['1', ' ', '-', ' ', '5', ']']) (by decide) (by cbv) .done
  obtain ⟨ls, -, hunique, -, -, -, -, hspaced⟩ := parseText_of_spaced h
  obtain rfl := hunique _ (by simpa using hlexes)
  have hblank : ∀ c ∈ [' '], isBlank c = true := List.forall_mem_singleton.mpr (by decide)
  have hlast : Spaced [['[', '1', ' ', '-', ' ', '5', ']']]
      [' ', '[', '1', ' ', '-', ' ', '5', ']'] := .cons hblank (.nil (List.forall_mem_nil _))
  have hother : Spaced [['2'], ['*'], ['[', '1', ' ', '-', ' ', '5', ']']]
      [' ', '2', ' ', '*', ' ', '[', '1', ' ', '-', ' ', '5', ']'] :=
    .cons hblank (.cons hblank hlast)
  exact ⟨_, h, hspaced _ (by simpa using hother)⟩

end KeyFigures
