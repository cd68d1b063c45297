/-
  KeyFigures/Proofs/Formula/Culprits.lean
  =======================================
  **A refused text is pointed at where it is wrong.**

  An editor marks the character at which a refusal points.  `IsCulprit` says
  which characters these may be: never a blank, but the first character of a
  token, or of what cannot be read as a lexeme behind lexemes that can.  Only two
  kinds of text leave nothing to mark: blanks alone, and texts that end right
  after an opening parenthesis while nothing is wrong so far.
-/
import KeyFigures.Proofs.Formula.Complaints
import KeyFigures.Proofs.Formula.Spacing

namespace KeyFigures

open KeyFigures.Text

/-! ### Characters to point at -/

/-- At this place of a text stands no blank, and either one of its tokens begins
    there, or something that cannot be read as a lexeme, behind lexemes that
    can. -/
structure IsCulprit (s : String) (position : Nat) : Prop where
  notBlank : ∃ c, s.toList[position]? = some c ∧ isBlank c = false
  begins : (∃ ls, Lexes 0 s.toList ls [] ∧ position ∈ ls.map Lexeme.position) ∨
    ∃ ls c r fault, Lexes 0 s.toList ls (c :: r) ∧ s.toList.drop position = c :: r ∧
      readLexeme c r = .error fault

/-- What is left behind the lexemes of a text is the end of the text. -/
theorem Lexes.isSuffix {position : Nat} {cs rest : List Char} {ls : List Lexeme}
    (h : Lexes position cs ls rest) : rest <:+ cs := by
  induction h with
  | done => exact List.suffix_rfl
  | blank _ _ ih => exact ih.trans (List.suffix_cons _ _)
  | @lexeme _ c r _ _ _ _ _ _ _ ih => exact ih.trans (List.suffix_append (c :: r) _)

/-- A text has no lexemes exactly if it holds nothing but blanks. -/
theorem lexes_nil_iff {position : Nat} {cs : List Char} :
    Lexes position cs [] [] ↔ ∀ c ∈ cs, isBlank c = true := by
  constructor
  · intro h
    cases h.spaced with
    | nil hgap => exact hgap
  · intro h
    have hend : Lexes (position + cs.length) [] [] [] := .done
    simpa using Lexes.blanks h position hend

theorem getElem?_of_drop_eq_cons {cs r : List Char} {c : Char} {n : Nat}
    (h : cs.drop n = c :: r) : cs[n]? = some c := by
  rw [← List.head?_drop, h]
  rfl

/-- Every token of a text may be pointed at. -/
theorem Lexes.isCulprit {s : String} {ls : List Lexeme} (h : Lexes 0 s.toList ls []) {l : Lexeme}
    (hl : l ∈ ls) : IsCulprit s l.position := by
  obtain ⟨n, hposition, tail, htail⟩ := h.isPrefix_drop l hl
  obtain ⟨c, r, hchars, hc⟩ := (h.isLexeme l hl).exists_cons
  rw [Nat.zero_add] at hposition
  rw [hchars, List.cons_append] at htail
  refine ⟨⟨c, ?_, hc⟩, .inl ⟨ls, h, List.mem_map_of_mem hl⟩⟩
  rw [hposition]
  exact getElem?_of_drop_eq_cons htail.symm

/-- What cannot be read as a lexeme may be pointed at. -/
theorem Lexes.isCulprit_end {s : String} {ls : List Lexeme} {c : Char} {r : List Char}
    {fault : LexemeFault} (h : Lexes 0 s.toList ls (c :: r)) (hc : isBlank c = false)
    (hread : readLexeme c r = .error fault) :
    IsCulprit s (s.toList.length - (r.length + 1)) := by
  obtain ⟨front, hfront⟩ := h.isSuffix
  have hdrop : s.toList.drop (s.toList.length - (r.length + 1)) = c :: r := by
    rw [← hfront, List.length_append, List.length_cons, Nat.add_sub_cancel, List.drop_left]
  exact ⟨⟨c, getElem?_of_drop_eq_cons hdrop, hc⟩, .inr ⟨ls, c, r, fault, h, hdrop, hread⟩⟩

/-! ### The two ways of being refused -/

/-- A refused text holds something that cannot be read as a lexeme, or its tokens
    are no tree; the refusal names the text and points as either of these
    does. -/
theorem parseText_refused {s : String} {e : ParseFault} (h : parseText s = .error (.parse e)) :
    (∃ ls c r reason, Lexes 0 s.toList ls (c :: r) ∧ isBlank c = false ∧
      readLexeme c r = .error (.malformed reason) ∧
      e = ⟨s, reason, some (s.toList.length - (r.length + 1))⟩) ∨
    ∃ ls complaint, Lexes 0 s.toList ls [] ∧ treeOf (ls.map Lexeme.placed) = .error complaint ∧
      e = ⟨s, complaint.reason, complaint.position⟩ := by
  rcases Attempt.bind_eq_error.mp h with h | ⟨ts, hts, h⟩
  · obtain ⟨ls, c, r, fault, hls, hc, hread, hfault⟩ := scan_eq_error_iff.mp h
    cases fault with
    | value fault => cases hfault
    | malformed reason =>
      rw [Nat.zero_add] at hfault
      exact .inl ⟨ls, c, r, reason, hls, hc, hread, (Failure.parse.inj hfault).symm⟩
  · obtain ⟨ls, hls, rfl⟩ := scan_eq_ok_iff.mp hts
    obtain ⟨complaint, hcomplaint, hfault⟩ := parseTokens_refuses_iff.mp h
    exact .inr ⟨ls, complaint, hls, hcomplaint, Failure.parse.inj hfault⟩

theorem parseText_of_treeOf_error {s : String} {ls : List Lexeme} {c : Complaint}
    (hls : Lexes 0 s.toList ls []) (h : treeOf (ls.map Lexeme.placed) = .error c) :
    parseText s = .error (.parse ⟨s, c.reason, c.position⟩) :=
  Attempt.bind_eq_error.mpr
    (.inr ⟨_, hls.scan_eq_ok s, parseTokens_refuses_iff.mpr ⟨c, h, rfl⟩⟩)

/-! ### Texts without a place to point at -/

/-- The tokens of a text end right after an opening parenthesis, and they are
    the beginning of what derives from some tree: nothing is wrong with them so
    far, and the parenthesis is not too deep. -/
def EndsEntered (s : String) : Prop :=
  ∃ ls, Lexes 0 s.toList ls [] ∧
    ∃ (t : Term) (row : List Token), t.Derives row ∧ StopsOpen (ls.map Lexeme.token) row

theorem leavesOpen_placed_iff {ls : List Lexeme} :
    LeavesOpen (Term.Phrase maxNesting) (ls.map Lexeme.placed) ↔
      ∃ (t : Term) (row : List Token), t.Derives row ∧ StopsOpen (ls.map Lexeme.token) row := by
  unfold LeavesOpen
  rw [bare_placed]
  constructor
  · rintro ⟨t, ht, hstops⟩
    exact ⟨t, t.tokens, Term.derives_iff.mpr ⟨ht, rfl⟩, hstops⟩
  · rintro ⟨t, row, ht, hstops⟩
    obtain ⟨hphrase, rfl⟩ := Term.derives_iff.mp ht
    exact ⟨t, hphrase, hstops⟩

/-- Blanks alone are no formula. -/
theorem parseText_of_blank {s : String} (h : ∀ c ∈ s.toList, isBlank c = true) :
    parseText s = .error (.parse ⟨s, .emptyFormula, none⟩) :=
  parseText_of_treeOf_error (lexes_nil_iff.mpr h) rfl

/-- A text that ends in a parenthesis gone into misses the closing one. -/
theorem parseText_of_endsEntered {s : String} (h : EndsEntered s) :
    parseText s = .error (.parse ⟨s, .missingClose, none⟩) := by
  obtain ⟨ls, hls, hopen⟩ := h
  exact parseText_of_treeOf_error hls (treeOf_of_leavesOpen (leavesOpen_placed_iff.mpr hopen))

/-- **A refusal points at the culprit.**  A refused text is the source that the
    refusal names.  The refusal points at a character that is no blank, where a
    token of the text begins or what cannot be read as a lexeme; or it points
    nowhere, exactly if the text holds nothing but blanks or ends right after an
    opening parenthesis that was gone into. -/
theorem refusal_points_at_culprit {s : String} {e : ParseFault}
    (h : parseText s = .error (.parse e)) :
    e.source = s ∧
      (e.position = none ∨ ∃ p, e.position = some p ∧ IsCulprit s p) ∧
      (e.position = none ↔ (∀ c ∈ s.toList, isBlank c = true) ∨ EndsEntered s) := by
  have hsilent : (∀ c ∈ s.toList, isBlank c = true) ∨ EndsEntered s → e.position = none := by
    rintro (hblank | hopen)
    · rw [parseText_of_blank hblank] at h
      cases h
      rfl
    · rw [parseText_of_endsEntered hopen] at h
      cases h
      rfl
  rcases parseText_refused h with ⟨ls, c, r, reason, hls, hc, hread, rfl⟩ |
      ⟨ls, complaint, hls, hcomplaint, rfl⟩
  · refine ⟨rfl, .inr ⟨_, rfl, hls.isCulprit_end hc hread⟩, ?_, hsilent⟩
    intro hnone
    cases hnone
  · have hfits := treeOf_fits hcomplaint
    refine ⟨rfl, ?_, ?_, hsilent⟩
    · cases hposition : complaint.position with
      | none => exact .inl rfl
      | some p =>
        right
        obtain ⟨x, hx, rfl⟩ := hfits.points p hposition
        obtain ⟨l, hl, rfl⟩ := List.mem_map.mp hx
        exact ⟨_, rfl, hls.isCulprit hl⟩
    · intro hnone
      rcases hfits.silent hnone with ⟨hnil, -⟩ | hopen
      · obtain rfl := List.map_eq_nil_iff.mp hnil
        exact .inl (lexes_nil_iff.mp hls)
      · exact .inr ⟨ls, hls, leavesOpen_placed_iff.mp hopen⟩

/-- A parenthesis behind a range and an operator, an unknown character, and a
    parenthesis that closes nothing behind an operator. -/
theorem refusal_points_at_culprit_threeTexts :
    (parseText "2*([1-5] - (" = .error (.parse ⟨"2*([1-5] - (", .missingClose, none⟩) ∧
      EndsEntered "2*([1-5] - (") ∧
    (parseText "[10] % [20]" = .error (.parse ⟨"[10] % [20]", .unknownCharacter '%', some 5⟩) ∧
      IsCulprit "[10] % [20]" 5) ∧
    parseText "[10] + )" =
        .error (.parse ⟨"[10] + )", .trailingOperatorBeforeClose, some 7⟩) ∧
      IsCulprit "[10] + )" 7 ∧ ¬EndsEntered "[10] + )" := by
  have hopen : parseText "2*([1-5] - (" =
      .error (.parse ⟨"2*([1-5] - (", .missingClose, none⟩) := by cbv
  have hunknown : parseText "[10] % [20]" =
      .error (.parse ⟨"[10] % [20]", .unknownCharacter '%', some 5⟩) := by cbv
  have hclosing : parseText "[10] + )" =
      .error (.parse ⟨"[10] + )", .trailingOperatorBeforeClose, some 7⟩) := by cbv
  refine ⟨⟨hopen, ?_⟩, ⟨hunknown, ?_⟩, hclosing, ?_, ?_⟩
  · obtain ⟨-, -, hiff⟩ := refusal_points_at_culprit hopen
    rcases hiff.mp rfl with hblank | hends
    · cases hblank '2' (by simp)
    · exact hends
  · obtain ⟨-, hplace, -⟩ := refusal_points_at_culprit hunknown
    rcases hplace with hnone | ⟨p, hp, hculprit⟩
    · cases hnone
    · exact Option.some.inj hp ▸ hculprit
  · obtain ⟨-, hplace, -⟩ := refusal_points_at_culprit hclosing
    rcases hplace with hnone | ⟨p, hp, hculprit⟩
    · cases hnone
    · exact Option.some.inj hp ▸ hculprit
  · intro hends
    obtain ⟨-, -, hiff⟩ := refusal_points_at_culprit hclosing
    cases hiff.mpr (.inr hends)

end KeyFigures
