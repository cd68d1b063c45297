/-
  KeyFigures/Proofs/Formula/Scanning.lean
  =======================================
  **How a text is made of lexemes.**

  `Lexes` says how a text from some place on is made of blanks and of lexemes,
  each with the token that is read from it and the place where it begins, up to
  a rest.  Splitting a text into tokens either finds its lexemes up to the end
  (`scan_eq_ok_iff`), in the only way there is (`Lexes.unique`), or finds
  lexemes up to a place where none can be read (`scan_eq_error_iff`).
-/
import KeyFigures.Proofs.Formula.Lexeme

namespace KeyFigures

open KeyFigures.Text

/-! ### The lexemes of a text -/

/-- A lexeme of a text: its characters, the token that is read from them, and
    the place where they begin. -/
structure Lexeme where
  chars : List Char
  token : Token
  position : Nat
deriving DecidableEq, Repr

def Lexeme.placed (l : Lexeme) : Placed := ⟨l.token, l.position⟩

/-- From a place on, a text is made of blanks and of these lexemes in their
    order, up to a rest: every lexeme is as long as reading at its place makes
    it. -/
inductive Lexes : Nat → List Char → List Lexeme → List Char → Prop where
  | done {position : Nat} {rest : List Char} : Lexes position rest [] rest
  | blank {position : Nat} {c : Char} {cs rest : List Char} {ls : List Lexeme}
      (hc : isBlank c = true) (hcs : Lexes (position + 1) cs ls rest) :
      Lexes position (c :: cs) ls rest
  | lexeme {position : Nat} {c : Char} {r cs rest : List Char} {token : Token} {ls : List Lexeme}
      (hc : isBlank c = false) (hread : readLexeme c (r ++ cs) = .ok (token, r.length))
      (hcs : Lexes (position + 1 + r.length) cs ls rest) :
      Lexes position (c :: (r ++ cs)) (⟨c :: r, token, position⟩ :: ls) rest

/-- Up to the rest a text is split into the tokens of its lexemes. -/
theorem Lexes.scan_eq {position : Nat} {cs rest : List Char} {ls : List Lexeme}
    (h : Lexes position cs ls rest) (source : String) :
    ∃ n, cs.length = n + rest.length ∧
      scan source position cs =
        (scan source (position + n) rest).map (ls.map Lexeme.placed ++ ·) := by
  induction h with
  | @done position rest =>
    refine ⟨0, by omega, ?_⟩
    rw [Nat.add_zero]
    cases scan source position rest <;> rfl
  | @blank position c cs rest ls hc _ ih =>
    obtain ⟨n, hn, hscan⟩ := ih
    refine ⟨n + 1, by simp [hn]; omega, ?_⟩
    rw [scan_cons_blank hc, hscan, Nat.add_assoc, Nat.add_comm 1]
  | @lexeme position c r cs rest token ls hc hread _ ih =>
    obtain ⟨n, hn, hscan⟩ := ih
    refine ⟨1 + r.length + n, by simp [hn]; omega, ?_⟩
    rw [scan_cons_lexeme hc hread, List.drop_left, hscan, ← Nat.add_assoc, ← Nat.add_assoc]
    cases scan source (position + 1 + r.length + n) rest <;> rfl

/-- A text is made of lexemes up to its end, or up to a place where none can be
    read. -/
theorem exists_lexes (position : Nat) (cs : List Char) :
    (∃ ls, Lexes position cs ls []) ∨
      ∃ ls c r fault, Lexes position cs ls (c :: r) ∧ isBlank c = false ∧
        readLexeme c r = .error fault := by
  induction position, cs using scan.induct with
  | case1 position => exact .inl ⟨[], .done⟩
  | case2 position c r hblank ih =>
    rcases ih with ⟨ls, hls⟩ | ⟨ls, c', r', fault, hls, hend⟩
    · exact .inl ⟨ls, .blank hblank hls⟩
    · exact .inr ⟨ls, c', r', fault, .blank hblank hls, hend⟩
  | case3 position c r hblank fault hfault =>
    exact .inr ⟨[], c, r, fault, .done, by simpa using hblank, hfault⟩
  | case4 position c cs hblank token more hread ih =>
    have hc : isBlank c = false := by simpa using hblank
    obtain ⟨r, rest, rfl, rfl, -⟩ := isLexeme_of_readLexeme hread
    rw [List.drop_left] at ih
    rcases ih with ⟨ls, hls⟩ | ⟨ls, c', r', fault, hls, hend⟩
    · exact .inl ⟨_, .lexeme hc hread hls⟩
    · exact .inr ⟨_, c', r', fault, .lexeme hc hread hls, hend⟩

theorem Lexes.scan_eq_ok {position : Nat} {cs : List Char} {ls : List Lexeme}
    (h : Lexes position cs ls []) (source : String) :
    scan source position cs = .ok (ls.map Lexeme.placed) := by
  obtain ⟨n, -, hscan⟩ := h.scan_eq source
  rw [hscan, scan]
  simp [Except.map]

theorem Lexes.scan_eq_error {position : Nat} {c : Char} {cs r : List Char} {ls : List Lexeme}
    {fault : LexemeFault} (h : Lexes position cs ls (c :: r)) (hc : isBlank c = false)
    (hread : readLexeme c r = .error fault) (source : String) :
    scan source position cs =
      .error (fault.at source (position + (cs.length - (r.length + 1)))) := by
  obtain ⟨n, hn, hscan⟩ := h.scan_eq source
  rw [hscan, scan, if_neg (by simp [hc]), hread, hn, List.length_cons, Nat.add_sub_cancel]
  rfl

/-- Splitting a text succeeds exactly if it is made of lexemes, and finds
    these. -/
theorem scan_eq_ok_iff {source : String} {position : Nat} {cs : List Char} {ts : List Placed} :
    scan source position cs = .ok ts ↔
      ∃ ls, Lexes position cs ls [] ∧ ls.map Lexeme.placed = ts := by
  constructor
  · intro h
    rcases exists_lexes position cs with ⟨ls, hls⟩ | ⟨ls, c, r, fault, hls, hc, hread⟩
    · exact ⟨ls, hls, Except.ok.inj ((hls.scan_eq_ok source).symm.trans h)⟩
    · cases (hls.scan_eq_error hc hread source).symm.trans h
  · rintro ⟨ls, hls, rfl⟩
    exact hls.scan_eq_ok source

/-- Splitting a text fails exactly where no lexeme can be read. -/
theorem scan_eq_error_iff {source : String} {position : Nat} {cs : List Char} {f : Failure} :
    scan source position cs = .error f ↔
      ∃ ls c r fault, Lexes position cs ls (c :: r) ∧ isBlank c = false ∧
        readLexeme c r = .error fault ∧
        fault.at source (position + (cs.length - (r.length + 1))) = f := by
  constructor
  · intro h
    rcases exists_lexes position cs with ⟨ls, hls⟩ | ⟨ls, c, r, fault, hls, hc, hread⟩
    · cases (hls.scan_eq_ok source).symm.trans h
    · exact ⟨ls, c, r, fault, hls, hc, hread,
        Except.error.inj ((hls.scan_eq_error hc hread source).symm.trans h)⟩
  · rintro ⟨ls, c, r, fault, hls, hc, hread, rfl⟩
    exact hls.scan_eq_error hc hread source

/-! ### The lexemes of a whole text -/

/-- A text has its lexemes in one way only. -/
theorem Lexes.unique {position : Nat} {cs : List Char} {ls ms : List Lexeme}
    (hl : Lexes position cs ls []) (hm : Lexes position cs ms []) : ls = ms := by
  generalize hend : [] = rest at hl
  induction hl generalizing ms with
  | done =>
    subst hend
    cases hm
    rfl
  | blank hc _ ih =>
    cases hm with
    | blank _ hcs => exact ih hcs hend
    | lexeme hc' => simp [hc] at hc'
  | @lexeme position c r cs rest token ls hc hread _ ih =>
    generalize htext : c :: (r ++ cs) = text at hm
    cases hm with
    | done => cases htext
    | blank hc' =>
      obtain ⟨rfl, -⟩ := List.cons.inj htext
      simp [hc] at hc'
    | @lexeme _ _ r' cs' _ token' ms _ hread' hcs' =>
      obtain ⟨rfl, htail⟩ := List.cons.inj htext
      rw [htail, hread'] at hread
      obtain ⟨rfl, hlength⟩ := Prod.mk.inj (Except.ok.inj hread)
      obtain ⟨rfl, rfl⟩ := List.append_inj htail hlength.symm
      rw [ih hcs' hend]

/-- Every lexeme of a text is one of the grammar. -/
theorem Lexes.isLexeme {position : Nat} {cs rest : List Char} {ls : List Lexeme}
    (h : Lexes position cs ls rest) : ∀ l ∈ ls, IsLexeme l.chars l.token := by
  induction h with
  | done => simp
  | blank _ _ ih => exact ih
  | lexeme _ hread _ ih =>
    exact List.forall_mem_cons.mpr ⟨isLexeme_of_readLexeme_append hread, ih⟩

/-- Whatever a text is split into can be held by text. -/
theorem readable_of_scan {source : String} {position : Nat} {cs : List Char} {ts : List Placed}
    (h : scan source position cs = .ok ts) : ∀ x ∈ ts, x.token.Readable := by
  obtain ⟨ls, hls, rfl⟩ := scan_eq_ok_iff.mp h
  intro x hx
  obtain ⟨l, hl, rfl⟩ := List.mem_map.mp hx
  exact (hls.isLexeme l hl).readable

/-- Every lexeme stands in the text where it is said to begin. -/
theorem Lexes.isPrefix_drop {position : Nat} {cs rest : List Char} {ls : List Lexeme}
    (h : Lexes position cs ls rest) :
    ∀ l ∈ ls, ∃ n, l.position = position + n ∧ l.chars <+: cs.drop n := by
  induction h with
  | done => simp
  | blank _ _ ih =>
    intro l hl
    obtain ⟨n, hposition, hchars⟩ := ih l hl
    exact ⟨n + 1, by omega, hchars⟩
  | @lexeme position c r cs rest token ls _ _ _ ih =>
    intro l hl
    rcases List.mem_cons.mp hl with rfl | hl
    · exact ⟨0, rfl, cs, by simp⟩
    · obtain ⟨n, hposition, hchars⟩ := ih l hl
      refine ⟨n + r.length + 1, by omega, ?_⟩
      rwa [List.drop_succ_cons, Nat.add_comm n, List.drop_length_add_append]

theorem Lexes.le_position {position : Nat} {cs rest : List Char} {ls : List Lexeme}
    (h : Lexes position cs ls rest) : ∀ l ∈ ls, position ≤ l.position := by
  intro l hl
  obtain ⟨n, hposition, -⟩ := h.isPrefix_drop l hl
  omega

/-- No lexeme begins before the one in front of it has ended. -/
theorem Lexes.pairwise {position : Nat} {cs rest : List Char} {ls : List Lexeme}
    (h : Lexes position cs ls rest) :
    ls.Pairwise fun l m => l.position + l.chars.length ≤ m.position := by
  induction h with
  | done => exact .nil
  | blank _ _ ih => exact ih
  | lexeme _ _ hcs ih =>
    refine .cons ?_ ih
    intro m hm
    have hle := hcs.le_position m hm
    simp only [List.length_cons]
    omega

end KeyFigures
