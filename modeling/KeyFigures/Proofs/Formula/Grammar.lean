/-
  KeyFigures/Proofs/Formula/Grammar.lean
  ======================================
  **The reader of formulas accepts exactly its grammar.**

  `Term.Derives` is the grammar said on trees: a stratified tree of formula
  nodes, its parentheses nested at most `maxNesting` deep, whose tokens from
  left to right are the given row.  The reader and the grammar agree
  (`treeOf_eq_ok_iff`): what is read is derived (`ReadsOnly`), and whatever is
  derived is read (`ReadsAll`).

  Both directions climb the readers in the same order: operands, operators with
  operands behind them, chains, and from there by induction on the room that is
  left for parentheses.  The rest of the row is arbitrary throughout; a chain
  only needs a rest that does not go on with an operator.
-/
import KeyFigures.Proofs.Formula.Chain

namespace KeyFigures

/-- A tree derives a row of tokens: the tokens are its own, and its shape needs
    no parentheses besides those it has, which nest as deep as they may. -/
structure Term.Derives (t : Term) (ts : List Token) : Prop where
  wellFormed : t.WellFormed
  tokens_eq : t.tokens = ts
  stratified : t.Stratified
  nesting_le : t.nesting ≤ maxNesting

theorem Term.derives_iff {t : Term} {ts : List Token} :
    t.Derives ts ↔ t.Phrase maxNesting ∧ t.tokens = ts :=
  ⟨fun h => ⟨⟨h.wellFormed, h.stratified, h.nesting_le⟩, h.tokens_eq⟩,
    fun ⟨h, htokens⟩ => ⟨h.wellFormed, htokens, h.stratified, h.nesting_le⟩⟩

/-- The tokens of a row without their places. -/
def bare (ts : List Placed) : List Token := ts.map Placed.token

@[simp]
theorem bare_nil : bare [] = [] := rfl

@[simp]
theorem bare_cons (x : Placed) (ts : List Placed) : bare (x :: ts) = x.token :: bare ts := rfl

@[simp]
theorem bare_append (xs ys : List Placed) : bare (xs ++ ys) = bare xs ++ bare ys :=
  List.map_append

theorem exists_of_bare_eq_cons {ts : List Placed} {x : Token} {xs : List Token}
    (h : bare ts = x :: xs) : ∃ position rest, ts = ⟨x, position⟩ :: rest ∧ bare rest = xs := by
  obtain ⟨y, rest, rfl, rfl, rfl⟩ := List.map_eq_cons_iff.mp h
  exact ⟨y.position, rest, rfl, rfl⟩

theorem exists_of_bare_eq_append {ts : List Placed} {xs ys : List Token}
    (h : bare ts = xs ++ ys) : ∃ l r, ts = l ++ r ∧ bare l = xs ∧ bare r = ys :=
  List.map_eq_append_iff.mp h

/-! ### What the readers do -/

/-- A group is a chain with a closing parenthesis behind it. -/
theorem readGroup_eq_ok {chain : TermReader} {opening : Placed} {ts : List Placed}
    {r : Reading (opening :: ts)} (h : readGroup chain opening ts = .ok r) :
    ∃ inner position, chain (some opening) ts = .ok inner ∧
      inner.rest = ⟨.closing, position⟩ :: r.rest ∧ r.term = .grouping inner.term := by
  unfold readGroup at h
  cases hinner : chain (some opening) ts with
  | error complaint => simp [hinner] at h
  | ok inner =>
    rw [hinner] at h
    dsimp only at h
    split at h
    · cases h
    · rename_i position rest hrest
      cases h
      exact ⟨inner, position, rfl, hrest, rfl⟩
    · cases h

/-- A group fails as its chain does, or because of what stands in the place of
    the closing parenthesis. -/
theorem readGroup_eq_error {chain : TermReader} {opening : Placed} {ts : List Placed}
    {c : Complaint} (h : readGroup chain opening ts = .error c) :
    chain (some opening) ts = .error c ∨
      ∃ inner, chain (some opening) ts = .ok inner ∧
        ∃ x ∈ opening :: inner.rest, c.position = some x.position := by
  unfold readGroup at h
  cases hinner : chain (some opening) ts with
  | error complaint =>
    rw [hinner] at h
    cases h
    exact .inl rfl
  | ok inner =>
    rw [hinner] at h
    dsimp only at h
    refine .inr ⟨inner, rfl, ?_⟩
    split at h
    · cases h
      exact ⟨opening, List.mem_cons_self, rfl⟩
    · cases h
    · rename_i hrest
      cases h
      rw [hrest]
      exact ⟨_, List.mem_cons_of_mem _ List.mem_cons_self, rfl⟩

/-- An operand is a single token or a group. -/
theorem readOperand_eq_ok {chain : Option TermReader} {before : Option Placed} {ts : List Placed}
    {r : Reading ts} (h : readOperand chain before ts = .ok r) :
    ∃ x rest, ts = x :: rest ∧
      ((∀ room, r.term.Operand room) ∧ r.term.tokens = [x.token] ∧ r.rest = rest ∨
        ∃ c inner position, x.token = .opening ∧ chain = some c ∧ c (some x) rest = .ok inner ∧
          inner.rest = ⟨.closing, position⟩ :: r.rest ∧ r.term = .grouping inner.term) := by
  cases ts with
  | nil => cases h
  | cons x rest =>
    refine ⟨x, rest, rfl, ?_⟩
    obtain ⟨token, position⟩ := x
    cases token with
    | number value =>
      cases h
      exact .inl ⟨fun _ => ⟨⟨trivial, trivial, Nat.zero_le _⟩, rfl⟩, rfl, rfl⟩
    | account ref =>
      cases h
      exact .inl ⟨fun _ => ⟨⟨trivial, trivial, Nat.zero_le _⟩, rfl⟩, rfl, rfl⟩
    | formula id =>
      cases h
      exact .inl ⟨fun _ => ⟨⟨trivial, trivial, Nat.zero_le _⟩, rfl⟩, rfl, rfl⟩
    | operator op => cases h
    | closing => cases h
    | opening =>
      simp only [readOperand] at h
      split at h
      · cases h
      · cases h
      · rename_i c _
        obtain ⟨inner, p, hinner, hrest, hterm⟩ := readGroup_eq_ok h
        exact .inr ⟨c, inner, p, rfl, rfl, hinner, hrest, hterm⟩

theorem readChain_eq_ok {operand : TermReader} {before : Option Placed} {ts : List Placed}
    {r : Reading ts} (h : readChain operand before ts = .ok r) :
    ∃ first more, operand before ts = .ok first ∧
      readMore operand first.last first.rest = .ok more ∧
      r.term = buildChain first.term more.items ∧ r.rest = more.rest := by
  unfold readChain at h
  cases hfirst : operand before ts with
  | error complaint => simp [hfirst] at h
  | ok first =>
    rw [hfirst] at h
    dsimp only at h
    cases hmore : readMore operand first.last first.rest with
    | error complaint => simp [hmore] at h
    | ok more =>
      rw [hmore] at h
      cases h
      exact ⟨first, more, rfl, hmore, rfl, rfl⟩

/-- A chain fails as its first operand does, or as what comes behind it. -/
theorem readChain_eq_error {operand : TermReader} {before : Option Placed} {ts : List Placed}
    {c : Complaint} (h : readChain operand before ts = .error c) :
    operand before ts = .error c ∨
      ∃ first, operand before ts = .ok first ∧
        readMore operand first.last first.rest = .error c := by
  unfold readChain at h
  cases hfirst : operand before ts with
  | error complaint =>
    rw [hfirst] at h
    cases h
    exact .inl rfl
  | ok first =>
    rw [hfirst] at h
    dsimp only at h
    refine .inr ⟨first, rfl, ?_⟩
    cases hmore : readMore operand first.last first.rest with
    | error complaint =>
      rw [hmore] at h
      cases h
      rfl
    | ok more => simp [hmore] at h

/-! ### What is read is derived -/

/-- Everything a reader reads is of a kind, and the tokens it takes are those
    of the tree. -/
def ReadsOnly (read : TermReader) (kind : Term → Prop) : Prop :=
  ∀ before ts r, read before ts = .ok r →
    kind r.term ∧ bare ts = r.term.tokens ++ bare r.rest

theorem readOperand_sound {room : Nat} {chain : Option TermReader}
    (hchain : ∀ c, chain = some c → ∃ room', room = room' + 1 ∧ ReadsOnly c (Term.Phrase room')) :
    ReadsOnly (readOperand chain) (Term.Operand room) := by
  intro before ts r h
  obtain ⟨x, rest, rfl, ⟨hoperand, htokens, hrest⟩ |
    ⟨c, inner, position, hx, rfl, hinner, hrest, hterm⟩⟩ := readOperand_eq_ok h
  · exact ⟨hoperand room, by rw [htokens, hrest]; rfl⟩
  · obtain ⟨room', rfl, hc⟩ := hchain c rfl
    obtain ⟨hkind, htokens⟩ := hc _ _ _ hinner
    rw [hterm]
    exact ⟨Term.operand_grouping_iff.mpr hkind, by simp [htokens, hrest, hx, Term.tokens]⟩

theorem readMore_sound {room : Nat} {operand : TermReader}
    (hoperand : ReadsOnly operand (Term.Operand room)) (last : Placed) (ts : List Placed) :
    ∀ m, readMore operand last ts = .ok m →
      (∀ x ∈ m.items, x.2.Operand room) ∧ bare ts = tailTokens m.items ++ bare m.rest := by
  fun_induction readMore operand last ts with
  | case1 => simp
  | case2 => simp
  | case3 last op position rest x hx more hmore ih =>
    intro m h
    cases h
    obtain ⟨hkind, htokens⟩ := hoperand _ _ _ hx
    obtain ⟨hkinds, hrest⟩ := ih _ hmore
    refine ⟨?_, ?_⟩
    · intro y hy
      rcases List.mem_cons.mp hy with rfl | hy
      · exact hkind
      · exact hkinds y hy
    · simp [htokens, hrest, tailTokens]
  | case4 =>
    intro m h
    cases h
    refine ⟨?_, rfl⟩
    intro x hx
    cases hx

theorem readChain_sound {room : Nat} {operand : TermReader}
    (hoperand : ReadsOnly operand (Term.Operand room)) :
    ReadsOnly (readChain operand) (Term.Phrase room) := by
  intro before ts r h
  obtain ⟨first, more, hfirst, hmore, hterm, hrest⟩ := readChain_eq_ok h
  obtain ⟨hkind, htokens⟩ := hoperand _ _ _ hfirst
  obtain ⟨hkinds, hback⟩ := readMore_sound hoperand _ _ _ hmore
  rw [hterm, hrest]
  refine ⟨buildChain_phrase hkind hkinds, ?_⟩
  rw [htokens, hback, buildChain_tokens, List.append_assoc]

theorem chainWithin_sound (room : Nat) : ReadsOnly (chainWithin room) (Term.Phrase room) := by
  induction room with
  | zero => exact readChain_sound (readOperand_sound nofun)
  | succ room ih =>
    refine readChain_sound (readOperand_sound ?_)
    intro c hc
    obtain rfl : chainWithin room = c := Option.some.inj hc
    exact ⟨room, rfl, ih⟩

/-! ### What is derived is read -/

/-- The rest of a row does not go on with an operator. -/
def NoOperator (rest : List Placed) : Prop :=
  ∀ x ∈ rest.head?, x.token.isOperator = false

/-- A reader reads every tree of a kind wherever its tokens stand in front, as
    long as what follows them is fit to follow. -/
def ReadsAll (read : TermReader) (kind : Term → Prop) (fit : List Placed → Prop) : Prop :=
  ∀ before ts front rest t, kind t → ts = front ++ rest → bare front = t.tokens → fit rest →
    ∃ r, read before ts = .ok r ∧ r.term = t ∧ r.rest = rest

theorem readGroup_complete {room : Nat} {chain : TermReader}
    (hchain : ReadsAll chain (Term.Phrase room) NoOperator) {inner : Term}
    (hinner : inner.Phrase room) {ts body : List Placed} {position : Nat} {rest : List Placed}
    (hts : ts = body ++ ⟨.closing, position⟩ :: rest) (hbody : bare body = inner.tokens)
    (opening : Placed) :
    ∃ r, readGroup chain opening ts = .ok r ∧ r.term = .grouping inner ∧ r.rest = rest := by
  have hfit : NoOperator (⟨.closing, position⟩ :: rest) := by
    intro x hx
    obtain rfl := Option.some.inj hx
    rfl
  obtain ⟨r, hr, hterm, hrest⟩ := hchain (some opening) ts body _ inner hinner hts hbody hfit
  unfold readGroup
  rw [hr]
  dsimp only
  split
  · simp_all
  · rename_i p rest' hrest'
    obtain ⟨-, rfl⟩ : _ ∧ rest = rest' := by simpa [hrest] using hrest'
    exact ⟨_, rfl, by rw [hterm], rfl⟩
  · simp_all

/-- The reader of operands goes inside parentheses that are not empty. -/
theorem readOperand_opening (chain : TermReader) (before : Option Placed) (position : Nat)
    {x : Placed} (ts : List Placed) (hx : x.token ≠ .closing) :
    readOperand (some chain) before (⟨.opening, position⟩ :: x :: ts) =
      readGroup chain ⟨.opening, position⟩ (x :: ts) := by
  obtain ⟨token, p⟩ := x
  cases token <;> first | rfl | exact absurd rfl hx

theorem readOperand_complete {room : Nat} {chain : Option TermReader}
    (hchain : ∀ room', room = room' + 1 →
      ∃ c, chain = some c ∧ ReadsAll c (Term.Phrase room') NoOperator) :
    ReadsAll (readOperand chain) (Term.Operand room) fun _ => True := by
  intro before ts front rest t ht hts hfront _
  subst hts
  cases t with
  | constant value =>
    obtain ⟨position, rest', rfl, hnil⟩ := exists_of_bare_eq_cons hfront
    obtain rfl := List.map_eq_nil_iff.mp hnil
    exact ⟨_, rfl, rfl, rfl⟩
  | account ref =>
    obtain ⟨position, rest', rfl, hnil⟩ := exists_of_bare_eq_cons hfront
    obtain rfl := List.map_eq_nil_iff.mp hnil
    exact ⟨_, rfl, rfl, rfl⟩
  | formula id =>
    obtain ⟨position, rest', rfl, hnil⟩ := exists_of_bare_eq_cons hfront
    obtain rfl := List.map_eq_nil_iff.mp hnil
    exact ⟨_, rfl, rfl, rfl⟩
  | binary left op right => cases ht.precedence?_eq
  | unsupported => exact ht.wellFormed.elim
  | foreign => exact ht.wellFormed.elim
  | grouping inner =>
    cases room with
    | zero => exact absurd ht.nesting_le (Nat.not_succ_le_zero _)
    | succ room =>
      obtain ⟨c, rfl, hreads⟩ := hchain room rfl
      have hinner : inner.Phrase room := Term.operand_grouping_iff.mp ht
      -- the row is an opening parenthesis, the inner tokens and a closing one
      obtain ⟨position, tail, rfl, htail⟩ := exists_of_bare_eq_cons hfront
      obtain ⟨body, close, rfl, hbody, hclose⟩ := exists_of_bare_eq_append htail
      obtain ⟨position', close, rfl, hnil⟩ := exists_of_bare_eq_cons hclose
      obtain rfl := List.map_eq_nil_iff.mp hnil
      -- the group is not empty, so the reader goes inside
      obtain ⟨first, more, hfirst, hne⟩ := inner.exists_tokens_eq_cons hinner.wellFormed
      obtain ⟨position'', body, rfl, -⟩ := exists_of_bare_eq_cons (hbody.trans hfirst)
      have hsplit : ⟨first, position''⟩ :: (body ++ [⟨.closing, position'⟩] ++ rest) =
          (⟨first, position''⟩ :: body) ++ ⟨.closing, position'⟩ :: rest := by simp
      obtain ⟨r, hr, hterm, hrest⟩ :=
        readGroup_complete hreads hinner hsplit hbody ⟨.opening, position⟩
      exact ⟨r, (readOperand_opening c before position _ hne).trans hr, hterm, hrest⟩

/-- One operator and the operand behind it are put before what is read
    further on. -/
theorem readMore_operator {operand : TermReader} {op : Operator} {position : Nat}
    {ts : List Placed} {x : Reading ts} {more : MoreReading x.rest}
    (hx : operand (some ⟨.operator op, position⟩) ts = .ok x)
    (hmore : readMore operand x.last x.rest = .ok more) (last : Placed) :
    ∃ m, readMore operand last (⟨.operator op, position⟩ :: ts) = .ok m ∧
      m.items = (op, x.term) :: more.items ∧ m.rest = more.rest := by
  rw [readMore.eq_def]
  dsimp only
  rw [hx]
  dsimp only
  rw [hmore]
  exact ⟨_, rfl, rfl, rfl⟩

theorem readMore_of_noOperator (operand : TermReader) (last : Placed) {rest : List Placed}
    (hfit : NoOperator rest) :
    ∃ m, readMore operand last rest = .ok m ∧ m.items = [] ∧ m.rest = rest := by
  rw [readMore.eq_def]
  split
  · exact absurd (hfit _ rfl) (by simp [Token.isOperator])
  · exact ⟨_, rfl, rfl, rfl⟩

theorem readMore_complete {kind : Term → Prop} {operand : TermReader}
    (hoperand : ReadsAll operand kind fun _ => True) {rest : List Placed} (hfit : NoOperator rest)
    (items : List (Operator × Term)) :
    ∀ last ts front, (∀ x ∈ items, kind x.2) → ts = front ++ rest → bare front = tailTokens items →
      ∃ m, readMore operand last ts = .ok m ∧ m.items = items ∧ m.rest = rest := by
  induction items with
  | nil =>
    intro last ts front _ hts hfront
    obtain rfl := List.map_eq_nil_iff.mp hfront
    subst hts
    exact readMore_of_noOperator operand last hfit
  | cons item items ih =>
    intro last ts front hkind hts hfront
    obtain ⟨position, tail, rfl, htail⟩ := exists_of_bare_eq_cons hfront
    obtain ⟨front, back, rfl, hfront, hback⟩ := exists_of_bare_eq_append htail
    subst hts
    obtain ⟨r, hr, hterm, hrest⟩ :=
      hoperand (some ⟨.operator item.1, position⟩) (front ++ back ++ rest) front (back ++ rest)
        item.2 (hkind item (by simp)) (by simp) hfront trivial
    obtain ⟨m, hm, hitems, hmrest⟩ :=
      ih r.last r.rest back (fun y hy => hkind y (by simp [hy])) hrest hback
    obtain ⟨m', hm', hitems', hrest'⟩ := readMore_operator hr hm last
    exact ⟨m', hm', by rw [hitems', hterm, hitems], by rw [hrest', hmrest]⟩

theorem readChain_complete {room : Nat} {operand : TermReader}
    (hoperand : ReadsAll operand (Term.Operand room) fun _ => True) :
    ReadsAll (readChain operand) (Term.Phrase room) NoOperator := by
  intro before ts front rest t ht hts hfront hfit
  obtain ⟨hfirst, hmore⟩ := ht.spine
  rw [tokens_spine ht.stratified] at hfront
  obtain ⟨front, back, rfl, hfront, hback⟩ := exists_of_bare_eq_append hfront
  rw [List.append_assoc] at hts
  obtain ⟨r, hr, hterm, hrest⟩ := hoperand before ts front (back ++ rest) _ hfirst hts hfront trivial
  obtain ⟨m, hm, hitems, hmrest⟩ :=
    readMore_complete hoperand hfit t.spineMore r.last r.rest back hmore hrest hback
  unfold readChain
  rw [hr]
  dsimp only
  rw [hm]
  refine ⟨_, rfl, ?_, hmrest⟩
  rw [hterm, hitems, buildChain_spine ht.stratified]

theorem chainWithin_complete (room : Nat) :
    ReadsAll (chainWithin room) (Term.Phrase room) NoOperator := by
  induction room with
  | zero => exact readChain_complete (readOperand_complete nofun)
  | succ room ih =>
    refine readChain_complete (readOperand_complete ?_)
    intro room' hroom
    obtain rfl : room = room' := Nat.succ.inj hroom
    exact ⟨_, rfl, ih⟩

/-! ### The grammar -/

/-- A tree is read off a row exactly if the outermost chain is that tree and
    takes the whole row. -/
theorem treeOf_eq_ok {ts : List Placed} {t : Term} :
    treeOf ts = .ok t ↔
      ts ≠ [] ∧ ∃ r, chainWithin maxNesting none ts = .ok r ∧ r.term = t ∧ r.rest = [] := by
  cases ts with
  | nil => simp [treeOf]
  | cons x ts =>
    unfold treeOf
    cases hr : chainWithin maxNesting none (x :: ts) with
    | error complaint => simp
    | ok r =>
      simp only [List.isEmpty_cons, Bool.false_eq_true, if_false]
      split
      · simp_all
      · simp_all
      · simp_all

/-- The reader reads a tree off a row of tokens exactly if the tree derives
    them. -/
theorem treeOf_eq_ok_iff {ts : List Placed} {t : Term} :
    treeOf ts = .ok t ↔ t.Derives (bare ts) := by
  rw [Term.derives_iff, treeOf_eq_ok]
  constructor
  · rintro ⟨-, r, hr, rfl, hrest⟩
    obtain ⟨hphrase, htokens⟩ := chainWithin_sound _ _ _ _ hr
    rw [hrest, bare_nil, List.append_nil] at htokens
    exact ⟨hphrase, htokens.symm⟩
  · rintro ⟨hphrase, htokens⟩
    refine ⟨?_, chainWithin_complete _ none ts ts [] t hphrase (by simp) htokens.symm nofun⟩
    rintro rfl
    obtain ⟨first, more, hfirst, -⟩ := t.exists_tokens_eq_cons hphrase.wellFormed
    simp [htokens] at hfirst

/-- A row of tokens derives from one tree at most. -/
theorem Term.Derives.unique {ts : List Token} {t u : Term} (ht : t.Derives ts)
    (hu : u.Derives ts) : t = u := by
  have hts : bare (ts.map (⟨·, 0⟩)) = ts := by
    rw [bare, List.map_map]
    exact List.map_id ts
  rw [← hts] at ht hu
  exact Except.ok.inj ((treeOf_eq_ok_iff.mpr ht).symm.trans (treeOf_eq_ok_iff.mpr hu))

theorem parseTokens_eq_ok_iff {source : String} {ts : List Placed} {t : Term} :
    parseTokens source ts = .ok t ↔ treeOf ts = .ok t := by
  unfold parseTokens
  split <;> simp_all

/-- Tokens are refused for what is wrong with their tree. -/
theorem parseTokens_refuses_iff {source : String} {ts : List Placed} {f : Failure} :
    parseTokens source ts = .error f ↔
      ∃ c, treeOf ts = .error c ∧ f = .parse ⟨source, c.reason, c.position⟩ := by
  unfold parseTokens
  cases treeOf ts with
  | ok t => simp
  | error complaint => simp [eq_comm]

theorem parseTokens_eq_error_iff {source : String} {ts : List Placed} :
    (∃ reason position, parseTokens source ts = .error (.parse ⟨source, reason, position⟩)) ↔
      ∀ t, treeOf ts ≠ .ok t := by
  unfold parseTokens
  cases treeOf ts with
  | ok t => simp
  | error complaint => simp

/-- **The reader accepts exactly its grammar.**  A tree is read off a row of
    tokens if and only if it derives them, and a row from which no tree derives
    them is refused as a malformed formula.  The tree is the only one that
    derives the row. -/
theorem parseTokens_accepts_grammar (source : String) (ts : List Placed) :
    (∀ t, parseTokens source ts = .ok t ↔ t.Derives (bare ts)) ∧
      ((∃ reason position, parseTokens source ts = .error (.parse ⟨source, reason, position⟩)) ↔
        ∀ t : Term, ¬t.Derives (bare ts)) ∧
      ∀ t u : Term, t.Derives (bare ts) → u.Derives (bare ts) → t = u := by
  refine ⟨?_, ?_, ?_⟩
  · intro t
    rw [parseTokens_eq_ok_iff, treeOf_eq_ok_iff]
  · rw [parseTokens_eq_error_iff]
    constructor
    · intro h t ht
      exact h t (treeOf_eq_ok_iff.mpr ht)
    · intro h t ht
      exact h t (treeOf_eq_ok_iff.mp ht)
  · intro t u ht hu
    exact ht.unique hu

end KeyFigures
