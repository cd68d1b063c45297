/-
  KeyFigures/Proofs/Formula/Complaints.lean
  =========================================
  **What the readers of tokens complain about.**

  A reader points at a token of its row or at the one in front of it, with one
  exception: where the row ends and no operator stands in front of the end,
  there is nothing to point at.  Then the row ends right after an opening
  parenthesis that was gone into.  `StopsOpen` says so without the readers: the
  row is the beginning of the tokens of some tree, so that nothing is wrong up to
  the parenthesis and there is room for it.

  Both directions climb the readers as the grammar does.  `Complaint.Fits` is
  what holds of every complaint about a row (`chainWithin_fits`).  `RefusesOpen`
  says that what stops open is refused without a place
  (`chainWithin_refusesOpen`), part by part of the tree that goes on from it.
-/
import KeyFigures.Proofs.Formula.Grammar

namespace KeyFigures

/-! ### Rows that stop open -/

/-- The tokens end right after an opening parenthesis, and the row goes on from
    them. -/
structure StopsOpen (xs row : List Token) : Prop where
  ends : xs.getLast? = some .opening
  goesOn : xs <+: row

namespace StopsOpen

variable {xs row : List Token}

theorem ne_nil (h : StopsOpen xs row) : xs ≠ [] := by
  rintro rfl
  cases h.ends

theorem append_left (h : StopsOpen xs row) (front : List Token) :
    StopsOpen (front ++ xs) (front ++ row) := by
  refine ⟨?_, List.prefix_append_right_inj front |>.mpr h.goesOn⟩
  rw [List.getLast?_append, h.ends]
  rfl

theorem cons (h : StopsOpen xs row) (x : Token) : StopsOpen (x :: xs) (x :: row) :=
  h.append_left [x]

theorem append_right (h : StopsOpen xs row) (back : List Token) : StopsOpen xs (row ++ back) :=
  ⟨h.ends, h.goesOn.trans (List.prefix_append row back)⟩

theorem opening (row : List Token) : StopsOpen [.opening] (.opening :: row) :=
  ⟨rfl, List.prefix_append [.opening] row⟩

/-- In a row of two parts the tokens stop in the first one, or they take it
    whole and stop in the second one. -/
theorem append_cases {front back : List Token} (h : StopsOpen xs (front ++ back)) :
    StopsOpen xs front ∨ ∃ ys, xs = front ++ ys ∧ StopsOpen ys back := by
  obtain ⟨rest, hrest⟩ := h.goesOn
  rcases List.append_eq_append_iff.mp hrest with ⟨more, hfront, -⟩ | ⟨ys, hxs, hback⟩
  · exact .inl ⟨h.ends, more, hfront.symm⟩
  · by_cases hys : ys = []
    · rw [hys, List.append_nil] at hxs
      exact .inl ⟨h.ends, by rw [hxs]⟩
    · refine .inr ⟨ys, hxs, ?_, rest, hback.symm⟩
      have hends := h.ends
      rwa [hxs, List.getLast?_append_of_ne_nil _ hys] at hends

theorem cons_cases {x : Token} (h : StopsOpen xs (x :: row)) :
    xs = [.opening] ∧ x = .opening ∨ ∃ ys, xs = x :: ys ∧ StopsOpen ys row := by
  have hparts : StopsOpen xs ([x] ++ row) := h
  rcases hparts.append_cases with hfirst | hrest
  · left
    obtain ⟨rest, hrest⟩ := hfirst.goesOn
    rcases List.append_eq_singleton_iff.mp hrest with ⟨hnil, -⟩ | ⟨hxs, -⟩
    · exact absurd hnil hfirst.ne_nil
    · have hends := hfirst.ends
      rw [hxs] at hends
      obtain rfl : x = .opening := Option.some.inj hends
      exact ⟨hxs, rfl⟩
  · exact .inr hrest

theorem not_nil : ¬StopsOpen xs [] := fun h => h.ne_nil (List.prefix_nil.mp h.goesOn)

theorem eq_of_singleton {x : Token} (h : StopsOpen xs [x]) : x = .opening := by
  rcases h.cons_cases with ⟨-, hx⟩ | ⟨ys, -, hys⟩
  · exact hx
  · exact absurd hys not_nil

end StopsOpen

/-! ### What is left of a row -/

/-- What a reader leaves is the end of the row that it is given. -/
def LeavesEnd (read : TermReader) : Prop :=
  ∀ before ts r, read before ts = .ok r → r.rest <:+ ts

theorem readOperand_leavesEnd {chain : Option TermReader}
    (hchain : ∀ c, chain = some c → LeavesEnd c) : LeavesEnd (readOperand chain) := by
  intro before ts r h
  obtain ⟨x, rest, rfl, ⟨-, -, hrest⟩ | ⟨c, inner, position, -, hc, hinner, hrest, -⟩⟩ :=
    readOperand_eq_ok h
  · rw [hrest]
    exact List.suffix_cons x rest
  · have hend := hchain c hc _ _ _ hinner
    rw [hrest] at hend
    exact ((List.suffix_cons _ _).trans hend).trans (List.suffix_cons x rest)

theorem readMore_leavesEnd {operand : TermReader} (hoperand : LeavesEnd operand) (last : Placed)
    (ts : List Placed) : ∀ m, readMore operand last ts = .ok m → m.rest <:+ ts := by
  fun_induction readMore operand last ts with
  | case1 => simp
  | case2 => simp
  | case3 last op position rest x hx more hmore ih =>
    intro m h
    cases h
    exact ((ih _ hmore).trans (hoperand _ _ _ hx)).trans (List.suffix_cons _ rest)
  | case4 =>
    intro m h
    cases h
    exact List.suffix_rfl

theorem readChain_leavesEnd {operand : TermReader} (hoperand : LeavesEnd operand) :
    LeavesEnd (readChain operand) := by
  intro before ts r h
  obtain ⟨first, more, hfirst, hmore, -, hrest⟩ := readChain_eq_ok h
  rw [hrest]
  exact (readMore_leavesEnd hoperand _ _ _ hmore).trans (hoperand _ _ _ hfirst)

theorem chainWithin_leavesEnd (room : Nat) : LeavesEnd (chainWithin room) := by
  induction room with
  | zero => exact readChain_leavesEnd (readOperand_leavesEnd nofun)
  | succ room ih =>
    refine readChain_leavesEnd (readOperand_leavesEnd ?_)
    intro c hc
    obtain rfl : chainWithin room = c := Option.some.inj hc
    exact ih

/-! ### What complaints point at -/

/-- The tokens of a row stop open in a tree of a kind. -/
def LeavesOpen (kind : Term → Prop) (ts : List Placed) : Prop :=
  ∃ t, kind t ∧ StopsOpen (bare ts) t.tokens

/-- A complaint points at a token of the row or at the one in front of it; or it
    points nowhere, and the row is empty with no operator in front of it or
    stops open. -/
structure Complaint.Fits (c : Complaint) (kind : Term → Prop) (before : Option Placed)
    (ts : List Placed) : Prop where
  points : ∀ p ∈ c.position, ∃ x ∈ before.toList ++ ts, x.position = p
  silent : c.position = none →
    ts = [] ∧ (∀ x ∈ before, x.token.isOperator = false) ∨ LeavesOpen kind ts

theorem Complaint.Fits.of_mem {c : Complaint} {kind : Term → Prop} {before : Option Placed}
    {ts : List Placed} {x : Placed} (h : c.position = some x.position)
    (hx : x ∈ before.toList ++ ts) : c.Fits kind before ts := by
  constructor
  · intro p hp
    obtain rfl := Option.some.inj (h.symm.trans hp)
    exact ⟨x, hx, rfl⟩
  · intro hnone
    cases h.symm.trans hnone

/-- Every complaint of a reader of a kind fits. -/
def Complains (read : TermReader) (kind : Term → Prop) : Prop :=
  ∀ before ts c, read before ts = .error c → c.Fits kind before ts

theorem endComplaint_fits (kind : Term → Prop) (before : Option Placed) :
    (endComplaint before).Fits kind before [] := by
  cases before with
  | none => exact ⟨nofun, fun _ => .inl ⟨rfl, nofun⟩⟩
  | some x =>
    obtain ⟨token, position⟩ := x
    by_cases hoperator : token.isOperator = true
    · cases token with
      | operator op => exact .of_mem rfl (List.mem_singleton.mpr rfl)
      | _ => cases hoperator
    · have hsilent : endComplaint (some ⟨token, position⟩) = ⟨.missingClose, none⟩ := by
        cases token with
        | operator op => exact absurd rfl hoperator
        | _ => rfl
      rw [hsilent]
      refine ⟨nofun, fun _ => .inl ⟨rfl, ?_⟩⟩
      intro x hx
      obtain rfl := Option.some.inj hx
      exact Bool.eq_false_iff.mpr hoperator

theorem operatorComplaint_position (before : Option Placed) (op : Operator) (position : Nat) :
    (operatorComplaint before op position).position = some position := by
  unfold operatorComplaint
  split <;> rfl

theorem closingComplaint_position (before : Option Placed) (position : Nat) :
    (closingComplaint before position).position = some position := by
  unfold closingComplaint
  split <;> rfl

/-- A complaint from inside parentheses that points nowhere leaves them open. -/
theorem Complaint.Fits.leavesOpen {c : Complaint} {room : Nat} {opening : Placed}
    {ts : List Placed} (h : c.Fits (Term.Phrase room) (some opening) ts)
    (hopening : opening.token = .opening) (hnone : c.position = none) :
    LeavesOpen (Term.Operand (room + 1)) (opening :: ts) := by
  have hzero : (Term.constant .zero).Phrase room := ⟨trivial, trivial, Nat.zero_le _⟩
  rcases h.silent hnone with ⟨rfl, -⟩ | ⟨t, ht, hstops⟩
  · refine ⟨_, Term.operand_grouping_iff.mpr hzero, ?_⟩
    rw [bare_cons, hopening]
    exact .opening _
  · refine ⟨_, Term.operand_grouping_iff.mpr ht, ?_⟩
    rw [bare_cons, hopening]
    exact (hstops.append_right [.closing]).cons .opening

theorem readGroup_fits {room : Nat} {chain : TermReader} (hend : LeavesEnd chain)
    (hchain : Complains chain (Term.Phrase room)) {before : Option Placed} {opening : Placed}
    {ts : List Placed} {c : Complaint} (hopening : opening.token = .opening)
    (h : readGroup chain opening ts = .error c) :
    c.Fits (Term.Operand (room + 1)) before (opening :: ts) := by
  rcases readGroup_eq_error h with hinner | ⟨inner, hinner, x, hx, hposition⟩
  · have hfits := hchain _ _ _ hinner
    refine ⟨?_, fun hnone => .inr (hfits.leavesOpen hopening hnone)⟩
    intro p hp
    obtain ⟨x, hx, hposition⟩ := hfits.points p hp
    exact ⟨x, List.mem_append_right _ hx, hposition⟩
  · refine .of_mem hposition (List.mem_append_right _ ?_)
    exact List.cons_subset_cons opening (hend _ _ _ hinner).subset hx

theorem readOperand_fits {room : Nat} {chain : Option TermReader}
    (hchain : ∀ c, chain = some c →
      ∃ room', room = room' + 1 ∧ LeavesEnd c ∧ Complains c (Term.Phrase room')) :
    Complains (readOperand chain) (Term.Operand room) := by
  intro before ts c h
  match ts with
  | [] =>
    obtain rfl := Except.error.inj h
    exact endComplaint_fits _ before
  | ⟨token, position⟩ :: rest =>
    have hfirst : ⟨token, position⟩ ∈ before.toList ++ ⟨token, position⟩ :: rest :=
      List.mem_append_right _ List.mem_cons_self
    cases token with
    | number value => cases h
    | account ref => cases h
    | formula id => cases h
    | operator op =>
      obtain rfl := Except.error.inj h
      exact .of_mem (operatorComplaint_position before op position) hfirst
    | closing =>
      obtain rfl := Except.error.inj h
      exact .of_mem (closingComplaint_position before position) hfirst
    | opening =>
      simp only [readOperand] at h
      split at h
      · cases h
        exact .of_mem rfl (List.mem_append_right _ (List.mem_cons_of_mem _ List.mem_cons_self))
      · cases h
        exact .of_mem rfl hfirst
      · obtain ⟨room', rfl, hend, hc⟩ := hchain _ rfl
        exact readGroup_fits hend hc rfl h

theorem readMore_fits {room : Nat} {operand : TermReader} (hend : LeavesEnd operand)
    (hreads : ReadsOnly operand (Term.Operand room))
    (hoperand : Complains operand (Term.Operand room)) (last : Placed) (ts : List Placed) :
    ∀ c, readMore operand last ts = .error c →
      (∀ p ∈ c.position, ∃ x ∈ ts, x.position = p) ∧
        (c.position = none → ∃ items : List (Operator × Term),
          (∀ x ∈ items, x.2.Operand room) ∧ StopsOpen (bare ts) (tailTokens items)) := by
  fun_induction readMore operand last ts with
  | case1 last op position rest complaint hcomplaint =>
    intro c h
    cases h
    have hfits := hoperand _ _ _ hcomplaint
    refine ⟨hfits.points, fun hnone => ?_⟩
    rcases hfits.silent hnone with ⟨-, hoperator⟩ | ⟨t, ht, hstops⟩
    · cases hoperator _ rfl
    · refine ⟨[(op, t)], List.forall_mem_singleton.mpr ht, ?_⟩
      simpa [tailTokens] using hstops.cons (.operator op)
  | case2 last op position rest x hx complaint hcomplaint ih =>
    intro c h
    cases h
    obtain ⟨hpoints, hsilent⟩ := ih _ hcomplaint
    obtain ⟨hkind, htokens⟩ := hreads _ _ _ hx
    constructor
    · intro p hp
      obtain ⟨y, hy, hposition⟩ := hpoints p hp
      exact ⟨y, List.mem_cons_of_mem _ ((hend _ _ _ hx).subset hy), hposition⟩
    · intro hnone
      obtain ⟨items, hitems, hstops⟩ := hsilent hnone
      refine ⟨(op, x.term) :: items, List.forall_mem_cons.mpr ⟨hkind, hitems⟩, ?_⟩
      have hmore := (hstops.append_left x.term.tokens).cons (.operator op)
      simpa [tailTokens, htokens] using hmore
  | case3 => simp
  | case4 => simp

theorem readChain_fits {room : Nat} {operand : TermReader} (hend : LeavesEnd operand)
    (hreads : ReadsOnly operand (Term.Operand room))
    (hoperand : Complains operand (Term.Operand room)) :
    Complains (readChain operand) (Term.Phrase room) := by
  intro before ts c h
  rcases readChain_eq_error h with hfirst | ⟨first, hfirst, hmore⟩
  · have hfits := hoperand _ _ _ hfirst
    refine ⟨hfits.points, fun hnone => ?_⟩
    rcases hfits.silent hnone with hempty | ⟨t, ht, hstops⟩
    · exact .inl hempty
    · exact .inr ⟨t, ht.toPhrase, hstops⟩
  · obtain ⟨hkind, htokens⟩ := hreads _ _ _ hfirst
    obtain ⟨hpoints, hsilent⟩ := readMore_fits hend hreads hoperand _ _ _ hmore
    constructor
    · intro p hp
      obtain ⟨x, hx, hposition⟩ := hpoints p hp
      exact ⟨x, List.mem_append_right _ ((hend _ _ _ hfirst).subset hx), hposition⟩
    · intro hnone
      obtain ⟨items, hitems, hstops⟩ := hsilent hnone
      refine .inr ⟨_, buildChain_phrase hkind hitems, ?_⟩
      rw [htokens, buildChain_tokens]
      exact hstops.append_left first.term.tokens

theorem chainWithin_fits (room : Nat) : Complains (chainWithin room) (Term.Phrase room) := by
  induction room with
  | zero =>
    exact readChain_fits (readOperand_leavesEnd nofun) (readOperand_sound nofun)
      (readOperand_fits nofun)
  | succ room ih =>
    have hinner : ∀ c, some (chainWithin room) = some c → chainWithin room = c :=
      fun c hc => Option.some.inj hc
    refine readChain_fits (readOperand_leavesEnd ?_) (readOperand_sound ?_) (readOperand_fits ?_)
    · intro c hc
      rw [← hinner c hc]
      exact chainWithin_leavesEnd room
    · intro c hc
      rw [← hinner c hc]
      exact ⟨room, rfl, chainWithin_sound room⟩
    · intro c hc
      rw [← hinner c hc]
      exact ⟨room, rfl, chainWithin_leavesEnd room, ih⟩

/-! ### What stops open is refused without a place -/

/-- A reader refuses every row that stops open in a tree of a kind, and an empty
    one behind an opening parenthesis, without a place. -/
structure RefusesOpen (read : TermReader) (kind : Term → Prop) : Prop where
  empty : ∀ position, read (some ⟨.opening, position⟩) [] = .error ⟨.missingClose, none⟩
  stops : ∀ before ts t, kind t → StopsOpen (bare ts) t.tokens →
    read before ts = .error ⟨.missingClose, none⟩

theorem readGroup_of_error {chain : TermReader} {opening : Placed} {ts : List Placed}
    {c : Complaint} (h : chain (some opening) ts = .error c) :
    readGroup chain opening ts = .error c := by
  unfold readGroup
  rw [h]

theorem readOperand_refusesOpen {room : Nat} {chain : Option TermReader}
    (hchain : ∀ room', room = room' + 1 →
      ∃ c, chain = some c ∧ RefusesOpen c (Term.Phrase room')) :
    RefusesOpen (readOperand chain) (Term.Operand room) := by
  refine ⟨fun _ => rfl, ?_⟩
  intro before ts t ht hstops
  cases t with
  | constant value => cases hstops.eq_of_singleton
  | account ref => cases hstops.eq_of_singleton
  | formula id => cases hstops.eq_of_singleton
  | binary left op right => cases ht.precedence?_eq
  | unsupported => exact ht.wellFormed.elim
  | foreign => exact ht.wellFormed.elim
  | grouping inner =>
    cases room with
    | zero => exact absurd ht.nesting_le (Nat.not_succ_le_zero _)
    | succ room =>
      obtain ⟨c, rfl, hrefuses⟩ := hchain room rfl
      have hinner : inner.Phrase room := Term.operand_grouping_iff.mp ht
      rcases hstops.cons_cases with ⟨hts, -⟩ | ⟨ys, hts, hys⟩
      · -- the row is the opening parenthesis alone
        obtain ⟨position, rest, rfl, hnil⟩ := exists_of_bare_eq_cons hts
        obtain rfl := List.map_eq_nil_iff.mp hnil
        exact readGroup_of_error (hrefuses.empty position)
      · -- the closing one is not reached, since it is no opening one
        obtain ⟨position, rest, rfl, rfl⟩ := exists_of_bare_eq_cons hts
        have hstopsInner : StopsOpen (bare rest) inner.tokens := by
          rcases hys.append_cases with h | ⟨zs, -, hclosing⟩
          · exact h
          · cases hclosing.eq_of_singleton
        -- the group is not empty, so the reader goes inside
        obtain ⟨first, more, hfirst, hne⟩ := inner.exists_tokens_eq_cons hinner.wellFormed
        have hhead : ∃ x body, rest = x :: body ∧ x.token ≠ .closing := by
          rw [hfirst] at hstopsInner
          rcases hstopsInner.cons_cases with ⟨hrest, -⟩ | ⟨zs, hrest, -⟩
          · obtain ⟨p, body, rfl, -⟩ := exists_of_bare_eq_cons hrest
            exact ⟨_, body, rfl, nofun⟩
          · obtain ⟨p, body, rfl, -⟩ := exists_of_bare_eq_cons hrest
            exact ⟨_, body, rfl, hne⟩
        obtain ⟨x, body, rfl, hx⟩ := hhead
        rw [readOperand_opening c before position body hx]
        exact readGroup_of_error (hrefuses.stops _ _ _ hinner hstopsInner)

theorem readMore_of_operand_error {operand : TermReader} {op : Operator} {position : Nat}
    {ts : List Placed} {c : Complaint}
    (h : operand (some ⟨.operator op, position⟩) ts = .error c) (last : Placed) :
    readMore operand last (⟨.operator op, position⟩ :: ts) = .error c := by
  rw [readMore.eq_def]
  dsimp only
  rw [h]

theorem readMore_of_more_error {operand : TermReader} {op : Operator} {position : Nat}
    {ts : List Placed} {x : Reading ts} {c : Complaint}
    (hx : operand (some ⟨.operator op, position⟩) ts = .ok x)
    (h : readMore operand x.last x.rest = .error c) (last : Placed) :
    readMore operand last (⟨.operator op, position⟩ :: ts) = .error c := by
  rw [readMore.eq_def]
  dsimp only
  rw [hx]
  dsimp only
  rw [h]

theorem readMore_refusesOpen {kind : Term → Prop} {operand : TermReader}
    (hreads : ReadsAll operand kind fun _ => True) (hoperand : RefusesOpen operand kind)
    (items : List (Operator × Term)) :
    ∀ last ts, (∀ x ∈ items, kind x.2) → StopsOpen (bare ts) (tailTokens items) →
      readMore operand last ts = .error ⟨.missingClose, none⟩ := by
  induction items with
  | nil =>
    intro last ts _ hstops
    exact absurd hstops StopsOpen.not_nil
  | cons item items ih =>
    intro last ts hkind hstops
    obtain ⟨hitem, hkind⟩ := List.forall_mem_cons.mp hkind
    have htokens : tailTokens (item :: items) =
        .operator item.1 :: (item.2.tokens ++ tailTokens items) := by
      simp [tailTokens]
    rw [htokens] at hstops
    rcases hstops.cons_cases with ⟨-, hopening⟩ | ⟨ys, hts, hys⟩
    · cases hopening
    · obtain ⟨position, rest, rfl, rfl⟩ := exists_of_bare_eq_cons hts
      rcases hys.append_cases with hfirst | ⟨zs, hrest, hback⟩
      · exact readMore_of_operand_error (hoperand.stops _ rest item.2 hitem hfirst) last
      · obtain ⟨front, back, rfl, hfront, rfl⟩ := exists_of_bare_eq_append hrest
        obtain ⟨x, hx, -, hxrest⟩ := hreads _ _ front back item.2 hitem rfl hfront trivial
        refine readMore_of_more_error hx ?_ last
        rw [hxrest]
        exact ih x.last back hkind hback

theorem readChain_refusesOpen {room : Nat} {operand : TermReader}
    (hreads : ReadsAll operand (Term.Operand room) fun _ => True)
    (hoperand : RefusesOpen operand (Term.Operand room)) :
    RefusesOpen (readChain operand) (Term.Phrase room) := by
  constructor
  · intro position
    unfold readChain
    rw [hoperand.empty position]
  · intro before ts t ht hstops
    obtain ⟨hfirst, hmore⟩ := ht.spine
    rw [tokens_spine ht.stratified] at hstops
    unfold readChain
    rcases hstops.append_cases with hfront | ⟨ys, hts, hback⟩
    · rw [hoperand.stops before ts _ hfirst hfront]
    · obtain ⟨front, back, rfl, hfront, rfl⟩ := exists_of_bare_eq_append hts
      obtain ⟨x, hx, -, hxrest⟩ := hreads before _ front back _ hfirst rfl hfront trivial
      have hrefused : readMore operand x.last x.rest = .error ⟨.missingClose, none⟩ := by
        rw [hxrest]
        exact readMore_refusesOpen hreads hoperand t.spineMore x.last back hmore hback
      rw [hx]
      dsimp only
      rw [hrefused]

theorem chainWithin_refusesOpen (room : Nat) :
    RefusesOpen (chainWithin room) (Term.Phrase room) := by
  induction room with
  | zero => exact readChain_refusesOpen (readOperand_complete nofun) (readOperand_refusesOpen nofun)
  | succ room ih =>
    refine readChain_refusesOpen (readOperand_complete ?_) (readOperand_refusesOpen ?_)
    · intro room' hroom
      obtain rfl : room = room' := Nat.succ.inj hroom
      exact ⟨_, rfl, chainWithin_complete room⟩
    · intro room' hroom
      obtain rfl : room = room' := Nat.succ.inj hroom
      exact ⟨_, rfl, ih⟩

/-! ### Rows that are no tree -/

/-- What is wrong with a row that is no tree fits the whole of it: behind a tree
    the first token that is left over is pointed at. -/
theorem treeOf_fits {ts : List Placed} {c : Complaint} (h : treeOf ts = .error c) :
    c.Fits (Term.Phrase maxNesting) none ts := by
  cases ts with
  | nil =>
    obtain rfl := Except.error.inj h
    exact ⟨nofun, fun _ => .inl ⟨rfl, nofun⟩⟩
  | cons x ts =>
    unfold treeOf at h
    simp only [List.isEmpty_cons, Bool.false_eq_true, if_false] at h
    cases hr : chainWithin maxNesting none (x :: ts) with
    | error complaint =>
      rw [hr] at h
      obtain rfl := Except.error.inj h
      exact chainWithin_fits maxNesting _ _ _ hr
    | ok r =>
      have hend := chainWithin_leavesEnd maxNesting _ _ _ hr
      rw [hr] at h
      dsimp only at h
      split at h
      · cases h
      · rename_i hrest
        cases h
        rw [hrest] at hend
        exact .of_mem rfl (hend.subset List.mem_cons_self)
      · rename_i hrest
        cases h
        rw [hrest] at hend
        exact .of_mem rfl (hend.subset List.mem_cons_self)

/-- A row that stops open is refused without a place. -/
theorem treeOf_of_leavesOpen {ts : List Placed} (h : LeavesOpen (Term.Phrase maxNesting) ts) :
    treeOf ts = .error ⟨.missingClose, none⟩ := by
  obtain ⟨t, ht, hstops⟩ := h
  cases ts with
  | nil => exact absurd rfl hstops.ne_nil
  | cons x ts =>
    unfold treeOf
    rw [(chainWithin_refusesOpen maxNesting).stops _ _ t ht hstops]
    rfl

end KeyFigures
