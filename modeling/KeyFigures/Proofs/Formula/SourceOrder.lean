/-
  KeyFigures/Proofs/Formula/SourceOrder.lean
  ==========================================
  **A tree is walked in the order of its source.**

  The references that are listed for a formula come from a walk with a stack.
  `StackWalk.turn` is one turn of its loop: the top of the stack is met, and its
  parts take its place.  Each turn takes one node off what is still to come and
  keeps what has been met followed by what is still to come
  (`met_append_visit_turns`), so that the walk ends after as many turns as the
  tree has nodes.

  What a node is says `Term.at?`: a place in the tree, given by the parts that
  lead to it.  The walk meets the places of a tree in the order of a dictionary:
  a part comes behind the whole, and what is left before what is right.

  The leaves come in the order of the tokens (`Term.filterMap_leafToken?`), and a
  tree that is read has the tokens of its source.
-/
import KeyFigures.Proofs.Formula.Described
import KeyFigures.Proofs.Formula.Spacing
import KeyFigures.Proofs.Formula.Traversal

namespace KeyFigures

/-! ### The walk turn by turn -/

/-- A walk under way: the stack, its top first, and the nodes met so far. -/
structure StackWalk where
  stack : List Term
  met : List Term

namespace Term

theorem stackSize_children (t : Term) (rest : List Term) :
    stackSize (t.children ++ rest) + 1 = stackSize (t :: rest) := by
  cases t <;> simp [stackSize, children, size] <;> omega

/-- The walk meets as many nodes as the trees on the stack have. -/
theorem length_visit (stack : List Term) : (visit stack).length = stackSize stack := by
  induction stack using visit.induct with
  | case1 => rw [visit, stackSize, List.foldr_nil, List.length_nil]
  | case2 t rest ih => rw [visit, List.length_cons, ih, stackSize_children]

theorem stackSize_eq_zero_iff {stack : List Term} : stackSize stack = 0 ↔ stack = [] := by
  cases stack with
  | nil => simp [stackSize]
  | cons t rest =>
    have hchildren := stackSize_children t rest
    constructor
    · intro hzero
      omega
    · intro hnil
      cases hnil

end Term

namespace StackWalk

open Term

def start (t : Term) : StackWalk := ⟨[t], []⟩

/-- One turn of the loop: the top of the stack is met and its parts take its
    place.  With an empty stack the loop is over. -/
def turn : StackWalk → StackWalk
  | ⟨[], met⟩ => ⟨[], met⟩
  | ⟨t :: rest, met⟩ => ⟨t.children ++ rest, met ++ [t]⟩

/-- A turn keeps what has been met followed by what is still to come. -/
theorem met_append_visit_turn (w : StackWalk) :
    w.turn.met ++ visit w.turn.stack = w.met ++ visit w.stack := by
  obtain ⟨stack, met⟩ := w
  cases stack with
  | nil => rfl
  | cons t rest =>
    have hvisit : visit (t :: rest) = t :: visit (t.children ++ rest) := by rw [visit]
    simp [turn, hvisit]

/-- A turn takes one node off what is still to come. -/
theorem stackSize_turn (w : StackWalk) : stackSize w.turn.stack = stackSize w.stack - 1 := by
  obtain ⟨stack, met⟩ := w
  cases stack with
  | nil => rfl
  | cons t rest =>
    have hchildren := stackSize_children t rest
    simp only [turn]
    omega

theorem met_append_visit_turns (t : Term) (n : Nat) :
    (turn^[n] (start t)).met ++ visit (turn^[n] (start t)).stack = t.nodes := by
  induction n with
  | zero => rfl
  | succ n ih => rw [Function.iterate_succ_apply', met_append_visit_turn, ih]

theorem stackSize_turns (t : Term) (n : Nat) :
    stackSize (turn^[n] (start t)).stack = t.size - n := by
  induction n with
  | zero => rfl
  | succ n ih => rw [Function.iterate_succ_apply', stackSize_turn, ih, Nat.sub_sub]

/-- The walk is over after as many turns as the tree has nodes, and not
    before. -/
theorem stack_turns_eq_nil_iff (t : Term) (n : Nat) :
    (turn^[n] (start t)).stack = [] ↔ t.size ≤ n := by
  rw [← stackSize_eq_zero_iff, stackSize_turns, Nat.sub_eq_zero_iff_le]

/-- Each turn meets the next node. -/
theorem met_turns (t : Term) (n : Nat) : (turn^[n] (start t)).met = t.nodes.take n := by
  have hall := met_append_visit_turns t n
  have hsize : t.nodes.length = t.size := length_visit [t]
  have hlength : (turn^[n] (start t)).met.length + (t.size - n) = t.size := by
    rw [← stackSize_turns t n, ← length_visit, ← List.length_append, hall, hsize]
  by_cases hn : n ≤ t.size
  · have hmet : (turn^[n] (start t)).met.length = n := by omega
    rw [← hall, List.take_left' hmet]
  · have hstack : (turn^[n] (start t)).stack = [] := (stack_turns_eq_nil_iff t n).mpr (by omega)
    rw [hstack, visit, List.append_nil] at hall
    rw [hall, List.take_of_length_le (by omega)]

end StackWalk

/-! ### Places in a tree -/

namespace Term

/-- The node at a place: from the root, each number says which part to go to. -/
def at? (t : Term) : List Nat → Option Term
  | [] => some t
  | i :: path => t.children[i]?.bind fun part => part.at? path

/-- The places of a tree, a node before its parts and the parts from left to
    right. -/
def places : Term → List (List Nat)
  | .binary left _ right => [] :: (left.places.map (0 :: ·) ++ right.places.map (1 :: ·))
  | .unsupported left _ right => [] :: (left.places.map (0 :: ·) ++ right.places.map (1 :: ·))
  | .grouping inner => [] :: inner.places.map (0 :: ·)
  | _ => [[]]

/-- All places of a tree are listed, and nothing else. -/
theorem mem_places_iff {t : Term} {place : List Nat} :
    place ∈ t.places ↔ (t.at? place).isSome = true := by
  induction t generalizing place with
  | binary left op right ihl ihr | unsupported left op right ihl ihr =>
    cases place with
    | nil => simp [places, at?]
    | cons i path =>
      rcases i with _ | _ | i
      · simp [places, at?, children, ihl]
      · simp [places, at?, children, ihr]
      · simp [places, at?, children]
  | grouping inner ih =>
    cases place with
    | nil => simp [places, at?]
    | cons i path =>
      cases i with
      | zero => simp [places, at?, children, ih]
      | succ i => simp [places, at?, children]
  | account | constant | formula | foreign =>
    cases place with
    | nil => simp [places, at?]
    | cons i path => simp [places, at?, children]

theorem pairwise_cons_places {places : List (List Nat)} (h : places.Pairwise (· < ·)) (i : Nat) :
    (places.map (i :: ·)).Pairwise (· < ·) :=
  List.pairwise_map.mpr (h.imp fun hlt => List.cons_lt_cons_iff.mpr (.inr ⟨rfl, hlt⟩))

/-- The places are listed in the order of a dictionary. -/
theorem pairwise_places (t : Term) : t.places.Pairwise (· < ·) := by
  induction t with
  | binary left op right ihl ihr | unsupported left op right ihl ihr =>
    refine List.pairwise_cons.mpr ⟨?_, List.pairwise_append.mpr
      ⟨pairwise_cons_places ihl 0, pairwise_cons_places ihr 1, ?_⟩⟩
    · intro place hplace
      rcases List.mem_append.mp hplace with hplace | hplace
      · obtain ⟨path, -, rfl⟩ := List.mem_map.mp hplace
        exact List.nil_lt_cons _ _
      · obtain ⟨path, -, rfl⟩ := List.mem_map.mp hplace
        exact List.nil_lt_cons _ _
    · intro first hfirst second hsecond
      obtain ⟨path, -, rfl⟩ := List.mem_map.mp hfirst
      obtain ⟨path', -, rfl⟩ := List.mem_map.mp hsecond
      exact List.cons_lt_cons_iff.mpr (.inl Nat.zero_lt_one)
  | grouping inner ih =>
    refine List.pairwise_cons.mpr ⟨?_, pairwise_cons_places ih 0⟩
    intro place hplace
    obtain ⟨path, -, rfl⟩ := List.mem_map.mp hplace
    exact List.nil_lt_cons _ _
  | account | constant | formula | foreign => exact List.pairwise_singleton _ _

/-- The walk meets the node of each place in turn. -/
theorem nodes_eq_places (t : Term) : t.nodes.map some = t.places.map t.at? := by
  rw [nodes_eq_preorder]
  induction t with
  | binary left op right ihl ihr | unsupported left op right ihl ihr =>
    simp [preorder, places, at?, children, ihl, ihr, Function.comp_def]
  | grouping inner ih => simp [preorder, places, at?, children, ih, Function.comp_def]
  | account | constant | formula | foreign => rfl

end Term

/-! ### References in the order of the tokens -/

/-- A tree refers to the accounts and to the formulas of a row of tokens, to each
    as often as it stands there and in the order of the row. -/
structure Term.RefersTo (t : Term) (ts : List Placed) : Prop where
  accounts : t.accountReferences = ts.filterMap fun x => x.token.account?
  formulas : t.formulaReferences = ts.filterMap fun x => x.token.formula?

theorem refersTo_of_treeOf {ts : List Placed} {t : Term} (h : treeOf ts = .ok t) :
    t.RefersTo ts := by
  have ht := treeOf_eq_ok_iff.mp h
  constructor
  · rw [Term.accountReferences_eq_tokens ht.wellFormed, ht.tokens_eq, bare, List.filterMap_map]
    rfl
  · rw [Term.formulaReferences_eq_tokens ht.wellFormed, ht.tokens_eq, bare, List.filterMap_map]
    rfl

/-- The tokens of entries stand in the order of the entries. -/
theorem entryTokens_ordered {source : String} {entries : List Entry} :
    ∀ {index : Nat} {ts : List Placed}, entryTokens source index entries = .ok ts →
      (ts.map Placed.position).Pairwise (· ≤ ·) ∧ ∀ x ∈ ts, index ≤ x.position := by
  induction entries with
  | nil =>
    intro index ts h
    cases h
    exact ⟨.nil, List.forall_mem_nil _⟩
  | cons e rest ih =>
    intro index ts h
    obtain ⟨own, hown, h⟩ := Attempt.bind_eq_ok.mp h
    obtain ⟨more, hmore, h⟩ := Attempt.bind_eq_ok.mp h
    cases h
    obtain ⟨token, -, hown⟩ := Attempt.bind_eq_ok.mp hown
    cases hown
    obtain ⟨hordered, hle⟩ := ih hmore
    have hindex : ∀ x ∈ (e.operator.map fun op => ⟨.operator op, index⟩).toList ++
        [(⟨token, index⟩ : Placed)], x.position = index := by
      cases e.operator <;> simp
    constructor
    · rw [List.map_append]
      refine List.pairwise_append.mpr ⟨?_, hordered, ?_⟩
      · refine List.pairwise_map.mpr (List.pairwise_of_forall_mem_list ?_)
        intro x hx y hy
        rw [hindex x hx, hindex y hy]
      · intro p hp q hq
        obtain ⟨x, hx, rfl⟩ := List.mem_map.mp hp
        obtain ⟨y, hy, rfl⟩ := List.mem_map.mp hq
        have := hle y hy
        rw [hindex x hx]
        omega
    · intro x hx
      rcases List.mem_append.mp hx with hx | hx
      · exact (hindex x hx).ge
      · have := hle x hx
        omega

/-- **Lists of references follow the source.**  The account references of a tree
    that is read from text or from entries are the account tokens of the source,
    and its formula references the formula tokens, with repeats and in the order
    of the source.  The walk through any tree meets its nodes in preorder, one a
    turn, until after as many turns as there are nodes the stack is empty; and
    it meets every place of the tree once, in the order of a dictionary. -/
theorem references_follow_source :
    (∀ s t, parseText s = .ok t →
      ∃ ts, tokenize s = .ok ts ∧ t.RefersTo ts ∧ (ts.map Placed.position).Pairwise (· < ·)) ∧
    (∀ entries t, parseEntries entries = .ok t →
      ∃ ts, entryTokens (describeEntries entries) 0 entries = .ok ts ∧ t.RefersTo ts ∧
        (ts.map Placed.position).Pairwise (· ≤ ·)) ∧
    (∀ source t, parseSource source = .ok t →
      (∃ s, source = .text s ∧ parseText s = .ok t) ∨
        ∃ items entries, source.items? = some items ∧ readEntries items = .ok entries ∧
          parseEntries entries = .ok t) ∧
    ∀ t : Term, t.nodes = t.preorder ∧
      (∀ n, (StackWalk.turn^[n] (StackWalk.start t)).met = t.nodes.take n ∧
        ((StackWalk.turn^[n] (StackWalk.start t)).stack = [] ↔ t.size ≤ n)) ∧
      t.nodes.map some = t.places.map t.at? ∧ t.places.Pairwise (· < ·) ∧
      ∀ place, place ∈ t.places ↔ (t.at? place).isSome = true := by
  refine ⟨?_, ?_, fun _ _ h => parseSource_text_or_entries h, ?_⟩
  · intro s t h
    obtain ⟨ts, hts, htree⟩ := Attempt.bind_eq_ok.mp h
    obtain ⟨ls, hls, rfl⟩ := scan_eq_ok_iff.mp hts
    refine ⟨_, hts, refersTo_of_treeOf (parseTokens_eq_ok_iff.mp htree), ?_⟩
    rw [List.map_map]
    exact hls.pairwise_position
  · intro entries t h
    obtain ⟨ts, hts, htree⟩ := parseEntries_eq_ok_iff.mp h
    exact ⟨ts, hts, refersTo_of_treeOf htree, (entryTokens_ordered hts).1⟩
  · intro t
    refine ⟨t.nodes_eq_preorder, ?_, t.nodes_eq_places, t.pairwise_places, ?_⟩
    · intro n
      exact ⟨StackWalk.met_turns t n, StackWalk.stack_turns_eq_nil_iff t n⟩
    · intro place
      exact Term.mem_places_iff

/-- An account and a formula that are named twice in a text, and a range and a
    formula in a list of entries. -/
theorem references_follow_source_repeats :
    (∃ t, parseText "([10] + \x7bnet\x7d) * [10] / \x7bnet\x7d" = .ok t ∧
      t.accountReferences = [.starting (.text "10"), .starting (.text "10")] ∧
      t.formulaReferences = [.text "net", .text "net"]) ∧
    ∃ t, parseSource (.list shareItems) = .ok t ∧
      t.accountReferences = [.between (.text "19") (.text "79")] ∧
      t.formulaReferences = [.text "net.sales"] := by
  constructor
  · have htree : parseText "([10] + \x7bnet\x7d) * [10] / \x7bnet\x7d" = .ok
        (.binary (.binary (.grouping (.binary (.account (.starting (.text "10"))) .add
          (.formula (.text "net")))) .mul (.account (.starting (.text "10")))) .div
          (.formula (.text "net"))) := by cbv
    have htokens : tokenize "([10] + \x7bnet\x7d) * [10] / \x7bnet\x7d" = .ok
        [⟨.opening, 0⟩, ⟨.account (.starting (.text "10")), 1⟩, ⟨.operator .add, 6⟩,
          ⟨.formula (.text "net"), 8⟩, ⟨.closing, 13⟩, ⟨.operator .mul, 15⟩,
          ⟨.account (.starting (.text "10")), 17⟩, ⟨.operator .div, 22⟩,
          ⟨.formula (.text "net"), 24⟩] := by cbv
    obtain ⟨ts, hts, hrefers, -⟩ := references_follow_source.1 _ _ htree
    obtain rfl := Except.ok.inj (htokens.symm.trans hts)
    exact ⟨_, htree, hrefers.accounts, hrefers.formulas⟩
  · have htree : parseSource (.list shareItems) = .ok
        (.binary (.account (.between (.text "19") (.text "79"))) .div
          (.formula (.text "net.sales"))) := by
      decide +kernel
    have hentries : readEntries shareItems = .ok
        [⟨.account, none, some " 19 - 79 ", none, .null, .null⟩,
          ⟨.formula, some .div, none, none, .null, .text "net.sales"⟩] := by
      rfl
    rcases references_follow_source.2.2.1 _ _ htree with ⟨s, hs, -⟩ |
        ⟨items, entries, hitems, hread, hparse⟩
    · cases hs
    · obtain rfl := Option.some.inj hitems
      obtain rfl := Except.ok.inj (hentries.symm.trans hread)
      obtain ⟨ts, hts, hrefers, -⟩ := references_follow_source.2.1 _ _ hparse
      have htokens : (.ok [⟨.account (.between (.text "19") (.text "79")), 0⟩, ⟨.operator .div, 1⟩,
          ⟨.formula (.text "net.sales"), 1⟩] : Attempt (List Placed)) = .ok ts := hts
      obtain rfl := Except.ok.inj htokens
      exact ⟨_, htree, hrefers.accounts, hrefers.formulas⟩

end KeyFigures
