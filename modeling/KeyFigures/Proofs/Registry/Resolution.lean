/-
  KeyFigures/Proofs/Registry/Resolution.lean
  ==========================================
  **When a reference resolves.**

  `Registry.Resolvable` is a property of the graph of references alone: every
  id that is reached is defined, no id is reached from itself, and no path has
  more formulas than the bound.  A registry resolves exactly the ids of which
  this holds, and exactly the sources all of whose references have it
  (`resolves_iff`).

  What a failure tells is followed through the walk by `Blame`: a lookup that
  failed somewhere below the tree, or a path of references at whose end an id
  came up again or did not fit any more.
-/
import KeyFigures.Proofs.Registry.Sharing
import KeyFigures.Proofs.Registry.Faults

namespace KeyFigures

open Relation (ReflTransGen TransGen)

namespace Registry

variable {bodyOf : Value → Attempt Term} {depth : Depth} {chain : List Value}

/-! ### What a failure tells -/

theorem PathFrom.mono {t part : Term} {path : List Value} (h : PathFrom bodyOf part path)
    (hpart : ∀ id ∈ part.formulaReferences, id ∈ t.formulaReferences) : PathFrom bodyOf t path := by
  obtain ⟨⟨first, hhead, hfirst⟩, hchain⟩ := h
  exact ⟨⟨first, hhead, hpart first hfirst⟩, hchain⟩

/-- Where a failed walk failed: at an id that leads nowhere, or at the end of a
    path of references, where an id came up again or the chain was full. -/
inductive Blame (bodyOf : Value → Attempt Term) (depth : Depth) (chain : List Value) (t : Term) :
    Failure → Prop
  | lookup {id : Value} {f : Failure} : Below bodyOf t id → bodyOf id = .error f →
    Blame bodyOf depth chain t f
  | cycle {path : List Value} {id : Value} : PathFrom bodyOf t (path ++ [id]) →
    isAmong (chain ++ path) id = true → Blame bodyOf depth chain t (cycleAt (chain ++ path) id)
  | tooDeep {path : List Value} {id : Value} : PathFrom bodyOf t (path ++ [id]) →
    Blame bodyOf depth chain t (tooDeepAt depth (chain ++ path) id)

namespace Blame

theorem mono {t part : Term} {f : Failure} (h : Blame bodyOf depth chain part f)
    (hpart : ∀ id ∈ part.formulaReferences, id ∈ t.formulaReferences) :
    Blame bodyOf depth chain t f := by
  cases h with
  | lookup hbelow hbody =>
    obtain ⟨first, hfirst, hpath⟩ := hbelow
    exact .lookup ⟨first, hpart first hfirst, hpath⟩ hbody
  | cycle hpath hamong => exact .cycle (hpath.mono hpart) hamong
  | tooDeep hpath => exact .tooDeep (hpath.mono hpart)

/-- A path in the tree of an id goes on from the id. -/
theorem enter {id : Value} {body : Term} {f : Failure} (hbody : bodyOf id = .ok body)
    (h : Blame bodyOf depth (chain ++ [id]) body f) : Blame bodyOf depth chain (.formula id) f := by
  have hpath : ∀ path last, PathFrom bodyOf body (path ++ [last]) →
      PathFrom bodyOf (.formula id) (id :: path ++ [last]) := by
    intro path last h
    rw [List.cons_append, pathFrom_cons, isChain_cons_iff_pathFrom hbody (by simp)]
    exact ⟨by simp, h⟩
  cases h with
  | lookup hbelow hother =>
    have hid : Below bodyOf (.formula id) id := below_formula.mpr .refl
    exact .lookup (hid.body hbody hbelow) hother
  | @cycle path last h hamong =>
    rw [List.append_assoc, List.singleton_append] at hamong ⊢
    exact .cycle (hpath path last h) hamong
  | @tooDeep path last h =>
    rw [List.append_assoc, List.singleton_append]
    exact .tooDeep (hpath path last h)

theorem here (id : Value) : PathFrom bodyOf (.formula id) ([] ++ [id]) := by
  rw [List.nil_append, pathFrom_cons]
  exact ⟨by simp, .singleton id⟩

theorem tooDeep_here (id : Value) :
    Blame bodyOf depth chain (.formula id) (tooDeepAt depth chain id) := by
  have h : Blame bodyOf depth chain (.formula id) (tooDeepAt depth (chain ++ []) id) :=
    .tooDeep (here id)
  rwa [List.append_nil] at h

theorem hang_error {id : Value} {e : Expanded} {f : Failure}
    (h : hang depth chain id e = .error f) : Blame bodyOf depth chain (.formula id) f := by
  unfold hang at h
  split at h
  · cases h
    exact tooDeep_here id
  · cases h

end Blame

/-- Whatever a walk remembers, it fails for a reason in the graph. -/
theorem blame_of_expandShared {t : Term} {memo : Memo} :
    ∀ f, expandShared bodyOf depth chain t memo = .error f → Blame bodyOf depth chain t f := by
  fun_induction expandShared bodyOf depth chain t memo with
  | case1 chain memo id hamong =>
    intro f h
    cases h
    have hblame : Blame bodyOf depth chain (.formula id) (cycleAt (chain ++ []) id) :=
      .cycle (Blame.here id) (by rwa [List.append_nil])
    rwa [List.append_nil] at hblame
  | case2 chain memo id _ e _ =>
    intro f h
    rcases Attempt.bind_eq_error.mp h with hfail | ⟨e', -, hfail⟩
    · exact .hang_error hfail
    · cases hfail
  | case3 chain memo id _ _ hfull =>
    intro f h
    cases h
    exact .tooDeep_here id
  | case4 chain memo id _ _ _ g hbody =>
    intro f h
    cases h
    exact .lookup (below_formula.mpr .refl) hbody
  | case5 chain memo id _ _ _ body hbody ih =>
    intro f h
    rcases Attempt.bind_eq_error.mp h with hfail | ⟨⟨inner, memo'⟩, -, hfail⟩
    · exact .enter hbody (ih f hfail)
    · rcases Attempt.bind_eq_error.mp hfail with hfail | ⟨e, -, hfail⟩
      · exact .hang_error hfail
      · cases hfail
  | case6 chain memo left op right ihl ihr =>
    intro f h
    rcases Attempt.bind_eq_error.mp h with hfail | ⟨⟨l, memo₁⟩, -, hfail⟩
    · exact (ihl f hfail).mono (by simp +contextual)
    · rcases Attempt.bind_eq_error.mp hfail with hfail | ⟨⟨r, memo₂⟩, -, hfail⟩
      · exact (ihr memo₁ f hfail).mono (by simp +contextual)
      · cases hfail
  | case7 chain memo left symbol right ihl ihr =>
    intro f h
    rcases Attempt.bind_eq_error.mp h with hfail | ⟨⟨l, memo₁⟩, -, hfail⟩
    · exact (ihl f hfail).mono (by simp +contextual)
    · rcases Attempt.bind_eq_error.mp hfail with hfail | ⟨⟨r, memo₂⟩, -, hfail⟩
      · exact (ihr memo₁ f hfail).mono (by simp +contextual)
      · cases hfail
  | case8 chain memo inner ih =>
    intro f h
    rcases Attempt.bind_eq_error.mp h with hfail | ⟨⟨i, memo'⟩, -, hfail⟩
    · exact (ih f hfail).mono (by simp)
    · cases hfail
  | case9 => intro f h; cases h
  | case10 => intro f h; cases h
  | case11 => intro f h; cases h

theorem blame_of_expand {t : Term} {f : Failure} (h : expand bodyOf depth chain t = .error f) :
    Blame bodyOf depth chain t f := by
  unfold expand at h
  cases hshared : expandShared bodyOf depth chain t [] with
  | ok p =>
    rw [hshared] at h
    cases h
  | error g =>
    rw [hshared] at h
    cases h
    exact blame_of_expandShared _ hshared

theorem mapM_text?_eq_some {chain : List Value} {ids : List String}
    (h : chain.mapM Value.text? = some ids) : chain = ids.map .text := by
  induction chain generalizing ids with
  | nil =>
    cases h
    rfl
  | cons id rest ih =>
    rw [List.mapM_cons] at h
    cases id with
    | text s =>
      cases hrest : rest.mapM Value.text? with
      | none => simp [Value.text?, hrest] at h
      | some more =>
        simp only [Value.text?, hrest, Option.bind_eq_bind, Option.bind_some, Option.pure_def,
          Option.some.injEq] at h
        rw [← h, List.map_cons, ← ih hrest]
    | _ => simp [Value.text?] at h

/-- A circle that is told tells the texts of a chain and of the id at its end. -/
theorem chainFailure_eq_circle {maxDepth maxDepth' : Option Value} {chain : List Value}
    {id : Value} {last : String} {ids : List String}
    (h : chainFailure maxDepth chain id = .circularReference last ids maxDepth') :
    maxDepth' = maxDepth ∧ id = .text last ∧
      ∃ front, chain = front.map Value.text ∧ ids = front ++ [last] := by
  unfold chainFailure at h
  split at h
  · rename_i hlast hids
    cases h
    have hid : id = .text last := by
      cases id with
      | text s =>
        cases hlast
        rfl
      | _ => cases hlast
    have hmap : chain ++ [id] = ids.map Value.text := mapM_text?_eq_some hids
    refine ⟨rfl, hid, ?_⟩
    obtain ⟨front, back, hsplit, hfront, hback⟩ := List.map_eq_append_iff.mp hmap.symm
    refine ⟨front, hfront.symm, ?_⟩
    rw [hid, List.map_eq_singleton_iff] at hback
    obtain ⟨s, rfl, hs⟩ := hback
    cases hs
    exact hsplit
  · cases h

end Registry

/-! ### The condition -/

/-- A formula has another one's id in its tree, as the registry finds it. -/
def Registry.Uses (r : Registry) (id other : Value) : Prop :=
  ∃ d, r.definition id = .ok d ∧ other ∈ d.tree.formulaReferences

/-- All that is reached from an id is defined, nothing that is reached is
    reached from itself, and no path from the id has more formulas than the
    bound. -/
structure Registry.Resolvable (r : Registry) (bound : Int) (id : Value) : Prop where
  defined : ∀ other, ReflTransGen r.Uses id other → ∃ d, r.definition other = .ok d
  acyclic : ∀ other, ReflTransGen r.Uses id other → ¬ TransGen r.Uses other other
  bounded : ∀ rest, (id :: rest).IsChain r.Uses → ((id :: rest).length : Int) ≤ bound

/-- What a failure tells of a circle: the ids are a path of references from a
    start to the last one; if no bound is named, the last one came up before,
    and if one is, it is that of the registry. -/
structure Registry.TellsPath (r : Registry) (start : Value → Prop) (last : String)
    (ids : List String) (maxDepth : Option Value) : Prop where
  path : (ids.map Value.text).IsChain r.Uses
  starts : ∃ first ∈ ids.head?, start (.text first)
  ends : ids.getLast? = some last
  cycle : maxDepth = none → last ∈ ids.dropLast
  depth : ∀ b ∈ maxDepth, b = r.depth.given

namespace Registry

variable {r : Registry}

theorem uses_eq_refers (r : Registry) : r.Uses = Refers (r.bodyOf none) := by
  funext id other
  apply propext
  constructor
  · rintro ⟨d, hd, hother⟩
    exact ⟨d.tree, bodyOf_eq_ok_iff.mpr ⟨d, hd, rfl⟩, hother⟩
  · rintro ⟨body, hbody, hother⟩
    obtain ⟨d, hd, rfl⟩ := bodyOf_eq_ok_iff.mp hbody
    exact ⟨d, hd, hother⟩

/-- An id is resolvable exactly if it expands within the bound. -/
theorem resolvable_iff {bound : Int} {id : Value} :
    r.Resolvable bound id ↔
      ∃ e, Expands (r.bodyOf none) (.formula id) e ∧ (e.height : Int) ≤ bound := by
  constructor
  · intro h
    -- a bound on the paths leaves no room for a circle, so `acyclic` is not needed here
    obtain ⟨hdefined, -, hbounded⟩ := h
    rw [uses_eq_refers] at hdefined hbounded
    have hpath : ∀ path, PathFrom (r.bodyOf none) (.formula id) path →
        path.length ≤ bound.toNat := by
      intro path hpath
      cases path with
      | nil => exact Nat.zero_le _
      | cons first rest =>
        obtain ⟨hfirst, hchain⟩ := pathFrom_cons.mp hpath
        obtain rfl : first = id := by simpa using hfirst
        have hlength := hbounded rest hchain
        omega
    have hbody : ∀ other, Below (r.bodyOf none) (.formula id) other →
        ∃ body, r.bodyOf none other = .ok body := by
      intro other hother
      obtain ⟨d, hd⟩ := hdefined other (below_formula.mp hother)
      exact ⟨d.tree, bodyOf_eq_ok_iff.mpr ⟨d, hd, rfl⟩⟩
    obtain ⟨e, he, hle⟩ := exists_expands hbody hpath
    have hpos := he.height_pos
    exact ⟨e, he, by omega⟩
  · rintro ⟨e, he, hle⟩
    refine ⟨?_, ?_, ?_⟩
    · rw [uses_eq_refers]
      intro other hother
      obtain ⟨e', he', -⟩ := he.of_below (below_formula.mpr hother)
      cases he' with
      | formula hbody _ =>
        obtain ⟨d, hd, -⟩ := bodyOf_eq_ok_iff.mp hbody
        exact ⟨d, hd⟩
    · rw [uses_eq_refers]
      intro other hother
      obtain ⟨e', he', -⟩ := he.of_below (below_formula.mpr hother)
      exact he'.not_transGen
    · rw [uses_eq_refers]
      intro rest hchain
      have hlength := he.length_le (pathFrom_cons.mpr ⟨by simp, hchain⟩)
      omega

/-! ### Resolving -/

/-- The bound of a registry is a whole number, at least one. -/
structure Bounded (r : Registry) (bound : Int) : Prop where
  most_eq : r.depth.most = r.depth.reached
  reached_eq : (r.depth.reached : Int) = bound
  pos : 1 ≤ bound

theorem bounded_of_make {standard : List Definition} {user : Option UserStore} {bound : Int}
    (h : make standard user (.int bound) = .ok r) : r.Bounded bound := by
  obtain ⟨hpos, rfl⟩ := make_int h
  exact ⟨rfl, Int.toNat_of_nonneg (by omega), hpos⟩

variable {bound : Int}

theorem unambiguous_of_definition (hstandard : ∀ d ∈ r.standard, r.TellsApart d.tree) {id : Value}
    {d : Definition} (hd : r.definition id = .ok d) : Unambiguous (r.bodyOf none) d.tree :=
  (tellsApart_of_definition hstandard hd).unambiguous hstandard (by simp)

theorem resolveId_eq_ok_iff {id : Value} {t : Term} :
    r.resolveId id = .ok t ↔
      ∃ d, r.definition id = .ok d ∧ expand (r.bodyOf none) r.depth [id] d.tree = .ok t :=
  Attempt.bind_eq_ok

theorem exists_resolveId_iff (hbound : r.Bounded bound)
    (hstandard : ∀ d ∈ r.standard, r.TellsApart d.tree) (id : Value) :
    (∃ t, r.resolveId id = .ok t) ↔ r.Resolvable bound id := by
  have hreached := hbound.reached_eq
  have hpos := hbound.pos
  rw [resolvable_iff]
  constructor
  · rintro ⟨t, ht⟩
    obtain ⟨d, hd, hexpand⟩ := resolveId_eq_ok_iff.mp ht
    obtain ⟨e, he, -, hroom⟩ :=
      (exists_expand_eq_ok_iff hbound.most_eq (unambiguous_of_definition hstandard hd)).mp
        ⟨t, hexpand⟩
    rw [List.length_singleton] at hroom
    exact ⟨_, .formula (bodyOf_eq_ok_iff.mpr ⟨d, hd, rfl⟩) he, by simp only; omega⟩
  · rintro ⟨e, he, hle⟩
    cases he with
    | @formula _ body inner hbody hinner =>
      obtain ⟨d, hd, rfl⟩ := bodyOf_eq_ok_iff.mp hbody
      have hu := unambiguous_of_definition hstandard hd
      -- the chain starts with the id itself, which is not below its own tree
      have hclear : Clear (r.bodyOf none) [id] d.tree := by
        refine ⟨hu, fun other hother => ?_⟩
        simp only [isAmong, List.any_cons, List.any_nil, Bool.or_false]
        exact hinner.not_same hbody hu hother
      have hroom : inner.height ≤ r.depth.reached - [id].length := by
        rw [List.length_singleton]
        simp only at hle
        omega
      obtain ⟨t, ht⟩ :=
        (exists_expand_eq_ok_iff hbound.most_eq hu).mpr ⟨inner, hinner, hclear, hroom⟩
      exact ⟨t, resolveId_eq_ok_iff.mpr ⟨d, hd, ht⟩⟩

theorem exists_resolveSource_iff (hbound : r.Bounded bound)
    (hstandard : ∀ d ∈ r.standard, r.TellsApart d.tree) {source : Value} {t : Term}
    (hsource : parseSource source = .ok t) (ht : r.TellsApart t) :
    (∃ tree, r.resolveSource source = .ok tree) ↔
      ∀ id ∈ t.formulaReferences, r.Resolvable bound id := by
  have hreached := hbound.reached_eq
  have hpos := hbound.pos
  have hu : Unambiguous (r.bodyOf none) t := ht.unambiguous hstandard (by simp)
  have hresolve : r.resolveSource source = expand (r.bodyOf none) r.depth [] t := by
    unfold resolveSource
    rw [hsource]
    rfl
  rw [hresolve, exists_expand_eq_ok_iff hbound.most_eq hu]
  simp only [resolvable_iff]
  constructor
  · rintro ⟨e, he, -, hroom⟩ id hid
    obtain ⟨e', he', hle⟩ := he.of_mem hid
    rw [List.length_nil] at hroom
    exact ⟨e', he', by omega⟩
  · intro h
    have hall : ∀ id ∈ t.formulaReferences,
        ∃ e, Expands (r.bodyOf none) (.formula id) e ∧ e.height ≤ r.depth.reached := by
      intro id hid
      obtain ⟨e, he, hle⟩ := h id hid
      exact ⟨e, he, by omega⟩
    obtain ⟨e, he, hle⟩ := Expands.exists_of_references hall
    exact ⟨e, he, ⟨hu, fun _ _ => rfl⟩, hle⟩

/-! ### Failing -/

/-- A circle that is told by an expansion is told with a path of references. -/
theorem tellsPath_of_expand {t : Term} {chain : List Value} {start : Value → Prop} {last : String}
    {ids : List String} {maxDepth : Option Value}
    (h : expand (r.bodyOf none) r.depth chain t = .error (.circularReference last ids maxDepth))
    (hpaths : ∀ path, path ≠ [] → PathFrom (r.bodyOf none) t path →
      (∃ first ∈ (chain ++ path).head?, start first) ∧ (chain ++ path).IsChain r.Uses) :
    r.TellsPath start last ids maxDepth := by
  have htold : ∀ {path : List Value} {id : Value} {m : Option Value},
      PathFrom (r.bodyOf none) t (path ++ [id]) →
      chainFailure m (chain ++ path) id = .circularReference last ids maxDepth →
      (m = none → isAmong (chain ++ path) id = true) → (∀ b ∈ m, b = r.depth.given) →
      r.TellsPath start last ids maxDepth := by
    intro path id m hpath hfailure hcycle hdepth
    obtain ⟨rfl, rfl, front, hfront, rfl⟩ := chainFailure_eq_circle hfailure
    obtain ⟨⟨first, hhead, hfirst⟩, hchain⟩ := hpaths _ (by simp) hpath
    rw [← List.append_assoc, hfront] at hhead hchain
    have hmap : (front ++ [last]).map Value.text = front.map Value.text ++ [.text last] := by simp
    refine ⟨by rwa [hmap], ?_, by simp, fun hnone => ?_, hdepth⟩
    · rw [← hmap, List.head?_map] at hhead
      obtain ⟨s, hs, rfl⟩ := Option.map_eq_some_iff.mp hhead
      exact ⟨s, hs, hfirst⟩
    · have hamong := hcycle hnone
      rw [hfront] at hamong
      obtain ⟨z, hz, hsame⟩ := List.any_eq_true.mp hamong
      obtain rfl := Value.same_text_iff.mp hsame
      rw [List.dropLast_concat]
      simpa using hz
  have hblame := blame_of_expand h
  generalize hf : Failure.circularReference last ids maxDepth = f at hblame
  cases hblame with
  | @lookup id _ _ hbody =>
    subst hf
    refine absurd hbody (fun hbody => ?_)
    cases hd : r.definition id with
    | ok d =>
      rw [bodyOf_eq_ok_iff.mpr ⟨d, hd, rfl⟩] at hbody
      cases hbody
    | error g =>
      rw [bodyOf, hd] at hbody
      cases hbody
      exact r.noCircle_definition id _ _ _ hd
  | cycle hpath hamong => exact htold hpath hf.symm (fun _ => hamong) (by simp)
  | tooDeep hpath => exact htold hpath hf.symm (by simp) (by simp)

theorem tellsPath_of_resolveId {id : Value} {last : String} {ids : List String}
    {maxDepth : Option Value}
    (h : r.resolveId id = .error (.circularReference last ids maxDepth)) :
    r.TellsPath (· = id) last ids maxDepth := by
  rcases Attempt.bind_eq_error.mp h with hfail | ⟨d, hd, hfail⟩
  · exact absurd hfail (r.noCircle_definition id _ _ _)
  · refine tellsPath_of_expand hfail fun path hne hpath => ⟨⟨id, rfl, rfl⟩, ?_⟩
    have hbody : r.bodyOf none id = .ok d.tree := bodyOf_eq_ok_iff.mpr ⟨d, hd, rfl⟩
    rw [uses_eq_refers, List.singleton_append, isChain_cons_iff_pathFrom hbody hne]
    exact hpath

theorem tellsPath_of_resolveSource {source : Value} {t : Term} {last : String}
    {ids : List String} {maxDepth : Option Value} (hsource : parseSource source = .ok t)
    (h : r.resolveSource source = .error (.circularReference last ids maxDepth)) :
    r.TellsPath (· ∈ t.formulaReferences) last ids maxDepth := by
  unfold resolveSource at h
  rw [hsource] at h
  refine tellsPath_of_expand h fun path _ hpath => ?_
  rw [uses_eq_refers, List.nil_append]
  exact hpath

/-- **When references resolve**, in any registry with a whole bound.  An id
    resolves exactly if it is `Resolvable`, and so does a source if all its
    references are.  A circle that is told instead is told with a path of
    references that begins at the id, or at a reference of the source. -/
theorem resolves_iff {standard : List Definition} {user : Option UserStore}
    (hmake : make standard user (.int bound) = .ok r)
    (hstandard : ∀ d ∈ standard, r.TellsApart d.tree) :
    (∀ id, (∃ t, r.resolveId id = .ok t) ↔ r.Resolvable bound id) ∧
    (∀ source t, parseSource source = .ok t → r.TellsApart t →
      ((∃ tree, r.resolveSource source = .ok tree) ↔
        ∀ id ∈ t.formulaReferences, r.Resolvable bound id)) ∧
    (∀ id last ids maxDepth, r.resolveId id = .error (.circularReference last ids maxDepth) →
      r.TellsPath (· = id) last ids maxDepth) ∧
    (∀ source t last ids maxDepth, parseSource source = .ok t →
      r.resolveSource source = .error (.circularReference last ids maxDepth) →
      r.TellsPath (· ∈ t.formulaReferences) last ids maxDepth) := by
  have hbound : r.Bounded bound := bounded_of_make hmake
  have hstandard' : ∀ d ∈ r.standard, r.TellsApart d.tree := by
    obtain ⟨-, rfl⟩ := make_int hmake
    exact hstandard
  exact ⟨exists_resolveId_iff hbound hstandard',
    fun source t hsource ht => exists_resolveSource_iff hbound hstandard' hsource ht,
    fun id last ids maxDepth h => tellsPath_of_resolveId h,
    fun source t last ids maxDepth hsource h => tellsPath_of_resolveSource hsource h⟩

/-- A block, a formula above it, and one that uses both. -/
def stackedBlocks : List Definition := [
  .ofTree "base" (.account (.starting (.text "1"))),
  .ofTree "mid" (.formula (.text "base")),
  .ofTree "total" (.binary (.formula (.text "base")) .add (.formula (.text "mid")))]

/-- The bound counts formulas, the resolved one too, and along every path: a
    block that was met on a shorter one does not count less. -/
theorem resolves_iff_stackedBlocks :
    ∃ r t, make stackedBlocks none (.int 2) = .ok r ∧
      r.Resolvable 2 (.text "mid") ∧ ¬ r.Resolvable 2 (.text "total") ∧
      r.TellsPath (· = .text "total") "base" ["total", "mid", "base"] (some (.int 2)) ∧
      parseSource (.text "{base} - {mid}") = .ok t ∧
      ∀ id ∈ t.formulaReferences, r.Resolvable 2 id := by
  have hparse : parseSource (.text "{base} - {mid}") =
      .ok (.binary (.formula (.text "base")) .sub (.formula (.text "mid"))) := by
    cbv
  have hmake : make stackedBlocks none (.int 2) = .ok ⟨stackedBlocks, none, .whole 2⟩ :=
    make_of_pos (by decide) _ _
  have hmemory : InMemory ⟨stackedBlocks, none, .whole 2⟩ := inMemory_of_make hmake (by simp)
  obtain ⟨hid, hsource, htold, -⟩ := resolves_iff hmake fun _ _ => .inl hmemory
  have hmid : resolveId ⟨stackedBlocks, none, .whole 2⟩ (.text "mid") =
      .ok (.grouping (.account (.starting (.text "1")))) := by
    cbv
  have htotal : resolveId ⟨stackedBlocks, none, .whole 2⟩ (.text "total") =
      .error (.circularReference "base" ["total", "mid", "base"] (some (.int 2))) := by
    cbv
  refine ⟨_, _, hmake, (hid _).mp ⟨_, hmid⟩, fun h => ?_, htold _ _ _ _ htotal, hparse,
    (hsource _ _ hparse (.inl hmemory)).mp ⟨_, by cbv⟩⟩
  obtain ⟨t, ht⟩ := (hid _).mpr h
  cases htotal.symm.trans ht

end Registry

end KeyFigures
