/-
  KeyFigures/Proofs/Registry/Sharing.lean
  =======================================
  **Replacing an id once comes to the same as replacing it every time.**

  `expandShared` hangs a finished tree wherever its id comes up again, without
  another look at what is below.  That neither hides a cycle nor gets past the
  bound, because of what holds of the memory throughout the walk
  (`Memo.Sound`): whatever is below a remembered id is remembered as well and
  is not in the chain.  So an id that enters the chain is below nothing that
  was finished before (`Memo.Sound.enter`), and a remembered tree can go wrong
  only by its height, which is known.

  `expandShared_walk` carries this through the walk, and `agree_expand` compares
  the whole walk with `expandPlain`.
-/
import KeyFigures.Proofs.Registry.Lookup

namespace KeyFigures.Registry

variable {bodyOf : Value → Attempt Term} {depth : Depth} {chain : List Value}

/-! ### Chains -/

theorem isAmong_append_singleton (chain : List Value) (id other : Value) :
    isAmong (chain ++ [id]) other = (isAmong chain other || id.same other) := by
  simp [isAmong]

theorem isAmong_eq_false_append_singleton {id other : Value} :
    isAmong (chain ++ [id]) other = false ↔
      isAmong chain other = false ∧ id.same other = false := by
  rw [isAmong_append_singleton, Bool.or_eq_false_iff]

/-- A tree that may hang below a chain: what is below it is unambiguous and
    comes up nowhere in the chain. -/
structure Clear (bodyOf : Value → Attempt Term) (chain : List Value) (t : Term) : Prop where
  unambiguous : Unambiguous bodyOf t
  free : ∀ id, Below bodyOf t id → isAmong chain id = false

namespace Clear

theorem mono {t part : Term} (h : Clear bodyOf chain t)
    (hpart : ∀ id, Below bodyOf part id → Below bodyOf t id) : Clear bodyOf chain part :=
  ⟨h.unambiguous.mono hpart, fun id hid => h.free id (hpart id hid)⟩

theorem left {left right : Term} {op : Operator}
    (h : Clear bodyOf chain (.binary left op right)) : Clear bodyOf chain left :=
  h.mono fun _ hid => below_binary.mpr (.inl hid)

theorem right {left right : Term} {op : Operator}
    (h : Clear bodyOf chain (.binary left op right)) : Clear bodyOf chain right :=
  h.mono fun _ hid => below_binary.mpr (.inr hid)

theorem unsupported_left {left right : Term} {symbol : Value}
    (h : Clear bodyOf chain (.unsupported left symbol right)) : Clear bodyOf chain left :=
  h.mono fun _ hid => below_unsupported.mpr (.inl hid)

theorem unsupported_right {left right : Term} {symbol : Value}
    (h : Clear bodyOf chain (.unsupported left symbol right)) : Clear bodyOf chain right :=
  h.mono fun _ hid => below_unsupported.mpr (.inr hid)

theorem inner {inner : Term} (h : Clear bodyOf chain (.grouping inner)) :
    Clear bodyOf chain inner :=
  h.mono fun _ hid => below_grouping.mpr hid

/-- An id may enter the chain above its own tree, if the tree expands. -/
theorem enter {id : Value} {body : Term} {e : Expanded}
    (h : Clear bodyOf chain (.formula id)) (hbody : bodyOf id = .ok body)
    (he : Expands bodyOf body e) : Clear bodyOf (chain ++ [id]) body := by
  have hu : Unambiguous bodyOf body := h.unambiguous.body hbody
  refine ⟨hu, fun other hother => ?_⟩
  rw [isAmong_eq_false_append_singleton]
  have hbelow : Below bodyOf (.formula id) other :=
    below_formula.mpr ((reflTransGen_iff_of_body hbody).mpr (.inr hother))
  exact ⟨h.free other hbelow, he.not_same hbody hu hother⟩

end Clear

/-! ### The rule on trees that expand -/

/-- A tree that expands is replaced wherever there is room for its height. -/
theorem expandPlain_of_fits {t : Term} {e : Expanded} (h : Expands bodyOf t e)
    (hclear : Clear bodyOf chain t) (hroom : e.height ≤ depth.reached - chain.length) :
    expandPlain bodyOf depth chain t = .ok e.tree := by
  induction h generalizing chain with
  | @formula id body inner hbody hinner ih =>
    have hid : isAmong chain id = false := hclear.free id (below_formula.mpr .refl)
    have hheight : inner.height + 1 ≤ depth.reached - chain.length := hroom
    have hshort : ¬ depth.reached ≤ chain.length := by omega
    have hroom' : inner.height ≤ depth.reached - (chain ++ [id]).length := by
      rw [List.length_append, List.length_singleton]
      omega
    rw [expandPlain, hid, if_neg Bool.false_ne_true, dif_neg hshort, hbody]
    simp only [ih (hclear.enter hbody hinner) hroom']
    rfl
  | binary op _ _ ihl ihr =>
    obtain ⟨hl, hr⟩ := Nat.max_le.mp hroom
    rw [expandPlain, ihl hclear.left hl, ihr hclear.right hr]
    rfl
  | unsupported symbol _ _ ihl ihr =>
    obtain ⟨hl, hr⟩ := Nat.max_le.mp hroom
    rw [expandPlain, ihl hclear.unsupported_left hl, ihr hclear.unsupported_right hr]
    rfl
  | grouping _ ih =>
    rw [expandPlain, ih hclear.inner hroom]
    rfl
  | account ref => rw [expandPlain]
  | constant value => rw [expandPlain]
  | foreign thing => rw [expandPlain]

/-- Two outcomes agree: the same tree, without references, or the same failure;
    only a chain that is too long may be told of different ids. -/
inductive Agree (depth : Depth) : Attempt Term → Attempt Term → Prop
  | tree {t : Term} : t.formulaReferences = [] → Agree depth (.ok t) (.ok t)
  | failure (f : Failure) : Agree depth (.error f) (.error f)
  | tooDeep (chain : List Value) (id : Value) (chain' : List Value) (id' : Value) :
    Agree depth (.error (tooDeepAt depth chain id)) (.error (tooDeepAt depth chain' id'))

namespace Agree

/-- What comes after a failure does not matter. -/
theorem error_bind {f : Failure} {x : Attempt Term} (h : Agree depth (.error f) x)
    (next : Term → Attempt Term) : Agree depth (.error f) (x >>= next) := by
  cases h with
  | failure => exact .failure f
  | tooDeep chain id chain' id' => exact .tooDeep chain id chain' id'

/-- Of two parts the first failure counts. -/
theorem error_bind_bind {f : Failure} {x y : Attempt Term} {t : Term}
    (h : Agree depth (.error f) x ∨ x = .ok t ∧ Agree depth (.error f) y)
    (next : Term → Term → Attempt Term) :
    Agree depth (.error f) (x >>= fun l => y >>= next l) := by
  rcases h with hx | ⟨rfl, hy⟩
  · exact hx.error_bind _
  · exact hy.error_bind _

end Agree

/-- A tree that expands fails for its depth wherever there is no room for its
    height. -/
theorem expandPlain_of_exceeds {t : Term} {e : Expanded} (h : Expands bodyOf t e)
    (hclear : Clear bodyOf chain t) (hroom : depth.reached - chain.length < e.height)
    (chain' : List Value) (id' : Value) :
    Agree depth (.error (tooDeepAt depth chain' id')) (expandPlain bodyOf depth chain t) := by
  induction h generalizing chain with
  | @formula id body inner hbody hinner ih =>
    have hid : isAmong chain id = false := hclear.free id (below_formula.mpr .refl)
    rw [expandPlain, hid, if_neg Bool.false_ne_true]
    split
    · exact .tooDeep chain' id' chain id
    · have hheight : depth.reached - chain.length < inner.height + 1 := hroom
      have hroom' : depth.reached - (chain ++ [id]).length < inner.height := by
        rw [List.length_append, List.length_singleton]
        omega
      simp only [hbody]
      exact (ih (hclear.enter hbody hinner) hroom').error_bind _
  | @binary left right l r op hl _ ihl ihr =>
    -- the left part fails first, unless there is room for it
    rw [expandPlain]
    refine Agree.error_bind_bind (t := l.tree) ?_ _
    by_cases hfits : l.height ≤ depth.reached - chain.length
    · have hexceeds := (lt_max_iff.mp hroom).resolve_left (Nat.not_lt.mpr hfits)
      exact .inr ⟨expandPlain_of_fits hl hclear.left hfits, ihr hclear.right hexceeds⟩
    · exact .inl (ihl hclear.left (Nat.lt_of_not_le hfits))
  | @unsupported left right l r symbol hl _ ihl ihr =>
    rw [expandPlain]
    refine Agree.error_bind_bind (t := l.tree) ?_ _
    by_cases hfits : l.height ≤ depth.reached - chain.length
    · have hexceeds := (lt_max_iff.mp hroom).resolve_left (Nat.not_lt.mpr hfits)
      exact .inr ⟨expandPlain_of_fits hl hclear.unsupported_left hfits,
        ihr hclear.unsupported_right hexceeds⟩
    · exact .inl (ihl hclear.unsupported_left (Nat.lt_of_not_le hfits))
  | grouping _ ih =>
    rw [expandPlain]
    exact (ih hclear.inner hroom).error_bind _
  | account => exact absurd hroom (Nat.not_lt_zero _)
  | constant => exact absurd hroom (Nat.not_lt_zero _)
  | foreign => exact absurd hroom (Nat.not_lt_zero _)

/-! ### The memory -/

namespace Memo

theorem recall_cons (id : Value) (e : Expanded) (memo : Memo) (other : Value) :
    Memo.recall ((id, e) :: memo) other =
      if id.same other then some e else Memo.recall memo other := by
  unfold Memo.recall
  rw [List.find?_cons]
  cases h : id.same other with
  | true => simp
  | false => simp

/-- What counts as the same id recalls the same. -/
theorem recall_eq_of_same (memo : Memo) {id other : Value} (h : id.same other = true) :
    memo.recall id = memo.recall other := by
  simp only [Memo.recall, Value.same_congr_right h]

theorem exists_of_recall {memo : Memo} {id : Value} {e : Expanded} (h : memo.recall id = some e) :
    ∃ known, (known, e) ∈ memo ∧ known.same id = true := by
  obtain ⟨⟨known, e'⟩, hfind, rfl⟩ := Option.map_eq_some_iff.mp h
  exact ⟨known, List.mem_of_find?_eq_some hfind, by simpa using List.find?_some hfind⟩

/-- What holds of the memory throughout a walk: it remembers finished trees,
    and whatever is below a remembered id is remembered too and does not come up
    in the chain. -/
structure Sound (bodyOf : Value → Attempt Term) (chain : List Value) (memo : Memo) : Prop where
  expands : ∀ p ∈ memo, Expands bodyOf (.formula p.1) p.2
  clear : ∀ p ∈ memo, Clear bodyOf chain (.formula p.1)
  closed : ∀ p ∈ memo, ∀ id, Below bodyOf (.formula p.1) id → (memo.recall id).isSome

namespace Sound

theorem nil : Sound bodyOf chain [] where
  expands := by simp
  clear := by simp
  closed := by simp

/-- An id that is not remembered is below nothing that is, so it may enter the
    chain. -/
theorem enter {memo : Memo} (h : memo.Sound bodyOf chain) {id : Value}
    (hnew : memo.recall id = none) : memo.Sound bodyOf (chain ++ [id]) where
  expands := h.expands
  clear p hp := by
    refine ⟨(h.clear p hp).unambiguous, fun other hother => ?_⟩
    rw [isAmong_eq_false_append_singleton]
    refine ⟨(h.clear p hp).free other hother, ?_⟩
    rw [← Bool.not_eq_true]
    intro hsame
    have hrecalled : (memo.recall other).isSome := h.closed p hp other hother
    rw [← recall_eq_of_same memo hsame, hnew] at hrecalled
    cases hrecalled
  closed := h.closed

theorem leave {memo : Memo} {id : Value} (h : memo.Sound bodyOf (chain ++ [id])) :
    memo.Sound bodyOf chain where
  expands := h.expands
  clear p hp :=
    ⟨(h.clear p hp).unambiguous, fun other hother =>
      (isAmong_eq_false_append_singleton.mp ((h.clear p hp).free other hother)).1⟩
  closed := h.closed

/-- A remembered tree is the tree of every id that recalls it, and may hang
    wherever that id does not come up in the chain. -/
theorem recalled {memo : Memo} (h : memo.Sound bodyOf chain) {id : Value} {e : Expanded}
    (he : memo.recall id = some e) (hid : isAmong chain id = false) :
    Expands bodyOf (.formula id) e ∧
      ∀ other, Below bodyOf (.formula id) other →
        isAmong chain other = false ∧ (memo.recall other).isSome := by
  obtain ⟨known, hmem, hsame⟩ := exists_of_recall he
  have hsame' : id.same known = true := by rw [Value.same_comm, hsame]
  have hexpands : Expands bodyOf (.formula known) e := h.expands _ hmem
  refine ⟨hexpands.of_same (h.clear _ hmem).unambiguous hsame', fun other hother => ?_⟩
  cases hexpands with
  | @formula _ body _ hbody _ =>
    have hbody' : bodyOf id = .ok body :=
      (h.clear _ hmem).unambiguous known (below_formula.mpr .refl) id hsame' body hbody
    rcases (reflTransGen_iff_of_body hbody').mp (below_formula.mp hother) with rfl | hother
    · exact ⟨hid, by rw [he]; rfl⟩
    · have hbelow : Below bodyOf (.formula known) other :=
        below_formula.mpr ((reflTransGen_iff_of_body hbody).mpr (.inr hother))
      exact ⟨(h.clear _ hmem).free other hbelow, h.closed _ hmem other hbelow⟩

end Sound

end Memo

/-! ### The walk -/

/-- A walk that was finished: the tree expands and there is room for it,
    whatever is below it is remembered and does not come up in the chain, and
    nothing was forgotten. -/
structure Finished (bodyOf : Value → Attempt Term) (depth : Depth) (chain : List Value) (t : Term)
    (memo : Memo) (e : Expanded) (memo' : Memo) : Prop where
  expands : Expands bodyOf t e
  fits : e.height ≤ depth.reached - chain.length
  met : ∀ id, Below bodyOf t id → isAmong chain id = false ∧ (memo'.recall id).isSome
  kept : ∀ id, (memo.recall id).isSome → (memo'.recall id).isSome
  sound : memo'.Sound bodyOf chain

theorem Finished.clear {t : Term} {memo memo' : Memo} {e : Expanded}
    (h : Finished bodyOf depth chain t memo e memo') (hu : Unambiguous bodyOf t) :
    Clear bodyOf chain t :=
  ⟨hu, fun id hid => (h.met id hid).1⟩

/-- The rule comes to the tree of a finished walk. -/
theorem Finished.expandPlain {t : Term} {memo memo' : Memo} {e : Expanded}
    (h : Finished bodyOf depth chain t memo e memo') (hu : Unambiguous bodyOf t) :
    expandPlain bodyOf depth chain t = .ok e.tree :=
  expandPlain_of_fits h.expands (h.clear hu) h.fits

/-- What a walk comes to: it is finished, or it fails as the rule does. -/
def Walk (bodyOf : Value → Attempt Term) (depth : Depth) (chain : List Value) (t : Term)
    (memo : Memo) : Attempt (Expanded × Memo) → Prop
  | .ok (e, memo') => Finished bodyOf depth chain t memo e memo'
  | .error f => Agree depth (.error f) (expandPlain bodyOf depth chain t)

namespace Walk

/-- A leaf of a tree. -/
theorem leaf {t : Term} {memo : Memo} (hexpands : Expands bodyOf t ⟨t, 0⟩)
    (hmemo : memo.Sound bodyOf chain) : Walk bodyOf depth chain t memo (.ok (⟨t, 0⟩, memo)) := by
  refine ⟨hexpands, Nat.zero_le _, fun id hid => ?_, fun _ h => h, hmemo⟩
  obtain ⟨first, hfirst, -⟩ := hid
  rw [hexpands.formulaReferences_tree] at hfirst
  cases hfirst

/-- A node with two parts, of which the right one is walked through with what
    the left one left behind. -/
theorem both {left right t : Term} {memo : Memo} {x : Attempt (Expanded × Memo)}
    {y : Memo → Attempt (Expanded × Memo)} {node : Term → Term → Term}
    (hbelow : ∀ id, Below bodyOf t id ↔ Below bodyOf left id ∨ Below bodyOf right id)
    (hexpands : ∀ l r, Expands bodyOf left l → Expands bodyOf right r →
      Expands bodyOf t ⟨node l.tree r.tree, max l.height r.height⟩)
    (hplain : expandPlain bodyOf depth chain t =
      expandPlain bodyOf depth chain left >>= fun l =>
        expandPlain bodyOf depth chain right >>= fun r => .ok (node l r))
    (hu : Unambiguous bodyOf t) (hx : Walk bodyOf depth chain left memo x)
    (hy : ∀ memo, memo.Sound bodyOf chain → Walk bodyOf depth chain right memo (y memo)) :
    Walk bodyOf depth chain t memo (x >>= fun p => y p.2 >>= fun q =>
      .ok (⟨node p.1.tree q.1.tree, max p.1.height q.1.height⟩, q.2)) := by
  have hul : Unambiguous bodyOf left := hu.mono fun id hid => (hbelow id).mpr (.inl hid)
  cases x with
  | error f =>
    change Agree depth (.error f) _
    rw [hplain]
    exact Agree.error_bind hx _
  | ok p =>
    obtain ⟨l, memo₁⟩ := p
    have hl : Finished bodyOf depth chain left memo l memo₁ := hx
    have hwalk := hy memo₁ hl.sound
    cases hright : y memo₁ with
    | error f =>
      rw [hright] at hwalk
      simp only [bind, Except.bind, hright]
      change Agree depth (.error f) _
      rw [hplain]
      exact Agree.error_bind_bind (.inr ⟨hl.expandPlain hul, hwalk⟩) _
    | ok q =>
      obtain ⟨r, memo₂⟩ := q
      rw [hright] at hwalk
      have hr : Finished bodyOf depth chain right memo₁ r memo₂ := hwalk
      simp only [bind, Except.bind, hright]
      refine ⟨hexpands l r hl.expands hr.expands, Nat.max_le.mpr ⟨hl.fits, hr.fits⟩, ?_,
        fun id hid => hr.kept id (hl.kept id hid), hr.sound⟩
      intro id hid
      rcases (hbelow id).mp hid with hid | hid
      · exact ⟨(hl.met id hid).1, hr.kept id (hl.met id hid).2⟩
      · exact hr.met id hid

/-- A node with one part. -/
theorem enclosed {inner : Term} {memo : Memo} {x : Attempt (Expanded × Memo)}
    (hx : Walk bodyOf depth chain inner memo x) :
    Walk bodyOf depth chain (.grouping inner) memo (x >>= fun p =>
      .ok (⟨.grouping p.1.tree, p.1.height⟩, p.2)) := by
  cases x with
  | error f =>
    change Agree depth (.error f) _
    rw [expandPlain]
    exact Agree.error_bind hx _
  | ok p =>
    obtain ⟨i, memo'⟩ := p
    have hi : Finished bodyOf depth chain inner memo i memo' := hx
    exact ⟨.grouping hi.expands, hi.fits, fun id hid => hi.met id (below_grouping.mp hid),
      hi.kept, hi.sound⟩

/-- A remembered id: its tree hangs wherever there is room for it. -/
theorem remembered {memo : Memo} {id : Value} {e : Expanded} (hwhole : depth.most = depth.reached)
    (hu : Unambiguous bodyOf (.formula id)) (hmemo : memo.Sound bodyOf chain)
    (hid : isAmong chain id = false) (he : memo.recall id = some e) :
    Walk bodyOf depth chain (.formula id) memo
      (hang depth chain id e >>= fun e => .ok (e, memo)) := by
  obtain ⟨hexpands, hmet⟩ := hmemo.recalled he hid
  have hclear : Clear bodyOf chain (.formula id) := ⟨hu, fun other hother => (hmet other hother).1⟩
  unfold hang
  split
  · rename_i hdeep
    have hpos := hexpands.height_pos
    exact expandPlain_of_exceeds hexpands hclear (by omega) chain id
  · rename_i hroom
    exact ⟨hexpands, by omega, hmet, fun _ h => h, hmemo⟩

/-- An id that is replaced for the first time is remembered from then on. -/
theorem replaced {memo : Memo} {id : Value} {body : Term} {x : Attempt (Expanded × Memo)}
    (hwhole : depth.most = depth.reached) (hu : Unambiguous bodyOf (.formula id))
    (hid : isAmong chain id = false) (hshort : ¬ depth.reached ≤ chain.length)
    (hbody : bodyOf id = .ok body) (hx : Walk bodyOf depth (chain ++ [id]) body memo x) :
    Walk bodyOf depth chain (.formula id) memo (x >>= fun p =>
      hang depth chain id ⟨.grouping p.1.tree, p.1.height + 1⟩ >>= fun e =>
        .ok (e, (id, e) :: p.2)) := by
  have hplain : expandPlain bodyOf depth chain (.formula id) =
      expandPlain bodyOf depth (chain ++ [id]) body >>= fun inner => .ok (.grouping inner) := by
    rw [expandPlain, hid, if_neg Bool.false_ne_true, dif_neg hshort, hbody]
  cases x with
  | error f =>
    change Agree depth (.error f) _
    rw [hplain]
    exact Agree.error_bind hx _
  | ok p =>
    obtain ⟨inner, memo'⟩ := p
    have hinner : Finished bodyOf depth (chain ++ [id]) body memo inner memo' := hx
    have hfits := hinner.fits
    rw [List.length_append, List.length_singleton] at hfits
    have hhang : hang depth chain id ⟨.grouping inner.tree, inner.height + 1⟩ =
        .ok ⟨.grouping inner.tree, inner.height + 1⟩ := by
      rw [hang, if_neg (by simp only; omega)]
    have hexpands := Expands.formula hbody hinner.expands
    have hrecall : ∀ other, (Memo.recall memo' other).isSome →
        (Memo.recall ((id, ⟨.grouping inner.tree, inner.height + 1⟩) :: memo') other).isSome := by
      intro other hother
      rw [Memo.recall_cons]
      split
      · rfl
      · exact hother
    -- the id itself has just been remembered, and what is below it was met in its tree
    have hmet : ∀ other, Below bodyOf (.formula id) other → isAmong chain other = false ∧
        (Memo.recall ((id, ⟨.grouping inner.tree, inner.height + 1⟩) :: memo') other).isSome := by
      intro other hother
      rcases (reflTransGen_iff_of_body hbody).mp (below_formula.mp hother) with rfl | hother
      · refine ⟨hid, ?_⟩
        rw [Memo.recall_cons, Value.same_self, if_pos rfl]
        rfl
      · obtain ⟨hfree, hsome⟩ := hinner.met other hother
        exact ⟨(isAmong_eq_false_append_singleton.mp hfree).1, hrecall other hsome⟩
    simp only [bind, Except.bind, hhang]
    refine ⟨hexpands, by simp only; omega, hmet,
      fun other h => hrecall other (hinner.kept other h), ?_⟩
    have hsound := hinner.sound.leave
    refine ⟨?_, ?_, ?_⟩
    · intro p hp
      rcases List.mem_cons.mp hp with rfl | hp
      · exact hexpands
      · exact hsound.expands p hp
    · intro p hp
      rcases List.mem_cons.mp hp with rfl | hp
      · exact ⟨hu, fun other hother => (hmet other hother).1⟩
      · exact hsound.clear p hp
    · intro p hp other hother
      rcases List.mem_cons.mp hp with rfl | hp
      · exact (hmet other hother).2
      · exact hrecall other (hsound.closed p hp other hother)

end Walk

/-- From a sound memory a walk is finished with a sound memory, or it fails as
    the rule does. -/
theorem expandShared_walk (hwhole : depth.most = depth.reached) {t : Term} {memo : Memo}
    (hu : Unambiguous bodyOf t) (hmemo : memo.Sound bodyOf chain) :
    Walk bodyOf depth chain t memo (expandShared bodyOf depth chain t memo) := by
  fun_induction expandShared bodyOf depth chain t memo with
  | case1 chain memo id hamong =>
    -- the id comes up again in its own chain
    change Agree depth _ _
    rw [expandPlain, if_pos hamong]
    exact .failure _
  | case2 chain memo id hamong e he =>
    exact .remembered hwhole hu hmemo (Bool.eq_false_iff.mpr hamong) he
  | case3 chain memo id hamong _ hfull =>
    -- the chain is full
    change Agree depth _ _
    rw [expandPlain, if_neg hamong, dif_pos hfull]
    exact .failure _
  | case4 chain memo id hamong _ hshort f hbody =>
    -- the id leads nowhere
    change Agree depth _ _
    rw [expandPlain, if_neg hamong, dif_neg hshort, hbody]
    exact .failure _
  | case5 chain memo id hamong hnew hshort body hbody ih =>
    exact .replaced hwhole hu (Bool.eq_false_iff.mpr hamong) hshort hbody
      (ih (hu.body hbody) (hmemo.enter hnew))
  | case6 chain memo left op right ihl ihr =>
    have hul : Unambiguous bodyOf left := hu.mono fun id hid => below_binary.mpr (.inl hid)
    have hur : Unambiguous bodyOf right := hu.mono fun id hid => below_binary.mpr (.inr hid)
    exact .both (fun id => below_binary) (fun l r => .binary op) (by rw [expandPlain]) hu
      (ihl hul hmemo) fun memo hmemo => ihr memo hur hmemo
  | case7 chain memo left symbol right ihl ihr =>
    have hul : Unambiguous bodyOf left := hu.mono fun id hid => below_unsupported.mpr (.inl hid)
    have hur : Unambiguous bodyOf right := hu.mono fun id hid => below_unsupported.mpr (.inr hid)
    exact .both (fun id => below_unsupported) (fun l r => .unsupported symbol)
      (by rw [expandPlain]) hu (ihl hul hmemo) fun memo hmemo => ihr memo hur hmemo
  | case8 chain memo inner ih =>
    have hui : Unambiguous bodyOf inner := hu.mono fun id hid => below_grouping.mpr hid
    exact .enclosed (ih hui hmemo)
  | case9 chain memo ref => exact .leaf (.account ref) hmemo
  | case10 chain memo value => exact .leaf (.constant value) hmemo
  | case11 chain memo thing => exact .leaf (.foreign thing) hmemo

/-- Replacing every id once agrees with replacing it wherever it comes up. -/
theorem agree_expand (hwhole : depth.most = depth.reached) {t : Term}
    (hu : Unambiguous bodyOf t) (chain : List Value) :
    Agree depth (expand bodyOf depth chain t) (expandPlain bodyOf depth chain t) := by
  have hempty : Memo.Sound bodyOf chain [] := .nil
  have hwalk := expandShared_walk hwhole hu hempty
  unfold expand
  cases h : expandShared bodyOf depth chain t [] with
  | error f =>
    rw [h] at hwalk
    exact hwalk
  | ok p =>
    obtain ⟨e, memo⟩ := p
    rw [h] at hwalk
    have hfinished : Finished bodyOf depth chain t [] e memo := hwalk
    rw [hfinished.expandPlain hu]
    exact .tree hfinished.expands.formulaReferences_tree

/-- A tree that is expanded comes from a finished walk. -/
theorem exists_finished_of_expand (hwhole : depth.most = depth.reached) {t tree : Term}
    (hu : Unambiguous bodyOf t) (h : expand bodyOf depth chain t = .ok tree) :
    ∃ e memo, Finished bodyOf depth chain t [] e memo ∧ e.tree = tree := by
  have hempty : Memo.Sound bodyOf chain [] := .nil
  have hwalk := expandShared_walk hwhole hu hempty
  unfold expand at h
  cases hshared : expandShared bodyOf depth chain t [] with
  | error f =>
    rw [hshared] at h
    cases h
  | ok p =>
    obtain ⟨e, memo⟩ := p
    rw [hshared] at hwalk h
    exact ⟨e, memo, hwalk, Except.ok.inj h⟩

/-- A tree can be expanded below a chain exactly if all its references can be
    replaced, none of them comes up in the chain, and there is room for them. -/
theorem exists_expand_eq_ok_iff (hwhole : depth.most = depth.reached) {t : Term}
    (hu : Unambiguous bodyOf t) :
    (∃ tree, expand bodyOf depth chain t = .ok tree) ↔
      ∃ e, Expands bodyOf t e ∧ Clear bodyOf chain t ∧
        e.height ≤ depth.reached - chain.length := by
  constructor
  · rintro ⟨tree, h⟩
    obtain ⟨e, memo, hfinished, -⟩ := exists_finished_of_expand hwhole hu h
    exact ⟨e, hfinished.expands, hfinished.clear hu, hfinished.fits⟩
  · rintro ⟨e, hexpands, hclear, hroom⟩
    have hagree := agree_expand hwhole hu chain
    rw [expandPlain_of_fits hexpands hclear hroom] at hagree
    generalize hx : expand bodyOf depth chain t = x at hagree
    cases hagree with
    | tree _ => exact ⟨e.tree, rfl⟩

/-- **Replacing every id once agrees with the rule**, in any registry with a
    whole bound, for any tree and below any chain: the same tree, without
    references, or the same failure, where two failures for the depth may be
    told of different ids. -/
theorem expand_agrees_expandPlain {standard : List Definition} {user : Option UserStore}
    {bound : Int} {r : Registry} (hmake : make standard user (.int bound) = .ok r)
    (hstandard : ∀ d ∈ standard, r.TellsApart d.tree) {pending : Option Definition}
    (hpending : ∀ d ∈ pending, r.TellsApart d.tree) (chain : List Value) {t : Term}
    (ht : r.TellsApart t) :
    Agree r.depth (expand (r.bodyOf pending) r.depth chain t)
      (expandPlain (r.bodyOf pending) r.depth chain t) := by
  obtain ⟨-, rfl⟩ := make_int hmake
  exact agree_expand rfl (ht.unambiguous hstandard hpending) chain

/-- Where both are too deep they can tell it of different ids. -/
theorem expand_agrees_expandPlain_tooDeep :
    ∃ r t, make [.ofTree "base" (.account (.starting (.text "1")))]
        (some (.memory ⟨[.ofTree "mid" (.formula (.text "base")),
          .ofTree "deep" (.formula (.text "mid"))]⟩)) (.int 2) = .ok r ∧
      parseText "{mid} + {deep}" = .ok t ∧
      expand (r.bodyOf none) r.depth [] t =
        .error (.circularReference "mid" ["deep", "mid"] (some (.int 2))) ∧
      expandPlain (r.bodyOf none) r.depth [] t =
        .error (.circularReference "base" ["deep", "mid", "base"] (some (.int 2))) ∧
      Agree r.depth (expand (r.bodyOf none) r.depth [] t)
        (expandPlain (r.bodyOf none) r.depth [] t) := by
  have hparse : parseText "{mid} + {deep}" =
      .ok (.binary (.formula (.text "mid")) .add (.formula (.text "deep"))) := by
    cbv
  refine ⟨_, _, make_of_pos (by decide) _ _, hparse, by cbv, by cbv, ?_⟩
  exact expand_agrees_expandPlain (make_of_pos (by decide) _ _)
    (fun _ _ => .inl (inMemory_of_make (make_of_pos (by decide) _ _) (by simp))) (by simp) []
    (.inl (inMemory_of_make (make_of_pos (by decide) _ _) (by simp)))

end KeyFigures.Registry
