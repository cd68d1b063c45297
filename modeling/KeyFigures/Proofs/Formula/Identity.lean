/-
  KeyFigures/Proofs/Formula/Identity.lean
  =======================================
  **What a formula key stands for.**

  The text that is digested into a formula key says everything about the tree
  and the result kind except how the numbers are written: two bodies have one
  text exactly if they have one kind and their trees become the same when every
  number is brought to its normal form (`keyText_eq_iff`).

  The normal form rounds.  Where it leaves the numbers as they are, bodies of
  one text have the same figures on every ledger (`figures_of_keyText_eq`); a
  number with more digits than the working range keeps can share its text with
  another one and still come to a different figure
  (`not_figures_of_keyText_eq`).
-/
import KeyFigures.Proofs.Decimal.NormalForm
import KeyFigures.Proofs.Evaluation.Agreement
import KeyFigures.Proofs.Formula.RoundTrip
import KeyFigures.Proofs.Value.Canonical

namespace KeyFigures

open Decimal (Normalizes IsExact IsReadable normalForm)

/-! ### Trees of texts and numbers -/

def Value.IsText (v : Value) : Prop := ∃ s, v = .text s

namespace Term

/-- A tree of formula nodes whose codes, bounds and ids are texts. -/
def Textual : Term → Prop
  | .account (.starting code) => code.IsText
  | .account (.between first last) => first.IsText ∧ last.IsText
  | .constant _ => True
  | .binary left _ right => left.Textual ∧ right.Textual
  | .grouping inner => inner.Textual
  | .formula id => id.IsText
  | .unsupported .. | .foreign _ => False

/-- Every number of a tree satisfies `P`. -/
def AllConstants (P : Decimal → Prop) : Term → Prop
  | .constant value => P value
  | .binary left _ right => left.AllConstants P ∧ right.AllConstants P
  | .unsupported left _ right => left.AllConstants P ∧ right.AllConstants P
  | .grouping inner => inner.AllConstants P
  | .account _ | .formula _ | .foreign _ => True

/-- The tree with every number in its normal form. -/
def inNormalForm : Term → Term
  | .constant value => .constant value.normalForm
  | .binary left op right => .binary left.inNormalForm op right.inNormalForm
  | .unsupported left symbol right => .unsupported left.inNormalForm symbol right.inNormalForm
  | .grouping inner => .grouping inner.inNormalForm
  | t => t

theorem AllConstants.mono {P Q : Decimal → Prop} (h : ∀ d, P d → Q d) {t : Term}
    (ht : t.AllConstants P) : t.AllConstants Q := by
  induction t with
  | constant value => exact h value ht
  | binary left op right ihl ihr => exact ⟨ihl ht.1, ihr ht.2⟩
  | unsupported left symbol right ihl ihr => exact ⟨ihl ht.1, ihr ht.2⟩
  | grouping inner ih => exact ih ht
  | account | formula | foreign => trivial

theorem Textual.wellFormed {t : Term} (h : t.Textual) : t.WellFormed := by
  induction t with
  | binary left op right ihl ihr => exact ⟨ihl h.1, ihr h.2⟩
  | grouping inner ih => exact ih h
  | unsupported => exact h.elim
  | foreign => exact h.elim
  | _ => trivial

theorem Textual.inNormalForm {t : Term} (h : t.Textual) : t.inNormalForm.Textual := by
  induction t with
  | binary left op right ihl ihr => exact ⟨ihl h.1, ihr h.2⟩
  | grouping inner ih => exact ih h
  | _ => exact h

theorem allConstants_isReadable_inNormalForm {t : Term} (h : t.AllConstants Normalizes) :
    t.inNormalForm.AllConstants IsReadable := by
  induction t with
  | constant value => exact Decimal.normalForm_isReadable h
  | binary left op right ihl ihr => exact ⟨ihl h.1, ihr h.2⟩
  | unsupported left symbol right ihl ihr => exact ⟨ihl h.1, ihr h.2⟩
  | grouping inner ih => exact ih h
  | account | formula | foreign => trivial

/-! ### The data behind the key, with numbers in writing -/

/-- The members that describe a node, numbers being written. -/
def writtenMembers : Term → List (String × Value)
  | .account (.starting code) => [("t", .text "ref"), ("code", code)]
  | .account (.between first last) => [("t", .text "range"), ("start", first), ("end", last)]
  | .constant value => [("t", .text "const"), ("value", .text value.toText)]
  | .binary left op right =>
    [("t", .text "op"), ("op", .text (String.singleton op.symbol)),
      ("l", .object left.writtenMembers), ("r", .object right.writtenMembers)]
  | .grouping inner => [("t", .text "group"), ("inner", .object inner.writtenMembers)]
  | .formula id => [("t", .text "formula"), ("id", id)]
  | .unsupported .. | .foreign _ => []

theorem nodup_writtenMembers (t : Term) : (t.writtenMembers.map (·.1)).Nodup := by
  cases t with
  | account ref => cases ref <;> simp [writtenMembers]
  | _ => simp [writtenMembers]

theorem Textual.isPlain_writtenMembers {t : Term} (h : t.Textual) :
    (Value.object t.writtenMembers).IsPlain := by
  have htext : ∀ {v : Value}, v.IsText → v.IsPlain := by
    rintro v ⟨s, rfl⟩
    exact .text s
  induction t with
  | account ref =>
    cases ref with
    | starting code =>
      refine .object ?_ (nodup_writtenMembers _)
      simp only [writtenMembers, List.forall_mem_cons]
      exact ⟨.text _, htext h, nofun⟩
    | between first last =>
      refine .object ?_ (nodup_writtenMembers _)
      simp only [writtenMembers, List.forall_mem_cons]
      exact ⟨.text _, htext h.1, htext h.2, nofun⟩
  | constant value =>
    refine .object ?_ (nodup_writtenMembers _)
    simp only [writtenMembers, List.forall_mem_cons]
    exact ⟨.text _, .text _, nofun⟩
  | binary left op right ihl ihr =>
    refine .object ?_ (nodup_writtenMembers _)
    simp only [writtenMembers, List.forall_mem_cons]
    exact ⟨.text _, .text _, ihl h.1, ihr h.2, nofun⟩
  | grouping inner ih =>
    refine .object ?_ (nodup_writtenMembers _)
    simp only [writtenMembers, List.forall_mem_cons]
    exact ⟨.text _, ih h, nofun⟩
  | formula id =>
    refine .object ?_ (nodup_writtenMembers _)
    simp only [writtenMembers, List.forall_mem_cons]
    exact ⟨.text _, htext h, nofun⟩
  | unsupported => exact h.elim
  | foreign => exact h.elim

theorem canonicalChars_object_congr {ms ns : List (String × Value)}
    (h : Value.canonicalMembers ms = Value.canonicalMembers ns) :
    (Value.object ms).canonicalChars = (Value.object ns).canonicalChars := by
  rw [Value.canonicalChars, Value.canonicalChars, h]

/-- A tree of texts has data, whose canonical text is that of the written data
    of its normal form. -/
theorem Textual.payload {t : Term} (ht : t.Textual) (hc : t.AllConstants Normalizes) :
    ∃ v, t.payload = .ok v ∧
      v.canonicalChars = (Value.object t.inNormalForm.writtenMembers).canonicalChars := by
  induction t with
  | account ref => cases ref <;> exact ⟨_, rfl, rfl⟩
  | constant value =>
    refine ⟨_, rfl, canonicalChars_object_congr ?_⟩
    have hdecimal : (Value.decimal value).canonicalChars =
        (Attempt.ofDecimal value.normalize).map fun d => Value.jsonText d.toText := by
      rw [Value.canonicalChars]
    have hvalue : (Value.decimal value).canonicalChars =
        (Value.text value.normalForm.toText).canonicalChars := by
      rw [hdecimal, Decimal.normalize_eq hc]
      rfl
    simp only [Term.inNormalForm, writtenMembers, Value.canonicalMembers, hvalue]
  | binary left op right ihl ihr =>
    obtain ⟨l, hl, hlc⟩ := ihl ht.1 hc.1
    obtain ⟨r, hr, hrc⟩ := ihr ht.2 hc.2
    refine ⟨_, by rw [Term.payload, hl, hr]; rfl, canonicalChars_object_congr ?_⟩
    simp only [Term.inNormalForm, writtenMembers, Value.canonicalMembers, hlc, hrc]
  | grouping inner ih =>
    obtain ⟨v, hv, hvc⟩ := ih ht hc
    refine ⟨_, by rw [Term.payload, hv]; rfl, canonicalChars_object_congr ?_⟩
    simp only [Term.inNormalForm, writtenMembers, Value.canonicalMembers, hvc]
  | formula id => exact ⟨_, rfl, rfl⟩
  | unsupported => exact ht.elim
  | foreign => exact ht.elim

theorem member_congr {t u : Term}
    (h : (Value.object t.writtenMembers).arranged = (Value.object u.writtenMembers).arranged)
    (name : String) :
    (Value.lookup? t.writtenMembers name).map Value.arranged =
      (Value.lookup? u.writtenMembers name).map Value.arranged :=
  Value.arranged_lookup?_congr (nodup_writtenMembers t) (nodup_writtenMembers u) h name

theorem symbol_injective {op op' : Operator} (h : op.symbol = op'.symbol) : op = op' := by
  have hop := Operator.ofChar?_symbol op
  rw [h, Operator.ofChar?_symbol] at hop
  exact (Option.some.inj hop).symm

/-- The tag of a node. -/
def tag : Term → String
  | .account (.starting _) => "ref"
  | .account (.between ..) => "range"
  | .constant _ => "const"
  | .binary .. => "op"
  | .grouping _ => "group"
  | .formula _ => "formula"
  | .unsupported .. | .foreign _ => ""

theorem Textual.lookup?_tag {t : Term} (h : t.Textual) :
    Value.lookup? t.writtenMembers "t" = some (.text t.tag) := by
  cases t with
  | account ref => cases ref <;> rfl
  | unsupported => exact h.elim
  | foreign => exact h.elim
  | _ => rfl

theorem tag_congr {t u : Term} (ht : t.Textual) (hu : u.Textual)
    (h : (Value.object t.writtenMembers).arranged = (Value.object u.writtenMembers).arranged) :
    t.tag = u.tag := by
  have htag := member_congr h "t"
  rw [ht.lookup?_tag, hu.lookup?_tag] at htag
  simpa using htag

/-- The written data of a tree is arranged like that of no other tree. -/
theorem eq_of_writtenMembers {t u : Term} (ht : t.Textual) (hu : u.Textual)
    (htc : t.AllConstants IsReadable) (huc : u.AllConstants IsReadable)
    (h : (Value.object t.writtenMembers).arranged = (Value.object u.writtenMembers).arranged) :
    t = u := by
  -- the tag tells the node, the other members tell its parts
  have htag := tag_congr ht hu h
  induction t generalizing u with
  | account ref =>
    cases ref with
    | starting code =>
      rcases u with (code' | _) | _ | _ | _ | _ | _ | _ <;> simp [tag] at htag
      obtain ⟨s, rfl⟩ := ht
      obtain ⟨s', rfl⟩ := hu
      have hcode := member_congr h "code"
      simp [writtenMembers, Value.lookup?] at hcode
      rw [hcode]
    | between first last =>
      rcases u with (_ | ⟨first', last'⟩) | _ | _ | _ | _ | _ | _ <;> simp [tag] at htag
      obtain ⟨⟨s, rfl⟩, r, rfl⟩ := ht
      obtain ⟨⟨s', rfl⟩, r', rfl⟩ := hu
      have hfirst := member_congr h "start"
      have hlast := member_congr h "end"
      simp [writtenMembers, Value.lookup?] at hfirst hlast
      rw [hfirst, hlast]
  | constant value =>
    rcases u with (_ | _) | value' | _ | _ | _ | _ | _ <;> simp [tag] at htag
    have hvalue := member_congr h "value"
    simp [writtenMembers, Value.lookup?] at hvalue
    rw [Decimal.toText_injective htc huc hvalue]
  | binary left op right ihl ihr =>
    rcases u with (_ | _) | _ | ⟨left', op', right'⟩ | _ | _ | _ | _ <;> simp [tag] at htag
    have hop := member_congr h "op"
    have hl := member_congr h "l"
    have hr := member_congr h "r"
    simp [writtenMembers, Value.lookup?] at hop hl hr
    rw [ihl ht.1 hu.1 htc.1 huc.1 hl (tag_congr ht.1 hu.1 hl), symbol_injective hop,
      ihr ht.2 hu.2 htc.2 huc.2 hr (tag_congr ht.2 hu.2 hr)]
  | grouping inner ih =>
    rcases u with (_ | _) | _ | _ | inner' | _ | _ | _ <;> simp [tag] at htag
    have hinner := member_congr h "inner"
    simp [writtenMembers, Value.lookup?] at hinner
    rw [ih (u := inner') ht hu htc huc hinner (tag_congr (t := inner) (u := inner') ht hu hinner)]
  | formula id =>
    rcases u with (_ | _) | _ | _ | _ | id' | _ | _ <;> simp [tag] at htag
    obtain ⟨s, rfl⟩ := ht
    obtain ⟨s', rfl⟩ := hu
    have hid := member_congr h "id"
    simp [writtenMembers, Value.lookup?] at hid
    rw [hid]
  | unsupported => exact ht.elim
  | foreign => exact ht.elim

end Term

/-! ### The text behind the key -/

/-- The result kind as it enters the key; there may be none. -/
def kindData (kind : Option ResultKind) : Value := (kind.map ResultKind.word).getD .null

/-- The text that is digested into the key of a body. -/
def keyText (t : Term) (kind : Value) : Attempt String := keyPayload t kind >>= Value.canonical

theorem formulaKey_eq (t : Term) (kind : Value) :
    formulaKey t kind =
      (keyText t kind).map fun s => String.ofList ((Digest.ofText s).toList.take keyLength) := by
  unfold formulaKey keyText Value.digest
  cases keyPayload t kind with
  | error f => rfl
  | ok v =>
    simp only [bind, Except.bind]
    cases v.canonical <;> rfl

/-- The written data behind the key. -/
def writtenKey (t : Term) (kind : Value) : Value :=
  .object [("ast", .object t.inNormalForm.writtenMembers), ("kind", kind)]

theorem isPlain_writtenKey {t : Term} {kind : Value} (ht : t.Textual) (hkind : kind.IsPlain) :
    (writtenKey t kind).IsPlain := by
  refine .object ?_ (by simp)
  simp only [List.forall_mem_cons]
  exact ⟨ht.inNormalForm.isPlain_writtenMembers, hkind, nofun⟩

theorem keyText_eq {t : Term} {kind : Value} (ht : t.Textual) (hc : t.AllConstants Normalizes) :
    keyText t kind = (writtenKey t kind).canonical := by
  obtain ⟨v, hv, hcanonical⟩ := ht.payload hc
  have hchars : (Value.object [("ast", v), ("kind", kind)]).canonicalChars =
      (writtenKey t kind).canonicalChars := by
    apply Term.canonicalChars_object_congr
    simp only [Value.canonicalMembers, hcanonical]
  unfold keyText keyPayload
  rw [hv]
  show (Value.object [("ast", v), ("kind", kind)]).canonical = _
  rw [Value.canonical, hchars]
  rfl

/-- Only the normal form of a body enters the text. -/
theorem keyText_congr (kind : Value) {t u : Term} (ht : t.Textual) (hu : u.Textual)
    (htc : t.AllConstants Normalizes) (huc : u.AllConstants Normalizes)
    (h : t.inNormalForm = u.inNormalForm) : keyText t kind = keyText u kind := by
  rw [keyText_eq ht htc, keyText_eq hu huc, writtenKey, writtenKey, h]

/-- A body has a text for its key. -/
theorem exists_keyText_eq {t : Term} {kind : Value} (ht : t.Textual)
    (hc : t.AllConstants Normalizes) (hkind : kind.IsPlain) : ∃ s, keyText t kind = .ok s := by
  rw [keyText_eq ht hc, Value.canonical, Value.canonicalChars_eq (isPlain_writtenKey ht hkind)]
  exact ⟨_, rfl⟩

/-- The text for the key of an amount that is the number `n` in normal form. -/
def numberText (n : Decimal) : String :=
  String.ofList ("\x7b\"ast\":\x7b\"t\":\"const\",\"value\":".toList ++ Value.jsonText n.toText ++
    "\x7d,\"kind\":\"amount\"\x7d".toList)

theorem keyText_constant {d n : Decimal} (h : d.normalize = .ok n) :
    keyText (.constant d) ResultKind.amount.word = .ok (numberText n) := by
  have hast : Value.jsonText "ast" = "\"ast\"".toList := by decide +kernel
  have hkind : Value.jsonText "kind" = "\"kind\"".toList := by decide +kernel
  have hword : (Value.text "amount").canonicalChars = .ok "\"amount\"".toList := by decide +kernel
  have ht : Value.jsonText "t" = "\"t\"".toList := by decide +kernel
  have hconst : Value.jsonText "const" = "\"const\"".toList := by decide +kernel
  have hvalue : Value.jsonText "value" = "\"value\"".toList := by decide +kernel
  have htree : (Value.object [("t", .text "const"), ("value", .decimal d)]).canonicalChars =
      .ok ("\x7b\"t\":\"const\",\"value\":".toList ++ Value.jsonText n.toText ++ ['\x7d']) := by
    simp only [Value.canonicalChars, Value.canonicalMembers]
    rw [Value.sortMembers_pair (by decide), h, ht, hconst, hvalue]
    simp [Attempt.ofDecimal, Except.map, Value.joined, bind, Except.bind, pure, Except.pure]
  have hpayload : keyPayload (.constant d) ResultKind.amount.word =
      .ok (.object [("ast", .object [("t", .text "const"), ("value", .decimal d)]),
        ("kind", .text "amount")]) := rfl
  have hchars : (Value.object [("ast", .object [("t", .text "const"), ("value", .decimal d)]),
      ("kind", .text "amount")]).canonicalChars = .ok
        ("\x7b\"ast\":\x7b\"t\":\"const\",\"value\":".toList ++ Value.jsonText n.toText ++
          "\x7d,\"kind\":\"amount\"\x7d".toList) := by
    rw [Value.canonicalChars]
    simp only [Value.canonicalMembers]
    rw [Value.sortMembers_pair (by decide), htree, hast, hkind, hword]
    simp [Except.map, Value.joined, bind, Except.bind, pure, Except.pure]
  unfold keyText
  rw [hpayload]
  exact congrArg (Except.map String.ofList) hchars

/-- Bodies with one text have one kind and, in normal form, one tree. -/
theorem inNormalForm_eq_of_keyText {t u : Term} {kind kind' : Value} (ht : t.Textual)
    (hu : u.Textual) (htc : t.AllConstants Normalizes) (huc : u.AllConstants Normalizes)
    (hkind : kind.IsPlain) (hkind' : kind'.IsPlain) (h : keyText t kind = keyText u kind') :
    kind.arranged = kind'.arranged ∧ t.inNormalForm = u.inNormalForm := by
  have hplain := isPlain_writtenKey ht hkind
  have hplain' := isPlain_writtenKey hu hkind'
  rw [keyText_eq ht htc, keyText_eq hu huc, Value.canonical, Value.canonical,
    Value.canonicalChars_eq hplain, Value.canonicalChars_eq hplain'] at h
  have hchars : (writtenKey t kind).arranged.jsonChars = (writtenKey u kind').arranged.jsonChars :=
    String.ofList_injective (Except.ok.inj h)
  have harranged := Value.jsonChars_injective hplain.arranged hplain'.arranged hchars
  have hast := Value.arranged_lookup?_congr (by simp) (by simp) harranged "ast"
  have hword := Value.arranged_lookup?_congr (by simp) (by simp) harranged "kind"
  simp only [Value.lookup?, List.find?_cons, BEq.rfl, Option.map_some, Option.some.injEq] at hast
  simp [Value.lookup?] at hword
  exact ⟨hword, Term.eq_of_writtenMembers ht.inNormalForm hu.inNormalForm
    (Term.allConstants_isReadable_inNormalForm htc)
    (Term.allConstants_isReadable_inNormalForm huc) hast⟩

theorem isPlain_kindData {kind : Option ResultKind} (h : ∀ k ∈ kind, k.IsProper) :
    (kindData kind).IsPlain := by
  rcases kind with _ | ⟨_ | _ | _ | word⟩
  · exact .null
  · exact .text _
  · exact .text _
  · exact .text _
  · exact (h _ rfl).elim

theorem kindData_injective {kind kind' : Option ResultKind} (h : ∀ k ∈ kind, k.IsProper)
    (h' : ∀ k ∈ kind', k.IsProper)
    (heq : (kindData kind).arranged = (kindData kind').arranged) : kind = kind' := by
  have hnull : Value.null.arranged = .null := by rw [Value.arranged] <;> simp
  rcases kind with _ | ⟨_ | _ | _ | word⟩ <;> rcases kind' with _ | ⟨_ | _ | _ | word'⟩ <;>
    first
      | rfl
      | exact (h _ rfl).elim
      | exact (h' _ rfl).elim
      | simp [kindData, ResultKind.word, hnull] at heq

theorem AccountReference.Readable.textual {ref : AccountReference} (h : ref.Readable) :
    (Term.account ref).Textual := by
  unfold AccountReference.Readable at h
  split at h
  · exact ⟨_, rfl⟩
  · exact ⟨⟨_, rfl⟩, _, rfl⟩
  · exact h.elim

/-- A tree that formula text can hold is a tree of texts. -/
theorem Term.textual_of_readable {t : Term} (ht : t.WellFormed) (h : ∀ x ∈ t.tokens, x.Readable) :
    t.Textual := by
  induction t with
  | account ref => exact AccountReference.Readable.textual (h _ List.mem_cons_self)
  | constant value => trivial
  | binary left op right ihl ihr =>
    refine ⟨ihl ht.1 fun x hx => h x ?_, ihr ht.2 fun x hx => h x ?_⟩
    · simp [Term.tokens, hx]
    · simp [Term.tokens, hx]
  | grouping inner ih => exact ih ht fun x hx => h x (by simp [Term.tokens, hx])
  | formula id =>
    have hid := h _ List.mem_cons_self
    cases id with
    | text s => exact ⟨s, rfl⟩
    | _ => exact hid.elim
  | unsupported => exact ht.elim
  | foreign => exact ht.elim

theorem textual_of_parseText {s : String} {t : Term} (h : parseText s = .ok t) : t.Textual := by
  obtain ⟨hphrase, hreadable⟩ := phrase_of_parseText h
  exact Term.textual_of_readable hphrase.wellFormed hreadable

/-- Numbers that fit the working range may be brought to their normal form. -/
theorem Term.Textual.evaluatesLike_inNormalForm {t : Term} (ht : t.Textual)
    (h : t.AllConstants IsExact) : t.inNormalForm.EvaluatesLike t := by
  induction t with
  | constant value => exact Term.evaluatesLike_constant (Decimal.normalForm_agrees h)
  | binary left op right ihl ihr => exact (ihl ht.1 h.1).binary op (ihr ht.2 h.2)
  | grouping inner ih => exact (ih ht h).grouping
  | account | formula => exact Term.EvaluatesLike.refl _
  | unsupported => exact ht.elim
  | foreign => exact ht.elim

theorem Term.Textual.evaluatesLike_of_inNormalForm {t u : Term} (ht : t.Textual) (hu : u.Textual)
    (htc : t.AllConstants IsExact) (huc : u.AllConstants IsExact)
    (h : t.inNormalForm = u.inNormalForm) : t.EvaluatesLike u :=
  (ht.evaluatesLike_inNormalForm htc).symm.trans (h ▸ hu.evaluatesLike_inNormalForm huc)

/-- A body whose numbers fit the working range has, under one key text, the kind
    and on every ledger the figures of every other such body. -/
theorem evaluatesLike_of_keyText {t u : Term} {k k' : ResultKind} (ht : t.Textual)
    (hu : u.Textual) (htc : t.AllConstants IsExact) (huc : u.AllConstants IsExact)
    (hk : k.IsProper) (hk' : k'.IsProper) (h : keyText t k.word = keyText u k'.word) :
    k = k' ∧ t.EvaluatesLike u := by
  have hsome : ∀ x ∈ some k, x.IsProper := by simpa using hk
  have hsome' : ∀ x ∈ some k', x.IsProper := by simpa using hk'
  have hexact : ∀ d : Decimal, d.IsExact → d.Normalizes := fun _ hd => hd.normalizes
  obtain ⟨hword, htree⟩ := inNormalForm_eq_of_keyText ht hu (htc.mono hexact) (huc.mono hexact)
    (isPlain_kindData hsome) (isPlain_kindData hsome') h
  have hkinds := kindData_injective hsome hsome' hword
  exact ⟨Option.some.inj hkinds, ht.evaluatesLike_of_inNormalForm hu htc huc htree⟩

/-- **No aliasing of formula keys.**  Two formula texts whose numbers fit the
    working range and whose bodies have one text for their key have one kind,
    and on every ledger their results agree. -/
theorem figures_of_keyText_eq {s s' : String} {t u : Term} {k k' : ResultKind}
    (ht : parseText s = .ok t) (hu : parseText s' = .ok u) (htc : t.AllConstants IsExact)
    (huc : u.AllConstants IsExact) (hk : k.IsProper) (hk' : k'.IsProper)
    (h : keyText t k.word = keyText u k'.word) :
    k = k' ∧ ∀ balances, Alike Result.Agrees (t.result balances k) (u.result balances k') := by
  obtain ⟨rfl, hlike⟩ := evaluatesLike_of_keyText (textual_of_parseText ht)
    (textual_of_parseText hu) htc huc hk hk' h
  exact ⟨rfl, fun balances => hlike.result balances k⟩

/-- The same number with one and with three places. -/
theorem figures_of_keyText_eq_places :
    ∃ t u, parseText "[10] * 1.5" = .ok t ∧ parseText "[10]*1.500" = .ok u ∧
      keyText t ResultKind.ratio.word = keyText u ResultKind.ratio.word ∧
      ∀ balances, Alike Result.Agrees (t.result balances .ratio) (u.result balances .ratio) := by
  have ht : parseText "[10] * 1.5" = .ok
      (.binary (.account (.starting (.text "10"))) .mul (.constant (.finite false 15 (-1)))) := by
    cbv
  have hu : parseText "[10]*1.500" = .ok
      (.binary (.account (.starting (.text "10"))) .mul (.constant (.finite false 1500 (-3)))) := by
    cbv
  have hone : (Decimal.finite false 15 (-1)).IsExact :=
    Decimal.isExact_of_digits (by decide +kernel) (by decide) (by decide +kernel)
  have hthree : (Decimal.finite false 1500 (-3)).IsExact :=
    Decimal.isExact_of_digits (by decide +kernel) (by decide) (by decide +kernel)
  have hkey := keyText_congr ResultKind.ratio.word (textual_of_parseText ht)
    (textual_of_parseText hu) ⟨trivial, hone.normalizes⟩ ⟨trivial, hthree.normalizes⟩
    (by decide +kernel)
  have hratio : ResultKind.ratio.IsProper := trivial
  exact ⟨_, _, ht, hu, hkey, (figures_of_keyText_eq ht hu ⟨trivial, hone⟩ ⟨trivial, hthree⟩
    hratio hratio hkey).2⟩

/-- Two numbers of thirty digits are rounded to one in the key and kept as they
    are in the evaluation. -/
theorem not_figures_of_keyText_eq :
    ∃ t u, parseText "1.00000000000000000000000000001" = .ok t ∧
      parseText "1.00000000000000000000000000002" = .ok u ∧
      keyText t ResultKind.amount.word = keyText u ResultKind.amount.word ∧
      ¬ Alike Result.Agrees (t.result [] .amount) (u.result [] .amount) := by
  have ht : parseText "1.00000000000000000000000000001" = .ok
      (.constant (.finite false 100000000000000000000000000001 (-29))) := by
    cbv
  have hu : parseText "1.00000000000000000000000000002" = .ok
      (.constant (.finite false 100000000000000000000000000002 (-29))) := by
    cbv
  have hkey := keyText_congr ResultKind.amount.word (textual_of_parseText ht)
    (textual_of_parseText hu) ⟨rfl, by decide +kernel⟩ ⟨rfl, by decide +kernel⟩ (by decide +kernel)
  refine ⟨_, _, ht, hu, hkey, fun h => ?_⟩
  have hagrees : Decimal.Agrees (.finite false 100000000000000000000000000001 (-29))
      (.finite false 100000000000000000000000000002 (-29)) :=
    Result.Agrees.value_agrees h _ _ rfl rfl
  cases hagrees with
  | finite h => norm_num [Decimal.toRat, Decimal.signed] at h

end KeyFigures
