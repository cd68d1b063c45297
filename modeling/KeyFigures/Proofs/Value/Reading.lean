/-
  KeyFigures/Proofs/Value/Reading.lean
  ====================================
  **Written data reads back.**

  The JSON text of plain data is read as just that data, and the reader stops
  where the text ends (`readValue_jsonChars`).  So no text of plain data is the
  beginning of another one, and different data has different texts
  (`jsonChars_append_inj`).

  The reader counts its steps down from a number it is given; how many it needs
  does not matter here, and the statements speak of all large enough numbers.
-/
import KeyFigures.Value.Json
import KeyFigures.Proofs.Text.Classes

namespace KeyFigures.Value

open KeyFigures.Text

/-! ### Escapes -/

theorem hexValue?_hexDigit {d : Nat} (h : d < 16) : hexValue? (hexDigit d) = some d := by
  have hall : ∀ d : Fin 16, hexValue? (hexDigit d) = some d.val := by decide
  exact hall ⟨d, h⟩

/-- Four hexadecimal digits read back. -/
theorem readHex?_hexDigits {n : Nat} (h : n < 0x10000) (rest : List Char) :
    readHex? (hexDigits 4 n ++ rest) = some (n, rest) := by
  have hdigits : hexDigits 4 n = [hexDigit (n / 16 / 16 / 16 % 16), hexDigit (n / 16 / 16 % 16),
    hexDigit (n / 16 % 16), hexDigit (n % 16)] := rfl
  have hfield : ((hexDigits 4 n ++ rest).take 4).mapM hexValue? =
      some [n / 16 / 16 / 16 % 16, n / 16 / 16 % 16, n / 16 % 16, n % 16] := by
    rw [hdigits]
    simp only [List.cons_append, List.take_succ_cons, List.take_zero, List.mapM_cons,
      List.mapM_nil, hexValue?_hexDigit (Nat.mod_lt _ (by norm_num : 0 < 16))]
    rfl
  have hdrop : (hexDigits 4 n ++ rest).drop 4 = rest := rfl
  unfold readHex?
  rw [hfield, hdrop]
  simp only [Option.bind_eq_bind, Option.bind_some, List.length_cons, List.length_nil,
    List.foldl_cons, List.foldl_nil, if_true, Option.some.injEq, Prod.mk.injEq, and_true]
  omega

theorem readUnicode?_of_code {cs rest : List Char} {n : Nat} (h : readHex? cs = some (n, rest))
    (hn : ¬(0xD800 ≤ n ∧ n < 0xDC00)) : readUnicode? cs = some (Char.ofNat n, rest) := by
  unfold readUnicode?
  rw [h]
  simp only [Option.bind_eq_bind, Option.bind_some, if_neg hn]

theorem readUnicode?_of_pair {cs r rest : List Char} {n low : Nat}
    (h : readHex? cs = some (n, '\\' :: 'u' :: r)) (hlow : readHex? r = some (low, rest))
    (hn : 0xD800 ≤ n ∧ n < 0xDC00) :
    readUnicode? cs =
      some (Char.ofNat (0x10000 + (n - 0xD800) * 0x400 + (low - 0xDC00)), rest) := by
  unfold readUnicode?
  rw [h]
  simp only [Option.bind_eq_bind, Option.bind_some, if_pos hn, hlow]

/-- A character escaped by its code, or by two codes, reads back. -/
theorem readUnicode?_unicodeEscape (c : Char) (rest : List Char) :
    ∃ r, unicodeEscape c ++ rest = '\\' :: 'u' :: r ∧ readUnicode? r = some (c, rest) := by
  have hvalid : c.toNat < 0xD800 ∨ 0xDFFF < c.toNat ∧ c.toNat < 0x110000 := c.valid
  have hchar : Char.ofNat c.toNat = c := Char.ofNat_toNat c
  unfold unicodeEscape
  generalize c.toNat = n at hvalid hchar
  dsimp only
  by_cases hsmall : n < 0x10000
  · rw [if_pos hsmall]
    refine ⟨hexDigits 4 n ++ rest, by simp only [List.cons_append], ?_⟩
    rw [readUnicode?_of_code (readHex?_hexDigits hsmall rest) (by omega), hchar]
  · rw [if_neg hsmall]
    obtain ⟨high, hhigh⟩ : ∃ k, 0xD800 + (n - 0x10000) / 0x400 = k := ⟨_, rfl⟩
    obtain ⟨low, hlow⟩ : ∃ k, 0xDC00 + (n - 0x10000) % 0x400 = k := ⟨_, rfl⟩
    have hpair : 0x10000 + (high - 0xD800) * 0x400 + (low - 0xDC00) = n := by omega
    rw [hhigh, hlow]
    refine ⟨hexDigits 4 high ++ ('\\' :: 'u' :: (hexDigits 4 low ++ rest)), ?_, ?_⟩
    · simp only [List.cons_append, List.append_assoc]
    · rw [readUnicode?_of_pair (readHex?_hexDigits (by omega) _) (readHex?_hexDigits (by omega) _)
        (by omega), hpair, hchar]

/-! ### Texts -/

/-- One written character is read in one step. -/
theorem readTextChars_jsonChar (fuel : Nat) (c : Char) (rest read : List Char) :
    readTextChars (fuel + 1) (jsonChar c ++ rest) read = readTextChars fuel rest (c :: read) := by
  by_cases hmark : c = '"' ∨ c = '\\'
  · rcases hmark with rfl | rfl <;> rfl
  by_cases hspecial : c ∈ ['\n', '\r', '\t', Char.ofNat 8, Char.ofNat 12]
  · simp only [List.mem_cons, List.not_mem_nil, or_false] at hspecial
    rcases hspecial with rfl | rfl | rfl | rfl | rfl <;> rfl
  simp only [List.mem_cons, List.not_mem_nil, or_false, not_or] at hspecial hmark
  unfold jsonChar
  simp only [hmark, hspecial, or_self, if_false]
  by_cases hplain : 0x20 ≤ c.toNat ∧ c.toNat < 0x7F
  · rw [if_pos hplain, List.singleton_append, readTextChars]
    · exact fun heq => hmark.1 heq
    · exact fun r heq _ => hmark.2 heq
    · exact fun d r heq => absurd heq hmark.2
  · obtain ⟨r, heq, hread⟩ := readUnicode?_unicodeEscape c rest
    rw [if_neg hplain, heq, readTextChars, hread]

theorem readTextChars_flatMap (cs : List Char) : ∀ (fuel : Nat) (rest read : List Char),
    cs.length < fuel →
      readTextChars fuel (cs.flatMap jsonChar ++ '"' :: rest) read = some (read.reverse ++ cs, rest) := by
  induction cs with
  | nil =>
    intro fuel rest read h
    obtain ⟨fuel, rfl⟩ : ∃ k, fuel = k + 1 := ⟨fuel - 1, by simp at h; omega⟩
    simp [readTextChars]
  | cons c cs ih =>
    intro fuel rest read h
    obtain ⟨fuel, rfl⟩ : ∃ k, fuel = k + 1 := ⟨fuel - 1, by simp at h; omega⟩
    rw [List.flatMap_cons, List.append_assoc, readTextChars_jsonChar, ih _ _ _ (by simpa using h)]
    simp

theorem jsonChar_ne_nil (c : Char) : jsonChar c ≠ [] := by
  unfold jsonChar unicodeEscape
  dsimp only
  split_ifs <;> simp

theorem length_le_flatMap_jsonChar (cs : List Char) : cs.length ≤ (cs.flatMap jsonChar).length := by
  induction cs with
  | nil => simp
  | cons c cs ih =>
    have := List.length_pos_iff.mpr (jsonChar_ne_nil c)
    simp only [List.length_cons, List.flatMap_cons, List.length_append]
    omega

/-- A written text reads back, up to its closing mark. -/
theorem readText?_jsonText (s : String) (rest : List Char) :
    ∃ r, jsonText s ++ rest = '"' :: r ∧ readText? r = some (s, rest) := by
  refine ⟨s.toList.flatMap jsonChar ++ '"' :: rest, by simp [jsonText], ?_⟩
  have hlength := length_le_flatMap_jsonChar s.toList
  unfold readText?
  rw [readTextChars_flatMap]
  · simp
  · simp only [List.length_append, List.length_cons]
    omega

/-! ### Whole numbers -/

/-- What may stand behind a value: nothing, or what separates or closes. -/
def EndsValue (rest : List Char) : Prop :=
  ∀ c ∈ rest.head?, c = ',' ∨ c = ']' ∨ c = '\x7d'

theorem endsValue_cons {c : Char} (h : c = ',' ∨ c = ']' ∨ c = '\x7d') (rest : List Char) :
    EndsValue (c :: rest) := by
  rintro d ⟨⟩
  exact h

theorem asciiDigit_of_mem_digits (n : Nat) : ∀ c ∈ digits n, c.isDigit = true := by
  have hdigit : ∀ d : Fin 10, (digitChar d).isDigit = true := by decide
  induction n using digits.induct with
  | case1 n h =>
    rw [digits, if_pos h]
    intro c hc
    obtain rfl := List.mem_singleton.mp hc
    exact hdigit ⟨n, h⟩
  | case2 n h ih =>
    rw [digits, if_neg h]
    intro c hc
    rcases List.mem_append.mp hc with hc | hc
    · exact ih c hc
    · obtain rfl := List.mem_singleton.mp hc
      exact hdigit ⟨n % 10, Nat.mod_lt n (by norm_num)⟩

/-- The part of a number behind its sign. -/
theorem readNumber?_digits (n : Nat) {rest : List Char} (h : EndsValue rest) :
    (digits n ++ rest).takeWhile Char.isDigit = digits n ∧
      (digits n ++ rest).dropWhile Char.isDigit = rest := by
  have hstop : StopsAt Char.isDigit rest := by
    intro c hc
    rcases h c hc with rfl | rfl | rfl <;> decide
  exact ⟨takeWhile_append_stop (asciiDigit_of_mem_digits n) hstop,
    dropWhile_append_stop (asciiDigit_of_mem_digits n) hstop⟩

theorem exists_digits_eq (n : Nat) : ∃ d ds, digits n = d :: ds ∧ d.isDigit = true := by
  obtain ⟨d, ds, heq⟩ := List.exists_cons_of_ne_nil (digits_ne_nil n)
  exact ⟨d, ds, heq, asciiDigit_of_mem_digits n d (by simp [heq])⟩

/-- A row of digits behind a sign that was read already. -/
theorem readNumber?_of_sign {cs rest : List Char} (negative : Bool) (n : Nat)
    (hsign : (match cs with | '-' :: r => (true, r) | r => (false, r)) =
      (negative, digits n ++ rest)) (h : EndsValue rest) :
    readNumber? cs = some (.int (if negative then -(n : Int) else n), rest) := by
  obtain ⟨htake, hdrop⟩ := readNumber?_digits n h
  have hne : (digits n).isEmpty = false := by simpa using digits_ne_nil n
  unfold readNumber?
  split
  rename_i negative' cs' heq
  obtain ⟨rfl, rfl⟩ := Prod.mk.inj (heq.symm.trans hsign)
  simp only [htake, hdrop, hne, Bool.false_eq_true, if_false, valueOf_digits]
  -- behind the digits there is neither a point nor a power of ten
  cases rest with
  | nil => rfl
  | cons c r => rcases h c rfl with rfl | rfl | rfl <;> rfl

theorem readNumber?_signedDigits (n : Int) {rest : List Char} (h : EndsValue rest) :
    readNumber? (signedDigits n ++ rest) = some (.int n, rest) := by
  unfold signedDigits
  by_cases hn : n < 0
  · have hvalue : -(n.natAbs : Int) = n := by omega
    rw [if_pos hn, readNumber?_of_sign true n.natAbs rfl h, if_pos rfl, hvalue]
  · have hvalue : (n.natAbs : Int) = n := by omega
    obtain ⟨d, ds, heq, hd⟩ := exists_digits_eq n.natAbs
    have hminus : d ≠ '-' := by
      rintro rfl
      simp at hd
    rw [if_neg hn, readNumber?_of_sign false n.natAbs _ h,
      if_neg (by simp), hvalue]
    rw [heq, List.cons_append]
    split
    · rename_i hcons
      exact absurd (List.cons.inj hcons).1 hminus
    · rfl

/-! ### Values -/

/-- The first character of written plain data: no blank, and nothing that
    separates or closes. -/
def Opens (c : Char) : Prop :=
  c ∉ [' ', '\n', '\r', '\t', ',', ']', '\x7d']

theorem opens_of_isDigit {c : Char} (h : c.isDigit = true) : Opens c := by
  intro hmem
  simp only [List.mem_cons, List.not_mem_nil, or_false] at hmem
  rcases hmem with rfl | rfl | rfl | rfl | rfl | rfl | rfl <;> simp at h

theorem exists_digitChar_eq {c : Char} (h : c.isDigit = true) : ∃ d : Fin 10, digitChar d = c := by
  simp only [Char.isDigit, Bool.and_eq_true, decide_eq_true_eq] at h
  have hlow : 48 ≤ c.toNat := h.1
  have hhigh : c.toNat ≤ 57 := h.2
  refine ⟨⟨c.toNat - 48, by omega⟩, ?_⟩
  show Char.ofNat (48 + (c.toNat - 48)) = c
  rw [Nat.add_sub_cancel' hlow, Char.ofNat_toNat]

theorem exists_signedDigits_eq (n : Int) :
    ∃ c cs, signedDigits n = c :: cs ∧ (c = '-' ∧ (∃ d ds, cs = d :: ds ∧ d.isDigit = true) ∨
      c.isDigit = true) := by
  obtain ⟨d, ds, heq, hd⟩ := exists_digits_eq n.natAbs
  unfold signedDigits
  by_cases hn : n < 0
  · rw [if_pos hn]
    exact ⟨'-', _, rfl, .inl ⟨rfl, d, ds, heq, hd⟩⟩
  · rw [if_neg hn]
    exact ⟨d, ds, heq, .inr hd⟩

theorem IsPlain.exists_jsonChars_eq {v : Value} (h : v.IsPlain) :
    ∃ c cs, v.jsonChars = c :: cs ∧ Opens c := by
  cases h with
  | null => exact ⟨'n', _, rfl, by unfold Opens; decide⟩
  | bool b =>
    cases b with
    | true => exact ⟨'t', _, rfl, by unfold Opens; decide⟩
    | false => exact ⟨'f', _, rfl, by unfold Opens; decide⟩
  | int n =>
    obtain ⟨c, cs, heq, hc⟩ := exists_signedDigits_eq n
    refine ⟨c, cs, heq, ?_⟩
    rcases hc with ⟨rfl, -⟩ | hc
    · unfold Opens
      decide
    · exact opens_of_isDigit hc
  | text s => exact ⟨'"', _, rfl, by unfold Opens; decide⟩
  | list h => exact ⟨'[', _, rfl, by unfold Opens; decide⟩
  | object h hnames => exact ⟨'\x7b', _, rfl, by unfold Opens; decide⟩

theorem skipBlanks_of_opens {c : Char} (h : Opens c) (cs : List Char) :
    skipBlanks (c :: cs) = c :: cs := by
  simp only [Opens, List.mem_cons, List.not_mem_nil, or_false, not_or] at h
  simp [skipBlanks, h]

theorem skipBlanks_cons {c : Char} (h : c = ',' ∨ c = ']' ∨ c = '\x7d' ∨ c = '"' ∨ c = ':')
    (cs : List Char) : skipBlanks (c :: cs) = c :: cs := by
  rcases h with rfl | rfl | rfl | rfl | rfl <;> rfl

/-! One step of the writer and of the reader: the first character decides what
is read. -/

theorem jsonChars_list (items : List Value) :
    (Value.list items).jsonChars = '[' :: jsonItems items ++ [']'] := rfl

theorem jsonChars_object (members : List (String × Value)) :
    (Value.object members).jsonChars = '\x7b' :: jsonMembers members ++ ['\x7d'] := rfl

theorem jsonItems_single (v : Value) : jsonItems [v] = v.jsonChars := rfl

theorem jsonItems_cons (v w : Value) (items : List Value) :
    jsonItems (v :: w :: items) = v.jsonChars ++ ',' :: jsonItems (w :: items) := rfl

theorem jsonMembers_single (name : String) (v : Value) :
    jsonMembers [(name, v)] = jsonText name ++ ':' :: v.jsonChars := rfl

theorem jsonMembers_cons (name : String) (v : Value) (m : String × Value)
    (members : List (String × Value)) :
    jsonMembers ((name, v) :: m :: members) =
      jsonText name ++ ':' :: v.jsonChars ++ ',' :: jsonMembers (m :: members) := rfl

theorem readValue_text (fuel : Nat) (cs : List Char) :
    readValue (fuel + 1) ('"' :: cs) = (readText? cs).map fun (s, r) => (.text s, r) := rfl

theorem readValue_list (fuel : Nat) (cs : List Char) :
    readValue (fuel + 1) ('[' :: cs) =
      match skipBlanks cs with
      | ']' :: r => some (.list [], r)
      | r => (readItems fuel r []).map fun (items, r) => (.list items, r) := rfl

theorem readValue_object (fuel : Nat) (cs : List Char) :
    readValue (fuel + 1) ('\x7b' :: cs) =
      match skipBlanks cs with
      | '\x7d' :: r => some (.object [], r)
      | r => (readMembers fuel r []).map fun (members, r) => (.object members, r) := rfl

theorem readValue_digit (fuel : Nat) {c : Char} (h : c.isDigit = true) (cs : List Char) :
    readValue (fuel + 1) (c :: cs) = readNumber? (c :: cs) := by
  obtain ⟨d, rfl⟩ := exists_digitChar_eq h
  fin_cases d <;> rfl

theorem readValue_minus (fuel : Nat) {c : Char} (h : c.isDigit = true) (cs : List Char) :
    readValue (fuel + 1) ('-' :: c :: cs) = readNumber? ('-' :: c :: cs) := by
  obtain ⟨d, rfl⟩ := exists_digitChar_eq h
  fin_cases d <;> rfl

/-- The data is read from the front of any text that may follow it. -/
def ReadsBack (v : Value) : Prop :=
  ∃ n, ∀ fuel, n ≤ fuel → ∀ rest, EndsValue rest →
    readValue fuel (v.jsonChars ++ rest) = some (v, rest)

theorem readsBack_int (n : Int) : ReadsBack (.int n) := by
  refine ⟨1, fun fuel hfuel rest hrest => ?_⟩
  obtain ⟨fuel, rfl⟩ : ∃ k, fuel = k + 1 := ⟨fuel - 1, by omega⟩
  have hread := readNumber?_signedDigits n hrest
  show readValue (fuel + 1) (signedDigits n ++ rest) = _
  obtain ⟨c, cs, heq, hc⟩ := exists_signedDigits_eq n
  rw [heq, List.cons_append] at hread ⊢
  rcases hc with ⟨rfl, d, ds, rfl, hd⟩ | hc
  · rw [List.cons_append] at hread ⊢
    rw [readValue_minus fuel hd, hread]
  · rw [readValue_digit fuel hc, hread]

theorem readItems_jsonItems {items : List Value} (h : ∀ v ∈ items, v.IsPlain)
    (hread : ∀ v ∈ items, ReadsBack v) (hne : items ≠ []) :
    ∃ n, ∀ fuel, n ≤ fuel → ∀ rest read, readItems fuel (jsonItems items ++ ']' :: rest) read =
      some (read.reverse ++ items, rest) := by
  induction items with
  | nil => exact absurd rfl hne
  | cons v items ih =>
    obtain ⟨n, hv⟩ := hread v List.mem_cons_self
    cases items with
    | nil =>
      refine ⟨n + 1, fun fuel hfuel rest read => ?_⟩
      obtain ⟨fuel, rfl⟩ : ∃ k, fuel = k + 1 := ⟨fuel - 1, by omega⟩
      rw [jsonItems_single, readItems, hv fuel (by omega) _ (endsValue_cons (by simp) _)]
      simp [skipBlanks_cons]
    | cons w items =>
      obtain ⟨m, hrest⟩ := ih (fun u hu => h u (List.mem_cons_of_mem _ hu))
        (fun u hu => hread u (List.mem_cons_of_mem _ hu)) (by simp)
      refine ⟨max n m + 1, fun fuel hfuel rest read => ?_⟩
      obtain ⟨fuel, rfl⟩ : ∃ k, fuel = k + 1 := ⟨fuel - 1, by omega⟩
      rw [jsonItems_cons, List.append_assoc, List.cons_append, readItems,
        hv fuel (by omega) _ (endsValue_cons (by simp) _)]
      simp only [skipBlanks_cons (.inl rfl)]
      rw [hrest fuel (by omega)]
      simp

theorem put_append {members : List (String × Value)} {name : String} (v : Value)
    (h : name ∉ members.map (·.1)) : put members name v = members ++ [(name, v)] := by
  have hany : members.any (·.1 == name) = false := by
    rw [List.any_eq_false]
    intro m hm heq
    exact h (List.mem_map.mpr ⟨m, hm, by simpa using heq⟩)
  rw [put, hany]
  rfl

theorem readMembers_jsonMembers {members : List (String × Value)}
    (hread : ∀ m ∈ members, ReadsBack m.2) (hne : members ≠ []) :
    ∃ n, ∀ fuel, n ≤ fuel → ∀ rest read, ((read ++ members).map (·.1)).Nodup →
      readMembers fuel (jsonMembers members ++ '\x7d' :: rest) read =
        some (read ++ members, rest) := by
  induction members with
  | nil => exact absurd rfl hne
  | cons m members ih =>
    obtain ⟨name, v⟩ := m
    obtain ⟨n, hv⟩ := hread (name, v) List.mem_cons_self
    have hnew : ∀ read : List (String × Value), ((read ++ (name, v) :: members).map (·.1)).Nodup →
        put read name v = read ++ [(name, v)] := by
      intro read hnodup
      apply put_append
      rw [List.map_append, List.nodup_append] at hnodup
      exact fun hmem => hnodup.2.2 _ hmem _ (by simp) rfl
    cases members with
    | nil =>
      refine ⟨n + 1, fun fuel hfuel rest read hnodup => ?_⟩
      obtain ⟨fuel, rfl⟩ : ∃ k, fuel = k + 1 := ⟨fuel - 1, by omega⟩
      obtain ⟨r, heq, htext⟩ := readText?_jsonText name (':' :: (v.jsonChars ++ '\x7d' :: rest))
      rw [jsonMembers_single, List.append_assoc, List.cons_append, heq, readMembers]
      simp only [skipBlanks_cons (.inr (.inr (.inr (.inl rfl)))), htext,
        skipBlanks_cons (.inr (.inr (.inr (.inr rfl)))),
        hv fuel (by omega) _ (endsValue_cons (.inr (.inr rfl)) _),
        skipBlanks_cons (.inr (.inr (.inl rfl))), hnew read hnodup]
    | cons m' members =>
      obtain ⟨k, hrest⟩ := ih (fun u hu => hread u (List.mem_cons_of_mem _ hu)) (by simp)
      refine ⟨max n k + 1, fun fuel hfuel rest read hnodup => ?_⟩
      obtain ⟨fuel, rfl⟩ : ∃ k, fuel = k + 1 := ⟨fuel - 1, by omega⟩
      obtain ⟨r, heq, htext⟩ := readText?_jsonText name
        (':' :: (v.jsonChars ++ ',' :: (jsonMembers (m' :: members) ++ '\x7d' :: rest)))
      have hchars : jsonMembers ((name, v) :: m' :: members) ++ '\x7d' :: rest = '"' :: r := by
        rw [← heq, jsonMembers_cons]
        simp
      rw [hchars, readMembers]
      simp only [skipBlanks_cons (.inr (.inr (.inr (.inl rfl)))), htext,
        skipBlanks_cons (.inr (.inr (.inr (.inr rfl)))),
        hv fuel (by omega) _ (endsValue_cons (.inl rfl) _), skipBlanks_cons (.inl rfl),
        hnew read hnodup]
      rw [hrest fuel (by omega) rest (read ++ [(name, v)]) (by simpa using hnodup)]
      simp

theorem IsPlain.jsonItems_opens {v : Value} (h : v.IsPlain) (items : List Value)
    (rest : List Char) : ∃ c cs, jsonItems (v :: items) ++ rest = c :: cs ∧ Opens c := by
  obtain ⟨c, cs, heq, hc⟩ := h.exists_jsonChars_eq
  cases items with
  | nil => exact ⟨c, cs ++ rest, by rw [jsonItems_single, heq]; rfl, hc⟩
  | cons w items =>
    refine ⟨c, cs ++ ',' :: jsonItems (w :: items) ++ rest, ?_, hc⟩
    rw [jsonItems_cons, heq]
    rfl

theorem jsonMembers_opens (name : String) (v : Value) (members : List (String × Value))
    (rest : List Char) : ∃ cs, jsonMembers ((name, v) :: members) ++ rest = '"' :: cs := by
  obtain ⟨cs, hcs⟩ : ∃ cs, jsonText name = '"' :: cs := ⟨_, rfl⟩
  cases members with
  | nil => exact ⟨_, by rw [jsonMembers_single, hcs]; rfl⟩
  | cons m members =>
    refine ⟨cs ++ ':' :: v.jsonChars ++ ',' :: jsonMembers (m :: members) ++ rest, ?_⟩
    rw [jsonMembers_cons, hcs]
    rfl

theorem readsBack_list {items : List Value} (h : ∀ v ∈ items, v.IsPlain)
    (hread : ∀ v ∈ items, ReadsBack v) : ReadsBack (.list items) := by
  cases items with
  | nil =>
    refine ⟨1, fun fuel hfuel rest hrest => ?_⟩
    obtain ⟨fuel, rfl⟩ : ∃ k, fuel = k + 1 := ⟨fuel - 1, by omega⟩
    rfl
  | cons v items =>
    obtain ⟨n, hitems⟩ := readItems_jsonItems h hread (by simp)
    refine ⟨n + 1, fun fuel hfuel rest hrest => ?_⟩
    obtain ⟨fuel, rfl⟩ : ∃ k, fuel = k + 1 := ⟨fuel - 1, by omega⟩
    obtain ⟨c, cs, heq, hc⟩ := (h v List.mem_cons_self).jsonItems_opens items (']' :: rest)
    have hclose : c ≠ ']' := by
      rintro rfl
      simp [Opens] at hc
    have hall := hitems fuel (by omega) rest []
    rw [heq] at hall
    have hchars : (Value.list (v :: items)).jsonChars ++ rest = '[' :: c :: cs := by
      rw [jsonChars_list, ← heq]
      simp
    rw [hchars, readValue_list, skipBlanks_of_opens hc]
    split
    · rename_i hcons
      exact absurd (List.cons.inj hcons).1 hclose
    · rw [hall]
      rfl

theorem readsBack_object {members : List (String × Value)}
    (hread : ∀ m ∈ members, ReadsBack m.2) (hnames : (members.map (·.1)).Nodup) :
    ReadsBack (.object members) := by
  cases members with
  | nil =>
    refine ⟨1, fun fuel hfuel rest hrest => ?_⟩
    obtain ⟨fuel, rfl⟩ : ∃ k, fuel = k + 1 := ⟨fuel - 1, by omega⟩
    rfl
  | cons m members =>
    obtain ⟨name, v⟩ := m
    obtain ⟨n, hmembers⟩ := readMembers_jsonMembers hread (by simp)
    refine ⟨n + 1, fun fuel hfuel rest hrest => ?_⟩
    obtain ⟨fuel, rfl⟩ : ∃ k, fuel = k + 1 := ⟨fuel - 1, by omega⟩
    obtain ⟨cs, heq⟩ := jsonMembers_opens name v members ('\x7d' :: rest)
    have hinner : skipBlanks ('"' :: cs) = '"' :: cs := rfl
    have hall := hmembers fuel (by omega) rest [] (by simpa using hnames)
    rw [heq] at hall
    have hchars : (Value.object ((name, v) :: members)).jsonChars ++ rest = '\x7b' :: '"' :: cs := by
      rw [jsonChars_object, ← heq]
      simp
    rw [hchars, readValue_object, hinner]
    split
    · rename_i hcons
      exact absurd (List.cons.inj hcons).1 (by decide)
    · rw [hall]
      rfl

/-- Plain data reads back. -/
theorem IsPlain.readsBack {v : Value} (h : v.IsPlain) : ReadsBack v := by
  induction h with
  | null => exact ⟨1, fun fuel hfuel rest _ => by
      obtain ⟨fuel, rfl⟩ : ∃ k, fuel = k + 1 := ⟨fuel - 1, by omega⟩
      rfl⟩
  | bool b => exact ⟨1, fun fuel hfuel rest _ => by
      obtain ⟨fuel, rfl⟩ : ∃ k, fuel = k + 1 := ⟨fuel - 1, by omega⟩
      cases b <;> rfl⟩
  | int n => exact readsBack_int n
  | text s => exact ⟨1, fun fuel hfuel rest _ => by
      obtain ⟨fuel, rfl⟩ : ∃ k, fuel = k + 1 := ⟨fuel - 1, by omega⟩
      obtain ⟨r, heq, htext⟩ := readText?_jsonText s rest
      show readValue (fuel + 1) (jsonText s ++ rest) = _
      rw [heq, readValue_text, htext]
      rfl⟩
  | list h ih => exact readsBack_list h ih
  | object h hnames ih => exact readsBack_object ih hnames

/-- The text of plain data shows where it ends and which data it is. -/
theorem jsonChars_append_inj {v w : Value} (hv : v.IsPlain) (hw : w.IsPlain) {r s : List Char}
    (hr : EndsValue r) (hs : EndsValue s) (h : v.jsonChars ++ r = w.jsonChars ++ s) :
    v = w ∧ r = s := by
  obtain ⟨n, hn⟩ := hv.readsBack
  obtain ⟨m, hm⟩ := hw.readsBack
  have hread := hn (max n m) (le_max_left n m) r hr
  rw [h, hm (max n m) (le_max_right n m) s hs] at hread
  simp only [Option.some.injEq, Prod.mk.injEq] at hread
  exact ⟨hread.1.symm, hread.2.symm⟩

theorem jsonChars_injective {v w : Value} (hv : v.IsPlain) (hw : w.IsPlain)
    (h : v.jsonChars = w.jsonChars) : v = w :=
  (jsonChars_append_inj hv hw (r := []) (s := []) nofun nofun (by rw [h])).1

end KeyFigures.Value
