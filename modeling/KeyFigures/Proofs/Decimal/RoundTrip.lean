/-
  KeyFigures/Proofs/Decimal/RoundTrip.lean
  ========================================
  **Written decimals read back.**

  Every decimal that a text may denote is read back from its text as the very
  same decimal, with its sign, its exponent and its payload (`ofText_toText`).
  The text of a finite number is a row of digits, perhaps with places and a
  power of ten behind it, and the number is what these parts denote.
-/
import KeyFigures.Proofs.Decimal.Plain

namespace KeyFigures.Decimal

open KeyFigures.Text

/-- The exponent is one that the text of a number may have. -/
def IsReadable : Decimal → Prop
  | .finite _ c e => (if c = 0 then e else adjusted c e) ≤ maxReadable ∧ minReadable ≤ e
  | .infinite _ | .nan .. => True

instance (x : Decimal) : Decidable x.IsReadable := by
  cases x <;> unfold IsReadable <;> infer_instance

/-! ### The parts of a finite number -/

theorem ofParts_of_rows {negative : Bool} {c : Nat} {e power : Int} {whole fraction : List Char}
    (hvalue : valueOf (whole ++ fraction) = c) (hexp : power - fraction.length = e)
    (h : (finite negative c e).IsReadable) :
    ofParts negative whole fraction power = .ok (.finite negative c e) := by
  have hin : ¬(maxReadable < (if c = 0 then e else adjusted c e) ∨ e < minReadable) := by
    have := h.1
    have := h.2
    omega
  simp only [ofParts, hvalue, hexp, if_neg hin]

theorem head_isDigit {whole : List Char} (hne : whole ≠ [])
    (h : ∀ d ∈ whole, isDigit d = true) (rest : List Char) : ∃ d ds, whole ++ rest = d :: ds ∧ isDigit d = true := by
  obtain ⟨d, ds, rfl⟩ := List.exists_cons_of_ne_nil hne
  exact ⟨d, ds ++ rest, rfl, h d List.mem_cons_self⟩

/-- What stands behind the digits of a number: nothing, or a power of ten. -/
structure IsPower (rest : List Char) (power : Int) : Prop where
  eq : (rest = [] ∧ power = 0) ∨ rest = powerChars power

theorem readPower?_powerChars (n : Int) : readPower? (powerChars n).tail = some n := by
  have hdigits : (digits n.natAbs).all isDigit = true :=
    List.all_eq_true.mpr (isDigit_of_mem_digits n.natAbs)
  have hne : (digits n.natAbs).isEmpty = false := by simpa using digits_ne_nil n.natAbs
  unfold powerChars readPower?
  by_cases hn : n < 0
  · simp only [if_pos hn, List.tail_cons, hdigits, hne, Bool.not_true, Bool.or_false,
      Bool.false_eq_true, if_false, if_true, valueOf_digits]
    congr 1
    omega
  · simp only [if_neg hn, List.tail_cons, hdigits, hne, Bool.not_true, Bool.or_false,
      Bool.false_eq_true, if_false, valueOf_digits]
    congr 1
    omega

theorem IsPower.stops {rest : List Char} {power : Int} (h : IsPower rest power) :
    StopsAt isDigit rest ∧ ∀ r, rest ≠ '.' :: r := by
  rcases h.eq with ⟨rfl, -⟩ | rfl
  · exact ⟨nofun, nofun⟩
  · constructor
    · rintro c ⟨⟩
      decide
    · rintro r ⟨⟩

/-- Behind both rows of digits only the power of ten is left to read. -/
theorem ofParts_of_isPower {negative : Bool} {power : Int} {whole fraction rest : List Char}
    {x : Decimal} (hrest : IsPower rest power)
    (hparts : ofParts negative whole fraction power = .ok x) :
    (match rest with
      | [] => ofParts negative whole fraction 0
      | c :: r =>
        if c = 'e' ∨ c = 'E' then
          match readPower? r with
          | some power => ofParts negative whole fraction power
          | none => .error .notANumber
        else .error .notANumber) = .ok x := by
  rcases hrest.eq with ⟨rfl, rfl⟩ | rfl
  · exact hparts
  · have hpower := readPower?_powerChars power
    unfold powerChars at hpower ⊢
    rw [List.tail_cons] at hpower
    simp only [or_true, if_true, hpower, hparts]

/-- Two rows of digits and a power of ten are read as the number they denote. -/
theorem readFinite_rows {negative : Bool} {c : Nat} {e power : Int}
    {whole fraction rest : List Char} (hrest : IsPower rest power) (hne : whole ≠ [])
    (hwhole : ∀ d ∈ whole, isDigit d = true) (hfraction : ∀ d ∈ fraction, isDigit d = true)
    (hvalue : valueOf (whole ++ fraction) = c) (hexp : power - fraction.length = e)
    (h : (finite negative c e).IsReadable) :
    readFinite negative (whole ++ placesChars fraction ++ rest) = .ok (.finite negative c e) := by
  obtain ⟨hstop, hpoint⟩ := hrest.stops
  have hnonempty : whole.isEmpty = false := by simpa using hne
  have hparts := ofParts_of_rows hvalue hexp h
  have hend := ofParts_of_isPower hrest hparts
  unfold readFinite
  by_cases hf : fraction = []
  · subst hf
    have hplaces : whole ++ placesChars [] ++ rest = whole ++ rest := by simp [placesChars]
    rw [hplaces, takeWhile_append_stop hwhole hstop, dropWhile_append_stop hwhole hstop]
    cases rest with
    | nil => simpa [hnonempty] using hend
    | cons d r =>
      simp only [hnonempty, Bool.false_and, Bool.false_eq_true, if_false]
      exact hend
  · have hplaces : whole ++ placesChars fraction ++ rest = whole ++ ('.' :: (fraction ++ rest)) := by
      rw [placesChars_of_ne_nil hf]
      simp
    have hdot : StopsAt isDigit ('.' :: (fraction ++ rest)) := by
      rintro c ⟨⟩
      decide
    rw [hplaces, takeWhile_append_stop hwhole hdot, dropWhile_append_stop hwhole hdot]
    simp only [takeWhile_append_stop hfraction hstop, dropWhile_append_stop hfraction hstop,
      hnonempty, Bool.false_and, Bool.false_eq_true, if_false]
    exact hend

/-! ### Texts without blanks -/

/-- The text of a finite number is made of digits, a point and a power of
    ten. -/
theorem exists_magnitudeChars_eq (c : Nat) (e : Int) :
    ∃ whole fraction rest power, magnitudeChars c e = whole ++ placesChars fraction ++ rest ∧
      IsPower rest power ∧ whole ≠ [] ∧ (∀ d ∈ whole, isDigit d = true) ∧
      (∀ d ∈ fraction, isDigit d = true) ∧ valueOf (whole ++ fraction) = c ∧
      power - fraction.length = e := by
  have hlen : 0 < (digits c).length := List.length_pos_iff.mpr (digits_ne_nil c)
  unfold magnitudeChars
  dsimp only
  by_cases hplain : e ≤ 0 ∧ -6 < e + (digits c).length
  · rw [if_pos hplain]
    obtain ⟨whole, fraction, heq, hrows⟩ := exists_plainMagnitude_eq (c := c) hplain.1
    refine ⟨whole, fraction, [], 0, ?_, ⟨.inl ⟨rfl, rfl⟩⟩, hrows.whole_ne_nil,
      hrows.isDigit_whole, hrows.isDigit_fraction, hrows.valueOf_eq, ?_⟩
    · rw [List.append_nil, ← heq]
      unfold plainMagnitude
      dsimp only
      split
      · rename_i hzero
        obtain ⟨rfl, hzero⟩ := hzero
        obtain rfl : e = 0 := by omega
        simp [pointed, digits, zeros]
      · rfl
    · have := hrows.length_fraction
      omega
  · rw [if_neg hplain]
    have hfirst : ∀ d ∈ (digits c).take 1, isDigit d = true :=
      fun d hd => isDigit_of_mem_digits c d (List.mem_of_mem_take hd)
    have hrest : ∀ d ∈ (digits c).drop 1, isDigit d = true :=
      fun d hd => isDigit_of_mem_digits c d (List.mem_of_mem_drop hd)
    refine ⟨(digits c).take 1, (digits c).drop 1, _, e + (digits c).length - 1, ?_, ⟨.inr rfl⟩,
      ?_, hfirst, hrest, ?_, ?_⟩
    · congr 1
      unfold pointed placesChars
      by_cases hone : (digits c).length ≤ 1
      · have htake : (digits c).take 1 = digits c := List.take_of_length_le hone
        have hdrop : (digits c).drop 1 = [] := List.drop_eq_nil_of_le hone
        have hzeros : (1 - (digits c).length : Int).toNat = 0 := by omega
        rw [if_neg (by omega), if_pos (by omega), htake, hdrop, hzeros]
        simp [zeros]
      · have hdrop : ((digits c).drop 1).isEmpty = false := by
          rw [List.isEmpty_eq_false_iff, ne_eq, List.drop_eq_nil_iff]
          exact hone
        rw [if_neg (by omega), if_neg (by omega), hdrop]
        rfl
    · rw [ne_eq, List.take_eq_nil_iff]
      simp [digits_ne_nil]
    · rw [List.take_append_drop, valueOf_digits]
    · rw [List.length_drop]
      omega

theorem ordinary_of_isDigit {d : Char} (h : isDigit d = true) : isBlank d = false ∧ d ≠ '_' :=
  ⟨isBlank_of_isDigit h, ne_of_class h (by decide)⟩

theorem ordinary_of_mem_powerChars (n : Int) :
    ∀ d ∈ powerChars n, isBlank d = false ∧ d ≠ '_' := by
  intro d hd
  unfold powerChars at hd
  rcases List.mem_cons.mp hd with rfl | hd
  · decide
  rcases List.mem_cons.mp hd with rfl | hd
  · split <;> decide
  · exact ordinary_of_isDigit (isDigit_of_mem_digits _ d hd)

/-- No character of a written number is blank or an underscore. -/
theorem ordinary_of_mem_chars (x : Decimal) :
    ∀ d ∈ x.chars, isBlank d = false ∧ d ≠ '_' := by
  intro d hd
  rcases List.mem_append.mp hd with hd | hd
  · unfold signChars at hd
    split at hd
    · obtain rfl := List.mem_singleton.mp hd
      decide
    · simp at hd
  cases x with
  | finite negative c e =>
    obtain ⟨whole, fraction, rest, power, heq, hrest, -, hwhole, hfraction, -⟩ :=
      exists_magnitudeChars_eq c e
    dsimp only at hd
    rw [heq] at hd
    rcases List.mem_append.mp hd with hd | hd
    · rcases List.mem_append.mp hd with hd | hd
      · exact ordinary_of_isDigit (hwhole d hd)
      · unfold placesChars at hd
        split at hd
        · simp at hd
        · rcases List.mem_cons.mp hd with rfl | hd
          · decide
          · exact ordinary_of_isDigit (hfraction d hd)
    · rcases hrest.eq with ⟨rfl, -⟩ | rfl
      · simp at hd
      · exact ordinary_of_mem_powerChars power d hd
  | infinite negative =>
    have hall : ∀ d ∈ ['I', 'n', 'f', 'i', 'n', 'i', 't', 'y'],
        isBlank d = false ∧ d ≠ '_' := by simp [isBlank, inRanges, blankRanges]
    exact hall d hd
  | nan negative signalling payload =>
    have hall : ∀ d ∈ ['s', 'N', 'a', 'N'], isBlank d = false ∧ d ≠ '_' := by
      simp [isBlank, inRanges, blankRanges]
    have hname : ∀ d ∈ (if signalling then "sNaN".toList else "NaN".toList),
        isBlank d = false ∧ d ≠ '_' := by
      intro d hd
      apply hall
      cases signalling with
      | true => exact hd
      | false => exact List.mem_cons_of_mem _ hd
    rcases List.mem_append.mp hd with hd | hd
    · exact hname d hd
    · split at hd
      · simp at hd
      · exact ordinary_of_isDigit (isDigit_of_mem_digits payload d hd)

/-! ### Numbers without a sign -/

theorem afterWord?_of_isDigit {w : Char} {word cs : List Char} {d : Char}
    (h : d.toLower ≠ w) : afterWord? (w :: word) (d :: cs) = none := by
  have hne : ((d :: cs).take (w :: word).length).map Char.toLower ≠ w :: word := by
    simp only [List.length_cons, List.take_succ_cons, List.map_cons, ne_eq, List.cons.injEq]
    exact fun heq => h heq.1
  simp only [afterWord?, if_neg hne]

theorem toLower_ne_of_isDigit {d : Char} (h : isDigit d = true) :
    d.toLower ≠ 'i' ∧ d.toLower ≠ 'n' ∧ d.toLower ≠ 's' := by
  have hlower : d.toLower = d := by
    unfold Char.toLower
    have hupper : ¬ d.isUpper := by
      intro hup
      obtain ⟨z, hz, hlow, hhigh⟩ := isDigit_iff.mp h
      have hbounds : 65 ≤ d.toNat ∧ d.toNat ≤ 90 := by
        simpa [Char.isUpper, UInt32.le_iff_toNat_le] using hup
      have hapart : ∀ z ∈ zeroDigits, z + 10 ≤ 65 ∨ 90 < z := by decide
      rcases hapart z hz with hz | hz <;> omega
    simp_all [Char.isUpper]
  rw [hlower]
  exact ⟨ne_of_class h (by decide), ne_of_class h (by decide), ne_of_class h (by decide)⟩

theorem readUnsigned_of_isDigit {negative : Bool} {d : Char} {ds : List Char}
    (h : isDigit d = true) : readUnsigned negative (d :: ds) = readFinite negative (d :: ds) := by
  obtain ⟨hi, hn, hs⟩ := toLower_ne_of_isDigit h
  unfold readUnsigned
  rw [afterWord?_of_isDigit hi, afterWord?_of_isDigit hn, afterWord?_of_isDigit hs]

theorem readUnsigned_magnitudeChars {negative : Bool} {c : Nat} {e : Int}
    (h : (finite negative c e).IsReadable) :
    readUnsigned negative (magnitudeChars c e) = .ok (.finite negative c e) := by
  obtain ⟨whole, fraction, rest, power, heq, hrest, hne, hwhole, hfraction, hvalue, hexp⟩ :=
    exists_magnitudeChars_eq c e
  obtain ⟨d, ds, hcons, hd⟩ := head_isDigit hne hwhole (placesChars fraction ++ rest)
  have hread := readFinite_rows hrest hne hwhole hfraction hvalue hexp h
  rw [heq]
  rw [List.append_assoc, hcons] at hread ⊢
  rw [readUnsigned_of_isDigit hd, hread]

theorem readUnsigned_nan (negative signalling : Bool) (payload : Nat) :
    readUnsigned negative (specialChars (.nan negative signalling payload)) =
      .ok (.nan negative signalling payload) := by
  have hpayload : (if payload = 0 then [] else digits payload).all isDigit = true ∧
      valueOf (if payload = 0 then [] else digits payload) = payload := by
    split
    · rename_i hzero
      exact ⟨rfl, hzero.symm⟩
    · exact ⟨List.all_eq_true.mpr (isDigit_of_mem_digits payload), valueOf_digits payload⟩
  obtain ⟨hall, hvalue⟩ := hpayload
  show readUnsigned negative ((if signalling then "sNaN".toList else "NaN".toList) ++
    (if payload = 0 then [] else digits payload)) = _
  generalize (if payload = 0 then [] else digits payload) = tail at hall hvalue ⊢
  cases signalling with
  | true =>
    have hinf : afterWord? ['i', 'n', 'f'] ("sNaN".toList ++ tail) = none := rfl
    have hquiet : afterWord? ['n', 'a', 'n'] ("sNaN".toList ++ tail) = none := rfl
    have hloud : afterWord? ['s', 'n', 'a', 'n'] ("sNaN".toList ++ tail) = some tail := rfl
    simp only [readUnsigned, if_true, hinf, hquiet, hloud, hall, hvalue]
  | false =>
    have hinf : afterWord? ['i', 'n', 'f'] ("NaN".toList ++ tail) = none := rfl
    have hquiet : afterWord? ['n', 'a', 'n'] ("NaN".toList ++ tail) = some tail := rfl
    simp only [readUnsigned, Bool.false_eq_true, if_false, hinf, hquiet, hall, hvalue, if_true]

/-- The characters of a number behind its sign. -/
def unsignedChars : Decimal → List Char
  | .finite _ c e => magnitudeChars c e
  | x => specialChars x

theorem chars_eq (x : Decimal) : x.chars = signChars x.isNegative ++ x.unsignedChars := by
  cases x <;> rfl

theorem readUnsigned_unsignedChars {x : Decimal} (h : x.IsReadable) :
    readUnsigned x.isNegative x.unsignedChars = .ok x := by
  cases x with
  | finite negative c e => exact readUnsigned_magnitudeChars h
  | infinite negative => cases negative <;> rfl
  | nan negative signalling payload => exact readUnsigned_nan negative signalling payload

/-- The characters behind the sign begin with no sign. -/
theorem exists_unsignedChars_eq (x : Decimal) :
    ∃ d ds, x.unsignedChars = d :: ds ∧ d ≠ '-' ∧ d ≠ '+' := by
  cases x with
  | finite negative c e =>
    obtain ⟨whole, fraction, rest, power, heq, -, hne, hwhole, -⟩ := exists_magnitudeChars_eq c e
    obtain ⟨d, ds, hcons, hd⟩ := head_isDigit hne hwhole (placesChars fraction ++ rest)
    refine ⟨d, ds, ?_, ne_of_class hd (by decide), ne_of_class hd (by decide)⟩
    rw [unsignedChars, heq, List.append_assoc, hcons]
  | infinite negative => exact ⟨'I', _, rfl, by decide, by decide⟩
  | nan negative signalling payload =>
    cases signalling with
    | true => exact ⟨'s', _, rfl, by decide, by decide⟩
    | false => exact ⟨'N', _, rfl, by decide, by decide⟩

/-! ### Reading back -/

theorem ofChars_chars {x : Decimal} (h : x.IsReadable) : ofChars x.chars = .ok x := by
  have hordinary := ordinary_of_mem_chars x
  have hstrip : strip x.chars = x.chars := stripWhere_eq_self fun d hd => (hordinary d hd).1
  have hfilter : x.chars.filter (· != '_') = x.chars :=
    List.filter_eq_self.mpr fun d hd => bne_iff_ne.mpr (hordinary d hd).2
  have hread := readUnsigned_unsignedChars h
  obtain ⟨d, ds, heq, hminus, hplus⟩ := exists_unsignedChars_eq x
  unfold ofChars
  rw [hstrip, hfilter, chars_eq]
  cases hsign : x.isNegative with
  | true =>
    rw [hsign] at hread
    exact hread
  | false =>
    rw [hsign] at hread
    rw [heq] at hread ⊢
    simp only [signChars, Bool.false_eq_true, if_false, List.nil_append]
    split
    · rename_i hcons
      exact absurd (List.cons.inj hcons).1 hminus
    · rename_i hcons
      exact absurd (List.cons.inj hcons).1 hplus
    · exact hread

/-- A written number reads back. -/
theorem ofText_toText {x : Decimal} (h : x.IsReadable) : ofText x.toText = .ok x := by
  rw [ofText, toText, String.toList_ofList, ofChars_chars h]

/-- Numbers that can be read have different texts. -/
theorem toText_injective {x y : Decimal} (hx : x.IsReadable) (hy : y.IsReadable)
    (h : x.toText = y.toText) : x = y := by
  have hread := ofText_toText hx
  rw [h, ofText_toText hy] at hread
  exact (Except.ok.inj hread).symm

end KeyFigures.Decimal
