/-
  KeyFigures/Formula/Token.lean
  =============================
  **The tokens of the formula language, and how text is split into them.**

  Blanks separate tokens and mean nothing else.  A bracket, a brace or a digit
  begins a lexeme of several characters; every other lexeme is one character
  long.  `readLexeme` reads the lexeme at the front of a text and says how many
  characters it takes; `scan` reads them all and notes where each begins.
-/
import KeyFigures.Failure

namespace KeyFigures

open KeyFigures.Text

/-! ### Tokens -/

/-- A token of the formula language. -/
inductive Token where
  | number (value : Decimal)
  | account (ref : AccountReference)
  | formula (id : Value)
  | operator (op : Operator)
  | opening
  | closing
deriving DecidableEq, Repr, Inhabited

/-- A token and where it begins: at a character of a text or at an entry of a
    term list. -/
structure Placed where
  token : Token
  position : Nat
deriving DecidableEq, Repr, Inhabited

/-- Why a lexeme cannot be read: it is malformed, or it holds a number with too
    many digits. -/
inductive LexemeFault where
  | malformed (reason : ParseReason)
  | value (fault : ValueFault)
deriving DecidableEq, Repr

/-- The failure of a source with such a lexeme at that position. -/
def LexemeFault.at (source : String) (position : Nat) : LexemeFault → Failure
  | .malformed reason => .parse ⟨source, reason, some position⟩
  | .value fault => .value fault

/-! ### Account references -/

/-- The value of a row of digits of any script, unless the row is too long. -/
def wholeNumber (ds : List Char) : Except ValueFault Nat :=
  if maxIntDigits < ds.length then .error (.tooManyDigits ds.length) else .ok (valueOf ds)

/-- Whether a character may stand in an account code. -/
def isCodeChar (c : Char) : Bool :=
  c.isAlphanum || c == '_' || c == '.'

/-- The bounds of a range: digits, a hyphen, digits, with blanks around the
    hyphen. -/
def rangeBounds? (body : List Char) : Option (List Char × List Char) :=
  let first := body.takeWhile isDigit
  match (body.dropWhile isDigit).dropWhile isBlank with
  | '-' :: r =>
    let last := r.dropWhile isBlank
    if first.isEmpty || last.isEmpty || !last.all isDigit then none else some (first, last)
  | _ => none

/-- Reads what stands between the brackets of an account reference: a range of
    numbers whose bounds are in order, or a code. -/
def AccountReference.read (inner : List Char) : Except LexemeFault AccountReference :=
  let body := strip inner
  if body.isEmpty then .error (.malformed .emptyReference)
  else
    match rangeBounds? body with
    | some (first, last) =>
      match wholeNumber first, wholeNumber last with
      | .error fault, _ => .error (.value fault)
      | _, .error fault => .error (.value fault)
      | .ok low, .ok high =>
        if high < low then
          .error (.malformed (.reversedRange (String.ofList first) (String.ofList last)))
        else .ok (.between (.text (String.ofList first)) (.text (String.ofList last)))
    | none =>
      if body.contains '-' then .error (.malformed (.malformedRange (String.ofList body)))
      else if body.all isCodeChar then .ok (.starting (.text (String.ofList body)))
      else .error (.malformed (.invalidCode (String.ofList body)))

/-- The reference to the accounts that begin with a code, which may not be
    empty. -/
def AccountReference.ofCode (code : Value) : Attempt AccountReference :=
  if code.isTruthy then .ok (.starting code) else Attempt.refuse .emptyAccountCode

/-- The reference to the accounts between two bounds, of which none may be
    empty. -/
def AccountReference.ofBounds (first last : Value) : Attempt AccountReference :=
  if first.isTruthy && last.isTruthy then .ok (.between first last)
  else Attempt.refuse .emptyRangeBound

/-- Reads an account reference on its own; without a source to name, the
    reference in brackets is the source. -/
def AccountReference.parse (text source : String) (position : Nat) : Attempt AccountReference :=
  let source := if source.isEmpty then "[" ++ text ++ "]" else source
  match read text.toList with
  | .ok ref => .ok ref
  | .error fault => .error (fault.at source position)

/-! ### Lexemes -/

/-- The characters before the first `close`, if there is one. -/
def upTo? (close : Char) (cs : List Char) : Option (List Char) :=
  if cs.contains close then some (cs.takeWhile (· != close)) else none

/-- Whether a text may be the id of a formula in formula text: a letter or an
    underscore, then letters, digits, underscores, points and hyphens. -/
def isFormulaId (id : List Char) : Bool :=
  match id with
  | [] => false
  | c :: r => (c.isAlpha || c == '_') && r.all fun c => isCodeChar c || c == '-'

/-- The lexeme of a number at the front of a text: digits with an optional
    fraction, or a fraction alone. -/
def numberLexeme? (cs : List Char) : Option (List Char × List Char) :=
  let whole := cs.takeWhile isDigit
  let fraction := match cs.dropWhile isDigit with
    | '.' :: r => r.takeWhile isDigit
    | _ => []
  if whole.isEmpty && fraction.isEmpty then none else some (whole, fraction)

def numberLength (whole fraction : List Char) : Nat :=
  whole.length + (if fraction.isEmpty then 0 else fraction.length + 1)

/-- Reads the lexeme that begins with `c` and goes on in `r`: the token, and
    how many characters of `r` it takes. -/
def readLexeme (c : Char) (r : List Char) : Except LexemeFault (Token × Nat) :=
  if c = '[' then
    match upTo? ']' r with
    | none => .error (.malformed .unterminatedReference)
    | some inner =>
      if inner.contains '[' then .error (.malformed .nestedBracket)
      else (AccountReference.read inner).map fun ref => (.account ref, inner.length + 1)
  else if c = '\x7b' then
    match upTo? '\x7d' r with
    | none => .error (.malformed .unterminatedFormula)
    | some inner =>
      let id := strip inner
      if isFormulaId id then .ok (.formula (.text (String.ofList id)), inner.length + 1)
      else .error (.malformed (.invalidFormulaId (String.ofList id)))
  else if isDigitLike c || c == '.' then
    match numberLexeme? (c :: r) with
    | some (whole, fraction) =>
      .ok (.number (Decimal.ofDigits whole fraction), numberLength whole fraction - 1)
    | none => .error (.malformed (.invalidNumber (String.ofList ((c :: r).take 8))))
  else
    match Operator.ofChar? c with
    | some op => .ok (.operator op, 0)
    | none =>
      if c = '(' then .ok (.opening, 0)
      else if c = ')' then .ok (.closing, 0)
      else if c = ']' then .error (.malformed .unmatchedBracket)
      else .error (.malformed (.unknownCharacter c))

/-- Splits the rest of a text, which begins at `position`, into tokens. -/
def scan (source : String) (position : Nat) (cs : List Char) : Attempt (List Placed) :=
  match cs with
  | [] => .ok []
  | c :: r =>
    if isBlank c then scan source (position + 1) r
    else
      match readLexeme c r with
      | .error fault => .error (fault.at source position)
      | .ok (token, more) => do
        let rest ← scan source (position + 1 + more) (r.drop more)
        .ok (⟨token, position⟩ :: rest)
termination_by cs.length
decreasing_by all_goals (simp only [List.length_cons, List.length_drop]; omega)

def tokenize (source : String) : Attempt (List Placed) := scan source 0 source.toList

/-! ### Sources that are no text -/

/-- The token that one item of a list is, if it is no blank.  No lexeme of
    several characters can be read from a list. -/
def readItem (source : Value) (position : Nat) (item : Value) : Attempt (Option Token) :=
  let refuse (reason : String) : Attempt (Option Token) :=
    .error (.toldParse source (.text reason) (.int position))
  match item.text? with
  | none => .error .missingAttribute
  | some s =>
    if !s.isEmpty && s.toList.all isBlank then .ok none
    else if s = "[" ∨ s = "\x7b" then .error .missingAttribute
    else if s = "." ∨ (!s.isEmpty && s.toList.all isDigitLike) then Attempt.mistyped
    else if s = "(" then .ok (some .opening)
    else if s = ")" then .ok (some .closing)
    else if s = "]" then refuse ParseReason.unmatchedBracket.message
    else
      match Operator.ofSymbol? s with
      | some op => .ok (some (.operator op))
      | none => refuse ("unknown operator or character " ++ quoted s)

/-- Splits the rest of a list of characters, which begins at `position`. -/
def scanItems (source : Value) (position : Nat) : List Value → Attempt (List Placed)
  | [] => .ok []
  | item :: items => do
    let token ← readItem source position item
    let rest ← scanItems source (position + 1) items
    .ok ((token.map fun t => ⟨t, position⟩).toList ++ rest)

/-- Splits data into tokens: a text, or a list of characters. -/
def tokenizeSource (source : Value) : Attempt (List Placed) :=
  match source with
  | .text s => tokenize s
  | .object (_ :: _) => .error (.missingKey (intText 0))
  | v => do
    let items ← Attempt.ofTyped v.items?
    scanItems source 0 items

end KeyFigures
