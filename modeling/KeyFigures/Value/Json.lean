/-
  KeyFigures/Value/Json.lean
  ==========================
  **Structured data in JSON.**

  The reader keeps what JSON texts tell apart: a number is whole unless it has
  a point or a power of ten, the doubles that are no finite numbers go by name,
  members stay in their order, and a name that occurs again replaces the
  earlier value in its place.

  The writer has no blanks and leaves every visible character as it is.  A
  leaf that JSON cannot hold is written as its text.
-/
import KeyFigures.Value.Shown

namespace KeyFigures.Value

open KeyFigures.Text

/-! ### Writing -/

/-- One character of a JSON text outside plain ASCII, as one escape or as the
    two escapes of a surrogate pair. -/
def unicodeEscape (c : Char) : List Char :=
  let n := c.toNat
  if n < 0x10000 then '\\' :: 'u' :: hexDigits 4 n
  else
    ('\\' :: 'u' :: hexDigits 4 (0xD800 + (n - 0x10000) / 0x400)) ++
      ('\\' :: 'u' :: hexDigits 4 (0xDC00 + (n - 0x10000) % 0x400))

/-- One character inside a JSON text that holds ASCII only. -/
def jsonChar (c : Char) : List Char :=
  if c = '"' ∨ c = '\\' then ['\\', c]
  else if c = '\n' then ['\\', 'n']
  else if c = '\r' then ['\\', 'r']
  else if c = '\t' then ['\\', 't']
  else if c = Char.ofNat 8 then ['\\', 'b']
  else if c = Char.ofNat 12 then ['\\', 'f']
  else if 0x20 ≤ c.toNat ∧ c.toNat < 0x7F then [c]
  else unicodeEscape c

/-- A text in double marks, with ASCII characters only. -/
def jsonText (s : String) : List Char := '"' :: s.toList.flatMap jsonChar ++ ['"']

/-- The JSON text of a double; what is no finite number goes by its name. -/
def jsonFloat (x : Float) : List Char :=
  match Binary.parts x with
  | .finite .. => Binary.chars x
  | .infinite negative => Decimal.signChars negative ++ "Infinity".toList
  | .nan => "NaN".toList

mutual

def jsonChars : Value → List Char
  | .null => "null".toList
  | .bool b => if b then "true".toList else "false".toList
  | .int n => signedDigits n
  | .float x => jsonFloat x
  | .list items | .tuple items | .set items => '[' :: jsonItems items ++ [']']
  | .object members => '\x7b' :: jsonMembers members ++ ['\x7d']
  | .text s => jsonText s
  | .decimal d => jsonText d.toText
  | .moment m => jsonText m.toText
  | .day d => jsonText d.toText
  | .choice c => jsonText c.text
  | .record typeName fields => jsonText (Value.record typeName fields).shown

/-- The items of a list, separated by commas. -/
def jsonItems : List Value → List Char
  | [] => []
  | [v] => v.jsonChars
  | v :: rest => v.jsonChars ++ ',' :: jsonItems rest

/-- The members of an object, separated by commas. -/
def jsonMembers : List (String × Value) → List Char
  | [] => []
  | [(name, v)] => jsonText name ++ ':' :: v.jsonChars
  | (name, v) :: rest => jsonText name ++ ':' :: v.jsonChars ++ ',' :: jsonMembers rest

end

def toJson (v : Value) : String := String.ofList v.jsonChars

/-- The name that data has as the name of a member: a text stands for itself,
    other data for its JSON text. -/
def memberName : Value → String
  | .text s => s
  | v => v.toJson

/-! ### Reading -/

def skipBlanks (cs : List Char) : List Char :=
  cs.dropWhile fun c => c = ' ' ∨ c = '\n' ∨ c = '\r' ∨ c = '\t'

def hexValue? (c : Char) : Option Nat :=
  if '0' ≤ c ∧ c ≤ '9' then some (c.toNat - 48)
  else if 'a' ≤ c ∧ c ≤ 'f' then some (c.toNat - 87)
  else if 'A' ≤ c ∧ c ≤ 'F' then some (c.toNat - 55)
  else none

/-- The number that four hexadecimal digits denote, and the rest. -/
def readHex? (cs : List Char) : Option (Nat × List Char) := do
  let field ← (cs.take 4).mapM hexValue?
  if field.length = 4 then some (field.foldl (fun n d => n * 16 + d) 0, cs.drop 4) else none

/-- A character escaped by its code, or by the two codes of a surrogate pair. -/
def readUnicode? (cs : List Char) : Option (Char × List Char) := do
  let (n, cs) ← readHex? cs
  if 0xD800 ≤ n ∧ n < 0xDC00 then
    match cs with
    | '\\' :: 'u' :: r =>
      let (low, r) ← readHex? r
      some (Char.ofNat (0x10000 + (n - 0xD800) * 0x400 + (low - 0xDC00)), r)
    | _ => some (Char.ofNat 0xFFFD, cs)
  else some (Char.ofNat n, cs)

/-- The characters of a JSON text up to its closing mark, newest first. -/
def readTextChars (fuel : Nat) (cs read : List Char) : Option (List Char × List Char) :=
  match fuel with
  | 0 => none
  | fuel + 1 =>
    match cs with
    | '"' :: r => some (read.reverse, r)
    | '\\' :: 'u' :: r =>
      match readUnicode? r with
      | some (c, r) => readTextChars fuel r (c :: read)
      | none => none
    | '\\' :: c :: r =>
      let plain := match c with
        | 'n' => '\n'
        | 'r' => '\r'
        | 't' => '\t'
        | 'b' => Char.ofNat 8
        | 'f' => Char.ofNat 12
        | c => c
      readTextChars fuel r (plain :: read)
    | c :: r => readTextChars fuel r (c :: read)
    | [] => none

def readText? (cs : List Char) : Option (String × List Char) :=
  (readTextChars (cs.length + 1) cs []).map fun (read, rest) => (String.ofList read, rest)

/-- A JSON number and the rest: whole without a point and a power of ten. -/
def readNumber? (cs : List Char) : Option (Value × List Char) :=
  let (negative, cs) := match cs with | '-' :: r => (true, r) | r => (false, r)
  let whole := cs.takeWhile Char.isDigit
  if whole.isEmpty then none
  else
    let rest := cs.dropWhile Char.isDigit
    let (fraction, rest) := match rest with
      | '.' :: r => (r.takeWhile Char.isDigit, r.dropWhile Char.isDigit)
      | r => ([], r)
    let (power, rest) : Option Int × List Char := match rest with
      | c :: r =>
        if c = 'e' ∨ c = 'E' then
          let (sign, r) := match r with
            | '-' :: r => (true, r)
            | '+' :: r => (false, r)
            | r => (false, r)
          let n : Int := valueOf (r.takeWhile Char.isDigit)
          (some (if sign then -n else n), r.dropWhile Char.isDigit)
        else (none, c :: r)
      | [] => (none, [])
    if fraction.isEmpty && power.isNone then
      let n : Int := valueOf whole
      some (.int (if negative then -n else n), rest)
    else
      some (.float (Binary.nearest negative (valueOf (whole ++ fraction))
        (power.getD 0 - fraction.length)), rest)

mutual

/-- One value at the front of a text, and the rest. -/
def readValue (fuel : Nat) (cs : List Char) : Option (Value × List Char) :=
  match fuel with
  | 0 => none
  | fuel + 1 =>
    match skipBlanks cs with
    | 'n' :: 'u' :: 'l' :: 'l' :: r => some (.null, r)
    | 't' :: 'r' :: 'u' :: 'e' :: r => some (.bool true, r)
    | 'f' :: 'a' :: 'l' :: 's' :: 'e' :: r => some (.bool false, r)
    | 'N' :: 'a' :: 'N' :: r => some (.float (0.0 / 0.0), r)
    | 'I' :: 'n' :: 'f' :: 'i' :: 'n' :: 'i' :: 't' :: 'y' :: r => some (.float (1.0 / 0.0), r)
    | '-' :: 'I' :: 'n' :: 'f' :: 'i' :: 'n' :: 'i' :: 't' :: 'y' :: r =>
      some (.float (-1.0 / 0.0), r)
    | '"' :: r => (readText? r).map fun (s, r) => (.text s, r)
    | '[' :: r =>
      match skipBlanks r with
      | ']' :: r => some (.list [], r)
      | r => (readItems fuel r []).map fun (items, r) => (.list items, r)
    | '\x7b' :: r =>
      match skipBlanks r with
      | '\x7d' :: r => some (.object [], r)
      | r => (readMembers fuel r []).map fun (members, r) => (.object members, r)
    | r => readNumber? r

/-- The items of a list up to its closing bracket. -/
def readItems (fuel : Nat) (cs : List Char) (read : List Value) :
    Option (List Value × List Char) :=
  match fuel with
  | 0 => none
  | fuel + 1 =>
    match readValue fuel cs with
    | none => none
    | some (v, r) =>
      match skipBlanks r with
      | ',' :: r => readItems fuel r (v :: read)
      | ']' :: r => some ((v :: read).reverse, r)
      | _ => none

/-- The members of an object up to its closing brace. -/
def readMembers (fuel : Nat) (cs : List Char) (read : List (String × Value)) :
    Option (List (String × Value) × List Char) :=
  match fuel with
  | 0 => none
  | fuel + 1 =>
    match skipBlanks cs with
    | '"' :: r =>
      match readText? r with
      | none => none
      | some (name, r) =>
        match skipBlanks r with
        | ':' :: r =>
          match readValue fuel r with
          | none => none
          | some (v, r) =>
            match skipBlanks r with
            | ',' :: r => readMembers fuel r (put read name v)
            | '\x7d' :: r => some (put read name v, r)
            | _ => none
        | _ => none
    | _ => none

end

def ofJson? (s : String) : Option Value :=
  let cs := s.toList
  match readValue (2 * cs.length + 2) cs with
  | some (v, rest) => if (skipBlanks rest).isEmpty then some v else none
  | none => none

end KeyFigures.Value
