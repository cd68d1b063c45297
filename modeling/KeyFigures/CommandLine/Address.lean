/-
  KeyFigures/CommandLine/Address.lean
  ===================================
  **Addresses of databases.**

  An address names the system that keeps the database and, after a colon and
  two slashes, where it is: a user with a password before an at sign, a host,
  a port behind a colon, a path behind a slash and options behind a question
  mark.  Everything but the system may be left out.

  Only files and memory of the one known system can be connected to, so there
  is neither a user nor a host, and the options that the system knows have to be
  of their kind (`OptionKind`).
-/
import KeyFigures.Text.LowerCase
import KeyFigures.Text.RealNumber

namespace KeyFigures.CommandLine

open KeyFigures.Text

/-! ### Parts of an address -/

/-- The parts of an address; a part that is left out is absent, not empty. -/
structure AddressParts where
  system : String
  user : Option String := none
  password : Option String := none
  host : Option String := none
  port : Option String := none
  path : Option String := none
  options : Option String := none
deriving DecidableEq, Repr, Inhabited

namespace AddressParts

/-- What stands before the first character of a class, and the rest from there. -/
def splitAt (p : Char → Bool) (cs : List Char) : List Char × List Char :=
  (cs.takeWhile fun c => !p c, cs.dropWhile fun c => !p c)

/-- What stands before and behind the last character of a kind, if there is
    one. -/
def splitLast? (mark : Char) (cs : List Char) : Option (List Char × List Char) :=
  match splitAt (· == mark) cs.reverse with
  | (behind, _ :: before) => some (before.reverse, behind.reverse)
  | (_, []) => none

/-- Reads user and password, which end at an at sign. -/
def readUser (cs : List Char) : Option (List Char) × Option (List Char) × List Char :=
  let (head, rest) := splitAt (fun c => c == ':' || c == '/') cs
  let alone := match splitLast? '@' head with
    | some (user, behind) => (some user, none, behind ++ rest)
    | none => (none, none, cs)
  match rest with
  | ':' :: tail =>
    match splitAt (· == '@') tail with
    | (password, _ :: behind) => (some head, some password, behind)
    | (_, []) => alone
  | _ => alone

/-- Reads a host: one in brackets may hold colons. -/
def readHost (cs : List Char) : Option (List Char) × List Char :=
  let plain := match splitAt (fun c => c == '/' || c == ':' || c == '?') cs with
    | ([], rest) => (none, rest)
    | (host, rest) => (some host, rest)
  match cs with
  | '[' :: tail =>
    let (bracketed, rest) := splitAt (fun c => c == '/' || c == '?') tail
    match splitLast? ']' bracketed with
    | some (c :: host, behind) => (some (c :: host), behind ++ rest)
    | _ => plain
  | _ => plain

/-- Reads a part that begins with a mark and ends before a class of characters. -/
def readBehind (mark : Char) (ends : Char → Bool) (cs : List Char) :
    Option (List Char) × List Char :=
  match cs with
  | c :: tail =>
    if c = mark then
      let (part, rest) := splitAt ends tail
      (some part, rest)
    else (none, cs)
  | [] => (none, [])

/-- Whether a character may stand in the name of a system. -/
def isNameChar (c : Char) : Bool := c.isAlphanum || c == '_' || c == '+'

/-- The parts of an address; what follows them is passed over. -/
def ofText? (s : String) : Option AddressParts :=
  match splitAt (fun c => !isNameChar c) s.toList with
  | (c :: name, ':' :: '/' :: '/' :: rest) =>
    let (user, password, rest) := readUser rest
    let (host, rest) := readHost rest
    let (port, rest) := readBehind ':' (fun c => c == '/' || c == '?') rest
    let (path, rest) := readBehind '/' (· == '?') rest
    let (options, _) := readBehind '?' (· == '\n') rest
    some {
      system := String.ofList (c :: name)
      user := user.map String.ofList
      password := password.map String.ofList
      host := host.map String.ofList
      port := port.map String.ofList
      path := path.map String.ofList
      options := options.map String.ofList }
  | _ => none

/-- Whether a part is there and is not empty. -/
def isGiven (part : Option String) : Bool := part.any fun s => !s.isEmpty

end AddressParts

/-! ### Options of an address -/

def hexValue? (c : Char) : Option Nat :=
  if '0' ≤ c ∧ c ≤ '9' then some (c.toNat - '0'.toNat)
  else if 'a' ≤ c.toLower ∧ c.toLower ≤ 'f' then some (c.toLower.toNat - 'a'.toNat + 10)
  else none

/-- The bytes of a text in which a percent sign and two hexadecimal digits
    stand for a byte. -/
def escapedBytes : List Char → List UInt8
  | '%' :: a :: b :: rest =>
    match hexValue? a, hexValue? b with
    | some high, some low => (16 * high + low).toUInt8 :: escapedBytes rest
    | _, _ => '%'.toUInt8 :: escapedBytes (a :: b :: rest)
  | c :: rest => (String.singleton c).toUTF8.toList ++ escapedBytes rest
  | [] => []

/-- The text that an escaped one stands for, where a plus sign is a blank.
    Bytes that are no text become the replacement character. -/
def unescaped (cs : List Char) : String :=
  let bytes := escapedBytes (cs.map fun c => if c = '+' then ' ' else c)
  (String.fromUTF8? ⟨bytes.toArray⟩).getD "\ufffd"

/-- The options of an address, in order.  One without a value is none. -/
def readOptions (s : String) : List (String × String) :=
  (s.splitOn "&").filterMap fun field =>
    match AddressParts.splitAt (· == '=') field.toList with
    | (name, _ :: c :: value) => some (unescaped name, unescaped (c :: value))
    | _ => none

/-- What values an option takes. -/
inductive OptionKind where
  | truth
  | real
  | whole
deriving DecidableEq, Repr

def knownOptions : List (String × OptionKind) := [
  ("uri", .truth), ("timeout", .real), ("detect_types", .whole), ("check_same_thread", .truth),
  ("cached_statements", .whole)]

def truthOf? (s : String) : Option Bool :=
  let word := String.ofList (lowerCase (strip s.toList))
  if ["true", "yes", "on", "y", "t", "1"].contains word then some true
  else if ["false", "no", "off", "n", "f", "0"].contains word then some false
  else none

namespace OptionKind

/-- Whether an option may have these values.  One that is given more than once
    is no number, and as a truth value it is true. -/
def accepts : OptionKind → List String → Bool
  | _, [] => true
  | .truth, [s] => (truthOf? s).isSome
  | .truth, _ => true
  | .real, [s] => isRealNumber s
  | .whole, [s] => (readInt s).toOption.isSome
  | _, _ => false

end OptionKind

/-! ### Addresses -/

inductive Address where
  | memory
  | file (path : String)
deriving DecidableEq, Repr, Inhabited

/-- Why an address cannot be connected to. -/
inductive AddressFault where
  | unreadable
  | badPort (port : String)
  | unknownExtension (name : String)
  | unknownSystem (name : String)
  /-- There is a user, a password, a host or a port. -/
  | notLocal (address : String)
  | badOption (name : String)
  /-- The path is left out although the options belong to it. -/
  | noPath
  /-- There is no database that can be read. -/
  | notReadable
deriving DecidableEq, Repr, Inhabited

/-- The reason in words, by lines. -/
def AddressFault.lines : AddressFault → List String
  | .unreadable => ["Could not parse the database URL"]
  | .badPort port => ["Not a port: " ++ Text.quoted port]
  | .unknownExtension name => ["Unknown extension: " ++ name]
  | .unknownSystem name => ["Unknown database system: " ++ name]
  | .notLocal address => [
      "Invalid SQLite URL: " ++ address,
      "Valid SQLite URL forms are:",
      " sqlite:///:memory: (or, sqlite://)",
      " sqlite:///relative/path/to/file.db",
      " sqlite:////absolute/path/to/file.db"]
  | .badOption name => ["Invalid value of option " ++ name]
  | .noPath => ["No path for the options"]
  | .notReadable => ["The database cannot be read"]

namespace Address

def knownSystems : List String := ["sqlite", "sqlite+pysqlite", "sqlite+base"]

/-- The number of a port, which is zero if there is none. -/
def portOf (parts : AddressParts) : Except AddressFault Int :=
  match parts.port with
  | none => .ok 0
  | some port =>
    match readInt port with
    | .ok n => .ok n
    | .error _ => .error (.badPort port)

/-- The path of a database, to which the options that the system does not know
    belong if `uri` is set. -/
def pathOf (parts : AddressParts) (options : List (String × String)) :
    Except AddressFault (Option String) :=
  let valuesOf (name : String) : List String := (options.filter (·.1 == name)).map (·.2)
  let belongs := match valuesOf "uri" with
    | [] => false
    | [s] => truthOf? s == some true
    | _ => true
  let isKnown (name : String) : Bool :=
    name == "isolation_level" || knownOptions.any (·.1 == name)
  let own := (options.filter fun o => !isKnown o.1).mergeSort fun a b => decide (a.1 ≤ b.1)
  if belongs && !own.isEmpty then
    match parts.path with
    | none => .error .noPath
    | some path => .ok (some (path ++ "?" ++ "&".intercalate (own.map fun o => o.1 ++ "=" ++ o.2)))
  else .ok parts.path

def ofText (s : String) : Except AddressFault Address := do
  let some parts := AddressParts.ofText? s | .error .unreadable
  let port ← portOf parts
  let options := readOptions (parts.options.getD "")
  let valuesOf (name : String) : List String := (options.filter (·.1 == name)).map (·.2)
  if let name :: _ := valuesOf "plugin" then .error (.unknownExtension name)
  if !knownSystems.contains parts.system then .error (.unknownSystem parts.system)
  if [parts.user, parts.password, parts.host].any AddressParts.isGiven || port ≠ 0 then
    .error (.notLocal s)
  if let some (name, _) := knownOptions.find? fun (name, kind) => !kind.accepts (valuesOf name) then
    .error (.badOption name)
  match ← pathOf parts options with
  | none | some "" | some ":memory:" => .ok .memory
  | some path => .ok (.file path)

end Address

end KeyFigures.CommandLine
