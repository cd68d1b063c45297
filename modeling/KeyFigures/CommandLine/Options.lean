/-
  KeyFigures/CommandLine/Options.lean
  ===================================
  **Reading the words of a command line.**

  Words that begin with a dash name options, in full or by a beginning that no
  other option shares; a value follows as the next word or behind an equals
  sign.  A number with a dash and a word with a blank in it are values.  Behind
  two dashes all words are values.

  First every word is told apart (`classify`), then options take their values
  from left to right (`readWords`).  Of several faults the first one counts.
-/
import KeyFigures.Text.WholeNumber
import KeyFigures.Text.Quoted

namespace KeyFigures.CommandLine

open KeyFigures.Text

/-! ### Options -/

inductive Choosable where
  | help
  | db
  | client
  | year
  | years
  | formula
  | formulaId
  | kind
  | version
  | standardMapping
  | list
  | verbose
deriving DecidableEq, Repr, Inhabited

/-- The spellings of the options, in the order in which they are listed. -/
def spellings : List (String × Choosable) := [
  ("-h", .help), ("--help", .help), ("--db", .db), ("--client", .client), ("--year", .year),
  ("--years", .years), ("--formula", .formula), ("--formula-id", .formulaId), ("--kind", .kind),
  ("--version", .version), ("--standard-mapping", .standardMapping),
  ("--no-standard-mapping", .standardMapping), ("--list", .list), ("--verbose", .verbose)]

namespace Choosable

/-- All spellings of an option, as it is called in messages. -/
def title (c : Choosable) : String :=
  "/".intercalate ((spellings.filter (·.2 == c)).map (·.1))

def valueCount : Choosable → Nat
  | .help | .standardMapping | .list | .verbose => 0
  | .years => 2
  | _ => 1

def rival : Choosable → Option Choosable
  | .year => some .years
  | .years => some .year
  | .formula => some .formulaId
  | .formulaId => some .formula
  | _ => none

end Choosable

def kindWords : List String := ["amount", "percentage", "ratio"]

/-- What is wrong with a command line. -/
inductive UsageFault where
  | ambiguous (word : String) (candidates : List String)
  | valuesExpected (option : Choosable)
  | valueIgnored (option : Choosable) (value : String)
  | notANumber (option : Choosable) (value : String)
  | notAKind (value : String)
  | notBeside (option other : Choosable)
  | unrecognized (words : List String)
  | incomplete
  | yearMissing
deriving DecidableEq, Repr

namespace UsageFault

/-- How many values are expected, in words. -/
def expectedText : Nat → String
  | 1 => "expected one argument"
  | n => "expected " ++ intText n ++ " arguments"

def message : UsageFault → String
  | .ambiguous word candidates =>
    "ambiguous option: " ++ word ++ " could match " ++ ", ".intercalate candidates
  | .valuesExpected option =>
    "argument " ++ option.title ++ ": " ++ expectedText option.valueCount
  | .valueIgnored option value =>
    "argument " ++ option.title ++ ": ignored explicit argument " ++ quoted value
  | .notANumber option value =>
    "argument " ++ option.title ++ ": invalid int value: " ++ quoted value
  | .notAKind value =>
    "argument --kind: invalid choice: " ++ quoted value ++ " (choose from "
      ++ ", ".intercalate (kindWords.map quoted) ++ ")"
  | .notBeside option other =>
    "argument " ++ option.title ++ ": not allowed with argument " ++ other.title
  | .unrecognized words => "unrecognized arguments: " ++ " ".intercalate words
  | .incomplete => "--db, --client and one of --formula/--formula-id are required"
  | .yearMissing => "one of --year/--years is required"

end UsageFault

/-! ### Words -/

/-- A word of a command line. -/
inductive Word where
  /-- An option by its full spelling, with a value behind an equals sign. -/
  | option (spelling : String) (choice : Choosable) (value : Option String)
  /-- A word that looks like an option and is none. -/
  | stray (text : String)
  | value (text : String)
  | separator
deriving DecidableEq, Repr

/-- The text of a word that is no option. -/
def Word.text : Word → String
  | .option spelling _ _ => spelling
  | .stray text | .value text => text
  | .separator => "--"

/-- The parts of a text before and behind its first equals sign. -/
def splitEquals (cs : List Char) : List Char × Option String :=
  match cs.dropWhile (· ≠ '=') with
  | [] => (cs, none)
  | _ :: rest => (cs.takeWhile (· ≠ '='), some (String.ofList rest))

/-- What follows the letter of a short option that takes no value.  Further
    letters of that option repeat it, and what follows them is a value. -/
def shortValue (letter : Char) (rest : List Char) : Option String :=
  match rest.dropWhile (· = letter) with
  | [] => none
  | value => some (String.ofList value)

/-- What an equals sign behind a short option begins: a value if it is empty,
    and the same as without the sign otherwise. -/
def shortEquals (letter : Char) (rest : List Char) : Option String :=
  if rest.isEmpty then some "" else shortValue letter rest

def candidates (cs : List Char) : List (String × Choosable × Option String) :=
  match cs with
  | '-' :: '-' :: _ =>
    let (start, value) := splitEquals cs
    (spellings.filter fun s => start.isPrefixOf s.1.toList).map fun s => (s.1, s.2, value)
  | '-' :: c :: rest =>
    (spellings.filter (·.1.toList == ['-', c])).map fun s => (s.1, s.2, shortValue c rest)
  | _ => []

/-- Whether a text is a number with a dash: digits, or a point before digits.
    A line may end behind it. -/
def isNegativeNumber (cs : List Char) : Bool :=
  match if cs.getLast? = some '\n' then cs.dropLast else cs with
  | '-' :: rest =>
    let fraction := (rest.dropWhile isDigit).drop 1
    if rest.all isDigit then !rest.isEmpty
    else (rest.dropWhile isDigit).head? == some '.' && !fraction.isEmpty && fraction.all isDigit
  | _ => false

def classify (word : String) : Except UsageFault Word :=
  let cs := word.toList
  if cs.head? ≠ some '-' ∨ cs.length = 1 then .ok (.value word)
  else
    match spellings.find? (·.1 == word) with
    | some s => .ok (.option s.1 s.2 none)
    | none =>
      let (start, value) := splitEquals cs
      match spellings.find? (·.1.toList == start), value with
      | some s, some v =>
        match start with
        | ['-', letter] => .ok (.option s.1 s.2 (shortEquals letter v.toList))
        | _ => .ok (.option s.1 s.2 (some v))
      | _, _ =>
        match candidates cs with
        | [(spelling, choice, v)] => .ok (.option spelling choice v)
        | [] =>
          if isNegativeNumber cs || cs.contains ' ' then .ok (.value word) else .ok (.stray word)
        | several => .error (.ambiguous word (several.map (·.1)))

/-- Tells what all words are; behind two dashes they are values. -/
def classifyAll : List String → Except UsageFault (List Word)
  | [] => .ok []
  | "--" :: rest => .ok (.separator :: rest.map .value)
  | word :: rest => do
    let w ← classify word
    let ws ← classifyAll rest
    .ok (w :: ws)

/-! ### Reading -/

/-- What a command line asks for. -/
structure Options where
  db : Option String := none
  clients : List String := []
  year : Option Int := none
  years : Option (Int × Int) := none
  formula : Option String := none
  formulaId : Option String := none
  kind : String := "amount"
  version : Option String := none
  standardMapping : Option Bool := none
  list : Bool := false
  verbose : Bool := false
deriving DecidableEq, Repr, Inhabited

def number (option : Choosable) (value : String) : Except UsageFault Int :=
  match readInt value with
  | .ok n => .ok n
  | .error _ => .error (.notANumber option value)

/-- Whether an option of a pair of rivals was given. -/
def Options.has (o : Options) : Choosable → Bool
  | .year => o.year.isSome
  | .years => o.years.isSome
  | .formula => o.formula.isSome
  | .formulaId => o.formulaId.isSome
  | _ => false

def Options.checkRival (o : Options) (option : Choosable) : Except UsageFault Unit :=
  match option.rival with
  | some other => if o.has other then .error (.notBeside option other) else .ok ()
  | none => .ok ()

def Options.set (o : Options) (spelling : String) (option : Choosable) (values : List String) :
    Except UsageFault Options := do
  let value := values.headD ""
  match option with
  | .help => .ok o
  | .db => .ok { o with db := some value }
  | .client => .ok { o with clients := o.clients ++ [value] }
  | .year =>
    let n ← number .year value
    o.checkRival .year
    .ok { o with year := some n }
  | .years =>
    let first ← number .years value
    let last ← number .years (values.getD 1 "")
    o.checkRival .years
    .ok { o with years := some (first, last) }
  | .formula =>
    o.checkRival .formula
    .ok { o with formula := some value }
  | .formulaId =>
    o.checkRival .formulaId
    .ok { o with formulaId := some value }
  | .kind => if kindWords.contains value then .ok { o with kind := value } else .error (.notAKind value)
  | .version => .ok { o with version := some value }
  | .standardMapping => .ok { o with standardMapping := some (spelling == "--standard-mapping") }
  | .list => .ok { o with list := true }
  | .verbose => .ok { o with verbose := true }

/-- The texts of the first `n` words if they are values, and the rest. -/
def takeValues (option : Choosable) : (n : Nat) → List Word → Except UsageFault (List String × List Word)
  | 0, ws => .ok ([], ws)
  | n + 1, .value v :: ws => do
    let (values, rest) ← takeValues option n ws
    .ok (v :: values, rest)
  | _ + 1, _ => .error (.valuesExpected option)

/-- The values of an option: the one behind its equals sign, or the words that
    follow. -/
def valuesOf (option : Choosable) (attached : Option String) (rest : List Word) :
    Except UsageFault (List String × List Word) :=
  match attached, option.valueCount with
  | none, n => takeValues option n rest
  | some v, 1 => .ok ([v], rest)
  | some v, 0 => .error (.valueIgnored option v)
  | some _, _ => .error (.valuesExpected option)

theorem length_takeValues {option : Choosable} {n : Nat} {ws : List Word} {values : List String}
    {rest : List Word} (h : takeValues option n ws = .ok (values, rest)) :
    rest.length ≤ ws.length := by
  induction n generalizing ws values rest with
  | zero =>
    simp only [takeValues, Except.ok.injEq, Prod.mk.injEq] at h
    simp [h.2]
  | succ n ih =>
    cases ws with
    | nil => simp [takeValues] at h
    | cons w ws =>
      cases w with
      | value v =>
        simp only [takeValues, bind, Except.bind] at h
        split at h
        · cases h
        · rename_i found hf
          simp only [Except.ok.injEq, Prod.mk.injEq] at h
          have := ih hf
          rw [← h.2]
          exact Nat.le_succ_of_le this
      | _ => simp [takeValues] at h

theorem length_valuesOf {option : Choosable} {attached : Option String} {ws rest : List Word}
    {values : List String} (h : valuesOf option attached ws = .ok (values, rest)) :
    rest.length ≤ ws.length := by
  unfold valuesOf at h
  split at h
  · exact length_takeValues h
  · simp only [Except.ok.injEq, Prod.mk.injEq] at h
    simp [h.2]
  · cases h
  · cases h

/-- What was read: a call for help, or options with the words that belong to
    none. -/
inductive Reading where
  | help
  | options (o : Options) (unused : List String)
deriving DecidableEq, Repr

def readWords (o : Options) (unused : List String) : List Word → Except UsageFault Reading
  | [] => .ok (.options o unused)
  | .option spelling option attached :: rest =>
    match h : valuesOf option attached rest with
    | .error f => .error f
    | .ok (values, left) =>
      have := length_valuesOf h
      if option = .help then .ok .help
      else
        match o.set spelling option values with
        | .error f => .error f
        | .ok o => readWords o unused left
  | w :: rest => readWords o (unused ++ [w.text]) rest
termination_by ws => ws.length

/-- Reads a command line: help, or options without any word left over. -/
def read (argv : List String) : Except UsageFault (Option Options) := do
  let words ← classifyAll argv
  match ← readWords {} [] words with
  | .help => .ok none
  | .options o [] => .ok (some o)
  | .options _ unused => .error (.unrecognized unused)

/-! ### Asking for a figure -/

/-- What is evaluated, for whom and when. -/
structure Question where
  db : String
  clients : List String
  formula : Option String
  formulaId : Option String
  kind : String
  years : Int × Int
  isSeries : Bool
  version : Option String
  standardMapping : Option Bool
deriving DecidableEq, Repr

/-- A text that is given and not empty. -/
def given (s : Option String) : Option String := s.filter (!·.isEmpty)

/-- The question that options ask; a database, a client, a formula and a year
    are required. -/
def Options.question (o : Options) : Except UsageFault Question :=
  match given o.db, o.clients with
  | some db, _ :: _ =>
    if (given o.formula).isNone && (given o.formulaId).isNone then .error .incomplete
    else
      let ask (years : Int × Int) (isSeries : Bool) : Except UsageFault Question :=
        .ok ⟨db, o.clients, o.formula, given o.formulaId, o.kind, years, isSeries, o.version,
          o.standardMapping⟩
      match o.years, o.year with
      | some years, _ => ask years true
      | none, some year => ask (year, year) false
      | none, none => .error .yearMissing
  | _, _ => .error .incomplete

end KeyFigures.CommandLine
