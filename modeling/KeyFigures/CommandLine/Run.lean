/-
  KeyFigures/CommandLine/Run.lean
  ===============================
  **What a command line leads to.**

  A command line lists the library or answers one question from a database.
  Faults of the command line and of the formula end it with status two, a
  database that cannot be connected to with status one.  Every other failure is
  passed on.
-/
import KeyFigures.CommandLine.Address
import KeyFigures.CommandLine.Report
import KeyFigures.Library.Standard
import KeyFigures.Service.Run
import KeyFigures.Time.Clock

namespace KeyFigures.CommandLine

/-- What a run of the program leaves: its status and the lines of its two
    outputs. -/
structure Transcript where
  status : Nat
  output : List String := []
  errors : List String := []
deriving DecidableEq, Repr, Inhabited

def registryOf (database : Database) (settings : Settings) : Attempt Registry :=
  Registry.make Library.standard.formulas (some (.stored database)) settings.maxReferenceDepth

def Question.source (q : Question) : Attempt FormulaSource :=
  match q.formulaId with
  | some id => .ok (.stored (.text id))
  | none => FormulaSource.ofParts .null (.ofText? q.formula) (.ofWord (.text q.kind))

def Question.request (q : Question) : Attempt Request := do
  let source ← q.source
  let clients := q.clients.map Value.text
  let first := Value.int q.years.1
  let last := Value.int q.years.2
  let version := Value.ofText? q.version
  if q.isSeries then Request.series clients first last source version
  else Request.make clients [first, last] source version none

def serviceFor (q : Question) (database : Database) (registry : Registry) (settings : Settings)
    (requestId : Nat → String) : Service :=
  let standardMapping := q.standardMapping.getD settings.useStandardMapping
  (Service.start registry (.database database (.bool standardMapping)) settings none
    Clock.standard.now requestId).setHold true

def evaluate (q : Question) (database : Database) (settings : Settings) (requestId : Nat → String) :
    Log.Recorded (Attempt Response) := do
  let registry ← Log.Recorded.attempt (registryOf database settings)
  let request ← Log.Recorded.attempt q.request
  let call := Call.ofRequest programName request
  let service := { serviceFor q database registry settings requestId with journal := ← get }
  let service := (service.submit [call]).serve call.size
  set service.journal
  match service.endings with
  | e :: _ => return e.outcome
  | [] => return .error .missingAttribute

/-- The benchmarks of the formula that a question names. -/
def benchmarksFor (q : Question) (database : Database) (settings : Settings) :
    Attempt (Option Benchmarks) := do
  match q.formulaId with
  | some id =>
    let registry ← registryOf database settings
    let d ← registry.definition (.text id)
    .ok d.benchmarks
  | none => .ok none

def answer (q : Question) (database : Database) (settings : Settings) (requestId : Nat → String) :
    Log.Recorded Transcript := do
  match ← evaluate q database settings requestId with
  | .ok r =>
    let benchmarks ← Log.Recorded.attempt (benchmarksFor q database settings)
    let lines ← Log.Recorded.attempt (reportLines q settings.currencyLabel benchmarks r)
    return { status := 0, output := lines }
  | .error f =>
    if f.family? = some .formula then
      return { status := 2
               errors := ["  ERROR [" ++ f.code?.getD "" ++ "]: " ++ f.message] }
    else throw f

/-- What is written when a database cannot be connected to. -/
def notConnected (fault : AddressFault) : Transcript where
  status := 1
  errors := match fault.lines with
    | line :: rest => ("  ERROR: Cannot connect to database: " ++ line) :: rest
    | [] => []

/-- Answers the question of a command line from the database at its address. -/
def runQuestion (q : Question) (open? : Address → Option Database) (settings : Settings)
    (requestId : Nat → String) : Log.Recorded Transcript := do
  match Address.ofText q.db with
  | .error fault => return notConnected fault
  | .ok address =>
    match open? address with
    | none => return notConnected .notReadable
    | some database =>
      Database.noteOpened
      answer q database settings requestId

/-- The address of the database that a command line asks for. -/
def addressOf? (argv : List String) : Option Address :=
  match read argv with
  | .ok (some o) => o.db.bind fun db => (Address.ofText db).toOption
  | _ => none

/-- Carries out a command line, where `open?` gives the database at an address
    and `requestId` the identifiers of requests.  Only a verbose run keeps
    records. -/
def run (argv : List String) (open? : Address → Option Database) (requestId : Nat → String) :
    Log.Recorded Transcript := do
  match read argv with
  | .error f => return { status := 2, errors := faultLines f }
  | .ok none => return { status := 0, output := helpLines }
  | .ok (some o) =>
    modify fun j =>
      { j with setup := if o.verbose then (j.setup.configure (.int Log.debug)).2 else .unconfigured }
    let settings ← Library.loadSettings
    if o.list then return { status := 0, output := libraryLines Library.standard }
    else
      match o.question with
      | .error f => return { status := 2, errors := faultLines f }
      | .ok q => runQuestion q open? settings.settings requestId

end KeyFigures.CommandLine
