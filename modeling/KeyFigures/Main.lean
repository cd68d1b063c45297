/-
  KeyFigures/Main.lean
  ====================
  **The program.**

  The database of the program is a file with the data of a database as JSON; a
  file that does not exist is a database without tables.
-/
import KeyFigures.CommandLine.Run
import KeyFigures.Exchange.Databases

open KeyFigures

def emptyDatabase : Database := { tables? := none }

def loadDatabase (address : CommandLine.Address) : IO (Option Database) := do
  match address with
  | .memory => return some emptyDatabase
  | .file path =>
    let text ← (some <$> IO.FS.readFile path) <|> pure none
    match text with
    | none => return some emptyDatabase
    | some text =>
      return (Value.ofJson? text).bind fun v => ((Database.ofData v).run.run {} : Id _).1.toOption

def requestId (n : Nat) : String := "request-" ++ toString n

def writeLines (out : IO.FS.Stream) (lines : List String) : IO Unit :=
  lines.forM fun line => out.putStrLn line

def main (argv : List String) : IO UInt32 := do
  let database ← match CommandLine.addressOf? argv with
    | some address => loadDatabase address
    | none => pure none
  let (r, j) := ((CommandLine.run argv (fun _ => database) requestId).run.run {} : Id _)
  writeLines (← IO.getStderr) (j.written.map fun record => (Value.object record).toJson)
  match r with
  | .ok t =>
    writeLines (← IO.getStdout) t.output
    writeLines (← IO.getStderr) t.errors
    return t.status.toUInt32
  | .error f =>
    writeLines (← IO.getStderr) [f.kind ++ ": " ++ f.message]
    return 1
