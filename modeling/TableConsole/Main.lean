import TableConsole.CommandLine
import TableConsole.Session.Dialogue

/-! # The program

Reads the files and the standard input, and prints. Errors go to the standard error, and the
program then ends with a code that is not zero.
-/

set_option autoImplicit false

namespace TableConsole.Program

def seedSource (file : Option String) : IO SeedSource := do
  match file with
  | none => return .none
  | some file =>
    try
      return .document (← IO.FS.readFile file)
    catch
      | .noFileOrDirectory .. => return .missing
      | e => throw e

partial def readRest (stream : IO.FS.Stream) (text : String) : IO String := do
  let line ← stream.getLine
  if line.isEmpty then return text else readRest stream (text ++ line)

/-- The script of a file or of the standard input; a terminal gives none. -/
def scriptSource? (file : Option String) : IO (Option String) := do
  match file with
  | some file => return some (← IO.FS.readFile file)
  | none =>
    let stdin ← IO.getStdin
    if ← stdin.isTty then return none else return some (← readRest stdin "")

def fail (message : String) : IO UInt32 := do
  IO.eprintln message
  return 1

def cutShort : IO UInt32 := do
  IO.eprintln "Formatting argument out of range"
  return 101

def withSession (i : Invocation) (body : Session → IO UInt32) : IO UInt32 := do
  match Session.ofOptions i.options (← seedSource i.seedFile) with
  | .error e => fail e.message
  | .ok session => body session

def runScript (i : Invocation) (file : Option String) : IO UInt32 := do
  match ← scriptSource? file with
  | none => fail "No input provided. Pass a file or pipe a script to stdin."
  | some source =>
    withSession i fun session => do
      match (session.script i.markup source).1 with
      | none => cutShort
      | some lines =>
        lines.forM IO.println
        return 0

def print (text : String) : IO Unit := do
  IO.print text
  (← IO.getStdout).flush

/-- The code of the program at the end, or what goes on with the text that was written. -/
def report (output : Except String String) (next : IO UInt32) : IO UInt32 := do
  match output with
  | .ok text =>
    print text
    next
  | .error text =>
    print text
    cutShort

partial def converse (markup : Bool) (d : Dialogue) : IO UInt32 := do
  let line ← (← IO.getStdin).getLine
  if line.isEmpty then report (d.finish markup).1 (return 0)
  else
    let (output, d) := d.feed markup ((Text.lines line.toList).head?.getD [])
    report output (converse markup d)

def runDialogue (i : Invocation) : IO UInt32 :=
  withSession i fun session => do
    print Dialogue.prompt
    converse i.markup (Dialogue.start session)

def execute (i : Invocation) : IO UInt32 :=
  match i.command with
  | .run file => runScript i file
  | .dialogue => runDialogue i

end TableConsole.Program

open TableConsole in
def main (args : List String) : IO UInt32 := do
  match Invocation.ofArguments? args with
  | none =>
    IO.eprintln Invocation.usage
    return 2
  | some i =>
    try
      Program.execute i
    catch e =>
      Program.fail ("IO error: " ++ toString e)
