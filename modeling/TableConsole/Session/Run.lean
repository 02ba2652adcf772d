import TableConsole.Display.Value
import TableConsole.Session.Evaluate

/-! # Running source text

Each statement gives a block of display lines: the statement itself unless it is a binding, and
then its outcome or its error. A failing statement does not stop the ones behind it. A table that is
too wide to be shown does: it cuts the run short, and with it all lines are lost, but not what the
statements up to it have bound.
-/

namespace TableConsole

set_option autoImplicit false

def Outcome.display? : Outcome → Option (List DisplayLine)
  | .assigned name v =>
    let report := .comment ("// Assigned to variable: " ++ name)
    match v with
    | .table _ | .list _ => v.display?.map fun line => [report, line]
    | _ => some [report]
  | .defined name => some [.comment ("// Function defined: " ++ name)]
  | .value v => v.display?.map ([·])

def EvalError.display (e : EvalError) : DisplayLine :=
  .error (if e.message.isEmpty then "Unknown error occurred" else e.message)

structure Session where
  settings : Settings
  symbols : Symbols

namespace Session

def fresh (settings : Settings) : Session := ⟨settings, Symbols.empty⟩

def withSample (settings : Settings) : Session := ⟨settings, Sample.symbols⟩

def evaluate (s : Session) (line : String) : Except EvalError Outcome × Session :=
  let (result, symbols) := TableConsole.evaluate s.settings s.symbols line
  (result, { s with symbols })

def resultLines? : Except EvalError Outcome → Option (List DisplayLine)
  | .ok outcome => outcome.display?
  | .error e => some [e.display]

def runStatement (s : Session) (text : String) : Option (List DisplayLine) × Session :=
  let st := Statement.ofText text
  let (result, symbols) := evaluateStatement s.settings s.symbols st
  ((resultLines? result).map ((if st.isBinding then [] else [.prompt text]) ++ ·),
    { s with symbols })

/-- What a run and then another one give. The second is not started if the first is cut short. -/
def andThen (first : Option (List DisplayLine) × Session)
    (second : Session → Option (List DisplayLine) × Session) :
    Option (List DisplayLine) × Session :=
  match first with
  | (none, s) => (none, s)
  | (some block, s) =>
    let (lines, s) := second s
    (lines.map (block ++ ·), s)

def runAll (s : Session) : List String → Option (List DisplayLine) × Session
  | [] => (some [], s)
  | text :: texts => andThen (s.runStatement text) fun s => s.runAll texts

/-- No lines if the run is cut short. -/
def run (s : Session) (source : String) : Option (List DisplayLine) × Session :=
  s.runAll (Statement.split s.settings.joining source)

def script (s : Session) (markup : Bool) (source : String) : Option (List String) × Session :=
  let (lines, s) := s.run source
  (lines.map (·.map (·.render markup)), s)

end Session

end TableConsole
