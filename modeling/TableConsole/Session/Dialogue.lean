import TableConsole.Session.Run

/-! # Dialogue

Lines are read one by one. A line that leaves a bracket open is kept until the brackets close, and
then everything kept is run as source text whose lines are joined. The line `\v` lists the bound
names. A run that is cut short ends the dialogue; `.error` has what was written up to there.
-/

namespace TableConsole

set_option autoImplicit false

structure Dialogue where
  session : Session
  /-- The lines of a statement that is not complete, joined by line feeds. -/
  pending : List Char

namespace Dialogue

def prompt : String := "q) "

def continuation : String := "  "

def start (session : Session) : Dialogue := ⟨session, []⟩

def listing (session : Session) (markup : Bool) : String :=
  (listLine (session.symbols.names.map .symbol)).render markup

def ended (text : String) : String :=
  text ++ "\n"

def written (output : String) : Except String String → Except String String
  | .ok rest => .ok (output ++ rest)
  | .error rest => .error (output ++ rest)

/-- Runs statements one at a time; the output is one line of text for each display line. -/
def runEach (session : Session) (markup : Bool) : List String → Except String String × Session
  | [] => (.ok "", session)
  | text :: texts =>
    match session.script markup text with
    | (none, session) => (.error "", session)
    | (some lines, session) =>
      let (rest, session) := runEach session markup texts
      (written (String.join (lines.map ended)) rest, session)

def runKept (session : Session) (markup : Bool) (kept : List Char) :
    Except String String × Session :=
  runEach session markup (Statement.split .brackets (String.ofList kept))

def isListing (kept : List Char) : Bool :=
  Text.trim kept == ['\\', 'v']

/-- The output for one more line, with the prompt for the next one. -/
def feed (d : Dialogue) (markup : Bool) (line : List Char) : Except String String × Dialogue :=
  let kept := if d.pending.isEmpty then line else d.pending ++ '\n' :: line
  if 0 < Text.bracketDepth kept then (.ok continuation, ⟨d.session, kept⟩)
  else if isListing kept then
    (.ok (ended (listing d.session markup) ++ prompt), start d.session)
  else
    let (output, session) := runKept d.session markup kept
    (output.map (· ++ prompt), start session)

/-- At the end of the input an incomplete statement is run as it is. -/
def finish (d : Dialogue) (markup : Bool) : Except String String × Session :=
  if (Text.trim d.pending).isEmpty then (.ok (ended ""), d.session)
  else
    let (output, session) := runKept d.session markup d.pending
    (output.map ended, session)

def feedAll (d : Dialogue) (markup : Bool) : List (List Char) → Except String String × Session
  | [] => d.finish markup
  | line :: lines =>
    match d.feed markup line with
    | (.error output, d) => (.error output, d.session)
    | (.ok output, d) =>
      let (rest, session) := d.feedAll markup lines
      (written output rest, session)

end Dialogue

def Session.dialogue (s : Session) (markup : Bool) (input : String) :
    Except String String × Session :=
  let (output, s) := (Dialogue.start s).feedAll markup (Text.lines input.toList)
  (Dialogue.written Dialogue.prompt output, s)

end TableConsole
