import TableConsole.Settings
import TableConsole.Text.Blank
import TableConsole.Text.Letter
import TableConsole.Text.Lines
import TableConsole.Text.Quoting
import TableConsole.Text.Search

/-! # Statements

Source text is cut into statements, and the shape of a statement is decided on its text: what
comes before a colon outside brackets and strings is bound; a bracket behind an identifier makes a
call; the word `select` starts a query; the rest are expressions.
-/

namespace TableConsole

set_option autoImplicit false

inductive Statement
  | assignment (name expression : String)
  | definition (name source : String)
  | call (function source : String)
  | query (text : String)
  | expression (text : String)
  deriving DecidableEq, Repr

namespace Statement

/-- Bindings report the bound name instead of repeating the statement. -/
def isBinding : Statement → Bool
  | .assignment .. | .definition .. => true
  | _ => false

/-- A target with a brace defines a function, a target that is an identifier is assigned. -/
def binding? (cs : List Char) : Option Statement :=
  match Text.splitColon? cs with
  | none => none
  | some (before, after) =>
    let target := Text.trim before
    if '{' ∈ target then
      let name := Text.trim (target.takeWhile (· != '{'))
      some (.definition (String.ofList name) (String.ofList cs))
    else if Text.isIdentifier target then
      some (.assignment (String.ofList target) (String.ofList (Text.trim after)))
    else none

/-- The identifier before the first bracket, if some bracket closes. -/
def callee? (cs : List Char) : Option String :=
  let f := Text.trim (cs.takeWhile (· != '['))
  if '[' ∈ cs ∧ ']' ∈ cs ∧ Text.isIdentifier f then some (String.ofList f) else none

def startsSelect (cs : List Char) : Bool :=
  "select".toList.isPrefixOf (Text.foldCase cs)

def ofTrimmed (cs : List Char) : Statement :=
  match binding? cs with
  | some statement => statement
  | none =>
    match callee? cs with
    | some f => .call f (String.ofList cs)
    | none =>
      if startsSelect cs then .query (String.ofList cs) else .expression (String.ofList cs)

def ofText (s : String) : Statement :=
  ofTrimmed (Text.trim s.toList)

/-- The lines of a text without their comments and outer blanks, empty ones left out. -/
def contentLines (cs : List Char) : List (List Char) :=
  ((Text.lines cs).map fun line => Text.trim (Text.stripComment line)).filter (!·.isEmpty)

def joinFrom (first : List Char) : List (List Char) → List (List Char)
  | [] => [first]
  | line :: lines =>
    if 0 < Text.bracketDepth first then joinFrom (first ++ ' ' :: line) lines
    else first :: joinFrom line lines

def joinLines : List (List Char) → List (List Char)
  | [] => []
  | line :: lines => joinFrom line lines

def dropSemicolon (cs : List Char) : List Char :=
  if cs.getLast? = some ';' then cs.dropLast else cs

/-- One semicolon at the end is not part of a statement. -/
def finish (cs : List Char) : List Char :=
  Text.dropBlankEnd (dropSemicolon cs)

def splitChars (joining : Joining) (cs : List Char) : List (List Char) :=
  let lines := contentLines cs
  (match joining with
    | .perLine => lines
    | .brackets => joinLines lines).map finish

def split (joining : Joining) (source : String) : List String :=
  (splitChars joining source.toList).map String.ofList

end Statement

end TableConsole
