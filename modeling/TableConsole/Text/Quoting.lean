/-! # Quoting

A scanner that walks over statement text stands in code, inside a string literal, or right after
a backslash inside a string literal. Comments, bracket depth, the colon of a binding and the end
of a function literal are all found with the same three states. Depths are integers here, which are
the counts of 32 bits as long as a text has fewer than 2^31 brackets.
-/

namespace TableConsole.Text

set_option autoImplicit false

inductive Quoting
  | code
  | quoted
  | escaped
  deriving DecidableEq, Repr

def Quoting.next : Quoting → Char → Quoting
  | .code, c => if c = '"' then .quoted else .code
  | .quoted, c => if c = '"' then .code else if c = '\\' then .escaped else .quoted
  | .escaped, _ => .quoted

/-- The text before the first two adjacent slashes in code. -/
def beforeComment : Quoting → List Char → List Char
  | _, [] => []
  | q, c :: cs =>
    if q = .code ∧ c = '/' ∧ cs.head? = some '/' then [] else c :: beforeComment (q.next c) cs

def stripComment (cs : List Char) : List Char :=
  beforeComment .code cs

def bracketStep (c : Char) : Int :=
  if c = '(' ∨ c = '[' ∨ c = '{' then 1 else if c = ')' ∨ c = ']' ∨ c = '}' then -1 else 0

def Quoting.bracketStep (q : Quoting) (c : Char) : Int :=
  if q = .code then Text.bracketStep c else 0

def depthFrom : Quoting → List Char → Int
  | _, [] => 0
  | q, c :: cs => q.bracketStep c + depthFrom (q.next c) cs

/-- Opening minus closing brackets of all three kinds in code. -/
def bracketDepth (cs : List Char) : Int :=
  depthFrom .code cs

def splitColonFrom (q : Quoting) (depth : Int) : List Char → Option (List Char × List Char)
  | [] => none
  | c :: cs =>
    if q = .code ∧ depth = 0 ∧ c = ':' then some ([], cs)
    else (splitColonFrom (q.next c) (depth + q.bracketStep c) cs).map fun (before, after) =>
      (c :: before, after)

/-- The texts around the first colon that stands in code at bracket depth zero. -/
def splitColon? (cs : List Char) : Option (List Char × List Char) :=
  splitColonFrom .code 0 cs

/-- The rest of a function literal up to the brace that closes it, and the text behind it;
`depth` more braces are open inside the literal. -/
def functionBody? (q : Quoting) (depth : Nat) : List Char → Option (List Char × List Char)
  | [] => none
  | c :: cs =>
    let add : List Char × List Char → List Char × List Char := fun (body, rest) => (c :: body, rest)
    if q = .code ∧ c = '}' then
      match depth with
      | 0 => some ([c], cs)
      | depth + 1 => (functionBody? .code depth cs).map add
    else if q = .code ∧ c = '{' then (functionBody? .code (depth + 1) cs).map add
    else (functionBody? (q.next c) depth cs).map add

end TableConsole.Text
