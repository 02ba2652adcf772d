import TableConsole.Builtin
import TableConsole.Syntax.Expr
import TableConsole.Syntax.Error
import TableConsole.Value.Table

/-! # Evaluation errors -/

namespace TableConsole

set_option autoImplicit false

def maxTil : Nat := 1000000

inductive TypeFault
  | operands (op : AtomOp) (left right : Kind)
  | comparison (c : Comparison) (left right : Kind)
  | negation (k : Kind)
  | argument (b : Builtin) (k : Kind)
  | arity (b : Builtin) (expected found : Nat)
  | vwapArity (found : Nat)
  | listIndex (k : Kind)
  | listArity (found : Nat)
  | tableIndex (k : Kind)
  | tableArity (found : Nat)
  | notFunction (name : String) (k : Kind)
  | tilLimit (shown : String)
  | tilNatural (shown : String)
  | tableInColumn (name : String)
  | tableInGroup
  deriving DecidableEq, Repr

def TypeFault.message : TypeFault → String
  | .operands op left right =>
    "Cannot apply " ++ op.symbol ++ " to " ++ left.name ++ " and " ++ right.name
  | .comparison c left right => "Cannot compare " ++ left.name ++ " " ++ c.symbol ++ " " ++ right.name
  | .negation k => "Cannot negate " ++ k.name
  | .argument b k => b.name ++ " cannot take a " ++ k.name
  | .arity b expected found =>
    b.name ++ " takes " ++ toString expected ++ " argument" ++ (if expected = 1 then "" else "s") ++
      ", got " ++ toString found
  | .vwapArity found => "vwap takes at most 1 argument, got " ++ toString found
  | .listIndex k => "cannot index a list with a " ++ k.name
  | .listArity found => "list indexing takes 1 argument, got " ++ toString found
  | .tableIndex k => "cannot index a table with a " ++ k.name
  | .tableArity found => "table indexing takes 1 argument, got " ++ toString found
  | .notFunction name k => name ++ " is a " ++ k.name ++ ", not a function"
  | .tilLimit shown => "til is limited to " ++ toString maxTil ++ " items, got " ++ shown
  | .tilNatural shown => "til needs a non-negative integer, got " ++ shown
  | .tableInColumn name => "column '" ++ name ++ "' cannot hold a table"
  | .tableInGroup => "cannot group by a table"

inductive TableFault
  | duplicateColumn (name : String)
  | noColumn (name : String)
  | vwapColumn (name : String)
  | notLiteral (k : Kind)
  | notTable (name : String) (k : Kind)
  deriving DecidableEq, Repr

def TableFault.message : TableFault → String
  | .duplicateColumn name => "duplicate column '" ++ name ++ "'"
  | .noColumn name => "no column '" ++ name ++ "'"
  | .vwapColumn name => "vwap needs a '" ++ name ++ "' column"
  | .notLiteral k => "expected a table literal, got a " ++ k.name
  | .notTable name k => "'" ++ name ++ "' is a " ++ k.name ++ ", not a table"

inductive EvalError
  /-- The text looks like arithmetic and cannot be read. -/
  | arithmetic (text : String)
  | parse (e : SyntaxError)
  | undefinedName (name : String)
  | type (f : TypeFault)
  | length (expected found : Nat)
  | table (f : TableFault)
  /-- A row is too short for the columns of its table. -/
  | fault

namespace EvalError

def message : EvalError → String
  | .arithmetic text => "Cannot evaluate expression: " ++ text
  | .parse e => "Parse error: " ++ e.message
  | .undefinedName name => "Undefined name: " ++ name
  | .type f => "Type error: " ++ f.message
  | .length expected found =>
    "Length error: expected " ++ toString expected ++ " items, found " ++ toString found
  | .table f => "Table error: " ++ f.message
  | .fault => ""

/-- The failures that the echo leniency turns into the text of the statement. -/
def isDegradable : EvalError → Bool
  | .parse _ | .undefinedName _ => true
  | _ => false

def ofDefect : TableDefect → EvalError
  | .duplicateColumn name => .table (.duplicateColumn name)
  | .length expected found => .length expected found

end EvalError

end TableConsole
