import TableConsole.Number.Arithmetic
import TableConsole.Value.Atom

/-! # Expressions and queries -/

namespace TableConsole

set_option autoImplicit false

inductive Comparison
  | less
  | greater
  | lessEqual
  | greaterEqual
  deriving DecidableEq, Repr

/-- The operators that act on atoms and extend to lists item by item. -/
inductive AtomOp
  | arithmetic (op : Number.Operation)
  | equal
  | notEqual
  | compare (c : Comparison)
  deriving DecidableEq, Repr

inductive BinOp
  | elementwise (op : AtomOp)
  | member
  | weightedAverage
  deriving DecidableEq, Repr

def Number.Operation.symbol : Number.Operation → String
  | .add => "+"
  | .subtract => "-"
  | .multiply => "*"
  | .divide => "%"

def Comparison.symbol : Comparison → String
  | .less => "<"
  | .greater => ">"
  | .lessEqual => "<="
  | .greaterEqual => ">="

def AtomOp.symbol : AtomOp → String
  | .arithmetic op => op.symbol
  | .equal => "="
  | .notEqual => "<>"
  | .compare c => c.symbol

def BinOp.symbol : BinOp → String
  | .elementwise op => op.symbol
  | .member => "in"
  | .weightedAverage => "wavg"

inductive Expr
  | literal (a : Atom)
  | function (source : String)
  | list (items : List Expr)
  /-- A table literal with its key columns apart from the others. -/
  | table (keys columns : List (String × Expr))
  | name (n : String)
  | negate (operand : Expr)
  | binary (op : BinOp) (left right : Expr)
  | apply (function : String) (arguments : List Expr)

structure Projection where
  name : Option String
  expr : Expr

/-- `select projections by groups from source where filters`; no projections mean every column. -/
structure Query where
  projections : List Projection
  groups : List Projection
  source : String
  filters : List Expr

end TableConsole
