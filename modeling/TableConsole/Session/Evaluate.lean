import TableConsole.Eval.Query
import TableConsole.Statement

/-! # Evaluating statements

A statement is evaluated against the symbols of a session. An assignment evaluates its right-hand
side as a statement again, at most 128 times over; symbols change only after everything that can
fail has succeeded.
-/

namespace TableConsole

set_option autoImplicit false

inductive Outcome
  | assigned (name : String) (v : Value)
  | defined (name : String)
  | value (v : Value)

namespace Evaluation

def echoing (settings : Settings) (text : String) (r : Except EvalError Value) :
    Except EvalError Value :=
  match r with
  | .ok v => .ok v
  | .error e =>
    if e.isDegradable ∧ settings.leniency = .echo then .ok (.text text) else .error e

def scope (settings : Settings) (symbols : Symbols) : Scope :=
  Scope.global symbols settings.mode

def readExpr (text : String) : Except EvalError Expr :=
  (Expr.ofText text).mapError .parse

def readQuery (text : String) : Except EvalError Query :=
  (Query.ofText text).mapError .parse

def isArithmetic (text : String) : Bool :=
  let allowed (c : Char) : Bool :=
    c.isDigit || c == '+' || c == '-' || c == '*' || c == '/' || c == '.' || Text.isBlank c
  !text.isEmpty && text.toList.all allowed

/-- A statement that starts with a table literal has a table for its value. -/
def tableLiteral (settings : Settings) (symbols : Symbols) (text : String) :
    Except EvalError Value :=
  match settings.mode with
  | .canned => .ok (.table (Sample.literal text))
  | .computed => do
    match ← (← readExpr text).eval (scope settings symbols) with
    | .table t => .ok (.table t)
    | v => .error (.table (.notLiteral v.kind))

def expression (settings : Settings) (symbols : Symbols) (text : String) :
    Except EvalError Value :=
  if "([".isPrefixOf text then echoing settings text (tableLiteral settings symbols text)
  else if isArithmetic text then
    match Expr.ofText text with
    | .ok e => e.eval (scope settings symbols)
    | .error _ => .error (.arithmetic text)
  else echoing settings text (do (← readExpr text).eval (scope settings symbols))

def call (settings : Settings) (symbols : Symbols) (f source : String) : Except EvalError Value :=
  if settings.mode = .canned ∧ Text.contains f "calculateVWAP" then .ok (.table Sample.vwap)
  else echoing settings source (do (← readExpr source).evalCall (scope settings symbols))

def query (settings : Settings) (symbols : Symbols) (text : String) : Except EvalError Value :=
  match settings.mode with
  | .canned => .ok (.table (Sample.query text))
  | .computed =>
    echoing settings text (do
      (← (← readQuery text).answer (scope settings symbols)) |> .table |> .ok)

/-- What a right-hand side gives, and the symbols after it. -/
abbrev RightHandSide := String → Symbols → Except EvalError Value × Symbols

def isFunction : Value → Bool
  | .function _ => true
  | _ => false

def bind (name : String) (v : Value) (symbols : Symbols) : Outcome × Symbols :=
  (if isFunction v then .defined name else .assigned name v, symbols.insert name v)

def statement (settings : Settings) (right : RightHandSide) (symbols : Symbols) :
    Statement → Except EvalError Outcome × Symbols
  | .assignment name text =>
    match right text symbols with
    | (.ok v, symbols) =>
      let (outcome, symbols) := bind name v symbols
      (.ok outcome, symbols)
    | (.error e, symbols) => (.error e, symbols)
  | .definition name source =>
    (.ok (.defined name), symbols.insert name (.function source))
  | .call f source => ((call settings symbols f source).map .value, symbols)
  | .query text => ((query settings symbols text).map .value, symbols)
  | .expression text => ((expression settings symbols text).map .value, symbols)

/-- The value that an outcome leaves for the assignment around it. -/
def valueOf (symbols : Symbols) : Outcome → Except EvalError Value
  | .assigned _ v | .value v => .ok v
  | .defined name =>
    match symbols.get? name with
    | some v => .ok v
    | none => .error (.undefinedName name)

def rightHandSide (settings : Settings) : Nat → RightHandSide
  | 0 => fun _ symbols => (.error (.parse .tooDeep), symbols)
  | budget + 1 => fun text symbols =>
    match statement settings (rightHandSide settings budget) symbols (Statement.ofText text) with
    | (.ok outcome, symbols) => (valueOf symbols outcome, symbols)
    | (.error e, symbols) => (.error e, symbols)

end Evaluation

def evaluateStatement (settings : Settings) (symbols : Symbols) (st : Statement) :
    Except EvalError Outcome × Symbols :=
  Evaluation.statement settings (Evaluation.rightHandSide settings maxNesting) symbols st

def evaluate (settings : Settings) (symbols : Symbols) (line : String) :
    Except EvalError Outcome × Symbols :=
  evaluateStatement settings symbols (Statement.ofText line)

end TableConsole
