import TableConsole.Syntax.Expr
import TableConsole.Syntax.Error

/-! # Reading expressions and queries

From loosest to tightest: one comparison, sums, products, weighted averages, negation,
application, primaries. Parentheses, negation, application to an operand, and each operator of a
chain take one level from a budget. The readers of one level are built from those of the level
below, so the budget is the only recursion; lists are bounded by the number of tokens.
-/

namespace TableConsole.Parser

set_option autoImplicit false

abbrev Reader (α : Type) := List Token → Except SyntaxError (α × List Token)

def unexpected (e : Expectation) : List Token → SyntaxError
  | [] => .unexpectedEnd e
  | t :: _ => .unexpectedToken e t

def skip? (m : Mark) : List Token → Option (List Token)
  | .mark m' :: ts => if m' = m then some ts else none
  | _ => none

def expect (m : Mark) (e : Expectation) (ts : List Token) : Except SyntaxError (List Token) :=
  match skip? m ts with
  | some ts => .ok ts
  | none => .error (unexpected e ts)

def expectName (e : Expectation) : Reader String
  | .name n :: ts => .ok (n, ts)
  | ts => .error (unexpected e ts)

/-- One or more items with a separator between them; at most `limit` items. -/
def separatedWithin {α : Type} (item : Reader α) (m : Mark) : Nat → Reader (List α)
  | 0, ts => .error (unexpected .expression ts)
  | limit + 1, ts => do
    let (x, ts) ← item ts
    match skip? m ts with
    | none => .ok ([x], ts)
    | some ts =>
      let (xs, ts) ← separatedWithin item m limit ts
      .ok (x :: xs, ts)

def separated {α : Type} (item : Reader α) (m : Mark) : Reader (List α) :=
  fun ts => separatedWithin item m (ts.length + 1) ts

/-- `name: expression` columns up to a closing mark, with an optional separator at the end. -/
def columnsWithin (expression : Reader Expr) (closing : Mark) :
    Nat → Reader (List (String × Expr))
  | 0, ts => .error (unexpected .columnName ts)
  | limit + 1, ts =>
    match skip? closing ts with
    | some _ => .ok ([], ts)
    | none => do
      let (name, ts) ← expectName .columnName ts
      let ts ← expect .colon .colon ts
      let (value, ts) ← expression ts
      match skip? .semicolon ts with
      | none => .ok ([(name, value)], ts)
      | some ts =>
        let (columns, ts) ← columnsWithin expression closing limit ts
        .ok ((name, value) :: columns, ts)

def columns (expression : Reader Expr) (closing : Mark) : Reader (List (String × Expr)) :=
  fun ts => columnsWithin expression closing (ts.length + 1) ts

/-- The literals at the front. -/
def literals : List Token → List Atom × List Token
  | .literal a :: ts =>
    let (as, ts) := literals ts
    (a :: as, ts)
  | ts => ([], ts)

/-- The readers that may be entered with a given budget. -/
structure Level where
  comparison : Reader Expr
  multiplicative : Reader Expr
  weighted : Reader Expr
  unary : Reader Expr
  application : Reader Expr
  additiveTail : Expr → Reader Expr
  multiplicativeTail : Expr → Reader Expr
  weightedTail : Expr → Reader Expr

def Level.exhausted : Level where
  comparison _ := .error .tooDeep
  multiplicative _ := .error .tooDeep
  weighted _ := .error .tooDeep
  unary _ := .error .tooDeep
  application _ := .error .tooDeep
  additiveTail _ _ := .error .tooDeep
  multiplicativeTail _ _ := .error .tooDeep
  weightedTail _ _ := .error .tooDeep

namespace Level

variable (inner : Level)

def nextArguments : Reader (List Expr) := fun ts =>
  match skip? .closeBracket ts with
  | some ts => .ok ([], ts)
  | none => do
    let (args, ts) ← separated inner.comparison .semicolon ts
    let ts ← expect .closeBracket .closeBracket ts
    .ok (args, ts)

def nextTable : Reader Expr := fun ts => do
  let (keys, ts) ← columns inner.comparison .closeBracket ts
  let ts ← expect .closeBracket .closeBracket ts
  let (columns, ts) ← columns inner.comparison .closeParen ts
  let ts ← expect .closeParen .closeParen ts
  .ok (.table keys columns, ts)

/-- A single item is itself, several are a list. -/
def ofItems : List Expr → Expr
  | [e] => e
  | es => .list es

def nextParen : Reader Expr := fun ts =>
  match skip? .openBracket ts with
  | some ts => inner.nextTable ts
  | none =>
    match skip? .closeParen ts with
    | some ts => .ok (.list [], ts)
    | none => do
      let (items, ts) ← separated inner.comparison .semicolon ts
      let ts ← expect .closeParen .closeParen ts
      .ok (ofItems items, ts)

def nextPrimary : Reader Expr
  | .literal a :: ts =>
    let (as, ts) := literals ts
    .ok (ofItems ((a :: as).map .literal), ts)
  | .function source :: ts => .ok (.function source, ts)
  | .name n :: ts => .ok (.name n, ts)
  | .mark .openParen :: ts => inner.nextParen ts
  | ts => .error (unexpected .expression ts)

def nextApplication : Reader Expr
  | .mark .kwWavg :: .mark .openBracket :: ts => do
    let (args, ts) ← inner.nextArguments ts
    .ok (.apply "wavg" args, ts)
  | .name f :: .mark .openBracket :: ts => do
    let (args, ts) ← inner.nextArguments ts
    .ok (.apply f args, ts)
  | .name f :: t :: ts =>
    if t.startsOperand then do
      let (arg, ts) ← inner.application (t :: ts)
      .ok (.apply f [arg], ts)
    else .ok (.name f, t :: ts)
  | ts => inner.nextPrimary ts

def nextUnary (ts : List Token) : Except SyntaxError (Expr × List Token) :=
  match skip? .minus ts with
  | some ts => do
    let (operand, ts) ← inner.unary ts
    .ok (.negate operand, ts)
  | none => inner.nextApplication ts

def weightedOp? : Token → Option BinOp
  | .mark .kwWavg => some .weightedAverage
  | _ => none

def multiplicativeOp? : Token → Option BinOp
  | .mark .star => some (.elementwise (.arithmetic .multiply))
  | .mark .slash | .mark .percent => some (.elementwise (.arithmetic .divide))
  | _ => none

def additiveOp? : Token → Option BinOp
  | .mark .plus => some (.elementwise (.arithmetic .add))
  | .mark .minus => some (.elementwise (.arithmetic .subtract))
  | _ => none

def comparisonOp? : Token → Option BinOp
  | .mark .equal => some (.elementwise .equal)
  | .mark .notEqual => some (.elementwise .notEqual)
  | .mark .less => some (.elementwise (.compare .less))
  | .mark .greater => some (.elementwise (.compare .greater))
  | .mark .lessEqual => some (.elementwise (.compare .lessEqual))
  | .mark .greaterEqual => some (.elementwise (.compare .greaterEqual))
  | .mark .kwIn => some .member
  | _ => none

/-- The links of a chain behind its first operand: each operator costs one level for the operand
behind it and for the rest of the chain. -/
def chain (op? : Token → Option BinOp) (operand : Reader Expr) (tail : Expr → Reader Expr)
    (left : Expr) : Reader Expr
  | [] => .ok (left, [])
  | t :: ts =>
    match op? t with
    | none => .ok (left, t :: ts)
    | some op => do
      let (right, ts) ← operand ts
      tail (.binary op left right) ts

def nextWeightedTail : Expr → Reader Expr :=
  chain weightedOp? inner.unary inner.weightedTail

def nextWeighted : Reader Expr := fun ts => do
  let (left, ts) ← inner.nextUnary ts
  inner.nextWeightedTail left ts

def nextMultiplicativeTail : Expr → Reader Expr :=
  chain multiplicativeOp? inner.weighted inner.multiplicativeTail

def nextMultiplicative : Reader Expr := fun ts => do
  let (left, ts) ← inner.nextWeighted ts
  inner.nextMultiplicativeTail left ts

def nextAdditiveTail : Expr → Reader Expr :=
  chain additiveOp? inner.multiplicative inner.additiveTail

def nextAdditive : Reader Expr := fun ts => do
  let (left, ts) ← inner.nextMultiplicative ts
  inner.nextAdditiveTail left ts

def nextComparison : Reader Expr := fun ts => do
  let (left, ts) ← inner.nextAdditive ts
  match ts with
  | [] => .ok (left, [])
  | t :: rest =>
    match comparisonOp? t with
    | none => .ok (left, t :: rest)
    | some op => do
      let (right, rest) ← inner.nextAdditive rest
      .ok (.binary op left right, rest)

def next : Level where
  comparison := inner.nextComparison
  multiplicative := inner.nextMultiplicative
  weighted := inner.nextWeighted
  unary := inner.nextUnary
  application := inner.nextApplication
  additiveTail := inner.nextAdditiveTail
  multiplicativeTail := inner.nextMultiplicativeTail
  weightedTail := inner.nextWeightedTail

end Level

def level : Nat → Level
  | 0 => Level.exhausted
  | budget + 1 => (level budget).next

def expression : Reader Expr :=
  (level maxNesting).comparison

def parseExpr (ts : List Token) : Except SyntaxError Expr := do
  let (e, rest) ← expression ts
  if rest.isEmpty then .ok e else .error (unexpected .inputEnd rest)

def projection : Reader Projection
  | .name n :: .mark .colon :: ts => do
    let (e, ts) ← expression ts
    .ok (⟨some n, e⟩, ts)
  | ts => do
    let (e, ts) ← expression ts
    .ok (⟨none, e⟩, ts)

def projections : Reader (List Projection) :=
  separated projection .comma

/-- The projections of a query; none if its `by` or `from` comes at once. -/
def selected (ts : List Token) : Except SyntaxError (List Projection × List Token) :=
  if (skip? .kwBy ts).isSome || (skip? .kwFrom ts).isSome then .ok ([], ts) else projections ts

def clause {α : Type} (m : Mark) (body : Reader (List α)) : Reader (List α) := fun ts =>
  match skip? m ts with
  | some ts => body ts
  | none => .ok ([], ts)

def parseQuery (ts : List Token) : Except SyntaxError Query := do
  let ts ← expect .kwSelect .kwSelect ts
  let (projections, ts) ← selected ts
  let (groups, ts) ← clause .kwBy Parser.projections ts
  let ts ← expect .kwFrom .kwFrom ts
  let (source, ts) ← expectName .tableName ts
  let (filters, rest) ← clause .kwWhere (separated expression .comma) ts
  if rest.isEmpty then .ok ⟨projections, groups, source, filters⟩
  else .error (unexpected .queryEnd rest)

end TableConsole.Parser

namespace TableConsole

def Parser.tokens (s : String) : Except SyntaxError (List Token) :=
  (Token.ofText s).mapError .lex

def Expr.ofText (s : String) : Except SyntaxError Expr := do
  Parser.parseExpr (← Parser.tokens s)

def Query.ofText (s : String) : Except SyntaxError Query := do
  Parser.parseQuery (← Parser.tokens s)

end TableConsole
