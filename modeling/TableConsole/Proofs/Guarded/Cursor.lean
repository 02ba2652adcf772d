import TableConsole.Proofs.Guarded.Basic
import TableConsole.Proofs.Syntax.PhraseReader

/-! # A parser with a cursor

The tokens stand in a list that ends with the end of the input, which is `none`. The parser keeps
its position in it, and the depth of what it is in, and goes through the tokens by their positions.
Loops are bounded by the number of tokens and calls by the levels that are left; to run out of either
counts as a breach.
-/

namespace TableConsole.Guarded

set_option autoImplicit false

structure Cursor where
  tokens : List (Option Token)
  position : Nat
  depth : Nat

/-- A step of the parser; the cursor has moved also if the step fails. -/
def Parse (α : Type) :=
  Cursor → Option (Except SyntaxError α × Cursor)

instance : Monad Parse where
  pure a := fun c => some (.ok a, c)
  bind p k := fun c =>
    match p c with
    | none => none
    | some (.error e, c) => some (.error e, c)
    | some (.ok a, c) => k a c

namespace Parse

section Bind

variable {α β : Type} {p : Parse α} {c c' : Cursor}

theorem bind_of_ok {a : α} (h : p c = some (.ok a, c')) (k : α → Parse β) :
    (p >>= k) c = k a c' := by
  simp only [Bind.bind, h]

theorem bind_of_error {e : SyntaxError} (h : p c = some (.error e, c')) (k : α → Parse β) :
    (p >>= k) c = some (.error e, c') := by
  simp only [Bind.bind, h]

end Bind

def breach {α : Type} : Parse α :=
  fun _ => none

def fail {α : Type} (e : SyntaxError) : Parse α :=
  fun c => some (.error e, c)

def current : Parse (Option Token) :=
  fun c => c.tokens[c.position]?.map fun t => (.ok t, c)

/-- The token so many places ahead, or the last one. -/
def peek (offset : Nat) : Parse (Option Token) :=
  fun c =>
    (minus? c.tokens.length 1).bind fun last =>
      c.tokens[min (c.position + offset) last]?.map fun t => (.ok t, c)

/-- The current token; the cursor moves behind it, unless it is the end of the input. -/
def advance : Parse (Option Token) :=
  fun c => c.tokens[c.position]?.map fun t =>
    (.ok t, if t.isNone then c else { c with position := c.position + 1 })

def isMark (m : Mark) : Option Token → Bool
  | some (.mark m') => m' = m
  | _ => false

def isLiteral : Option Token → Bool
  | some (.literal _) => true
  | _ => false

def ifNext {α : Type} (m : Mark) (behind other : Parse α) : Parse α := do
  if isMark m (← current) then
    let _ ← advance
    behind
  else other

def unexpected {α : Type} (e : Expectation) : Parse α := do
  match ← current with
  | none => fail (.unexpectedEnd e)
  | some t => fail (.unexpectedToken e t)

def expect (m : Mark) (e : Expectation) : Parse Unit :=
  ifNext m (pure ()) (unexpected e)

def expectName (e : Expectation) : Parse String := do
  match ← current with
  | some (.name n) =>
    let _ ← advance
    pure n
  | _ => unexpected e

def expectEnd (e : Expectation) : Parse Unit := do
  match ← current with
  | none =>
    let _ ← advance
    pure ()
  | some _ => unexpected e

/-- The depth is taken back whether the step inside has failed or not. -/
def nested {α : Type} (p : Parse α) : Parse α :=
  fun c =>
    if maxNesting ≤ c.depth then some (.error .tooDeep, c)
    else
      (p { c with depth := c.depth + 1 }).bind fun (r, c) =>
        (minus? c.depth 1).map fun depth => (r, { c with depth })

/-- One more link of a chain, of which there are `links` so far. -/
def link (links : Nat) : Parse Nat :=
  fun c =>
    if maxNesting ≤ c.depth then some (.error .tooDeep, c)
    else some (.ok (links + 1), { c with depth := c.depth + 1 })

def unlink (links : Nat) : Parse Unit :=
  fun c => (minus? c.depth links).map fun depth => (.ok (), { c with depth })

def separatedWithin {α : Type} (item : Parse α) (m : Mark) : Nat → Parse (List α)
  | 0 => breach
  | limit + 1 => do
    let x ← item
    ifNext m (do
        let xs ← separatedWithin item m limit
        pure (x :: xs))
      (pure [x])

def separated {α : Type} (item : Parse α) (m : Mark) : Parse (List α) :=
  fun c => separatedWithin item m c.tokens.length c

def columnsWithin (expression : Parse Expr) (closing : Mark) :
    Nat → Parse (List (String × Expr))
  | 0 => breach
  | limit + 1 => do
    if isMark closing (← current) then pure []
    else
      let name ← expectName .columnName
      expect .colon .colon
      let value ← expression
      ifNext .semicolon (do
          let columns ← columnsWithin expression closing limit
          pure ((name, value) :: columns))
        (pure [(name, value)])

def columns (expression : Parse Expr) (closing : Mark) : Parse (List (String × Expr)) :=
  fun c => columnsWithin expression closing c.tokens.length c

/-- The literals from the cursor on; a token that was seen to be a literal is one. -/
def literalsWithin : Nat → Parse (List Atom)
  | 0 => breach
  | limit + 1 => do
    if isLiteral (← current) then
      match ← advance with
      | some (.literal a) =>
        let as ← literalsWithin limit
        pure (a :: as)
      | _ => breach
    else pure []

def literals : Parse (List Atom) :=
  fun c => literalsWithin c.tokens.length c

end Parse

structure Inner where
  expression : Parse Expr
  unary : Parse Expr
  application : Parse Expr
  operand : Grammar.Chain → Parse Expr
  links : Grammar.Chain → Expr → Nat → Parse Expr

namespace Inner

open Parse
open TableConsole.Parser (Level)

variable (inner : Inner)

def arguments : Parse (List Expr) :=
  ifNext .closeBracket (pure []) do
    let args ← separated (nested inner.expression) .semicolon
    expect .closeBracket .closeBracket
    pure args

def table : Parse Expr := do
  let keys ← columns (nested inner.expression) .closeBracket
  expect .closeBracket .closeBracket
  let columns ← columns (nested inner.expression) .closeParen
  expect .closeParen .closeParen
  pure (.table keys columns)

def paren : Parse Expr :=
  ifNext .openBracket inner.table <| ifNext .closeParen (pure (.list [])) do
    let items ← separated (nested inner.expression) .semicolon
    expect .closeParen .closeParen
    pure (Level.ofItems items)

def primary : Parse Expr := do
  match ← current with
  | some (.literal _) =>
    let as ← literals
    pure (Level.ofItems (as.map .literal))
  | some (.function source) =>
    let _ ← advance
    pure (.function source)
  | some (.name n) =>
    let _ ← advance
    pure (.name n)
  | some (.mark .openParen) =>
    let _ ← advance
    inner.paren
  | _ => unexpected .expression

def call (f : String) : Parse Expr := do
  let _ ← advance
  let _ ← advance
  let args ← inner.arguments
  pure (.apply f args)

def applied : Parse Expr := do
  match ← current with
  | some (.mark .kwWavg) =>
    if isMark .openBracket (← peek 1) then inner.call "wavg" else inner.primary
  | some (.name f) =>
    if isMark .openBracket (← peek 1) then inner.call f
    else if (← peek 1).any Token.startsOperand then
      let _ ← advance
      let arg ← nested inner.application
      pure (.apply f [arg])
    else inner.primary
  | _ => inner.primary

def negated : Parse Expr :=
  ifNext .minus (do
      let operand ← nested inner.unary
      pure (.negate operand))
    inner.applied

/-- The links of a chain; what they have raised the depth by is taken back at the end. -/
def linked (c : Grammar.Chain) (left : Expr) (links : Nat) : Parse Expr := do
  match (← current).bind (Parser.chainOp? c) with
  | none =>
    unlink links
    pure left
  | some op =>
    let _ ← advance
    let links ← link links
    let right ← inner.operand c
    inner.links c (.binary op left right) links

def weighted : Parse Expr := do
  let left ← inner.negated
  inner.linked .weighted left 0

def product : Parse Expr := do
  let left ← inner.weighted
  inner.linked .product left 0

def sum : Parse Expr := do
  let left ← inner.product
  inner.linked .sum left 0

def comparison : Parse Expr := do
  let left ← inner.sum
  match (← current).bind Level.comparisonOp? with
  | none => pure left
  | some op =>
    let _ ← advance
    let right ← inner.sum
    pure (.binary op left right)

def operandOf : Grammar.Chain → Parse Expr
  | .sum => inner.product
  | .product => inner.weighted
  | .weighted => inner.negated

def exhausted : Inner where
  expression := breach
  unary := breach
  application := breach
  operand _ := breach
  links _ _ _ := breach

def next : Inner where
  expression := inner.comparison
  unary := inner.negated
  application := inner.applied
  operand := inner.operandOf
  links := inner.linked

def level : Nat → Inner
  | 0 => exhausted
  | n + 1 => (level n).next

end Inner

namespace Parse

def expression : Parse Expr :=
  nested (Inner.level maxNesting).expression

def expr : Parse Expr := do
  let e ← expression
  expectEnd .inputEnd
  pure e

def projection : Parse Projection := do
  match ← current, ← peek 1 with
  | some (.name n), some (.mark .colon) =>
    let _ ← advance
    let _ ← advance
    let e ← expression
    pure ⟨some n, e⟩
  | _, _ =>
    let e ← expression
    pure ⟨none, e⟩

def projections : Parse (List Projection) :=
  separated projection .comma

def selected : Parse (List Projection) := do
  let next ← current
  if isMark .kwBy next || isMark .kwFrom next then pure [] else projections

def clause {α : Type} (m : Mark) (body : Parse (List α)) : Parse (List α) :=
  ifNext m body (pure [])

def query : Parse Query := do
  expect .kwSelect .kwSelect
  let projections ← selected
  let groups ← clause .kwBy Parse.projections
  expect .kwFrom .kwFrom
  let source ← expectName .tableName
  let filters ← clause .kwWhere (separated expression .comma)
  expectEnd .queryEnd
  pure ⟨projections, groups, source, filters⟩

def run {α : Type} (p : Parse α) (ts : List Token) : Except (Halt SyntaxError) α :=
  match p ⟨ts.map some ++ [none], 0, 0⟩ with
  | none => .error .breach
  | some (.error e, _) => .error (.error e)
  | some (.ok a, _) => .ok a

end Parse

end TableConsole.Guarded
