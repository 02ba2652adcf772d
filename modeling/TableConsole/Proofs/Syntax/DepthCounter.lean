import TableConsole.Proofs.Guarded.Basic
import TableConsole.Proofs.Syntax.PhraseReader

/-! # A parser that counts its depth

The parser as a program with a counter. A phrase that nests raises it by one, and it is lowered
again behind the phrase, also if that has failed. The operators of a chain raise it by one each; what
they have raised it by is taken back at once behind the last of them, and not at all if the chain
fails. Unlike a cursor, which has only the depth at which it stands, the counter keeps every depth
that was set on the way. The tokens are passed on as they are in the readers.

Calls are bounded by the levels that are left. Without a level, and where more would be taken from
the counter than is there, the parser has no answer, not even an error.
-/

namespace TableConsole.Counting

open Grammar (Chain)
open TableConsole.Parser (Reader Level skip? expect expectName unexpected)

set_option autoImplicit false

structure Counter where
  depth : Nat
  /-- Every depth that was set, the latest first. -/
  path : List Nat

def Counter.set (c : Counter) (depth : Nat) : Counter :=
  ⟨depth, depth :: c.path⟩

def Counter.lower? (c : Counter) (levels : Nat) : Option Counter :=
  (Guarded.minus? c.depth levels).map c.set

abbrev Counted (α : Type) := ExceptT SyntaxError (StateT Counter Option) α

abbrev Parse (α : Type) := List Token → Counted (α × List Token)

def raise : Counted Unit := fun c =>
  if maxNesting ≤ c.depth then some (.error .tooDeep, c) else some (.ok (), c.set (c.depth + 1))

def lower (levels : Nat) : Counted Unit := fun c =>
  (c.lower? levels).map fun c => (.ok (), c)

def nested {α : Type} (p : Counted α) : Counted α := do
  raise
  fun c => (p c).bind fun (result, c) => (c.lower? 1).map fun c => (result, c)

-- These leave the counter alone, so they are the same for the parser and for the readers.
section Lists

variable {m : Type → Type} [Monad m] [MonadLiftT (Except SyntaxError) m] {α : Type}

def separatedWithin (item : List Token → m (α × List Token)) (separator : Mark) :
    Nat → List Token → m (List α × List Token)
  | 0, ts => liftM (.error (unexpected .expression ts) : Except SyntaxError (List α × List Token))
  | limit + 1, ts => do
    let (x, ts) ← item ts
    match skip? separator ts with
    | none => pure ([x], ts)
    | some ts =>
      let (xs, ts) ← separatedWithin item separator limit ts
      pure (x :: xs, ts)

def separated (item : List Token → m (α × List Token)) (separator : Mark) (ts : List Token) :
    m (List α × List Token) :=
  separatedWithin item separator (ts.length + 1) ts

def clause (keyword : Mark) (body : List Token → m (List α × List Token)) (ts : List Token) :
    m (List α × List Token) :=
  match skip? keyword ts with
  | some ts => body ts
  | none => pure ([], ts)

variable (expression : List Token → m (Expr × List Token))

def projection : List Token → m (Projection × List Token)
  | .name n :: .mark .colon :: ts => do
    let (e, ts) ← expression ts
    pure (⟨some n, e⟩, ts)
  | ts => do
    let (e, ts) ← expression ts
    pure (⟨none, e⟩, ts)

def projections : List Token → m (List Projection × List Token) :=
  separated (projection expression) .comma

def selected (ts : List Token) : m (List Projection × List Token) :=
  if (skip? .kwBy ts).isSome || (skip? .kwFrom ts).isSome then pure ([], ts)
  else projections expression ts

def query (ts : List Token) : m Query := do
  let ts ← expect .kwSelect .kwSelect ts
  let (columns, ts) ← selected expression ts
  let (groups, ts) ← clause .kwBy (projections expression) ts
  let ts ← expect .kwFrom .kwFrom ts
  let (source, ts) ← expectName .tableName ts
  let (filters, rest) ← clause .kwWhere (separated expression .comma) ts
  if rest.isEmpty then pure ⟨columns, groups, source, filters⟩
  else liftM (.error (unexpected .queryEnd rest) : Except SyntaxError Query)

def whole (ts : List Token) : m Expr := do
  let (e, rest) ← expression ts
  if rest.isEmpty then pure e
  else liftM (.error (unexpected .inputEnd rest) : Except SyntaxError Expr)

end Lists

theorem separatedWithin_eq {α : Type} (item : Reader α) (separator : Mark) (limit : Nat) :
    separatedWithin item separator limit = Parser.separatedWithin item separator limit := by
  induction limit with
  | zero => rfl
  | succ limit ih =>
    funext ts
    rw [separatedWithin, Parser.separatedWithin, ih]
    rfl

theorem separated_eq {α : Type} (item : Reader α) (separator : Mark) :
    separated item separator = Parser.separated item separator :=
  funext fun _ => congrFun (separatedWithin_eq item separator _) _

theorem query_eq : query Parser.expression = Parser.parseQuery := by
  funext ts
  simp only [query, selected, projections, separated_eq]
  rfl

theorem whole_eq : whole Parser.expression = Parser.parseExpr := rfl

def vector : Parse Expr := fun ts =>
  let (as, ts) := Parser.literals ts
  pure (Level.ofItems (as.map .literal), ts)

def columnsWithin (expression : Parse Expr) (closing : Mark) : Nat → Parse (List (String × Expr))
  | 0, ts => liftM (.error (unexpected .columnName ts) : Except SyntaxError _)
  | limit + 1, ts =>
    match skip? closing ts with
    | some _ => pure ([], ts)
    | none => do
      let (name, ts) ← expectName .columnName ts
      let ts ← expect .colon .colon ts
      let (value, ts) ← expression ts
      match skip? .semicolon ts with
      | none => pure ([(name, value)], ts)
      | some ts =>
        let (columns, ts) ← columnsWithin expression closing limit ts
        pure ((name, value) :: columns, ts)

structure Inner where
  expression : Parse Expr
  unary : Parse Expr
  application : Parse Expr
  operand : Chain → Parse Expr
  /-- The rest of a chain behind the tree of its operands so far and the number of its links. -/
  links : Chain → Expr → Nat → Parse Expr

namespace Inner

variable (inner : Inner)

def item : Parse Expr := fun ts =>
  nested (inner.expression ts)

def columns (closing : Mark) : Parse (List (String × Expr)) := fun ts =>
  columnsWithin inner.item closing (ts.length + 1) ts

def arguments : Parse (List Expr) := fun ts =>
  match skip? .closeBracket ts with
  | some ts => pure ([], ts)
  | none => do
    let (args, ts) ← separated inner.item .semicolon ts
    let ts ← expect .closeBracket .closeBracket ts
    pure (args, ts)

def table : Parse Expr := fun ts => do
  let (keys, ts) ← inner.columns .closeBracket ts
  let ts ← expect .closeBracket .closeBracket ts
  let (columns, ts) ← inner.columns .closeParen ts
  let ts ← expect .closeParen .closeParen ts
  pure (.table keys columns, ts)

def paren : Parse Expr := fun ts =>
  match skip? .openBracket ts with
  | some ts => inner.table ts
  | none =>
    match skip? .closeParen ts with
    | some ts => pure (.list [], ts)
    | none => do
      let (items, ts) ← separated inner.item .semicolon ts
      let ts ← expect .closeParen .closeParen ts
      pure (Level.ofItems items, ts)

def primary : Parse Expr
  | .literal a :: ts => vector (.literal a :: ts)
  | .function source :: ts => pure (.function source, ts)
  | .name n :: ts => pure (.name n, ts)
  | .mark .openParen :: ts => inner.paren ts
  | ts => liftM (.error (unexpected .expression ts) : Except SyntaxError _)

def applied : Parse Expr
  | .mark .kwWavg :: .mark .openBracket :: ts => do
    let (args, ts) ← inner.arguments ts
    pure (.apply "wavg" args, ts)
  | .name f :: .mark .openBracket :: ts => do
    let (args, ts) ← inner.arguments ts
    pure (.apply f args, ts)
  | .name f :: t :: ts =>
    if t.startsOperand then do
      let (arg, ts) ← nested (inner.application (t :: ts))
      pure (.apply f [arg], ts)
    else pure (.name f, t :: ts)
  | ts => inner.primary ts

def negated : Parse Expr := fun ts =>
  match skip? .minus ts with
  | some ts => do
    let (operand, ts) ← nested (inner.unary ts)
    pure (.negate operand, ts)
  | none => inner.applied ts

def linked (c : Chain) (left : Expr) (links : Nat) : Parse Expr := fun ts =>
  match ts.head?.bind (Parser.chainOp? c) with
  | none => do
    lower links
    pure (left, ts)
  | some op => do
    raise
    let (right, ts) ← inner.operand c ts.tail
    inner.links c (.binary op left right) (links + 1) ts

def chained (c : Chain) (operand : Parse Expr) : Parse Expr := fun ts => do
  let (left, ts) ← operand ts
  inner.linked c left 0 ts

def weighted : Parse Expr :=
  inner.chained .weighted inner.negated

def product : Parse Expr :=
  inner.chained .product inner.weighted

def sum : Parse Expr :=
  inner.chained .sum inner.product

def chain : Chain → Parse Expr
  | .sum => inner.sum
  | .product => inner.product
  | .weighted => inner.weighted

def operandOf : Chain → Parse Expr
  | .sum => inner.product
  | .product => inner.weighted
  | .weighted => inner.negated

def comparison : Parse Expr := fun ts => do
  let (left, ts) ← inner.sum ts
  match ts.head?.bind Level.comparisonOp? with
  | none => pure (left, ts)
  | some op => do
    let (right, ts) ← inner.sum ts.tail
    pure (.binary op left right, ts)

/-- No level is left. -/
def exhausted : Inner where
  expression _ _ := none
  unary _ _ := none
  application _ _ := none
  operand _ _ _ := none
  links _ _ _ _ _ := none

def next : Inner where
  expression := inner.comparison
  unary := inner.negated
  application := inner.applied
  operand := inner.operandOf
  links := inner.linked

def level : Nat → Inner
  | 0 => exhausted
  | n + 1 => (level n).next

end Inner

inductive Routine : Type → Type 1
  | expression : Routine (Expr × List Token)
  | comparison : Routine (Expr × List Token)
  | chain (c : Chain) : Routine (Expr × List Token)
  | unary : Routine (Expr × List Token)
  | application : Routine (Expr × List Token)
  | arguments : Routine (List Expr × List Token)
  | primary : Routine (Expr × List Token)
  | vector : Routine (Expr × List Token)
  | paren : Routine (Expr × List Token)
  | table : Routine (Expr × List Token)
  | columns (closing : Mark) : Routine (List (String × Expr) × List Token)
  | projections : Routine (List Projection × List Token)
  | query : Routine Query
  | whole : Routine Expr

namespace Routine

def run : {α : Type} → Routine α → List Token → Counted α
  | _, expression => inner.item
  | _, comparison => inner.comparison
  | _, chain c => inner.chain c
  | _, unary => inner.negated
  | _, application => inner.applied
  | _, arguments => inner.arguments
  | _, primary => inner.primary
  | _, vector => Counting.vector
  | _, paren => inner.paren
  | _, table => inner.table
  | _, columns closing => inner.columns closing
  | _, projections => Counting.projections inner.item
  | _, query => Counting.query inner.item
  | _, whole => Counting.whole inner.item
where inner := Inner.level maxNesting

def read (n : Nat) : {α : Type} → Routine α → List Token → Except SyntaxError α
  | _, expression => (Parser.level n).comparison
  | _, comparison => (Parser.level n).nextComparison
  | _, chain c => (Parser.level n).nextChain c
  | _, unary => (Parser.level n).nextUnary
  | _, application => (Parser.level n).nextApplication
  | _, arguments => (Parser.level n).nextArguments
  | _, primary => (Parser.level n).nextPrimary
  | _, vector => fun ts =>
    let (as, ts) := Parser.literals ts
    .ok (Level.ofItems (as.map .literal), ts)
  | _, paren => (Parser.level n).nextParen
  | _, table => (Parser.level n).nextTable
  | _, columns closing => Parser.columns (Parser.level n).comparison closing
  | _, projections => Counting.projections (Parser.level n).comparison
  | _, query => Counting.query (Parser.level n).comparison
  | _, whole => Counting.whole (Parser.level n).comparison

end Routine

end TableConsole.Counting
