import TableConsole.Syntax.Lexer

/-! # Syntax errors -/

namespace TableConsole

set_option autoImplicit false

inductive Expectation
  | inputEnd
  | expression
  | closeBracket
  | closeParen
  | colon
  | columnName
  | kwSelect
  | kwFrom
  | tableName
  | queryEnd
  deriving DecidableEq, Repr

def Expectation.text : Expectation → String
  | .inputEnd => "end of input"
  | .expression => "an expression"
  | .closeBracket => "']'"
  | .closeParen => "')'"
  | .colon => "':'"
  | .columnName => "a column name"
  | .kwSelect => "'select'"
  | .kwFrom => "'from'"
  | .tableName => "a table name"
  | .queryEnd => "end of query"

/-- The deepest nesting of expressions, operator chains and values. -/
def maxNesting : Nat := 128

inductive SyntaxError
  | lex (e : LexError)
  | unexpectedToken (expected : Expectation) (found : Token)
  | unexpectedEnd (expected : Expectation)
  | tooDeep

def SyntaxError.message : SyntaxError → String
  | .lex e => e.message
  | .unexpectedToken expected found => "Expected " ++ expected.text ++ ", got " ++ found.label
  | .unexpectedEnd expected => "Unexpected end of input, expected " ++ expected.text
  | .tooDeep => "Expression nested deeper than " ++ toString maxNesting ++ " levels"

end TableConsole
