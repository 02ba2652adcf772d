import TableConsole.Text.Quoted
import TableConsole.Number.Written
import TableConsole.Value.Atom

/-! # Tokens

Literals, function literals, names, and the marks that structure a statement: keywords, operators
and delimiters. The end of the input is the end of the token list.
-/

namespace TableConsole

set_option autoImplicit false

inductive Mark
  | kwSelect
  | kwBy
  | kwFrom
  | kwWhere
  | kwIn
  | kwWavg
  | plus
  | minus
  | star
  | slash
  | percent
  | equal
  | notEqual
  | less
  | greater
  | lessEqual
  | greaterEqual
  | colon
  | semicolon
  | comma
  | openParen
  | closeParen
  | openBracket
  | closeBracket
  deriving DecidableEq, Repr

inductive Token
  | literal (a : Atom)
  /-- The source of a function literal, braces included. -/
  | function (source : String)
  | name (n : String)
  | mark (m : Mark)

/-- After a name, such a token makes the name a function applied to an operand. -/
def Token.startsOperand : Token → Bool
  | .literal _ | .function _ | .name _ => true
  | .mark m => m = .openParen

def Mark.label : Mark → String
  | .kwSelect => "Select"
  | .kwBy => "By"
  | .kwFrom => "From"
  | .kwWhere => "Where"
  | .kwIn => "In"
  | .kwWavg => "Wavg"
  | .plus => "Plus"
  | .minus => "Minus"
  | .star => "Star"
  | .slash => "Slash"
  | .percent => "Percent"
  | .equal => "Equal"
  | .notEqual => "NotEqual"
  | .less => "Lt"
  | .greater => "Gt"
  | .lessEqual => "LtEq"
  | .greaterEqual => "GtEq"
  | .colon => "Colon"
  | .semicolon => "Semicolon"
  | .comma => "Comma"
  | .openParen => "LParen"
  | .closeParen => "RParen"
  | .openBracket => "LBracket"
  | .closeBracket => "RBracket"

/-- Numbers in messages: positional from `1e-4` below `1e16`, with a point, and otherwise with an
exponent that has no plus sign. -/
def Token.layout : Number.Layout :=
  ⟨.up, some (-4, 16), true, false⟩

def Atom.label : Atom → String
  | .number x =>
    let digits :=
      match Token.layout.write? x with
      | some cs => String.ofList cs
      | none => if x.isNaN then "NaN" else if x < 0 then "-inf" else "inf"
    "Number(" ++ digits ++ ")"
  | .text s => "Text(" ++ Text.quoted s ++ ")"
  | .boolean b => "Boolean(" ++ (if b then "true" else "false") ++ ")"
  | .date d =>
    "Date(QDate \x7b year: " ++ toString d.year ++ ", month: " ++ toString d.month ++ ", day: " ++
      toString d.day ++ " \x7d)"
  | .symbol s => "Symbol(" ++ Text.quoted s ++ ")"

def Token.label : Token → String
  | .literal a => a.label
  | .function source => "Function(" ++ Text.quoted source ++ ")"
  | .name n => "Identifier(" ++ Text.quoted n ++ ")"
  | .mark m => m.label

end TableConsole
