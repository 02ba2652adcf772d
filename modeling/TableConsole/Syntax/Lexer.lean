import TableConsole.Text.Blank
import TableConsole.Text.Letter
import TableConsole.Text.Quoting
import TableConsole.Number.Positional
import TableConsole.Syntax.Token

/-! # Reading tokens

A text is a sequence of lexemes with blank characters between them where they like. Each reader
takes one lexeme from the front of the remaining characters and returns the rest.
-/

namespace TableConsole

set_option autoImplicit false

inductive LexCause
  | unterminatedText
  | invalidEscape (c : Char)
  | invalidNumber (run : String)
  | invalidDate (run : String)
  | unterminatedFunction
  | unexpectedCharacter (c : Char)
  deriving DecidableEq, Repr

structure LexError where
  cause : LexCause
  /-- How many characters stand before the place of the error. -/
  position : Nat
  deriving DecidableEq, Repr

def LexCause.message : LexCause → String
  | .unterminatedText => "Unterminated string"
  | .invalidEscape c => "Invalid escape sequence '\\" ++ c.toString ++ "'"
  | .invalidNumber run => "Invalid number '" ++ run ++ "'"
  | .invalidDate run => "Invalid date '" ++ run ++ "'"
  | .unterminatedFunction => "Unterminated function literal"
  | .unexpectedCharacter c => "Unexpected character '" ++ c.toString ++ "'"

def LexError.message (e : LexError) : String :=
  e.cause.message ++ " at position " ++ toString e.position

namespace Lexer

/-- An error and the number of characters from its place to the end of the text. -/
structure Fault where
  cause : LexCause
  remaining : Nat

abbrev Lexeme := Except Fault (Token × List Char)

def unescape? (c : Char) : Option Char :=
  if c = 'n' then some '\n'
  else if c = 't' then some '\t'
  else if c = 'r' then some '\r'
  else if c = '"' ∨ c = '\\' then some c
  else none

inductive TextFault
  | unterminated
  | invalidEscape (c : Char) (remaining : Nat)

/-- The value of a string literal behind its opening quote, and the text behind its closing one. -/
def textBody : List Char → Except TextFault (List Char × List Char)
  | [] => .error .unterminated
  | c :: cs =>
    if c = '"' then .ok ([], cs)
    else if c = '\\' then
      match cs with
      | [] => .error .unterminated
      | e :: rest =>
        match unescape? e with
        | none => .error (.invalidEscape e (rest.length + 1))
        | some x => (textBody rest).map fun (body, rest) => (x :: body, rest)
    else (textBody cs).map fun (body, rest) => (c :: body, rest)

def readText (cs : List Char) : Lexeme :=
  match textBody cs with
  | .ok (body, rest) => .ok (.literal (.text (String.ofList body)), rest)
  | .error .unterminated => .error ⟨.unterminatedText, cs.length + 1⟩
  | .error (.invalidEscape c remaining) => .error ⟨.invalidEscape c, remaining⟩

def startsDigit : List Char → Bool
  | [] => false
  | c :: _ => c.isDigit

/-- Digits, and points that a digit follows. -/
def numberRun : List Char → List Char × List Char
  | [] => ([], [])
  | c :: cs =>
    if c.isDigit || (c == '.' && startsDigit cs) then
      let (run, rest) := numberRun cs
      (c :: run, rest)
    else ([], c :: cs)

def startsWordChar : List Char → Bool
  | [] => false
  | c :: _ => Text.isWordChar c

/-- `0b` and `1b`, unless a word goes on behind them. -/
def binaryDigit? (run rest : List Char) : Option (Bool × List Char) :=
  match run, rest with
  | [d], 'b' :: rest =>
    if startsWordChar rest then none
    else if d = '0' then some (false, rest)
    else if d = '1' then some (true, rest)
    else none
  | _, _ => none

def readNumber (cs : List Char) : Lexeme :=
  let (run, rest) := numberRun cs
  match binaryDigit? run rest with
  | some (b, rest) => .ok (.literal (.boolean b), rest)
  | none =>
    let points := run.count '.'
    if points ≤ 1 then
      let whole := run.takeWhile (· != '.')
      let fraction := (run.dropWhile (· != '.')).drop 1
      .ok (.literal (.number (Number.ofPositional whole fraction)), rest)
    else if points = 2 then
      match Date.ofChars? run with
      | some d => .ok (.literal (.date d), rest)
      | none => .error ⟨.invalidDate (String.ofList run), cs.length⟩
    else .error ⟨.invalidNumber (String.ofList run), cs.length⟩

def isSymbolChar (c : Char) : Bool :=
  Text.isWordChar c || c == '.'

def readSymbol (cs : List Char) : Token × List Char :=
  (.literal (.symbol (String.ofList (cs.takeWhile isSymbolChar))), cs.dropWhile isSymbolChar)

def readFunction (cs : List Char) : Lexeme :=
  match Text.functionBody? .code 0 cs with
  | some (body, rest) => .ok (.function (String.ofList ('{' :: body)), rest)
  | none => .error ⟨.unterminatedFunction, cs.length + 1⟩

/-- Keywords are recognised in capitals and in small letters. -/
def wordToken (word : List Char) : Token :=
  match String.ofList (word.map Char.toLower) with
  | "select" => .mark .kwSelect
  | "by" => .mark .kwBy
  | "from" => .mark .kwFrom
  | "where" => .mark .kwWhere
  | "in" => .mark .kwIn
  | "wavg" => .mark .kwWavg
  | "true" => .literal (.boolean true)
  | "false" => .literal (.boolean false)
  | _ => .name (String.ofList word)

def readWord (cs : List Char) : Token × List Char :=
  (wordToken (cs.takeWhile Text.isWordChar), cs.dropWhile Text.isWordChar)

def punctuation? (c : Char) : Option Mark :=
  match c with
  | '+' => some .plus
  | '-' => some .minus
  | '*' => some .star
  | '/' => some .slash
  | '%' => some .percent
  | '=' => some .equal
  | ':' => some .colon
  | ';' => some .semicolon
  | ',' => some .comma
  | '(' => some .openParen
  | ')' => some .closeParen
  | '[' => some .openBracket
  | ']' => some .closeBracket
  | _ => none

def readLess : List Char → Token × List Char
  | '>' :: cs => (.mark .notEqual, cs)
  | '=' :: cs => (.mark .lessEqual, cs)
  | cs => (.mark .less, cs)

def readGreater : List Char → Token × List Char
  | '=' :: cs => (.mark .greaterEqual, cs)
  | cs => (.mark .greater, cs)

def symbolMark : Char :=
  '\x60'

/-- The lexeme that starts with `c`, which is not blank. -/
def read (c : Char) (cs : List Char) : Lexeme :=
  if c = '<' then .ok (readLess cs)
  else if c = '>' then .ok (readGreater cs)
  else if c = '"' then readText cs
  else if c = symbolMark then .ok (readSymbol cs)
  else if c = '{' then readFunction cs
  else
    match punctuation? c with
    | some m => .ok (.mark m, cs)
    | none =>
      if c.isDigit || (c == '.' && startsDigit cs) then readNumber (c :: cs)
      else if Text.isWordStart c then .ok (readWord (c :: cs))
      else .error ⟨.unexpectedCharacter c, cs.length + 1⟩

def readAll : Nat → List Char → Except Fault (List Token)
  | 0, _ => .ok []
  | limit + 1, cs =>
    match Text.dropBlank cs with
    | [] => .ok []
    | c :: cs => do
      let (token, rest) ← read c cs
      let tokens ← readAll limit rest
      .ok (token :: tokens)

end Lexer

/-- A text has no more lexemes than characters. -/
def Token.ofChars (cs : List Char) : Except LexError (List Token) :=
  (Lexer.readAll cs.length cs).mapError fun f => ⟨f.cause, cs.length - f.remaining⟩

def Token.ofText (s : String) : Except LexError (List Token) :=
  Token.ofChars s.toList

end TableConsole
