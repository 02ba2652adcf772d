import TableConsole.Json.Basic
import TableConsole.Number.Written

/-! # Writing JSON

Compact JSON: no blanks, short escapes where JSON has them, and other control characters by code
unit.
-/

namespace TableConsole

set_option autoImplicit false

/-- Floats in JSON: positional from `1e-5` below `1e16`, with a point, and otherwise with a signed
exponent; an exact tie goes to the even digit. -/
def JsonNumber.layout : Number.Layout :=
  ⟨.toEven, some (-5, 16), true, true⟩

/-- A number that no JSON number denotes is written as null. -/
def JsonNumber.text : JsonNumber → String
  | .integer n => toString n
  | .float x =>
    match JsonNumber.layout.write? x with
    | some cs => String.ofList cs
    | none => "null"

namespace Json

def escapedChar (c : Char) : List Char :=
  if c = '"' ∨ c = '\\' then ['\\', c]
  else if c = '\x08' then ['\\', 'b']
  else if c = '\x0c' then ['\\', 'f']
  else if c = '\n' then ['\\', 'n']
  else if c = '\r' then ['\\', 'r']
  else if c = '\t' then ['\\', 't']
  else if c.toNat < 0x10 then ['\\', 'u', '0', '0', '0'] ++ Nat.toDigits 16 c.toNat
  else if c.toNat < 0x20 then ['\\', 'u', '0', '0'] ++ Nat.toDigits 16 c.toNat
  else [c]

def quoted (s : String) : String :=
  String.ofList ('"' :: (s.toList.flatMap escapedChar ++ ['"']))

mutual

def toText : Json → String
  | .null => "null"
  | .boolean b => if b then "true" else "false"
  | .number n => n.text
  | .text s => quoted s
  | .array items => "[" ++ ",".intercalate (itemTexts items) ++ "]"
  | .object members => "\x7b" ++ ",".intercalate (memberTexts members) ++ "\x7d"

def itemTexts : List Json → List String
  | [] => []
  | j :: js => j.toText :: itemTexts js

def memberTexts : List (String × Json) → List String
  | [] => []
  | (key, j) :: members => (quoted key ++ ":" ++ j.toText) :: memberTexts members

end

end Json

end TableConsole
