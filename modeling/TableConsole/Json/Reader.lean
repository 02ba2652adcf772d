import TableConsole.Json.Basic

/-! # Reading JSON

Strict JSON: one document with nothing but blanks around it, no trailing commas, no leading
zeros, no raw control characters in strings, no surrogate without its partner, no number beyond
the floats, and at most 127 arrays and objects around a value. A number with a fraction or an
exponent is read through the digits that 64 bits hold, scaled by powers of ten.
-/

namespace TableConsole.JsonReader

set_option autoImplicit false

abbrev Reader (α : Type) := List Char → Option (α × List Char)

def isBlank (c : Char) : Bool :=
  c == ' ' || c == '\n' || c == '\t' || c == '\r'

def skipBlank (cs : List Char) : List Char :=
  cs.dropWhile isBlank

def digits (cs : List Char) : List Char × List Char :=
  (cs.takeWhile Char.isDigit, cs.dropWhile Char.isDigit)

def someDigits : Reader (List Char) := fun cs =>
  match digits cs with
  | ([], _) => none
  | found => some found

/-- Zero alone, or digits that do not start with zero. -/
def wholePart : Reader (List Char)
  | '0' :: cs => if (cs.head?.map Char.isDigit).getD false then none else some (['0'], cs)
  | cs => someDigits cs

def fractionPart : Reader (List Char)
  | '.' :: cs => someDigits cs
  | cs => some ([], cs)

def exponentDigits : Reader Int
  | '-' :: cs => (someDigits cs).map fun (ds, cs) => (-(Nat.ofDigitChars 10 ds 0 : Int), cs)
  | '+' :: cs => (someDigits cs).map fun (ds, cs) => ((Nat.ofDigitChars 10 ds 0 : Int), cs)
  | cs => (someDigits cs).map fun (ds, cs) => ((Nat.ofDigitChars 10 ds 0 : Int), cs)

def exponentPart : Reader (Option Int)
  | 'e' :: cs | 'E' :: cs => (exponentDigits cs).map fun (n, cs) => (some n, cs)
  | cs => some (none, cs)

/-- A coefficient with as many of the digits behind it as 64 bits hold, and the digits left. -/
def coefficient : Nat → List Char → Nat × List Char
  | n, [] => (n, [])
  | n, d :: ds =>
    let next := n * 10 + (d.toNat - '0'.toNat)
    if next < Nat.pow 2 64 then coefficient next ds else (n, d :: ds)

def powerOfTen (n : Nat) : Float :=
  Float.ofScientific 1 false n

/-- Division by ten to the power of `308 * steps + rest`, while something is left to divide. -/
def divideByPower (rest : Nat) : Nat → Float → Float
  | 0, x => x / powerOfTen rest
  | steps + 1, x => if x == 0 then x else divideByPower rest steps (x / powerOfTen 308)

/-- A number times a power of ten. Each step is rounded, so this need not be the nearest float. -/
def scaled? (x : Float) (exponent : Int) : Option Float :=
  if exponent < 0 then
    let steps := (exponent.natAbs - 1) / 308
    some (divideByPower (exponent.natAbs - 308 * steps) steps x)
  else if exponent ≤ 308 then
    let y := x * powerOfTen exponent.toNat
    if y.isInf then none else some y
  else if x == 0 then some x
  else none

/-- A float of a coefficient, the places that its digits are moved by and the written exponent. An
exponent beyond 32 bits is not added up. -/
def finite? (negative : Bool) (n : Nat) (places exponent : Int) : Option JsonNumber := do
  let x ←
    if exponent.natAbs < Nat.pow 2 31 then scaled? (Float.ofNat n) (places + exponent)
    else if n = 0 ∨ exponent < 0 then some 0
    else none
  some (.float (if negative then -x else x))

/-- Integers stay integers while 64 bits hold them; a negative zero is a float. -/
def integer (negative : Bool) (n : Nat) : JsonNumber :=
  if negative then
    if n = 0 ∨ Nat.pow 2 63 < n then .float (-(Float.ofNat n)) else .integer (-(n : Int))
  else .integer n

def unsigned (negative : Bool) : Reader JsonNumber := fun cs => do
  let (whole, cs) ← wholePart cs
  let (fraction, cs) ← fractionPart cs
  let (exponent, cs) ← exponentPart cs
  let (n, dropped) := coefficient 0 whole
  if fraction.isEmpty ∧ exponent.isNone ∧ dropped.isEmpty then some (integer negative n, cs)
  else
    -- Digits that are left behind the point count for nothing, those in front of it for a place.
    let (n, ignored) := coefficient n fraction
    let places : Int := dropped.length - (fraction.length - ignored.length : Nat)
    let x ← finite? negative n places (exponent.getD 0)
    some (x, cs)

def number : Reader JsonNumber
  | '-' :: cs => unsigned true cs
  | cs => unsigned false cs

def hexDigit? (c : Char) : Option Nat :=
  if c.isDigit then some (c.toNat - '0'.toNat)
  else if 'a' ≤ c ∧ c ≤ 'f' then some (c.toNat - 'a'.toNat + 10)
  else if 'A' ≤ c ∧ c ≤ 'F' then some (c.toNat - 'A'.toNat + 10)
  else none

def hexUnit : Reader Nat
  | a :: b :: c :: d :: cs => do
    some ((((← hexDigit? a) * 16 + (← hexDigit? b)) * 16 + (← hexDigit? c)) * 16 +
      (← hexDigit? d), cs)
  | _ => none

def unicodeEscape : Reader Char := fun cs => do
  let (u, cs) ← hexUnit cs
  if 0xD800 ≤ u ∧ u < 0xDC00 then
    match cs with
    | '\\' :: 'u' :: cs =>
      let (v, cs) ← hexUnit cs
      if 0xDC00 ≤ v ∧ v < 0xE000 then
        some (Char.ofNat (0x10000 + (u - 0xD800) * 0x400 + (v - 0xDC00)), cs)
      else none
    | _ => none
  else if 0xDC00 ≤ u ∧ u < 0xE000 then none
  else some (Char.ofNat u, cs)

def escape : Reader Char
  | '"' :: cs => some ('"', cs)
  | '\\' :: cs => some ('\\', cs)
  | '/' :: cs => some ('/', cs)
  | 'b' :: cs => some ('\x08', cs)
  | 'f' :: cs => some ('\x0c', cs)
  | 'n' :: cs => some ('\n', cs)
  | 'r' :: cs => some ('\r', cs)
  | 't' :: cs => some ('\t', cs)
  | 'u' :: cs => unicodeEscape cs
  | _ => none

def textWithin : Nat → Reader (List Char)
  | 0, _ => none
  | limit + 1, cs =>
    match cs with
    | [] => none
    | '"' :: cs => some ([], cs)
    | '\\' :: cs => do
      let (c, cs) ← escape cs
      let (body, cs) ← textWithin limit cs
      some (c :: body, cs)
    | c :: cs =>
      if c.toNat < 0x20 then none
      else (textWithin limit cs).map fun (body, cs) => (c :: body, cs)

def text : Reader String := fun cs =>
  (textWithin (cs.length + 1) cs).map fun (body, cs) => (String.ofList body, cs)

def itemsWithin {α : Type} (item : Reader α) (closing : Char) : Nat → Reader (List α)
  | 0, _ => none
  | limit + 1, cs => do
    let (x, cs) ← item cs
    match skipBlank cs with
    | ',' :: cs =>
      let (xs, cs) ← itemsWithin item closing limit cs
      some (x :: xs, cs)
    | c :: cs => if c = closing then some ([x], cs) else none
    | [] => none

/-- No items, or items with commas between them, up to a closing character. -/
def items {α : Type} (item : Reader α) (closing : Char) : Reader (List α) := fun cs =>
  match skipBlank cs with
  | [] => none
  | c :: rest =>
    if c = closing then some ([], rest) else itemsWithin item closing (cs.length + 1) cs

def member (value : Reader Json) : Reader (String × Json) := fun cs =>
  match skipBlank cs with
  | '"' :: cs => do
    let (key, cs) ← text cs
    match skipBlank cs with
    | ':' :: cs =>
      let (j, cs) ← value cs
      some ((key, j), cs)
    | _ => none
  | _ => none

/-- A value whose arrays and objects hold values of `inner`. -/
def valueOver (inner : Reader Json) : Reader Json := fun cs =>
  match skipBlank cs with
  | 'n' :: 'u' :: 'l' :: 'l' :: cs => some (.null, cs)
  | 't' :: 'r' :: 'u' :: 'e' :: cs => some (.boolean true, cs)
  | 'f' :: 'a' :: 'l' :: 's' :: 'e' :: cs => some (.boolean false, cs)
  | '"' :: cs => (text cs).map fun (s, cs) => (.text s, cs)
  | '[' :: cs => (items inner ']' cs).map fun (js, cs) => (.array js, cs)
  | '{' :: cs => (items (member inner) '}' cs).map fun (ms, cs) => (.ofMembers ms, cs)
  | cs => (number cs).map fun (n, cs) => (.number n, cs)

/-- A value inside at most `levels - 1` arrays and objects of its own. -/
def value : Nat → Reader Json
  | 0 => fun _ => none
  | levels + 1 => valueOver (value levels)

end TableConsole.JsonReader

namespace TableConsole

def Json.maxLevels : Nat := 128

def Json.ofText? (s : String) : Option Json := do
  let (j, rest) ← JsonReader.value Json.maxLevels s.toList
  if (JsonReader.skipBlank rest).isEmpty then some j else none

end TableConsole
