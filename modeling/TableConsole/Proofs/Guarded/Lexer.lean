import TableConsole.Proofs.Guarded.Basic
import TableConsole.Proofs.Syntax.Lexeme
import TableConsole.Syntax.Parser

/-! # Guarded lexemes

The reader of a function literal counts the braces that are open, from the first one on, and takes
one away at each brace that closes. Nothing else in the reading of tokens is partial, and the text
is used up before the number of lexemes is.
-/

namespace TableConsole.Guarded

open Text

set_option autoImplicit false

/-- The source of a function literal and the text behind it, if it ends; `depth` braces are open. -/
def functionSource? (q : Quoting) (depth : Nat) :
    List Char → Option (Option (List Char × List Char))
  | [] => some none
  | c :: cs =>
    let add : Option (List Char × List Char) → Option (List Char × List Char) :=
      Option.map fun (source, rest) => (c :: source, rest)
    if q = .code ∧ c = '}' then
      (minus? depth 1).bind fun depth =>
        if depth = 0 then some (some ([c], cs)) else (functionSource? .code depth cs).map add
    else if q = .code ∧ c = '{' then (functionSource? .code (depth + 1) cs).map add
    else (functionSource? (q.next c) depth cs).map add

def readFunction (cs : List Char) : Except (Halt Lexer.Fault) (Token × List Char) := do
  match ← within (functionSource? .code 0 ('{' :: cs)) with
  | some (source, rest) => .ok (.function (String.ofList source), rest)
  | none => .error (.error ⟨.unterminatedFunction, cs.length + 1⟩)

def read (c : Char) (cs : List Char) : Except (Halt Lexer.Fault) (Token × List Char) :=
  if c = '{' then readFunction cs else lift (Lexer.read c cs)

def readAll : Nat → List Char → Except (Halt Lexer.Fault) (List Token)
  | 0, cs => if (dropBlank cs).isEmpty then .ok [] else .error .breach
  | limit + 1, cs =>
    match dropBlank cs with
    | [] => .ok []
    | c :: cs => do
      let (token, rest) ← read c cs
      let tokens ← readAll limit rest
      .ok (token :: tokens)

def tokens (s : String) : Except (Halt SyntaxError) (List Token) :=
  (readAll s.length s.toList).mapError
    (Halt.map fun f => .lex ⟨f.cause, s.length - f.remaining⟩)

/-- While a brace is open, no closing one is too many. -/
theorem functionSource?_eq (q : Quoting) (depth : Nat) (cs : List Char) :
    functionSource? q (depth + 1) cs = some (functionBody? q depth cs) := by
  induction cs generalizing q depth with
  | nil => rfl
  | cons c cs ih =>
    rw [functionSource?, minus?_add]
    by_cases hclose : q = .code ∧ c = '}'
    · cases depth <;> simp [functionBody?, hclose, ih]
    · by_cases hopen : q = .code ∧ c = '{' <;> simp [functionBody?, hclose, hopen, ih]

theorem readFunction_eq (cs : List Char) : readFunction cs = lift (Lexer.readFunction cs) := by
  have hsource : functionSource? .code 0 ('{' :: cs) =
      some ((functionBody? .code 0 cs).map fun (body, rest) => ('{' :: body, rest)) := by
    simp [functionSource?, functionSource?_eq]
  rw [readFunction, hsource, Lexer.readFunction]
  cases functionBody? .code 0 cs <;> rfl

theorem read_eq (c : Char) (cs : List Char) : read c cs = lift (Lexer.read c cs) := by
  rw [read]
  split
  · rename_i hc
    subst hc
    exact readFunction_eq cs
  · rfl

theorem readAll_eq {limit : Nat} {cs : List Char} (hlimit : cs.length ≤ limit) :
    readAll limit cs = lift (Lexer.readAll limit cs) := by
  induction limit generalizing cs with
  | zero =>
    obtain rfl := List.length_eq_zero_iff.mp (Nat.le_zero.mp hlimit)
    rfl
  | succ limit ih =>
    have hle : (dropBlank cs).length ≤ cs.length := (List.dropWhile_suffix _).length_le
    rw [readAll, Lexer.readAll]
    cases hcons : dropBlank cs with
    | nil => rfl
    | cons c cs' =>
      dsimp only
      rw [read_eq, lift_bind]
      cases hread : Lexer.read c cs' with
      | error e => rfl
      | ok lexeme =>
        obtain ⟨token, rest⟩ := lexeme
        obtain ⟨word, rfl, -⟩ := Lexer.read_word hread
        have hrest : rest.length ≤ limit := by
          rw [hcons] at hle
          simp only [List.length_cons, List.length_append] at hle
          omega
        simp only [lift_ok, Except.ok_bind, ih hrest, lift_bind]

/-- The braces of a function literal are counted down to zero and no further. -/
theorem tokens_eq (s : String) : tokens s = lift (Parser.tokens s) := by
  rw [Parser.tokens, Token.ofText, Token.ofChars, lift_mapError, lift_mapError, tokens,
    ← String.length_toList, readAll_eq (Nat.le_refl _)]
  cases Lexer.readAll s.toList.length s.toList <;> rfl

end TableConsole.Guarded
