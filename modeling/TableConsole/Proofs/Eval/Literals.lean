import TableConsole.Proofs.Eval.RowLocal
import TableConsole.Proofs.Syntax.Grammar
import TableConsole.Proofs.Syntax.Joining

/-! # Literals next to each other

Literals next to each other are one phrase: one of them stands for its atom, two and more for the
list of their atoms. No literal at all has to be written as an empty list.
-/

namespace TableConsole

set_option autoImplicit false

def Token.ofAtoms : List Atom → List Token
  | [] => [.mark .openParen, .mark .closeParen]
  | as => as.map .literal

def Expr.ofAtoms : List Atom → Expr
  | [a] => .literal a
  | as => .list (as.map .literal)

def Value.ofAtoms : List Atom → Value
  | [a] => .atom a
  | as => .list (as.map .atom)

theorem Token.function_not_mem_ofAtoms (source : String) (as : List Atom) :
    .function source ∉ Token.ofAtoms as := by
  cases as <;> simp [Token.ofAtoms]

theorem Grammar.derives_ofAtoms (n : Nat) (as : List Atom) :
    DerivesExpr (n + 1) (Token.ofAtoms as) (Expr.ofAtoms as) := by
  refine Derives.expression_of_primary ?_
  match as with
  | [] => exact .emptyList
  | [a] => exact .literal a
  | a :: b :: as => exact .vector (Nat.le_add_left 2 as.length)

theorem Expr.eval_ofAtoms (s : Scope) (as : List Atom) :
    (Expr.ofAtoms as).eval s = .ok (Value.ofAtoms as) := by
  match as with
  | [] => exact eval_literals s []
  | [a] => rfl
  | a :: b :: as => exact eval_literals s (a :: b :: as)

namespace Lexer

def spaced (spelling : Atom → List Char) : List Atom → List Char
  | [] => ['(', ')']
  | as => [' '].intercalate (as.map spelling)

theorem lexes_spaced_atoms {spelling : Atom → List Char} {as : List Atom}
    (h : ∀ a ∈ as, Lexes (spelling a) [.literal a]) :
    Lexes (spaced spelling as) (Token.ofAtoms as) := by
  cases as with
  | nil => rfl
  | cons a as => exact lexes_spaced h

end Lexer

end TableConsole
