/-! # Settings

The switches of a session.
-/

namespace TableConsole

set_option autoImplicit false

/-- Whether table literals, queries and the price average are computed, or answered with canned
tables that are chosen by the words in the text. -/
inductive Mode
  | computed
  | canned
  deriving DecidableEq, Repr

/-- What becomes of a statement that cannot be read or that uses an unknown name: an error, or the
statement's own text as a value. -/
inductive Leniency
  | strict
  | echo
  deriving DecidableEq, Repr

/-- Whether each line is a statement, or a statement goes on while a bracket is open. -/
inductive Joining
  | perLine
  | brackets
  deriving DecidableEq, Repr

structure Settings where
  mode : Mode := .computed
  leniency : Leniency := .strict
  joining : Joining := .perLine
  deriving DecidableEq, Repr

end TableConsole
