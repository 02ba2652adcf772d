import TableConsole.Session.Seed

/-! # Command line

What the arguments of the program ask for. Options may stand anywhere among the arguments.
-/

namespace TableConsole

set_option autoImplicit false

inductive Command
  | run (file : Option String)
  | dialogue
  deriving DecidableEq, Repr

structure Invocation where
  command : Command
  options : Options := {}
  markup : Bool := false
  seedFile : Option String := none

namespace Invocation

def usage : String :=
  "usage: (run [FILE] | repl) [--legacy] [--lenient] [--markup] [--no-sample] [--per-line] [--seed FILE]"

/-- The options among the arguments and, in their order, the other arguments. -/
def readOptions (i : Invocation) : List String → Option (Invocation × List String)
  | [] => some (i, [])
  | "--legacy" :: args => readOptions { i with options := { i.options with canned := true } } args
  | "--lenient" :: args => readOptions { i with options := { i.options with lenient := true } } args
  | "--markup" :: args => readOptions { i with markup := true } args
  | "--no-sample" :: args =>
    readOptions { i with options := { i.options with withoutSample := true } } args
  | "--per-line" :: args => readOptions { i with options := { i.options with perLine := true } } args
  | "--seed" :: file :: args => readOptions { i with seedFile := some file } args
  | arg :: args =>
    if "-".isPrefixOf arg then none
    else (readOptions i args).map fun (i, words) => (i, arg :: words)

def ofArguments? (args : List String) : Option Invocation := do
  match ← readOptions { command := .dialogue } args with
  | (i, ["run"]) => some { i with command := .run none }
  | (i, ["run", file]) => some { i with command := .run (some file) }
  | (i, ["repl"]) => some i
  | _ => none

end Invocation

end TableConsole
