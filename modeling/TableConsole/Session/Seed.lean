import TableConsole.Eval.Error
import TableConsole.Json.Reader
import TableConsole.Session.Run
import TableConsole.Value.Json

/-! # Seed documents

A seed document is a JSON object whose members are bound one after the other in the order of their
keys, up to the first that does not convert. A text with a backtick in front is a symbol, a text
that is a date is that date, and an object with just columns and rows is a table.
-/

namespace TableConsole

set_option autoImplicit false

inductive SeedFault
  | notObject
  | notTable
  | columnsNotArray
  | columnName (j : Json)
  | rowsNotArray
  | rowNotArray (v : Value)
  | defect (d : TableDefect)

def SeedFault.message : SeedFault → String
  | .notObject => "seed must be a JSON object"
  | .notTable =>
    "objects must be tables of the form \x7b\"columns\": [...], \"rows\": [[...]]\x7d"
  | .columnsNotArray => "\"columns\" must be an array of names"
  | .columnName j => "column name " ++ j.toText ++ " is not a string"
  | .rowsNotArray => "\"rows\" must be an array of rows"
  | .rowNotArray v => "row " ++ v.cellText ++ " is not an array"
  | .defect d => (EvalError.ofDefect d).message

inductive SeedError
  /-- The file of the document does not exist. -/
  | fileNotFound
  /-- The document is not JSON. -/
  | json
  | seed (f : SeedFault)

def SeedError.message : SeedError → String
  | .fileNotFound => "IO error: No such file or directory (os error 2)"
  | .json => "Invalid JSON"
  | .seed f => "Invalid seed: " ++ f.message

def Value.ofJsonText (s : String) : Value :=
  match s.toList with
  | '\x60' :: cs => .symbol (String.ofList cs)
  | _ =>
    match Date.ofText? s with
    | some d => .date d
    | none => .text s

def columnNames : List Json → Except SeedFault (List String)
  | [] => .ok []
  | .text name :: js => (columnNames js).map (name :: ·)
  | j :: _ => .error (.columnName j)

mutual

def Value.ofJson : Json → Except SeedFault Value
  | .null => .ok .null
  | .boolean b => .ok (.boolean b)
  | .number n => .ok (.number n.toFloat)
  | .text s => .ok (.ofJsonText s)
  | .array items => (Value.itemsOfJson items).map .list
  | .object members => Value.ofMembers members

def Value.itemsOfJson : List Json → Except SeedFault (List Value)
  | [] => .ok []
  | j :: js => do
    let v ← Value.ofJson j
    let vs ← Value.itemsOfJson js
    .ok (v :: vs)

/-- The members of an object are sorted, so columns come before rows. -/
def Value.ofMembers : List (String × Json) → Except SeedFault Value
  | [(first, columns), (second, rows)] =>
    if first = "columns" ∧ second = "rows" then do
      let names ←
        match columns with
        | .array js => columnNames js
        | _ => .error .columnsNotArray
      let rows ← Value.rowsOfJson rows
      ((Table.ofRows names rows).map .table).mapError .defect
    else .error .notTable
  | _ => .error .notTable

def Value.rowsOfJson : Json → Except SeedFault (List (List Value))
  | .array rows => Value.rowListOfJson rows
  | _ => .error .rowsNotArray

def Value.rowListOfJson : List Json → Except SeedFault (List (List Value))
  | [] => .ok []
  | j :: js => do
    match ← Value.ofJson j with
    | .list cells =>
      let rows ← Value.rowListOfJson js
      .ok (cells :: rows)
    | v => .error (.rowNotArray v)

end

/-- Binds members in order; the symbols are the ones after the last that was bound. -/
def bindMembers (symbols : Symbols) : List (String × Json) → Except SeedFault Unit × Symbols
  | [] => (.ok (), symbols)
  | (name, j) :: members =>
    match Value.ofJson j with
    | .ok v => bindMembers (symbols.insert name v) members
    | .error e => (.error e, symbols)

def seed (symbols : Symbols) (document : String) : Except SeedError Nat × Symbols :=
  match Json.ofText? document with
  | none => (.error .json, symbols)
  | some (.object members) =>
    let (result, symbols) := bindMembers symbols members
    ((result.map fun _ => members.length).mapError .seed, symbols)
  | some _ => (.error (.seed .notObject), symbols)

structure Options where
  canned : Bool := false
  lenient : Bool := false
  withoutSample : Bool := false
  perLine : Bool := false

/-- Lines of a script are joined unless the options say otherwise. -/
def Options.settings (o : Options) : Settings where
  mode := if o.canned then .canned else .computed
  leniency := if o.lenient then .echo else .strict
  joining := if o.perLine then .perLine else .brackets

inductive SeedSource
  | none
  | missing
  | document (text : String)

def Session.ofOptions (o : Options) (source : SeedSource) : Except SeedError Session :=
  let s := if o.withoutSample then Session.fresh o.settings else Session.withSample o.settings
  match source with
  | .none => .ok s
  | .missing => .error .fileNotFound
  | .document text =>
    match seed s.symbols text with
    | (.ok _, symbols) => .ok { s with symbols }
    | (.error e, _) => .error e

end TableConsole
