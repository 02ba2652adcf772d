import TableConsole.Symbols
import TableConsole.Text.Search

/-! # Sample tables and canned answers

The table that a session starts with, and the tables with which the canned mode answers literals
and queries, chosen by the words that occur in their text.
-/

namespace TableConsole.Sample

set_option autoImplicit false

def date (year : Int) (month day : Nat) (h : IsDate year month day := by decide) : Value :=
  .date ⟨year, month, day, h⟩

def trade : Table Value where
  columns := ["date", "sym", "price", "size"]
  rows :=
    [[date 2023 10 1, .symbol "AAPL", .number 185.25, .number 100],
     [date 2023 10 1, .symbol "MSFT", .number 402.15, .number 200],
     [date 2023 10 2, .symbol "AAPL", .number 186.40, .number 150]]

def employees : Table Value where
  columns := ["name", "age", "department"]
  rows :=
    [[.symbol "John", .number 35, .symbol "IT"],
     [.symbol "Emma", .number 28, .symbol "HR"],
     [.symbol "David", .number 42, .symbol "Finance"]]

def generic : Table Value where
  columns := ["column1", "column2"]
  rows := [[.symbol "value1", .number 1], [.symbol "value2", .number 2]]

def averages : Table Value where
  columns := ["sym", "avg_price", "sum_size"]
  rows :=
    [[.symbol "AAPL", .number 185.825, .number 250], [.symbol "MSFT", .number 402.15, .number 200]]

def expensive : Table Value where
  columns := ["date", "sym", "price", "size"]
  rows := [[date 2023 10 1, .symbol "MSFT", .number 402.15, .number 200]]

def vwap : Table Value where
  columns := ["sym", "vwap"]
  rows := [[.symbol "AAPL", .number 185.965], [.symbol "MSFT", .number 402.15]]

/-- The answer to a query of a table that does not exist. -/
def placeholder : Table Value where
  columns := ["result"]
  rows := [[.text "Query result would be shown here"]]

def containsAll (text : String) (needles : List String) : Bool :=
  needles.all (Text.contains text)

def literal (text : String) : Table Value :=
  if containsAll text ["date:", "sym:", "price:", "size:"] then trade
  else if containsAll text ["name:", "age:", "department:"] then employees
  else generic

def query (text : String) : Table Value :=
  let folded := String.ofList (Text.foldCase text.toList)
  if Text.contains folded "from trade" then
    if containsAll folded ["avg price", "sum size", "by sym"] then averages
    else if Text.contains folded "where price >" then expensive
    else trade
  else if containsAll folded ["calculatevwap", "trade"] then vwap
  else placeholder

def symbols : Symbols :=
  Symbols.empty.insert "trade" (.table trade)

end TableConsole.Sample
