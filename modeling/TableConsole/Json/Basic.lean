/-! # JSON

JSON documents. The members of an object are kept in the order of their keys, one member a key.
-/

namespace TableConsole

set_option autoImplicit false

inductive JsonNumber
  | integer (n : Int)
  | float (x : Float)

def JsonNumber.toFloat : JsonNumber → Float
  | .integer n => Float.ofInt n
  | .float x => x

inductive Json
  | null
  | boolean (b : Bool)
  | number (n : JsonNumber)
  | text (s : String)
  | array (items : List Json)
  | object (members : List (String × Json))

def setEntry {α : Type} (name : String) (x : α) : List (String × α) → List (String × α)
  | [] => [(name, x)]
  | (other, y) :: rest =>
    if name = other then (name, x) :: rest
    else if name < other then (name, x) :: (other, y) :: rest
    else (other, y) :: setEntry name x rest

theorem lookup_setEntry {α : Type} (name other : String) (x : α) (entries : List (String × α)) :
    (setEntry name x entries).lookup other =
      if other = name then some x else entries.lookup other := by
  have ne {a b : String} (h : ¬ a = b) : (a == b) = false := beq_false_of_ne h
  induction entries with
  | nil => by_cases h : other = name <;> simp [setEntry, List.lookup_nil, List.lookup_cons, h, ne]
  | cons entry rest ih =>
    obtain ⟨key, y⟩ := entry
    by_cases hk : name = key
    · subst hk
      by_cases h : other = name <;> simp [setEntry, List.lookup_cons, h, ne]
    · by_cases hl : name < key
      · by_cases h : other = name <;> simp [setEntry, List.lookup_cons, h, hk, hl, ne]
      · by_cases h : other = key
        · subst h
          simp [setEntry, hk, hl, Ne.symm hk]
        · simp [setEntry, List.lookup_cons, hk, hl, h, ne, ih]

/-- A repeated key keeps its last value. -/
def Json.ofMembers (members : List (String × Json)) : Json :=
  .object (members.foldl (fun entries (key, j) => setEntry key j entries) [])

end TableConsole
