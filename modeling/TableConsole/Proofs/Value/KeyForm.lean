import TableConsole.Proofs.Number.Equality
import Mathlib.Data.List.Forall2

/-! # Equality of keys

Values without tables are equal as keys exactly if they have the same form, in which numbers stand
without the signs of zeros. Cells of tables are compared by plain equality instead, so a table with
a missing number is no key that equals itself.
-/

namespace TableConsole

open Float.Model

set_option autoImplicit false

mutual

def Value.tableFree : Value → Bool
  | .atom _ | .function _ => true
  | .list items => itemsTableFree items
  | .table _ => false

def itemsTableFree : List Value → Bool
  | [] => true
  | v :: vs => v.tableFree && itemsTableFree vs

end

theorem itemsTableFree_iff (vs : List Value) :
    itemsTableFree vs = true ↔ ∀ v ∈ vs, v.tableFree = true := by
  induction vs with
  | nil => simp [itemsTableFree]
  | cons v vs ih => rw [itemsTableFree, Bool.and_eq_true, ih, List.forall_mem_cons]

/-- What two values without tables share that are equal as keys. -/
inductive KeyForm
  | number (x : UnpackedFloat)
  | text (s : String)
  | boolean (b : Bool)
  | date (d : Date)
  | symbol (s : String)
  | list (items : List KeyForm)
  | table
  | function (source : String)

def Atom.keyForm : Atom → KeyForm
  | .number x => .number (Number.form x)
  | .text s => .text s
  | .boolean b => .boolean b
  | .date d => .date d
  | .symbol s => .symbol s

mutual

def Value.keyForm : Value → KeyForm
  | .atom a => a.keyForm
  | .list items => .list (itemsKeyForm items)
  | .table _ => .table
  | .function source => .function source

def itemsKeyForm : List Value → List KeyForm
  | [] => []
  | v :: vs => v.keyForm :: itemsKeyForm vs

end

theorem Atom.agree_iff_keyForm (a b : Atom) :
    a.agree sameNumber b = true ↔ a.keyForm = b.keyForm := by
  cases a with
  | number x =>
    cases b with
    | number y =>
      rw [Atom.agree, Atom.keyForm, Atom.keyForm, KeyForm.number.injEq, Number.sameNumber_iff_form]
    | text | boolean | date | symbol => simp [Atom.agree, Atom.keyForm]
  | text | boolean | date | symbol => cases b <;> simp [Atom.agree, Atom.keyForm]

mutual

theorem agree_iff_keyForm (a b : Value) (ha : a.tableFree = true) :
    Value.agree sameNumber a b = true ↔ a.keyForm = b.keyForm := by
  cases a with
  | atom a =>
    cases b with
    | atom b => rw [Value.agree, Value.keyForm, Value.keyForm, Atom.agree_iff_keyForm]
    | list | table | function => cases a <;> simp [Value.agree, Value.keyForm, Atom.keyForm]
  | list as =>
    cases b with
    | list bs =>
      rw [Value.tableFree] at ha
      rw [Value.agree, Value.keyForm, Value.keyForm, KeyForm.list.injEq]
      exact itemsAgree_iff_keyForm as bs ha
    | atom b => cases b <;> simp [Value.agree, Value.keyForm, Atom.keyForm]
    | table | function => simp [Value.agree, Value.keyForm]
  | table t => cases ha
  | function source =>
    cases b with
    | function source' => simp [Value.agree, Value.keyForm]
    | atom b => cases b <;> simp [Value.agree, Value.keyForm, Atom.keyForm]
    | list | table => simp [Value.agree, Value.keyForm]

theorem itemsAgree_iff_keyForm (as bs : List Value) (has : itemsTableFree as = true) :
    Value.itemsAgree sameNumber as bs = true ↔ itemsKeyForm as = itemsKeyForm bs := by
  cases as with
  | nil => cases bs <;> simp [Value.itemsAgree, itemsKeyForm]
  | cons a as =>
    cases bs with
    | nil => simp [Value.itemsAgree, itemsKeyForm]
    | cons b bs =>
      rw [itemsTableFree, Bool.and_eq_true] at has
      rw [Value.itemsAgree, itemsKeyForm, itemsKeyForm, Bool.and_eq_true, List.cons_eq_cons,
        agree_iff_keyForm a b has.1, itemsAgree_iff_keyForm as bs has.2]

end

theorem itemsAgree_iff {same : Float → Float → Bool} {as bs : List Value} :
    Value.itemsAgree same as bs = true ↔ List.Forall₂ (fun a b => a.agree same b = true) as bs := by
  induction as generalizing bs with
  | nil => cases bs <;> simp [Value.itemsAgree]
  | cons a as ih =>
    cases bs with
    | nil => simp [Value.itemsAgree]
    | cons b bs => rw [Value.itemsAgree, Bool.and_eq_true, ih, List.forall₂_cons]

theorem itemsAgree_iff_forall₂ (as bs : List Value) :
    Value.itemsAgree sameNumber as bs = true ↔ List.Forall₂ (fun a b => a.sameKey b = true) as bs :=
  itemsAgree_iff

end TableConsole
