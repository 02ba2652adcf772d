import TableConsole.Proofs.Except
import TableConsole.Proofs.Text.Lines
import TableConsole.Session.Evaluate

/-! # Chains of assignments

A line of chained assignments binds all its targets to one value, and nothing else changes. The
value is that of the statement behind the targets, with the symbols as they are before the line:
nothing is bound until the value is there. A definition at the end of the chain binds its own name
as well, and the assignments around it find the function under that name.
-/

namespace TableConsole

set_option autoImplicit false

open Text

namespace Statement

def isAssignment : Statement → Bool
  | .assignment .. => true
  | _ => false

/-- The targets of the assignments in front, outermost one first, and the statement behind them. -/
inductive Chained : Statement → List String → Statement → Prop
  | last {st : Statement} : st.isAssignment = false → Chained st [] st
  | target {name text : String} {targets : List String} {st : Statement} :
    Chained (ofText text) targets st → Chained (.assignment name text) (name :: targets) st

/-- The name that a definition binds. -/
def definedNames : Statement → List String
  | .definition name _ => [name]
  | _ => []

theorem length_lt_of_assignment {s name text : String} (h : ofText s = .assignment name text) :
    text.length < s.length := by
  have trim_le (cs : List Char) : (trim cs).length ≤ cs.length := by
    obtain ⟨before, behind, hcs, -⟩ := exists_trim cs
    have hlength := congrArg List.length hcs
    simp only [List.length_append] at hlength
    omega
  rw [ofText, ofTrimmed] at h
  split at h
  · rename_i binding hbinding
    subst h
    rw [binding?] at hbinding
    split at hbinding
    · cases hbinding
    · rename_i before after hsplit
      have hcs : trim s.toList = before ++ ':' :: after := eq_of_splitColonFrom hsplit
      have hlength := congrArg List.length hcs
      have hline := trim_le s.toList
      have hafter := trim_le after
      simp only [List.length_append, List.length_cons, String.length_toList] at hlength hline
      dsimp only at hbinding
      split at hbinding
      · cases hbinding
      · split at hbinding
        · cases hbinding
          rw [String.length_ofList]
          omega
        · cases hbinding
  · split at h
    · cases h
    · split at h <;> cases h

/-- Every line is a chain: what is behind a target is shorter. -/
theorem exists_chained (s : String) : ∃ targets st, (ofText s).Chained targets st := by
  induction hlength : s.length using Nat.strongRecOn generalizing s with
  | ind n ih =>
    cases hs : ofText s with
    | assignment name text =>
      have hshort := length_lt_of_assignment hs
      obtain ⟨targets, st, hchain⟩ := ih text.length (by omega) text rfl
      exact ⟨name :: targets, st, .target hchain⟩
    | definition | call | query | expression => exact ⟨[], _, .last rfl⟩

end Statement

theorem Symbols.mem_names_iff (symbols : Symbols) (name : String) :
    name ∈ symbols.names ↔ (symbols.get? name).isSome = true := by
  rw [Symbols.names, Symbols.get?, List.lookup_isSome_iff, List.mem_map]
  refine exists_congr fun entry => and_congr_right fun _ => ?_
  rw [beq_iff_eq, eq_comm]

/-- The names are bound to the value; every other name keeps what it has, and none is lost. -/
structure Symbols.Bound (symbols : Symbols) (names : List String) (v : Value)
    (symbols' : Symbols) : Prop where
  get? : ∀ name, symbols'.get? name = if name ∈ names then some v else symbols.get? name
  names : ∀ name, name ∈ symbols'.names ↔ name ∈ names ∨ name ∈ symbols.names

namespace Symbols.Bound

variable {symbols symbols' : Symbols} {names : List String} {v : Value}

theorem of_get?
    (h : ∀ name, symbols'.get? name = if name ∈ names then some v else symbols.get? name) :
    symbols.Bound names v symbols' := by
  refine ⟨h, fun name => ?_⟩
  rw [mem_names_iff, mem_names_iff, h]
  by_cases hname : name ∈ names <;> simp [hname]

theorem nil : symbols.Bound [] v symbols :=
  of_get? fun _ => by simp

theorem insert (h : symbols.Bound names v symbols') (name : String) :
    symbols.Bound (name :: names) v (symbols'.insert name v) := by
  refine of_get? fun other => ?_
  rw [get?_insert, h.get?]
  by_cases heq : other = name <;> simp [heq]

theorem get?_of_mem (h : symbols.Bound names v symbols') {name : String} (hname : name ∈ names) :
    symbols'.get? name = some v := by
  rw [h.get?, if_pos hname]

end Symbols.Bound

namespace Evaluation

variable {settings : Settings} {symbols symbols' : Symbols}

/-- What the statement behind the targets gives to them: its own value, and for a definition the
function. -/
def Supplies (settings : Settings) (symbols : Symbols) (v : Value) : Statement → Prop
  | .definition _ source => v = .function source
  | st => (evaluateStatement settings symbols st).1 = .ok (.value v)

/-- The first bound name is reported with the value, or as defined if the value is a function. -/
def reported (v : Value) : List String → Outcome
  | [] => .value v
  | name :: _ => if isFunction v then .defined name else .assigned name v

theorem valueOf_reported {names : List String} {v : Value} (h : symbols.Bound names v symbols') :
    valueOf symbols' (reported v names) = .ok v := by
  cases names with
  | nil => rfl
  | cons name names =>
    rw [reported]
    split
    · rw [valueOf, h.get?_of_mem List.mem_cons_self]
    · rfl

theorem statement_of_last {right : RightHandSide} {st : Statement} {outcome : Outcome}
    (hst : st.isAssignment = false)
    (h : statement settings right symbols st = (.ok outcome, symbols')) :
    ∃ v, Supplies settings symbols v st ∧ symbols.Bound st.definedNames v symbols' ∧
      outcome = reported v st.definedNames := by
  cases st with
  | assignment name text => cases hst
  | definition name source =>
    cases h
    exact ⟨.function source, rfl, Symbols.Bound.nil.insert name, rfl⟩
  | call | query | expression =>
    obtain ⟨hvalue, rfl⟩ := Prod.mk.inj h
    obtain ⟨v, -, rfl⟩ := Except.map_eq_ok_iff.mp hvalue
    exact ⟨v, hvalue, .nil, rfl⟩

theorem statement_assignment {right : RightHandSide} {name text : String} {outcome : Outcome}
    (h : statement settings right symbols (.assignment name text) = (.ok outcome, symbols')) :
    ∃ v left, right text symbols = (.ok v, left) ∧ symbols' = left.insert name v ∧
      outcome = reported v [name] := by
  rw [statement] at h
  split at h
  · rename_i v left hright
    cases h
    exact ⟨v, left, hright, rfl, rfl⟩
  · cases h

theorem rightHandSide_succ {budget : Nat} {text : String} {v : Value}
    (h : rightHandSide settings (budget + 1) text symbols = (.ok v, symbols')) :
    ∃ outcome, statement settings (rightHandSide settings budget) symbols (Statement.ofText text) =
      (.ok outcome, symbols') ∧ valueOf symbols' outcome = .ok v := by
  simp only [rightHandSide] at h
  split at h
  · rename_i outcome left hstatement
    obtain ⟨hvalue, rfl⟩ := Prod.mk.inj h
    exact ⟨outcome, hstatement, hvalue⟩
  · cases h

theorem statement_of_chained {st₀ st : Statement} {targets : List String} {budget : Nat}
    {outcome : Outcome} (hchain : st₀.Chained targets st)
    (h : statement settings (rightHandSide settings budget) symbols st₀ =
      (.ok outcome, symbols')) :
    ∃ v, Supplies settings symbols v st ∧
      symbols.Bound (targets ++ st.definedNames) v symbols' ∧
      outcome = reported v (targets ++ st.definedNames) := by
  -- From the inside out: each target is bound after those behind it.
  induction hchain generalizing budget outcome symbols' with
  | last hst => exact statement_of_last hst h
  | @target name text targets st _ ih =>
    obtain ⟨w, left, hright, rfl, rfl⟩ := statement_assignment h
    cases budget with
    | zero => cases hright
    | succ budget =>
      obtain ⟨inner, hinner, hvalue⟩ := rightHandSide_succ hright
      obtain ⟨v, hsupplies, hbound, rfl⟩ := ih hinner
      obtain rfl : v = w := Except.ok.inj ((valueOf_reported hbound).symm.trans hvalue)
      exact ⟨v, hsupplies, hbound.insert name, rfl⟩

end Evaluation

open Evaluation in
/-- A line that evaluates is a chain of targets in front of a statement, and it binds exactly the
targets, with the name of a definition, to the value of that statement. -/
theorem evaluate_binds_targets {settings : Settings} {symbols : Symbols} {line : String}
    {outcome : Outcome} (h : (evaluate settings symbols line).1 = .ok outcome) :
    (∃ targets st, (Statement.ofText line).Chained targets st) ∧
      ∀ targets st, (Statement.ofText line).Chained targets st →
        ∃ v, Supplies settings symbols v st ∧
          symbols.Bound (targets ++ st.definedNames) v (evaluate settings symbols line).2 ∧
          outcome = reported v (targets ++ st.definedNames) :=
  ⟨Statement.exists_chained line, fun _ _ hchain => statement_of_chained hchain (Prod.ext h rfl)⟩

/-- A definition behind targets of which one stands twice and one is bound to a table before. -/
theorem evaluate_binds_targets_definition :
    let line := "a: trade: a: f\x7bx: x\x7d: x"
    let f := Value.function "f\x7bx: x\x7d: x"
    (∃ outcome, (evaluate {} Sample.symbols line).1 = .ok outcome) ∧
      (Statement.ofText line).Chained ["a", "trade", "a"]
        (.definition "f" "f\x7bx: x\x7d: x") ∧
      (evaluate {} Sample.symbols line).1 = .ok (.defined "a") ∧
      Sample.symbols.Bound ["a", "trade", "a", "f"] f (evaluate {} Sample.symbols line).2 := by
  intro line f
  obtain ⟨outcome, hok⟩ : ∃ outcome, (evaluate {} Sample.symbols line).1 = .ok outcome :=
    Except.exists_ok_of_isSome (by decide +kernel)
  have hfirst : Statement.ofText line = .assignment "a" "trade: a: f\x7bx: x\x7d: x" := by
    decide +kernel
  have hsecond : Statement.ofText "trade: a: f\x7bx: x\x7d: x" =
      .assignment "trade" "a: f\x7bx: x\x7d: x" := by
    decide +kernel
  have hthird : Statement.ofText "a: f\x7bx: x\x7d: x" = .assignment "a" "f\x7bx: x\x7d: x" := by
    decide +kernel
  have hlast : Statement.ofText "f\x7bx: x\x7d: x" = .definition "f" "f\x7bx: x\x7d: x" := by
    decide +kernel
  have hchain : (Statement.ofText line).Chained ["a", "trade", "a"]
      (.definition "f" "f\x7bx: x\x7d: x") :=
    hfirst ▸ .target (hsecond ▸ .target (hthird ▸ .target (hlast ▸ .last rfl)))
  obtain ⟨v, rfl, hbound, rfl⟩ := (evaluate_binds_targets hok).2 _ _ hchain
  exact ⟨⟨_, hok⟩, hchain, hok, hbound⟩

end TableConsole
