import TableConsole.Proofs.Eval.Arithmetic
import TableConsole.Proofs.Session.Failure
import TableConsole.Proofs.Session.NestingLimit

/-! # What an echoing session still reports

Under the echo leniency a statement that cannot be read, or that uses an unknown name, is its own
text. This covers whatever is evaluated behind the targets of a chain, and arithmetic, which is not
echoed, fails for other reasons. What is left is the chain itself: with more targets than the limit
of nesting it is refused before there is any text to echo.
-/

namespace TableConsole

set_option autoImplicit false

namespace Evaluation

abbrev Settled {α : Type} (r : Except EvalError α) : Prop :=
  Except.FailsOnly (fun e => e.isDegradable = false) r

section Kinds

variable (mode : Mode) (joining : Joining) (symbols : Symbols) (text : String)

theorem echoing_settled (r : Except EvalError Value) :
    Settled (echoing ⟨mode, .echo, joining⟩ text r) := by
  cases r with
  | ok v => exact .ok v
  | error e =>
    rw [echoing]
    split
    · exact .ok _
    · rename_i hstays
      exact .error (by simpa using hstays)

theorem expression_settled : Settled (expression ⟨mode, .echo, joining⟩ symbols text) := by
  rw [expression]
  split
  · exact echoing_settled mode joining text _
  · split
    · rename_i harithmetic
      split
      · rename_i e he
        have hfits := (arithmetic_of_isArithmetic harithmetic he).fits
        exact fun err herr => (hfits _ err herr).not_isDegradable
      · exact .error rfl
    · exact echoing_settled mode joining text _

theorem call_settled (f : String) : Settled (call ⟨mode, .echo, joining⟩ symbols f text) := by
  rw [call]
  split
  · exact .ok _
  · exact echoing_settled mode joining text _

theorem query_settled : Settled (query ⟨mode, .echo, joining⟩ symbols text) := by
  cases mode with
  | canned => exact .ok _
  | computed => exact echoing_settled .computed joining text _

end Kinds

variable {mode : Mode} {joining : Joining} {symbols : Symbols}

theorem statement_settled {st₀ st : Statement} {targets : List String} {budget : Nat}
    (hchain : st₀.Chained targets st) (hlength : targets.length ≤ budget) :
    Settled (statement ⟨mode, .echo, joining⟩ (rightHandSide ⟨mode, .echo, joining⟩ budget) symbols
      st₀).1 := by
  -- From the inside out: a target fails with what is behind it.
  induction hchain generalizing budget with
  | @last st hst =>
    cases st with
    | assignment => cases hst
    | definition name source => exact .ok _
    | call f source => exact (call_settled mode joining symbols source f).map Outcome.value
    | query text => exact (query_settled mode joining symbols text).map Outcome.value
    | expression text => exact (expression_settled mode joining symbols text).map Outcome.value
  | @target name text targets st _ ih =>
    cases budget with
    | zero => exact absurd hlength (Nat.not_succ_le_zero targets.length)
    | succ budget =>
      have hbehind := ih (Nat.le_of_succ_le_succ hlength)
      obtain ⟨r, symbols', hstatement⟩ : ∃ r symbols',
          statement ⟨mode, .echo, joining⟩ (rightHandSide ⟨mode, .echo, joining⟩ budget) symbols
            (Statement.ofText text) = (r, symbols') := ⟨_, _, rfl⟩
      rw [hstatement] at hbehind
      rw [statement, rightHandSide_eq hstatement]
      cases r with
      | error e => exact .error (hbehind e rfl)
      | ok outcome =>
        obtain ⟨v, hv⟩ := valueOf_of_statement hstatement
        rw [Except.ok_bind, hv]
        exact .ok _

end Evaluation

open Statement

/-- Whatever the settings are, such a chain is refused. -/
theorem evaluate_tooDeep (settings : Settings) (symbols : Symbols) {line : String}
    {targets : List String} {st : Statement} (hchain : (ofText line).Chained targets st)
    (hlength : maxNesting < targets.length) :
    (evaluate settings symbols line).1 = .error (.parse .tooDeep) := by
  rw [evaluate, evaluateStatement, Evaluation.statement_tooDeep hchain hlength]

/-- An echoing session reports no unknown name, and of the syntax errors it reports only that a
statement is nested too deeply, for chains with more targets than the limit. -/
theorem echo_failures (mode : Mode) (joining : Joining) (symbols : Symbols) (line : String) :
    let echo := (evaluate ⟨mode, .echo, joining⟩ symbols line).1
    (∀ name, echo ≠ .error (.undefinedName name)) ∧
      ∀ e, echo = .error (.parse e) ↔
        e = .tooDeep ∧ ∃ targets st, (ofText line).Chained targets st ∧
          maxNesting < targets.length := by
  intro echo
  obtain ⟨targets, st, hchain⟩ := exists_chained line
  have hcases : Evaluation.Settled echo ∨
      maxNesting < targets.length ∧ echo = .error (.parse .tooDeep) := by
    obtain hlength | hlength := Nat.lt_or_ge maxNesting targets.length
    · exact .inr ⟨hlength, evaluate_tooDeep _ symbols hchain hlength⟩
    · exact .inl (Evaluation.statement_settled hchain hlength)
  constructor
  · intro name hname
    obtain hsettled | ⟨-, hdeep⟩ := hcases
    · cases hsettled _ hname
    · cases hname.symm.trans hdeep
  · intro e
    constructor
    · intro he
      obtain hsettled | ⟨hlength, hdeep⟩ := hcases
      · cases hsettled _ he
      · cases he.symm.trans hdeep
        exact ⟨rfl, targets, st, hchain, hlength⟩
    · rintro ⟨rfl, targets, st, hchain, hlength⟩
      exact evaluate_tooDeep _ symbols hchain hlength

theorem echo_reports_tooDeep :
    (evaluate ⟨.computed, .echo, .perLine⟩ .empty (assignments (maxNesting + 1))).1 =
      .error (.parse .tooDeep) := by
  rw [evaluate_assignments, if_neg (Nat.not_succ_le_self maxNesting)]

end TableConsole
