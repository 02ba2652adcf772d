import TableConsole.Proofs.Session.Chain
import TableConsole.Proofs.Syntax.NestingLimit

/-! # How often a statement can be nested

The limit of nesting is counted at two places. An expression takes a level of its own, and so what
is nested in it finds one level less than the limit. The targets of a chain of assignments find them
all.
-/

namespace TableConsole

set_option autoImplicit false

namespace Evaluation

open Statement

variable {settings : Settings} {symbols : Symbols} {st₀ st : Statement} {targets : List String}
  {budget : Nat}

theorem rightHandSide_eq {text : String} {r : Except EvalError Outcome} {symbols' : Symbols}
    (h : statement settings (rightHandSide settings budget) symbols (ofText text) = (r, symbols')) :
    rightHandSide settings (budget + 1) text symbols = (r >>= valueOf symbols', symbols') := by
  rw [rightHandSide]
  dsimp only
  rw [h]
  cases r <;> rfl

theorem statement_tooDeep (hchain : st₀.Chained targets st) (h : budget < targets.length) :
    statement settings (rightHandSide settings budget) symbols st₀ =
      (.error (.parse .tooDeep), symbols) := by
  induction hchain generalizing budget with
  | last => exact absurd h (Nat.not_lt_zero budget)
  | target _ ih =>
    cases budget with
    | zero => rfl
    | succ budget =>
      rw [statement, rightHandSide_eq (ih (Nat.lt_of_succ_lt_succ h))]
      rfl

theorem statement_of_expression {text : String} {v : Value}
    (hchain : st₀.Chained targets (.expression text)) (h : targets.length ≤ budget)
    (hv : expression settings symbols text = .ok v) :
    ∃ symbols', statement settings (rightHandSide settings budget) symbols st₀ =
      (.ok (reported v targets), symbols') ∧ symbols.Bound targets v symbols' := by
  generalize hlast : Statement.expression text = st at hchain
  induction hchain generalizing budget with
  | last =>
    subst hlast
    exact ⟨symbols, by rw [statement, hv]; rfl, .nil⟩
  | @target name rest targets st _ ih =>
    cases budget with
    | zero => exact absurd h (Nat.not_succ_le_zero targets.length)
    | succ budget =>
      obtain ⟨symbols', hstatement, hbound⟩ := ih (Nat.le_of_succ_le_succ h) hlast
      refine ⟨symbols'.insert name v, ?_, hbound.insert name⟩
      rw [statement, rightHandSide_eq hstatement, Except.ok_bind, valueOf_reported hbound]
      rfl

end Evaluation

namespace Statement

open Text

def assignmentChars (n : Nat) : List Char :=
  (List.replicate n ['y', ':', ' ']).flatten ++ ['1']

/-- `y: y: 1` -/
def assignments (n : Nat) : String :=
  String.ofList (assignmentChars n)

theorem trim_assignmentChars (n : Nat) : trim (assignmentChars n) = assignmentChars n := by
  have hdrop : dropBlank (assignmentChars n) = assignmentChars n := by
    cases n <;> exact dropBlank_eq_self rfl
  rw [trim, hdrop, dropBlankEnd_eq_rdropWhile]
  exact List.rdropWhile_concat_neg _ _ _ (by decide)

theorem ofText_assignments_succ (n : Nat) :
    ofText (assignments (n + 1)) = .assignment "y" (assignments n) := by
  have hsplit : splitColon? (assignmentChars (n + 1)) = some (['y'], ' ' :: assignmentChars n) := rfl
  have htrim : trim (' ' :: assignmentChars n) = assignmentChars n := trim_assignmentChars n
  have hbinding : binding? (assignmentChars (n + 1)) =
      some (.assignment "y" (assignments n)) := by
    rw [binding?, hsplit]
    dsimp only
    rw [htrim]
    rfl
  rw [ofText, assignments, String.toList_ofList, trim_assignmentChars, ofTrimmed, hbinding]

theorem chained_assignments (n : Nat) :
    (ofText (assignments n)).Chained (List.replicate n "y") (.expression "1") := by
  induction n with
  | zero =>
    have hone : ofText (assignments 0) = .expression "1" := by decide +kernel
    rw [hone]
    exact .last rfl
  | succ n ih =>
    rw [ofText_assignments_succ]
    exact .target ih

end Statement

open Evaluation Statement

theorem evaluate_assignments (settings : Settings) (symbols : Symbols) (n : Nat) :
    (evaluate settings symbols (assignments n)).1 =
      if n ≤ maxNesting then .ok (reported (.number 1) (List.replicate n "y"))
      else .error (.parse .tooDeep) := by
  have hchain := chained_assignments n
  have hone : Evaluation.expression settings symbols "1" = .ok (.number 1) := by
    have hread : Expr.ofText "1" = .ok (.literal (.number 1)) := NestedForm.ofText_text .parens 0
    have harithmetic : isArithmetic "1" = true := by decide +kernel
    rw [Evaluation.expression, if_neg (by decide +kernel), if_pos harithmetic, hread]
    rfl
  rw [evaluate, evaluateStatement]
  split
  · rename_i h
    obtain ⟨_, hstatement, -⟩ := statement_of_expression hchain (by simpa using h) hone
    rw [hstatement]
  · rename_i h
    rw [statement_tooDeep hchain (by simpa using h)]

/-- Expressions nested `n` times are read if `n` is below the limit, chains of assignments also if it
is the limit. -/
theorem nesting_limits (settings : Settings) (symbols : Symbols) (n : Nat) :
    (∀ form : NestedForm, Expr.ofText (form.text n) =
      if n < maxNesting then .ok (form.tree n) else .error .tooDeep) ∧
    (evaluate settings symbols (assignments n)).1 =
      if n ≤ maxNesting then .ok (reported (.number 1) (List.replicate n "y"))
      else .error (.parse .tooDeep) :=
  ⟨fun form => form.ofText_text n, evaluate_assignments settings symbols n⟩

/-- Expressions are not read up to the limit itself. -/
theorem nesting_limits_differ :
    ¬ ∀ (form : NestedForm) (n : Nat),
      (∃ e, Expr.ofText (form.text n) = .ok e) ↔ n ≤ maxNesting := by
  intro h
  obtain ⟨e, he⟩ := (h .parens maxNesting).mpr le_rfl
  rw [NestedForm.ofText_text, if_neg (Nat.lt_irrefl maxNesting)] at he
  cases he

end TableConsole
