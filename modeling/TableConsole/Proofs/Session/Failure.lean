import TableConsole.Proofs.Except
import TableConsole.Proofs.Session.Trace

/-! # Failing statements

A statement that fails leaves the symbols as they are, however many assignments are chained in it:
a name is bound only when the value for it is there, and a value that is there is never lost on the
way out. So the statements that fail in a run can be left out of it.
-/

namespace TableConsole

set_option autoImplicit false

namespace Evaluation

variable {settings : Settings} {symbols symbols' : Symbols} {st : Statement}

/-- Nothing is bound if there is no value. -/
def RightHandSide.Clean (right : RightHandSide) : Prop :=
  ∀ text symbols e symbols', right text symbols = (.error e, symbols') → symbols' = symbols

theorem statement_error {right : RightHandSide} (hright : right.Clean) {e : EvalError}
    (h : statement settings right symbols st = (.error e, symbols')) : symbols' = symbols := by
  cases st with
  | assignment name text =>
    simp only [statement] at h
    split at h
    · cases h
    · rename_i hfail
      cases h
      exact hright _ _ _ _ hfail
  | definition name source => cases h
  | call | query | expression => exact (Prod.mk.inj h).2.symm

theorem valueOf_of_statement {right : RightHandSide} {outcome : Outcome}
    (h : statement settings right symbols st = (.ok outcome, symbols')) :
    ∃ v, valueOf symbols' outcome = .ok v := by
  cases st with
  | assignment name text =>
    simp only [statement, bind] at h
    split at h
    · rename_i v left _
      cases h
      split
      · exact ⟨v, by rw [valueOf, Symbols.get?_insert_self]⟩
      · exact ⟨v, rfl⟩
    · cases h
  | definition name source =>
    cases h
    exact ⟨.function source, by rw [valueOf, Symbols.get?_insert_self]⟩
  | call | query | expression =>
    obtain ⟨v, -, rfl⟩ := Except.map_eq_ok_iff.mp (Prod.mk.inj h).1
    exact ⟨v, rfl⟩

theorem rightHandSide_clean (settings : Settings) (budget : Nat) :
    (rightHandSide settings budget).Clean := by
  -- On the assignments that may still be chained.
  induction budget with
  | zero =>
    intro text symbols e symbols' h
    exact (Prod.mk.inj h).2.symm
  | succ budget ih =>
    intro text symbols e symbols' h
    simp only [rightHandSide] at h
    split at h
    · rename_i outcome left hok
      obtain ⟨v, hv⟩ := valueOf_of_statement hok
      rw [hv] at h
      cases h
    · rename_i hfail
      cases h
      exact statement_error ih hfail

end Evaluation

theorem evaluate_error {settings : Settings} {symbols : Symbols} {line : String} {e : EvalError}
    (h : (evaluate settings symbols line).1 = .error e) :
    (evaluate settings symbols line).2 = symbols :=
  Evaluation.statement_error (Evaluation.rightHandSide_clean settings maxNesting) (Prod.ext h rfl)

theorem Session.evaluate_error {s : Session} {text : String} {e : EvalError}
    (h : (s.evaluate text).1 = .error e) : (s.evaluate text).2 = s := by
  have hsymbols : (s.evaluate text).2.symbols = s.symbols := TableConsole.evaluate_error h
  exact congrArg (Session.mk s.settings) hsymbols

def succeeded (trace : List (String × Except EvalError Outcome)) :
    List (String × Except EvalError Outcome) :=
  trace.filter (·.2.isOk)

theorem Session.trace_succeeded (s : Session) (texts : List String) :
    s.trace ((succeeded (s.trace texts)).map (·.1)) = succeeded (s.trace texts) ∧
      s.after ((succeeded (s.trace texts)).map (·.1)) = s.after ((s.trace texts).map (·.1)) := by
  induction texts generalizing s with
  | nil => exact ⟨rfl, rfl⟩
  | cons text texts ih =>
    cases h : (s.evaluate text).1 with
    | error e =>
      have hshown : resultLines? (s.evaluate text).1 = some [e.display] := by rw [h]; rfl
      rw [trace_cons_of_some hshown, h, List.map_cons, after_cons, Session.evaluate_error h]
      exact ih s
    | ok outcome =>
      cases hshown : resultLines? (s.evaluate text).1 with
      | none =>
        have hgood : succeeded (s.trace (text :: texts)) = [(text, (s.evaluate text).1)] := by
          rw [trace_cons_of_none hshown, h]
          rfl
        rw [hgood, trace_cons_of_none hshown]
        exact ⟨trace_cons_of_none hshown [], rfl⟩
      | some lines =>
        obtain ⟨htrace, hafter⟩ := ih (s.evaluate text).2
        have hgood : succeeded (s.trace (text :: texts)) =
            (text, (s.evaluate text).1) :: succeeded ((s.evaluate text).2.trace texts) := by
          rw [trace_cons_of_some hshown, h]
          rfl
        rw [hgood, List.map_cons, trace_cons_of_some hshown, htrace, after_cons, hafter,
          trace_cons_of_some hshown]
        exact ⟨rfl, rfl⟩

/-- A failing statement binds nothing, and a run binds what its successful statements bind when
they are evaluated alone, each with the result that it had in the run. -/
theorem failures_leave_symbols :
    (∀ (settings : Settings) (symbols : Symbols) (line : String) (e : EvalError),
      (evaluate settings symbols line).1 = .error e →
        (evaluate settings symbols line).2 = symbols) ∧
    ∀ (s : Session) (source : String),
      let good := succeeded (s.trace (s.statements source))
      (s.run source).2 = s.after (good.map (·.1)) ∧ s.trace (good.map (·.1)) = good := by
  refine ⟨fun settings symbols line e => evaluate_error, ?_⟩
  intro s source good
  obtain ⟨htrace, hafter⟩ := s.trace_succeeded (s.statements source)
  exact ⟨(s.run_snd source).trans hafter.symm, htrace⟩

/-- The last of three chained assignments has no value. -/
theorem failures_leave_symbols_chain :
    let line := "trade: a: b: missing + 1"
    ∃ e, (evaluate {} Sample.symbols line).1 = .error e ∧
      (evaluate {} Sample.symbols line).2 = Sample.symbols := by
  intro line
  have hfails : (evaluate {} Sample.symbols line).1.isOk = false := by decide +kernel
  cases h : (evaluate {} Sample.symbols line).1 with
  | ok outcome =>
    rw [h] at hfails
    cases hfails
  | error e => exact ⟨e, rfl, failures_leave_symbols.1 {} Sample.symbols line e h⟩

end TableConsole
