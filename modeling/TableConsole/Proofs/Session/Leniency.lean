import TableConsole.Proofs.Session.Failure

/-! # Strict and echoing sessions

The echo leniency changes nothing about a statement that evaluates, nor about one that fails for
another reason than its syntax or an unknown name. Two runs that differ in leniency alone are the
same up to the first such failure, and in a strict run that failure ends the statement, whatever
assignments stand around it.
-/

namespace TableConsole

set_option autoImplicit false

namespace Evaluation

def Degrades {α : Type} (r : Except EvalError α) : Prop :=
  ∃ e, r = .error e ∧ e.isDegradable = true

theorem Degrades.map {α β : Type} {r : Except EvalError α} (h : Degrades r) (f : α → β) :
    Degrades (r.map f) := by
  obtain ⟨e, rfl, he⟩ := h
  exact ⟨e, rfl, he⟩

variable {mode : Mode} {joining : Joining} {symbols : Symbols} {text : String}

theorem echoing_strict (r : Except EvalError Value) :
    echoing ⟨mode, .strict, joining⟩ text r = r := by
  cases r <;> simp [echoing]

theorem echoing_echo (r : Except EvalError Value) :
    echoing ⟨mode, .echo, joining⟩ text r = r ∨ Degrades r := by
  cases r with
  | ok v => exact .inl rfl
  | error e =>
    cases he : e.isDegradable with
    | true => exact .inr ⟨e, rfl, he⟩
    | false => exact .inl (by simp [echoing, he])

section Kinds

variable (mode joining symbols text)

theorem expression_echo :
    expression ⟨mode, .echo, joining⟩ symbols text =
        expression ⟨mode, .strict, joining⟩ symbols text ∨
      Degrades (expression ⟨mode, .strict, joining⟩ symbols text) := by
  unfold expression
  simp only [echoing_strict]
  split
  · exact echoing_echo _
  · split
    · exact .inl rfl
    · exact echoing_echo _

theorem call_echo (f : String) :
    call ⟨mode, .echo, joining⟩ symbols f text = call ⟨mode, .strict, joining⟩ symbols f text ∨
      Degrades (call ⟨mode, .strict, joining⟩ symbols f text) := by
  unfold call
  simp only [echoing_strict]
  split
  · exact .inl rfl
  · exact echoing_echo _

theorem query_echo :
    query ⟨mode, .echo, joining⟩ symbols text = query ⟨mode, .strict, joining⟩ symbols text ∨
      Degrades (query ⟨mode, .strict, joining⟩ symbols text) := by
  unfold query
  simp only [echoing_strict]
  cases mode with
  | canned => exact .inl rfl
  | computed => exact echoing_echo _

end Kinds

/-- The echoing run does what the strict one does, unless that one fails where it may echo. -/
def Follows {α : Type} (echo strict : Except EvalError α × Symbols) : Prop :=
  echo = strict ∨ Degrades strict.1

theorem follows_value {r r' : Except EvalError Value} (h : r' = r ∨ Degrades r) :
    Follows (r'.map Outcome.value, symbols) (r.map Outcome.value, symbols) := by
  obtain rfl | h := h
  · exact .inl rfl
  · exact .inr (h.map _)

theorem statement_follows {echo strict : RightHandSide}
    (hright : ∀ text symbols, Follows (echo text symbols) (strict text symbols)) (st : Statement) :
    Follows (statement ⟨mode, .echo, joining⟩ echo symbols st)
      (statement ⟨mode, .strict, joining⟩ strict symbols st) := by
  cases st with
  | assignment name text =>
    simp only [statement]
    obtain heq | hfails := hright text symbols
    · rw [heq]
      exact .inl rfl
    · obtain ⟨e, he, hdegrades⟩ := hfails
      cases hstrict : strict text symbols with
      | mk r left =>
        rw [hstrict] at he
        subst he
        exact .inr ⟨e, rfl, hdegrades⟩
  | definition name source => exact .inl rfl
  | call f source => exact follows_value (call_echo mode joining symbols source f)
  | query text => exact follows_value (query_echo mode joining symbols text)
  | expression text => exact follows_value (expression_echo mode joining symbols text)

theorem rightHandSide_follows (budget : Nat) (text : String) (symbols : Symbols) :
    Follows (rightHandSide ⟨mode, .echo, joining⟩ budget text symbols)
      (rightHandSide ⟨mode, .strict, joining⟩ budget text symbols) := by
  -- On the assignments that may still be chained.
  induction budget generalizing text symbols with
  | zero => exact .inl rfl
  | succ budget ih =>
    simp only [rightHandSide]
    obtain heq | ⟨e, he, hdegrades⟩ :=
      @statement_follows mode joining symbols _ _ ih (Statement.ofText text)
    · rw [heq]
      exact .inl rfl
    · generalize statement ⟨mode, .strict, joining⟩ _ symbols (Statement.ofText text) = run at he ⊢
      obtain ⟨r, left⟩ := run
      subst he
      exact .inr ⟨e, rfl, hdegrades⟩

end Evaluation

theorem evaluate_follows (mode : Mode) (joining : Joining) (symbols : Symbols) (line : String) :
    Evaluation.Follows (evaluate ⟨mode, .echo, joining⟩ symbols line)
      (evaluate ⟨mode, .strict, joining⟩ symbols line) :=
  Evaluation.statement_follows (Evaluation.rightHandSide_follows maxNesting) (Statement.ofText line)

/-- Where the strict run succeeds, the echoing run does the same; where it fails, but not at a
syntax error or an unknown name, the echoing run fails in the same way, and neither binds a name. -/
theorem echo_extends_strict (mode : Mode) (joining : Joining) (symbols : Symbols) (line : String) :
    let strict := evaluate ⟨mode, .strict, joining⟩ symbols line
    let echo := evaluate ⟨mode, .echo, joining⟩ symbols line
    (∀ outcome, strict.1 = .ok outcome → echo.1 = .ok outcome ∧ echo.2 = strict.2) ∧
      ∀ e, strict.1 = .error e → (∀ s, e ≠ .parse s) → (∀ name, e ≠ .undefinedName name) →
        echo.1 = .error e ∧ echo.2 = symbols ∧ strict.2 = symbols := by
  intro strict echo
  have hfollows : Evaluation.Follows echo strict := evaluate_follows mode joining symbols line
  constructor
  · intro outcome hok
    obtain heq | ⟨e, he, -⟩ := hfollows
    · exact ⟨heq ▸ hok, congrArg Prod.snd heq⟩
    · rw [hok] at he
      cases he
  · intro e he hparse hname
    have hstrict : strict.2 = symbols := evaluate_error he
    obtain heq | ⟨e', he', hdegrades⟩ := hfollows
    · rw [heq]
      exact ⟨he, hstrict, hstrict⟩
    · rw [he] at he'
      cases he'
      cases e with
      | parse s => exact absurd rfl (hparse s)
      | undefinedName name => exact absurd rfl (hname name)
      | arithmetic | type | length | table | fault => cases hdegrades

theorem echo_extends_strict_chains :
    let strict := evaluate ⟨.computed, .strict, .perLine⟩ Sample.symbols
    let echo := evaluate ⟨.computed, .echo, .perLine⟩ Sample.symbols
    let good := "a: b: select avg price by sym from trade"
    let bad := "a: b: (1 2 + 1 2 3)"
    (∃ outcome, (strict good).1 = .ok outcome ∧ (echo good).1 = .ok outcome ∧
      (echo good).2 = (strict good).2) ∧
    (strict bad).1 = .error (.length 2 3) ∧ (echo bad).1 = .error (.length 2 3) ∧
      (echo bad).2 = Sample.symbols := by
  intro strict echo good bad
  have hgood : (strict good).1.toOption.isSome = true := by decide +kernel
  obtain ⟨outcome, hok⟩ := Except.exists_ok_of_isSome hgood
  have hbad : (match (strict bad).1 with | .error (.length 2 3) => true | _ => false) = true := by
    decide +kernel
  have herror : (strict bad).1 = .error (.length 2 3) := by
    split at hbad
    · assumption
    · cases hbad
  have hsame := (echo_extends_strict .computed .perLine Sample.symbols good).1 outcome hok
  have hfails := (echo_extends_strict .computed .perLine Sample.symbols bad).2 _ herror
    (fun _ h => nomatch h) (fun _ h => nomatch h)
  exact ⟨⟨outcome, hok, hsame⟩, herror, hfails.1, hfails.2.1⟩

end TableConsole
