import TableConsole.Session.Run

/-! # Runs statement by statement

A run evaluates its statements one after the other, each with the symbols that the ones before it
left. What is displayed plays no part in that, but for a result that cannot be shown: behind it no
statement is evaluated any more.
-/

namespace TableConsole.Session

set_option autoImplicit false

def after (s : Session) (texts : List String) : Session :=
  texts.foldl (fun s text => (s.evaluate text).2) s

/-- The statements that a run evaluates, each with what it gives after the ones before it. -/
def trace (s : Session) : List String → List (String × Except EvalError Outcome)
  | [] => []
  | text :: texts =>
    (text, (s.evaluate text).1) ::
      if (resultLines? (s.evaluate text).1).isSome then (s.evaluate text).2.trace texts else []

/-- The statements of a source text under the joining of the session. -/
def statements (s : Session) (source : String) : List String :=
  Statement.split s.settings.joining source

theorem after_cons (s : Session) (text : String) (texts : List String) :
    s.after (text :: texts) = (s.evaluate text).2.after texts :=
  rfl

theorem evaluate_settings (s : Session) (text : String) :
    (s.evaluate text).2.settings = s.settings :=
  rfl

theorem evaluate_outcome (s : Session) (text : String) :
    (s.evaluate text).1 = (TableConsole.evaluate s.settings s.symbols text).1 :=
  rfl

theorem evaluate_symbols (s : Session) (text : String) :
    (s.evaluate text).2.symbols = (TableConsole.evaluate s.settings s.symbols text).2 :=
  rfl

/-- Bindings are not repeated in front of what they report. -/
def heading (text : String) : List DisplayLine :=
  if (Statement.ofText text).isBinding then [] else [.prompt text]

theorem runStatement_eq (s : Session) (text : String) :
    s.runStatement text =
      ((resultLines? (s.evaluate text).1).map (heading text ++ ·), (s.evaluate text).2) :=
  rfl

section Cons

variable {s : Session} {text : String}

theorem trace_cons_of_none (h : resultLines? (s.evaluate text).1 = none) (texts : List String) :
    s.trace (text :: texts) = [(text, (s.evaluate text).1)] := by
  rw [trace, h]
  rfl

theorem trace_cons_of_some {lines : List DisplayLine}
    (h : resultLines? (s.evaluate text).1 = some lines) (texts : List String) :
    s.trace (text :: texts) = (text, (s.evaluate text).1) :: (s.evaluate text).2.trace texts := by
  rw [trace, h]
  rfl

theorem runAll_cons_of_none (h : resultLines? (s.evaluate text).1 = none) (texts : List String) :
    s.runAll (text :: texts) = (none, (s.evaluate text).2) := by
  rw [runAll, runStatement_eq, h]
  rfl

theorem runAll_cons_of_some {lines : List DisplayLine}
    (h : resultLines? (s.evaluate text).1 = some lines) (texts : List String) :
    s.runAll (text :: texts) =
      (((s.evaluate text).2.runAll texts).1.map ((heading text ++ lines) ++ ·),
        ((s.evaluate text).2.runAll texts).2) := by
  rw [runAll, runStatement_eq, h]
  rfl

end Cons

theorem runAll_snd (s : Session) (texts : List String) :
    (s.runAll texts).2 = s.after ((s.trace texts).map (·.1)) := by
  induction texts generalizing s with
  | nil => rfl
  | cons text texts ih =>
    cases h : resultLines? (s.evaluate text).1 with
    | none =>
      rw [runAll_cons_of_none h, trace_cons_of_none h]
      rfl
    | some lines =>
      rw [runAll_cons_of_some h, trace_cons_of_some h]
      exact ih (s.evaluate text).2

theorem run_snd (s : Session) (source : String) :
    (s.run source).2 = s.after ((s.trace (s.statements source)).map (·.1)) :=
  s.runAll_snd _

theorem andThen_assoc (first : Option (List DisplayLine) × Session)
    (second third : Session → Option (List DisplayLine) × Session) :
    andThen (andThen first second) third = andThen first fun s => andThen (second s) third := by
  obtain ⟨_ | block, s⟩ := first
  · rfl
  · rcases hsecond : second s with ⟨_ | lines, left⟩
    · simp [andThen, hsecond]
    · simp [andThen, hsecond, Function.comp_def]

theorem runAll_append (s : Session) (first second : List String) :
    s.runAll (first ++ second) = andThen (s.runAll first) fun s => s.runAll second := by
  induction first generalizing s with
  | nil =>
    simp [runAll, andThen]
  | cons text texts ih => simp only [List.cons_append, runAll, ih, andThen_assoc]

theorem runAll_settings (s : Session) (texts : List String) :
    (s.runAll texts).2.settings = s.settings := by
  rw [runAll_snd]
  induction (s.trace texts).map (·.1) generalizing s with
  | nil => rfl
  | cons text texts ih => exact ih _

end TableConsole.Session
