import TableConsole.Proofs.Session.Splitting
import TableConsole.Proofs.Session.Trace

/-! # One statement a line

If lines are not joined, a line feed ends a statement whatever stands in front of it: a string
literal, a comment or a bracket that is open, a carriage return, or nothing. So a text can be cut at
any of its line feeds and the parts be run one after the other.
-/

namespace TableConsole

set_option autoImplicit false

theorem Statement.split_append_feed (first second : String) :
    split .perLine (first ++ "\n" ++ second) = split .perLine first ++ split .perLine second := by
  have hlines : splitChars .perLine (first.toList ++ '\n' :: second.toList) =
      splitChars .perLine first.toList ++ splitChars .perLine second.toList := by
    simp only [splitChars, contentLines_append, List.map_append]
  have hchars : (first ++ "\n" ++ second).toList = first.toList ++ '\n' :: second.toList := by simp
  rw [split, hchars, hlines, List.map_append, ← split, ← split]

namespace Session

theorem run_settings (s : Session) (source : String) : (s.run source).2.settings = s.settings :=
  s.runAll_settings _

/-- Two texts with a line feed between them are run as the first one and then the second one. -/
theorem run_append_feed {s : Session} (hjoin : s.settings.joining = .perLine)
    (first second : String) :
    s.run (first ++ "\n" ++ second) = andThen (s.run first) fun left => left.run second := by
  have hfirst : s.run first = s.runAll (Statement.split .perLine first) := by rw [run, hjoin]
  have hsecond : andThen (s.run first) (fun left => left.run second) =
      andThen (s.run first) fun left => left.runAll (Statement.split .perLine second) := by
    have hleft : (s.run first).2.settings.joining = .perLine := by rw [run_settings, hjoin]
    rcases h : s.run first with ⟨_ | lines, left⟩
    · rfl
    · simp only [h] at hleft
      simp only [andThen, run, hleft]
  rw [hsecond, hfirst, ← runAll_append, ← Statement.split_append_feed, run, hjoin]

/-- The first text ends in a bracket, a string literal and a carriage return. -/
theorem run_append_feed_open :
    let first := (fresh {}).run "x: 2\nx: (\"3 // \r"
    (fresh {}).settings.joining = .perLine ∧
      (fresh {}).run ("x: 2\nx: (\"3 // \r" ++ "\n" ++ "x * x") =
        andThen first (fun left => left.run "x * x") ∧
      first.1.map List.length = some 2 ∧
      (first.2.run "x * x").1 = some [.prompt "x * x", ⟨.value, "4"⟩] :=
  ⟨rfl, run_append_feed rfl _ _, by decide +kernel, by decide +kernel⟩

end Session

end TableConsole
