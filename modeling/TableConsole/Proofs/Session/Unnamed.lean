import TableConsole.Proofs.Session.Classification

/-! # Statements without a word in front

A text that does not start with a word is neither a call nor a query, and if its tokens are those
of an expression it binds nothing either. So its value is the value of the expression, whichever
way the text is evaluated: as a table literal, as arithmetic or as any other expression.
-/

namespace TableConsole

set_option autoImplicit false

open Text

theorem Text.exists_trim_eq_cons {c : Char} (hc : isBlank c = false) (cs : List Char) :
    ∃ ds back, trim (c :: cs) = c :: ds ∧ cs = ds ++ back := by
  obtain ⟨front, back, hcs, hfront, hback⟩ := exists_trim (c :: cs)
  cases front with
  | cons b front =>
    obtain ⟨rfl, -⟩ := List.cons_eq_cons.mp hcs
    rw [hfront c List.mem_cons_self] at hc
    cases hc
  | nil =>
    cases htrim : trim (c :: cs) with
    | nil =>
      rw [htrim, List.nil_append, List.nil_append] at hcs
      rw [hback c (hcs ▸ List.mem_cons_self)] at hc
      cases hc
    | cons d ds =>
      rw [htrim, List.nil_append, List.cons_append] at hcs
      obtain ⟨rfl, hrest⟩ := List.cons_eq_cons.mp hcs
      exact ⟨ds, back, rfl, hrest⟩

namespace Statement

variable {c : Char} (hword : isWordStart c = false)

include hword

theorem callee?_of_not_isWordStart (hblank : isBlank c = false) (cs : List Char) :
    callee? (c :: cs) = none := by
  refine callee?_eq_none fun before after hcs => ?_
  cases before with
  | nil => rfl
  | cons b before =>
    obtain ⟨rfl, -⟩ := List.cons_eq_cons.mp hcs
    obtain ⟨ds, -, htrim, -⟩ := exists_trim_eq_cons hblank before
    rw [htrim, isIdentifier, hword, Bool.false_and]

theorem startsSelect_of_not_isWordStart (cs : List Char) : startsSelect (c :: cs) = false := by
  have hhead : c.toLower ≠ 's' := by
    intro hlower
    have hstart : isWordStart c = true := by
      unfold Char.toLower at hlower
      split at hlower
      · rename_i hrange
        have hupper : c.isUpper = true := decide_eq_true hrange
        have halpha : c.isAlpha = true := Bool.or_eq_true_iff.mpr (.inl hupper)
        rw [isWordStart, isLetter, halpha]
        rfl
      · exact hlower ▸ rfl
    rw [hword] at hstart
    cases hstart
  simp [startsSelect, foldCase, List.isPrefixOf, Ne.symm hhead]

end Statement

section Expression

variable {s : String} {c : Char} {cs : List Char} {ts : List Token} {n : Nat} {e : Expr}
  (hs : s.toList = c :: cs) (hblank : isBlank c = false) (hword : isWordStart c = false)
  (hts : Token.ofText s = .ok ts) (hfunction : ∀ source, Token.function source ∉ ts)
  (he : Grammar.DerivesExpr n ts e)

include hs hblank hword hts hfunction he

theorem Statement.ofText_of_expression :
    Statement.ofText s = .expression (String.ofList (trim s.toList)) := by
  have hlexemes := Token.lexemes_ofText (Token.ofText_trim hts)
  rw [String.toList_ofList] at hlexemes
  have hbinding : Statement.binding? (trim s.toList) = none := by
    rw [Statement.binding?, splitColon?, hlexemes.splitColonFrom hfunction he.colonsInside]
  rw [Statement.ofText, Statement.ofTrimmed, hbinding]
  obtain ⟨ds, -, htrim, -⟩ := exists_trim_eq_cons hblank cs
  rw [hs, htrim]
  simp [callee?_of_not_isWordStart hword hblank ds, startsSelect_of_not_isWordStart hword ds]

/-- A statement that looks like a table literal has to be computed, and to be a table. -/
theorem evaluate_of_expression (hn : n ≤ maxNesting) {settings : Settings} {symbols : Symbols}
    {v : Value} (hv : e.eval (Evaluation.scope settings symbols) = .ok v)
    (htable : ∀ rest, s.toList = '(' :: '[' :: rest →
      settings.mode = .computed ∧ ∃ t, v = .table t) :
    evaluate settings symbols s = (.ok (.value v), symbols) := by
  have hstatement := Statement.ofText_of_expression hs hblank hword hts hfunction he
  have htext : Expr.ofText (String.ofList (trim s.toList)) = .ok e := by
    have hparse := (Parser.parseExpr_gives he).resolve_right
      fun ⟨hdeep, _⟩ => Nat.not_lt.mpr hn hdeep
    simpa [Expr.ofText, Parser.tokens, Token.ofText_trim hts, Except.mapError] using hparse
  have hread : Evaluation.readExpr (String.ofList (trim s.toList)) = .ok e :=
    Except.mapError_eq_ok_iff.mpr htext
  have hliteral : "([".isPrefixOf (String.ofList (trim s.toList)) = true →
      settings.mode = .computed ∧ ∃ t, v = .table t := by
    intro hprefix
    obtain ⟨ds, back, htrim, rfl⟩ := exists_trim_eq_cons hblank cs
    have hstarts : ['(', '['] <+: c :: ds := by
      simpa [String.isPrefixOf, hs, htrim] using hprefix
    obtain ⟨rest, hrest⟩ := hstarts
    refine htable (rest ++ back) ?_
    rw [hs, ← List.cons_append, ← hrest]
    rfl
  have hexpression :
      Evaluation.expression settings symbols (String.ofList (trim s.toList)) = .ok v := by
    rw [Evaluation.expression]
    split
    · rename_i hprefix
      obtain ⟨hmode, t, rfl⟩ := hliteral hprefix
      simp [Evaluation.tableLiteral, hmode, hread, hv, Evaluation.echoing]
    split
    · simp [htext, hv]
    · simp [hread, hv, Evaluation.echoing]
  rw [evaluate, evaluateStatement, hstatement]
  simp [Evaluation.statement, hexpression, Except.map]

end Expression

end TableConsole
