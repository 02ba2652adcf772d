import TableConsole.Proofs.Except
import TableConsole.Proofs.Syntax.Identifier
import TableConsole.Session.Evaluate

/-! # Reading a bound name back

An assignment binds the name that it reports, and the name alone is a statement whose value is what
is bound. The words of the language are the exception, and so is what looks like a query: the left
side of a colon only has to be an identifier, and in front of a brace it does not even have to be
that.
-/

namespace TableConsole

set_option autoImplicit false

open Text

/-- An identifier that is no word of the language and does not start like a query. -/
structure Referable (name : String) : Prop where
  identifier : isIdentifier name.toList = true
  keyword : String.ofList (name.toList.map Char.toLower) ∉ keywords
  query : Statement.startsSelect name.toList = false

instance (name : String) : Decidable (Referable name) :=
  decidable_of_iff
    (isIdentifier name.toList = true ∧ String.ofList (name.toList.map Char.toLower) ∉ keywords ∧
      Statement.startsSelect name.toList = false)
    ⟨fun ⟨h, h', h''⟩ => ⟨h, h', h''⟩, fun ⟨h, h', h''⟩ => ⟨h, h', h''⟩⟩

namespace Referable

variable {name : String} (h : Referable name)

include h

theorem statement : Statement.ofText name = .expression name := by
  have hcolon : ':' ∉ name.toList := not_mem_of_isIdentifier h.identifier (by decide +kernel)
  have hbracket : '[' ∉ name.toList := not_mem_of_isIdentifier h.identifier (by decide +kernel)
  have hbinding : Statement.binding? name.toList = none := by
    simp [Statement.binding?, splitColon?, splitColonFrom_eq_none hcolon]
  have hcallee : Statement.callee? name.toList = none := by
    simp [Statement.callee?, hbracket]
  rw [Statement.ofText, isIdentifier_trim h.identifier, Statement.ofTrimmed]
  simp [hbinding, hcallee, h.query]

theorem tokens : Parser.tokens name = .ok [.name name] := by
  obtain ⟨n, hn⟩ : ∃ n, name.toList.length = n + 1 := by
    obtain ⟨_, cs, hcons, -, -⟩ := exists_cons_of_isIdentifier h.identifier
    exact ⟨cs.length, by rw [hcons, List.length_cons]⟩
  have hall : Lexer.readAll name.toList.length name.toList = .ok [.name name] := by
    have hread : Lexer.readAll (n + 1) (name.toList ++ []) = _ :=
      Lexer.readAll_identifier h.identifier rfl n
    rw [List.append_nil, Lexer.readAll_nil, wordToken_of_not_keyword h.keyword,
      String.ofList_toList] at hread
    rw [hn, hread]
    rfl
  rw [Parser.tokens, Token.ofText, Token.ofChars, hall]
  rfl

theorem expr : Expr.ofText name = .ok (.name name) := by
  rw [Expr.ofText, h.tokens]
  rfl

theorem evaluate (settings : Settings) {symbols : Symbols} {v : Value}
    (hv : symbols.get? name = some v) :
    TableConsole.evaluate settings symbols name = (.ok (.value v), symbols) := by
  obtain ⟨c, cs, hcons, hc, -⟩ := exists_cons_of_isIdentifier h.identifier
  have hmarks : ['(', '+', '-', '*', '/', '.'].all (!isWordStart ·) = true := by decide +kernel
  have hne : ∀ d ∈ ['(', '+', '-', '*', '/', '.'], c ≠ d := by
    rintro d hd rfl
    simpa [hc] using List.all_eq_true.mp hmarks c hd
  simp only [List.forall_mem_cons] at hne
  have hliteral : "([".isPrefixOf name = false := by
    simp [String.isPrefixOf, hcons, hne.1.symm]
  have harithmetic : Evaluation.isArithmetic name = false := by
    simp [Evaluation.isArithmetic, hcons, hne, Lexer.isDigit_of_isWordStart hc,
      isBlank_of_isWordChar (isWordChar_of_isWordStart hc)]
  have hvalue : (Expr.name name).eval (Evaluation.scope settings symbols) = .ok v := by
    simp [Expr.eval, Scope.resolve, Scope.symbol, Evaluation.scope, Scope.global, hv]
  have hread : Evaluation.readExpr name = .ok (.name name) := by
    rw [Evaluation.readExpr, h.expr]
    rfl
  have hexpression : Evaluation.expression settings symbols name = .ok v := by
    rw [Evaluation.expression]
    simp [hliteral, harithmetic, hread, hvalue, Evaluation.echoing]
  rw [TableConsole.evaluate, evaluateStatement, h.statement]
  simp [Evaluation.statement, hexpression, Except.map]

end Referable

section Bindings

variable {settings : Settings} {symbols : Symbols} {line name : String}

theorem get?_of_assigned {v : Value}
    (h : (evaluate settings symbols line).1 = .ok (.assigned name v)) :
    (evaluate settings symbols line).2.get? name = some v := by
  rw [evaluate, evaluateStatement] at h ⊢
  generalize Statement.ofText line = st at h ⊢
  cases st with
  | assignment target text =>
    simp only [Evaluation.statement, Evaluation.bind] at h ⊢
    split at h
    · rename_i w left _
      by_cases hw : Evaluation.isFunction w = true
      · simp [hw] at h
      · simp only [hw] at h
        cases h
        exact left.get?_insert_self name v
    · cases h
  | definition target source => cases h
  | call | query | expression =>
    obtain ⟨w, -, hw⟩ := Except.map_eq_ok_iff.mp h
    cases hw

theorem get?_of_defined (h : (evaluate settings symbols line).1 = .ok (.defined name)) :
    ∃ source, (evaluate settings symbols line).2.get? name = some (.function source) := by
  rw [evaluate, evaluateStatement] at h ⊢
  generalize Statement.ofText line = st at h ⊢
  cases st with
  | assignment target text =>
    simp only [Evaluation.statement, Evaluation.bind] at h ⊢
    split at h
    · rename_i w left _
      cases w with
      | function source =>
        cases h
        exact ⟨source, left.get?_insert_self name _⟩
      | atom | list | table => cases h
    · cases h
  | definition target source =>
    cases h
    exact ⟨source, symbols.get?_insert_self name _⟩
  | call | query | expression =>
    obtain ⟨w, -, hw⟩ := Except.map_eq_ok_iff.mp h
    cases hw

end Bindings

/-- If the line reports the name as bound, the name alone then has the bound value. -/
structure ReadsBack (settings : Settings) (symbols : Symbols) (line name : String) : Prop where
  assigned : ∀ v, (evaluate settings symbols line).1 = .ok (.assigned name v) →
    (evaluate settings symbols line).2.get? name = some v ∧
      (evaluate settings (evaluate settings symbols line).2 name).1 = .ok (.value v)
  defined : (evaluate settings symbols line).1 = .ok (.defined name) →
    ∃ source, (evaluate settings symbols line).2.get? name = some (.function source) ∧
      (evaluate settings (evaluate settings symbols line).2 name).1 = .ok (.value (.function source))

theorem bound_name_readsBack (settings : Settings) (symbols : Symbols) (line : String)
    {name : String} (hname : Referable name) : ReadsBack settings symbols line name where
  assigned v h := by
    have hbound := get?_of_assigned h
    exact ⟨hbound, by rw [hname.evaluate settings hbound]⟩
  defined h := by
    obtain ⟨source, hbound⟩ := get?_of_defined h
    exact ⟨source, hbound, by rw [hname.evaluate settings hbound]⟩

def Outcome.binding? : Outcome → Option (String × Bool)
  | .assigned name _ => some (name, false)
  | .defined name => some (name, true)
  | .value _ => none

theorem exists_assigned {result : Except EvalError Outcome} {name : String}
    (h : result.toOption.bind Outcome.binding? = some (name, false)) :
    ∃ v, result = .ok (.assigned name v) := by
  obtain ⟨outcome, hok, hbinding⟩ := Option.bind_eq_some_iff.mp h
  cases outcome with
  | assigned n v =>
    cases hbinding
    exact ⟨v, Except.toOption_eq_some_iff.mp hok⟩
  | defined | value => cases hbinding

theorem eq_defined {result : Except EvalError Outcome} {name : String}
    (h : result.toOption.bind Outcome.binding? = some (name, true)) :
    result = .ok (.defined name) := by
  obtain ⟨outcome, hok, hbinding⟩ := Option.bind_eq_some_iff.mp h
  cases outcome with
  | defined n =>
    cases hbinding
    exact Except.toOption_eq_some_iff.mp hok
  | assigned | value => cases hbinding

theorem bound_name_readsBack_chain :
    let chain := evaluate {} Sample.symbols "inner: t: select from trade"
    let definition := evaluate {} Sample.symbols "_by1\x7bx\x7d: x"
    Referable "inner" ∧ Referable "_by1" ∧
      (∃ v, chain.1 = .ok (.assigned "inner" v) ∧
        (evaluate {} chain.2 "inner").1 = .ok (.value v)) ∧
      definition.1 = .ok (.defined "_by1") ∧
      ∃ source, (evaluate {} definition.2 "_by1").1 = .ok (.value (.function source)) := by
  intro chain definition
  have hinner : Referable "inner" := by decide +kernel
  have hby : Referable "_by1" := by decide +kernel
  obtain ⟨v, hv⟩ : ∃ v, chain.1 = .ok (.assigned "inner" v) := exists_assigned (by decide +kernel)
  have hdefined : definition.1 = .ok (.defined "_by1") := eq_defined (by decide +kernel)
  have hchain := (bound_name_readsBack {} Sample.symbols _ hinner).assigned v hv
  obtain ⟨source, -, hsource⟩ :=
    (bound_name_readsBack {} Sample.symbols _ hby).defined hdefined
  exact ⟨hinner, hby, ⟨v, hv, hchain.2⟩, hdefined, source, hsource⟩

theorem not_readsBack {settings : Settings} {symbols : Symbols} {line name : String}
    (defines : Bool)
    (hbound : (evaluate settings symbols line).1.toOption.bind Outcome.binding? =
      some (name, defines))
    (hfails : (evaluate settings (evaluate settings symbols line).2 name).1.isOk = false) :
    ¬ ReadsBack settings symbols line name := by
  intro h
  cases defines with
  | false =>
    obtain ⟨v, hv⟩ := exists_assigned hbound
    rw [(h.assigned v hv).2] at hfails
    cases hfails
  | true =>
    obtain ⟨source, -, hsource⟩ := h.defined (eq_defined hbound)
    rw [hsource] at hfails
    cases hfails

/-- A name that starts like a query, a word of the language, and what is no identifier. -/
theorem bound_names_lost :
    ¬ ReadsBack {} .empty "selected: \x60a" "selected" ∧
      ¬ ReadsBack {} .empty "By: \x60a" "By" ∧
      ¬ ReadsBack {} .empty "a.b\x7bx\x7d: x" "a.b" := by
  refine ⟨?_, ?_, ?_⟩
  · exact not_readsBack false (by decide +kernel) (by decide +kernel)
  · exact not_readsBack false (by decide +kernel) (by decide +kernel)
  · exact not_readsBack true (by decide +kernel) (by decide +kernel)

end TableConsole
