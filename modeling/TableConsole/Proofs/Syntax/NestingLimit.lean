import Mathlib.Logic.Function.Iterate
import TableConsole.Proofs.Syntax.Acceptance
import TableConsole.Proofs.Syntax.Joining

/-! # How often an expression can be nested

Parentheses, negations, applications and the operators of a chain take one level each, and the
expression as a whole takes the first level. So they can be nested once less often than there are
levels.
-/

namespace TableConsole

set_option autoImplicit false

namespace Parser

open Grammar

variable {k n : Nat} {ts : List Token}

theorem chain_error {c : Chain} {x : SyntaxError} (h : phraseReader k c.operand ts = .error x) :
    phraseReader k (.chain c) ts = .error x := by
  rw [phraseReader_chain, h]
  rfl

theorem expression_error {x : SyntaxError} (h : phraseReader k (.chain .sum) ts = .error x) :
    phraseReader k .expression ts = .error x := by
  have hsum : (level k).nextAdditive ts = .error x := h
  simp only [phraseReader, Level.nextComparison, hsum, Except.error_bind]

theorem expression_error_of_unary {x : SyntaxError} (h : phraseReader k .unary ts = .error x) :
    phraseReader k .expression ts = .error x :=
  have hweighted : phraseReader k (.chain .weighted) ts = .error x := chain_error h
  have hproduct : phraseReader k (.chain .product) ts = .error x := chain_error hweighted
  expression_error (chain_error hproduct)

theorem phraseReader_unary_of_operandStart (hts : OperandStart ts) :
    phraseReader k .unary ts = phraseReader k .application ts := by
  cases hts <;> rfl

/-- Tokens of which each enters the phrase again one level down. -/
theorem replicate_tooDeep {ph : Phrase} {t : Token} (Start : List Token → Prop)
    (hstart : ∀ us, Start (t :: us))
    (hstep : ∀ k us, Start us → phraseReader k (.nested ph) us = .error .tooDeep →
      phraseReader k ph (t :: us) = .error .tooDeep)
    (hts : Start ts) (h : k < n) :
    phraseReader k ph (List.replicate n t ++ ts) = .error .tooDeep := by
  induction n generalizing k with
  | zero => exact absurd h (Nat.not_lt_zero k)
  | succ n ih =>
    have hrest : Start (List.replicate n t ++ ts) := by
      cases n with
      | zero => exact hts
      | succ n => exact hstart _
    refine hstep k _ hrest ?_
    cases k with
    | zero => rfl
    | succ k => exact ih (Nat.lt_of_succ_lt_succ h)

theorem parens_tooDeep (hts : PhraseStart ts) (h : k < n) :
    phraseReader k .expression (List.replicate n (.mark .openParen) ++ ts) = .error .tooDeep := by
  refine replicate_tooDeep PhraseStart (fun us => .operand (.paren us)) ?_ hts h
  intro k us hus hdeep
  rw [← level_comparison] at hdeep
  have hbracket := skip?_of_start hus (.inr rfl)
  have hparen := skip?_of_start hus (.inl .closeParen)
  have hread : (level k).nextParen us = .error .tooDeep := by
    simp [Level.nextParen, hbracket, hparen, separated, separatedWithin, hdeep]
  exact expression_error_of_unary hread

theorem signs_tooDeep (ts : List Token) (h : k < n) :
    phraseReader k .expression (List.replicate n (.mark .minus) ++ ts) = .error .tooDeep := by
  refine expression_error_of_unary ?_
  refine replicate_tooDeep (fun _ => True) (fun _ => trivial) ?_ trivial h
  intro k us _ hdeep
  have hoperand : (level k).unary us = .error .tooDeep :=
    (congrFun (level_operand k .weighted) us).trans hdeep
  simp [phraseReader, Level.nextUnary, hoperand]

theorem applications_tooDeep (f : String) (hts : OperandStart ts) (h : k < n) :
    phraseReader k .application (List.replicate n (.name f) ++ ts) = .error .tooDeep := by
  refine replicate_tooDeep OperandStart (.name f) ?_ hts h
  intro k us hus hdeep
  rw [← level_application] at hdeep
  simp [phraseReader, Level.nextApplication_juxtaposed hus, hdeep]

theorem read_summand (k : Nat) (x : String) {us : List Token}
    (hus : us = [] ∨ ∃ vs, us = .mark .plus :: vs) :
    phraseReader k Chain.sum.operand (.name x :: us) = .ok (.name x, us) := by
  refine reads_of_derives (derives_operand_name k .sum x) us ?_
  obtain rfl | ⟨vs, rfl⟩ := hus
  · exact .nil _
  · exact .cons (closes_chainOperator .plus) vs

def addends (x : String) (n : Nat) : List Token :=
  (List.replicate n [.mark .plus, .name x]).flatten

theorem addends_start (x : String) (n : Nat) :
    addends x n = [] ∨ ∃ us, addends x n = .mark .plus :: us := by
  cases n with
  | zero => exact .inl rfl
  | succ n => exact .inr ⟨_, rfl⟩

theorem addends_tooDeep (x : String) (left : Expr) (h : k < n) :
    phraseReader k (.links .sum left) (addends x n) = .error .tooDeep := by
  induction n generalizing k left with
  | zero => exact absurd h (Nat.not_lt_zero k)
  | succ n ih =>
    refine (Level.nextTail_link .plus left (.name x :: addends x n)).trans ?_
    simp only [level_operand, level_tail]
    cases k with
    | zero => rfl
    | succ k =>
      have hname : phraseReader (k + 1) (.nested Chain.sum.operand) (.name x :: addends x n) =
          .ok (.name x, addends x n) := read_summand k x (addends_start x n)
      rw [hname]
      exact ih _ (Nat.lt_of_succ_lt_succ h)

end Parser

/-- Parentheses around `1`, signs in front of it, applications `f f x`, and sums `x + x`. -/
inductive NestedForm
  | parens
  | signs
  | applications
  | sums

namespace NestedForm

def chars : NestedForm → Nat → List Char
  | parens, n => List.replicate n '(' ++ '1' :: List.replicate n ')'
  | signs, n => List.replicate n '-' ++ ['1']
  | applications, n => (List.replicate n ['f', ' ']).flatten ++ ['x']
  | sums, n => 'x' :: (List.replicate n [' ', '+', ' ', 'x']).flatten

def text (form : NestedForm) (n : Nat) : String :=
  String.ofList (form.chars n)

def tokens : NestedForm → Nat → List Token
  | parens, n =>
    List.replicate n (.mark .openParen) ++
      .literal (.number 1) :: List.replicate n (.mark .closeParen)
  | signs, n => List.replicate n (.mark .minus) ++ [.literal (.number 1)]
  | applications, n => List.replicate n (.name "f") ++ [.name "x"]
  | sums, n => .name "x" :: Parser.addends "x" n

def tree : NestedForm → Nat → Expr
  | parens, _ => .literal (.number 1)
  | signs, n => Expr.negate^[n] (.literal (.number 1))
  | applications, n => (fun e => .apply "f" [e])^[n] (.name "x")
  | sums, n => (fun e => .binary (.elementwise (.arithmetic .add)) e (.name "x"))^[n] (.name "x")

section Lexing

open Lexer Text

theorem lexes_replicate {c : Char} {t : Token} (hc : isBlank c = false)
    (hread : ∀ cs, read c cs = .ok (t, cs)) {cs : List Char} {ts : List Token} (h : Lexes cs ts)
    (n : Nat) : Lexes (List.replicate n c ++ cs) (List.replicate n t ++ ts) := by
  induction n with
  | zero => exact h
  | succ n ih => exact .cons hc (hread _) ih

theorem lexes_one : Lexes ['1'] [.literal (.number 1)] := rfl

theorem lexes_parens (n : Nat) : Lexes (parens.chars n) (parens.tokens n) := by
  have hclosing : Lexes (List.replicate n ')') (List.replicate n (.mark .closeParen)) := by
    simpa using lexes_replicate rfl (fun _ => rfl) .nil n
  have hapart : Apart (List.replicate n ')') := by
    cases n with
    | zero => exact nofun
    | succ n => exact apart_cons rfl _
  exact lexes_replicate rfl (fun _ => rfl) (lexes_one.append hclosing hapart) n

theorem lexes_signs (n : Nat) : Lexes (signs.chars n) (signs.tokens n) :=
  lexes_replicate rfl (fun _ => rfl) lexes_one n

theorem lexes_applications (n : Nat) : Lexes (applications.chars n) (applications.tokens n) := by
  induction n with
  | zero => rfl
  | succ n ih =>
    have hname : Lexes ['f'] [.name "f"] := rfl
    exact hname.append (ih.blank rfl) (apart_cons rfl _)

theorem lexes_sums (n : Nat) : Lexes (sums.chars n) (sums.tokens n) := by
  have hname : Lexes ['x'] [.name "x"] := rfl
  induction n with
  | zero => exact hname
  | succ n ih => exact hname.append (.blank rfl (.cons rfl rfl (ih.blank rfl))) (apart_cons rfl _)

theorem lexes (form : NestedForm) (n : Nat) : Lexes (form.chars n) (form.tokens n) := by
  cases form with
  | parens => exact lexes_parens n
  | signs => exact lexes_signs n
  | applications => exact lexes_applications n
  | sums => exact lexes_sums n

end Lexing

section Trees

open Grammar

theorem derives_parens (n : Nat) : Derives n .primary (parens.tokens n) (parens.tree n) := by
  induction n with
  | zero => exact .literal _
  | succ n ih =>
    have htokens : parens.tokens (n + 1) =
        .mark .openParen :: (parens.tokens n ++ [.mark .closeParen]) := by
      rw [tokens, List.replicate_succ, List.replicate_succ', tokens]
      simp
    rw [htokens]
    exact .paren ih.expression_of_primary

theorem derives_signs (n : Nat) : Derives n .unary (signs.tokens n) (signs.tree n) := by
  induction n with
  | zero => exact .applied (.plain (.literal _))
  | succ n ih =>
    rw [tree, Function.iterate_succ_apply']
    exact .negate (.nested ih)

theorem operandStart_applications (n : Nat) : OperandStart (applications.tokens n) := by
  cases n <;> exact .name _ _

theorem derives_applications (n : Nat) :
    Derives n .application (applications.tokens n) (applications.tree n) := by
  induction n with
  | zero => exact .plain (.name "x")
  | succ n ih =>
    rw [tree, Function.iterate_succ_apply']
    exact .juxtaposed (operandStart_applications n) (.nested ih)

theorem derives_addends (x : String) (n : Nat) (left : Expr) :
    Derives n (.links .sum left) (Parser.addends x n)
      ((fun e => .binary (.elementwise (.arithmetic .add)) e (.name x))^[n] left) := by
  induction n generalizing left with
  | zero => exact .noLinks
  | succ n ih => exact .link .plus (.nested (derives_operand_name n .sum x)) (.nested (ih _))

theorem derives (form : NestedForm) (n : Nat) :
    DerivesExpr (n + 1) (form.tokens n) (form.tree n) := by
  cases form with
  | parens => exact (derives_parens n).expression_of_primary
  | signs => exact (derives_signs n).expression_of_unary
  | applications => exact (Derives.applied (derives_applications n)).expression_of_unary
  | sums =>
    exact .nested (.alone (.chain (derives_operand_name n .sum "x") (derives_addends "x" n _)))

end Trees

theorem expression_tooDeep (form : NestedForm) {k n : Nat} (h : k < n) :
    Parser.phraseReader k .expression (form.tokens n) = .error .tooDeep := by
  cases form with
  | parens => exact Parser.parens_tooDeep (.operand (.literal _ _)) h
  | signs => exact Parser.signs_tooDeep _ h
  | applications =>
    refine Parser.expression_error_of_unary ?_
    rw [Parser.phraseReader_unary_of_operandStart (operandStart_applications n)]
    exact Parser.applications_tooDeep "f" (.name "x" []) h
  | sums =>
    refine Parser.expression_error ?_
    rw [Parser.phraseReader_chain]
    exact (congrArg (· >>= _) (Parser.read_summand k "x" (Parser.addends_start "x" n))).trans
      (Parser.addends_tooDeep "x" _ h)

/-- One level is taken by the expression itself. -/
theorem ofText_text (form : NestedForm) (n : Nat) :
    Expr.ofText (form.text n) =
      if n < maxNesting then .ok (form.tree n) else .error .tooDeep := by
  have htokens : Parser.tokens (form.text n) = .ok (form.tokens n) := by
    rw [Parser.tokens, Token.ofText_of_lexes (by rw [text, String.toList_ofList]; exact form.lexes n)]
    rfl
  rw [Expr.ofText, htokens, Except.ok_bind]
  by_cases h : n < maxNesting
  · rw [if_pos h]
    exact (Parser.parseExpr_gives (form.derives n)).resolve_right fun hdeep =>
      Nat.not_lt_of_le h hdeep.1
  · have hdeep : Parser.expression (form.tokens n) = .error .tooDeep :=
      form.expression_tooDeep (k := 127) (Nat.le_of_not_lt h)
    rw [if_neg h, Parser.parseExpr, hdeep]
    rfl

end NestedForm

end TableConsole
