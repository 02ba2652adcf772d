import TableConsole.Proofs.Eval.RowLocal
import TableConsole.Proofs.Syntax.Identifier
import TableConsole.Proofs.Syntax.Soundness
import TableConsole.Proofs.Value.KeyEquivalence
import TableConsole.Session.Evaluate

/-! # Arithmetic of literals

A text of digits, points, operators and blanks has neither names nor brackets among its tokens. So
its expression is put together from literals with signs and arithmetic operators, and only one thing
can go wrong with its value: operands that do not fit each other.
-/

namespace TableConsole

set_option autoImplicit false

/-- Operands of the wrong kinds, or lists of different lengths. -/
inductive EvalError.Mismatch : EvalError → Prop
  | type (f : TypeFault) : Mismatch (.type f)
  | length (expected found : Nat) : Mismatch (.length expected found)

theorem EvalError.Mismatch.not_isDegradable {e : EvalError} (h : e.Mismatch) :
    e.isDegradable = false := by
  cases h <;> rfl

abbrev Fits (r : Except EvalError Value) : Prop :=
  Except.FailsOnly EvalError.Mismatch r

theorem Value.overLists_fits {f : Value → Except EvalError Value} (hf : ∀ v, Fits (f v))
    (v : Value) : Fits (v.overLists f) := by
  induction v using Value.memberInduction with
  | atom a => exact hf (.atom a)
  | table t => exact hf (.table t)
  | function source => exact hf (.function source)
  | list items ih =>
    rw [Value.overLists_list]
    exact (Except.FailsOnly.mapM ih).map Value.list

theorem Value.negate_fits (v : Value) : Fits v.negate := by
  refine Value.overLists_fits (fun v => ?_) v
  rw [negateAtom.eq_def]
  split
  · exact .ok _
  · exact .error (.type _)

namespace AtomOp

variable (op : AtomOp)

theorem onAtoms_fits (a b : Value) : Fits (op.onAtoms a b) := by
  cases op with
  | arithmetic f =>
    rw [onAtoms]
    split
    · exact .ok _
    · exact .error (.type _)
  | equal | notEqual => exact .ok _
  | compare c =>
    have hcompare : Except.FailsOnly EvalError.Mismatch (c.apply a b) := by
      rw [Comparison.apply]
      split
      · exact .ok _
      · split
        · exact .ok _
        · exact .error (.type _)
    exact hcompare.map Value.boolean

theorem onUnlisted_fits (a b : Value) : Fits (op.onUnlisted a b) := by
  rw [onUnlisted.eq_def]
  split
  · exact .error (.type _)
  · exact .error (.type _)
  · exact op.onAtoms_fits a b

theorem apply_fits (a b : Value) : Fits (op.apply a b) := by
  induction a using Value.memberInduction generalizing b with
  | table t => exact .error (.type _)
  | atom | function =>
    rw [op.apply_of_isAtom_left rfl]
    exact Value.overLists_fits (op.onUnlisted_fits _) b
  | list as ih =>
    cases b with
    | table t => exact .error (.type _)
    | atom | function =>
      rw [op.apply_list_of_isAtom as rfl]
      exact Value.overLists_fits (op.onUnlisted_fits · _) _
    | list bs =>
      by_cases hlength : as.length = bs.length
      · rw [op.apply_list_list hlength]
        exact (Except.FailsOnly.mapM fun p hp => ih p.1 (List.of_mem_zip hp).1 p.2).map
          Value.list
      · rw [apply, if_neg hlength]
        exact .error (.length _ _)

end AtomOp

/-- Literals alone or next to each other, signs and arithmetic operators. -/
inductive Expr.Arithmetic : Expr → Prop
  | literal (a : Atom) : Arithmetic (.literal a)
  | vector (as : List Atom) : Arithmetic (.list (as.map .literal))
  | negate {e : Expr} : Arithmetic e → Arithmetic (.negate e)
  | binary (f : Number.Operation) {l r : Expr} : Arithmetic l → Arithmetic r →
      Arithmetic (.binary (.elementwise (.arithmetic f)) l r)

theorem Expr.Arithmetic.fits {e : Expr} (h : e.Arithmetic) (s : Scope) : Fits (e.eval s) := by
  induction h with
  | literal a => exact .ok _
  | vector as =>
    rw [eval_literals]
    exact .ok _
  | negate _ ih =>
    rw [Expr.eval]
    exact ih.bind fun v _ => v.negate_fits
  | binary f _ _ ihl ihr =>
    rw [Expr.eval]
    exact ihl.bind fun a _ => ihr.bind fun b _ => (AtomOp.arithmetic f).apply_fits a b

def Token.isArithmetic : Token → Bool
  | .literal _ | .mark .plus | .mark .minus | .mark .star | .mark .slash => true
  | _ => false

namespace Grammar

/-- The tree in front of the links of a chain. -/
def Phrase.LeftArithmetic : Phrase → Prop
  | .links _ left => left.Arithmetic
  | .nested ph => ph.LeftArithmetic
  | _ => True

theorem Chain.operand_leftArithmetic (c : Chain) : c.operand.LeftArithmetic := by
  cases c <;> trivial

theorem ChainOperator.arithmetic {c : Chain} {m : Mark} {op : BinOp} (h : ChainOperator c m op)
    (hm : (Token.mark m).isArithmetic = true) : ∃ f, op = .elementwise (.arithmetic f) := by
  cases h with
  | plus | minus | star | slash | percent => exact ⟨_, rfl⟩
  | wavg => cases hm

theorem Derives.arithmetic {n : Nat} {ph : Phrase} {ts : List Token} {e : Expr}
    (h : Derives n ph ts e) (hts : ∀ t ∈ ts, t.isArithmetic = true) (hph : ph.LeftArithmetic) :
    e.Arithmetic := by
  induction h with
  | nested _ ih => exact ih hts hph
  | alone _ ih => exact ih hts trivial
  | comparison hm _ _ _ _ =>
    have hmark := hts _ (List.mem_append_right _ List.mem_cons_self)
    cases hm <;> cases hmark
  | @chain _ c _ _ _ _ _ _ ihoperand ihlinks =>
    obtain ⟨hoperand, hlinks⟩ := List.forall_mem_append.mp hts
    exact ihlinks hlinks (ihoperand hoperand c.operand_leftArithmetic)
  | noLinks => exact hph
  | @link _ c _ _ _ _ _ _ _ hm _ _ ihoperand ihlinks =>
    obtain ⟨hmark, hrest⟩ := List.forall_mem_cons.mp hts
    obtain ⟨hoperand, hlinks⟩ := List.forall_mem_append.mp hrest
    obtain ⟨f, rfl⟩ := hm.arithmetic hmark
    exact ihlinks hlinks (.binary f hph (ihoperand hoperand c.operand_leftArithmetic))
  | negate _ ih => exact .negate (ih (List.forall_mem_cons.mp hts).2 trivial)
  | applied _ ih => exact ih hts trivial
  | plain _ ih => exact ih hts trivial
  | literal a => exact .literal a
  | vector _ => exact .vector _
  | call hhead _ _ => cases hhead <;> cases hts _ List.mem_cons_self
  | juxtaposed | function | name | emptyList | paren | list | table =>
    cases hts _ List.mem_cons_self

end Grammar

namespace Evaluation

open Text Lexer

def isArithmeticChar (c : Char) : Bool :=
  c.isDigit || c == '+' || c == '-' || c == '*' || c == '/' || c == '.' || isBlank c

theorem not_isArithmeticChar_of_isWordStart {c : Char} (h : isWordStart c = true) :
    isArithmeticChar c = false := by
  have hblank : isBlank c = false := isBlank_of_isWordChar (isWordChar_of_isWordStart h)
  have hmarks : c ∉ ['+', '-', '*', '/', '.'] := fun hmem => by
    have hall : ['+', '-', '*', '/', '.'].all (!isWordStart ·) = true := by decide +kernel
    simpa [h] using List.all_eq_true.mp hall c hmem
  simpa [isArithmeticChar, isDigit_of_isWordStart h, hblank, and_assoc] using hmarks

theorem arithmetic_of_word {word : List Char} {t : Token} (h : Word word t)
    (hword : ∀ c ∈ word, isArithmeticChar c = true) : t.isArithmetic = true := by
  have absent {c : Char} {cs : List Char} (hcs : word = c :: cs)
      (hc : isArithmeticChar c = false) : t.isArithmetic = true := by
    rw [hword c (hcs ▸ List.mem_cons_self)] at hc
    cases hc
  cases h with
  | numeric => rfl
  | less | notEqual | lessEqual | greater | greaterEqual | text | symbol | function =>
    exact absent rfl (by decide)
  | punctuation hm =>
    have hc := hword _ List.mem_cons_self
    rw [punctuation?.eq_def] at hm
    split at hm <;> cases hm <;> revert hc <;> decide
  | identifier hidentifier =>
    obtain ⟨c, cs, rfl, hc, -⟩ := exists_cons_of_isIdentifier hidentifier
    exact absent rfl (not_isArithmeticChar_of_isWordStart hc)

theorem arithmetic_of_lexemes {cs : List Char} {ts : List Token} (h : Lexemes cs ts)
    (hcs : ∀ c ∈ cs, isArithmeticChar c = true) : ∀ t ∈ ts, t.isArithmetic = true := by
  induction h with
  | none _ => exact List.forall_mem_nil _
  | more _ hword _ ih =>
    obtain ⟨-, hcs⟩ := List.forall_mem_append.mp hcs
    obtain ⟨hchars, hrest⟩ := List.forall_mem_append.mp hcs
    exact List.forall_mem_cons.mpr ⟨arithmetic_of_word hword hchars, ih hrest⟩

theorem arithmetic_of_isArithmetic {text : String} {e : Expr} (htext : isArithmetic text = true)
    (he : Expr.ofText text = .ok e) : e.Arithmetic := by
  obtain ⟨ts, hts, hparse⟩ := Except.bind_eq_ok_iff.mp he
  have hchars : ∀ c ∈ text.toList, isArithmeticChar c = true :=
    List.all_eq_true.mp (Bool.and_eq_true_iff.mp htext).2
  have htokens := arithmetic_of_lexemes
    (Token.lexemes_ofText (Except.mapError_eq_ok_iff.mp hts)) hchars
  exact (Parser.derives_of_parseExpr hparse).arithmetic htokens trivial

end Evaluation

end TableConsole
