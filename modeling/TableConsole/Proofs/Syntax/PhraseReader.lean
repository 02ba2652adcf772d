import TableConsole.Syntax.Parser
import TableConsole.Proofs.Syntax.Grammar

/-! # The readers of the phrases

The readers by the phrase of the grammar that they read, and the operators that they look for. With
`n` levels left, what is entered one level down is what the phrase is with one level less.
-/

namespace TableConsole.Parser

open Grammar

set_option autoImplicit false

def chainOp? : Chain → Token → Option BinOp
  | .sum => Level.additiveOp?
  | .product => Level.multiplicativeOp?
  | .weighted => Level.weightedOp?

theorem chainOp?_eq_some_iff {c : Chain} {t : Token} {op : BinOp} :
    chainOp? c t = some op ↔ ∃ m, t = .mark m ∧ ChainOperator c m op := by
  constructor
  · intro h
    cases c <;> simp only [chainOp?, Level.additiveOp?, Level.multiplicativeOp?,
      Level.weightedOp?] at h <;> split at h <;> cases h <;> exact ⟨_, rfl, by constructor⟩
  · rintro ⟨m, rfl, h⟩
    cases h <;> rfl

theorem comparisonOp?_eq_some_iff {t : Token} {op : BinOp} :
    Level.comparisonOp? t = some op ↔ ∃ m, t = .mark m ∧ ComparisonOperator m op := by
  constructor
  · intro h
    unfold Level.comparisonOp? at h
    split at h <;> cases h <;> exact ⟨_, rfl, by constructor⟩
  · rintro ⟨m, rfl, h⟩
    cases h <;> rfl

theorem startsOperand_iff {t : Token} {ts : List Token} :
    t.startsOperand = true ↔ OperandStart (t :: ts) := by
  constructor
  · intro h
    cases t with
    | literal a => exact .literal a ts
    | function source => exact .function source ts
    | name n => exact .name n ts
    | mark m =>
      obtain rfl : m = .openParen := by simpa [Token.startsOperand] using h
      exact .paren ts
  · intro h
    cases h <;> rfl

theorem skip?_eq_some_iff {m : Mark} {ts us : List Token} :
    skip? m ts = some us ↔ ts = .mark m :: us := by
  unfold skip?
  split
  · split <;> simp_all [eq_comm]
  · rename_i h
    simp only [reduceCtorEq, false_iff]
    rintro rfl
    exact h _ _ rfl

@[simp] theorem skip?_self (m : Mark) (ts : List Token) : skip? m (.mark m :: ts) = some ts :=
  skip?_eq_some_iff.mpr rfl

theorem expect_eq_ok_iff {m : Mark} {e : Expectation} {ts us : List Token} :
    expect m e ts = .ok us ↔ ts = .mark m :: us := by
  rw [← skip?_eq_some_iff]
  unfold expect
  split <;> simp_all

@[simp] theorem expect_self (m : Mark) (e : Expectation) (ts : List Token) :
    expect m e (.mark m :: ts) = .ok ts :=
  expect_eq_ok_iff.mpr rfl

theorem expectName_eq_ok_iff {e : Expectation} {n : String} {ts us : List Token} :
    expectName e ts = .ok (n, us) ↔ ts = .name n :: us := by
  unfold expectName
  split
  · simp
  · rename_i h
    simp only [reduceCtorEq, false_iff]
    rintro rfl
    exact h _ _ rfl

namespace Level

def operand (l : Level) : Chain → Reader Expr
  | .sum => l.multiplicative
  | .product => l.weighted
  | .weighted => l.unary

def tail (l : Level) : Chain → Expr → Reader Expr
  | .sum => l.additiveTail
  | .product => l.multiplicativeTail
  | .weighted => l.weightedTail

def nextTail (inner : Level) (c : Chain) : Expr → Reader Expr :=
  chain (chainOp? c) (inner.operand c) (inner.tail c)

def nextChain (inner : Level) : Chain → Reader Expr
  | .sum => inner.nextAdditive
  | .product => inner.nextMultiplicative
  | .weighted => inner.nextWeighted

end Level

/-- The reader of a phrase that has so many levels left. -/
def phraseReader : Nat → Phrase → Reader Expr
  | n, .expression => (level n).nextComparison
  | n, .chain c => (level n).nextChain c
  | n, .links c left => (level n).nextTail c left
  | n, .unary => (level n).nextUnary
  | n, .application => (level n).nextApplication
  | n, .primary => (level n).nextPrimary
  | 0, .nested _ => fun _ => .error .tooDeep
  | n + 1, .nested ph => phraseReader n ph
termination_by structural _ ph => ph

theorem level_comparison (n : Nat) :
    (level n).comparison = phraseReader n (.nested .expression) := by
  cases n <;> rfl

theorem level_application (n : Nat) :
    (level n).application = phraseReader n (.nested .application) := by
  cases n <;> rfl

theorem level_operand (n : Nat) (c : Chain) :
    (level n).operand c = phraseReader n (.nested c.operand) := by
  cases n <;> cases c <;> rfl

theorem level_tail (n : Nat) (c : Chain) (left : Expr) :
    (level n).tail c left = phraseReader n (.nested (.links c left)) := by
  cases n <;> cases c <;> rfl

theorem phraseReader_chain (n : Nat) (c : Chain) (ts : List Token) :
    phraseReader n (.chain c) ts = (do
      let (left, us) ← phraseReader n c.operand ts
      phraseReader n (.links c left) us) := by
  cases c <;> rfl

end TableConsole.Parser
