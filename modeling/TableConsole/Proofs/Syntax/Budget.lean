import TableConsole.Proofs.Except
import TableConsole.Proofs.Syntax.PhraseReader

/-! # More levels

A reader with fewer levels gives the same result as one with more, or finds the nesting too deep.
-/

namespace TableConsole.Parser

open Grammar

set_option autoImplicit false

def Within {α : Type} (x y : Except SyntaxError α) : Prop :=
  x = .error .tooDeep ∨ x = y

theorem Within.refl {α : Type} (x : Except SyntaxError α) : Within x x :=
  .inr rfl

theorem Within.bind {α β : Type} {x y : Except SyntaxError α} {f g : α → Except SyntaxError β}
    (hxy : Within x y) (hfg : ∀ a, Within (f a) (g a)) : Within (x >>= f) (y >>= g) := by
  obtain rfl | rfl := hxy
  · exact .inl rfl
  · cases x with
    | error e => exact .refl _
    | ok a => exact hfg a

def ReaderWithin {α : Type} (r s : Reader α) : Prop :=
  ∀ ts, Within (r ts) (s ts)

theorem separatedWithin_within {α : Type} {r s : Reader α} (h : ReaderWithin r s) (m : Mark)
    (limit : Nat) : ReaderWithin (separatedWithin r m limit) (separatedWithin s m limit) := by
  induction limit with
  | zero => exact fun ts => .refl _
  | succ limit ih =>
    intro ts
    refine (h ts).bind ?_
    rintro ⟨x, us⟩
    dsimp only
    split
    · exact .refl _
    · exact (ih _).bind fun _ => .refl _

theorem separated_within {α : Type} {r s : Reader α} (h : ReaderWithin r s) (m : Mark) :
    ReaderWithin (separated r m) (separated s m) :=
  fun ts => separatedWithin_within h m (ts.length + 1) ts

theorem columnsWithin_within {r s : Reader Expr} (h : ReaderWithin r s) (closing : Mark)
    (limit : Nat) : ReaderWithin (columnsWithin r closing limit) (columnsWithin s closing limit) := by
  induction limit with
  | zero => exact fun ts => .refl _
  | succ limit ih =>
    intro ts
    unfold columnsWithin
    split
    · exact .refl _
    · refine (Within.refl _).bind fun _ => (Within.refl _).bind fun us => (h us).bind ?_
      rintro ⟨e, vs⟩
      dsimp only
      split
      · exact .refl _
      · exact (ih _).bind fun _ => .refl _

theorem columns_within {r s : Reader Expr} (h : ReaderWithin r s) (closing : Mark) :
    ReaderWithin (columns r closing) (columns s closing) :=
  fun ts => columnsWithin_within h closing (ts.length + 1) ts

def WithinBelow (n m : Nat) : Prop :=
  ∀ ph, ReaderWithin (phraseReader n (.nested ph)) (phraseReader m (.nested ph))

namespace WithinBelow

variable {n m : Nat} (h : WithinBelow n m)
include h

theorem comparison : ReaderWithin (level n).comparison (level m).comparison := by
  rw [level_comparison, level_comparison]
  exact h .expression

theorem application : ReaderWithin (level n).application (level m).application := by
  rw [level_application, level_application]
  exact h .application

theorem operand (c : Chain) : ReaderWithin ((level n).operand c) ((level m).operand c) := by
  rw [level_operand, level_operand]
  exact h c.operand

theorem tail (c : Chain) (left : Expr) :
    ReaderWithin ((level n).tail c left) ((level m).tail c left) := by
  rw [level_tail, level_tail]
  exact h (.links c left)

theorem nextArguments : ReaderWithin (level n).nextArguments (level m).nextArguments := by
  intro ts
  unfold Level.nextArguments
  split
  · exact .refl _
  · exact (separated_within h.comparison .semicolon ts).bind fun _ => .refl _

theorem nextTable : ReaderWithin (level n).nextTable (level m).nextTable := by
  intro ts
  exact (columns_within h.comparison .closeBracket ts).bind fun _ => (Within.refl _).bind fun us =>
    (columns_within h.comparison .closeParen us).bind fun _ => .refl _

theorem nextParen : ReaderWithin (level n).nextParen (level m).nextParen := by
  intro ts
  unfold Level.nextParen
  split
  · exact h.nextTable _
  · split
    · exact .refl _
    · exact (separated_within h.comparison .semicolon ts).bind fun _ => .refl _

theorem nextPrimary : ReaderWithin (level n).nextPrimary (level m).nextPrimary := by
  intro ts
  unfold Level.nextPrimary
  split
  · exact .refl _
  · exact .refl _
  · exact .refl _
  · exact h.nextParen _
  · exact .refl _

theorem nextApplication : ReaderWithin (level n).nextApplication (level m).nextApplication := by
  intro ts
  unfold Level.nextApplication
  split
  · exact (h.nextArguments _).bind fun _ => .refl _
  · exact (h.nextArguments _).bind fun _ => .refl _
  · split
    · exact (h.application _).bind fun _ => .refl _
    · exact .refl _
  · exact h.nextPrimary _

theorem nextUnary : ReaderWithin (level n).nextUnary (level m).nextUnary := by
  intro ts
  unfold Level.nextUnary
  split
  · exact (h.operand .weighted _).bind fun _ => .refl _
  · exact h.nextApplication ts

theorem nextTail (c : Chain) (left : Expr) :
    ReaderWithin ((level n).nextTail c left) ((level m).nextTail c left) := by
  intro ts
  unfold Level.nextTail Level.chain
  split
  · exact .refl _
  · split
    · exact .refl _
    · exact (h.operand c _).bind fun _ => h.tail c _ _

theorem chain (c : Chain)
    (hoperand : ReaderWithin (phraseReader n c.operand) (phraseReader m c.operand)) :
    ReaderWithin (phraseReader n (.chain c)) (phraseReader m (.chain c)) := by
  intro ts
  rw [phraseReader_chain, phraseReader_chain]
  exact (hoperand ts).bind fun _ => h.nextTail c _ _

theorem weighted :
    ReaderWithin (phraseReader n (.chain .weighted)) (phraseReader m (.chain .weighted)) :=
  h.chain .weighted h.nextUnary

theorem product :
    ReaderWithin (phraseReader n (.chain .product)) (phraseReader m (.chain .product)) :=
  h.chain .product h.weighted

theorem sum : ReaderWithin (phraseReader n (.chain .sum)) (phraseReader m (.chain .sum)) :=
  h.chain .sum h.product

theorem nextComparison : ReaderWithin (level n).nextComparison (level m).nextComparison := by
  intro ts
  refine (h.sum ts).bind ?_
  rintro ⟨left, us⟩
  dsimp only
  split
  · exact .refl _
  · split
    · exact .refl _
    · exact (h.sum _).bind fun _ => .refl _

theorem phrase (ph : Phrase) : ReaderWithin (phraseReader n ph) (phraseReader m ph) := by
  cases ph with
  | expression => exact h.nextComparison
  | chain c =>
    cases c with
    | sum => exact h.sum
    | product => exact h.product
    | weighted => exact h.weighted
  | links c left => exact h.nextTail c left
  | unary => exact h.nextUnary
  | application => exact h.nextApplication
  | primary => exact h.nextPrimary
  | nested ph => exact h ph

end WithinBelow

theorem withinBelow {n m : Nat} (h : n ≤ m) : WithinBelow n m := by
  induction n generalizing m with
  | zero => exact fun ph ts => .inl rfl
  | succ n ih =>
    obtain ⟨k, rfl⟩ : ∃ k, m = k + 1 := ⟨m - 1, by omega⟩
    exact (ih (Nat.le_of_succ_le_succ h)).phrase

end TableConsole.Parser
