import Mathlib.Order.Bounds.Basic
import Mathlib.Order.Nat
import Mathlib.Tactic.Ring
import TableConsole.Proofs.Syntax.Acceptance
import TableConsole.Proofs.Syntax.Identifier
import TableConsole.Proofs.Syntax.Joining
import TableConsole.Proofs.Syntax.OperatorPaths

/-! # How deep operators stand in an expression

The levels of nesting do not bound the paths of a tree. A link of a chain takes a level only until
the chain ends, and the left operand of the chain, which was read before with all the levels, comes
to stand below all of its links. So three chains can be stacked at every level, and the depth grows
with the square of the levels. What the levels do bound is the number of operators on a path that
are not passed on their left.
-/

namespace TableConsole

set_option autoImplicit false

variable {w : Nat}

namespace Grammar

/-- An operand without operators around it. At no level there is still the call without arguments;
a call at a further level is around a sum of products of weighted averages. -/
def operandBound (w : Nat) : Nat → Nat
  | 0 => 1
  | n + 1 => operandBound w n + 3 * (w * n) + 1

def Phrase.bound (w : Nat) : Phrase → Nat → Nat
  | .expression, n => operandBound w n + 3 * (w * n)
  | .chain c, n => operandBound w n + c.tighter * (w * n) + w * n
  | .links c l, n => max (l.pathWeight w) (operandBound w n + c.tighter * (w * n)) + w * n
  | .unary, n | .application, n | .primary, n => operandBound w n
  | .nested _, 0 => 0
  | .nested ph, n + 1 => ph.bound w n

theorem bound_operand (w n : Nat) (c : Chain) :
    c.operand.bound w n = operandBound w n + c.tighter * (w * n) := by
  cases c with
  | weighted => simp [Chain.operand, Phrase.bound, Chain.tighter]
  | product => simp [Chain.operand, Phrase.bound, Chain.tighter]
  | sum =>
    simp only [Chain.operand, Phrase.bound, Chain.tighter]
    omega

theorem bound_nested_expression (w n : Nat) :
    (Phrase.nested .expression).bound w n + 1 = operandBound w n := by
  cases n <;> rfl

theorem succ_bound_nested_le (w n : Nat) {ph : Phrase} (hph : ph = .unary ∨ ph = .application) :
    (Phrase.nested ph).bound w n + 1 ≤ operandBound w n := by
  cases n with
  | zero => exact Nat.le_refl 1
  | succ n =>
    have hbound : ph.bound w n = operandBound w n := by obtain rfl | rfl := hph <;> rfl
    rw [Phrase.bound, hbound, operandBound]
    omega

theorem link_bound (n : Nat) (c : Chain) {op : BinOp} {l r : Expr} {d : Nat}
    (hop : op.isChained = true) (hr : r.pathWeight w ≤ (Phrase.nested c.operand).bound w n)
    (hd : d ≤ (Phrase.nested (.links c (.binary op l r))).bound w n) :
    d ≤ (Phrase.links c l).bound w n := by
  cases n with
  | zero => exact hd.trans (Nat.zero_le _)
  | succ n =>
    rw [Phrase.bound, bound_operand] at hr
    rw [Phrase.bound, Phrase.bound, Expr.pathWeight, if_pos hop] at hd
    have hmono : operandBound w n + c.tighter * (w * n) + 1 ≤
        operandBound w (n + 1) + c.tighter * (w * (n + 1)) := by
      rw [operandBound, Nat.mul_succ, Nat.mul_add]
      omega
    rw [Phrase.bound, Nat.mul_succ] at *
    omega

theorem pathWeight_le {n : Nat} {ph : Phrase} {ts : List Token} {e : Expr}
    (h : Derives n ph ts e) : e.pathWeight w ≤ ph.bound w n := by
  induction h with
  | nested _ ih => exact ih
  | alone _ ih =>
    simp only [Phrase.bound, Chain.tighter] at ih ⊢
    omega
  | comparison hop _ _ ihl ihr =>
    simp only [Phrase.bound, Chain.tighter] at ihl ihr ⊢
    simp only [Expr.pathWeight, hop.not_isChained, Bool.false_eq_true, if_false]
    omega
  | chain _ _ ihl ihe =>
    rw [bound_operand] at ihl
    rwa [Phrase.bound, max_eq_right ihl] at ihe
  | noLinks =>
    rw [Phrase.bound]
    omega
  | link hm _ _ ihr ihe => exact link_bound _ _ hm.isChained ihr ihe
  | negate _ ih =>
    rw [Expr.pathWeight]
    exact (Nat.succ_le_succ ih).trans (succ_bound_nested_le w _ (.inl rfl))
  | applied _ ih => exact ih
  | call _ _ ih =>
    rw [Expr.pathWeight, Phrase.bound, ← bound_nested_expression]
    exact Nat.succ_le_succ (itemsWeight_le_iff.mpr (List.forall_mem_map.mpr ih))
  | juxtaposed _ _ ih =>
    rw [Expr.pathWeight]
    refine (Nat.succ_le_succ ?_).trans (succ_bound_nested_le w _ (.inr rfl))
    exact itemsWeight_le_iff.mpr (List.forall_mem_singleton.mpr ih)
  | plain _ ih => exact ih
  | literal | function | name => exact Nat.zero_le _
  | vector =>
    refine itemsWeight_le_iff.mpr (List.forall_mem_map.mpr fun a _ => ?_)
    exact Nat.zero_le _
  | emptyList => exact Nat.zero_le _
  | paren _ ih =>
    rw [Phrase.bound, ← bound_nested_expression]
    exact ih.trans (Nat.le_succ _)
  | list _ _ ih =>
    rw [Phrase.bound, ← bound_nested_expression]
    refine (itemsWeight_le_iff.mpr ?_).trans (Nat.le_succ _)
    exact List.forall_mem_map.mpr ih
  | table _ _ _ _ ihk ihc =>
    rw [Phrase.bound, ← bound_nested_expression]
    refine (max_le ?_ ?_).trans (Nat.le_succ _)
    · exact columnsWeight_le_iff.mpr (List.forall_mem_map.mpr ihk)
    · exact columnsWeight_le_iff.mpr (List.forall_mem_map.mpr ihc)

theorem two_mul_bound (w n : Nat) :
    2 * (Phrase.nested .expression).bound w n = 2 * n + 3 * (w * (n * (n - 1))) := by
  have hoperand (n : Nat) : 2 * operandBound w n + 3 * (w * n) = 2 * (n + 1) + 3 * (w * (n * n)) := by
    induction n with
    | zero => rfl
    | succ n ih =>
      calc
        _ = 2 * operandBound w n + 3 * (w * n) + (6 * (w * n) + 3 * w + 2) := by
          rw [operandBound]
          ring
        _ = 2 * (n + 1) + 3 * (w * (n * n)) + (6 * (w * n) + 3 * w + 2) := by rw [ih]
        _ = 2 * (n + 1 + 1) + 3 * (w * ((n + 1) * (n + 1))) := by ring
  cases n with
  | zero => rfl
  | succ n =>
    calc
      _ = 2 * operandBound w n + 3 * (w * n) + 3 * (w * n) := by
        rw [Phrase.bound, Phrase.bound]
        ring
      _ = 2 * (n + 1) + 3 * (w * (n * n)) + 3 * (w * n) := by rw [hoperand]
      _ = 2 * (n + 1) + 3 * (w * ((n + 1) * n)) := by ring

/-- Tokens that are enough to reach the bound, and how they are written. -/
inductive Spelled : Token → List Char → Prop
  | name : Spelled (.name "f") ['f']
  | openBracket : Spelled (.mark .openBracket) ['[']
  | closeBracket : Spelled (.mark .closeBracket) [']']
  | plus : Spelled (.mark .plus) ['+']
  | star : Spelled (.mark .star) ['*']
  | wavg : Spelled (.mark .kwWavg) ['w', 'a', 'v', 'g']

inductive Written : List Token → List Char → Prop
  | nil : Written [] []
  | cons {t : Token} {w : List Char} {ts : List Token} {cs : List Char} :
    Spelled t w → Written ts cs → Written (t :: ts) (w ++ ' ' :: cs)

theorem Written.append {ts us : List Token} {cs ds : List Char} (h : Written ts cs)
    (h' : Written us ds) : Written (ts ++ us) (cs ++ ds) := by
  induction h with
  | nil => exact h'
  | cons hw _ ih =>
    rw [List.append_assoc, List.cons_append]
    exact .cons hw ih

def Reaches (n : Nat) (ph : Phrase) (d : Nat) : Prop :=
  ∃ ts cs e, Derives n ph ts e ∧ Written ts cs ∧ e.operatorDepth = d

theorem Chain.exists_operator (c : Chain) :
    ∃ m op w, ChainOperator c m op ∧ Spelled (.mark m) w := by
  cases c with
  | sum => exact ⟨.plus, _, _, .plus, .plus⟩
  | product => exact ⟨.star, _, _, .star, .star⟩
  | weighted => exact ⟨.kwWavg, _, _, .wavg, .wavg⟩

/-- As many links as there are levels, each of them above the ones before. -/
theorem links_reach (c : Chain) (n : Nat) (l : Expr) :
    ∃ ts cs e, Derives n (.links c l) ts e ∧ Written ts cs ∧
      e.operatorDepth = l.operatorDepth + n := by
  obtain ⟨m, op, w, hm, hw⟩ := c.exists_operator
  induction n generalizing l with
  | zero => exact ⟨[], [], l, .noLinks, .nil, rfl⟩
  | succ n ih =>
    obtain ⟨ts, cs, e, he, hcs, hdepth⟩ := ih (.binary op l (.name "f"))
    have hlink : Derives (n + 1) (.links c l) (.mark m :: ([.name "f"] ++ ts)) e :=
      .link hm (.nested (derives_operand_name n c "f")) (.nested he)
    refine ⟨_, _, e, hlink, .cons hw (.cons .name hcs), ?_⟩
    rw [hdepth]
    simp only [Expr.operatorDepth, Expr.pathWeight, if_pos hm.isChained]
    omega

theorem Reaches.chain {n d : Nat} {c : Chain} (h : Reaches n c.operand d) :
    Reaches n (.chain c) (d + n) := by
  obtain ⟨ts, cs, l, hl, hcs, rfl⟩ := h
  obtain ⟨us, ds, e, he, hds, hdepth⟩ := links_reach c n l
  exact ⟨ts ++ us, cs ++ ds, e, .chain hl he, hcs.append hds, hdepth⟩

theorem Reaches.expression {n d : Nat} (h : Reaches n .unary d) :
    Reaches n .expression (d + 3 * n) := by
  have hweighted : Reaches n (.chain .weighted) (d + n) := Reaches.chain h
  have hproduct : Reaches n (.chain .product) (d + n + n) := Reaches.chain hweighted
  have hsum : Reaches n (.chain .sum) (d + n + n + n) := Reaches.chain hproduct
  obtain ⟨ts, cs, e, he, hcs, hdepth⟩ := hsum
  refine ⟨ts, cs, e, .alone he, hcs, ?_⟩
  omega

theorem Reaches.call {n d : Nat} (h : Reaches n .expression d) :
    Reaches (n + 1) .unary (d + 1) := by
  obtain ⟨ts, cs, e, he, hcs, rfl⟩ := h
  have hargs : ∀ p ∈ [(ts, e)], Derives (n + 1) (.nested .expression) p.1 p.2 :=
    List.forall_mem_singleton.mpr (.nested he)
  have hcall := Derives.applied (.call (.name "f") hargs)
  have htokens : separatedBy .semicolon [(ts, e)] = ts := by simp [separatedBy]
  rw [htokens] at hcall
  refine ⟨_, _, _, hcall, .cons .name (.cons .openBracket (hcs.append (.cons .closeBracket .nil))), ?_⟩
  simp [Expr.operatorDepth, Expr.pathWeight, itemsWeight]

theorem operand_reaches (n : Nat) : Reaches n .unary (operandBound 1 n) := by
  induction n with
  | zero =>
    have hcall : Derives 0 .application [.name "f", .mark .openBracket, .mark .closeBracket]
        (.apply "f" []) := .call (.name "f") (List.forall_mem_nil _)
    exact ⟨_, _, _, .applied hcall, .cons .name (.cons .openBracket (.cons .closeBracket .nil)), rfl⟩
  | succ n ih =>
    rw [operandBound, Nat.one_mul]
    exact ih.expression.call

theorem bound_reached (n : Nat) :
    Reaches (n + 1) (.nested .expression) ((Phrase.nested .expression).bound 1 (n + 1)) := by
  obtain ⟨ts, cs, e, he, hcs, hdepth⟩ := (operand_reaches n).expression
  refine ⟨ts, cs, e, .nested he, hcs, hdepth.trans ?_⟩
  rw [Phrase.bound, Phrase.bound, Nat.one_mul]

theorem Spelled.read {t : Token} {w : List Char} (h : Spelled t w) (cs : List Char) :
    ∃ c w', w = c :: w' ∧ Text.isBlank c = false ∧
      Lexer.read c (w' ++ ' ' :: cs) = .ok (t, ' ' :: cs) := by
  have hblank : Lexer.startsWordChar (' ' :: cs) = false :=
    (by decide +kernel : Text.isWordChar ' ' = false)
  cases h with
  | name => exact Lexer.read_identifier (by decide +kernel) hblank
  | openBracket | closeBracket | plus | star => exact ⟨_, _, rfl, by decide, rfl⟩
  | wavg => exact Lexer.read_identifier (by decide +kernel) hblank

theorem Written.lexes {ts : List Token} {cs : List Char} (h : Written ts cs) :
    Lexer.Lexes cs ts := by
  induction h with
  | nil => exact .nil
  | @cons t w ts cs hw _ ih =>
    obtain ⟨c, w', rfl, hc, hread⟩ := hw.read cs
    exact .cons hc hread (ih.blank rfl)

theorem Written.tokens {ts : List Token} {cs : List Char} (h : Written ts cs) :
    Parser.tokens (String.ofList cs) = .ok ts := by
  have htokens : Token.ofText (String.ofList cs) = .ok ts :=
    Token.ofText_of_lexes (by rw [String.toList_ofList]; exact h.lexes)
  rw [Parser.tokens, htokens]
  rfl

end Grammar

/-- The limit holds unless a chained operator has operators in its left operand, and then is
exceeded by no more than they are deep. Without parentheses the links of the chain itself are not
counted among them. -/
theorem Expr.operatorDepth_le {text : String} {e : Expr} (h : Expr.ofText text = .ok e) :
    e.operatorDepth ≤ maxNesting + e.leftDepth ∧
      ∀ ts, Token.ofText text = .ok ts → .mark .openParen ∉ ts →
        e.operatorDepth ≤ maxNesting + e.earlierDepth := by
  obtain ⟨ts, htokens, hparse⟩ := Except.bind_eq_ok_iff.mp h
  have hderives := Parser.derives_of_parseExpr hparse
  constructor
  · have hweight : e.pathWeight 0 ≤ (Grammar.Phrase.nested .expression).bound 0 maxNesting :=
      Grammar.pathWeight_le hderives
    have hbound := Grammar.two_mul_bound 0 maxNesting
    have hdepth := e.operatorDepth_le_add
    omega
  · intro us hus hparen
    have hread : Token.ofText text = .ok ts := Except.mapError_eq_ok_iff.mp htokens
    obtain rfl := Except.ok.inj (hus.symm.trans hread)
    exact Grammar.operatorDepth_le_earlier hderives hparen

instance (t : Token) (m : Mark) : Decidable (t = .mark m) :=
  match t with
  | .mark n => decidable_of_iff (n = m) ⟨congrArg Token.mark, Token.mark.inj⟩
  | .literal _ | .function _ | .name _ => isFalse Token.noConfusion

theorem Expr.operatorDepth_le_chains :
    ∃ e ts, Expr.ofText "a * -b * f[c] + d - 1" = .ok e ∧
      Token.ofText "a * -b * f[c] + d - 1" = .ok ts ∧ .mark .openParen ∉ ts ∧
      e.operatorDepth ≤ maxNesting + e.leftDepth ∧
      e.operatorDepth ≤ maxNesting + e.earlierDepth := by
  have hread : (Expr.ofText "a * -b * f[c] + d - 1").toOption.isSome = true := by decide +kernel
  have hparen : ((Token.ofText "a * -b * f[c] + d - 1").toOption.map fun ts =>
      decide (∀ t ∈ ts, t ≠ .mark .openParen)) = some true := by decide +kernel
  obtain ⟨e, he⟩ := Option.isSome_iff_exists.mp hread
  obtain ⟨ts, hts, hparen⟩ := Option.map_eq_some_iff.mp hparen
  have hok := Except.toOption_eq_some_iff.mp he
  have htokens := Except.toOption_eq_some_iff.mp hts
  have hne : .mark .openParen ∉ ts := fun hmem => of_decide_eq_true hparen _ hmem rfl
  obtain ⟨hleft, hearlier⟩ := Expr.operatorDepth_le hok
  exact ⟨e, ts, hok, htokens, hne, hleft, hearlier ts htokens hne⟩

/-- The negations are read with all the levels, and then stand below all the links. -/
theorem Expr.operatorDepth_exceeds_maxNesting :
    let text := String.ofList (List.replicate 64 '-' ++ 'x' :: (List.replicate 65 ['+', 'x']).flatten)
    ¬ ∀ e, Expr.ofText text = .ok e → e.operatorDepth ≤ maxNesting := by
  intro text h
  have hread : (Expr.ofText text).toOption.map Expr.operatorDepth = some 129 := by decide +kernel
  obtain ⟨e, he, hdepth⟩ := Option.map_eq_some_iff.mp hread
  have hle := h e (Except.toOption_eq_some_iff.mp he)
  rw [hdepth] at hle
  exact absurd hle (by decide)

/-- With all texts in view the depth goes up to three halves of the square of the limit. -/
theorem Expr.operatorDepth_isGreatest :
    IsGreatest {d | ∃ text e, Expr.ofText text = .ok e ∧ e.operatorDepth = d}
      (maxNesting * (3 * maxNesting - 1) / 2) := by
  have hbound : (Grammar.Phrase.nested .expression).bound 1 maxNesting =
      maxNesting * (3 * maxNesting - 1) / 2 := by
    have hdouble := Grammar.two_mul_bound 1 maxNesting
    simp only [maxNesting] at hdouble ⊢
    omega
  rw [← hbound]
  constructor
  · obtain ⟨ts, cs, e, he, hcs, hdepth⟩ := Grammar.bound_reached 127
    refine ⟨String.ofList cs, e, ?_, hdepth⟩
    rw [Expr.ofText, hcs.tokens]
    exact (Parser.parseExpr_gives he).resolve_right fun h => Nat.lt_irrefl maxNesting h.1
  · rintro d ⟨text, e, h, rfl⟩
    obtain ⟨ts, -, h⟩ := Except.bind_eq_ok_iff.mp h
    exact Grammar.pathWeight_le (Parser.derives_of_parseExpr h)

end TableConsole
