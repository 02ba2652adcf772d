import TableConsole.Syntax.Expr
import TableConsole.Syntax.Token

/-! # The grammar of expressions and queries

Which tokens are written for which tree. The rules speak of whole token lists and know nothing of
the tokens behind a phrase. A name in front of an operand is the only rule with a condition, on the
first token of the operand. The levels of nesting that a derivation may use are counted beside it:
only what is inside a nested phrase has one level less, so without a bound the levels say nothing.
-/

namespace TableConsole.Grammar

set_option autoImplicit false

/-- Chains of left-associative operators, from loosest to tightest. -/
inductive Chain
  | sum
  | product
  | weighted
  deriving DecidableEq

inductive Phrase
  | expression
  | chain (c : Chain)
  /-- The links of a chain behind the tree of its operands so far. -/
  | links (c : Chain) (left : Expr)
  | unary
  | application
  | primary
  | nested (ph : Phrase)

/-- What stands between the operators of a chain. -/
def Chain.operand : Chain → Phrase
  | .sum => .chain .product
  | .product => .chain .weighted
  | .weighted => .unary

inductive ChainOperator : Chain → Mark → BinOp → Prop
  | plus : ChainOperator .sum .plus (.elementwise (.arithmetic .add))
  | minus : ChainOperator .sum .minus (.elementwise (.arithmetic .subtract))
  | star : ChainOperator .product .star (.elementwise (.arithmetic .multiply))
  | slash : ChainOperator .product .slash (.elementwise (.arithmetic .divide))
  | percent : ChainOperator .product .percent (.elementwise (.arithmetic .divide))
  | wavg : ChainOperator .weighted .kwWavg .weightedAverage

inductive ComparisonOperator : Mark → BinOp → Prop
  | equal : ComparisonOperator .equal (.elementwise .equal)
  | notEqual : ComparisonOperator .notEqual (.elementwise .notEqual)
  | less : ComparisonOperator .less (.elementwise (.compare .less))
  | greater : ComparisonOperator .greater (.elementwise (.compare .greater))
  | lessEqual : ComparisonOperator .lessEqual (.elementwise (.compare .lessEqual))
  | greaterEqual : ComparisonOperator .greaterEqual (.elementwise (.compare .greaterEqual))
  | member : ComparisonOperator .kwIn .member

/-- The tokens of an operand that a name in front of it is applied to. -/
inductive OperandStart : List Token → Prop
  | literal (a : Atom) (ts : List Token) : OperandStart (.literal a :: ts)
  | function (source : String) (ts : List Token) : OperandStart (.function source :: ts)
  | name (n : String) (ts : List Token) : OperandStart (.name n :: ts)
  | paren (ts : List Token) : OperandStart (.mark .openParen :: ts)

inductive Callee : Token → String → Prop
  | name (f : String) : Callee (.name f) f
  | wavg : Callee (.mark .kwWavg) "wavg"

abbrev Segment (α : Type) := List Token × α

def separatedBy {α : Type} (m : Mark) (parts : List (Segment α)) : List Token :=
  [Token.mark m].intercalate (parts.map (·.1))

/-- A column of a table literal: its name, and its value as a phrase. -/
structure ColumnPart where
  name : String
  value : Segment Expr

def ColumnPart.tokens (d : ColumnPart) : List Token :=
  .name d.name :: .mark .colon :: d.value.1

def ColumnPart.column (d : ColumnPart) : String × Expr :=
  (d.name, d.value.2)

/-- Columns with a semicolon between them, and possibly one behind the last. -/
inductive Columns : List ColumnPart → List Token → Prop
  | none : Columns [] []
  | last (d : ColumnPart) : Columns [d] d.tokens
  | more {d : ColumnPart} {ds : List ColumnPart} {ts : List Token} :
    Columns ds ts → Columns (d :: ds) (d.tokens ++ .mark .semicolon :: ts)

inductive Derives : Nat → Phrase → List Token → Expr → Prop
  | nested {n : Nat} {ph : Phrase} {ts : List Token} {e : Expr} :
    Derives n ph ts e → Derives (n + 1) (.nested ph) ts e
  | alone {n : Nat} {ts : List Token} {e : Expr} :
    Derives n (.chain .sum) ts e → Derives n .expression ts e
  | comparison {n : Nat} {ts us : List Token} {m : Mark} {op : BinOp} {l r : Expr} :
    ComparisonOperator m op → Derives n (.chain .sum) ts l → Derives n (.chain .sum) us r →
      Derives n .expression (ts ++ .mark m :: us) (.binary op l r)
  | chain {n : Nat} {c : Chain} {ts us : List Token} {l e : Expr} :
    Derives n c.operand ts l → Derives n (.links c l) us e → Derives n (.chain c) (ts ++ us) e
  | noLinks {n : Nat} {c : Chain} {l : Expr} : Derives n (.links c l) [] l
  | link {n : Nat} {c : Chain} {ts us : List Token} {m : Mark} {op : BinOp} {l r e : Expr} :
    ChainOperator c m op → Derives n (.nested c.operand) ts r →
    Derives n (.nested (.links c (.binary op l r))) us e →
      Derives n (.links c l) (.mark m :: (ts ++ us)) e
  | negate {n : Nat} {ts : List Token} {e : Expr} :
    Derives n (.nested .unary) ts e → Derives n .unary (.mark .minus :: ts) (.negate e)
  | applied {n : Nat} {ts : List Token} {e : Expr} :
    Derives n .application ts e → Derives n .unary ts e
  | call {n : Nat} {head : Token} {f : String} {args : List (Segment Expr)} :
    Callee head f → (∀ p ∈ args, Derives n (.nested .expression) p.1 p.2) →
      Derives n .application
        (head :: .mark .openBracket :: (separatedBy .semicolon args ++ [.mark .closeBracket]))
        (.apply f (args.map (·.2)))
  | juxtaposed {n : Nat} {f : String} {ts : List Token} {e : Expr} :
    OperandStart ts → Derives n (.nested .application) ts e →
      Derives n .application (.name f :: ts) (.apply f [e])
  | plain {n : Nat} {ts : List Token} {e : Expr} :
    Derives n .primary ts e → Derives n .application ts e
  | literal {n : Nat} (a : Atom) : Derives n .primary [.literal a] (.literal a)
  | vector {n : Nat} {as : List Atom} :
    2 ≤ as.length → Derives n .primary (as.map .literal) (.list (as.map .literal))
  | function {n : Nat} (source : String) :
    Derives n .primary [.function source] (.function source)
  | name {n : Nat} (x : String) : Derives n .primary [.name x] (.name x)
  | emptyList {n : Nat} : Derives n .primary [.mark .openParen, .mark .closeParen] (.list [])
  | paren {n : Nat} {ts : List Token} {e : Expr} :
    Derives n (.nested .expression) ts e →
      Derives n .primary (.mark .openParen :: (ts ++ [.mark .closeParen])) e
  | list {n : Nat} {items : List (Segment Expr)} :
    2 ≤ items.length → (∀ p ∈ items, Derives n (.nested .expression) p.1 p.2) →
      Derives n .primary
        (.mark .openParen :: (separatedBy .semicolon items ++ [.mark .closeParen]))
        (.list (items.map (·.2)))
  | table {n : Nat} {keys columns : List ColumnPart} {ks cs : List Token} :
    Columns keys ks → (∀ d ∈ keys, Derives n (.nested .expression) d.value.1 d.value.2) →
    Columns columns cs →
    (∀ d ∈ columns, Derives n (.nested .expression) d.value.1 d.value.2) →
      Derives n .primary
        (.mark .openParen :: .mark .openBracket :: (ks ++ .mark .closeBracket ::
          (cs ++ [.mark .closeParen])))
        (.table (keys.map (·.column)) (columns.map (·.column)))

/-- A whole expression takes the first level. -/
abbrev DerivesExpr (n : Nat) : List Token → Expr → Prop :=
  Derives n (.nested .expression)

theorem Derives.alone_in_chain {n : Nat} {c : Chain} {ts : List Token} {e : Expr}
    (h : Derives n c.operand ts e) : Derives n (.chain c) ts e := by
  simpa using Derives.chain h .noLinks

theorem derives_operand_name (n : Nat) (c : Chain) (x : String) :
    Derives n c.operand [.name x] (.name x) := by
  have hunary : Derives n .unary [.name x] (.name x) := .applied (.plain (.name x))
  cases c with
  | weighted => exact hunary
  | product => exact .alone_in_chain hunary
  | sum => exact .alone_in_chain (.alone_in_chain hunary)

theorem Derives.expression_of_unary {n : Nat} {ts : List Token} {e : Expr}
    (h : Derives n .unary ts e) : DerivesExpr (n + 1) ts e := by
  have hproduct : Derives n (.chain .product) ts e := .alone_in_chain (.alone_in_chain h)
  exact .nested (.alone (.alone_in_chain hproduct))

theorem Derives.expression_of_primary {n : Nat} {ts : List Token} {e : Expr}
    (h : Derives n .primary ts e) : DerivesExpr (n + 1) ts e :=
  expression_of_unary (.applied (.plain h))

inductive PhraseStart : List Token → Prop
  | operand {ts : List Token} : OperandStart ts → PhraseStart ts
  | minus (ts : List Token) : PhraseStart (.mark .minus :: ts)
  | wavg (ts : List Token) : PhraseStart (.mark .kwWavg :: ts)

theorem OperandStart.append {ts : List Token} (h : OperandStart ts) (us : List Token) :
    OperandStart (ts ++ us) := by
  cases h <;> constructor

theorem PhraseStart.append {ts : List Token} (h : PhraseStart ts) (us : List Token) :
    PhraseStart (ts ++ us) := by
  cases h with
  | operand h => exact .operand (h.append us)
  | minus ts => exact .minus (ts ++ us)
  | wavg ts => exact .wavg (ts ++ us)

variable {n : Nat}

theorem Derives.primary_start {ts : List Token} {e : Expr} (h : Derives n .primary ts e) :
    OperandStart ts := by
  cases h with
  | literal a => exact .literal a []
  | @vector _ as hlength =>
    obtain ⟨a, as, rfl⟩ := List.exists_cons_of_length_pos (Nat.lt_of_lt_of_le Nat.two_pos hlength)
    exact .literal a _
  | function source => exact .function source []
  | name x => exact .name x []
  | emptyList | paren _ | list _ _ | table _ _ _ _ => exact .paren _

theorem Derives.primary_name {x : String} {ts us : List Token} {e : Expr}
    (h : Derives n .primary ts e) (hts : ts = .name x :: us) : us = [] ∧ e = .name x := by
  cases h with
  | name y =>
    obtain ⟨hy, rfl⟩ := List.cons_eq_cons.mp hts
    cases hy
    exact ⟨rfl, rfl⟩
  | @vector _ as hlength =>
    cases as with
    | nil => cases hts
    | cons a as => cases (List.cons_eq_cons.mp hts).1
  | literal | function | emptyList | paren | list | table => cases (List.cons_eq_cons.mp hts).1

/-- Only a call of `wavg` does not start like an operand. -/
theorem Derives.application_start {ts : List Token} {e : Expr} (h : Derives n .application ts e) :
    OperandStart ts ∨ ∃ us, ts = .mark .kwWavg :: us := by
  cases h with
  | call hhead _ =>
    cases hhead with
    | name => exact .inl (.name _ _)
    | wavg => exact .inr ⟨_, rfl⟩
  | juxtaposed _ _ => exact .inl (.name _ _)
  | plain h => exact .inl h.primary_start

theorem Derives.links_start {c : Chain} {l e : Expr} {ts : List Token}
    (h : Derives n (.links c l) ts e) :
    ts = [] ∨ ∃ m op us, ChainOperator c m op ∧ ts = .mark m :: us := by
  cases h with
  | noLinks => exact .inl rfl
  | link hm _ _ => exact .inr ⟨_, _, _, hm, rfl⟩

theorem Derives.nested_links_start {c : Chain} {l e : Expr} {ts : List Token}
    (h : Derives n (.nested (.links c l)) ts e) :
    ts = [] ∨ ∃ m op us, ChainOperator c m op ∧ ts = .mark m :: us := by
  cases h with
  | nested h => exact h.links_start

def Phrase.whole : Phrase → Bool
  | .links _ _ => false
  | .nested ph => ph.whole
  | _ => true

theorem Chain.whole_operand (c : Chain) : c.operand.whole = true := by
  cases c <;> rfl

theorem Derives.start {ph : Phrase} {ts : List Token} {e : Expr} (h : Derives n ph ts e)
    (hph : ph.whole = true) : PhraseStart ts := by
  induction h with
  | nested _ ih => exact ih hph
  | alone _ ih => exact ih rfl
  | comparison _ _ _ ih => exact (ih rfl).append _
  | @chain _ c _ _ _ _ _ _ ih => exact (ih c.whole_operand).append _
  | noLinks | link => cases hph
  | negate _ _ => exact .minus _
  | applied h _ =>
    obtain hstart | ⟨us, rfl⟩ := h.application_start
    · exact .operand hstart
    · exact .wavg us
  | call hhead _ _ =>
    cases hhead with
    | name => exact .operand (.name _ _)
    | wavg => exact .wavg _
  | juxtaposed _ _ _ => exact .operand (.name _ _)
  | plain h _ => exact .operand h.primary_start
  | literal a => exact .operand (.literal a [])
  | vector hlength => exact .operand (Derives.vector (n := 0) hlength).primary_start
  | function source => exact .operand (.function source [])
  | name x => exact .operand (.name x [])
  | emptyList | paren _ _ | list _ _ _ | table _ _ _ _ _ _ => exact .operand (.paren _)

theorem Derives.length_pos {ph : Phrase} {ts : List Token} {e : Expr} (h : Derives n ph ts e)
    (hph : ph.whole = true) : 0 < ts.length := by
  cases h.start hph with
  | operand h => cases h <;> simp
  | minus ts => simp
  | wavg ts => simp

inductive DerivesProjection (n : Nat) : List Token → Projection → Prop
  | named (x : String) {ts : List Token} {e : Expr} :
    DerivesExpr n ts e → DerivesProjection n (.name x :: .mark .colon :: ts) ⟨some x, e⟩
  | unnamed {ts : List Token} {e : Expr} :
    DerivesExpr n ts e → DerivesProjection n ts ⟨none, e⟩

inductive Sequence {α : Type} (item : List Token → α → Prop) (m : Mark) :
    List Token → List α → Prop
  | of {parts : List (Segment α)} :
    parts ≠ [] → (∀ p ∈ parts, item p.1 p.2) →
      Sequence item m (separatedBy m parts) (parts.map (·.2))

theorem Sequence.exists_parts {α : Type} {item : List Token → α → Prop} {m : Mark}
    {ts : List Token} {xs : List α} (h : Sequence item m ts xs) :
    ∃ parts : List (Segment α), parts ≠ [] ∧ (∀ p ∈ parts, item p.1 p.2) ∧
      ts = separatedBy m parts ∧ xs = parts.map (·.2) := by
  cases h with
  | of hne hparts => exact ⟨_, hne, hparts, rfl, rfl⟩

theorem Sequence.one {α : Type} {item : List Token → α → Prop} {m : Mark} {ts : List Token} {x : α}
    (h : item ts x) : Sequence item m ts [x] := by
  have parts : Sequence item m (separatedBy m [(ts, x)]) [x] :=
    .of (List.cons_ne_nil (ts, x) []) (List.forall_mem_singleton.mpr h)
  simpa [separatedBy] using parts

theorem Sequence.cons {α : Type} {item : List Token → α → Prop} {m : Mark} {ts us : List Token}
    {x : α} {xs : List α} (h : item ts x) (hs : Sequence item m us xs) :
    Sequence item m (ts ++ .mark m :: us) (x :: xs) := by
  obtain ⟨parts, hne, hparts, rfl, rfl⟩ := hs.exists_parts
  obtain ⟨p, parts, rfl⟩ := List.exists_cons_of_ne_nil hne
  have all :
      Sequence item m (separatedBy m ((ts, x) :: p :: parts)) (x :: (p :: parts).map (·.2)) :=
    .of (List.cons_ne_nil (ts, x) (p :: parts)) (List.forall_mem_cons.mpr ⟨h, hparts⟩)
  simpa [separatedBy] using all

inductive Optional {α : Type} (body : List Token → List α → Prop) : List Token → List α → Prop
  | absent : Optional body [] []
  | present {ts : List Token} {xs : List α} : body ts xs → Optional body ts xs

inductive Clause {α : Type} (m : Mark) (body : List Token → List α → Prop) :
    List Token → List α → Prop
  | of {ts : List Token} {xs : List α} : body ts xs → Clause m body (.mark m :: ts) xs

inductive DerivesQuery (n : Nat) : List Token → Query → Prop
  | select {ps gs fs : List Token} {source : String} {projections groups : List Projection}
    {filters : List Expr} :
    Optional (Sequence (DerivesProjection n) .comma) ps projections →
    Optional (Clause .kwBy (Sequence (DerivesProjection n) .comma)) gs groups →
    Optional (Clause .kwWhere (Sequence (DerivesExpr n) .comma)) fs filters →
      DerivesQuery n
        (.mark .kwSelect :: (ps ++ gs ++ .mark .kwFrom :: .name source :: fs))
        ⟨projections, groups, source, filters⟩

end TableConsole.Grammar
