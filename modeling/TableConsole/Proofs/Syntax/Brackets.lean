import Mathlib.Tactic.Ring
import TableConsole.Proofs.Syntax.Completeness
import TableConsole.Proofs.Syntax.Lexeme
import TableConsole.Proofs.Syntax.Soundness
import TableConsole.Statement

/-! # Brackets of texts and of tokens

The depth that joins lines is found on the text, before anything is read. It is the balance of the
bracket tokens, and what is left open inside function literals. An expression or a query has
balanced bracket tokens, so only a function literal in it can make it wait for another line.
-/

namespace TableConsole

set_option autoImplicit false

namespace Token

def opens : Token → Bool
  | .mark m => m = .openParen || m = .openBracket
  | _ => false

def closes : Token → Bool
  | .mark m => m = .closeParen || m = .closeBracket
  | _ => false

def isFunction : Token → Bool
  | .function _ => true
  | _ => false

def balance (ts : List Token) : Int :=
  ts.countP opens - ts.countP closes

def literalDepth : Token → Int
  | .function source => Text.bracketDepth source.toList
  | _ => 0

def literalDepths (ts : List Token) : Int :=
  (ts.map literalDepth).sum

variable (t : Token) (m : Mark) (ts us : List Token)

@[simp] theorem balance_nil : balance [] = 0 := rfl

@[simp] theorem balance_append : balance (ts ++ us) = balance ts + balance us := by
  simp only [balance, List.countP_append, Nat.cast_add]
  ring

@[simp] theorem balance_mark : balance (.mark m :: ts) = m.depth + balance ts := by
  cases m <;> simp [balance, opens, closes, Mark.depth] <;> ring

@[simp] theorem balance_literal (a : Atom) : balance (.literal a :: ts) = balance ts := by
  simp [balance, opens, closes]

@[simp] theorem balance_function (source : String) :
    balance (.function source :: ts) = balance ts := by
  simp [balance, opens, closes]

@[simp] theorem balance_name (n : String) : balance (.name n :: ts) = balance ts := by
  simp [balance, opens, closes]

@[simp] theorem literalDepths_cons :
    literalDepths (t :: ts) = t.literalDepth + literalDepths ts := by
  rw [literalDepths, List.map_cons, List.sum_cons, literalDepths]

theorem sum_depth : (ts.map depth).sum = balance ts + literalDepths ts := by
  induction ts with
  | nil => rfl
  | cons t ts ih =>
    rw [List.map_cons, List.sum_cons, ih]
    cases t <;> simp [depth, literalDepth] <;> ring

theorem literalDepths_eq_zero {ts : List Token} (h : ∀ source, Token.function source ∉ ts) :
    literalDepths ts = 0 := by
  induction ts with
  | nil => rfl
  | cons t ts ih =>
    have ht : t.literalDepth = 0 := by
      cases t with
      | function source => exact absurd List.mem_cons_self (h source)
      | literal | name | mark => rfl
    have hts := ih fun source hmem => h source (List.mem_cons_of_mem t hmem)
    simp [ht, hts]

end Token

namespace Grammar

open Token

variable {n : Nat}

theorem ChainOperator.depth {c : Chain} {m : Mark} {op : BinOp} (h : ChainOperator c m op) :
    m.depth = 0 := by
  cases h <;> rfl

theorem ComparisonOperator.depth {m : Mark} {op : BinOp} (h : ComparisonOperator m op) :
    m.depth = 0 := by
  cases h <;> rfl

theorem balance_separatedBy {α : Type} {m : Mark} (hm : m.depth = 0)
    {parts : List (Segment α)} (hparts : ∀ p ∈ parts, Token.balance p.1 = 0) :
    Token.balance (separatedBy m parts) = 0 := by
  induction parts with
  | nil => rfl
  | cons p parts ih =>
    obtain ⟨hp, hparts⟩ := List.forall_mem_cons.mp hparts
    cases parts with
    | nil => simpa [separatedBy] using hp
    | cons q parts =>
      simp [Parser.separatedBy_cons_cons, hp, hm, ih hparts]

theorem Columns.balance {ds : List ColumnPart} {ts : List Token} (h : Columns ds ts)
    (hds : ∀ d ∈ ds, Token.balance d.value.1 = 0) : Token.balance ts = 0 := by
  have htokens : ∀ d ∈ ds, Token.balance d.tokens = 0 := by
    intro d hd
    simp [ColumnPart.tokens, hds d hd, Mark.depth]
  clear hds
  induction h with
  | none => rfl
  | last d => exact htokens d List.mem_cons_self
  | @more d ds ts _ ih =>
    obtain ⟨hd, hds⟩ := List.forall_mem_cons.mp htokens
    simp [hd, ih hds, Mark.depth]

theorem balance_vector (as : List Atom) : Token.balance (as.map .literal) = 0 := by
  induction as with
  | nil => rfl
  | cons a as ih => rw [List.map_cons, balance_literal, ih]

theorem Derives.balance {ph : Phrase} {ts : List Token} {e : Expr} (h : Derives n ph ts e) :
    Token.balance ts = 0 := by
  induction h with
  | nested _ ih | alone _ ih | applied _ ih | plain _ ih => exact ih
  | comparison hm _ _ ihl ihr => simp [ihl, ihr, hm.depth]
  | chain _ _ ihl ihr => simp [ihl, ihr]
  | link hm _ _ ihl ihr => simp [ihl, ihr, hm.depth]
  | negate _ ih => simp [ih, Mark.depth]
  | call hhead _ ih =>
    have hargs := balance_separatedBy (m := .semicolon) rfl ih
    cases hhead <;> simp [hargs, Mark.depth]
  | juxtaposed _ _ ih => simp [ih]
  | noLinks | emptyList | literal | function | name => rfl
  | vector _ => exact balance_vector _
  | paren _ ih => simp [ih, Mark.depth]
  | list _ _ ih => simp [balance_separatedBy (m := .semicolon) rfl ih, Mark.depth]
  | table hks _ hcs _ ihks ihcs => simp [hks.balance ihks, hcs.balance ihcs, Mark.depth]

theorem DerivesProjection.balance {ts : List Token} {p : Projection}
    (h : DerivesProjection n ts p) : Token.balance ts = 0 := by
  cases h with
  | named x h => simp [h.balance, Mark.depth]
  | unnamed h => exact h.balance

theorem Sequence.balance {α : Type} {item : List Token → α → Prop} {m : Mark} {ts : List Token}
    {xs : List α} (h : Sequence item m ts xs) (hm : m.depth = 0)
    (hitem : ∀ us x, item us x → Token.balance us = 0) : Token.balance ts = 0 := by
  obtain ⟨parts, -, hparts, rfl, -⟩ := h.exists_parts
  exact balance_separatedBy hm fun p hp => hitem p.1 p.2 (hparts p hp)

theorem Optional.balance {α : Type} {body : List Token → List α → Prop} {ts : List Token}
    {xs : List α} (h : Optional body ts xs) (hbody : ∀ us ys, body us ys → Token.balance us = 0) :
    Token.balance ts = 0 := by
  cases h with
  | absent => rfl
  | present h => exact hbody _ _ h

theorem Clause.balance {α : Type} {body : List Token → List α → Prop} {m : Mark} {ts : List Token}
    {xs : List α} (h : Clause m body ts xs) (hm : m.depth = 0)
    (hbody : ∀ us ys, body us ys → Token.balance us = 0) : Token.balance ts = 0 := by
  cases h with
  | of h =>
    simp [hm, hbody _ _ h]

theorem DerivesQuery.balance {ts : List Token} {q : Query} (h : DerivesQuery n ts q) :
    Token.balance ts = 0 := by
  obtain ⟨hps, hgs, hfs⟩ := h
  have hprojections (us : List Token) (ps : List Projection)
      (hus : Sequence (DerivesProjection n) .comma us ps) : Token.balance us = 0 :=
    hus.balance rfl fun _ _ hp => hp.balance
  have hfilters (us : List Token) (es : List Expr)
      (hus : Sequence (DerivesExpr n) .comma us es) : Token.balance us = 0 :=
    hus.balance rfl fun _ _ he => he.balance
  have hps := hps.balance hprojections
  have hgs := hgs.balance fun _ _ hg => hg.balance rfl hprojections
  have hfs := hfs.balance fun _ _ hf => hf.balance rfl hfilters
  simp [hps, hgs, hfs, Mark.depth]

end Grammar

def Complete (s : String) : Prop :=
  (∃ e, Expr.ofText s = .ok e) ∨ ∃ q, Query.ofText s = .ok q

theorem Complete.exists_tokens {s : String} (h : Complete s) :
    ∃ ts, Token.ofText s = .ok ts ∧ Token.balance ts = 0 := by
  obtain ⟨e, he⟩ | ⟨q, hq⟩ := h
  · obtain ⟨ts, hts, he⟩ := Except.bind_eq_ok_iff.mp he
    exact ⟨ts, Except.mapError_eq_ok_iff.mp hts, (Parser.derives_of_parseExpr he).balance⟩
  · obtain ⟨ts, hts, hq⟩ := Except.bind_eq_ok_iff.mp hq
    exact ⟨ts, Except.mapError_eq_ok_iff.mp hts, (Parser.derives_of_parseQuery hq).balance⟩

theorem Token.bracketDepth_ofText {s : String} {ts : List Token} (h : Token.ofText s = .ok ts) :
    Text.bracketDepth s.toList = Token.balance ts + Token.literalDepths ts :=
  (Token.depth_ofText h).trans (Token.sum_depth ts)

theorem joinLines_of_balanced {cs : List Char} (h : Text.bracketDepth cs = 0)
    (lines : List (List Char)) :
    Statement.joinLines (cs :: lines) = cs :: Statement.joinLines lines := by
  cases lines with
  | nil => rfl
  | cons line lines =>
    rw [Statement.joinLines, Statement.joinFrom, if_neg (by rw [h]; decide)]
    rfl

/-- The depth of a text is the balance of its bracket tokens and the depth of its function literals.
The first is zero if an expression or a query is read from it, and such a text without function
literals is a statement before any lines. -/
theorem bracketDepth_eq_balance (s : String) :
    (∀ ts, Token.ofText s = .ok ts →
      Text.bracketDepth s.toList = Token.balance ts + Token.literalDepths ts) ∧
    (Complete s → ∃ ts, Token.ofText s = .ok ts ∧ Token.balance ts = 0 ∧
      Text.bracketDepth s.toList = Token.literalDepths ts ∧
      ((∀ source, Token.function source ∉ ts) → Text.bracketDepth s.toList = 0 ∧
        ∀ lines, Statement.joinLines (s.toList :: lines) =
          s.toList :: Statement.joinLines lines)) := by
  refine ⟨fun ts => Token.bracketDepth_ofText, fun hcomplete => ?_⟩
  obtain ⟨ts, hts, hbalance⟩ := hcomplete.exists_tokens
  have hdepth := Token.bracketDepth_ofText hts
  rw [hbalance, Int.zero_add] at hdepth
  refine ⟨ts, hts, hbalance, hdepth, fun hnone => ?_⟩
  rw [Token.literalDepths_eq_zero hnone] at hdepth
  exact ⟨hdepth, joinLines_of_balanced hdepth⟩

/-- A function literal that leaves a parenthesis open, and a call without one over two lines. -/
theorem bracketDepth_eq_balance_calls :
    (∃ ts, Token.ofText "f[{x+(y};\"]\"]" = .ok ts ∧ Complete "f[{x+(y};\"]\"]" ∧
      Token.balance ts = 0 ∧ Text.bracketDepth "f[{x+(y};\"]\"]".toList = 1) ∧
    ∃ ts, Token.ofText "f[x;\n\"(\"]" = .ok ts ∧ (∀ source, Token.function source ∉ ts) ∧
      Statement.joinLines ["f[x;\n\"(\"]".toList, ['y']] = ["f[x;\n\"(\"]".toList, ['y']] := by
  have complete {s : String} (h : (Expr.ofText s).toOption.isSome = true) : Complete s := by
    obtain ⟨e, he⟩ := Option.isSome_iff_exists.mp h
    exact .inl ⟨e, Except.toOption_eq_some_iff.mp he⟩
  constructor
  · have hcomplete := complete (s := "f[{x+(y};\"]\"]") (by decide +kernel)
    obtain ⟨ts, hts, hbalance, -, -⟩ := (bracketDepth_eq_balance _).2 hcomplete
    exact ⟨ts, hts, hcomplete, hbalance, by decide +kernel⟩
  · have hcomplete := complete (s := "f[x;\n\"(\"]") (by decide +kernel)
    obtain ⟨ts, hts, -, -, hlines⟩ := (bracketDepth_eq_balance _).2 hcomplete
    have hread : (Token.ofText "f[x;\n\"(\"]").toOption.map (·.countP Token.isFunction) = some 0 := by
      decide +kernel
    have hcount : ts.countP Token.isFunction = 0 := by
      rw [hts] at hread
      exact Option.some.inj hread
    have hnone (source : String) : Token.function source ∉ ts := fun hmem =>
      List.countP_eq_zero.mp hcount _ hmem rfl
    exact ⟨ts, hts, hnone, (hlines hnone).2 [['y']]⟩

end TableConsole
