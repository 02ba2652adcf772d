import TableConsole.Proofs.Syntax.Brackets

/-! # Colons of texts and of tokens

The shape of a statement is decided on its text, by the first colon that stands in code outside all
brackets. Among the tokens of an expression a colon stands behind a column name only, and so inside
the parentheses of a table literal: at every colon some bracket is open. The scanner of the text
sees the same colons at the same depths, except in a function literal, whose source is text to it
and one token to the grammar.
-/

namespace TableConsole

set_option autoImplicit false

namespace Token

/-- At every colon some bracket is open, if `depth` are open in front of the tokens. -/
def ColonsInside (depth : Int) : List Token → Prop
  | [] => True
  | t :: ts => (t = .mark .colon → 0 < depth) ∧ ColonsInside (depth + balance [t]) ts

section Depth

variable {depth : Int} {ts us : List Token}

@[simp] theorem colonsInside_nil : ColonsInside depth [] := trivial

@[simp] theorem colonsInside_mark (m : Mark) :
    ColonsInside depth (.mark m :: ts) ↔
      (m = .colon → 0 < depth) ∧ ColonsInside (depth + m.depth) ts := by
  simp [ColonsInside]

@[simp] theorem colonsInside_literal (a : Atom) :
    ColonsInside depth (.literal a :: ts) ↔ ColonsInside depth ts := by
  simp [ColonsInside]

@[simp] theorem colonsInside_function (source : String) :
    ColonsInside depth (.function source :: ts) ↔ ColonsInside depth ts := by
  simp [ColonsInside]

@[simp] theorem colonsInside_name (n : String) :
    ColonsInside depth (.name n :: ts) ↔ ColonsInside depth ts := by
  simp [ColonsInside]

@[simp] theorem colonsInside_append :
    ColonsInside depth (ts ++ us) ↔
      ColonsInside depth ts ∧ ColonsInside (depth + balance ts) us := by
  induction ts generalizing depth with
  | nil => simp
  | cons t ts ih =>
    rw [List.cons_append, ColonsInside, ColonsInside, ih, and_assoc, Int.add_assoc, ← balance_append,
      List.singleton_append]

theorem ColonsInside.mono {depth' : Int} (h : ColonsInside depth ts) (hle : depth ≤ depth') :
    ColonsInside depth' ts := by
  induction ts generalizing depth depth' with
  | nil => trivial
  | cons t ts ih =>
    obtain ⟨hcolon, hrest⟩ := h
    exact ⟨fun ht => Int.lt_of_lt_of_le (hcolon ht) hle, ih hrest (Int.add_le_add_right hle _)⟩

end Depth

end Token

namespace Grammar

open Token

variable {n : Nat} {depth : Int}

theorem colonsInside_separatedBy {α : Type} {m : Mark} (hm : m.depth = 0) (hcolon : m ≠ .colon)
    {parts : List (Segment α)} (hbalance : ∀ p ∈ parts, Token.balance p.1 = 0)
    (hparts : ∀ p ∈ parts, ColonsInside depth p.1) : ColonsInside depth (separatedBy m parts) := by
  induction parts with
  | nil => trivial
  | cons p parts ih =>
    obtain ⟨hp, hparts⟩ := List.forall_mem_cons.mp hparts
    obtain ⟨hpbalance, hbalance⟩ := List.forall_mem_cons.mp hbalance
    cases parts with
    | nil => simpa [separatedBy] using hp
    | cons q parts =>
      simp [Parser.separatedBy_cons_cons, hp, hpbalance, hm, hcolon, ih hbalance hparts]

/-- The colons of the columns themselves are why a bracket has to be open. -/
theorem Columns.colonsInside {ds : List ColumnPart} {ts : List Token} (h : Columns ds ts)
    (hdepth : 0 < depth) (hbalance : ∀ d ∈ ds, Token.balance d.value.1 = 0)
    (hds : ∀ d ∈ ds, ColonsInside 0 d.value.1) : ColonsInside depth ts := by
  have htokens : ∀ d ∈ ds, ColonsInside depth d.tokens ∧ Token.balance d.tokens = 0 := by
    intro d hd
    have hvalue : ColonsInside depth d.value.1 := (hds d hd).mono (Int.le_of_lt hdepth)
    simp [ColumnPart.tokens, hvalue, hbalance d hd, hdepth, Mark.depth]
  clear hds hbalance
  induction h with
  | none => trivial
  | last d => exact (htokens d List.mem_cons_self).1
  | @more d ds ts _ ih =>
    obtain ⟨⟨hd, hdbalance⟩, hds⟩ := List.forall_mem_cons.mp htokens
    simp [hd, hdbalance, ih hds, Mark.depth]

theorem ChainOperator.ne_colon {c : Chain} {m : Mark} {op : BinOp} (h : ChainOperator c m op) :
    m ≠ .colon := by
  cases h <;> decide

theorem ComparisonOperator.ne_colon {m : Mark} {op : BinOp} (h : ComparisonOperator m op) :
    m ≠ .colon := by
  cases h <;> decide

theorem colonsInside_vector (as : List Atom) : ColonsInside depth (as.map .literal) := by
  induction as with
  | nil => trivial
  | cons a as ih => simpa using ih

theorem Derives.colonsInside {ph : Phrase} {ts : List Token} {e : Expr} (h : Derives n ph ts e) :
    ColonsInside 0 ts := by
  -- Behind an opening bracket the depth is one, and what holds at depth zero holds there.
  have inside {α : Type} {items : List (Segment α)} (hbalance : ∀ p ∈ items, Token.balance p.1 = 0)
      (hitems : ∀ p ∈ items, ColonsInside 0 p.1) :
      ColonsInside 1 (separatedBy .semicolon items) :=
    colonsInside_separatedBy rfl (by decide) hbalance fun p hp => (hitems p hp).mono (by decide)
  induction h with
  | nested _ ih | alone _ ih | applied _ ih | plain _ ih => exact ih
  | comparison hm hl _ ihl ihr => simp [ihl, ihr, hl.balance, hm.depth, hm.ne_colon]
  | chain hl _ ihl ihr => simp [ihl, ihr, hl.balance]
  | link hm hl _ ihl ihr => simp [ihl, ihr, hl.balance, hm.depth, hm.ne_colon]
  | negate _ ih => simpa [Mark.depth] using ih
  | call hhead hargs ih =>
    have hargs := inside (fun p hp => (hargs p hp).balance) ih
    cases hhead <;> simp [hargs, Mark.depth]
  | juxtaposed _ _ ih => simpa using ih
  | noLinks => trivial
  | emptyList | literal | function | name => simp
  | vector _ => exact colonsInside_vector _
  | paren _ ih => simp [ih.mono (show (0 : Int) ≤ 1 by decide), Mark.depth]
  | list _ hitems ih =>
    simp [inside (fun p hp => (hitems p hp).balance) ih, Mark.depth]
  | table hks hkeys hcs hcolumns ihks ihcs =>
    have hkeysBalance := fun d hd => (hkeys d hd).balance
    have hcolumnsBalance := fun d hd => (hcolumns d hd).balance
    have hks' : ColonsInside 2 _ := hks.colonsInside (by decide) hkeysBalance ihks
    have hcs' : ColonsInside 1 _ := hcs.colonsInside (by decide) hcolumnsBalance ihcs
    simp [hks', hcs', hks.balance hkeysBalance, Mark.depth]

end Grammar

namespace Lexer

open Text

theorem isNumeric_colon : isNumeric ':' = false := by decide

theorem Word.splitColonFrom {word : List Char} {t : Token} {depth : Int} (h : Word word t)
    (hfunction : ∀ source, t ≠ .function source) (hcolon : t = .mark .colon → 0 < depth) :
    Text.splitColonFrom .code depth word = none := by
  have none_of_class {p : Char → Bool} (hp : p ':' = false) {cs : List Char}
      (hcs : ∀ c ∈ cs, p c = true) : ':' ∉ cs := by
    intro hmem
    rw [hcs ':' hmem] at hp
    cases hp
  cases h with
  | less | notEqual | lessEqual | greater | greaterEqual => exact splitColonFrom_eq_none (by decide)
  | @punctuation c m hm =>
    by_cases hc : c = ':'
    · subst hc
      cases hm
      have hdepth : depth ≠ 0 := (hcolon rfl).ne'
      simp [Text.splitColonFrom, hdepth]
    · exact splitColonFrom_eq_none (by simpa using Ne.symm hc)
  | text hbody =>
    have hnext : Quoting.code.next '"' = .quoted := rfl
    simp [Text.splitColonFrom, hnext, (Quoted.of_textBody hbody).colon]
  | symbol hcs =>
    refine splitColonFrom_eq_none (List.not_mem_cons_of_ne_of_not_mem (by decide) ?_)
    exact none_of_class (by decide +kernel) hcs
  | function => exact absurd rfl (hfunction _)
  | numeric a hword => exact splitColonFrom_eq_none (none_of_class isNumeric_colon hword)
  | identifier hword =>
    exact splitColonFrom_eq_none
      (none_of_class (by decide +kernel) (isWordChar_of_isIdentifier hword))

theorem Lexemes.splitColonFrom {cs : List Char} {ts : List Token} {depth : Int} (h : Lexemes cs ts)
    (hfunction : ∀ source, Token.function source ∉ ts) (hcolons : Token.ColonsInside depth ts) :
    Text.splitColonFrom .code depth cs = .none := by
  have skip {blanks : List Char} (hblanks : ∀ c ∈ blanks, isBlank c = true) : ':' ∉ blanks :=
    fun hmem => nomatch hblanks ':' hmem
  induction h generalizing depth with
  | none hblank => exact splitColonFrom_eq_none (skip hblank)
  | @more blanks word rest t ts hblank hword hrest ih =>
    obtain ⟨hcolon, hcolons⟩ := hcolons
    have hne (source : String) : t ≠ .function source := by
      rintro rfl
      exact hfunction source List.mem_cons_self
    have hdepth : depthFrom .code word = Token.balance [t] := by
      have hsum := Token.sum_depth [t]
      have hnone : Token.literalDepths [t] = 0 := by
        refine Token.literalDepths_eq_zero fun source hmem => ?_
        exact hne source (List.mem_singleton.mp hmem).symm
      rw [hnone, Int.add_zero, List.map_singleton, List.sum_singleton] at hsum
      exact hword.spells.depth.trans hsum
    have hinert := fun c hc => isInert_of_isBlank (hblank c hc)
    have hrest' := ih (fun source hmem => hfunction source (List.mem_cons_of_mem t hmem)) hcolons
    rw [splitColonFrom_append (splitColonFrom_eq_none (skip hblank)), after_code_of_inert hinert,
      depthFrom_of_inert hinert, Int.add_zero,
      splitColonFrom_append (hword.splitColonFrom hne hcolon), hword.spells.ends, hdepth, hrest']
    rfl

end Lexer

end TableConsole
