import TableConsole.Proofs.Syntax.Acceptance
import TableConsole.Proofs.Syntax.Colons
import TableConsole.Proofs.Syntax.Identifier
import TableConsole.Proofs.Syntax.Joining
import TableConsole.Session.Evaluate

/-! # The shapes of expressions and queries

The shape of a statement is decided before anything is read. An expression without function
literals has no colon outside brackets, so it is never a binding. A query may have such colons
behind the names of its columns; it starts with `select` and more, so what stands before the first
one is no identifier, and the text stays a query, unless a brace before that colon makes it a
definition.
-/

namespace TableConsole

set_option autoImplicit false

open Text

/-- A colon inside brackets or quotes binds nothing. -/
theorem Statement.isBinding_of_expression {s : String} {ts : List Token} {e : Expr}
    (hts : Token.ofText s = .ok ts) (hfunction : ∀ source, Token.function source ∉ ts)
    (he : Expr.ofText s = .ok e) : (Statement.ofText s).isBinding = false := by
  have hparse : Parser.parseExpr ts = .ok e := by
    simpa [Expr.ofText, Parser.tokens, hts, Except.mapError] using he
  have hcolons := (Parser.derives_of_parseExpr hparse).colonsInside
  have hlexemes := Token.lexemes_ofText (Token.ofText_trim hts)
  rw [String.toList_ofList] at hlexemes
  have hnone : Statement.binding? (trim s.toList) = none := by
    rw [Statement.binding?, splitColon?, hlexemes.splitColonFrom hfunction hcolons]
  rw [Statement.ofText, Statement.ofTrimmed, hnone]
  dsimp only
  split
  · rfl
  · split <;> rfl

/-- Colons behind column names on two levels and in texts, beside quotes and brackets. -/
theorem Statement.isBinding_of_expression_table :
    let s := "([k: 1 2] a: `x`y; b: (\"p: \\\"q)\";([] c: \"\x7b:\")))"
    (∃ ts, Token.ofText s = .ok ts ∧ ∀ source, Token.function source ∉ ts) ∧
      (∃ e, Expr.ofText s = .ok e) ∧ (Statement.ofText s).isBinding = false := by
  intro s
  obtain ⟨ts, hts⟩ : ∃ ts, Token.ofText s = .ok ts :=
    Except.exists_ok_of_isSome (by decide +kernel)
  obtain ⟨e, he⟩ : ∃ e, Expr.ofText s = .ok e :=
    Except.exists_ok_of_isSome (by decide +kernel)
  have hall : ts.all (!·.isFunction) = true :=
    Except.of_all_toOption (p := fun ts => ts.all (!·.isFunction)) (by decide +kernel) hts
  have hfunction (source : String) : Token.function source ∉ ts := fun hmem => by
    simpa [Token.isFunction] using List.all_eq_true.mp hall _ hmem
  exact ⟨⟨ts, hts, hfunction⟩, ⟨e, he⟩, isBinding_of_expression hts hfunction he⟩

/-- What cannot stand behind the first word of an expression or a query. -/
inductive BindsOrCalls : Char → Mark → Prop
  | colon : BindsOrCalls ':' .colon
  | bracket : BindsOrCalls '[' .openBracket

/-- An identifier with a colon or a bracket behind it makes the first two tokens. -/
theorem Token.ofText_of_identifier {s : String} {before after : List Char} {c : Char} {m : Mark}
    {ts : List Token} (hs : s.toList = before ++ c :: after)
    (hbefore : isIdentifier (trim before) = true) (hm : BindsOrCalls c m)
    (h : Token.ofText s = .ok ts) :
    ∃ rest, ts = Lexer.wordToken (trim before) :: .mark m :: rest := by
  obtain ⟨front, back, heq, hfront, hback⟩ := exists_trim before
  have hread (limit : Nat) : Lexer.readAll (limit + 1) (c :: after) =
      (Lexer.readAll limit after).map (.mark m :: ·) := by
    have hone : isBlank c = false ∧ Lexer.read c after = .ok (.mark m, after) := by
      cases hm <;> exact ⟨rfl, rfl⟩
    rw [Lexer.readAll, dropBlank_eq_self hone.1]
    simp only [hone.2, Except.ok_bind]
    cases Lexer.readAll limit after <;> rfl
  have htail : Lexer.startsWordChar (back ++ c :: after) = false := by
    cases back with
    | nil =>
      cases hm with
      | colon => exact (by decide +kernel : isWordChar ':' = false)
      | bracket => exact (by decide +kernel : isWordChar '[' = false)
    | cons b back =>
      by_contra hword
      have hword : isWordChar b = true := by simpa [Lexer.startsWordChar] using hword
      simpa [isBlank_of_isWordChar hword] using hback b List.mem_cons_self
  have htokens (n : Nat) : Lexer.readAll (n + 2) (before ++ c :: after) =
      (Lexer.readAll n after).map fun rest => Lexer.wordToken (trim before) :: .mark m :: rest := by
    have hfront : dropBlank front = [] := List.dropWhile_eq_nil_iff.mpr hfront
    have hback : dropBlank back = [] := List.dropWhile_eq_nil_iff.mpr hback
    conv_lhs => rw [heq, List.append_assoc, List.append_assoc]
    rw [Lexer.readAll_append_of_blank hfront, Lexer.readAll_identifier hbefore htail,
      Lexer.readAll_append_of_blank hback, hread]
    cases Lexer.readAll n after <;> rfl
  have hlength : 2 ≤ s.toList.length := by
    obtain ⟨_, _, hcons, -, -⟩ := exists_cons_of_isIdentifier hbefore
    rw [hs, heq, hcons]
    simp only [List.length_append, List.length_cons]
    omega
  obtain ⟨n, hn⟩ := Nat.exists_eq_add_of_le' hlength
  rw [Token.ofText, Token.ofChars, Except.mapError_eq_ok_iff, hn, hs, htokens] at h
  obtain ⟨rest, -, rfl⟩ := Except.map_eq_ok_iff.mp h
  exact ⟨rest, rfl⟩

namespace Grammar

theorem PhraseStart.not_bindsOrCalls {ts us : List Token} {c : Char} {m : Mark} (h : PhraseStart ts)
    (hm : BindsOrCalls c m) : ts ≠ .mark m :: us := by
  rintro rfl
  cases h with
  | operand h =>
    cases h
    cases hm
  | minus | wavg => cases hm

theorem DerivesQuery.not_bindsOrCalls {n : Nat} {ts us : List Token} {q : Query} {t : Token}
    {c : Char} {m : Mark} (h : DerivesQuery n ts q) (hm : BindsOrCalls c m) :
    ts ≠ t :: .mark m :: us := by
  intro hts
  obtain @⟨ps, gs, fs, source, _, _, _, hps, hgs, -⟩ := h
  have hrest := (List.cons_eq_cons.mp hts).2
  cases hps with
  | present hps =>
    obtain ⟨parts, hne, hparts, rfl, -⟩ := hps.exists_parts
    have hstart := Parser.separatedBy_start (m := .comma) hne
      (fun p hp => Parser.projection_start (hparts p hp)) (gs ++ .mark .kwFrom :: .name source :: fs)
    rw [List.append_assoc] at hrest
    exact hstart.not_bindsOrCalls hm hrest
  | absent =>
    cases hgs with
    | absent =>
      cases hrest
      cases hm
    | present hgs =>
      cases hgs
      cases hrest
      cases hm

end Grammar

theorem Lexer.Word.select {word : List Char} (h : Word word (.mark .kwSelect)) :
    foldCase word = "select".toList := by
  generalize ht : Token.mark .kwSelect = t at h
  cases h with
  | punctuation hm =>
    cases ht
    unfold punctuation? at hm
    split at hm <;> cases hm
  | identifier hword =>
    unfold wordToken at ht
    split at ht
    · rename_i hselect
      rw [foldCase, ← hselect, String.toList_ofList]
    all_goals cases ht
  | less | notEqual | lessEqual | greater | greaterEqual | text | symbol | function | numeric =>
    cases ht

def Text.braceBeforeColon (cs : List Char) : Bool :=
  (splitColon? cs).any fun (before, _) => before.contains '{'

theorem Text.braceBeforeColon_trim {cs : List Char} (h : braceBeforeColon cs = false) :
    braceBeforeColon (trim cs) = false := by
  obtain ⟨front, back, hcs, hfront, -⟩ := exists_trim cs
  cases hsplit : splitColon? (trim cs) with
  | none => simp [braceBeforeColon, hsplit]
  | some split =>
    obtain ⟨before, after⟩ := split
    have hcolon : ':' ∉ front := fun hmem => nomatch hfront ':' hmem
    have hinert := fun c hc => isInert_of_isBlank (hfront c hc)
    have houter : splitColon? cs = some (front ++ before, after ++ back) := by
      rw [splitColon?] at hsplit ⊢
      rw [hcs, List.append_assoc, splitColonFrom_append (splitColonFrom_eq_none hcolon),
        after_code_of_inert hinert, depthFrom_of_inert hinert,
        splitColonFrom_append_of_some (by simpa using hsplit)]
      rfl
    have hfront : '{' ∉ front ++ before := by
      simpa [braceBeforeColon, houter] using h
    have hbefore : '{' ∉ before := fun hmem => hfront (List.mem_append_right front hmem)
    simpa [braceBeforeColon, hsplit] using hbefore

/-- The text is a query statement: it is answered as the query, and nothing is bound. -/
structure RunsQuery (s : String) (q : Query) : Prop where
  statement : Statement.ofText s = .query (String.ofList (trim s.toList))
  computed : ∀ settings symbols, settings.mode = .computed →
    evaluate settings symbols s =
      ((Evaluation.echoing settings (String.ofList (trim s.toList))
        ((q.answer (Evaluation.scope settings symbols)).map .table)).map .value, symbols)
  canned : ∀ settings symbols, settings.mode = .canned →
    evaluate settings symbols s =
      (.ok (.value (.table (Sample.query (String.ofList (trim s.toList))))), symbols)

theorem Query.exists_tokens {s : String} {q : Query} (h : Query.ofText s = .ok q) :
    ∃ ts, Token.ofText s = .ok ts ∧ Grammar.DerivesQuery maxNesting ts q := by
  obtain ⟨ts, hts, hq⟩ := Except.bind_eq_ok_iff.mp h
  exact ⟨ts, Except.mapError_eq_ok_iff.mp hts, Parser.derives_of_parseQuery hq⟩

theorem Query.ofText_trim {s : String} {q : Query} (h : Query.ofText s = .ok q) :
    Query.ofText (String.ofList (trim s.toList)) = .ok q := by
  obtain ⟨ts, hts, hq⟩ := Except.bind_eq_ok_iff.mp h
  have htrim := Token.ofText_trim (Except.mapError_eq_ok_iff.mp hts)
  exact Except.bind_eq_ok_iff.mpr ⟨ts, Except.mapError_eq_ok_iff.mpr htrim, hq⟩

section Shape

variable {cs : List Char}

theorem Statement.binding?_eq_none (hbrace : braceBeforeColon cs = false)
    (h : ∀ before after, cs = before ++ ':' :: after → isIdentifier (trim before) = false) :
    Statement.binding? cs = none := by
  unfold Statement.binding?
  split
  · rfl
  · rename_i before after hsplit
    have hidentifier := h before after (eq_of_splitColonFrom hsplit)
    have hmem : '{' ∉ trim before := fun hmem => by
      obtain ⟨front, back, hbefore, -⟩ := exists_trim before
      have hbrace : '{' ∉ before := by simpa [braceBeforeColon, hsplit] using hbrace
      rw [hbefore] at hbrace
      simp [hmem] at hbrace
    simp [hmem, hidentifier]

theorem Statement.callee?_eq_none
    (h : ∀ before after, cs = before ++ '[' :: after → isIdentifier (trim before) = false) :
    Statement.callee? cs = none := by
  by_cases hopen : '[' ∈ cs
  · obtain ⟨before, after, hcs, hnone⟩ := List.eq_append_cons_of_mem hopen
    have htake : cs.takeWhile (· != '[') = before := by
      have hbefore : ∀ c ∈ before, (c != '[') = true := by
        intro c hc
        exact bne_iff_ne.mpr fun heq => hnone (heq ▸ hc)
      rw [hcs, List.takeWhile_append_of_pos hbefore]
      simp
    simp [Statement.callee?, htake, h before after hcs]
  · simp [Statement.callee?, hopen]

theorem Lexer.Lexemes.startsSelect {ts : List Token} (h : Lexemes cs (.mark .kwSelect :: ts))
    (hhead : ∀ c ds, cs = c :: ds → isBlank c = false) : Statement.startsSelect cs = true := by
  cases h with
  | @more blanks word rest _ _ hblanks hword _ =>
    have hnone : blanks = [] := by
      cases blanks with
      | nil => rfl
      | cons b blanks =>
        have hb := hhead b _ rfl
        rw [hblanks b List.mem_cons_self] at hb
        cases hb
    subst hnone
    have hword : foldCase (word ++ rest) = "select".toList ++ foldCase rest := by
      rw [← hword.select]
      exact List.map_append
    rw [List.nil_append, Statement.startsSelect, hword]
    exact List.isPrefixOf_iff_prefix.mpr (List.prefix_append _ _)

end Shape

theorem Statement.ofText_of_query {s : String} {q : Query} (h : Query.ofText s = .ok q)
    (hbrace : braceBeforeColon s.toList = false) :
    Statement.ofText s = .query (String.ofList (trim s.toList)) := by
  obtain ⟨ts, hts, hderives⟩ := Query.exists_tokens (Query.ofText_trim h)
  have hlexemes := Token.lexemes_ofText hts
  have hnot {c : Char} {m : Mark} (hm : BindsOrCalls c m) (before after : List Char)
      (hcs : trim s.toList = before ++ c :: after) : isIdentifier (trim before) = false := by
    by_contra hbefore
    rw [Bool.not_eq_false] at hbefore
    obtain ⟨rest, rfl⟩ := Token.ofText_of_identifier (by rwa [String.toList_ofList]) hbefore hm hts
    exact hderives.not_bindsOrCalls hm rfl
  rw [String.toList_ofList] at hlexemes
  have hbinding := Statement.binding?_eq_none (braceBeforeColon_trim hbrace) (hnot .colon)
  have hcallee := Statement.callee?_eq_none (hnot .bracket)
  have hselect : Statement.startsSelect (trim s.toList) = true := by
    obtain ⟨-, -, -⟩ := hderives
    exact hlexemes.startsSelect fun _ _ => isBlank_of_trim_eq_cons
  rw [Statement.ofText, Statement.ofTrimmed, hbinding]
  simp [hcallee, hselect]

/-- A query without a brace before its first colon outside brackets runs as a query. -/
theorem query_runsQuery {s : String} {q : Query} (h : Query.ofText s = .ok q)
    (hbrace : braceBeforeColon s.toList = false) : RunsQuery s q where
  statement := Statement.ofText_of_query h hbrace
  computed settings symbols hmode := by
    have hread : Evaluation.readQuery (String.ofList (trim s.toList)) = .ok q :=
      Except.mapError_eq_ok_iff.mpr (Query.ofText_trim h)
    rw [evaluate, evaluateStatement, Statement.ofText_of_query h hbrace, Evaluation.statement,
      Evaluation.query]
    simp only [hmode, hread, Except.ok_bind]
    cases q.answer (Evaluation.scope settings symbols) <;> rfl
  canned settings symbols hmode := by
    rw [evaluate, evaluateStatement, Statement.ofText_of_query h hbrace, Evaluation.statement,
      Evaluation.query]
    simp only [hmode]
    rfl

theorem query_runsQuery_named :
    let s := " Select p: f[price;([] a: 1 2)], {x:y} by k: sym from trade where size>(2*3)"
    (∃ q, Query.ofText s = .ok q ∧ RunsQuery s q) ∧ braceBeforeColon s.toList = false := by
  intro s
  obtain ⟨q, hq⟩ : ∃ q, Query.ofText s = .ok q :=
    Except.exists_ok_of_isSome (by decide +kernel)
  have hbrace : braceBeforeColon s.toList = false := by decide +kernel
  exact ⟨⟨q, hq, query_runsQuery hq hbrace⟩, hbrace⟩

/-- A function literal in front of a named column, and a brace in a text in front of one. -/
theorem queries_taken_for_definitions :
    let literal := "select {x}, p: price from trade"
    let quoted := "select \"\x7b\", p: price from trade"
    (∃ q, Query.ofText literal = .ok q) ∧ (∃ q, Query.ofText quoted = .ok q) ∧
      Statement.ofText literal = .definition "select" literal ∧
      Statement.ofText quoted = .definition "select \"" quoted ∧
      (evaluate {} Sample.symbols literal).2.get? "select" = some (.function literal) := by
  intro literal quoted
  have hliteral : Statement.ofText literal = .definition "select" literal := by decide +kernel
  refine ⟨Except.exists_ok_of_isSome (by decide +kernel),
    Except.exists_ok_of_isSome (by decide +kernel), hliteral, by decide +kernel, ?_⟩
  rw [evaluate, evaluateStatement, hliteral]
  exact Sample.symbols.get?_insert_self "select" _

end TableConsole
