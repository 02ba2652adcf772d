import TableConsole.Proofs.Syntax.Budget
import TableConsole.Proofs.Syntax.Completeness
import TableConsole.Proofs.Syntax.Soundness

/-! # The parser accepts its grammar

What the parser answers are the trees that the grammar derives within the levels of nesting. What
takes more levels is too deep. A token list has one tree at most, however many levels it takes.
-/

namespace TableConsole.Parser

open Grammar

set_option autoImplicit false

variable {n : Nat}

theorem comparison_of_derives {ts : List Token} {e : Expr} (h : DerivesExpr n ts e) {k : Nat}
    (hk : n ≤ k) {rest : List Token} (hrest : Follows rest) :
    (level k).comparison (ts ++ rest) = .ok (e, rest) := by
  have hread := (reads_of_derives h).takes.eq hrest
  obtain hdeep | hsame := (withinBelow hk).comparison (ts ++ rest)
  · rw [hread] at hdeep
    cases hdeep
  · exact hsame.symm.trans hread

theorem derives_unique {m : Nat} {ts : List Token} {e e' : Expr} (h : DerivesExpr n ts e)
    (h' : DerivesExpr m ts e') : e = e' := by
  have hread := comparison_of_derives h (Nat.le_max_left n m) .nil
  have hread' := comparison_of_derives h' (Nat.le_max_right n m) .nil
  rw [hread] at hread'
  cases hread'
  rfl

theorem takes_expression (ts : List Token) (e : Expr) (h : DerivesExpr n ts e) :
    Takes (maxNesting < n) expression (ts, e) := by
  intro rest hrest
  by_cases hn : n ≤ maxNesting
  · exact .inl (comparison_of_derives h hn hrest)
  · have hread := comparison_of_derives h (Nat.le_refl n) hrest
    obtain hdeep | hsame := (withinBelow (Nat.le_of_not_le hn)).comparison (ts ++ rest)
    · exact .inr ⟨Nat.lt_of_not_le hn, hdeep⟩
    · exact .inl (hsame.trans hread)

theorem parseExpr_gives {ts : List Token} {e : Expr} (h : DerivesExpr n ts e) :
    Gives (maxNesting < n) (parseExpr ts) e := by
  have hread : Gives (maxNesting < n) (expression ts) (e, []) := by
    simpa using takes_expression ts e h [] .nil
  exact hread.bind (.inl rfl)

/-- No expression goes on with a colon behind its first name. -/
theorem ne_name_colon {ts rest : List Token} {e : Expr} (h : DerivesExpr n ts e)
    (hrest : Follows rest) (x : String) (us : List Token) :
    ts ++ rest ≠ .name x :: .mark .colon :: us := by
  intro hts
  cases h with
  | @nested k _ _ _ h =>
    have hread := reads_of_derives h rest hrest.ends
    have hname : phraseReader k .expression (.name x :: .mark .colon :: us) =
        .ok (.name x, .mark .colon :: us) := rfl
    rw [hts, hname] at hread
    cases hread
    cases hrest with
    | mark h => cases h

theorem takes_projection (ts : List Token) (p : Projection) (h : DerivesProjection n ts p) :
    Takes (maxNesting < n) projection (ts, p) := by
  intro rest hrest
  cases h with
  | named x h => exact (takes_expression _ _ h rest hrest).bind (.inl rfl)
  | @unnamed _ e h =>
    have hprojection : projection (ts ++ rest) =
        expression (ts ++ rest) >>= fun read => .ok (⟨none, read.1⟩, read.2) := by
      unfold projection
      split
      · rename_i x us hts
        exact absurd hts (ne_name_colon h hrest x us)
      · rfl
    rw [hprojection]
    exact (takes_expression ts e h rest hrest).bind (.inl rfl)

theorem projection_start {ts : List Token} {p : Projection} (h : DerivesProjection n ts p) :
    PhraseStart ts := by
  cases h with
  | named x _ => exact .operand (.name x _)
  | unnamed h => exact h.start rfl

theorem sequence_gives {α : Type} {deep : Prop} {item : Reader α}
    {derives : List Token → α → Prop} (hitem : ∀ us x, derives us x → Takes deep item (us, x))
    {ts : List Token} {xs : List α} (h : Sequence derives .comma ts xs) {rest : List Token}
    (hrest : Follows rest) (hend : skip? .comma rest = none) :
    Gives deep (separated item .comma (ts ++ rest)) (xs, rest) := by
  obtain ⟨parts, hne, hparts, rfl, rfl⟩ := h.exists_parts
  exact separated_gives .comma hne (fun p hp => hitem p.1 p.2 (hparts p hp)) hrest hend

theorem selected_gives {ts : List Token} {ps : List Projection}
    (h : Optional (Sequence (DerivesProjection n) .comma) ts ps) {m : Mark}
    (hm : m = .kwBy ∨ m = .kwFrom) (rest : List Token) :
    Gives (maxNesting < n) (selected (ts ++ .mark m :: rest)) (ps, .mark m :: rest) := by
  cases h with
  | absent => obtain rfl | rfl := hm <;> exact .inl rfl
  | present h =>
    have hstart : PhraseStart (ts ++ .mark m :: rest) := by
      obtain ⟨parts, hne, hparts, rfl, -⟩ := h.exists_parts
      exact separatedBy_start hne (fun p hp => projection_start (hparts p hp)) _
    have hby := skip?_of_start hstart (.inl .kwBy)
    have hfrom := skip?_of_start hstart (.inl .kwFrom)
    have hclosing : Closing m := by obtain rfl | rfl := hm <;> constructor
    have hend : skip? .comma (.mark m :: rest) = none := by obtain rfl | rfl := hm <;> rfl
    have hread := sequence_gives takes_projection h (.mark hclosing rest) hend
    simpa [selected, hby, hfrom, projections] using hread

theorem clause_gives {α : Type} {deep : Prop} {item : Reader α} {derives : List Token → α → Prop}
    (hitem : ∀ us x, derives us x → Takes deep item (us, x)) {m : Mark} {ts : List Token}
    {xs : List α} (h : Optional (Clause m (Sequence derives .comma)) ts xs) {rest : List Token}
    (hrest : Follows rest) (habsent : skip? m rest = none) (hend : skip? .comma rest = none) :
    Gives deep (clause m (separated item .comma) (ts ++ rest)) (xs, rest) := by
  cases h with
  | absent => exact .inl (by simp [clause, habsent])
  | present h =>
    obtain ⟨h⟩ := h
    have hread := sequence_gives hitem h hrest hend
    simpa [clause] using hread

theorem parseQuery_gives {ts : List Token} {q : Query} (h : DerivesQuery n ts q) :
    Gives (maxNesting < n) (parseQuery ts) q := by
  obtain @⟨ps, gs, fs, source, projections, groups, filters, hps, hgs, hfs⟩ := h
  have hsource : Follows (.mark .kwFrom :: .name source :: fs) := .mark .kwFrom _
  have hprojections : Gives (maxNesting < n)
      (selected (ps ++ (gs ++ .mark .kwFrom :: .name source :: fs)))
      (projections, gs ++ .mark .kwFrom :: .name source :: fs) := by
    cases hgs with
    | absent => exact selected_gives hps (.inr rfl) _
    | present hgs =>
      cases hgs with
      | of _ => exact selected_gives hps (.inl rfl) _
  have hgroups : Gives (maxNesting < n)
      (clause .kwBy Parser.projections (gs ++ .mark .kwFrom :: .name source :: fs))
      (groups, .mark .kwFrom :: .name source :: fs) :=
    clause_gives takes_projection hgs hsource rfl rfl
  have hfilters : Gives (maxNesting < n)
      (clause .kwWhere (separated expression .comma) fs) (filters, []) := by
    simpa using clause_gives takes_expression hfs .nil rfl rfl
  unfold parseQuery
  simp only [expect_self, Except.ok_bind, List.append_assoc]
  refine hprojections.bind (hgroups.bind ?_)
  simp only [expect_self, Except.ok_bind, expectName]
  exact hfilters.bind (.inl rfl)

theorem parse_accepts_grammar (ts : List Token) :
    ((∀ e, parseExpr ts = .ok e ↔ DerivesExpr maxNesting ts e) ∧
      ∀ n e, DerivesExpr n ts e → ¬ DerivesExpr maxNesting ts e →
        parseExpr ts = .error .tooDeep) ∧
    (∀ q, parseQuery ts = .ok q ↔ DerivesQuery maxNesting ts q) ∧
      ∀ n q, DerivesQuery n ts q → ¬ DerivesQuery maxNesting ts q →
        parseQuery ts = .error .tooDeep := by
  have hlimit : ¬ maxNesting < maxNesting := Nat.lt_irrefl maxNesting
  refine ⟨⟨fun e => ⟨derives_of_parseExpr, ?_⟩, ?_⟩, fun q => ⟨derives_of_parseQuery, ?_⟩, ?_⟩
  · intro h
    exact (parseExpr_gives h).resolve_right fun ⟨hdeep, _⟩ => hlimit hdeep
  · intro n e h hlevels
    obtain hok | ⟨-, hdeep⟩ := parseExpr_gives h
    · exact absurd (derives_of_parseExpr hok) hlevels
    · exact hdeep
  · intro h
    exact (parseQuery_gives h).resolve_right fun ⟨hdeep, _⟩ => hlimit hdeep
  · intro n q h hlevels
    obtain hok | ⟨-, hdeep⟩ := parseQuery_gives h
    · exact absurd (derives_of_parseQuery hok) hlevels
    · exact hdeep

end TableConsole.Parser
