import TableConsole.Proofs.Eval.Nesting
import TableConsole.Proofs.Session.Invariant

/-! # Nesting from statement to statement

Only list literals are checked for their nesting. That is enough as long as no index has a list among
its items and no result for a group is a list of cells. What a statement binds is there for the next
one, so otherwise a session can nest lists without a limit: a group is a list of what the cells of its
rows hold, and there is one level more whenever a table is grouped again.
-/

namespace TableConsole

set_option autoImplicit false

/-- The list is bound, or stands in a cell of a table that is bound. -/
inductive Symbols.Holds (s : Symbols) (items : List Value) : Prop
  | bound {name : String} : s.get? name = some (.list items) → s.Holds items
  | cell {name : String} {t : Table Value} {row : List Value} :
    s.get? name = some (.table t) → row ∈ t.rows → .list items ∈ row → s.Holds items

theorem Value.eq_list_of_kind {v : Value} (h : v.kind = .list) : ∃ items, v = .list items := by
  cases v with
  | list items => exact ⟨items, rfl⟩
  | atom a => cases a <;> cases h
  | table | function => cases h

namespace Session

/-- Lists obey the limit while indices are atoms or lists of atoms, and results for groups are less
than whole columns; a name counts as nested to the limit. -/
theorem nesting_le_of_plain (settings : Settings) {texts : List String}
    (htexts : ∀ text ∈ texts, plainLine text = true) {items : List Value}
    (h : ((fresh settings).after texts).symbols.Holds items) :
    (Value.list items).nesting ≤ maxNesting := by
  have hsymbols := Invariant.keeps_after Invariant.limited_kept (s := fresh settings)
    (Invariant.onSymbols_empty _) texts fun text htext => .inr (htexts text htext)
  cases h with
  | bound hv => exact hsymbols _ _ hv
  | cell ht hrow hv =>
    have hcells := Value.nesting_table_le_iff.mp (hsymbols _ _ ht)
    exact Nat.le_succ_of_le (hcells _ hrow _ hv)

theorem nesting_le_of_plain_indices :
    let texts := ["x: ((1;2);3)", "t: ([] a: x; b: 0)", "x: (x[0];t[`a] (0;1))",
      "t: select n: count i, c: x[1], m: 2 * max b by a from t"]
    (∀ text ∈ texts, plainLine text = true) ∧ ∃ items,
      ((fresh {}).after texts).symbols.Holds items ∧ (Value.list items).nesting ≤ maxNesting := by
  intro texts
  have hplain : texts.all plainLine = true := by decide +kernel
  have htexts := List.all_eq_true.mp hplain
  have hkind : (((fresh {}).after texts).symbols.get? "x").map Value.kind = some .list := by
    decide +kernel
  obtain ⟨v, hv, hkind⟩ := Option.map_eq_some_iff.mp hkind
  obtain ⟨items, rfl⟩ := Value.eq_list_of_kind hkind
  exact ⟨htexts, items, .bound hv, nesting_le_of_plain {} htexts (.bound hv)⟩

end Session

theorem evaluate_assigned_query {settings : Settings} {symbols : Symbols}
    {line name text : String} {q : Query} {t : Table Value}
    (hline : Statement.ofText line = .assignment name text)
    (htext : Statement.ofText text = .query text) (hmode : settings.mode = .computed)
    (hquery : Query.ofText text = .ok q)
    (hanswer : q.answer (Evaluation.scope settings symbols) = .ok t) :
    (evaluate settings symbols line).2 = symbols.insert name (.table t) := by
  have hvalue : Evaluation.query settings symbols text = .ok (.table t) := by
    unfold Evaluation.query
    rw [hmode, Evaluation.readQuery, hquery]
    simp only [Except.mapError, Except.ok_bind, hanswer]
    rfl
  have hright : Evaluation.rightHandSide settings maxNesting text symbols =
      (.ok (.table t), symbols) := by
    change Evaluation.rightHandSide settings (127 + 1) text symbols = _
    simp only [Evaluation.rightHandSide, htext, Evaluation.statement, hvalue]
    rfl
  rw [evaluate, evaluateStatement, hline, Evaluation.statement, hright]
  rfl

def Projection.column? : Projection → Option String
  | ⟨none, .name column⟩ => some column
  | _ => none

theorem Projection.eq_of_column? {p : Projection} {column : String}
    (h : p.column? = some column) : p = ⟨none, .name column⟩ := by
  unfold Projection.column? at h
  split at h <;> cases h
  rfl

def regrouping : Query :=
  ⟨[⟨none, .name "result"⟩], [⟨none, .name "i"⟩], "t", []⟩

theorem ofText_regrouping : Query.ofText "select result by i from t" = .ok regrouping := by
  have hread : (Query.ofText "select result by i from t").toOption.map (fun q =>
      (q.projections.map Projection.column?, q.groups.map Projection.column?, q.source,
        q.filters.length)) = some ([some "result"], [some "i"], "t", 0) := by decide +kernel
  obtain ⟨⟨projections, groups, source, filters⟩, hq, hparts⟩ := Option.map_eq_some_iff.mp hread
  simp only [Prod.mk.injEq, List.map_eq_singleton_iff, List.length_eq_zero_iff] at hparts
  obtain ⟨⟨p, rfl, hp⟩, ⟨g, rfl, hg⟩, rfl, rfl⟩ := hparts
  rw [Projection.eq_of_column? hp, Projection.eq_of_column? hg] at hq
  exact Except.toOption_eq_some_iff.mp hq

def Value.wrapped (v : Value) : Nat → Value
  | 0 => v
  | n + 1 => .list [v.wrapped n]

theorem Value.nesting_wrapped (v : Value) (n : Nat) : (v.wrapped n).nesting = v.nesting + n := by
  induction n with
  | zero => rfl
  | succ n ih =>
    simp only [Value.wrapped, Value.nesting, Value.itemsNesting, Nat.zero_max, ih]
    rfl

def regrouped : Nat → Table Value
  | 0 => Sample.placeholder
  | n + 1 =>
    ⟨["i", "result"],
      [[.number (Float.ofNat 0), (Value.text "Query result would be shown here").wrapped (n + 1)]]⟩

theorem run_regrouping (s : Scope) (n : Nat) :
    regrouping.run s (regrouped n) = .ok (regrouped (n + 1)) := by
  cases n <;> rfl

namespace Session

def regroup : String :=
  "t: select result by i from t"

theorem evaluate_regroup {s : Session} (hmode : s.settings.mode = .computed) {t : Table Value}
    (hanswer : regrouping.answer (Evaluation.scope s.settings s.symbols) = .ok t) :
    (s.evaluate regroup).2.symbols.get? "t" = some (.table t) := by
  have hline : Statement.ofText regroup = .assignment "t" "select result by i from t" := by
    decide +kernel
  have htext : Statement.ofText "select result by i from t" = .query "select result by i from t" := by
    decide +kernel
  rw [evaluate_symbols, evaluate_assigned_query hline htext hmode ofText_regrouping hanswer,
    Symbols.get?_insert_self]

theorem after_regroup {s : Session} (hmode : s.settings.mode = .computed) {k : Nat}
    (ht : s.symbols.get? "t" = some (.table (regrouped k))) (n : Nat) :
    (s.after (List.replicate n regroup)).symbols.get? "t" = some (.table (regrouped (k + n))) := by
  induction n generalizing s k with
  | zero => exact ht
  | succ n ih =>
    have hanswer : regrouping.answer (Evaluation.scope s.settings s.symbols) =
        .ok (regrouped (k + 1)) := by
      unfold Query.answer
      rw [show (Evaluation.scope s.settings s.symbols).symbols.get? regrouping.source = _ from ht]
      exact run_regrouping _ k
    have hnext := ih ((s.evaluate_settings regroup).symm ▸ hmode) (evaluate_regroup hmode hanswer)
    rw [List.replicate_succ, after_cons, hnext, Nat.add_assoc, Nat.add_comm 1]

/-- While the name is not bound, the placeholder answers for it. -/
theorem after_regroup_unbound {s : Session} (hmode : s.settings.mode = .computed)
    (ht : s.symbols.get? "t" = none) (n : Nat) :
    (s.after (List.replicate (n + 1) regroup)).symbols.get? "t" = some (.table (regrouped n)) := by
  have hanswer : regrouping.answer (Evaluation.scope s.settings s.symbols) = .ok (regrouped 0) := by
    unfold Query.answer
    rw [show (Evaluation.scope s.settings s.symbols).symbols.get? regrouping.source = _ from ht]
    rfl
  have hafter := after_regroup ((s.evaluate_settings regroup).symm ▸ hmode)
    (evaluate_regroup hmode hanswer) n
  rw [List.replicate_succ, after_cons, hafter, Nat.zero_add]

/-- Lists of every nesting come up, each after finitely many statements. -/
theorem nesting_unbounded (leniency : Leniency) (joining : Joining) (depth : Nat) :
    ∃ texts items, ((fresh ⟨.computed, leniency, joining⟩).after texts).symbols.Holds items ∧
      (Value.list items).nesting = depth + 1 := by
  have ht := after_regroup_unbound (s := fresh ⟨.computed, leniency, joining⟩) rfl rfl (depth + 1)
  let v := Value.text "Query result would be shown here"
  refine ⟨List.replicate (depth + 2) regroup, [v.wrapped depth], .cell ht List.mem_cons_self ?_, ?_⟩
  · exact List.mem_cons_of_mem _ List.mem_cons_self
  · exact (v.nesting_wrapped (depth + 1)).trans (Nat.zero_add _)

/-- Indexed with itself, a list of `k` levels gives one of `2 * k - 1`. -/
theorem nesting_exceeds_maxNesting :
    let texts := "x: ((0;1);1)" :: List.replicate 7 "x: x[x]"
    ¬ ∀ items, ((fresh {}).after texts).symbols.Holds items →
      (Value.list items).nesting ≤ maxNesting := by
  intro texts h
  have hread : (((fresh {}).after texts).symbols.get? "x").map (fun v => (v.kind, v.nesting)) =
      some (.list, 129) := by decide +kernel
  obtain ⟨v, hv, hboth⟩ := Option.map_eq_some_iff.mp hread
  obtain ⟨hkind, hnesting⟩ := Prod.mk.inj hboth
  obtain ⟨items, rfl⟩ := Value.eq_list_of_kind hkind
  have hle := h items (.bound hv)
  rw [hnesting] at hle
  exact absurd hle (by decide)

end Session

end TableConsole
