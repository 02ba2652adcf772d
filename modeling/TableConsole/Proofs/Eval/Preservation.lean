import TableConsole.Proofs.Eval.FilterSplit
import TableConsole.Proofs.Eval.Invariant

/-! # Expressions and queries keep invariants

If the values of expressions keep an invariant, then the tables that queries answer keep it. How many
levels of lists the value of an expression can have is read off the expression.
-/

namespace TableConsole

set_option autoImplicit false

/-- The levels of lists in a result, for arguments of no more than so many. -/
def Builtin.levels (k : Nat) : Builtin → Nat
  | .count | .sum | .avg | .wavg => 0
  | .til | .cols => 1
  | .min | .max | .first | .last => k - 1
  | .vwap => Max.max maxNesting k

def BinOp.levels (j k : Nat) : BinOp → Nat
  | .elementwise _ => max j k
  | .member => min 1 j
  | .weightedAverage => 0

/-- An index that picks one item of a list, and no column of a table. -/
def picksItem : List Expr → Bool
  | [.literal (.number _)] => true
  | _ => false

theorem picksItem_eq_true {args : List Expr} (h : picksItem args = true) :
    ∃ x, args = [.literal (.number x)] := by
  unfold picksItem at h
  split at h
  · exact ⟨_, rfl⟩
  · cases h

mutual

/-- So many levels of lists the value has at most, if no name stands for more than the limit. An
index that is itself a list of `k` levels puts as many of them in the place of one. -/
def Expr.levels : Expr → Nat
  | .literal _ | .function _ => 0
  | .name _ => maxNesting
  | .list items => min maxNesting (itemsLevels items + 1)
  | .table keys columns => max 1 (max (columnsLevels keys) (columnsLevels columns))
  | .negate e => e.levels
  | .binary op left right => op.levels left.levels right.levels
  | .apply f args =>
    match Builtin.lookup? f with
    | some b => b.levels (itemsLevels args)
    | none =>
      if picksItem args then maxNesting - 1 else maxNesting - 1 + max 1 (itemsLevels args)

def itemsLevels : List Expr → Nat
  | [] => 0
  | e :: es => max e.levels (itemsLevels es)

def columnsLevels : List (String × Expr) → Nat
  | [] => 0
  | (_, e) :: columns => max e.levels (columnsLevels columns)

end

/-- Nothing is indexed with lists of lists, and each result for a group fits in a cell. -/
structure Query.Plain (q : Query) : Prop where
  projections : ∀ p ∈ q.projections, p.expr.levels ≤ maxNesting
  groups : ∀ p ∈ q.groups, p.expr.levels ≤ maxNesting
  results : q.groups ≠ [] → ∀ p ∈ q.projections, p.expr.levels < maxNesting

instance (q : Query) : Decidable q.Plain :=
  decidable_of_iff
    ((∀ p ∈ q.projections, p.expr.levels ≤ maxNesting) ∧
      (∀ p ∈ q.groups, p.expr.levels ≤ maxNesting) ∧
      (q.groups.isEmpty = true ∨ ∀ p ∈ q.projections, p.expr.levels < maxNesting))
    ⟨fun ⟨h, h', h''⟩ => ⟨h, h', fun hne => h''.resolve_left (by simpa using hne)⟩,
      fun ⟨h, h', h''⟩ => ⟨h, h', (em (q.groups = [])).imp (by simp [·]) h''⟩⟩

/-- Values of expressions keep the invariant: of all of them, or of those that have no more levels
of lists than the limit. With fewer levels they can stand in a cell. -/
structure Invariant.Kept (I : Invariant) (free : Prop) : Prop where
  value : ∀ {s : Scope} {e : Expr} {v : Value}, I.OnScope s → free ∨ e.levels ≤ maxNesting →
    e.eval s = .ok v → I.value v
  called : ∀ {s : Scope} {e : Expr} {v : Value}, I.OnScope s → free ∨ e.levels ≤ maxNesting →
    e.evalCall s = .ok v → I.value v
  inner : ∀ {s : Scope} {e : Expr} {v : Value}, I.OnScope s → free ∨ e.levels < maxNesting →
    e.eval s = .ok v → I.inner v

theorem Selection.keep_rows_subset {A B : Selection} {v : Value} (h : A.keep v = .ok B) :
    B.rows ⊆ A.rows := by
  cases v with
  | list flags =>
    rw [Selection.keep] at h
    split at h
    · cases h
      intro row hrow
      obtain ⟨pair, hpair, rfl⟩ := List.mem_map.mp hrow
      exact (List.of_mem_zip (List.mem_of_mem_filter hpair)).1
    · cases h
  | atom | table | function =>
    obtain rfl := Except.ok.inj h
    split
    · exact List.Subset.refl A.rows
    · exact List.nil_subset A.rows

theorem Selection.filterAll_rows_subset {s : Scope} {A B : Selection} {es : List Expr}
    (h : A.filterAll s es = .ok B) : B.rows ⊆ A.rows := by
  induction es generalizing A with
  | nil =>
    cases h
    exact List.Subset.refl _
  | cons e es ih =>
    rw [Selection.filterAll_cons] at h
    obtain ⟨C, hfilter, hrest⟩ := Except.bind_eq_ok_iff.mp h
    obtain ⟨v, -, hkeep⟩ := Except.bind_eq_ok_iff.mp hfilter
    exact List.Subset.trans (ih hrest) (Selection.keep_rows_subset hkeep)

namespace Invariant

variable {I : Invariant} {free : Prop} {s : Scope} {A B : Selection} {t out : Table Value}

theorem onSelection_filterAll {es : List Expr} (hA : I.onSelection A)
    (h : A.filterAll s es = .ok B) : I.onSelection B :=
  hA.subset (Selection.filterAll_columns h) (Selection.filterAll_rows_subset h)

theorem value_computedFrom (hI : I.Kept free) (hs : I.OnScope s) (start : Nat)
    {ps : List Projection} (hps : free ∨ ∀ p ∈ ps, p.expr.levels ≤ maxNesting) :
    ∀ c ∈ computedFrom s start ps, I.computed I.value c := by
  intro c hc A v hA hv
  obtain ⟨⟨p, position⟩, hp, rfl⟩ := List.mem_map.mp hc
  exact hI.value (hs.within hA) (hps.imp_right (· p (List.fst_mem_of_mem_zipIdx hp))) hv

theorem inner_computedFrom (hI : I.Kept free) (hs : I.OnScope s) (start : Nat)
    {ps : List Projection} (hps : free ∨ ∀ p ∈ ps, p.expr.levels < maxNesting) :
    ∀ c ∈ computedFrom s start ps, I.computed I.inner c := by
  intro c hc A v hA hv
  obtain ⟨⟨p, position⟩, hp, rfl⟩ := List.mem_map.mp hc
  exact hI.inner (hs.within hA) (hps.imp_right (· p (List.fst_mem_of_mem_zipIdx hp))) hv

theorem value_project {results : List Computed} (hA : I.onSelection A)
    (hresults : ∀ c ∈ results, I.computed I.value c) (h : project A results = .ok out) :
    I.value (.table out) := by
  unfold project at h
  split at h
  · cases h
    exact hA
  · obtain ⟨columns, hcolumns, h⟩ := Except.bind_eq_ok_iff.mp h
    refine value_assemble (Except.forall_mem_of_mapM hcolumns ?_) h
    intro c hc column hcolumn
    obtain ⟨v, hv, hcolumn⟩ := Except.bind_eq_ok_iff.mp hcolumn
    cases hcolumn
    exact hresults c hc A v hA hv

theorem value_run (hI : I.Kept free) {q : Query} (hs : I.OnScope s) (hq : free ∨ q.Plain)
    (ht : I.value (.table t)) (h : q.run s t = .ok out) : I.value (.table out) := by
  rw [Query.run_eq] at h
  obtain ⟨A, hfilters, h⟩ := Except.bind_eq_ok_iff.mp h
  have hA := onSelection_filterAll (onSelection_ofTable ht) hfilters
  unfold Query.finish at h
  split at h
  · exact value_project hA (value_computedFrom hI hs 0 (hq.imp_right (·.projections))) h
  · rename_i hgroups
    have hne : q.groups ≠ [] := by simpa using hgroups
    refine value_group hA ?_ ?_ h
    · exact value_computedFrom hI hs 0 (hq.imp_right (·.groups))
    · exact inner_computedFrom hI hs _ (hq.imp_right (·.results hne))

theorem value_answer (hI : I.Kept free) {q : Query} (hs : I.OnScope s) (hq : free ∨ q.Plain)
    (h : q.answer s = .ok out) : I.value (.table out) := by
  unfold Query.answer at h
  split at h
  · rename_i t hbound
    exact value_run hI hs hq (hs.symbols _ _ hbound) h
  · cases h
  · cases h
    exact value_of_flat Sample.placeholder_flat

end Invariant

end TableConsole
