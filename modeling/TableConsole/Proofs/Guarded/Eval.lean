import TableConsole.Proofs.Guarded.Operator
import TableConsole.Proofs.Guarded.Rows

/-! # Guarded evaluation

Names are looked up in the picked rows of a table. An evaluation that goes through the table gives
what the evaluation in a selection of its rows gives.
-/

namespace TableConsole.Guarded

set_option autoImplicit false

structure Frame where
  symbols : Symbols
  mode : Mode
  picked : Option Picked

namespace Frame

def picking (f : Frame) (p : Picked) : Frame :=
  { f with picked := some p }

def global (f : Frame) : Scope :=
  Scope.global f.symbols f.mode

def resolve (f : Frame) (name : String) : Except (Halt EvalError) Value :=
  match f.picked with
  | none => lift (f.global.symbol name)
  | some p =>
    match Table.columnIndex? p.table.columns name with
    | some index => (within (p.column index)).map .list
    | none =>
      if name = "i" then .ok (.list (p.numbers.map fun number => .number (Float.ofNat number)))
      else lift (f.global.symbol name)

def vwapOf (f : Frame) (t : Table Value) : Except (Halt EvalError) (Table Value) :=
  match ["sym", "price", "size"].find? fun name => !t.columns.contains name with
  | some name => .error (.error (.table (.vwapColumn name)))
  | none =>
    group (Picked.all t) [("sym", fun p => (f.picking p).resolve "sym")]
      [("vwap", fun p => do
        weightedAverage (← (f.picking p).resolve "size") (← (f.picking p).resolve "price"))]

def vwapSource (f : Frame) : List Value → Except (Halt EvalError) Value
  | [] => f.resolve "trade"
  | [.atom (.symbol name)] => f.resolve name
  | [v] => .ok v
  | args => .error (.error (.type (.vwapArity args.length)))

def vwapCall (f : Frame) (args : List Value) : Except (Halt EvalError) Value :=
  match f.mode with
  | .canned => .ok (.table Sample.vwap)
  | .computed => do
    match ← f.vwapSource args with
    | .table t => (f.vwapOf t).map .table
    | v => .error (.error (.type (.argument .vwap v.kind)))

def call (f : Frame) (b : Builtin) (args : List Value) : Except (Halt EvalError) Value :=
  match b with
  | .vwap => f.vwapCall args
  | .wavg => do
    let (weights, values) ← lift (Builtin.wavg.two args)
    weightedAverage weights values
  | b => lift (b.call f.global args)

def indexTable (t : Table Value) (args : List Value) : Except (Halt EvalError) Value :=
  match args with
  | [.atom (.symbol name)] =>
    match Table.columnIndex? t.columns name with
    | some index => (within (Table.cells? t.rows index)).map .list
    | none => .error (.error (.table (.noColumn name)))
  | args => lift (TableConsole.indexTable t args)

def apply (f : Frame) (lenient : Bool) (g : String) (args : List Value) :
    Except (Halt EvalError) Value :=
  match Builtin.lookup? g with
  | some b => f.call b args
  | none =>
    match f.resolve g with
    | .error .breach => .error .breach
    | .ok (.list items) => lift (indexList items args)
    | .ok (.table t) => indexTable t args
    | bound =>
      match (if lenient then Builtin.search? g else none) with
      | some b => f.call b args
      | none =>
        match bound with
        | .ok (.function _) => .ok called
        | .ok v => .error (.error (.type (.notFunction g v.kind)))
        | .error (.error (.undefinedName name)) =>
          if lenient then .ok called else .error (.error (.undefinedName name))
        | .error e => .error e

mutual

def eval (f : Frame) : Expr → Except (Halt EvalError) Value
  | .literal a => .ok (.atom a)
  | .function source => .ok (.function source)
  | .list items => do lift (checkedList (← evalItems f items))
  | .table keys columns => do
    let keys ← evalColumns f keys
    let columns ← evalColumns f columns
    (lift (assemble (keys ++ columns))).map .table
  | .name n => f.resolve n
  | .negate e => do lift (← eval f e).negate
  | .binary op left right => do
    let a ← eval f left
    let b ← eval f right
    binary op a b
  | .apply g args => do f.apply false g (← evalItems f args)

def evalItems (f : Frame) : List Expr → Except (Halt EvalError) (List Value)
  | [] => .ok []
  | e :: es => do
    let v ← eval f e
    let vs ← evalItems f es
    .ok (v :: vs)

def evalColumns (f : Frame) : List (String × Expr) → Except (Halt EvalError) (List (String × Value))
  | [] => .ok []
  | (name, e) :: columns => do
    let v ← eval f e
    let vs ← evalColumns f columns
    .ok ((name, v) :: vs)

end

def evalCall (f : Frame) : Expr → Except (Halt EvalError) Value
  | .apply g args => do f.apply true g (← f.evalItems args)
  | e => f.eval e

def columnsFrom (f : Frame) (start : Nat) (ps : List Projection) : List Column :=
  (ps.zipIdx start).map fun (p, position) =>
    (p.columnName position, fun rows => (f.picking rows).eval p.expr)

def filterAll (f : Frame) (p : Picked) (filters : List Expr) : Except (Halt EvalError) Picked :=
  filters.foldlM (fun p e => do p.keep (← (f.picking p).eval e)) p

def project (p : Picked) (results : List Column) : Except (Halt EvalError) (Table Value) := do
  if results.isEmpty then within p.rows
  else lift (assemble (← results.mapM fun (name, f) => do .ok (name, ← f p)))

def run (f : Frame) (q : Query) (t : Table Value) : Except (Halt EvalError) (Table Value) := do
  let p ← f.filterAll (Picked.all t) q.filters
  if q.groups.isEmpty then project p (f.columnsFrom 0 q.projections)
  else group p (f.columnsFrom 0 q.groups) (f.columnsFrom q.groups.length q.projections)

def answer (f : Frame) (q : Query) : Except (Halt EvalError) (Table Value) :=
  match f.symbols.get? q.source with
  | some (.table t) => f.run q t
  | some v => .error (.error (.table (.notTable q.source v.kind)))
  | none => .ok Sample.placeholder

end Frame

theorem proper_one (b : Builtin) (args : List Value) : isProper (b.one args) := by
  unfold Builtin.one
  split <;> rfl

theorem proper_two (b : Builtin) (args : List Value) : isProper (b.two args) := by
  unfold Builtin.two
  split <;> rfl

theorem proper_extreme (b : Builtin) (wanted : Ordering) (v : Value) :
    isProper (b.extreme wanted v) := by
  refine proper_bind (proper_items b v) fun items => ?_
  split
  · rfl
  · refine proper_foldlM (fun best item => ?_) _ _
    unfold Builtin.better
    split <;> rfl

theorem proper_countUp (v : Value) : isProper (Builtin.countUp v) := by
  unfold Builtin.countUp
  split
  · split <;> rfl
  · rfl

namespace Frame

/-- The scope has the symbols of the frame and a selection of the picked rows. -/
structure Sees (f : Frame) (s : Scope) : Prop where
  symbols : f.symbols = s.symbols
  mode : f.mode = s.mode
  wellFormed : s.symbols.WellFormed
  selection : Option.Rel Picked.Selects f.picked s.selection

namespace Sees

variable {f : Frame} {s : Scope} {p : Picked} {A : Selection}

theorem global {symbols : Symbols} (h : symbols.WellFormed) (mode : Mode) :
    (Frame.mk symbols mode none).Sees (Scope.global symbols mode) :=
  ⟨rfl, rfl, h, .none⟩

theorem picking (h : f.Sees s) (hp : p.Selects A) : (f.picking p).Sees (s.within A) :=
  ⟨h.symbols, h.mode, h.wellFormed, .some hp⟩

theorem cases (h : f.Sees s) : f.picked = none ∧ s.selection = none ∨
    ∃ p A, f.picked = some p ∧ s.selection = some A ∧ p.Selects A := by
  obtain ⟨-, -, -, hselection⟩ := h
  generalize f.picked = picked at hselection
  generalize s.selection = selection at hselection
  cases hselection with
  | some hp => exact .inr ⟨_, _, rfl, rfl, hp⟩
  | none => exact .inl ⟨rfl, rfl⟩

theorem onScope (h : f.Sees s) : Invariant.wellFormed.OnScope s where
  symbols := h.wellFormed
  selection B hB := by
    obtain ⟨-, hnone⟩ | ⟨p, A, -, hA, hp⟩ := h.cases
    · rw [hnone] at hB
      cases hB
    · rw [hA] at hB
      cases hB
      exact hp.wellFormed

theorem symbol_faithful (h : f.Sees s) (name : String) :
    Faithful (lift (f.global.symbol name)) (s.symbol name) := by
  have hsame : f.global.symbol name = s.symbol name := by
    rw [Scope.symbol, Scope.symbol, ← h.symbols]
    rfl
  rw [hsame]
  refine .of_proper ?_
  unfold Scope.symbol
  split <;> rfl

theorem resolve_faithful (h : f.Sees s) (name : String) :
    Faithful (f.resolve name) (s.resolve name) := by
  obtain ⟨hpicked, hselection⟩ | ⟨p, A, hpicked, hselection, hp⟩ := h.cases
  · rw [Frame.resolve, hpicked, Scope.resolve, hselection]
    exact h.symbol_faithful name
  · rw [Frame.resolve, hpicked, Scope.resolve, hselection]
    dsimp only
    rw [← hp.columns]
    cases hindex : Table.columnIndex? A.columns name with
    | some index =>
      obtain ⟨hlt, -⟩ := List.findIdx?_eq_some_iff_getElem.mp hindex
      exact (hp.column_faithful hlt).map Value.list
    | none =>
      dsimp only
      split
      · rw [← hp.numbers, List.map_map]
        exact .ok _
      · exact h.symbol_faithful name

theorem vwapOf_faithful (h : f.Sees s) {t : Table Value} (ht : (Value.table t).WellFormed) :
    Faithful (f.vwapOf t) (Builtin.vwapOf s t) := by
  unfold Frame.vwapOf Builtin.vwapOf
  cases ["sym", "price", "size"].find? fun name => !t.columns.contains name with
  | some name => exact .error rfl
  | none =>
    have hsym : Column.Computes ("sym", fun p => (f.picking p).resolve "sym")
        ("sym", fun A => (s.within A).resolve "sym") :=
      ⟨rfl, fun p A hp => (h.picking hp).resolve_faithful "sym"⟩
    refine group_faithful (selects_all ht) (.cons hsym .nil) (.cons ⟨rfl, fun p A hp => ?_⟩ .nil)
    refine ((h.picking hp).resolve_faithful "size").bind fun sizes _ => ?_
    refine ((h.picking hp).resolve_faithful "price").bind fun prices _ => ?_
    exact weightedAverage_faithful sizes prices

theorem vwapSource_faithful (h : f.Sees s) (args : List Value) :
    Faithful (f.vwapSource args) (Builtin.vwapSource s args) := by
  cases args with
  | nil => exact h.resolve_faithful "trade"
  | cons v rest =>
    cases rest with
    | cons =>
      simp only [Frame.vwapSource, Builtin.vwapSource]
      exact .error rfl
    | nil =>
      cases v with
      | atom a =>
        cases a with
        | symbol name => exact h.resolve_faithful name
        | number | text | boolean | date => exact .ok _
      | list | table | function => exact .ok _

theorem vwapCall_faithful (h : f.Sees s) {args : List Value} (hargs : ∀ v ∈ args, v.WellFormed) :
    Faithful (f.vwapCall args) (Builtin.vwapCall s args) := by
  unfold Frame.vwapCall Builtin.vwapCall
  rw [h.mode]
  cases s.mode with
  | canned => exact .ok _
  | computed =>
    refine (h.vwapSource_faithful args).bind fun v hv => ?_
    have hvalue : v.WellFormed := Invariant.value_vwapSource h.onScope hargs hv
    cases v with
    | table t => exact (h.vwapOf_faithful hvalue).map Value.table
    | atom | list | function => exact .error rfl

theorem call_faithful (h : f.Sees s) (b : Builtin) {args : List Value}
    (hargs : ∀ v ∈ args, v.WellFormed) : Faithful (f.call b args) (b.call s args) := by
  cases b with
  | vwap => exact h.vwapCall_faithful hargs
  | wavg =>
    refine (Faithful.of_proper (proper_two .wavg args)).bind fun (weights, values) _ => ?_
    exact weightedAverage_faithful weights values
  | count => exact .of_proper (proper_bind (proper_one .count args) fun _ => rfl)
  | sum =>
    exact .of_proper (proper_bind (proper_one .sum args) fun v =>
      proper_bind (proper_numbers .sum v) fun _ => rfl)
  | avg =>
    exact .of_proper (proper_bind (proper_one .avg args) fun v =>
      proper_bind (proper_numbers .avg v) fun _ => rfl)
  | min => exact .of_proper (proper_bind (proper_one .min args) (proper_extreme .min .lt))
  | max => exact .of_proper (proper_bind (proper_one .max args) (proper_extreme .max .gt))
  | first =>
    exact .of_proper (proper_bind (proper_one .first args) fun v =>
      proper_bind (proper_items .first v) fun _ => rfl)
  | last =>
    exact .of_proper (proper_bind (proper_one .last args) fun v =>
      proper_bind (proper_items .last v) fun _ => rfl)
  | til => exact .of_proper (proper_bind (proper_one .til args) proper_countUp)
  | cols =>
    refine .of_proper (proper_bind (proper_one .cols args) fun v => ?_)
    cases v <;> rfl

theorem proper_indexList (items args : List Value) : isProper (indexList items args) := by
  unfold indexList
  split
  · refine proper_overLists (fun v => ?_) _
    unfold itemAt
    split <;> rfl
  · rfl

theorem indexTable_faithful {t : Table Value} (ht : (Value.table t).WellFormed)
    (args : List Value) : Faithful (indexTable t args) (TableConsole.indexTable t args) := by
  cases args with
  | nil => exact .error rfl
  | cons v rest =>
    cases rest with
    | cons =>
      simp only [Frame.indexTable, TableConsole.indexTable]
      exact .error rfl
    | nil =>
      cases v with
      | atom a =>
        cases a with
        | symbol name =>
          dsimp only [Frame.indexTable, TableConsole.indexTable]
          cases hindex : Table.columnIndex? t.columns name with
          | none => exact .error rfl
          | some index =>
            obtain ⟨hlt, -⟩ := List.findIdx?_eq_some_iff_getElem.mp hindex
            dsimp only
            rw [Table.cells?, within_mapM]
            refine Faithful.map (Faithful.mapM (List.forall₂_same.mpr fun row hrow => ?_)) _
            have hwidth := (Value.wellFormed_table_iff.mp ht).1.2 row hrow
            exact within_getElem?_faithful (hwidth ▸ hlt)
        | number | text | boolean | date => exact .error rfl
      | list | table | function => exact .error rfl

theorem apply_faithful (h : f.Sees s) (lenient : Bool) (g : String) {args : List Value}
    (hargs : ∀ v ∈ args, v.WellFormed) :
    Faithful (f.apply lenient g args) (s.apply lenient g args) := by
  unfold Frame.apply Scope.apply
  cases Builtin.lookup? g with
  | some b => exact h.call_faithful b hargs
  | none =>
    dsimp only
    obtain ⟨hresolve, hproper⟩ := h.resolve_faithful g
    rw [hresolve]
    cases hbound : s.resolve g with
    | error e =>
      dsimp only [lift_error]
      cases (if lenient then Builtin.search? g else none) with
      | some b => exact h.call_faithful b hargs
      | none =>
        rw [hbound] at hproper
        cases e with
        | fault => cases hproper
        | undefinedName name =>
          dsimp only
          split
          · exact .ok _
          · exact .error rfl
        | arithmetic | parse | type | length | table => exact .error rfl
    | ok v =>
      dsimp only [lift_ok]
      cases v with
      | list items => exact .of_proper (proper_indexList items args)
      | table t => exact indexTable_faithful (h.onScope.resolve hbound) args
      | atom a =>
        dsimp only
        cases (if lenient then Builtin.search? g else none) with
        | some b => exact h.call_faithful b hargs
        | none => exact .error rfl
      | function source =>
        dsimp only
        cases (if lenient then Builtin.search? g else none) with
        | some b => exact h.call_faithful b hargs
        | none => exact .ok _

theorem proper_checkedList (items : List Value) : isProper (checkedList items) := by
  unfold checkedList
  split <;> rfl

theorem proper_columnCells (height : Nat) (c : String × Value) :
    isProper (columnCells height c) := by
  obtain ⟨name, v⟩ := c
  cases v <;> rfl

theorem proper_assemble (columns : List (String × Value)) : isProper (assemble columns) :=
  proper_bind (proper_mapM (proper_columnCells _) columns) fun _ => proper_ofDefective _

mutual

theorem eval_faithful (h : f.Sees s) (e : Expr) : Faithful (f.eval e) (e.eval s) := by
  cases e with
  | literal | function => exact .ok _
  | list items =>
    exact (evalItems_faithful h items).bind fun vs _ => .of_proper (proper_checkedList vs)
  | table keys columns =>
    refine (evalColumns_faithful h keys).bind fun ks _ => ?_
    refine (evalColumns_faithful h columns).bind fun cs _ => ?_
    exact (Faithful.of_proper (proper_assemble _)).map Value.table
  | name n => exact h.resolve_faithful n
  | negate e => exact (eval_faithful h e).bind fun v _ => .of_proper (proper_negate v)
  | binary op left right =>
    refine (eval_faithful h left).bind fun a _ => ?_
    exact (eval_faithful h right).bind fun b _ => binary_faithful op a b
  | apply g args =>
    refine (evalItems_faithful h args).bind fun vs hvs => ?_
    exact h.apply_faithful false g
      (evalItems_wellFormed h.onScope args hvs)

theorem evalItems_faithful (h : f.Sees s) (es : List Expr) :
    Faithful (f.evalItems es) (TableConsole.evalItems s es) := by
  cases es with
  | nil => exact .ok []
  | cons e es =>
    refine (eval_faithful h e).bind fun v _ => ?_
    exact (evalItems_faithful h es).bind fun vs _ => .ok (v :: vs)

theorem evalColumns_faithful (h : f.Sees s) (columns : List (String × Expr)) :
    Faithful (f.evalColumns columns) (TableConsole.evalColumns s columns) := by
  cases columns with
  | nil => exact .ok []
  | cons column columns =>
    refine (eval_faithful h column.2).bind fun v _ => ?_
    exact (evalColumns_faithful h columns).bind fun vs _ => .ok ((column.1, v) :: vs)

end

theorem evalCall_faithful (h : f.Sees s) (e : Expr) : Faithful (f.evalCall e) (e.evalCall s) := by
  cases e with
  | apply g args =>
    refine (h.evalItems_faithful args).bind fun vs hvs => ?_
    exact h.apply_faithful true g
      (evalItems_wellFormed h.onScope args hvs)
  | literal | function | list | table | name | negate | binary => exact h.eval_faithful _

theorem columnsFrom_computes (h : f.Sees s) (start : Nat) (ps : List Projection) :
    List.Forall₂ Column.Computes (f.columnsFrom start ps) (computedFrom s start ps) := by
  rw [Frame.columnsFrom, computedFrom, List.forall₂_map_left_iff, List.forall₂_map_right_iff]
  refine List.forall₂_same.mpr fun p _ => ⟨rfl, fun rows A hrows => ?_⟩
  exact (h.picking hrows).eval_faithful p.1.expr

theorem filterAll_bind (h : f.Sees s) (hp : p.Selects A) (es : List Expr) {α : Type}
    {k : Picked → Except (Halt EvalError) α} {r : Selection → Except EvalError α}
    (hk : ∀ q B, q.Selects B → Faithful (k q) (r B)) :
    Faithful (f.filterAll p es >>= k) (A.filterAll s es >>= r) := by
  induction es generalizing p A with
  | nil => exact hk p A hp
  | cons e es ih =>
    rw [Selection.filterAll_cons, Frame.filterAll, List.foldlM_cons]
    simp only [bind_assoc, Selection.filter]
    refine ((h.picking hp).eval_faithful e).bind fun v _ => ?_
    exact hp.keep_bind v fun q B hq => ih hq

theorem project_faithful (hp : p.Selects A) {results : List Column} {results' : List Computed}
    (hresults : List.Forall₂ Column.Computes results results') :
    Faithful (Frame.project p results) (TableConsole.project A results') := by
  rw [Frame.project, TableConsole.project, isEmpty_eq_of_forall₂ hresults]
  split
  · rw [hp.rows_eq]
    exact .ok A.table
  · refine Faithful.bind (Faithful.mapM (hresults.imp fun c k hc => ?_)) fun columns _ =>
      .of_proper (proper_assemble columns)
    refine (hc.faithful p A hp).bind fun v _ => ?_
    rw [hc.name]
    exact .ok _

theorem run_faithful (h : f.Sees s) (q : Query) {t : Table Value} (ht : (Value.table t).WellFormed) :
    Faithful (f.run q t) (q.run s t) := by
  refine h.filterAll_bind (selects_all ht) q.filters fun p A hp => ?_
  split
  · exact project_faithful hp (h.columnsFrom_computes 0 q.projections)
  · exact group_faithful hp (h.columnsFrom_computes 0 q.groups)
      (h.columnsFrom_computes q.groups.length q.projections)

theorem answer_faithful (h : f.Sees s) (q : Query) : Faithful (f.answer q) (q.answer s) := by
  rw [Frame.answer, Query.answer, h.symbols]
  cases hbound : s.symbols.get? q.source with
  | none => exact .ok _
  | some v =>
    cases v with
    | table t => exact h.run_faithful q (h.wellFormed q.source _ hbound)
    | atom | list | function => exact .error rfl

end Sees

end Frame

end TableConsole.Guarded
