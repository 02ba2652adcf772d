import TableConsole.Proofs.Syntax.Completeness

/-! # Operators on the paths of an expression

The operators on a path number no more than those that are not passed on their left and those in an
operand that the path enters on the left of an operator. The links of a chain are passed on their
left themselves. As long as there are no parentheses a chain has no more links than there are
levels, so that only the operators in its operands count, and of those not the operators in the last
one: all others stand below the links behind them, as in `x + -x + x` the negation does. A chain in
parentheses at the start of a chain of its kind gives the tree of one chain with the links of both.
-/

namespace TableConsole

set_option autoImplicit false

def BinOp.isChained : BinOp → Bool
  | .elementwise (.arithmetic _) | .weightedAverage => true
  | _ => false

def BinOp.chain? : BinOp → Option Grammar.Chain
  | .elementwise (.arithmetic .add) | .elementwise (.arithmetic .subtract) => some .sum
  | .elementwise (.arithmetic .multiply) | .elementwise (.arithmetic .divide) => some .product
  | .weightedAverage => some .weighted
  | _ => none

theorem BinOp.isChained_eq (op : BinOp) : op.isChained = op.chain?.isSome := by
  unfold BinOp.isChained BinOp.chain?
  split
  · rename_i op
    cases op <;> rfl
  · rfl
  · split <;> simp_all

mutual

/-- The greatest weight of a path from the root to a leaf. Negations, applications and chained
operators weigh one, but a chained operator weighs `left` on the way to its left operand. -/
def Expr.pathWeight (left : Nat) : Expr → Nat
  | .literal _ | .function _ | .name _ => 0
  | .list items => itemsWeight left items
  | .table keys columns => max (columnsWeight left keys) (columnsWeight left columns)
  | .negate e => e.pathWeight left + 1
  | .binary op l r =>
    if op.isChained then max (l.pathWeight left + left) (r.pathWeight left + 1)
    else max (l.pathWeight left) (r.pathWeight left)
  | .apply _ args => itemsWeight left args + 1

def itemsWeight (left : Nat) : List Expr → Nat
  | [] => 0
  | e :: es => max (e.pathWeight left) (itemsWeight left es)

def columnsWeight (left : Nat) : List (String × Expr) → Nat
  | [] => 0
  | (_, e) :: columns => max (e.pathWeight left) (columnsWeight left columns)

end

/-- The most negations, applications and chained operators on a path from the root to a leaf. -/
def Expr.operatorDepth (e : Expr) : Nat :=
  e.pathWeight 1

mutual

/-- The greatest depth of operators in a left operand of a chained operator. -/
def Expr.leftDepth : Expr → Nat
  | .literal _ | .function _ | .name _ => 0
  | .list items => itemsLeftDepth items
  | .table keys columns => max (columnsLeftDepth keys) (columnsLeftDepth columns)
  | .negate e => e.leftDepth
  | .binary op l r =>
    max (if op.isChained then l.operatorDepth else 0) (max l.leftDepth r.leftDepth)
  | .apply _ args => itemsLeftDepth args

def itemsLeftDepth : List Expr → Nat
  | [] => 0
  | e :: es => max e.leftDepth (itemsLeftDepth es)

def columnsLeftDepth : List (String × Expr) → Nat
  | [] => 0
  | (_, e) :: columns => max e.leftDepth (columnsLeftDepth columns)

end

/-- The links of a chain of one kind: its operators, on the way down the left operands. -/
def Expr.links (c : Grammar.Chain) : Expr → Nat
  | .binary op l _ => if op.chain? = some c then l.links c + 1 else 0
  | _ => 0

/-- The greatest depth of operators in an operand of a chain of one kind. -/
def Expr.operandDepth (c : Grammar.Chain) : Expr → Nat
  | .binary op l r =>
    if op.chain? = some c then max (l.operandDepth c) r.operatorDepth
    else (Expr.binary op l r).operatorDepth
  | e => e.operatorDepth

mutual

/-- The greatest depth of operators in an operand of a chain that is not its last operand. -/
def Expr.earlierDepth : Expr → Nat
  | .literal _ | .function _ | .name _ => 0
  | .list items => itemsEarlierDepth items
  | .table keys columns => max (columnsEarlierDepth keys) (columnsEarlierDepth columns)
  | .negate e => e.earlierDepth
  | .binary op l r =>
    max (op.chain?.elim 0 fun c => l.operandDepth c) (max l.earlierDepth r.earlierDepth)
  | .apply _ args => itemsEarlierDepth args

def itemsEarlierDepth : List Expr → Nat
  | [] => 0
  | e :: es => max e.earlierDepth (itemsEarlierDepth es)

def columnsEarlierDepth : List (String × Expr) → Nat
  | [] => 0
  | (_, e) :: columns => max e.earlierDepth (columnsEarlierDepth columns)

end

variable {w : Nat}

theorem itemsWeight_le_iff {es : List Expr} {d : Nat} :
    itemsWeight w es ≤ d ↔ ∀ e ∈ es, e.pathWeight w ≤ d := by
  induction es with
  | nil => simp [itemsWeight]
  | cons e es ih => rw [itemsWeight, Nat.max_le, ih, List.forall_mem_cons]

theorem columnsWeight_le_iff {columns : List (String × Expr)} {d : Nat} :
    columnsWeight w columns ≤ d ↔ ∀ c ∈ columns, c.2.pathWeight w ≤ d := by
  induction columns with
  | nil => simp [columnsWeight]
  | cons c columns ih => rw [columnsWeight, Nat.max_le, ih, List.forall_mem_cons]

mutual

/-- A path goes on without left operands until it enters the first one. -/
theorem Expr.operatorDepth_le_add (e : Expr) : e.operatorDepth ≤ e.pathWeight 0 + e.leftDepth := by
  cases e with
  | literal | function | name => exact Nat.le_refl 0
  | list items => exact itemsWeight_le_add items
  | table keys columns =>
    have hkeys := columnsWeight_le_add keys
    have hcolumns := columnsWeight_le_add columns
    simp only [Expr.operatorDepth, Expr.pathWeight, Expr.leftDepth]
    omega
  | negate e =>
    have hoperand := e.operatorDepth_le_add
    simp only [Expr.operatorDepth, Expr.pathWeight, Expr.leftDepth] at hoperand ⊢
    omega
  | binary op l r =>
    have hleft := l.operatorDepth_le_add
    have hright := r.operatorDepth_le_add
    simp only [Expr.operatorDepth, Expr.pathWeight, Expr.leftDepth] at hleft hright ⊢
    split <;> omega
  | apply f args =>
    have hargs := itemsWeight_le_add args
    simp only [Expr.operatorDepth, Expr.pathWeight, Expr.leftDepth]
    omega

theorem itemsWeight_le_add (es : List Expr) :
    itemsWeight 1 es ≤ itemsWeight 0 es + itemsLeftDepth es := by
  cases es with
  | nil => exact Nat.le_refl 0
  | cons e es =>
    have hhead := e.operatorDepth_le_add
    have htail := itemsWeight_le_add es
    simp only [Expr.operatorDepth, itemsWeight, itemsLeftDepth] at hhead ⊢
    omega

theorem columnsWeight_le_add (columns : List (String × Expr)) :
    columnsWeight 1 columns ≤ columnsWeight 0 columns + columnsLeftDepth columns := by
  cases columns with
  | nil => exact Nat.le_refl 0
  | cons column columns =>
    have hhead := column.2.operatorDepth_le_add
    have htail := columnsWeight_le_add columns
    simp only [Expr.operatorDepth, columnsWeight, columnsLeftDepth] at hhead ⊢
    omega

end

/-- Down the links of a chain, and then in one of its operands. -/
theorem Expr.operatorDepth_le_links (c : Grammar.Chain) (e : Expr) :
    e.operatorDepth ≤ e.links c + e.operandDepth c := by
  induction e using Expr.links.induct c with
  | case1 op l r hop ih =>
    have hchained : op.isChained = true := by rw [op.isChained_eq, hop]; rfl
    rw [Expr.links, Expr.operandDepth, if_pos hop, if_pos hop]
    simp only [Expr.operatorDepth, Expr.pathWeight, if_pos hchained] at ih ⊢
    omega
  | case2 op l r hop =>
    rw [Expr.operandDepth, if_neg hop]
    exact Nat.le_add_left _ _
  | case3 e hbinary =>
    cases e with
    | binary op l r => exact absurd rfl (hbinary op l r)
    | literal | function | list | table | name | negate | apply => exact Nat.le_add_left _ _

theorem itemsWeight_le_earlier {es : List Expr} {d : Nat}
    (h : ∀ e ∈ es, e.operatorDepth ≤ d + e.earlierDepth) :
    itemsWeight 1 es ≤ d + itemsEarlierDepth es := by
  induction es with
  | nil => exact Nat.zero_le _
  | cons e es ih =>
    obtain ⟨hhead, htail⟩ := List.forall_mem_cons.mp h
    have hrest := ih htail
    rw [itemsWeight, itemsEarlierDepth]
    rw [Expr.operatorDepth] at hhead
    omega

namespace Grammar

theorem ChainOperator.isChained {c : Chain} {m : Mark} {op : BinOp} (h : ChainOperator c m op) :
    op.isChained = true := by
  cases h <;> rfl

theorem ComparisonOperator.not_isChained {m : Mark} {op : BinOp} (h : ComparisonOperator m op) :
    op.isChained = false := by
  cases h <;> rfl

def Chain.tighter : Chain → Nat
  | .weighted => 0
  | .product => 1
  | .sum => 2

theorem ChainOperator.chain?_eq {c : Chain} {m : Mark} {op : BinOp} (h : ChainOperator c m op) :
    op.chain? = some c := by
  cases h <;> rfl

/-- No operator of this kind stands at the root of what the phrase stands for. -/
def Phrase.Tighter (c : Chain) : Phrase → Prop
  | .expression => False
  | .chain c' => c'.tighter < c.tighter
  | .links c' l => c'.tighter < c.tighter ∧ l.links c = 0
  | .unary | .application | .primary => True
  | .nested ph => ph.Tighter c

theorem Phrase.Tighter.operand {c c' : Chain} (h : c'.tighter ≤ c.tighter) :
    c'.operand.Tighter c := by
  cases c' with
  | weighted => exact trivial
  | product | sum => exact h

/-- Parentheses could bring in an expression of any kind. -/
theorem links_eq_zero {n : Nat} {ph : Phrase} {ts : List Token} {e : Expr} (h : Derives n ph ts e)
    {c : Chain} (hph : ph.Tighter c) (hts : .mark .openParen ∉ ts) : e.links c = 0 := by
  induction h with
  | nested _ ih => exact ih hph hts
  | alone | comparison => exact hph.elim
  | chain _ _ ihl ihe =>
    obtain ⟨hts, hus⟩ := not_or.mp (mt List.mem_append.mpr hts)
    exact ihe ⟨hph, ihl (.operand (Nat.le_of_lt hph)) hts⟩ hus
  | noLinks => exact hph.2
  | @link _ c' ts us m op l r e hm _ _ _ ihe =>
    have hne : c' ≠ c := fun heq => Nat.lt_irrefl _ (heq ▸ hph.1)
    have hlinks : (Expr.binary op l r).links c = 0 := by
      rw [Expr.links, hm.chain?_eq]
      exact if_neg fun heq => hne (Option.some.inj heq)
    exact ihe ⟨hph.1, hlinks⟩ fun hmem =>
      hts (List.mem_cons_of_mem _ (List.mem_append_right _ hmem))
  | negate | call | juxtaposed | literal | vector | function | name | emptyList | list | table => rfl
  | applied _ ih | plain _ ih => exact ih trivial hts
  | paren => exact absurd List.mem_cons_self hts

def Phrase.Bounds (e : Expr) : Phrase → Nat → Prop
  | .links c l, n => l.operatorDepth ≤ l.links c + n + 1 + l.earlierDepth →
    e.operatorDepth ≤ l.links c + n + 1 + e.earlierDepth
  | .nested _, 0 => False
  | .nested ph, n + 1 => ph.Bounds e n
  | _, n => e.operatorDepth ≤ n + 1 + e.earlierDepth

theorem Phrase.Bounds.operand {c : Chain} {e : Expr} {n : Nat} (h : c.operand.Bounds e n) :
    e.operatorDepth ≤ n + 1 + e.earlierDepth := by
  cases c <;> exact h

theorem Phrase.Bounds.nested {ph : Phrase} {e : Expr} {n : Nat} (h : (Phrase.nested ph).Bounds e n)
    (hph : ∀ n, ph.Bounds e n → e.operatorDepth ≤ n + 1 + e.earlierDepth) :
    e.operatorDepth ≤ n + e.earlierDepth := by
  cases n with
  | zero => exact h.elim
  | succ n => exact hph n h

theorem ComparisonOperator.chain?_eq {m : Mark} {op : BinOp} (h : ComparisonOperator m op) :
    op.chain? = none := by
  cases h <;> rfl

theorem subset_separatedBy {α : Type} (m : Mark) {parts : List (Segment α)} :
    ∀ p ∈ parts, p.1 ⊆ separatedBy m parts := by
  induction parts with
  | nil => exact List.forall_mem_nil _
  | cons p parts ih =>
    cases parts with
    | nil => simp [separatedBy]
    | cons q parts =>
      rw [Parser.separatedBy_cons_cons]
      refine List.forall_mem_cons.mpr ⟨List.subset_append_left _ _, fun d hd => ?_⟩
      exact List.Subset.trans (ih d hd)
        (List.subset_append_of_subset_right _ (List.subset_cons_self _ _))

/-- A link is above those before it. It takes a level, so that there are not more of them, and what
its right operand holds stands below it alone unless another link follows. -/
theorem bounds_link {n : Nat} {c : Chain} {op : BinOp} {l r e : Expr} (hop : op.chain? = some c)
    (hr : r.operatorDepth ≤ n + r.earlierDepth)
    (he : (Phrase.nested (.links c (.binary op l r))).Bounds e n) :
    (Phrase.links c l).Bounds e n := by
  intro _
  have hlinks : (Expr.binary op l r).links c = l.links c + 1 := by rw [Expr.links, if_pos hop]
  have hleft := l.operatorDepth_le_links c
  have hchained : op.isChained = true := by rw [op.isChained_eq, hop]; rfl
  cases n with
  | zero => exact he.elim
  | succ n =>
    have hdepth := he (by
      rw [hlinks]
      simp only [Expr.operatorDepth, Expr.pathWeight, if_pos hchained, Expr.earlierDepth, hop,
        Option.elim_some] at hleft hr ⊢
      omega)
    rw [hlinks] at hdepth
    omega

theorem bounds_of_derives {n : Nat} {ph : Phrase} {ts : List Token} {e : Expr}
    (h : Derives n ph ts e) (hts : .mark .openParen ∉ ts) : ph.Bounds e n := by
  induction h with
  | nested _ ih | alone _ ih | applied _ ih | plain _ ih => exact ih hts
  | comparison hop _ _ ihl ihr =>
    obtain ⟨hts, hus⟩ := not_or.mp (mt List.mem_append.mpr hts)
    have hl := ihl hts
    have hr := ihr fun hmem => hus (List.mem_cons_of_mem _ hmem)
    simp only [Phrase.Bounds, Expr.operatorDepth, Expr.pathWeight, hop.not_isChained,
      Bool.false_eq_true, if_false, Expr.earlierDepth, hop.chain?_eq, Option.elim_none] at hl hr ⊢
    omega
  | @chain _ c _ _ l e hl _ ihl ihe =>
    obtain ⟨hts, hus⟩ := not_or.mp (mt List.mem_append.mpr hts)
    have hlinks : l.links c = 0 := links_eq_zero hl (.operand (Nat.le_refl _)) hts
    have hdepth := ihe hus
    rw [Phrase.Bounds, hlinks, Nat.zero_add] at hdepth
    exact hdepth (ihl hts).operand
  | noLinks => exact id
  | link hm _ _ ihr ihe =>
    obtain ⟨hts, hus⟩ := not_or.mp (mt List.mem_append.mpr (mt (List.mem_cons_of_mem _) hts))
    exact bounds_link hm.chain?_eq ((ihr hts).nested fun _ h => h.operand) (ihe hus)
  | negate _ ih =>
    have hoperand := (ih fun hmem => hts (List.mem_cons_of_mem _ hmem)).nested fun _ h => h
    simp only [Phrase.Bounds, Expr.operatorDepth, Expr.pathWeight, Expr.earlierDepth] at hoperand ⊢
    omega
  | @call n _ _ args _ _ ih =>
    have hargs : itemsWeight 1 (args.map (·.2)) ≤ n + itemsEarlierDepth (args.map (·.2)) := by
      refine itemsWeight_le_earlier (List.forall_mem_map.mpr fun p hp => ?_)
      refine (ih p hp fun hmem => hts ?_).nested fun _ h => h
      exact List.mem_cons_of_mem _ (List.mem_cons_of_mem _
        (List.mem_append_left _ (subset_separatedBy _ p hp hmem)))
    simp only [Phrase.Bounds, Expr.operatorDepth, Expr.pathWeight, Expr.earlierDepth]
    omega
  | juxtaposed _ _ ih =>
    have hargument := (ih fun hmem => hts (List.mem_cons_of_mem _ hmem)).nested fun _ h => h
    have hitems := itemsWeight_le_earlier (List.forall_mem_singleton.mpr hargument)
    simp only [Phrase.Bounds, Expr.operatorDepth, Expr.pathWeight, Expr.earlierDepth]
    omega
  | literal | function | name => exact Nat.zero_le _
  | vector =>
    refine Nat.le_trans (itemsWeight_le_earlier (d := 0) ?_) (Nat.add_le_add_right (Nat.zero_le _) _)
    exact List.forall_mem_map.mpr fun _ _ => Nat.zero_le _
  | emptyList | paren | list | table => exact absurd List.mem_cons_self hts

theorem operatorDepth_le_earlier {n : Nat} {ts : List Token} {e : Expr} (h : DerivesExpr n ts e)
    (hts : .mark .openParen ∉ ts) : e.operatorDepth ≤ n + e.earlierDepth :=
  (bounds_of_derives h hts).nested fun _ hbounds => hbounds

end Grammar

end TableConsole
