import TableConsole.Proofs.Syntax.Completeness
import TableConsole.Proofs.Syntax.DepthCounter
import TableConsole.Proofs.Syntax.Soundness

/-! # The depth is local to a path

The counting parser reads what the readers read with the levels that its depth leaves. Whatever it
has read, its counter is back at the depth at which it was started, so each item of a list has as
many levels as the first. Items that can be read alone can be read together.
-/

namespace TableConsole.Counting

open Grammar (Chain Callee ColumnPart Columns DerivesExpr PhraseStart Segment separatedBy)
open TableConsole.Parser (Reader Level skip?)

set_option autoImplicit false

/-- From a depth up to the deepest nesting, or, for a depth beyond that, this depth alone. -/
def Span (d x : Nat) : Prop :=
  d ≤ x ∧ x ≤ max d maxNesting

theorem Span.refl (d : Nat) : Span d d :=
  ⟨Nat.le_refl d, Nat.le_max_left d maxNesting⟩

theorem Span.trans {b d x : Nat} (h : Span b d) (hx : Span d x) : Span b x :=
  ⟨Nat.le_trans h.1 hx.1,
    Nat.le_trans hx.2 (Nat.max_le.mpr ⟨h.2, Nat.le_max_right b maxNesting⟩)⟩

theorem Span.succ {d : Nat} (h : d < maxNesting) : Span d (d + 1) :=
  ⟨Nat.le_succ d, Nat.le_trans h (Nat.le_max_right d maxNesting)⟩

theorem Span.pred {d x : Nat} (h : Span (d + 1) (x + 1)) : Span d x := by
  obtain ⟨hle, hmax⟩ := h
  unfold Span
  omega

/-- A run gives what a reader gives, and ends at the depth `d` unless it fails. The depths that it
has set, and the one at which a failure leaves the counter, are in the span of `d`. -/
inductive Follows {α : Type} (d : Nat) (path : List Nat) :
    Option (Except SyntaxError α × Counter) → Except SyntaxError α → Prop
  | ok (a : α) {steps : List Nat} :
    (∀ x ∈ steps, Span d x) → Follows d path (some (.ok a, ⟨d, steps ++ path⟩)) (.ok a)
  | error (e : SyntaxError) {depth : Nat} {steps : List Nat} :
    (∀ x ∈ steps, Span d x) → Span d depth →
      Follows d path (some (.error e, ⟨depth, steps ++ path⟩)) (.error e)

/-- Started at the depth `d`, a computation follows a reader and ends at `d'`. -/
def Leads {α : Type} (d d' : Nat) (p : Counted α) (r : Except SyntaxError α) : Prop :=
  ∀ path, Follows d' path (p ⟨d, path⟩) r

abbrev Keeps {α : Type} (d : Nat) (p : Counted α) (r : Except SyntaxError α) : Prop :=
  Leads d d p r

variable {α β : Type} {d d' : Nat} {p : Counted α} {r : Except SyntaxError α}

theorem Follows.behind {path steps : List Nat} {ran : Option (Except SyntaxError α × Counter)}
    (h : Follows d (steps ++ path) ran r) (hsteps : ∀ x ∈ steps, Span d x) :
    Follows d path ran r := by
  cases h with
  | ok a hmore =>
    rw [← List.append_assoc]
    exact .ok a (List.forall_mem_append.mpr ⟨hmore, hsteps⟩)
  | error e hmore hdepth =>
    rw [← List.append_assoc]
    exact .error e (List.forall_mem_append.mpr ⟨hmore, hsteps⟩) hdepth

theorem Follows.behind_step {path : List Nat} {x : Nat}
    {ran : Option (Except SyntaxError α × Counter)} (h : Follows d (x :: path) ran r)
    (hx : Span d x) : Follows d path ran r := by
  have hsteps : Follows d ([x] ++ path) ran r := h
  exact hsteps.behind (List.forall_mem_singleton.mpr hx)

theorem Follows.at_once (a : α) (path : List Nat) :
    Follows d path (some (.ok a, ⟨d, path⟩)) (.ok a) := by
  have hsteps : ∀ x ∈ ([] : List Nat), Span d x := nofun
  exact .ok a hsteps

theorem Follows.error_at_once (e : SyntaxError) {depth : Nat} (hdepth : Span d depth)
    (path : List Nat) : Follows d path (some (.error e, ⟨depth, path⟩)) (.error e : Except _ α) := by
  have hsteps : ∀ x ∈ ([] : List Nat), Span d x := nofun
  exact .error e hsteps hdepth

section Bind

variable {k : α → Counted β} {c c' : Counter}

theorem bind_eq (p : Counted α) (k : α → Counted β) (c : Counter) :
    (p >>= k) c = (p c).bind fun ran => ExceptT.bindCont k ran.1 ran.2 := rfl

theorem bind_of_ok {a : α} (h : p c = some (.ok a, c')) : (p >>= k) c = k a c' := by
  rw [bind_eq, h]
  rfl

theorem bind_of_error {e : SyntaxError} (h : p c = some (.error e, c')) :
    (p >>= k) c = some (.error e, c') := by
  rw [bind_eq, h]
  rfl

end Bind

theorem Leads.bind {k : α → Counted β} {f : α → Except SyntaxError β} (h : Keeps d p r)
    (hd : Span d' d) (hk : ∀ a, Leads d d' (k a) (f a)) : Leads d d' (p >>= k) (r >>= f) := by
  intro path
  have hp := h path
  generalize hran : p ⟨d, path⟩ = ran at hp
  cases hp with
  | @ok a steps hsteps =>
    rw [bind_of_ok hran]
    exact (hk a (steps ++ path)).behind fun x hx => hd.trans (hsteps x hx)
  | error e hsteps hdepth =>
    rw [bind_of_error hran]
    exact .error e (fun x hx => hd.trans (hsteps x hx)) (hd.trans hdepth)

namespace Keeps

theorem bind {k : α → Counted β} {f : α → Except SyntaxError β} (h : Keeps d p r)
    (hk : ∀ a, Keeps d (k a) (f a)) : Keeps d (p >>= k) (r >>= f) :=
  Leads.bind h (.refl d) hk

theorem pure (a : α) : Keeps d (Pure.pure a) (.ok a) :=
  fun path => .at_once a path

theorem lift (r : Except SyntaxError α) : Keeps d (liftM r) r := by
  intro path
  cases r with
  | ok a => exact .at_once a path
  | error e => exact .error_at_once e (.refl d) path

end Keeps

theorem raise_of_lt (hd : d < maxNesting) (path : List Nat) :
    raise ⟨d, path⟩ = some (.ok (), ⟨d + 1, (d + 1) :: path⟩) :=
  if_neg (Nat.not_le.mpr hd)

theorem raise_of_le (hd : maxNesting ≤ d) (path : List Nat) :
    raise ⟨d, path⟩ = some (.error .tooDeep, ⟨d, path⟩) :=
  if_pos hd

theorem lower?_add (d levels : Nat) (path : List Nat) :
    Counter.lower? ⟨d + levels, path⟩ levels = some ⟨d, d :: path⟩ := by
  simp [Counter.lower?, Counter.set]

theorem Leads.of_raise (hd : d < maxNesting) (hd' : Span d' (d + 1)) (h : Leads (d + 1) d' p r) :
    Leads d d' (raise >>= fun _ => p) r := by
  intro path
  rw [bind_of_ok (raise_of_lt hd path)]
  exact (h _).behind_step hd'

theorem Leads.tooDeep (hd : maxNesting ≤ d) (hd' : Span d' d) :
    Leads d d' (raise >>= fun _ => p) (.error .tooDeep) := by
  intro path
  rw [bind_of_error (raise_of_le hd path)]
  exact .error_at_once _ hd' path

theorem Leads.of_lower (d links : Nat) (a : α) :
    Leads (d + links) d (do
      lower links
      pure a) (.ok a) := by
  intro path
  have hlower : lower links ⟨d + links, path⟩ = some (.ok (), ⟨d, d :: path⟩) := by
    rw [lower, lower?_add]
    rfl
  rw [bind_of_ok hlower]
  exact (Follows.at_once a _).behind_step (.refl d)

theorem Keeps.nested (hd : d < maxNesting) (h : Keeps (d + 1) p r) : Keeps d (nested p) r := by
  refine Leads.of_raise hd (.succ hd) fun path => ?_
  have hp := h path
  generalize p ⟨d + 1, path⟩ = ran at hp ⊢
  have hspan {x : Nat} {steps : List Nat} (hx : Span d x) (hsteps : ∀ y ∈ steps, Span (d + 1) y) :
      ∀ y ∈ x :: steps, Span d y :=
    List.forall_mem_cons.mpr ⟨hx, fun y hy => (Span.succ hd).trans (hsteps y hy)⟩
  cases hp with
  | ok a hsteps =>
    simp only [Option.bind_some, lower?_add, Option.map_some]
    exact .ok a (hspan (.refl d) hsteps)
  | @error e depth steps hsteps hdepth =>
    obtain ⟨x, rfl⟩ : ∃ x, depth = x + 1 :=
      Nat.exists_eq_succ_of_ne_zero (Nat.ne_of_gt (Nat.lt_of_lt_of_le (Nat.succ_pos d) hdepth.1))
    simp only [Option.bind_some, lower?_add, Option.map_some]
    exact .error e (hspan hdepth.pred hsteps) hdepth.pred

def Tracks (d : Nat) (p : List Token → Counted α) (r : List Token → Except SyntaxError α) : Prop :=
  ∀ ts, Keeps d (p ts) (r ts)

theorem separatedWithin_tracks {p : Parse α} {r : Reader α} (h : Tracks d p r) (separator : Mark)
    (limit : Nat) :
    Tracks d (separatedWithin p separator limit) (separatedWithin r separator limit) := by
  induction limit with
  | zero => exact fun ts => .lift _
  | succ limit ih =>
    intro ts
    refine (h ts).bind ?_
    rintro ⟨x, us⟩
    dsimp only
    cases skip? separator us with
    | none => exact .pure _
    | some us => exact (ih us).bind fun _ => .pure _

theorem separated_tracks {p : Parse α} {r : Reader α} (h : Tracks d p r) (separator : Mark) :
    Tracks d (separated p separator) (separated r separator) :=
  fun ts => separatedWithin_tracks h separator (ts.length + 1) ts

theorem clause_tracks {p : Parse (List α)} {r : Reader (List α)} (h : Tracks d p r)
    (keyword : Mark) : Tracks d (clause keyword p) (clause keyword r) := by
  intro ts
  unfold clause
  cases skip? keyword ts with
  | some us => exact h us
  | none => exact .pure _

section Expressions

variable {expression : Parse Expr} {r : Reader Expr} (h : Tracks d expression r)

include h

theorem columnsWithin_tracks (closing : Mark) (limit : Nat) :
    Tracks d (columnsWithin expression closing limit) (Parser.columnsWithin r closing limit) := by
  induction limit with
  | zero => exact fun ts => .lift _
  | succ limit ih =>
    intro ts
    rw [columnsWithin, Parser.columnsWithin]
    cases skip? closing ts with
    | some _ => exact .pure _
    | none =>
      refine (Keeps.lift _).bind fun _ => (Keeps.lift _).bind fun us => (h us).bind ?_
      rintro ⟨value, vs⟩
      dsimp only
      cases skip? .semicolon vs with
      | none => exact .pure _
      | some vs => exact (ih vs).bind fun _ => .pure _

theorem projection_tracks : Tracks d (projection expression) (projection r) := by
  intro ts
  unfold projection
  split
  · exact (h _).bind fun _ => .pure _
  · exact (h _).bind fun _ => .pure _

theorem projections_tracks : Tracks d (projections expression) (projections r) :=
  separated_tracks (projection_tracks h) .comma

theorem selected_tracks : Tracks d (selected expression) (selected r) := by
  intro ts
  unfold selected
  split
  · exact .pure _
  · exact projections_tracks h ts

theorem query_tracks : Tracks d (query expression) (query r) := by
  intro ts
  refine (Keeps.lift _).bind fun us => (selected_tracks h us).bind fun (_, us) => ?_
  refine (clause_tracks (projections_tracks h) .kwBy us).bind fun _ => (Keeps.lift _).bind fun _ => ?_
  refine (Keeps.lift _).bind fun (_, us) => ?_
  refine (clause_tracks (separated_tracks h .comma) .kwWhere us).bind ?_
  rintro ⟨filters, rest⟩
  dsimp only
  split
  · exact .pure _
  · exact .lift _

theorem whole_tracks : Tracks d (whole expression) (whole r) := by
  intro ts
  refine (h ts).bind ?_
  rintro ⟨e, rest⟩
  dsimp only
  split
  · exact .pure _
  · exact .lift _

end Expressions

structure Below (n d : Nat) : Prop where
  item : Tracks d (Inner.level n).item (Parser.level (maxNesting - d)).comparison
  unary : Tracks d (fun ts => nested ((Inner.level n).unary ts))
    (Parser.level (maxNesting - d)).unary
  application : Tracks d (fun ts => nested ((Inner.level n).application ts))
    (Parser.level (maxNesting - d)).application
  link : ∀ (c : Chain) (op : BinOp) (left : Expr) (base links : Nat), base + links = d →
    Span base d → ∀ ts,
      Leads d base
        (do
          raise
          let (right, us) ← (Inner.level n).operand c ts
          (Inner.level n).links c (.binary op left right) (links + 1) us)
        (do
          let (right, us) ← (Parser.level (maxNesting - d)).operand c ts
          (Parser.level (maxNesting - d)).tail c (.binary op left right) us)

namespace Below

variable {n : Nat} (h : Below n d)

include h

theorem columns (closing : Mark) : Tracks d ((Inner.level n).columns closing)
    (Parser.columns (Parser.level (maxNesting - d)).comparison closing) :=
  fun ts => columnsWithin_tracks h.item closing (ts.length + 1) ts

theorem items : Tracks d (separated (Inner.level n).item .semicolon)
    (Parser.separated (Parser.level (maxNesting - d)).comparison .semicolon) := by
  rw [← separated_eq]
  exact separated_tracks h.item .semicolon

theorem arguments :
    Tracks d (Inner.level n).arguments (Parser.level (maxNesting - d)).nextArguments := by
  intro ts
  rw [Inner.arguments, Level.nextArguments]
  cases skip? .closeBracket ts with
  | some us => exact .pure _
  | none => exact (h.items ts).bind fun _ => (Keeps.lift _).bind fun _ => .pure _

theorem table : Tracks d (Inner.level n).table (Parser.level (maxNesting - d)).nextTable := by
  intro ts
  refine (h.columns .closeBracket ts).bind fun _ => (Keeps.lift _).bind fun us => ?_
  exact (h.columns .closeParen us).bind fun _ => (Keeps.lift _).bind fun _ => .pure _

theorem paren : Tracks d (Inner.level n).paren (Parser.level (maxNesting - d)).nextParen := by
  intro ts
  rw [Inner.paren, Level.nextParen]
  cases skip? .openBracket ts with
  | some us => exact h.table us
  | none =>
    cases skip? .closeParen ts with
    | some us => exact .pure _
    | none => exact (h.items ts).bind fun _ => (Keeps.lift _).bind fun _ => .pure _

theorem primary :
    Tracks d (Inner.level n).primary (Parser.level (maxNesting - d)).nextPrimary := by
  intro ts
  cases ts with
  | nil => exact .lift _
  | cons t us =>
    cases t with
    | literal | function | name => exact .pure _
    | mark m =>
      cases m with
      | openParen => exact h.paren us
      | _ => exact .lift _

theorem applied :
    Tracks d (Inner.level n).applied (Parser.level (maxNesting - d)).nextApplication := by
  intro ts
  have hprimary := h.primary ts
  -- The first two tokens tell calls and applications to an operand from primaries.
  cases ts with
  | nil => exact hprimary
  | cons t us =>
    cases t with
    | literal | function => exact hprimary
    | name f =>
      cases us with
      | nil => exact hprimary
      | cons t vs =>
        cases t with
        | literal | function | name => exact (h.application _).bind fun _ => .pure _
        | mark m =>
          cases m with
          | openBracket => exact (h.arguments vs).bind fun _ => .pure _
          | openParen => exact (h.application _).bind fun _ => .pure _
          | _ => exact .pure _
    | mark m =>
      cases m with
      | kwWavg =>
        cases us with
        | nil => exact hprimary
        | cons t vs =>
          cases t with
          | literal | function | name => exact hprimary
          | mark m =>
            cases m with
            | openBracket => exact (h.arguments vs).bind fun _ => .pure _
            | _ => exact hprimary
      | _ => exact hprimary

theorem negated : Tracks d (Inner.level n).negated (Parser.level (maxNesting - d)).nextUnary := by
  intro ts
  rw [Inner.negated, Level.nextUnary]
  cases skip? .minus ts with
  | some us => exact (h.unary us).bind fun _ => .pure _
  | none => exact h.applied ts

/-- The links of a chain give back what they have taken. -/
theorem linked (c : Chain) (left : Expr) {base links : Nat} (hlinks : base + links = d)
    (hbase : Span base d) (ts : List Token) :
    Leads d base ((Inner.level n).linked c left links ts)
      ((Parser.level (maxNesting - d)).nextTail c left ts) := by
  subst hlinks
  cases ts with
  | nil => exact .of_lower base links _
  | cons t us =>
    rw [Inner.linked, Level.nextTail, Level.chain, List.head?_cons, Option.bind_some]
    cases Parser.chainOp? c t with
    | none => exact .of_lower base links _
    | some op => exact h.link c op left base links rfl hbase us

theorem chained (c : Chain) {p : Parse Expr} {r : Reader Expr} (hp : Tracks d p r) :
    Tracks d ((Inner.level n).chained c p) (fun ts => do
      let (left, us) ← r ts
      (Parser.level (maxNesting - d)).nextTail c left us) :=
  fun ts => (hp ts).bind fun (left, us) => h.linked c left rfl (.refl d) us

theorem weighted :
    Tracks d (Inner.level n).weighted (Parser.level (maxNesting - d)).nextWeighted :=
  h.chained .weighted h.negated

theorem product :
    Tracks d (Inner.level n).product (Parser.level (maxNesting - d)).nextMultiplicative :=
  h.chained .product h.weighted

theorem sum : Tracks d (Inner.level n).sum (Parser.level (maxNesting - d)).nextAdditive :=
  h.chained .sum h.product

theorem chain (c : Chain) :
    Tracks d ((Inner.level n).chain c) ((Parser.level (maxNesting - d)).nextChain c) := by
  cases c with
  | sum => exact h.sum
  | product => exact h.product
  | weighted => exact h.weighted

theorem operandOf (c : Chain) : Tracks d ((Inner.level n).operandOf c)
    ((Parser.level (maxNesting - d)).next.operand c) := by
  cases c with
  | sum => exact h.product
  | product => exact h.weighted
  | weighted => exact h.negated

theorem comparison :
    Tracks d (Inner.level n).comparison (Parser.level (maxNesting - d)).nextComparison := by
  intro ts
  refine (h.sum ts).bind ?_
  rintro ⟨left, us⟩
  cases us with
  | nil => exact .pure _
  | cons t vs =>
    dsimp only [List.head?_cons, Option.bind_some]
    cases Level.comparisonOp? t with
    | none => exact .pure _
    | some op => exact (h.sum vs).bind fun _ => .pure _

end Below

/-- At the deepest nesting nothing is entered, whatever levels are left. -/
theorem below_of_le (n : Nat) (hd : maxNesting ≤ d) : Below n d := by
  have hlevel : maxNesting - d = 0 := Nat.sub_eq_zero_of_le hd
  have htooDeep {p : Parse Expr} :
      Tracks d (fun ts => nested (p ts)) (fun _ => .error .tooDeep) :=
    fun ts => Leads.tooDeep hd (.refl d)
  constructor
  all_goals rw [hlevel]
  · exact htooDeep
  · exact htooDeep
  · exact htooDeep
  · intro c op left base links _ hbase ts
    cases c <;> exact .tooDeep hd hbase

theorem below_of_lt {n : Nat} (hd : d < maxNesting) (h : Below n (d + 1)) : Below (n + 1) d := by
  have hlevel : maxNesting - d = maxNesting - (d + 1) + 1 := by omega
  constructor
  all_goals rw [hlevel]
  · exact fun ts => .nested hd (h.comparison ts)
  · exact fun ts => .nested hd (h.negated ts)
  · exact fun ts => .nested hd (h.applied ts)
  · intro c op left base links hlinks hbase ts
    have hspan : Span base (d + 1) := hbase.trans (.succ hd)
    have hlinks' : base + (links + 1) = d + 1 := congrArg (· + 1) hlinks
    refine .of_raise hd hspan (Leads.bind (h.operandOf c ts) hspan fun (right, us) => ?_)
    have hrest := h.linked c (.binary op left right) hlinks' hspan us
    cases c <;> exact hrest

theorem below (n d : Nat) (hn : maxNesting ≤ n + d) : Below n d := by
  -- On the levels: what is entered is what has been followed one level down, one deeper.
  induction n generalizing d with
  | zero => exact below_of_le 0 (by omega)
  | succ n ih =>
    by_cases hd : maxNesting ≤ d
    · exact below_of_le (n + 1) hd
    · exact below_of_lt (Nat.lt_of_not_le hd) (ih (d + 1) (by omega))

namespace Routine

theorem run_tracks (f : Routine α) (d : Nat) : Tracks d f.run (f.read (maxNesting - d)) := by
  have h : Below maxNesting d := below maxNesting d (Nat.le_add_right maxNesting d)
  cases f with
  | expression => exact h.item
  | comparison => exact h.comparison
  | chain c => exact h.chain c
  | unary => exact h.negated
  | application => exact h.applied
  | arguments => exact h.arguments
  | primary => exact h.primary
  | vector => exact fun ts => .pure _
  | paren => exact h.paren
  | table => exact h.table
  | columns closing => exact h.columns closing
  | projections => exact projections_tracks h.item
  | query => exact query_tracks h.item
  | whole => exact whole_tracks h.item

theorem run_eq (f : Routine α) (d : Nat) (ts : List Token) :
    ∃ c, f.run ts ⟨d, []⟩ = some (f.read (maxNesting - d) ts, c) ∧ (∀ x ∈ c.path, Span d x) ∧
      ∀ a, f.read (maxNesting - d) ts = .ok a → c.depth = d := by
  have h := f.run_tracks d ts []
  generalize f.run ts ⟨d, []⟩ = ran at h ⊢
  generalize f.read (maxNesting - d) ts = r at h ⊢
  cases h with
  | ok a hsteps => exact ⟨_, rfl, by simpa using hsteps, fun _ _ => rfl⟩
  | error e hsteps _ => exact ⟨_, rfl, by simpa using hsteps, nofun⟩

/-- From a depth, the routine takes the tokens in front of a rest, and ends at that depth. -/
def Takes (f : Routine (α × List Token)) (d : Nat) (ts : List Token) (a : α) (rest : List Token) :
    Prop :=
  ∃ path, f.run (ts ++ rest) ⟨d, []⟩ = some (.ok (a, rest), ⟨d, path⟩)

theorem takes_iff {f : Routine (α × List Token)} {ts rest : List Token} {a : α} :
    f.Takes d ts a rest ↔ f.read (maxNesting - d) (ts ++ rest) = .ok (a, rest) := by
  obtain ⟨c, hrun, -, hdepth⟩ := f.run_eq d (ts ++ rest)
  rw [Takes, hrun]
  constructor
  · rintro ⟨path, h⟩
    exact congrArg Prod.fst (Option.some.inj h)
  · intro h
    refine ⟨c.path, ?_⟩
    rw [h, ← hdepth _ h]

end Routine

section Items

variable {items : List (Segment Expr)} (h : ∀ p ∈ items, Routine.expression.Takes d p.1 p.2 [])

include h

theorem derives_item : ∀ p ∈ items, DerivesExpr (maxNesting - d) p.1 p.2 := by
  intro p hp
  have hread := Routine.takes_iff.mp (h p hp)
  obtain ⟨us, hus, hderives⟩ := (Parser.soundBelow (maxNesting - d)).comparison _ _ _ hread
  rw [List.append_cancel_right hus]
  exact hderives

theorem item_start : ∀ p ∈ items, PhraseStart p.1 :=
  fun p hp => (derives_item h p hp).start rfl

/-- What is taken alone is taken in front of all that may stand behind an item. -/
theorem item_takes :
    ∀ p ∈ items, Parser.Takes False (Parser.level (maxNesting - d)).comparison p :=
  fun p hp => (Parser.reads_of_derives (derives_item h p hp)).takes

theorem list_takes (hlength : 2 ≤ items.length) (rest : List Token) :
    Routine.primary.Takes d
      (.mark .openParen :: (separatedBy .semicolon items ++ [.mark .closeParen]))
      (.list (items.map (·.2))) rest := by
  obtain ⟨p, q, more, rfl⟩ : ∃ p q more, items = p :: q :: more :=
    match items, hlength with
    | p :: q :: more, _ => ⟨p, q, more, rfl⟩
  rw [Routine.takes_iff, List.cons_append, List.append_assoc]
  exact Level.nextParen_takes (List.cons_ne_nil p (q :: more)) (item_start h) (item_takes h) rest

theorem call_takes {head : Token} {f : String} (hhead : Callee head f) (rest : List Token) :
    Routine.application.Takes d
      (head :: .mark .openBracket :: (separatedBy .semicolon items ++ [.mark .closeBracket]))
      (.apply f (items.map (·.2))) rest := by
  have hread := Level.nextArguments_takes (item_start h) (item_takes h) rest
  rw [Routine.takes_iff, List.cons_append, List.cons_append, List.append_assoc]
  refine (Level.nextApplication_call hhead _).trans ?_
  rw [List.singleton_append, hread]
  rfl

theorem table_takes {keys columns : List ColumnPart} {ks cs : List Token}
    (hitems : (keys ++ columns).map (·.value) = items) (hks : Columns keys ks)
    (hcs : Columns columns cs) (rest : List Token) :
    Routine.primary.Takes d
      (.mark .openParen :: .mark .openBracket :: (ks ++ .mark .closeBracket ::
        (cs ++ [.mark .closeParen])))
      (.table (keys.map (·.column)) (columns.map (·.column))) rest := by
  subst hitems
  have htakes := item_takes h
  rw [List.map_append, List.forall_mem_append] at htakes
  have hread := Level.nextTable_takes hks (List.forall_mem_map.mp htakes.1) hcs
    (List.forall_mem_map.mp htakes.2) rest
  rw [Routine.takes_iff]
  simpa [Routine.read, Level.nextPrimary, Level.nextParen] using hread

end Items

/-- On all tokens every routine of the parser gives what the reader gives that has the levels left
at its depth. On the way its counter is never below that depth, and never beyond the deepest nesting
if it was not so before. A routine that does not fail ends at the depth at which it was started. So
items that are taken alone from a depth are taken together from it, however many they are. -/
theorem depth_path_local :
    (∀ {α : Type} (f : Routine α) (d : Nat) (ts : List Token),
      ∃ c, f.run ts ⟨d, []⟩ = some (f.read (maxNesting - d) ts, c) ∧
        (∀ x ∈ c.path, d ≤ x ∧ x ≤ max d maxNesting) ∧
        ∀ a, f.read (maxNesting - d) ts = .ok a → c.depth = d) ∧
    Routine.whole.read maxNesting = Parser.parseExpr ∧
    Routine.query.read maxNesting = Parser.parseQuery ∧
    ∀ (d : Nat) (items : List (Segment Expr)), 2 ≤ items.length →
      (∀ p ∈ items, Routine.expression.Takes d p.1 p.2 []) → ∀ rest,
        Routine.primary.Takes d
          (.mark .openParen :: (separatedBy .semicolon items ++ [.mark .closeParen]))
          (.list (items.map (·.2))) rest ∧
        (∀ head f, Callee head f →
          Routine.application.Takes d
            (head :: .mark .openBracket ::
              (separatedBy .semicolon items ++ [.mark .closeBracket]))
            (.apply f (items.map (·.2))) rest) ∧
        ∀ keys columns ks cs, (keys ++ columns).map (·.value) = items →
          Columns keys ks → Columns columns cs →
            Routine.primary.Takes d
              (.mark .openParen :: .mark .openBracket :: (ks ++ .mark .closeBracket ::
                (cs ++ [.mark .closeParen])))
              (.table (keys.map (·.column)) (columns.map (·.column))) rest := by
  refine ⟨fun f d ts => f.run_eq d ts, whole_eq, query_eq, ?_⟩
  intro d items hlength h rest
  refine ⟨list_takes h hlength rest, fun head f hhead => call_takes h hhead rest, ?_⟩
  intro keys columns ks cs hitems hks hcs
  exact table_takes h hitems hks hcs rest

/-- Three items of which each takes the last two levels, by an application, a chain and a sign. -/
theorem depth_path_local_limit :
    let added : Expr := .binary (.elementwise (.arithmetic .add)) (.name "x") (.name "x")
    let items : List (Segment Expr) :=
      [([.name "f", .name "x"], .apply "f" [.name "x"]),
        ([.name "x", .mark .plus, .name "x"], added),
        ([.mark .minus, .name "x"], .negate (.name "x"))]
    2 ≤ items.length ∧ (∀ p ∈ items, Routine.expression.Takes 126 p.1 p.2 []) ∧
      Routine.primary.Takes 126
        [.mark .openParen, .name "f", .name "x", .mark .semicolon, .name "x", .mark .plus,
          .name "x", .mark .semicolon, .mark .minus, .name "x", .mark .closeParen]
        (.list [.apply "f" [.name "x"], added, .negate (.name "x")]) [] ∧
      Routine.application.Takes 126
        [.mark .kwWavg, .mark .openBracket, .name "f", .name "x", .mark .semicolon, .name "x",
          .mark .plus, .name "x", .mark .semicolon, .mark .minus, .name "x", .mark .closeBracket]
        (.apply "wavg" [.apply "f" [.name "x"], added, .negate (.name "x")]) [] ∧
      Routine.primary.Takes 126
        [.mark .openParen, .mark .openBracket, .name "k", .mark .colon, .name "f", .name "x",
          .mark .closeBracket, .name "a", .mark .colon, .name "x", .mark .plus, .name "x",
          .mark .semicolon, .name "b", .mark .colon, .mark .minus, .name "x", .mark .semicolon,
          .mark .closeParen]
        (.table [("k", .apply "f" [.name "x"])] [("a", added), ("b", .negate (.name "x"))]) [] := by
  intro added items
  have hlength : 2 ≤ items.length := Nat.le_succ 2
  have hitems : ∀ p ∈ items, Routine.expression.Takes 126 p.1 p.2 [] := by
    refine List.forall_mem_cons.mpr ⟨⟨_, rfl⟩, List.forall_mem_cons.mpr ⟨⟨_, rfl⟩, ?_⟩⟩
    exact List.forall_mem_singleton.mpr ⟨_, rfl⟩
  have htakes := depth_path_local.2.2.2 126 items hlength hitems []
  have hkeys : Columns [⟨"k", [.name "f", .name "x"], .apply "f" [.name "x"]⟩]
      [.name "k", .mark .colon, .name "f", .name "x"] := .last _
  have hcolumns : Columns
      [⟨"a", [.name "x", .mark .plus, .name "x"], added⟩,
        ⟨"b", [.mark .minus, .name "x"], .negate (.name "x")⟩]
      [.name "a", .mark .colon, .name "x", .mark .plus, .name "x", .mark .semicolon, .name "b",
        .mark .colon, .mark .minus, .name "x", .mark .semicolon] := .more (.more .none)
  have htable := htakes.2.2 _ _ _ _ rfl hkeys hcolumns
  exact ⟨hlength, hitems, htakes.1, htakes.2.1 _ _ .wavg, htable⟩

end TableConsole.Counting
