import TableConsole.Proofs.Guarded.Cursor
import TableConsole.Proofs.Guarded.Lexer
import TableConsole.Proofs.Syntax.Soundness

/-! # The cursor stays within the tokens

The parser with a cursor reads what the readers of token lists read: its position is the place of
the tokens that are left, and its depth and the levels that are left make up the deepest nesting. So
no index is beyond the end of the input, and whatever is taken from the depth has been added to it
before.
-/

namespace TableConsole.Guarded

set_option autoImplicit false

open TableConsole.Parser (Reader Level)

def cursor (ts rest : List Token) (depth : Nat) : Cursor :=
  ⟨ts.map some ++ [none], ts.length - rest.length, depth⟩

/-- A step stops before the tokens that a reader leaves, at a given depth; if it fails, the depth
is still at least that. -/
inductive Follows {α : Type} (ts : List Token) (depth : Nat) :
    Option (Except SyntaxError α × Cursor) → Except SyntaxError (α × List Token) → Prop
  | ok (a : α) {rest : List Token} :
    rest <:+ ts → Follows ts depth (some (.ok a, cursor ts rest depth)) (.ok (a, rest))
  | error (e : SyntaxError) {c : Cursor} :
    depth ≤ c.depth → Follows ts depth (some (.error e, c)) (.error e)

variable {α β : Type} {ts rest : List Token} {d d' : Nat}

theorem Follows.bind {p : Parse α} {k : α → Parse β} {c : Cursor}
    {r : Except SyntaxError (α × List Token)}
    {f : α × List Token → Except SyntaxError (β × List Token)} (h : Follows ts d (p c) r)
    (hd : d' ≤ d) (hk : ∀ a rest, r = .ok (a, rest) → rest <:+ ts →
      Follows ts d' (k a (cursor ts rest d)) (f (a, rest))) :
    Follows ts d' ((p >>= k) c) (r >>= f) := by
  generalize hran : p c = ran at h
  cases h with
  | ok a hrest =>
    rw [Parse.bind_of_ok hran]
    exact hk a _ rfl hrest
  | error e hdepth =>
    rw [Parse.bind_of_error hran]
    exact .error e (Nat.le_trans hd hdepth)

theorem getElem?_tokens (h : rest <:+ ts) :
    (ts.map some ++ [none])[ts.length - rest.length]? = some rest.head? := by
  obtain ⟨before, rfl⟩ := h
  cases rest <;> simp

section Tokens

variable (h : rest <:+ ts)

include h

theorem current_bind (k : Option Token → Parse α) :
    (Parse.current >>= k) (cursor ts rest d) = k rest.head? (cursor ts rest d) := by
  refine Parse.bind_of_ok ?_ k
  rw [Parse.current, cursor, getElem?_tokens h]
  rfl

theorem peek_bind (k : Option Token → Parse α) :
    (Parse.peek 1 >>= k) (cursor ts rest d) = k rest.tail.head? (cursor ts rest d) := by
  refine Parse.bind_of_ok ?_ k
  have hplace : min (ts.length - rest.length + 1) ts.length = ts.length - rest.tail.length := by
    have hle := h.length_le
    cases rest with
    | nil => simp
    | cons t rest =>
      simp only [List.length_cons, List.tail_cons] at hle ⊢
      omega
  have hpeek := getElem?_tokens ((List.tail_suffix rest).trans h)
  simp only [Parse.peek, cursor, List.length_append, List.length_map, List.length_singleton,
    minus?_add, Option.bind_some, hplace, hpeek, Option.map_some]

theorem unexpected_follows (e : Expectation) :
    Follows ts d ((Parse.unexpected e : Parse α) (cursor ts rest d))
      (.error (Parser.unexpected e rest)) := by
  rw [Parse.unexpected, current_bind h]
  cases rest <;> exact .error _ (Nat.le_refl d)

end Tokens

theorem advance_bind {t : Token} (h : t :: rest <:+ ts) (k : Option Token → Parse α) :
    (Parse.advance >>= k) (cursor ts (t :: rest) d) = k (some t) (cursor ts rest d) := by
  refine Parse.bind_of_ok ?_ k
  have hplace : ts.length - (t :: rest).length + 1 = ts.length - rest.length := by
    have hle := h.length_le
    simp only [List.length_cons] at hle ⊢
    omega
  rw [cursor.eq_1 ts rest, ← hplace, Parse.advance, cursor, getElem?_tokens h]
  rfl

theorem isMark_head? (m : Mark) (rest : List Token) :
    Parse.isMark m rest.head? = (Parser.skip? m rest).isSome := by
  cases rest with
  | nil => rfl
  | cons t us =>
    cases t with
    | mark m' => by_cases hm : m' = m <;> simp [Parse.isMark, Parser.skip?, hm]
    | literal | function | name => rfl

section Branches

variable {m : Mark} {behind other : Parse α} (h : rest <:+ ts)

include h

theorem suffix_of_skip? {us : List Token} (hskip : Parser.skip? m rest = some us) : us <:+ ts := by
  obtain rfl := Parser.skip?_eq_some_iff.mp hskip
  exact (List.suffix_cons _ us).trans h

theorem ifNext_of_some {us : List Token} (hskip : Parser.skip? m rest = some us) :
    Parse.ifNext m behind other (cursor ts rest d) = behind (cursor ts us d) := by
  rw [Parse.ifNext, current_bind h, isMark_head?, hskip, Option.isSome_some, if_pos rfl]
  obtain rfl := Parser.skip?_eq_some_iff.mp hskip
  exact advance_bind h _

theorem ifNext_of_none (hskip : Parser.skip? m rest = none) :
    Parse.ifNext m behind other (cursor ts rest d) = other (cursor ts rest d) := by
  rw [Parse.ifNext, current_bind h, isMark_head?, hskip, Option.isSome_none, if_neg Bool.false_ne_true]

end Branches

theorem pure_follows (a : α) (h : rest <:+ ts) :
    Follows ts d ((pure a : Parse α) (cursor ts rest d)) (.ok (a, rest)) :=
  .ok a h

theorem expect_cases (h : rest <:+ ts) (m : Mark) (e : Expectation) :
    (∃ us, us <:+ ts ∧ rest = .mark m :: us ∧ Parser.expect m e rest = .ok us ∧
        Parse.expect m e (cursor ts rest d) = some (.ok (), cursor ts us d)) ∨
      ∃ fault c, d ≤ Cursor.depth c ∧ Parser.expect m e rest = .error fault ∧
        Parse.expect m e (cursor ts rest d) = some (.error fault, c) := by
  rw [Parser.expect, Parse.expect]
  cases hskip : Parser.skip? m rest with
  | some us =>
    exact .inl ⟨us, suffix_of_skip? h hskip, Parser.skip?_eq_some_iff.mp hskip, rfl,
      ifNext_of_some h hskip⟩
  | none =>
    have hfails := unexpected_follows (α := Unit) (d := d) h e
    rw [ifNext_of_none h hskip]
    generalize (Parse.unexpected e : Parse Unit) (cursor ts rest d) = ran at hfails
    cases hfails with
    | @error _ c hdepth => exact .inr ⟨_, c, hdepth, rfl, rfl⟩

theorem expect_bind (h : rest <:+ ts) {m : Mark} {e : Expectation} {k : Unit → Parse α}
    {f : List Token → Except SyntaxError (α × List Token)} (hd : d' ≤ d)
    (hk : ∀ us, rest = .mark m :: us → us <:+ ts → Follows ts d' (k () (cursor ts us d)) (f us)) :
    Follows ts d' ((Parse.expect m e >>= k) (cursor ts rest d)) (Parser.expect m e rest >>= f) := by
  obtain ⟨us, hus, hrest, hread, hstep⟩ | ⟨fault, c, hdepth, hread, hstep⟩ := expect_cases h m e
  · rw [Parse.bind_of_ok hstep, hread]
    exact hk us hrest hus
  · rw [Parse.bind_of_error hstep, hread]
    exact .error fault (Nat.le_trans hd hdepth)

theorem expectName_follows (h : rest <:+ ts) (e : Expectation) :
    Follows ts d (Parse.expectName e (cursor ts rest d)) (Parser.expectName e rest) := by
  rw [Parse.expectName, current_bind h]
  cases rest with
  | nil => exact unexpected_follows h e
  | cons t us =>
    cases t with
    | name n =>
      simp only [List.head?_cons]
      rw [advance_bind h]
      exact .ok n ((List.suffix_cons _ us).trans h)
    | literal | function | mark => exact unexpected_follows h e

theorem nested_follows {p : Parse α} {r : Except SyntaxError (α × List Token)} (hd : d < maxNesting)
    (h : Follows ts (d + 1) (p (cursor ts rest (d + 1))) r) :
    Follows ts d (Parse.nested p (cursor ts rest d)) r := by
  have hnested : Parse.nested p (cursor ts rest d) =
      (p (cursor ts rest (d + 1))).bind fun ran =>
        (minus? ran.2.depth 1).map fun depth => (ran.1, { ran.2 with depth }) :=
    if_neg (Nat.not_le.mpr hd)
  rw [hnested]
  generalize p (cursor ts rest (d + 1)) = ran at h
  cases h with
  | ok a hrest =>
    simp only [Option.bind_some, cursor, minus?_add, Option.map_some]
    exact .ok a hrest
  | @error e c hdepth =>
    obtain ⟨k, hk⟩ := Nat.exists_eq_add_of_le' hdepth
    rw [← Nat.add_assoc] at hk
    simp only [Option.bind_some, hk, minus?_add, Option.map_some]
    exact .error e (Nat.le_add_left d k)

theorem nested_tooDeep {p : Parse α} (hd : d = maxNesting) :
    Follows ts d (Parse.nested p (cursor ts rest d)) (.error .tooDeep) := by
  have hnested : Parse.nested p (cursor ts rest d) = some (.error .tooDeep, cursor ts rest d) :=
    if_pos (Nat.le_of_eq hd.symm)
  rw [hnested]
  exact .error _ (Nat.le_refl d)

/-- What a reader leaves is shorter than what it was given. -/
def Shortens (r : Reader α) : Prop :=
  ∀ ts x rest, r ts = .ok (x, rest) → rest.length < ts.length

/-- The step follows the reader wherever the cursor stands. -/
def Tracks (ts : List Token) (d : Nat) (p : Parse α) (r : Reader α) : Prop :=
  ∀ rest, rest <:+ ts → Follows ts d (p (cursor ts rest d)) (r rest)

section Lists

variable {item : Parse α} {r : Reader α} (hitem : Tracks ts d item r) (hr : Shortens r)

include hitem hr

/-- Each item takes a token, so the limits are not met. -/
theorem separatedWithin_follows (m : Mark) {limit limit' : Nat} (h : rest <:+ ts)
    (hlimit : rest.length < limit) (hlimit' : rest.length < limit') :
    Follows ts d (Parse.separatedWithin item m limit (cursor ts rest d))
      (Parser.separatedWithin r m limit' rest) := by
  induction limit generalizing rest limit' with
  | zero => omega
  | succ limit ih =>
    obtain ⟨limit', rfl⟩ : ∃ k, limit' = k + 1 := ⟨limit' - 1, by omega⟩
    rw [Parse.separatedWithin, Parser.separatedWithin]
    refine (hitem rest h).bind (Nat.le_refl d) fun x us hx hus => ?_
    have hshort := hr rest x us hx
    dsimp only
    cases hskip : Parser.skip? m us with
    | none =>
      rw [ifNext_of_none hus hskip]
      exact pure_follows [x] hus
    | some vs =>
      rw [ifNext_of_some hus hskip]
      have hvs := suffix_of_skip? hus hskip
      obtain rfl := Parser.skip?_eq_some_iff.mp hskip
      simp only [List.length_cons] at hshort
      exact (ih hvs (by omega) (by omega)).bind (Nat.le_refl d) fun xs ws _ hws =>
        pure_follows (x :: xs) hws

theorem separated_tracks (m : Mark) :
    Tracks ts d (Parse.separated item m) (Parser.separated r m) := by
  intro rest h
  have hle := h.length_le
  exact separatedWithin_follows hitem hr m h (by simp [cursor]; omega) (Nat.lt_succ_self _)

end Lists

section Columns

variable {expression : Parse Expr} {r : Reader Expr} (hexpression : Tracks ts d expression r)
  (hr : Shortens r)

include hexpression hr

theorem columnsWithin_follows (closing : Mark) {limit limit' : Nat} (h : rest <:+ ts)
    (hlimit : rest.length < limit) (hlimit' : rest.length < limit') :
    Follows ts d (Parse.columnsWithin expression closing limit (cursor ts rest d))
      (Parser.columnsWithin r closing limit' rest) := by
  induction limit generalizing rest limit' with
  | zero => omega
  | succ limit ih =>
    obtain ⟨limit', rfl⟩ : ∃ k, limit' = k + 1 := ⟨limit' - 1, by omega⟩
    rw [Parse.columnsWithin, Parser.columnsWithin, current_bind h, isMark_head?]
    cases hclosing : Parser.skip? closing rest with
    | some us => exact pure_follows [] h
    | none =>
      rw [Option.isSome_none, if_neg Bool.false_ne_true]
      refine (expectName_follows h _).bind (Nat.le_refl d) fun name us hname hus => ?_
      refine expect_bind hus (Nat.le_refl d) fun vs hvs hsuffix => ?_
      refine (hexpression vs hsuffix).bind (Nat.le_refl d) fun value ws hvalue hws => ?_
      have hshort := hr vs value ws hvalue
      obtain rfl := Parser.expectName_eq_ok_iff.mp hname
      subst hvs
      simp only [List.length_cons] at hlimit hlimit'
      dsimp only
      cases hskip : Parser.skip? .semicolon ws with
      | none =>
        rw [ifNext_of_none hws hskip]
        exact pure_follows [(name, value)] hws
      | some xs =>
        rw [ifNext_of_some hws hskip]
        have hxs := suffix_of_skip? hws hskip
        obtain rfl := Parser.skip?_eq_some_iff.mp hskip
        simp only [List.length_cons] at hshort
        exact (ih hxs (by omega) (by omega)).bind (Nat.le_refl d) fun columns ys _ hys =>
          pure_follows ((name, value) :: columns) hys

theorem columns_tracks (closing : Mark) :
    Tracks ts d (Parse.columns expression closing) (Parser.columns r closing) := by
  intro rest h
  have hle := h.length_le
  exact columnsWithin_follows hexpression hr closing h (by simp [cursor]; omega)
    (Nat.lt_succ_self _)

end Columns

theorem literalsWithin_follows {limit : Nat} (h : rest <:+ ts) (hlimit : rest.length < limit) :
    Follows ts d (Parse.literalsWithin limit (cursor ts rest d)) (.ok (Parser.literals rest)) := by
  induction limit generalizing rest with
  | zero => omega
  | succ limit ih =>
    rw [Parse.literalsWithin, current_bind h]
    cases rest with
    | nil => exact pure_follows [] h
    | cons t us =>
      have hus : us <:+ ts := (List.suffix_cons t us).trans h
      cases t with
      | literal a =>
        rw [List.head?_cons, Parse.isLiteral, if_pos rfl, advance_bind h]
        have hrest := ih hus (by simpa using hlimit)
        exact hrest.bind (f := fun r => .ok (a :: r.1, r.2)) (Nat.le_refl d) fun as vs _ hvs =>
          pure_follows (a :: as) hvs
      | function | name | mark => exact pure_follows [] h

theorem literals_follows (h : rest <:+ ts) :
    Follows ts d (Parse.literals (cursor ts rest d)) (.ok (Parser.literals rest)) := by
  have hle := h.length_le
  exact literalsWithin_follows h (by simp [cursor]; omega)

theorem shortens_of_sound {r : Reader Expr} {n : Nat} {ph : Grammar.Phrase}
    (h : Parser.Sound r (Grammar.Derives n ph)) (hph : ph.whole = true) : Shortens r := by
  intro ts e rest hts
  obtain ⟨us, rfl, hus⟩ := h ts e rest hts
  have hpos := hus.length_pos hph
  simp only [List.length_append]
  omega

/-- What is entered from a level follows the readers, at the depth that leaves so many levels. -/
structure Below (ts : List Token) (n d : Nat) : Prop where
  expression : Tracks ts d (Parse.nested (Inner.level n).expression) (Parser.level n).comparison
  unary : Tracks ts d (Parse.nested (Inner.level n).unary) (Parser.level n).unary
  application : Tracks ts d (Parse.nested (Inner.level n).application) (Parser.level n).application
  link : ∀ (c : Grammar.Chain) (op : BinOp) (left : Expr) (links : Nat), links ≤ d →
    ∀ rest, rest <:+ ts →
      Follows ts (d - links)
        ((do
          let links ← Parse.link links
          let right ← (Inner.level n).operand c
          (Inner.level n).links c (.binary op left right) links) (cursor ts rest d))
        (do
          let (right, us) ← (Parser.level n).operand c rest
          (Parser.level n).tail c (.binary op left right) us)

namespace Below

variable {n : Nat} (h : Below ts n d)

theorem shortens_comparison (n : Nat) : Shortens (Parser.level n).comparison :=
  shortens_of_sound (Parser.soundBelow n).comparison rfl

include h

theorem arguments : Tracks ts d (Inner.level n).arguments (Parser.level n).nextArguments := by
  intro rest hrest
  rw [Inner.arguments, Level.nextArguments]
  cases hskip : Parser.skip? .closeBracket rest with
  | some us =>
    rw [ifNext_of_some hrest hskip]
    exact pure_follows [] (suffix_of_skip? hrest hskip)
  | none =>
    rw [ifNext_of_none hrest hskip]
    refine (separated_tracks h.expression (shortens_comparison n) .semicolon rest hrest).bind
      (Nat.le_refl d) fun args us _ hus => ?_
    exact expect_bind hus (Nat.le_refl d) fun vs _ hvs => pure_follows args hvs

theorem table : Tracks ts d (Inner.level n).table (Parser.level n).nextTable := by
  intro rest hrest
  refine (columns_tracks h.expression (shortens_comparison n) .closeBracket rest hrest).bind
    (Nat.le_refl d) fun keys us _ hus => ?_
  refine expect_bind hus (Nat.le_refl d) fun vs _ hvs => ?_
  refine (columns_tracks h.expression (shortens_comparison n) .closeParen vs hvs).bind
    (Nat.le_refl d) fun columns ws _ hws => ?_
  exact expect_bind hws (Nat.le_refl d) fun xs _ hxs => pure_follows _ hxs

theorem paren : Tracks ts d (Inner.level n).paren (Parser.level n).nextParen := by
  intro rest hrest
  rw [Inner.paren, Level.nextParen]
  cases hbracket : Parser.skip? .openBracket rest with
  | some us =>
    rw [ifNext_of_some hrest hbracket]
    exact h.table us (suffix_of_skip? hrest hbracket)
  | none =>
    rw [ifNext_of_none hrest hbracket]
    cases hparen : Parser.skip? .closeParen rest with
    | some us =>
      rw [ifNext_of_some hrest hparen]
      exact pure_follows _ (suffix_of_skip? hrest hparen)
    | none =>
      rw [ifNext_of_none hrest hparen]
      refine (separated_tracks h.expression (shortens_comparison n) .semicolon rest hrest).bind
        (Nat.le_refl d) fun items us _ hus => ?_
      exact expect_bind hus (Nat.le_refl d) fun vs _ hvs => pure_follows _ hvs

theorem primary : Tracks ts d (Inner.level n).primary (Parser.level n).nextPrimary := by
  intro rest hrest
  rw [Inner.primary, current_bind hrest]
  cases rest with
  | nil => exact unexpected_follows hrest .expression
  | cons t us =>
    have hus : us <:+ ts := (List.suffix_cons t us).trans hrest
    cases t with
    | literal a =>
      refine (literals_follows hrest).bind
        (f := fun r => .ok (Level.ofItems (r.1.map .literal), r.2)) (Nat.le_refl d) ?_
      exact fun as vs _ hvs => pure_follows _ hvs
    | function source =>
      dsimp only [List.head?_cons]
      rw [advance_bind hrest]
      exact pure_follows _ hus
    | name x =>
      dsimp only [List.head?_cons]
      rw [advance_bind hrest]
      exact pure_follows _ hus
    | mark m =>
      cases m with
      | openParen =>
        dsimp only [List.head?_cons]
        rw [advance_bind hrest]
        exact h.paren us hus
      | _ => exact unexpected_follows hrest .expression

theorem call {f : Token} {us : List Token} (hrest : f :: .mark .openBracket :: us <:+ ts)
    (name : String) :
    Follows ts d ((Inner.level n).call name (cursor ts (f :: .mark .openBracket :: us) d))
      (do
        let (args, us) ← (Parser.level n).nextArguments us
        .ok (.apply name args, us)) := by
  have hbracket : .mark .openBracket :: us <:+ ts := (List.suffix_cons f _).trans hrest
  have hus : us <:+ ts := (List.suffix_cons _ us).trans hbracket
  rw [Inner.call, advance_bind hrest, advance_bind hbracket]
  exact (h.arguments us hus).bind (Nat.le_refl d) fun args vs _ hvs => pure_follows _ hvs

omit h in
theorem isMark_openBracket {t : Token} (ht : t ≠ .mark .openBracket) (us : List Token) :
    ¬ Parse.isMark .openBracket (t :: us).head? = true := by
  cases t with
  | mark m => simpa [Parse.isMark] using ht
  | literal | function | name => exact Bool.false_ne_true

omit h in
theorem nextApplication_name {t : Token} (ht : t ≠ .mark .openBracket) (l : Level) (f : String)
    (us : List Token) :
    l.nextApplication (.name f :: t :: us) =
      if t.startsOperand then do
        let (arg, us) ← l.application (t :: us)
        .ok (.apply f [arg], us)
      else l.nextPrimary (.name f :: t :: us) := by
  cases t with
  | mark m => cases m <;> first | rfl | exact absurd rfl ht
  | literal | function | name => rfl

omit h in
theorem nextApplication_wavg {t : Token} (ht : t ≠ .mark .openBracket) (l : Level)
    (us : List Token) :
    l.nextApplication (.mark .kwWavg :: t :: us) = l.nextPrimary (.mark .kwWavg :: t :: us) := by
  cases t with
  | mark m => cases m <;> first | rfl | exact absurd rfl ht
  | literal | function | name => rfl

theorem applied : Tracks ts d (Inner.level n).applied (Parser.level n).nextApplication := by
  intro rest hrest
  rw [Inner.applied, current_bind hrest]
  cases rest with
  | nil => exact h.primary [] hrest
  | cons t us =>
    have hus : us <:+ ts := (List.suffix_cons t us).trans hrest
    cases t with
    | literal | function => exact h.primary _ hrest
    | name f =>
      dsimp only [List.head?_cons]
      rw [peek_bind hrest, List.tail_cons]
      cases us with
      | nil =>
        have hnone : ¬ Parse.isMark .openBracket none = true := Bool.false_ne_true
        rw [List.head?_nil, if_neg hnone, peek_bind hrest]
        exact h.primary _ hrest
      | cons t us =>
        by_cases hbracket : t = .mark .openBracket
        · subst hbracket
          exact h.call hrest f
        · rw [if_neg (isMark_openBracket hbracket us), peek_bind hrest, List.tail_cons,
            List.head?_cons, Option.any_some, nextApplication_name hbracket]
          split
          · rw [advance_bind hrest]
            exact (h.application _ hus).bind (Nat.le_refl d) fun arg vs _ hvs => pure_follows _ hvs
          · exact h.primary _ hrest
    | mark m =>
      cases m with
      | kwWavg =>
        dsimp only [List.head?_cons]
        rw [peek_bind hrest, List.tail_cons]
        cases us with
        | nil => exact h.primary _ hrest
        | cons t us =>
          by_cases hbracket : t = .mark .openBracket
          · subst hbracket
            exact h.call hrest "wavg"
          · rw [if_neg (isMark_openBracket hbracket us), nextApplication_wavg hbracket]
            exact h.primary _ hrest
      | _ => exact h.primary _ hrest

theorem negated : Tracks ts d (Inner.level n).negated (Parser.level n).nextUnary := by
  intro rest hrest
  rw [Inner.negated, Level.nextUnary]
  cases hskip : Parser.skip? .minus rest with
  | some us =>
    rw [ifNext_of_some hrest hskip]
    exact (h.unary us (suffix_of_skip? hrest hskip)).bind (Nat.le_refl d) fun operand vs _ hvs =>
      pure_follows _ hvs
  | none =>
    rw [ifNext_of_none hrest hskip]
    exact h.applied rest hrest

/-- The links of a chain give back what they have taken. -/
theorem linked (c : Grammar.Chain) (left : Expr) {links : Nat} (hlinks : links ≤ d)
    (hrest : rest <:+ ts) :
    Follows ts (d - links) ((Inner.level n).linked c left links (cursor ts rest d))
      ((Parser.level n).nextTail c left rest) := by
  have stop (us : List Token) (hus : us <:+ ts) :
      Follows ts (d - links) ((do
        Parse.unlink links
        pure left) (cursor ts us d)) (.ok (left, us)) := by
    have hunlink : Parse.unlink links (cursor ts us d) = some (.ok (), cursor ts us (d - links)) := by
      simp [Parse.unlink, cursor, minus?, hlinks]
    rw [Parse.bind_of_ok hunlink]
    exact pure_follows left hus
  rw [Inner.linked, current_bind hrest, Level.nextTail]
  cases rest with
  | nil => exact stop [] hrest
  | cons t us =>
    rw [List.head?_cons, Option.bind_some, Level.chain]
    cases hop : Parser.chainOp? c t with
    | none => exact stop (t :: us) hrest
    | some op =>
      dsimp only
      rw [advance_bind hrest]
      exact h.link c op left links hlinks us ((List.suffix_cons t us).trans hrest)

theorem chain (c : Grammar.Chain) {p : Parse Expr} {r : Reader Expr} (hp : Tracks ts d p r) :
    Tracks ts d (do
        let left ← p
        (Inner.level n).linked c left 0)
      (fun us => do
        let (left, us) ← r us
        (Parser.level n).nextTail c left us) := fun rest hrest =>
  (hp rest hrest).bind (Nat.le_refl d) fun left _ _ hus => h.linked c left (Nat.zero_le d) hus

theorem weighted : Tracks ts d (Inner.level n).weighted (Parser.level n).nextWeighted :=
  h.chain .weighted h.negated

theorem product : Tracks ts d (Inner.level n).product (Parser.level n).nextMultiplicative :=
  h.chain .product h.weighted

theorem sum : Tracks ts d (Inner.level n).sum (Parser.level n).nextAdditive :=
  h.chain .sum h.product

theorem comparison : Tracks ts d (Inner.level n).comparison (Parser.level n).nextComparison := by
  intro rest hrest
  refine (h.sum rest hrest).bind (Nat.le_refl d) fun left us _ hus => ?_
  rw [current_bind hus]
  cases us with
  | nil => exact pure_follows left hus
  | cons t vs =>
    rw [List.head?_cons, Option.bind_some]
    dsimp only
    cases hop : Level.comparisonOp? t with
    | none => exact pure_follows left hus
    | some op =>
      dsimp only
      rw [advance_bind hus]
      exact (h.sum vs ((List.suffix_cons t vs).trans hus)).bind (Nat.le_refl d)
        fun right ws _ hws => pure_follows _ hws

theorem operandOf (c : Grammar.Chain) :
    Tracks ts d ((Inner.level n).operandOf c) ((Parser.level n).next.operand c) := by
  cases c with
  | sum => exact h.product
  | product => exact h.weighted
  | weighted => exact h.negated

end Below

/-- On the levels: one level further up, what is entered is what has been followed one level down,
with the depth raised by one. -/
theorem below (ts : List Token) (n d : Nat) (hd : n + d = maxNesting) : Below ts n d := by
  induction n generalizing d with
  | zero =>
    have hmax : d = maxNesting := by omega
    have htooDeep {p : Parse Expr} (rest : List Token) :
        Follows ts d (Parse.nested p (cursor ts rest d)) (.error .tooDeep) := nested_tooDeep hmax
    refine ⟨fun rest _ => htooDeep rest, fun rest _ => htooDeep rest, fun rest _ => htooDeep rest, ?_⟩
    intro c op left links _ rest _
    have hlink : Parse.link links (cursor ts rest d) = some (.error .tooDeep, cursor ts rest d) :=
      if_pos (Nat.le_of_eq hmax.symm)
    rw [Parse.bind_of_error hlink]
    cases c <;> exact .error _ (Nat.sub_le d links)
  | succ n ih =>
    have hlt : d < maxNesting := by omega
    have hinner : Below ts n (d + 1) := ih (d + 1) (by omega)
    refine ⟨fun rest hrest => nested_follows hlt (hinner.comparison rest hrest),
      fun rest hrest => nested_follows hlt (hinner.negated rest hrest),
      fun rest hrest => nested_follows hlt (hinner.applied rest hrest), ?_⟩
    intro c op left links hlinks rest hrest
    have hlink : Parse.link links (cursor ts rest d) =
        some (.ok (links + 1), cursor ts rest (d + 1)) := if_neg (Nat.not_le.mpr hlt)
    rw [Parse.bind_of_ok hlink]
    refine (hinner.operandOf c rest hrest).bind (by omega) fun right us _ hus => ?_
    have hlinks' : links + 1 ≤ d + 1 := by omega
    have hlinked := hinner.linked c (.binary op left right) hlinks' hus
    rw [Nat.add_sub_add_right] at hlinked
    cases c <;> exact hlinked

theorem expression_tracks (ts : List Token) : Tracks ts 0 Parse.expression Parser.expression :=
  (below ts maxNesting 0 rfl).expression

theorem shortens_expression : Shortens Parser.expression :=
  Below.shortens_comparison maxNesting

theorem projection_tracks (ts : List Token) : Tracks ts 0 Parse.projection Parser.projection := by
  intro rest hrest
  have unnamed (us : List Token) (hus : us <:+ ts) :
      Follows ts 0 ((do
        let e ← Parse.expression
        pure (⟨none, e⟩ : Projection)) (cursor ts us 0)) (do
        let (e, us) ← Parser.expression us
        .ok (⟨none, e⟩, us)) :=
    (expression_tracks ts us hus).bind (Nat.le_refl 0) fun e _ _ hvs => pure_follows _ hvs
  rw [Parse.projection, current_bind hrest, peek_bind hrest]
  cases rest with
  | nil => exact unnamed [] hrest
  | cons t us =>
    cases t with
    | literal | function | mark => exact unnamed _ hrest
    | name n =>
      cases us with
      | nil => exact unnamed _ hrest
      | cons u vs =>
        cases u with
        | literal | function | name => exact unnamed _ hrest
        | mark m =>
          cases m with
          | colon =>
            have hcolon : .mark .colon :: vs <:+ ts := (List.suffix_cons _ _).trans hrest
            dsimp only [List.head?_cons, List.tail_cons]
            rw [advance_bind hrest, advance_bind hcolon]
            exact (expression_tracks ts vs ((List.suffix_cons _ vs).trans hcolon)).bind
              (Nat.le_refl 0) fun e _ _ hws => pure_follows _ hws
          | _ => exact unnamed _ hrest

theorem shortens_projection : Shortens Parser.projection := by
  intro ts p rest hts
  obtain ⟨us, rfl, hus⟩ := Parser.projection_sound ts p rest hts
  cases hus with
  | named x hus | unnamed hus =>
    have hpos := hus.length_pos rfl
    simp only [List.length_append, List.length_cons]
    omega

theorem projections_tracks (ts : List Token) : Tracks ts 0 Parse.projections Parser.projections :=
  separated_tracks (projection_tracks ts) shortens_projection .comma

theorem selected_tracks (ts : List Token) : Tracks ts 0 Parse.selected Parser.selected := by
  intro rest hrest
  rw [Parse.selected, current_bind hrest, Parser.selected, isMark_head?, isMark_head?]
  split
  · exact pure_follows [] hrest
  · exact projections_tracks ts rest hrest

theorem clause_tracks {body : Parse (List α)} {r : Reader (List α)} (m : Mark)
    (hbody : Tracks ts d body r) : Tracks ts d (Parse.clause m body) (Parser.clause m r) := by
  intro rest hrest
  rw [Parse.clause, Parser.clause]
  cases hskip : Parser.skip? m rest with
  | some us =>
    rw [ifNext_of_some hrest hskip]
    exact hbody us (suffix_of_skip? hrest hskip)
  | none =>
    rw [ifNext_of_none hrest hskip]
    exact pure_follows [] hrest

def Gives (ran : Option (Except SyntaxError α × Cursor)) (r : Except SyntaxError α) : Prop :=
  ∃ c, ran = some (r, c)

theorem Follows.gives_bind {p : Parse α} {k : α → Parse β} {c : Cursor}
    {r : Except SyntaxError (α × List Token)} {f : α × List Token → Except SyntaxError β}
    (h : Follows ts d (p c) r) (hk : ∀ a rest, rest <:+ ts →
      Gives (k a (cursor ts rest d)) (f (a, rest))) : Gives ((p >>= k) c) (r >>= f) := by
  generalize hran : p c = ran at h
  cases h with
  | ok a hrest =>
    rw [Parse.bind_of_ok hran]
    exact hk a _ hrest
  | @error e c hdepth =>
    rw [Parse.bind_of_error hran]
    exact ⟨c, rfl⟩

theorem expect_gives_bind (h : rest <:+ ts) {m : Mark} {e : Expectation} {k : Unit → Parse α}
    {f : List Token → Except SyntaxError α}
    (hk : ∀ us, us <:+ ts → Gives (k () (cursor ts us d)) (f us)) :
    Gives ((Parse.expect m e >>= k) (cursor ts rest d)) (Parser.expect m e rest >>= f) := by
  obtain ⟨us, hus, -, hread, hstep⟩ | ⟨fault, c, -, hread, hstep⟩ := expect_cases (d := d) h m e
  · rw [Parse.bind_of_ok hstep, hread]
    exact hk us hus
  · rw [Parse.bind_of_error hstep, hread]
    exact ⟨c, rfl⟩

theorem expectEnd_gives (h : rest <:+ ts) (e : Expectation) (a : α) :
    Gives ((do
        Parse.expectEnd e
        pure a) (cursor ts rest d))
      (if rest.isEmpty then .ok a else .error (Parser.unexpected e rest)) := by
  cases rest with
  | nil =>
    have hend : Parse.expectEnd e (cursor ts [] d) = some (.ok (), cursor ts [] d) := by
      have hadvance : Parse.advance (cursor ts [] d) = some (.ok none, cursor ts [] d) := by
        rw [Parse.advance, cursor, getElem?_tokens h]
        rfl
      rw [Parse.expectEnd, current_bind h]
      exact Parse.bind_of_ok hadvance _
    rw [Parse.bind_of_ok hend]
    exact ⟨_, rfl⟩
  | cons t us =>
    have hfails := unexpected_follows (α := Unit) (d := d) h e
    have hend : Parse.expectEnd e (cursor ts (t :: us) d) =
        (Parse.unexpected e : Parse Unit) (cursor ts (t :: us) d) := by
      rw [Parse.expectEnd, current_bind h]
      rfl
    rw [← hend] at hfails
    exact hfails.gives_bind (f := fun _ => .ok a) fun _ _ _ => ⟨_, rfl⟩

theorem expr_gives (ts : List Token) : Gives (Parse.expr (cursor ts ts 0)) (Parser.parseExpr ts) :=
  (expression_tracks ts ts List.suffix_rfl).gives_bind fun e _ hrest =>
    expectEnd_gives hrest .inputEnd e

theorem query_gives (ts : List Token) :
    Gives (Parse.query (cursor ts ts 0)) (Parser.parseQuery ts) := by
  refine expect_gives_bind List.suffix_rfl fun us hus => ?_
  refine (selected_tracks ts us hus).gives_bind fun projections vs hvs => ?_
  refine (clause_tracks .kwBy (projections_tracks ts) vs hvs).gives_bind fun groups ws hws => ?_
  refine expect_gives_bind hws fun us hus => ?_
  refine (expectName_follows hus .tableName).gives_bind fun source vs hvs => ?_
  refine (clause_tracks .kwWhere (separated_tracks (expression_tracks ts) shortens_expression .comma)
    vs hvs).gives_bind fun filters ws hws => ?_
  exact expectEnd_gives hws .queryEnd _

theorem run_of_gives {p : Parse α} {r : Except SyntaxError α} {ts : List Token}
    (h : Gives (p (cursor ts ts 0)) r) : p.run ts = lift r := by
  obtain ⟨c, hc⟩ := h
  have hstart : cursor ts ts 0 = ⟨ts.map some ++ [none], 0, 0⟩ := by simp [cursor]
  rw [Parse.run, ← hstart, hc]
  cases r <;> rfl

def exprOf (s : String) : Except (Halt SyntaxError) Expr := do
  Parse.expr.run (← tokens s)

def queryOf (s : String) : Except (Halt SyntaxError) Query := do
  Parse.query.run (← tokens s)

theorem exprOf_eq (s : String) : exprOf s = lift (Expr.ofText s) := by
  rw [exprOf, Expr.ofText, tokens_eq, lift_bind]
  exact congrArg _ (funext fun ts => run_of_gives (expr_gives ts))

theorem queryOf_eq (s : String) : queryOf s = lift (Query.ofText s) := by
  rw [queryOf, Query.ofText, tokens_eq, lift_bind]
  exact congrArg _ (funext fun ts => run_of_gives (query_gives ts))

end TableConsole.Guarded
