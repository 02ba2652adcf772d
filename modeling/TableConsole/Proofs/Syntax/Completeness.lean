import TableConsole.Proofs.Except
import TableConsole.Proofs.Syntax.PhraseReader

/-! # What the readers take

A reader takes a derived phrase in full if it has as many levels as the derivation, and if the
tokens behind the phrase cannot go on with it. The derivation is the induction.
-/

namespace TableConsole.Parser

open Grammar

set_option autoImplicit false

def chainsWithin : Chain → List Chain
  | .sum => [.weighted, .product, .sum]
  | .product => [.weighted, .product]
  | .weighted => [.weighted]

def phraseChains : Phrase → List Chain
  | .expression => chainsWithin .sum
  | .chain c | .links c _ => chainsWithin c
  | .unary | .application | .primary => []
  | .nested ph => phraseChains ph

def compares : Phrase → Bool
  | .expression => true
  | .nested ph => compares ph
  | _ => false

structure Closes (ph : Phrase) (t : Token) : Prop where
  operand : t.startsOperand = false
  bracket : t ≠ .mark .openBracket
  chain : ∀ c ∈ phraseChains ph, chainOp? c t = none
  comparison : compares ph = true → Level.comparisonOp? t = none

def Ends (ph : Phrase) (rest : List Token) : Prop :=
  ∀ t ∈ rest.head?, Closes ph t

theorem Ends.nil (ph : Phrase) : Ends ph [] := by
  intro t ht
  cases ht

theorem Ends.cons {ph : Phrase} {t : Token} (h : Closes ph t) (rest : List Token) :
    Ends ph (t :: rest) := by
  intro u hu
  obtain rfl := Option.some.inj hu
  exact h

theorem Ends.head {ph : Phrase} {t : Token} {rest : List Token} (h : Ends ph (t :: rest)) :
    Closes ph t :=
  h t rfl

theorem Closes.mono {ph ph' : Phrase} {t : Token} (h : Closes ph t)
    (hchains : phraseChains ph' ⊆ phraseChains ph)
    (hcompares : compares ph' = true → compares ph = true) : Closes ph' t where
  operand := h.operand
  bracket := h.bracket
  chain c hc := h.chain c (hchains hc)
  comparison hph := h.comparison (hcompares hph)

theorem Ends.mono {ph ph' : Phrase} {rest : List Token} (h : Ends ph rest)
    (hchains : phraseChains ph' ⊆ phraseChains ph)
    (hcompares : compares ph' = true → compares ph = true) : Ends ph' rest :=
  fun t ht => (h t ht).mono hchains hcompares

theorem Ends.nested {ph : Phrase} {rest : List Token} (h : Ends ph rest) : Ends (.nested ph) rest :=
  h.mono (List.Subset.refl _) id

theorem Ends.of_nested {ph : Phrase} {rest : List Token} (h : Ends (.nested ph) rest) :
    Ends ph rest :=
  h.mono (List.Subset.refl _) id

theorem Ends.sum {rest : List Token} (h : Ends .expression rest) : Ends (.chain .sum) rest :=
  h.mono (List.Subset.refl _) (fun hsum => by cases hsum)

theorem Ends.links {c : Chain} {rest : List Token} (h : Ends (.chain c) rest) (left : Expr) :
    Ends (.links c left) rest :=
  h.mono (List.Subset.refl _) (fun hlinks => by cases hlinks)

theorem Ends.of_links {c : Chain} {left : Expr} {rest : List Token}
    (h : Ends (.links c left) rest) : Ends (.chain c) rest :=
  h.mono (List.Subset.refl _) (fun hchain => by cases hchain)

theorem Ends.operand {c : Chain} {rest : List Token} (h : Ends (.chain c) rest) :
    Ends c.operand rest := by
  cases c <;> exact h.mono (by decide) (fun hc => by cases hc)

theorem Ends.application {ph : Phrase} {rest : List Token} (h : Ends ph rest) :
    Ends .application rest :=
  h.mono (List.nil_subset _) (fun happ => by cases happ)

theorem closes_chainOperator {c : Chain} {m : Mark} {op : BinOp} (h : ChainOperator c m op) :
    Closes c.operand (.mark m) := by
  cases h <;> exact ⟨rfl, by simp, by decide, fun hc => by cases hc⟩

theorem closes_comparisonOperator {m : Mark} {op : BinOp} (h : ComparisonOperator m op) :
    Closes (.chain .sum) (.mark m) := by
  cases h <;> exact ⟨rfl, by simp, by decide, fun hsum => by cases hsum⟩

theorem Ends.before_links {c : Chain} {us rest : List Token} (h : Ends (.chain c) rest)
    (hus : us = [] ∨ ∃ m op vs, ChainOperator c m op ∧ us = .mark m :: vs) :
    Ends c.operand (us ++ rest) := by
  obtain rfl | ⟨m, op, vs, hm, rfl⟩ := hus
  · exact h.operand
  · exact .cons (closes_chainOperator hm) _

inductive Closing : Mark → Prop
  | closeParen : Closing .closeParen
  | closeBracket : Closing .closeBracket
  | semicolon : Closing .semicolon
  | comma : Closing .comma
  | kwBy : Closing .kwBy
  | kwFrom : Closing .kwFrom

theorem Closing.closes {m : Mark} (h : Closing m) : Closes .expression (.mark m) := by
  cases h <;> exact ⟨rfl, by simp, by decide, fun _ => rfl⟩

inductive Follows : List Token → Prop
  | nil : Follows []
  | mark {m : Mark} (h : Closing m) (rest : List Token) : Follows (.mark m :: rest)

theorem Follows.ends {rest : List Token} (h : Follows rest) : Ends .expression rest := by
  cases h with
  | nil => exact .nil _
  | mark h rest => exact .cons h.closes rest

theorem skip?_of_start {m : Mark} {ts : List Token} (h : PhraseStart ts)
    (hm : Closing m ∨ m = .openBracket) : skip? m ts = none := by
  have hne : m ≠ .minus ∧ m ≠ .kwWavg ∧ m ≠ .openParen := by
    obtain h | rfl := hm
    · cases h <;> decide
    · decide
  cases h with
  | operand h =>
    cases h with
    | literal | function | name => rfl
    | paren => exact if_neg (Ne.symm hne.2.2)
  | minus => exact if_neg (Ne.symm hne.1)
  | wavg => exact if_neg (Ne.symm hne.2.1)

/-- The result is there, unless something is too deep. -/
def Gives {α : Type} (deep : Prop) (x : Except SyntaxError α) (a : α) : Prop :=
  x = .ok a ∨ (deep ∧ x = .error .tooDeep)

theorem Gives.bind {α β : Type} {deep : Prop} {x : Except SyntaxError α} {a : α} {b : β}
    {f : α → Except SyntaxError β} (hx : Gives deep x a) (hf : Gives deep (f a) b) :
    Gives deep (x >>= f) b := by
  obtain rfl | ⟨hdeep, rfl⟩ := hx
  · exact hf
  · exact .inr ⟨hdeep, rfl⟩

@[simp] theorem gives_false_iff {α : Type} {x : Except SyntaxError α} {a : α} :
    Gives False x a ↔ x = .ok a := by
  simp [Gives]

def Takes {α : Type} (deep : Prop) (r : Reader α) (p : Segment α) : Prop :=
  ∀ rest, Follows rest → Gives deep (r (p.1 ++ rest)) (p.2, rest)

theorem Takes.eq {α : Type} {r : Reader α} {p : Segment α} (h : Takes False r p) {rest : List Token}
    (hrest : Follows rest) : r (p.1 ++ rest) = .ok (p.2, rest) :=
  gives_false_iff.mp (h rest hrest)

theorem separatedBy_cons_cons {α : Type} (m : Mark) (p q : Segment α) (parts : List (Segment α)) :
    separatedBy m (p :: q :: parts) = p.1 ++ .mark m :: separatedBy m (q :: parts) := by
  simp [separatedBy]

theorem length_le_separatedBy {α : Type} (m : Mark) (parts : List (Segment α)) :
    parts.length ≤ (separatedBy m parts).length + 1 := by
  induction parts with
  | nil => simp
  | cons p parts ih =>
    cases parts with
    | nil => simp
    | cons q parts =>
      rw [separatedBy_cons_cons]
      simp only [List.length_cons, List.length_append] at ih ⊢
      omega

theorem separatedWithin_gives {α : Type} {deep : Prop} {item : Reader α} {m : Mark}
    (hm : Closing m) {parts : List (Segment α)} (hne : parts ≠ [])
    (hparts : ∀ p ∈ parts, Takes deep item p) {limit : Nat} (hlimit : parts.length ≤ limit)
    {rest : List Token} (hrest : Follows rest) (hend : skip? m rest = none) :
    Gives deep (separatedWithin item m limit (separatedBy m parts ++ rest))
      (parts.map (·.2), rest) := by
  induction parts generalizing limit with
  | nil => exact absurd rfl hne
  | cons p parts ih =>
    obtain ⟨limit, rfl⟩ : ∃ k, limit = k + 1 := ⟨limit - 1, by simp at hlimit; omega⟩
    obtain ⟨hp, hparts⟩ := List.forall_mem_cons.mp hparts
    cases parts with
    | nil =>
      have hitem : Gives deep (item (separatedBy m [p] ++ rest)) (p.2, rest) := by
        simpa [separatedBy] using hp rest hrest
      refine hitem.bind ?_
      simp only [hend]
      exact .inl rfl
    | cons q parts =>
      have hlimit' : (q :: parts).length ≤ limit := by simpa using hlimit
      have hmore := ih (by simp) hparts hlimit'
      rw [separatedBy_cons_cons, List.append_assoc, List.cons_append]
      refine (hp _ (.mark hm _)).bind ?_
      simp only [skip?_self]
      exact hmore.bind (.inl rfl)

theorem separated_gives {α : Type} {deep : Prop} {item : Reader α} {m : Mark} (hm : Closing m)
    {parts : List (Segment α)} (hne : parts ≠ []) (hparts : ∀ p ∈ parts, Takes deep item p)
    {rest : List Token} (hrest : Follows rest) (hend : skip? m rest = none) :
    Gives deep (separated item m (separatedBy m parts ++ rest)) (parts.map (·.2), rest) := by
  have hlimit := length_le_separatedBy m parts
  exact separatedWithin_gives hm hne hparts (by simp; omega) hrest hend

theorem separatedBy_start {α : Type} {m : Mark} {parts : List (Segment α)} (hne : parts ≠ [])
    (h : ∀ p ∈ parts, PhraseStart p.1) (rest : List Token) :
    PhraseStart (separatedBy m parts ++ rest) := by
  obtain ⟨p, parts, rfl⟩ := List.exists_cons_of_ne_nil hne
  have hp := h p List.mem_cons_self
  cases parts with
  | nil => simpa [separatedBy] using hp.append rest
  | cons q parts =>
    rw [separatedBy_cons_cons, List.append_assoc]
    exact hp.append _

theorem length_le_columns {ds : List ColumnPart} {ts : List Token} (h : Columns ds ts) :
    ds.length ≤ ts.length := by
  induction h with
  | none => simp
  | last d => simp [ColumnPart.tokens]
  | more _ ih =>
    simp only [ColumnPart.tokens, List.length_cons, List.length_append]
    omega

theorem columnsWithin_takes {expression : Reader Expr} {closing : Mark} (hclosing : Closing closing)
    (hsemicolon : closing ≠ .semicolon) {ds : List ColumnPart} {ts : List Token}
    (h : Columns ds ts) (hds : ∀ d ∈ ds, Takes False expression d.value) {limit : Nat}
    (hlimit : ds.length < limit) (rest : List Token) :
    columnsWithin expression closing limit (ts ++ .mark closing :: rest) =
      .ok (ds.map (·.column), .mark closing :: rest) := by
  have hend : skip? .semicolon (.mark closing :: rest) = none := if_neg hsemicolon
  have hname (n : String) (us : List Token) : skip? closing (.name n :: us) = none := rfl
  induction h generalizing limit with
  | none =>
    obtain ⟨limit, rfl⟩ : ∃ k, limit = k + 1 := ⟨limit - 1, by omega⟩
    simp [columnsWithin]
  | last d =>
    obtain ⟨limit, rfl⟩ : ∃ k, limit = k + 1 := ⟨limit - 1, by omega⟩
    have hvalue := (hds d (by simp)).eq (.mark hclosing rest)
    simp [columnsWithin, ColumnPart.tokens, ColumnPart.column, hname, expectName, hvalue, hend]
  | more hmore ih =>
    rename_i d ds us
    obtain ⟨limit, rfl⟩ : ∃ k, limit = k + 1 := ⟨limit - 1, by omega⟩
    obtain ⟨hd, hds⟩ := List.forall_mem_cons.mp hds
    have hvalue := hd.eq (.mark .semicolon (us ++ .mark closing :: rest))
    have hlimit' : ds.length < limit := by simpa using hlimit
    have hrest := ih hds hlimit'
    simp [columnsWithin, ColumnPart.tokens, ColumnPart.column, hname, expectName, hvalue, hrest]

theorem columns_takes {expression : Reader Expr} {closing : Mark} (hclosing : Closing closing)
    (hsemicolon : closing ≠ .semicolon) {ds : List ColumnPart} {ts : List Token}
    (h : Columns ds ts) (hds : ∀ d ∈ ds, Takes False expression d.value) (rest : List Token) :
    columns expression closing (ts ++ .mark closing :: rest) =
      .ok (ds.map (·.column), .mark closing :: rest) := by
  have hlimit := length_le_columns h
  exact columnsWithin_takes hclosing hsemicolon h hds (by simp; omega) rest

theorem literals_append {rest : List Token} (h : Ends .application rest) (as : List Atom) :
    literals (as.map .literal ++ rest) = (as, rest) := by
  induction as with
  | nil =>
    cases rest with
    | nil => rfl
    | cons t rest =>
      cases t with
      | literal a => cases h.head.operand
      | function | name | mark => rfl
  | cons a as ih => simp [literals, ih]

namespace Level

variable {inner : Level}

theorem nextArguments_takes {args : List (Segment Expr)} (h : ∀ p ∈ args, PhraseStart p.1)
    (hargs : ∀ p ∈ args, Takes False inner.comparison p) (rest : List Token) :
    inner.nextArguments (separatedBy .semicolon args ++ .mark .closeBracket :: rest) =
      .ok (args.map (·.2), rest) := by
  by_cases hne : args = []
  · subst hne
    rfl
  · have hstart := separatedBy_start (m := .semicolon) hne h (.mark .closeBracket :: rest)
    have hskip := skip?_of_start hstart (.inl .closeBracket)
    have hitems := gives_false_iff.mp
      (separated_gives .semicolon hne hargs (.mark .closeBracket rest) rfl)
    simp [nextArguments, hskip, hitems]

theorem nextTable_takes {keys columns : List ColumnPart} {ks cs : List Token}
    (hks : Columns keys ks) (hkeys : ∀ d ∈ keys, Takes False inner.comparison d.value)
    (hcs : Columns columns cs) (hcolumns : ∀ d ∈ columns, Takes False inner.comparison d.value)
    (rest : List Token) :
    inner.nextTable (ks ++ .mark .closeBracket :: (cs ++ .mark .closeParen :: rest)) =
      .ok (.table (keys.map (·.column)) (columns.map (·.column)), rest) := by
  have hfirst := columns_takes .closeBracket (by simp) hks hkeys (cs ++ .mark .closeParen :: rest)
  have hsecond := columns_takes .closeParen (by simp) hcs hcolumns rest
  simp [nextTable, hfirst, hsecond]

theorem nextParen_takes {items : List (Segment Expr)} (hne : items ≠ [])
    (h : ∀ p ∈ items, PhraseStart p.1) (hitems : ∀ p ∈ items, Takes False inner.comparison p)
    (rest : List Token) :
    inner.nextParen (separatedBy .semicolon items ++ .mark .closeParen :: rest) =
      .ok (ofItems (items.map (·.2)), rest) := by
  have hstart := separatedBy_start (m := .semicolon) hne h (.mark .closeParen :: rest)
  have hbracket := skip?_of_start hstart (.inr rfl)
  have hparen := skip?_of_start hstart (.inl .closeParen)
  have hall := gives_false_iff.mp
    (separated_gives .semicolon hne hitems (.mark .closeParen rest) rfl)
  simp [nextParen, hbracket, hparen, hall]

theorem nextPrimary_literals {rest : List Token} (h : Ends .application rest) (a : Atom)
    (as : List Atom) :
    inner.nextPrimary ((a :: as).map .literal ++ rest) =
      .ok (ofItems ((a :: as).map .literal), rest) := by
  simp [nextPrimary, literals_append h]

theorem nextApplication_name {rest : List Token} (h : Ends .application rest) (n : String) :
    inner.nextApplication (.name n :: rest) = .ok (.name n, rest) := by
  cases rest with
  | nil => rfl
  | cons t rest =>
    cases t with
    | literal | function | name => cases h.head.operand
    | mark m =>
      have hparen := h.head.operand
      have hbracket := h.head.bracket
      unfold nextApplication
      split <;> simp_all

theorem nextApplication_of_not_name {ts : List Token} (h : OperandStart ts)
    (hname : ∀ n us, ts ≠ .name n :: us) : inner.nextApplication ts = inner.nextPrimary ts := by
  cases h with
  | literal | function | paren => rfl
  | name n us => exact absurd rfl (hname n us)

theorem nextApplication_juxtaposed {ts : List Token} (h : OperandStart ts) (f : String) :
    inner.nextApplication (.name f :: ts) = (do
      let (arg, us) ← inner.application ts
      .ok (.apply f [arg], us)) := by
  cases h <;> rfl

theorem nextApplication_call {head : Token} {f : String} (h : Callee head f) (ts : List Token) :
    inner.nextApplication (head :: .mark .openBracket :: ts) = (do
      let (args, us) ← inner.nextArguments ts
      .ok (.apply f args, us)) := by
  cases h <;> rfl

theorem nextUnary_of_application {n : Nat} {ts : List Token} {e : Expr}
    (h : Derives n .application ts e) (rest : List Token) :
    inner.nextUnary (ts ++ rest) = inner.nextApplication (ts ++ rest) := by
  have hskip : skip? .minus (ts ++ rest) = none := by
    obtain hstart | ⟨us, rfl⟩ := h.application_start
    · cases hstart <;> rfl
    · rfl
  simp [nextUnary, hskip]

theorem nextTail_of_ends {c : Chain} {rest : List Token} (h : Ends (.chain c) rest) (e : Expr) :
    inner.nextTail c e rest = .ok (e, rest) := by
  cases rest with
  | nil => rfl
  | cons t rest =>
    have hop : chainOp? c t = none := h.head.chain c (by cases c <;> decide)
    simp [nextTail, Level.chain, hop]

theorem nextTail_link {c : Chain} {m : Mark} {op : BinOp} (h : ChainOperator c m op) (left : Expr)
    (ts : List Token) :
    inner.nextTail c left (.mark m :: ts) = (do
      let (right, us) ← inner.operand c ts
      inner.tail c (.binary op left right) us) := by
  have hop : chainOp? c (.mark m) = some op := chainOp?_eq_some_iff.mpr ⟨m, rfl, h⟩
  simp [nextTail, Level.chain, hop]

theorem nextComparison_of_ends {ts rest : List Token} {e : Expr} (hends : Ends .expression rest)
    (h : inner.nextAdditive ts = .ok (e, rest)) : inner.nextComparison ts = .ok (e, rest) := by
  cases rest with
  | nil => simp [nextComparison, h]
  | cons t rest =>
    have hop : comparisonOp? t = none := hends.head.comparison rfl
    simp [nextComparison, h, hop]

theorem nextComparison_binary {ts us rest : List Token} {m : Mark} {op : BinOp} {l r : Expr}
    (hm : ComparisonOperator m op) (hl : inner.nextAdditive ts = .ok (l, .mark m :: us))
    (hr : inner.nextAdditive us = .ok (r, rest)) :
    inner.nextComparison ts = .ok (.binary op l r, rest) := by
  have hop : comparisonOp? (.mark m) = some op := comparisonOp?_eq_some_iff.mpr ⟨m, rfl, hm⟩
  simp [nextComparison, hl, hop, hr]

end Level

def Reads (n : Nat) (ph : Phrase) (ts : List Token) (e : Expr) : Prop :=
  ∀ rest, Ends ph rest → phraseReader n ph (ts ++ rest) = .ok (e, rest)

theorem Reads.takes {n : Nat} {ts : List Token} {e : Expr}
    (h : Reads n (.nested .expression) ts e) : Takes False (level n).comparison (ts, e) := by
  intro rest hrest
  rw [level_comparison]
  exact .inl (h rest hrest.ends.nested)

theorem reads_of_derives {n : Nat} {ph : Phrase} {ts : List Token} {e : Expr}
    (h : Derives n ph ts e) : Reads n ph ts e := by
  induction h with
  | nested _ ih =>
    intro rest hends
    exact ih rest hends.of_nested
  | alone _ ih =>
    intro rest hends
    exact Level.nextComparison_of_ends hends (ih rest hends.sum)
  | comparison hm _ _ ihl ihr =>
    intro rest hends
    rw [List.append_assoc, List.cons_append]
    exact Level.nextComparison_binary hm (ihl _ (.cons (closes_comparisonOperator hm) _))
      (ihr rest hends.sum)
  | chain _ hlinks ihl ihlinks =>
    intro rest hends
    rw [List.append_assoc, phraseReader_chain, ihl _ (hends.before_links hlinks.links_start)]
    exact ihlinks rest (hends.links _)
  | noLinks =>
    intro rest hends
    exact Level.nextTail_of_ends hends.of_links _
  | @link n c ts us m op l r e hm _ hlinks ihr ihlinks =>
    intro rest hends
    have hstart := hlinks.nested_links_start
    have hright : (level n).operand c (ts ++ (us ++ rest)) = .ok (r, us ++ rest) := by
      rw [level_operand]
      exact ihr _ (hends.of_links.before_links hstart).nested
    have htail : (level n).tail c (.binary op l r) (us ++ rest) = .ok (e, rest) := by
      rw [level_tail]
      exact ihlinks rest (hends.of_links.links _).nested
    rw [List.cons_append, List.append_assoc]
    refine (Level.nextTail_link hm l _).trans ?_
    rw [hright]
    exact htail
  | @negate n ts e _ ih =>
    intro rest hends
    have hoperand : (level n).unary (ts ++ rest) = .ok (e, rest) :=
      (congrFun (level_operand n .weighted) _).trans (ih rest hends.nested)
    simp [phraseReader, Level.nextUnary, hoperand]
  | @applied n ts e h ih =>
    intro rest hends
    exact (Level.nextUnary_of_application h rest).trans (ih rest hends.application)
  | call hhead hargs ih =>
    intro rest _
    have hstart := fun p hp => (hargs p hp).start rfl
    have htakes := fun p hp => Reads.takes (ih p hp)
    simp [phraseReader, Level.nextApplication_call hhead, Level.nextArguments_takes hstart htakes]
  | @juxtaposed n f ts e hstart _ ih =>
    intro rest hends
    have harg : (level n).application (ts ++ rest) = .ok (e, rest) := by
      rw [level_application]
      exact ih rest hends.nested
    simp [phraseReader, Level.nextApplication_juxtaposed (hstart.append rest), harg]
  | @plain n ts e h ih =>
    intro rest hends
    -- A primary that is a name is read by the rule of calls, not by `nextPrimary`.
    by_cases hname : ∃ x us, ts = .name x :: us
    · obtain ⟨x, us, rfl⟩ := hname
      obtain ⟨rfl, rfl⟩ := h.primary_name rfl
      exact Level.nextApplication_name hends x
    · have hfirst : ∀ x us, ts ++ rest ≠ .name x :: us := by
        intro x us hts
        obtain ⟨t, ts, rfl⟩ := List.exists_cons_of_length_pos (h.length_pos rfl)
        obtain ⟨rfl, -⟩ := List.cons_eq_cons.mp hts
        exact hname ⟨x, ts, rfl⟩
      exact (Level.nextApplication_of_not_name (h.primary_start.append rest) hfirst).trans
        (ih rest (hends.mono (List.Subset.refl _) id))
  | literal a =>
    intro rest hends
    exact Level.nextPrimary_literals hends.application a []
  | @vector n as hlength =>
    intro rest hends
    obtain ⟨a, as, rfl⟩ := List.exists_cons_of_length_pos (Nat.lt_of_lt_of_le Nat.two_pos hlength)
    obtain ⟨b, as, rfl⟩ := List.exists_cons_of_length_pos (Nat.lt_of_succ_lt_succ hlength)
    exact Level.nextPrimary_literals hends.application a (b :: as)
  | function | name | emptyList =>
    intro rest _
    rfl
  | @paren n ts e h ih =>
    intro rest _
    have hstart := List.forall_mem_singleton (p := fun p : Segment Expr => PhraseStart p.1)
      (a := (ts, e)) |>.mpr (h.start rfl)
    have hparen := Level.nextParen_takes (List.cons_ne_nil (ts, e) []) hstart
      (List.forall_mem_singleton.mpr (Reads.takes ih)) rest
    simpa [phraseReader, Level.nextPrimary, Level.ofItems, separatedBy] using hparen
  | @list n items hlength hitems ih =>
    intro rest _
    have hne : items ≠ [] := by
      rintro rfl
      simp at hlength
    have hparen := Level.nextParen_takes hne (fun p hp => (hitems p hp).start rfl)
      (fun p hp => Reads.takes (ih p hp)) rest
    obtain ⟨p, items, rfl⟩ := List.exists_cons_of_ne_nil hne
    obtain ⟨q, items, rfl⟩ := List.exists_cons_of_length_pos (Nat.lt_of_succ_lt_succ hlength)
    simpa [phraseReader, Level.nextPrimary, Level.ofItems] using hparen
  | table hks _ hcs _ ihkeys ihcolumns =>
    intro rest _
    have hkeys := fun d hd => Reads.takes (ihkeys d hd)
    have hcolumns := fun d hd => Reads.takes (ihcolumns d hd)
    simp [phraseReader, Level.nextPrimary, Level.nextParen,
      Level.nextTable_takes hks hkeys hcs hcolumns]

end TableConsole.Parser
