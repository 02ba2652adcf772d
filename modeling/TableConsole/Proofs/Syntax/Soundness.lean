import TableConsole.Proofs.Except
import TableConsole.Proofs.Syntax.PhraseReader

/-! # What the readers accept

Whatever a reader takes from the front of the tokens is derived by the grammar, with as many levels
as the reader has. The number of levels is the induction: the readers of one level are sound if what
they enter one level down is.
-/

namespace TableConsole.Parser

open Grammar

set_option autoImplicit false

def Sound {α : Type} (r : Reader α) (derives : List Token → α → Prop) : Prop :=
  ∀ ts x rest, r ts = .ok (x, rest) → ∃ us, ts = us ++ rest ∧ derives us x

theorem separatedWithin_sound {α : Type} {item : Reader α} {derives : List Token → α → Prop}
    (m : Mark) (h : Sound item derives) (limit : Nat) :
    Sound (separatedWithin item m limit) (Sequence derives m) := by
  induction limit with
  | zero => intro ts xs rest hts; cases hts
  | succ limit ih =>
    intro ts xs rest hts
    rw [separatedWithin] at hts
    obtain ⟨⟨x, after⟩, hx, hmore⟩ := Except.bind_eq_ok_iff.mp hts
    obtain ⟨us, rfl, hus⟩ := h ts x after hx
    dsimp only at hmore
    split at hmore
    · cases hmore
      exact ⟨us, rfl, .one hus⟩
    · rename_i behind hbehind
      obtain rfl := skip?_eq_some_iff.mp hbehind
      obtain ⟨⟨ys, last⟩, hys, hend⟩ := Except.bind_eq_ok_iff.mp hmore
      cases hend
      obtain ⟨vs, rfl, hvs⟩ := ih behind ys last hys
      exact ⟨us ++ .mark m :: vs, by simp, .cons hus hvs⟩

theorem separated_sound {α : Type} {item : Reader α} {derives : List Token → α → Prop}
    (m : Mark) (h : Sound item derives) : Sound (separated item m) (Sequence derives m) :=
  fun ts => separatedWithin_sound m h (ts.length + 1) ts

def ColumnsDerived (n : Nat) (ts : List Token) (columns : List (String × Expr)) : Prop :=
  ∃ ds, Columns ds ts ∧ (∀ d ∈ ds, DerivesExpr n d.value.1 d.value.2) ∧
    columns = ds.map (·.column)

theorem columnsWithin_sound {n : Nat} {expression : Reader Expr} (closing : Mark)
    (h : Sound expression (DerivesExpr n)) (limit : Nat) :
    Sound (columnsWithin expression closing limit) (ColumnsDerived n) := by
  induction limit with
  | zero => intro ts columns rest hts; cases hts
  | succ limit ih =>
    intro ts columns rest hts
    rw [columnsWithin] at hts
    split at hts
    · cases hts
      exact ⟨[], rfl, [], .none, by simp, rfl⟩
    · obtain ⟨⟨x, afterName⟩, hx, hcolumn⟩ := Except.bind_eq_ok_iff.mp hts
      obtain ⟨afterColon, hcolon, hvalue⟩ := Except.bind_eq_ok_iff.mp hcolumn
      obtain ⟨⟨e, after⟩, he, hmore⟩ := Except.bind_eq_ok_iff.mp hvalue
      obtain rfl := expectName_eq_ok_iff.mp hx
      obtain rfl := expect_eq_ok_iff.mp hcolon
      obtain ⟨us, rfl, hus⟩ := h afterColon e after he
      dsimp only at hmore
      split at hmore
      · cases hmore
        exact ⟨.name x :: .mark .colon :: us, rfl, [⟨x, us, e⟩], .last ⟨x, us, e⟩,
          List.forall_mem_singleton.mpr hus, rfl⟩
      · rename_i behind hbehind
        obtain rfl := skip?_eq_some_iff.mp hbehind
        obtain ⟨⟨cs, last⟩, hcs, hend⟩ := Except.bind_eq_ok_iff.mp hmore
        cases hend
        obtain ⟨vs, rfl, ds, hds, hall, rfl⟩ := ih behind cs last hcs
        refine ⟨.name x :: .mark .colon :: (us ++ .mark .semicolon :: vs), by simp,
          ⟨x, us, e⟩ :: ds, .more hds, ?_, rfl⟩
        exact List.forall_mem_cons.mpr ⟨hus, hall⟩

theorem literals_eq (ts : List Token) :
    ts = (literals ts).1.map Token.literal ++ (literals ts).2 := by
  fun_induction literals ts with
  | case1 a ts as rest hts ih =>
    rw [hts] at ih
    simpa using ih
  | case2 ts => rfl

def SoundBelow (n : Nat) : Prop :=
  ∀ ph, Sound (phraseReader n (.nested ph)) (Derives n (.nested ph))

namespace SoundBelow

variable {n : Nat} (h : SoundBelow n)
include h

theorem comparison : Sound (level n).comparison (DerivesExpr n) := by
  rw [level_comparison]
  exact h .expression

theorem application : Sound (level n).application (Derives n (.nested .application)) := by
  rw [level_application]
  exact h .application

theorem operand (c : Chain) : Sound ((level n).operand c) (Derives n (.nested c.operand)) := by
  rw [level_operand]
  exact h c.operand

theorem tail (c : Chain) (left : Expr) :
    Sound ((level n).tail c left) (Derives n (.nested (.links c left))) := by
  rw [level_tail]
  exact h (.links c left)

theorem nextArguments : Sound (level n).nextArguments fun us args =>
    ∃ parts : List (Segment Expr), us = separatedBy .semicolon parts ++ [.mark .closeBracket] ∧
      (∀ p ∈ parts, DerivesExpr n p.1 p.2) ∧ args = parts.map (·.2) := by
  intro ts args rest hts
  unfold Level.nextArguments at hts
  split at hts
  · rename_i behind hbehind
    obtain rfl := skip?_eq_some_iff.mp hbehind
    cases hts
    exact ⟨[.mark .closeBracket], rfl, [], rfl, by simp, rfl⟩
  · obtain ⟨⟨args, after⟩, hargs, hmore⟩ := Except.bind_eq_ok_iff.mp hts
    obtain ⟨last, hlast, hend⟩ := Except.bind_eq_ok_iff.mp hmore
    cases hend
    obtain rfl := expect_eq_ok_iff.mp hlast
    obtain ⟨us, rfl, hus⟩ := separated_sound .semicolon h.comparison ts args _ hargs
    obtain ⟨parts, -, hparts, rfl, rfl⟩ := hus.exists_parts
    exact ⟨separatedBy .semicolon parts ++ [.mark .closeBracket], by simp, parts, rfl, hparts, rfl⟩

theorem nextTable : Sound (level n).nextTable fun us e =>
    Derives n .primary (.mark .openParen :: .mark .openBracket :: us) e := by
  intro ts e rest hts
  unfold Level.nextTable at hts
  obtain ⟨⟨keys, afterKeys⟩, hkeys, hrows⟩ := Except.bind_eq_ok_iff.mp hts
  obtain ⟨behindKeys, hbehind, hhalf⟩ := Except.bind_eq_ok_iff.mp hrows
  obtain ⟨⟨columns, afterColumns⟩, hcolumns, hclose⟩ := Except.bind_eq_ok_iff.mp hhalf
  obtain ⟨last, hlast, hend⟩ := Except.bind_eq_ok_iff.mp hclose
  cases hend
  obtain rfl := expect_eq_ok_iff.mp hbehind
  obtain rfl := expect_eq_ok_iff.mp hlast
  obtain ⟨ks, rfl, kds, hks, hkAll, rfl⟩ := columnsWithin_sound _ h.comparison _ ts _ _ hkeys
  obtain ⟨cs, rfl, cds, hcs, hcAll, rfl⟩ :=
    columnsWithin_sound _ h.comparison _ behindKeys _ _ hcolumns
  exact ⟨ks ++ .mark .closeBracket :: (cs ++ [.mark .closeParen]), by simp,
    .table hks hkAll hcs hcAll⟩

theorem nextParen : Sound (level n).nextParen fun us e =>
    Derives n .primary (.mark .openParen :: us) e := by
  intro ts e rest hts
  unfold Level.nextParen at hts
  split at hts
  · rename_i behind hbehind
    obtain rfl := skip?_eq_some_iff.mp hbehind
    obtain ⟨us, rfl, hus⟩ := h.nextTable behind e rest hts
    exact ⟨.mark .openBracket :: us, rfl, hus⟩
  · split at hts
    · rename_i behind hbehind
      obtain rfl := skip?_eq_some_iff.mp hbehind
      cases hts
      exact ⟨[.mark .closeParen], rfl, .emptyList⟩
    · obtain ⟨⟨items, after⟩, hitems, hmore⟩ := Except.bind_eq_ok_iff.mp hts
      obtain ⟨last, hlast, hend⟩ := Except.bind_eq_ok_iff.mp hmore
      cases hend
      obtain rfl := expect_eq_ok_iff.mp hlast
      obtain ⟨us, rfl, hus⟩ := separated_sound .semicolon h.comparison ts items _ hitems
      obtain ⟨parts, hne, hparts, rfl, rfl⟩ := hus.exists_parts
      refine ⟨separatedBy .semicolon parts ++ [.mark .closeParen], by simp, ?_⟩
      cases parts with
      | nil => exact absurd rfl hne
      | cons p parts =>
        cases parts with
        | nil =>
          simpa [separatedBy, Level.ofItems] using Derives.paren (hparts p List.mem_cons_self)
        | cons q parts => exact .list (by simp) hparts

theorem nextPrimary : Sound (level n).nextPrimary (Derives n .primary) := by
  intro ts e rest hts
  unfold Level.nextPrimary at hts
  split at hts
  · rename_i a us
    have hus := literals_eq us
    simp only [Except.ok.injEq, Prod.mk.injEq] at hts
    obtain ⟨rfl, rfl⟩ := hts
    refine ⟨(a :: (literals us).1).map .literal, by simpa using hus, ?_⟩
    match (literals us).1 with
    | [] => exact .literal a
    | b :: as => exact .vector (show 2 ≤ (a :: b :: as).length by simp)
  · cases hts
    exact ⟨_, rfl, .function _⟩
  · cases hts
    exact ⟨_, rfl, .name _⟩
  · rename_i us
    obtain ⟨vs, rfl, hvs⟩ := h.nextParen us e rest hts
    exact ⟨.mark .openParen :: vs, rfl, hvs⟩
  · cases hts

theorem nextApplication : Sound (level n).nextApplication (Derives n .application) := by
  intro ts e rest hts
  unfold Level.nextApplication at hts
  split at hts
  · rename_i us
    obtain ⟨⟨args, last⟩, hargs, hend⟩ := Except.bind_eq_ok_iff.mp hts
    cases hend
    obtain ⟨vs, rfl, parts, rfl, hparts, rfl⟩ := h.nextArguments us args _ hargs
    exact ⟨_, by simp, .call .wavg hparts⟩
  · rename_i f us
    obtain ⟨⟨args, last⟩, hargs, hend⟩ := Except.bind_eq_ok_iff.mp hts
    cases hend
    obtain ⟨vs, rfl, parts, rfl, hparts, rfl⟩ := h.nextArguments us args _ hargs
    exact ⟨_, by simp, .call (.name f) hparts⟩
  · rename_i f t us _
    split at hts
    · rename_i hstart
      obtain ⟨⟨arg, last⟩, harg, hend⟩ := Except.bind_eq_ok_iff.mp hts
      cases hend
      obtain ⟨vs, hvs, hderives⟩ := h.application (t :: us) arg _ harg
      obtain ⟨v, vs, rfl⟩ := List.exists_cons_of_length_pos (hderives.length_pos rfl)
      obtain ⟨rfl, rfl⟩ := List.cons_eq_cons.mp hvs
      exact ⟨.name f :: t :: vs, rfl, .juxtaposed (startsOperand_iff.mp hstart) hderives⟩
    · cases hts
      exact ⟨[.name f], rfl, .plain (.name f)⟩
  · obtain ⟨us, rfl, hus⟩ := h.nextPrimary _ e rest hts
    exact ⟨us, rfl, .plain hus⟩

theorem nextUnary : Sound (level n).nextUnary (Derives n .unary) := by
  intro ts e rest hts
  unfold Level.nextUnary at hts
  split at hts
  · rename_i behind hbehind
    obtain rfl := skip?_eq_some_iff.mp hbehind
    obtain ⟨⟨operand, last⟩, hoperand, hend⟩ := Except.bind_eq_ok_iff.mp hts
    cases hend
    obtain ⟨us, rfl, hus⟩ := h.operand .weighted behind operand _ hoperand
    exact ⟨.mark .minus :: us, rfl, .negate hus⟩
  · obtain ⟨us, rfl, hus⟩ := h.nextApplication ts e rest hts
    exact ⟨us, rfl, .applied hus⟩

theorem nextTail (c : Chain) (left : Expr) :
    Sound ((level n).nextTail c left) (Derives n (.links c left)) := by
  intro ts e rest hts
  unfold Level.nextTail Level.chain at hts
  split at hts
  · cases hts
    exact ⟨[], rfl, .noLinks⟩
  · split at hts
    · cases hts
      exact ⟨[], rfl, .noLinks⟩
    · rename_i behind _ op hop
      obtain ⟨m, rfl, hm⟩ := chainOp?_eq_some_iff.mp hop
      obtain ⟨⟨right, after⟩, hright, hmore⟩ := Except.bind_eq_ok_iff.mp hts
      obtain ⟨us, rfl, hus⟩ := h.operand c behind right after hright
      obtain ⟨vs, rfl, hvs⟩ := h.tail c (.binary op left right) after e rest hmore
      exact ⟨.mark m :: (us ++ vs), by simp, .link hm hus hvs⟩

theorem chain (c : Chain) (hoperand : Sound (phraseReader n c.operand) (Derives n c.operand)) :
    Sound (phraseReader n (.chain c)) (Derives n (.chain c)) := by
  intro ts e rest hts
  rw [phraseReader_chain] at hts
  obtain ⟨⟨left, after⟩, hleft, hmore⟩ := Except.bind_eq_ok_iff.mp hts
  obtain ⟨us, rfl, hus⟩ := hoperand ts left after hleft
  obtain ⟨vs, rfl, hvs⟩ := h.nextTail c left after e rest hmore
  exact ⟨us ++ vs, by simp, .chain hus hvs⟩

theorem weighted : Sound (phraseReader n (.chain .weighted)) (Derives n (.chain .weighted)) :=
  h.chain .weighted h.nextUnary

theorem product : Sound (phraseReader n (.chain .product)) (Derives n (.chain .product)) :=
  h.chain .product h.weighted

theorem sum : Sound (phraseReader n (.chain .sum)) (Derives n (.chain .sum)) :=
  h.chain .sum h.product

theorem nextComparison : Sound (level n).nextComparison (Derives n .expression) := by
  intro ts e rest hts
  unfold Level.nextComparison at hts
  obtain ⟨⟨left, after⟩, hleft, hmore⟩ := Except.bind_eq_ok_iff.mp hts
  obtain ⟨us, rfl, hus⟩ := h.sum ts left after hleft
  dsimp only at hmore
  split at hmore
  · cases hmore
    exact ⟨us, rfl, .alone hus⟩
  · split at hmore
    · cases hmore
      exact ⟨us, rfl, .alone hus⟩
    · rename_i behind _ op hop
      obtain ⟨m, rfl, hm⟩ := comparisonOp?_eq_some_iff.mp hop
      obtain ⟨⟨right, last⟩, hright, hend⟩ := Except.bind_eq_ok_iff.mp hmore
      cases hend
      obtain ⟨vs, rfl, hvs⟩ := h.sum behind right _ hright
      exact ⟨us ++ .mark m :: vs, by simp, .comparison hm hus hvs⟩

theorem phrase (ph : Phrase) : Sound (phraseReader n ph) (Derives n ph) := by
  cases ph with
  | expression => exact h.nextComparison
  | chain c =>
    cases c with
    | sum => exact h.sum
    | product => exact h.product
    | weighted => exact h.weighted
  | links c left => exact h.nextTail c left
  | unary => exact h.nextUnary
  | application => exact h.nextApplication
  | primary => exact h.nextPrimary
  | nested ph => exact h ph

end SoundBelow

theorem soundBelow (n : Nat) : SoundBelow n := by
  -- On the levels: within one, the phrases are sound by what is below it.
  induction n with
  | zero =>
    intro ph ts e rest hts
    cases hts
  | succ n ih =>
    intro ph ts e rest hts
    obtain ⟨us, rfl, hus⟩ := ih.phrase ph ts e rest hts
    exact ⟨us, rfl, .nested hus⟩

theorem expression_sound : Sound expression (DerivesExpr maxNesting) :=
  (soundBelow maxNesting).comparison

theorem derives_of_parseExpr {ts : List Token} {e : Expr} (h : parseExpr ts = .ok e) :
    DerivesExpr maxNesting ts e := by
  unfold parseExpr at h
  obtain ⟨⟨x, rest⟩, hx, hend⟩ := Except.bind_eq_ok_iff.mp h
  obtain ⟨us, rfl, hus⟩ := expression_sound ts x rest hx
  dsimp only at hend
  split at hend
  · rename_i hrest
    cases hend
    simpa [List.isEmpty_iff.mp hrest] using hus
  · cases hend

theorem projection_sound : Sound projection (DerivesProjection maxNesting) := by
  intro ts p rest hts
  unfold projection at hts
  split at hts
  · rename_i n us
    obtain ⟨⟨e, last⟩, he, hend⟩ := Except.bind_eq_ok_iff.mp hts
    cases hend
    obtain ⟨vs, rfl, hvs⟩ := expression_sound us e _ he
    exact ⟨.name n :: .mark .colon :: vs, rfl, .named n hvs⟩
  · obtain ⟨⟨e, last⟩, he, hend⟩ := Except.bind_eq_ok_iff.mp hts
    cases hend
    obtain ⟨vs, rfl, hvs⟩ := expression_sound _ e _ he
    exact ⟨vs, rfl, .unnamed hvs⟩

theorem projections_sound : Sound projections (Sequence (DerivesProjection maxNesting) .comma) :=
  separated_sound .comma projection_sound

theorem selected_sound :
    Sound selected (Optional (Sequence (DerivesProjection maxNesting) .comma)) := by
  intro ts ps rest hts
  unfold selected at hts
  split at hts
  · cases hts
    exact ⟨[], rfl, .absent⟩
  · obtain ⟨us, rfl, hus⟩ := projections_sound ts ps rest hts
    exact ⟨us, rfl, .present hus⟩

theorem clause_sound {α : Type} {body : Reader (List α)} {derives : List Token → List α → Prop}
    (m : Mark) (h : Sound body derives) : Sound (clause m body) (Optional (Clause m derives)) := by
  intro ts xs rest hts
  unfold clause at hts
  split at hts
  · rename_i behind hbehind
    obtain rfl := skip?_eq_some_iff.mp hbehind
    obtain ⟨us, rfl, hus⟩ := h behind xs rest hts
    exact ⟨.mark m :: us, rfl, .present (.of hus)⟩
  · cases hts
    exact ⟨[], rfl, .absent⟩

theorem derives_of_parseQuery {ts : List Token} {q : Query} (h : parseQuery ts = .ok q) :
    DerivesQuery maxNesting ts q := by
  unfold parseQuery at h
  obtain ⟨behindSelect, hselect, h₁⟩ := Except.bind_eq_ok_iff.mp h
  obtain ⟨⟨projections, afterSelected⟩, hselected, h₂⟩ := Except.bind_eq_ok_iff.mp h₁
  obtain ⟨⟨groups, afterGroups⟩, hgroups, h₃⟩ := Except.bind_eq_ok_iff.mp h₂
  obtain ⟨behindFrom, hfrom, h₄⟩ := Except.bind_eq_ok_iff.mp h₃
  obtain ⟨⟨source, behindSource⟩, hsource, h₅⟩ := Except.bind_eq_ok_iff.mp h₄
  obtain ⟨⟨filters, rest⟩, hfilters, hend⟩ := Except.bind_eq_ok_iff.mp h₅
  obtain rfl := expect_eq_ok_iff.mp hselect
  obtain rfl := expect_eq_ok_iff.mp hfrom
  obtain rfl := expectName_eq_ok_iff.mp hsource
  obtain ⟨ps, rfl, hps⟩ := selected_sound _ _ _ hselected
  obtain ⟨gs, rfl, hgs⟩ := clause_sound .kwBy projections_sound _ _ _ hgroups
  obtain ⟨fs, rfl, hfs⟩ :=
    clause_sound .kwWhere (separated_sound .comma expression_sound) _ _ _ hfilters
  dsimp only at hend
  split at hend
  · rename_i hrest
    cases hend
    have hquery : DerivesQuery maxNesting
        (.mark .kwSelect :: (ps ++ gs ++ .mark .kwFrom :: .name source :: fs))
        ⟨projections, groups, source, filters⟩ := .select hps hgs hfs
    simpa [List.isEmpty_iff.mp hrest] using hquery
  · cases hend

end TableConsole.Parser
