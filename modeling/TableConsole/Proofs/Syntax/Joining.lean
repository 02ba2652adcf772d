import TableConsole.Proofs.Syntax.Lexeme
import TableConsole.Proofs.Text.Lines

/-! # Texts next to each other

No reader looks across a blank, a colon, a semicolon, a closing parenthesis or the mark of a symbol.
So the tokens of two texts are the tokens of the one and then those of the other if the second text
starts with one of these, and blanks at the end of a text add nothing to its tokens.
-/

namespace TableConsole

set_option autoImplicit false

open Text

namespace Text

/-- Characters other than blanks that end every lexeme that does not end by itself. -/
def breaks : List Char :=
  [':', ';', ')', Lexer.symbolMark]

def isBreak (c : Char) : Bool :=
  isBlank c || breaks.contains c

theorem isBreak_of_isBlank {c : Char} (h : isBlank c = true) : isBreak c = true :=
  Bool.or_eq_true_iff.mpr (.inl h)

theorem not_of_isBreak {p : Char → Bool} (hp : (blanks ++ breaks).all (!p ·) = true) {c : Char}
    (h : isBreak c = true) : p c = false := by
  have hmem : c ∈ blanks ++ breaks := by
    obtain hblank | hbreak := Bool.or_eq_true_iff.mp h
    · exact List.mem_append_left _ (mem_blanks hblank)
    · exact List.mem_append_right _ (List.contains_iff_mem.mp hbreak)
  simpa using List.all_eq_true.mp hp c hmem

theorem not_isWordChar_of_isBreak {c : Char} (h : isBreak c = true) : isWordChar c = false :=
  not_of_isBreak (by decide +kernel) h

/-- Nothing, or a break and more text. -/
def Apart (tail : List Char) : Prop :=
  ∀ c ∈ tail.head?, isBreak c = true

theorem apart_cons {c : Char} (h : isBreak c = true) (cs : List Char) : Apart (c :: cs) :=
  fun _ hc => Option.mem_some_iff.mp hc ▸ h

theorem apart_of_blanks {tail : List Char} (h : ∀ c ∈ tail, isBlank c = true) : Apart tail :=
  fun c hc => isBreak_of_isBlank (h c (List.mem_of_mem_head? hc))

end Text

namespace Lexer

theorem startsWordChar_eq (cs : List Char) : startsWordChar cs = cs.head?.any isWordChar := by
  cases cs <;> rfl

theorem startsDigit_eq (cs : List Char) : startsDigit cs = cs.head?.any Char.isDigit := by
  cases cs <;> rfl

section Apart

variable {tail : List Char} (h : Apart tail)

include h

theorem span_append_apart {p : Char → Bool} (hp : ∀ {c}, isBreak c = true → p c = false)
    (cs : List Char) :
    (cs ++ tail).takeWhile p = cs.takeWhile p ∧
      (cs ++ tail).dropWhile p = cs.dropWhile p ++ tail := by
  induction cs with
  | nil =>
    cases tail with
    | nil => exact ⟨rfl, rfl⟩
    | cons b tail => simp [hp (h b rfl)]
  | cons c cs ih => cases hc : p c <;> simp [hc, ih]

theorem any_head?_append {p : Char → Bool} (hp : ∀ {c}, isBreak c = true → p c = false)
    (cs : List Char) : (cs ++ tail).head?.any p = cs.head?.any p := by
  cases cs with
  | nil =>
    cases tail with
    | nil => rfl
    | cons b tail => simp [hp (h b rfl)]
  | cons c cs => rfl

theorem startsWordChar_append (cs : List Char) :
    startsWordChar (cs ++ tail) = startsWordChar cs := by
  rw [startsWordChar_eq, startsWordChar_eq, any_head?_append h not_isWordChar_of_isBreak]

theorem startsDigit_append (cs : List Char) : startsDigit (cs ++ tail) = startsDigit cs := by
  rw [startsDigit_eq, startsDigit_eq, any_head?_append h (not_of_isBreak (by decide))]

theorem numberRun_append (cs : List Char) :
    numberRun (cs ++ tail) = ((numberRun cs).1, (numberRun cs).2 ++ tail) := by
  induction cs with
  | nil =>
    cases tail with
    | nil => rfl
    | cons b tail =>
      have hdigit : b.isDigit = false := not_of_isBreak (by decide) (h b rfl)
      have hpoint : (b == '.') = false := not_of_isBreak (p := (· == '.')) (by decide) (h b rfl)
      simp [numberRun, hdigit, hpoint]
  | cons c cs ih =>
    rw [List.cons_append, numberRun, numberRun, startsDigit_append h, ih]
    split <;> rfl

theorem binaryDigit?_append (run rest : List Char) :
    binaryDigit? run (rest ++ tail) =
      (binaryDigit? run rest).map fun (b, rest) => (b, rest ++ tail) := by
  cases run with
  | nil => rfl
  | cons d run =>
    cases run with
    | cons d' run => rfl
    | nil =>
      cases rest with
      | nil =>
        cases tail with
        | nil => rfl
        | cons b tail =>
          have hb : b ≠ 'b' := by
            rintro rfl
            cases h _ rfl
          simp [binaryDigit?, hb]
      | cons c rest =>
        by_cases hc : c = 'b'
        · subst hc
          simp only [List.cons_append, binaryDigit?, startsWordChar_append h]
          grind
        · simp [binaryDigit?, hc]

end Apart

theorem textBody_append {cs body rest : List Char} (h : textBody cs = .ok (body, rest))
    (tail : List Char) : textBody (cs ++ tail) = .ok (body, rest ++ tail) := by
  fun_induction textBody cs generalizing body with
  | case1 | case3 | case4 => cases h
  | case2 cs =>
    cases h
    exact textBody_quote _
  | case5 e cs x he hread ih =>
    obtain ⟨⟨body', _⟩, hread, heq⟩ := Except.map_eq_ok_iff.mp h
    cases heq
    rw [List.cons_append, List.cons_append, textBody_escape he, ih hread]
    rfl
  | case6 c cs hquote hslash ih =>
    obtain ⟨⟨body', _⟩, hread, heq⟩ := Except.map_eq_ok_iff.mp h
    cases heq
    rw [List.cons_append, textBody_char hquote hslash, ih hread]
    rfl

theorem functionBody?_append {q : Quoting} {depth : Nat} {cs body rest : List Char}
    (h : functionBody? q depth cs = some (body, rest)) (tail : List Char) :
    functionBody? q depth (cs ++ tail) = some (body, rest ++ tail) := by
  induction cs generalizing q depth body with
  | nil => cases h
  | cons c cs ih =>
    rw [List.cons_append, functionBody?_cons]
    rw [functionBody?_cons] at h
    split at h
    · rename_i hclose
      cases h
      rw [if_pos hclose]
    · rename_i hclose
      obtain ⟨⟨body', _⟩, hread, heq⟩ := Option.map_eq_some_iff.mp h
      cases heq
      rw [if_neg hclose, ih hread]
      rfl

section Blanks

variable {tail : List Char} (h : ∀ b ∈ tail, isBlank b = true)

include h

theorem textBody_error_append {cs : List Char} {f : TextFault} (hread : textBody cs = .error f) :
    ∃ f', textBody (cs ++ tail) = .error f' := by
  fun_induction textBody cs generalizing f with
  | case1 =>
    clear hread
    induction tail with
    | nil => exact ⟨_, rfl⟩
    | cons b tail ih =>
      obtain ⟨hb, htail⟩ := List.forall_mem_cons.mp h
      have hquote : b ≠ '"' := by rintro rfl; cases hb
      have hslash : b ≠ '\\' := by rintro rfl; cases hb
      obtain ⟨f', hf'⟩ := ih htail
      rw [List.nil_append] at hf' ⊢
      rw [textBody_char hquote hslash, hf']
      exact ⟨f', rfl⟩
  | case2 => cases hread
  | case3 =>
    cases tail with
    | nil => exact ⟨_, rfl⟩
    | cons b tail =>
      have hescape : unescape? b = none := by
        have hnone : blanks.all (!(fun b => (unescape? b).isSome) ·) = true := by decide
        simpa using not_of_isBlank hnone (h b List.mem_cons_self)
      simp [textBody, hescape]
  | case4 e cs hescape => simp [textBody, hescape]
  | case5 e cs x he _ ih =>
    cases hcs : textBody cs with
    | ok read => simp [hcs, Except.map] at hread
    | error f =>
      obtain ⟨f', hf'⟩ := ih hcs
      rw [List.cons_append, List.cons_append, textBody_escape he, hf']
      exact ⟨f', rfl⟩
  | case6 c cs hquote hslash ih =>
    cases hcs : textBody cs with
    | ok read => simp [hcs, Except.map] at hread
    | error f =>
      obtain ⟨f', hf'⟩ := ih hcs
      rw [List.cons_append, textBody_char hquote hslash, hf']
      exact ⟨f', rfl⟩

theorem functionBody?_none_append {q : Quoting} {depth : Nat} {cs : List Char}
    (hread : functionBody? q depth cs = none) : functionBody? q depth (cs ++ tail) = none := by
  induction cs generalizing q depth with
  | nil =>
    clear hread
    induction tail generalizing q with
    | nil => rfl
    | cons b tail ih =>
      obtain ⟨hb, htail⟩ := List.forall_mem_cons.mp h
      have hstep : braceStep q b = 0 := by
        have hbraces : blanks.all (!(fun b => b == '{' || b == '}') ·) = true := by decide
        have hne := not_of_isBlank hbraces hb
        simp only [Bool.or_eq_false_iff, beq_eq_false_iff_ne] at hne
        simp [braceStep, hne]
      rw [List.nil_append, functionBody?_cons, hstep, if_neg (by omega)]
      exact Option.map_eq_none_iff.mpr (by simpa using ih htail)
  | cons c cs ih =>
    rw [List.cons_append, functionBody?_cons]
    rw [functionBody?_cons] at hread
    split at hread
    · cases hread
    · rename_i hclose
      rw [if_neg hclose, ih (Option.map_eq_none_iff.mp hread)]
      rfl

end Blanks

/-- What a reader gives in front of more text, given what it gives without it. -/
structure Continues (tail : List Char) (alone joined : Lexeme) : Prop where
  ok : ∀ t rest, alone = .ok (t, rest) → joined = .ok (t, rest ++ tail)
  error : (∀ b ∈ tail, isBlank b = true) → ∀ f, alone = .error f → ∃ f', joined = .error f'

theorem Continues.of_ok {tail rest : List Char} {t : Token} :
    Continues tail (.ok (t, rest)) (.ok (t, rest ++ tail)) where
  ok _ _ h := by
    cases h
    rfl
  error _ _ h := nomatch h

theorem Continues.of_error {tail : List Char} {f f' : Fault} :
    Continues tail (.error f) (.error f') where
  ok _ _ h := nomatch h
  error _ _ _ := ⟨f', rfl⟩

theorem readText_continues (cs tail : List Char) :
    Continues tail (readText cs) (readText (cs ++ tail)) := by
  unfold readText
  cases hread : textBody cs with
  | ok read =>
    obtain ⟨body, rest⟩ := read
    rw [textBody_append hread]
    exact .of_ok
  | error f =>
    constructor
    · intro t rest h
      cases f <;> cases h
    · intro hblank f' _
      obtain ⟨f'', hf''⟩ := textBody_error_append hblank hread
      rw [hf'']
      cases f'' <;> exact ⟨_, rfl⟩

theorem readFunction_continues (cs tail : List Char) :
    Continues tail (readFunction cs) (readFunction (cs ++ tail)) := by
  unfold readFunction
  cases hread : functionBody? .code 0 cs with
  | some read =>
    obtain ⟨body, rest⟩ := read
    rw [functionBody?_append hread]
    exact .of_ok
  | none =>
    constructor
    · intro t rest h
      cases h
    · intro hblank f' _
      rw [functionBody?_none_append hblank hread]
      exact ⟨_, rfl⟩

section Apart

variable {tail : List Char} (h : Apart tail)

include h

theorem readNumber_continues (cs : List Char) :
    Continues tail (readNumber cs) (readNumber (cs ++ tail)) := by
  unfold readNumber
  rw [numberRun_append h]
  obtain ⟨run, rest⟩ := numberRun cs
  simp only [binaryDigit?_append h]
  cases binaryDigit? run rest with
  | some read => exact .of_ok
  | none =>
    simp only [Option.map_none]
    split
    · exact .of_ok
    split
    · cases Date.ofChars? run with
      | some d => exact .of_ok
      | none => exact .of_error
    · exact .of_error

theorem readLess_append (cs : List Char) :
    readLess (cs ++ tail) = ((readLess cs).1, (readLess cs).2 ++ tail) := by
  cases cs with
  | nil =>
    cases tail with
    | nil => rfl
    | cons b tail =>
      have hgreater : b ≠ '>' := by rintro rfl; cases h _ rfl
      have hequal : b ≠ '=' := by rintro rfl; cases h _ rfl
      simp [readLess, hgreater, hequal]
  | cons c cs =>
    rw [List.cons_append]
    unfold readLess
    split <;> simp_all

theorem readGreater_append (cs : List Char) :
    readGreater (cs ++ tail) = ((readGreater cs).1, (readGreater cs).2 ++ tail) := by
  cases cs with
  | nil =>
    cases tail with
    | nil => rfl
    | cons b tail =>
      have hequal : b ≠ '=' := by rintro rfl; cases h _ rfl
      simp [readGreater, hequal]
  | cons c cs =>
    rw [List.cons_append]
    unfold readGreater
    split <;> simp_all

theorem readSymbol_append (cs : List Char) :
    readSymbol (cs ++ tail) = ((readSymbol cs).1, (readSymbol cs).2 ++ tail) := by
  have hsymbol {c : Char} (hc : isBreak c = true) : isSymbolChar c = false := by
    have hpoint : (c == '.') = false := not_of_isBreak (p := (· == '.')) (by decide) hc
    rw [isSymbolChar, not_isWordChar_of_isBreak hc, hpoint, Bool.or_false]
  obtain ⟨htake, hdrop⟩ := span_append_apart h hsymbol cs
  rw [readSymbol, htake, hdrop, readSymbol]

theorem readWord_append (cs : List Char) :
    readWord (cs ++ tail) = ((readWord cs).1, (readWord cs).2 ++ tail) := by
  obtain ⟨htake, hdrop⟩ := span_append_apart h not_isWordChar_of_isBreak cs
  rw [readWord, htake, hdrop, readWord]

theorem read_continues (c : Char) (cs : List Char) :
    Continues tail (read c cs) (read c (cs ++ tail)) := by
  unfold read
  rw [startsDigit_append h]
  split
  · exact readLess_append h cs ▸ .of_ok
  split
  · exact readGreater_append h cs ▸ .of_ok
  split
  · exact readText_continues cs tail
  split
  · exact readSymbol_append h cs ▸ .of_ok
  split
  · exact readFunction_continues cs tail
  cases punctuation? c with
  | some m => exact .of_ok
  | none =>
    dsimp only
    split
    · exact readNumber_continues h (c :: cs)
    split
    · rw [← List.cons_append, readWord_append h]
      exact .of_ok
    · exact .of_error

end Apart

theorem length_lt_of_read {c : Char} {cs ds rest : List Char} {t : Token}
    (hcs : dropBlank ds = c :: cs) (hread : read c cs = .ok (t, rest)) : rest.length < ds.length := by
  obtain ⟨word, rfl, -⟩ := read_word hread
  have hle : (dropBlank ds).length ≤ ds.length := (List.dropWhile_suffix _).length_le
  rw [hcs, List.length_cons, List.length_append] at hle
  omega

/-- Any limit that is no less than the length will do. -/
theorem readAll_limit {cs : List Char} {limit limit' : Nat} (h : cs.length ≤ limit)
    (h' : cs.length ≤ limit') : readAll limit cs = readAll limit' cs := by
  induction limit generalizing cs limit' with
  | zero =>
    obtain rfl := List.length_eq_zero_iff.mp (Nat.le_zero.mp h)
    cases limit' <;> rfl
  | succ limit ih =>
    cases limit' with
    | zero =>
      obtain rfl := List.length_eq_zero_iff.mp (Nat.le_zero.mp h')
      rfl
    | succ limit' =>
      rw [readAll, readAll]
      cases hcs : dropBlank cs with
      | nil => rfl
      | cons c rest =>
        cases hread : read c rest with
        | error f => simp [hread]
        | ok lexeme =>
          have hlt := length_lt_of_read hcs hread
          have hrest : readAll limit lexeme.2 = readAll limit' lexeme.2 := ih (by omega) (by omega)
          simp only [hread, Except.ok_bind, hrest]

theorem readAll_dropBlank (limit : Nat) (cs : List Char) :
    readAll limit (dropBlank cs) = readAll limit cs := by
  cases limit with
  | zero => rfl
  | succ limit => rw [readAll, readAll, dropBlank, dropBlank, List.dropWhile_idempotent]

theorem dropBlank_append_of_nil {cs : List Char} (h : dropBlank cs = []) (tail : List Char) :
    dropBlank (cs ++ tail) = dropBlank tail := by
  rw [dropBlank, List.dropWhile_append, ← dropBlank, h]
  rfl

theorem dropBlank_append_of_cons {c : Char} {cs ds : List Char} (h : dropBlank ds = c :: cs)
    (tail : List Char) : dropBlank (ds ++ tail) = c :: (cs ++ tail) := by
  rw [dropBlank, List.dropWhile_append, ← dropBlank, h]
  rfl

theorem readAll_append_of_blank {cs : List Char} (h : dropBlank cs = []) (limit : Nat)
    (tail : List Char) : readAll limit (cs ++ tail) = readAll limit tail := by
  rw [← readAll_dropBlank limit (cs ++ tail), dropBlank_append_of_nil h, readAll_dropBlank]

/-- The tokens of a text, and then those from the break on. -/
theorem readAll_append {cs tail : List Char} {ts : List Token} {n limit : Nat} (htail : Apart tail)
    (hn : cs.length ≤ n) (hlimit : (cs ++ tail).length ≤ limit) (h : readAll n cs = .ok ts) :
    readAll limit (cs ++ tail) = (readAll limit tail).map (ts ++ ·) := by
  have hnil (r : Except Fault (List Token)) : r = r.map (([] : List Token) ++ ·) := by
    cases r <;> rfl
  -- On the lexemes of the first text.
  induction n generalizing cs ts limit with
  | zero =>
    obtain rfl := List.length_eq_zero_iff.mp (Nat.le_zero.mp hn)
    cases h
    exact hnil _
  | succ n ih =>
    rw [readAll] at h
    split at h
    · rename_i hcs
      cases h
      rw [readAll_append_of_blank hcs]
      exact hnil _
    · rename_i c cs' hcs
      obtain ⟨⟨t, rest⟩, hread, h⟩ := Except.bind_eq_ok_iff.mp h
      obtain ⟨ts', hts', h⟩ := Except.bind_eq_ok_iff.mp h
      cases h
      have hlt := length_lt_of_read hcs hread
      rw [List.length_append] at hlimit
      obtain ⟨limit, rfl⟩ := Nat.exists_eq_add_one_of_ne_zero (show limit ≠ 0 by omega)
      have hrest : readAll limit (rest ++ tail) = (readAll limit tail).map (ts' ++ ·) :=
        ih (by omega) (by rw [List.length_append]; omega) hts'
      have hsame : readAll (limit + 1) tail = readAll limit tail :=
        readAll_limit (by omega) (by omega)
      rw [hsame, readAll, dropBlank_append_of_cons hcs]
      simp only [(read_continues htail c cs').ok t rest hread, Except.ok_bind, hrest]
      cases readAll limit tail <;> rfl

/-- What cannot be read cannot be read with blanks behind it either. -/
theorem readAll_error_append {cs tail : List Char} {f : Fault} {n limit : Nat}
    (htail : ∀ b ∈ tail, isBlank b = true) (hn : cs.length ≤ n)
    (hlimit : (cs ++ tail).length ≤ limit) (h : readAll n cs = .error f) :
    ∃ f', readAll limit (cs ++ tail) = .error f' := by
  induction n generalizing cs limit f with
  | zero => cases h
  | succ n ih =>
    rw [readAll] at h
    split at h
    · cases h
    · rename_i c cs' hcs
      have hcontinues := read_continues (apart_of_blanks htail) c cs'
      have hlength : (dropBlank cs).length ≤ cs.length := (List.dropWhile_suffix _).length_le
      rw [List.length_append] at hlimit
      rw [hcs, List.length_cons] at hlength
      obtain ⟨limit, rfl⟩ := Nat.exists_eq_add_one_of_ne_zero (show limit ≠ 0 by omega)
      rw [readAll, dropBlank_append_of_cons hcs]
      cases hread : read c cs' with
      | error f =>
        obtain ⟨f', hf'⟩ := hcontinues.error htail f hread
        simp only [hf']
        exact ⟨f', rfl⟩
      | ok lexeme =>
        obtain ⟨t, rest⟩ := lexeme
        have hlt := length_lt_of_read hcs hread
        rw [hread, Except.ok_bind] at h
        simp only [hcontinues.ok t rest hread, Except.ok_bind]
        cases hts : readAll n rest with
        | ok ts =>
          simp [hts] at h
        | error f =>
          obtain ⟨f', hf'⟩ := @ih rest f limit (by omega) (by rw [List.length_append]; omega) hts
          rw [hf']
          exact ⟨f', rfl⟩

def Lexes (cs : List Char) (ts : List Token) : Prop :=
  readAll cs.length cs = .ok ts

theorem Lexes.nil : Lexes [] [] := rfl

theorem Lexes.readAll {cs : List Char} {ts : List Token} (h : Lexes cs ts) {limit : Nat}
    (hlimit : cs.length ≤ limit) : readAll limit cs = .ok ts :=
  (readAll_limit hlimit le_rfl).trans h

theorem Lexes.append {cs ds : List Char} {ts us : List Token} (h : Lexes cs ts)
    (hds : Lexes ds us) (hapart : Apart ds) : Lexes (cs ++ ds) (ts ++ us) := by
  have hrest : Lexer.readAll (cs ++ ds).length ds = .ok us :=
    hds.readAll (by rw [List.length_append]; omega)
  rw [Lexes, readAll_append hapart le_rfl le_rfl h, hrest]
  rfl

theorem Lexes.blank {b : Char} (hb : isBlank b = true) {cs : List Char} {ts : List Token}
    (h : Lexes cs ts) : Lexes (b :: cs) ts := by
  rw [Lexes, ← readAll_dropBlank, dropBlank, List.dropWhile_cons_of_pos hb, ← dropBlank,
    readAll_dropBlank]
  exact h.readAll (Nat.le_succ _)

/-- A lexeme in front of a text, which the reader of the lexeme leaves alone. -/
theorem Lexes.cons {c : Char} {cs rest : List Char} {t : Token} {ts : List Token}
    (hc : isBlank c = false) (hread : read c cs = .ok (t, rest)) (h : Lexes rest ts) :
    Lexes (c :: cs) (t :: ts) := by
  obtain ⟨word, rfl, -⟩ := read_word hread
  rw [Lexes, List.length_cons, Lexer.readAll, dropBlank_eq_self hc]
  simp only [hread, Except.ok_bind, h.readAll (List.length_append ▸ Nat.le_add_left _ _)]

section Sequence

variable {α : Type} {xs : List α} {text : α → List Char}

/-- Texts with a separator between them, where no reader looks from one text across the
separator. -/
theorem Lexes.intercalate {sep : List Char} {ss : List Token} {tokens : α → List Token}
    (hsep : ∀ {cs ts}, Lexes cs ts → Lexes (sep ++ cs) (ss ++ ts))
    (hapart : ∀ x ∈ xs, ∀ rest, Apart (sep ++ (text x ++ rest)))
    (h : ∀ x ∈ xs, Lexes (text x) (tokens x)) :
    Lexes (sep.intercalate (xs.map text)) (ss.intercalate (xs.map tokens)) := by
  induction xs with
  | nil => exact .nil
  | cons x xs ih =>
    obtain ⟨hx, hxs⟩ := List.forall_mem_cons.mp h
    obtain ⟨-, hapartRest⟩ := List.forall_mem_cons.mp hapart
    cases xs with
    | nil => simpa using hx
    | cons y ys =>
      have hrest := hsep (ih hapartRest hxs)
      -- The rest starts like its first part, whether more parts follow or not.
      have hnext : Apart (sep ++ sep.intercalate ((y :: ys).map text)) := by
        have hy := hapart y (List.mem_cons_of_mem x List.mem_cons_self)
        cases ys with
        | nil => simpa using hy []
        | cons z zs => simpa using hy _
      simpa using hx.append hrest hnext

theorem intercalate_singletons {β : Type} (f : α → β) :
    [].intercalate (xs.map fun x => [f x]) = xs.map f := by
  induction xs with
  | nil => rfl
  | cons x xs ih =>
    cases xs with
    | nil => rfl
    | cons y ys =>
      rw [List.map_cons] at ih
      rw [List.map_cons, List.map_cons, List.intercalate_cons_cons, ih]
      rfl

theorem lexes_spaced {token : α → Token} (h : ∀ x ∈ xs, Lexes (text x) [token x]) :
    Lexes ([' '].intercalate (xs.map text)) (xs.map token) := by
  have hread : Lexes ([' '].intercalate (xs.map text))
      ([].intercalate (xs.map fun x => [token x])) :=
    .intercalate (Lexes.blank rfl) (fun _ _ _ => apart_cons rfl _) h
  rwa [intercalate_singletons] at hread

end Sequence

end Lexer

open Lexer in
theorem Token.ofText_of_lexes {s : String} {ts : List Token} (h : Lexes s.toList ts) :
    Token.ofText s = .ok ts := by
  rw [Token.ofText, Token.ofChars, Except.mapError_eq_ok_iff]
  exact h

open Lexer in
theorem Token.ofText_trim {s : String} {ts : List Token} (h : Token.ofText s = .ok ts) :
    Token.ofText (String.ofList (trim s.toList)) = .ok ts := by
  obtain ⟨front, back, hs, hfront, hback⟩ := exists_trim s.toList
  have hdropFront : dropBlank front = [] := List.dropWhile_eq_nil_iff.mpr hfront
  have hdropBack : dropBlank back = [] := List.dropWhile_eq_nil_iff.mpr hback
  have hlength : (trim s.toList ++ back).length ≤ s.toList.length := by
    conv_rhs => rw [hs]
    simp only [List.length_append]
    omega
  rw [Token.ofText, Token.ofChars, Except.mapError_eq_ok_iff] at h ⊢
  rw [String.toList_ofList]
  have hskip (limit : Nat) : readAll limit s.toList = readAll limit (trim s.toList ++ back) := by
    conv_lhs => rw [hs, List.append_assoc]
    exact readAll_append_of_blank hdropFront limit _
  rw [hskip] at h
  have hnone : readAll s.toList.length back = .ok [] := by
    have h := readAll_append_of_blank hdropBack s.toList.length []
    rwa [List.append_nil, readAll_nil] at h
  cases hread : readAll (trim s.toList).length (trim s.toList) with
  | ok ts' =>
    have hjoined := readAll_append (apart_of_blanks hback) le_rfl hlength hread
    rw [h, hnone] at hjoined
    cases hjoined
    simp
  | error f =>
    obtain ⟨f', hf'⟩ := readAll_error_append hback le_rfl hlength hread
    rw [hf'] at h
    cases h

end TableConsole
