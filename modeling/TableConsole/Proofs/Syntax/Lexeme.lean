import Mathlib.Algebra.Ring.Int.Defs
import Mathlib.Data.List.TakeWhile
import TableConsole.Proofs.Except
import TableConsole.Proofs.Text.Quoting
import TableConsole.Syntax.Lexer

/-! # The text of a lexeme

A reader takes a word off the front of the text. Behind that word the scanners stand in code again,
whatever it is: a string literal ends with its quote, and a function literal with a brace that
stands in code. So the depth of a text is the sum of the depths of its tokens.
-/

namespace TableConsole

set_option autoImplicit false

open Text

def Mark.depth : Mark → Int
  | .openParen | .openBracket => 1
  | .closeParen | .closeBracket => -1
  | _ => 0

def Token.depth : Token → Int
  | .mark m => m.depth
  | .function source => bracketDepth source.toList
  | _ => 0

namespace Lexer

theorem textBody_quote (cs : List Char) : textBody ('"' :: cs) = .ok ([], cs) := by
  rw [textBody.eq_def]
  simp

theorem textBody_escape {e x : Char} (h : unescape? e = some x) (cs : List Char) :
    textBody ('\\' :: e :: cs) = (textBody cs).map fun (body, rest) => (x :: body, rest) := by
  rw [textBody.eq_def]
  simp [h]

theorem textBody_char {c : Char} (hquote : c ≠ '"') (hslash : c ≠ '\\') (cs : List Char) :
    textBody (c :: cs) = (textBody cs).map fun (body, rest) => (c :: body, rest) := by
  rw [textBody.eq_def]
  simp [hquote, hslash]

theorem exists_textBody {cs body rest : List Char} (h : textBody cs = .ok (body, rest)) :
    ∃ word, cs = word ++ rest ∧ textBody word = .ok (body, []) := by
  fun_induction textBody cs generalizing body with
  | case1 | case3 | case4 => cases h
  | case2 cs =>
    cases h
    exact ⟨['"'], rfl, textBody_quote []⟩
  | case5 e cs x he _ ih =>
    obtain ⟨⟨body', _⟩, hread, heq⟩ := Except.map_eq_ok_iff.mp h
    cases heq
    obtain ⟨word, rfl, hword⟩ := ih hread
    exact ⟨'\\' :: e :: word, rfl, by rw [textBody_escape he, hword]; rfl⟩
  | case6 c cs hquote hslash ih =>
    obtain ⟨⟨body', _⟩, hread, heq⟩ := Except.map_eq_ok_iff.mp h
    cases heq
    obtain ⟨word, rfl, hword⟩ := ih hread
    exact ⟨c :: word, rfl, by rw [textBody_char hquote hslash, hword]; rfl⟩

/-- Nothing in a string literal is code. -/
structure Quoted (cs : List Char) : Prop where
  ends : Quoting.quoted.after cs = .code
  depth : depthFrom .quoted cs = 0
  colon : ∀ depth, splitColonFrom .quoted depth cs = none

theorem Quoted.of_textBody {cs body : List Char} (h : textBody cs = .ok (body, [])) :
    Quoted cs := by
  fun_induction textBody cs generalizing body with
  | case1 | case3 | case4 => cases h
  | case2 cs =>
    cases h
    exact ⟨rfl, rfl, fun _ => rfl⟩
  | case5 e cs x _ _ ih =>
    obtain ⟨⟨body', _⟩, hread, heq⟩ := Except.map_eq_ok_iff.mp h
    cases heq
    have hcs := ih hread
    have hslash : Quoting.quoted.next '\\' = .escaped := rfl
    have hescaped : Quoting.escaped.next e = .quoted := rfl
    exact ⟨hcs.ends, by simpa [depthFrom, Quoting.bracketStep, hslash, hescaped] using hcs.depth,
      fun depth => by
        simpa [splitColonFrom, Quoting.bracketStep, hslash, hescaped] using hcs.colon depth⟩
  | case6 c cs hquote hslash ih =>
    obtain ⟨⟨body', _⟩, hread, heq⟩ := Except.map_eq_ok_iff.mp h
    cases heq
    have hcs := ih hread
    have hnext : Quoting.quoted.next c = .quoted := by simp [Quoting.next, hquote, hslash]
    exact ⟨by simpa [hnext] using hcs.ends,
      by simpa [depthFrom, Quoting.bracketStep, hnext] using hcs.depth,
      fun depth => by simpa [splitColonFrom, Quoting.bracketStep, hnext] using hcs.colon depth⟩

def braceStep (q : Quoting) (c : Char) : Int :=
  if q = .code then if c = '{' then 1 else if c = '}' then -1 else 0 else 0

/-- The literal ends where more braces close than are open inside it. -/
theorem functionBody?_cons (q : Quoting) (depth : Nat) (c : Char) (cs : List Char) :
    functionBody? q depth (c :: cs) =
      if depth + braceStep q c < 0 then some ([c], cs)
      else (functionBody? (q.next c) (depth + braceStep q c).toNat cs).map
        fun (body, rest) => (c :: body, rest) := by
  by_cases hclose : q = .code ∧ c = '}'
  · obtain ⟨rfl, rfl⟩ := hclose
    cases depth with
    | zero => rfl
    | succ depth =>
      have hstep : ((depth + 1 : Nat) : Int) + braceStep .code '}' = depth := by
        simp [braceStep]
      rw [hstep, if_neg (by omega)]
      rfl
  · by_cases hopen : q = .code ∧ c = '{'
    · obtain ⟨rfl, rfl⟩ := hopen
      rw [if_neg (by simp [braceStep]; omega)]
      rfl
    · have hstep : braceStep q c = 0 := by
        simp only [braceStep]
        grind
      rw [hstep, if_neg (by omega)]
      simp [functionBody?, hclose, hopen]

/-- A literal ends in code, and it is read without the text behind it. -/
theorem functionBody?_eq {q : Quoting} {depth : Nat} {cs body rest : List Char}
    (h : functionBody? q depth cs = some (body, rest)) :
    cs = body ++ rest ∧ q.after body = .code ∧ functionBody? q depth body = some (body, []) := by
  induction cs generalizing q depth body with
  | nil => cases h
  | cons c cs ih =>
    rw [functionBody?_cons] at h
    split at h
    · rename_i hclose
      cases h
      have hcode : q = .code ∧ c = '}' := by
        simp only [braceStep] at hclose
        grind
      obtain ⟨rfl, rfl⟩ := hcode
      exact ⟨rfl, rfl, by rw [functionBody?_cons, if_pos hclose]⟩
    · rename_i hclose
      obtain ⟨⟨body', _⟩, hread, heq⟩ := Option.map_eq_some_iff.mp h
      cases heq
      obtain ⟨rfl, hafter, hbody⟩ := ih hread
      exact ⟨rfl, hafter, by rw [functionBody?_cons, if_neg hclose, hbody]; rfl⟩

def isNumeric (c : Char) : Bool :=
  c.isDigit || c == '.' || c == 'b'

/-- The words of a token, with no more about numbers and dates than the characters they have. -/
inductive Word : List Char → Token → Prop
  | less : Word ['<'] (.mark .less)
  | notEqual : Word ['<', '>'] (.mark .notEqual)
  | lessEqual : Word ['<', '='] (.mark .lessEqual)
  | greater : Word ['>'] (.mark .greater)
  | greaterEqual : Word ['>', '='] (.mark .greaterEqual)
  | punctuation {c : Char} {m : Mark} : punctuation? c = some m → Word [c] (.mark m)
  | text {cs body : List Char} : textBody cs = .ok (body, []) →
      Word ('"' :: cs) (.literal (.text (String.ofList body)))
  | symbol {cs : List Char} : (∀ c ∈ cs, isSymbolChar c = true) →
      Word (symbolMark :: cs) (.literal (.symbol (String.ofList cs)))
  | function {body : List Char} : functionBody? .code 0 body = some (body, []) →
      Word ('{' :: body) (.function (String.ofList ('{' :: body)))
  | numeric {word : List Char} (a : Atom) : (∀ c ∈ word, isNumeric c = true) →
      Word word (.literal a)
  | identifier {word : List Char} : isIdentifier word = true → Word word (wordToken word)

theorem isNumeric_of_startsNumber {c : Char} {cs : List Char}
    (h : (c.isDigit || (c == '.' && startsDigit cs)) = true) : isNumeric c = true := by
  simp only [isNumeric, Bool.or_eq_true, Bool.and_eq_true] at h ⊢
  tauto

theorem numberRun_eq (cs : List Char) :
    (numberRun cs).1 ++ (numberRun cs).2 = cs ∧ ∀ c ∈ (numberRun cs).1, isNumeric c = true := by
  induction cs with
  | nil => exact ⟨rfl, List.forall_mem_nil _⟩
  | cons c cs ih =>
    rw [numberRun]
    split
    · rename_i hc
      exact ⟨congrArg (c :: ·) ih.1, List.forall_mem_cons.mpr ⟨isNumeric_of_startsNumber hc, ih.2⟩⟩
    · exact ⟨rfl, List.forall_mem_nil _⟩

theorem binaryDigit?_eq {run cs rest : List Char} {b : Bool}
    (h : binaryDigit? run cs = some (b, rest)) : cs = 'b' :: rest := by
  unfold binaryDigit? at h
  split at h
  · split at h
    · cases h
    · split at h
      · cases h
        rfl
      · split at h <;> cases h
        rfl
  · cases h

section Readers

variable {c : Char} {cs rest : List Char} {t : Token}

theorem readText_word (h : readText cs = .ok (t, rest)) :
    ∃ word, cs = word ++ rest ∧ Word ('"' :: word) t := by
  unfold readText at h
  split at h
  · rename_i body left hbody
    cases h
    obtain ⟨word, hcs, hword⟩ := exists_textBody hbody
    exact ⟨word, hcs, .text hword⟩
  · cases h
  · cases h

theorem readFunction_word (h : readFunction cs = .ok (t, rest)) :
    ∃ word, cs = word ++ rest ∧ Word ('{' :: word) t := by
  unfold readFunction at h
  split at h
  · rename_i body left hbody
    cases h
    obtain ⟨hcs, -, hword⟩ := functionBody?_eq hbody
    exact ⟨body, hcs, .function hword⟩
  · cases h

theorem readNumber_word (hc : (c.isDigit || (c == '.' && startsDigit cs)) = true)
    (h : readNumber (c :: cs) = .ok (t, rest)) : ∃ word, cs = word ++ rest ∧ Word (c :: word) t := by
  obtain ⟨happend, hnumeric⟩ := numberRun_eq cs
  have hrun : ∀ d ∈ c :: (numberRun cs).1, isNumeric d = true :=
    List.forall_mem_cons.mpr ⟨isNumeric_of_startsNumber hc, hnumeric⟩
  have hcons : numberRun (c :: cs) = (c :: (numberRun cs).1, (numberRun cs).2) := by
    rw [numberRun, if_pos hc]
  unfold readNumber at h
  simp only [hcons] at h
  split at h
  · rename_i b left hbinary
    cases h
    refine ⟨(numberRun cs).1 ++ ['b'], ?_, .numeric _ ?_⟩
    · rw [List.append_assoc, List.singleton_append, ← binaryDigit?_eq hbinary, happend]
    · exact List.forall_mem_append.mpr ⟨hrun, List.forall_mem_singleton.mpr (by decide)⟩
  · split at h
    · cases h
      exact ⟨(numberRun cs).1, happend.symm, .numeric _ hrun⟩
    · split at h
      · split at h <;> cases h
        exact ⟨(numberRun cs).1, happend.symm, .numeric _ hrun⟩
      · cases h

theorem readSymbol_word (cs : List Char) :
    ∃ word, cs = word ++ (readSymbol cs).2 ∧ Word (symbolMark :: word) (readSymbol cs).1 :=
  ⟨cs.takeWhile isSymbolChar, List.takeWhile_append_dropWhile.symm,
    .symbol fun _ => List.mem_takeWhile_imp⟩

theorem readWord_word (hc : isWordStart c = true) (cs : List Char) :
    ∃ word, cs = word ++ (readWord (c :: cs)).2 ∧ Word (c :: word) (readWord (c :: cs)).1 := by
  have hcons : readWord (c :: cs) =
      (wordToken (c :: cs.takeWhile isWordChar), cs.dropWhile isWordChar) := by
    simp [readWord, isWordChar_of_isWordStart hc]
  rw [hcons]
  refine ⟨cs.takeWhile isWordChar, List.takeWhile_append_dropWhile.symm, .identifier ?_⟩
  exact Bool.and_eq_true_iff.mpr ⟨hc, List.all_eq_true.mpr fun _ => List.mem_takeWhile_imp⟩

theorem readLess_word (cs : List Char) :
    ∃ word, cs = word ++ (readLess cs).2 ∧ Word ('<' :: word) (readLess cs).1 := by
  unfold readLess
  split
  · exact ⟨['>'], rfl, .notEqual⟩
  · exact ⟨['='], rfl, .lessEqual⟩
  · exact ⟨[], rfl, .less⟩

theorem readGreater_word (cs : List Char) :
    ∃ word, cs = word ++ (readGreater cs).2 ∧ Word ('>' :: word) (readGreater cs).1 := by
  unfold readGreater
  split
  · exact ⟨['='], rfl, .greaterEqual⟩
  · exact ⟨[], rfl, .greater⟩

theorem read_word (h : read c cs = .ok (t, rest)) :
    ∃ word, cs = word ++ rest ∧ Word (c :: word) t := by
  unfold read at h
  split at h
  · rename_i hc
    subst hc
    obtain ⟨rfl, rfl⟩ := Prod.ext_iff.mp (Except.ok.inj h)
    exact readLess_word cs
  split at h
  · rename_i hc
    subst hc
    obtain ⟨rfl, rfl⟩ := Prod.ext_iff.mp (Except.ok.inj h)
    exact readGreater_word cs
  split at h
  · rename_i hc
    subst hc
    exact readText_word h
  split at h
  · rename_i hc
    subst hc
    cases h
    exact readSymbol_word cs
  split at h
  · rename_i hc
    subst hc
    exact readFunction_word h
  split at h
  · rename_i m hm
    cases h
    exact ⟨[], rfl, .punctuation hm⟩
  split at h
  · rename_i hc
    exact readNumber_word hc h
  split at h
  · rename_i hc
    obtain ⟨rfl, rfl⟩ := Prod.ext_iff.mp (Except.ok.inj h)
    exact readWord_word hc cs
  · cases h

end Readers

/-- A word that ends in code and is as deep as the token. -/
structure Spells (word : List Char) (t : Token) : Prop where
  ends : Quoting.code.after word = .code
  depth : bracketDepth word = t.depth

theorem spells_of_inert {word : List Char} {t : Token} (hword : ∀ c ∈ word, isInert c = true)
    (ht : t.depth = 0) : Spells word t where
  ends := after_code_of_inert hword
  depth := (depthFrom_of_inert hword .code).trans ht.symm

theorem isInert_of_isNumeric {c : Char} (h : isNumeric c = true) : isInert c = true :=
  isInert_of_class (by decide) h

theorem isInert_of_isSymbolChar {c : Char} (h : isSymbolChar c = true) : isInert c = true :=
  isInert_of_class (by decide +kernel) h

theorem isWordChar_of_isIdentifier {word : List Char} (h : isIdentifier word = true) :
    ∀ c ∈ word, isWordChar c = true := by
  cases word with
  | nil => exact List.forall_mem_nil _
  | cons c cs =>
    obtain ⟨hc, hcs⟩ := Bool.and_eq_true_iff.mp h
    exact List.forall_mem_cons.mpr ⟨isWordChar_of_isWordStart hc, List.all_eq_true.mp hcs⟩

theorem wordToken_depth (word : List Char) : (wordToken word).depth = 0 := by
  unfold wordToken
  split <;> rfl

theorem punctuation?_spells {c : Char} {m : Mark} (h : punctuation? c = some m) :
    Spells [c] (.mark m) := by
  unfold punctuation? at h
  split at h <;> cases h <;> exact ⟨rfl, rfl⟩

theorem Word.spells {word : List Char} {t : Token} (h : Word word t) : Spells word t := by
  cases h with
  | less | notEqual | lessEqual | greater | greaterEqual => exact ⟨rfl, rfl⟩
  | punctuation hm => exact punctuation?_spells hm
  | text hbody =>
    have hquoted := Quoted.of_textBody hbody
    exact ⟨hquoted.ends, (Int.zero_add _).trans hquoted.depth⟩
  | symbol hcs =>
    refine spells_of_inert (List.forall_mem_cons.mpr ⟨by decide, ?_⟩) rfl
    exact fun c hc => isInert_of_isSymbolChar (hcs c hc)
  | function hbody =>
    obtain ⟨-, hafter, -⟩ := functionBody?_eq hbody
    exact ⟨hafter, by simp [Token.depth]⟩
  | numeric a hword => exact spells_of_inert (fun c hc => isInert_of_isNumeric (hword c hc)) rfl
  | identifier hword =>
    exact spells_of_inert
      (fun c hc => isInert_of_isWordChar (isWordChar_of_isIdentifier hword c hc)) (wordToken_depth _)

theorem isDigit_of_isWordStart {c : Char} (h : isWordStart c = true) : c.isDigit = false := by
  have hdigits : ((List.range' 48 10).map Char.ofNat).all (!isWordStart ·) = true := by
    decide +kernel
  by_contra hdigit
  have hmem : c ∈ (List.range' 48 10).map Char.ofNat := by
    rw [← Char.ofNat_toNat c]
    refine List.mem_map_of_mem (List.mem_range'_1.mpr ?_)
    simp only [Char.isDigit, UInt32.le_iff_toNat_le, Bool.not_eq_false, Bool.and_eq_true,
      decide_eq_true_eq] at hdigit
    exact ⟨hdigit.1, Nat.lt_succ_of_le hdigit.2⟩
  simpa [h] using List.all_eq_true.mp hdigits c hmem

/-- The characters that start a mark, or a literal that is no number. -/
def marks : List Char :=
  ['<', '>', '"', '\x60', '{', '+', '-', '*', '/', '%', '=', ':', ';', ',', '(', ')', '[', ']']

theorem read_of_class {p : Char → Bool} (hp : marks.all (!p ·) = true) {c : Char} (hc : p c = true)
    (cs : List Char) :
    read c cs =
      if c.isDigit || (c == '.' && startsDigit cs) then readNumber (c :: cs)
      else if isWordStart c then .ok (readWord (c :: cs))
      else .error ⟨.unexpectedCharacter c, cs.length + 1⟩ := by
  have hne : ∀ d ∈ marks, c ≠ d := by
    rintro d hd rfl
    simpa [hc] using List.all_eq_true.mp hp c hd
  simp only [marks, List.forall_mem_cons] at hne
  have hpunctuation : punctuation? c = none := by
    unfold punctuation?
    split <;> simp_all
  simp [read, hne, symbolMark, hpunctuation]

/-- No other lexeme starts like a word. -/
theorem read_of_isWordStart {c : Char} (h : isWordStart c = true) (cs : List Char) :
    read c cs = .ok (readWord (c :: cs)) := by
  have hpoint : c ≠ '.' := by
    rintro rfl
    exact absurd h (by decide +kernel)
  rw [read_of_class (by decide +kernel) h]
  simp [isDigit_of_isWordStart h, h, hpoint]

theorem read_of_isDigit {c : Char} (h : c.isDigit = true) (cs : List Char) :
    read c cs = readNumber (c :: cs) := by
  rw [read_of_class (by decide) h]
  simp [h]

@[simp] theorem readAll_nil (limit : Nat) : readAll limit [] = .ok [] := by
  cases limit <;> rfl

inductive Lexemes : List Char → List Token → Prop
  | none {cs : List Char} : (∀ c ∈ cs, isBlank c = true) → Lexemes cs []
  | more {blanks word rest : List Char} {t : Token} {ts : List Token} :
    (∀ c ∈ blanks, isBlank c = true) → Word word t → Lexemes rest ts →
      Lexemes (blanks ++ (word ++ rest)) (t :: ts)

theorem lexemes_of_readAll {limit : Nat} {cs : List Char} {ts : List Token}
    (hlimit : cs.length ≤ limit) (h : readAll limit cs = .ok ts) : Lexemes cs ts := by
  induction limit generalizing cs ts with
  | zero =>
    obtain rfl := List.length_eq_zero_iff.mp (Nat.le_zero.mp hlimit)
    cases h
    exact .none (List.forall_mem_nil _)
  | succ limit ih =>
    rw [readAll] at h
    split at h
    · rename_i hnil
      cases h
      exact .none (List.dropWhile_eq_nil_iff.mp hnil)
    · rename_i c cs' hcons
      obtain ⟨⟨t, rest⟩, hread, h⟩ := Except.bind_eq_ok_iff.mp h
      obtain ⟨ts', hts', h⟩ := Except.bind_eq_ok_iff.mp h
      cases h
      obtain ⟨word, rfl, hword⟩ := read_word hread
      have hcs : cs.takeWhile isBlank ++ (c :: word ++ rest) = cs := by
        rw [List.cons_append, ← hcons, dropBlank, List.takeWhile_append_dropWhile]
      have hrest : rest.length ≤ limit := by
        rw [← hcs] at hlimit
        simp only [List.length_append, List.length_cons] at hlimit
        omega
      rw [← hcs]
      exact .more (fun _ => List.mem_takeWhile_imp) hword (ih hrest hts')

theorem Lexemes.depth {cs : List Char} {ts : List Token} (h : Lexemes cs ts) :
    bracketDepth cs = (ts.map Token.depth).sum := by
  induction h with
  | none hblank => exact depthFrom_of_inert (fun c hc => isInert_of_isBlank (hblank c hc)) .code
  | more hblank hword _ ih =>
    have hinert := fun c hc => isInert_of_isBlank (hblank c hc)
    have hdepth := hword.spells.depth
    rw [bracketDepth] at hdepth ih ⊢
    rw [depthFrom_append, depthFrom_of_inert hinert, after_code_of_inert hinert, depthFrom_append,
      hword.spells.ends, hdepth, ih, Int.zero_add, List.map_cons, List.sum_cons]

end Lexer

theorem Token.lexemes_ofText {s : String} {ts : List Token} (h : Token.ofText s = .ok ts) :
    Lexer.Lexemes s.toList ts :=
  Lexer.lexemes_of_readAll (Nat.le_refl _) (Except.mapError_eq_ok_iff.mp h)

theorem Token.depth_ofText {s : String} {ts : List Token} (h : Token.ofText s = .ok ts) :
    bracketDepth s.toList = (ts.map Token.depth).sum :=
  (Token.lexemes_ofText h).depth

end TableConsole
