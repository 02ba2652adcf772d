import TableConsole.Proofs.Number.ReadBack
import TableConsole.Proofs.Syntax.Identifier
import TableConsole.Proofs.Syntax.Joining
import TableConsole.Proofs.Value.Date
import Mathlib.Data.List.Infix

/-! # Written tokens

A list of tokens that is written with a space between its tokens is read as the list. The text of
each token is a lexeme of its own that starts without a blank, and no reader looks across a blank.
Numbers are read back exactly, and a text is read back whatever its characters are.
-/

namespace TableConsole

set_option autoImplicit false

open Text

def Mark.chars : Mark → List Char
  | .kwSelect => "select".toList
  | .kwBy => "by".toList
  | .kwFrom => "from".toList
  | .kwWhere => "where".toList
  | .kwIn => "in".toList
  | .kwWavg => "wavg".toList
  | .plus => ['+']
  | .minus => ['-']
  | .star => ['*']
  | .slash => ['/']
  | .percent => ['%']
  | .equal => ['=']
  | .notEqual => ['<', '>']
  | .less => ['<']
  | .greater => ['>']
  | .lessEqual => ['<', '=']
  | .greaterEqual => ['>', '=']
  | .colon => [':']
  | .semicolon => [';']
  | .comma => [',']
  | .openParen => ['(']
  | .closeParen => [')']
  | .openBracket => ['[']
  | .closeBracket => [']']

def Text.escaped (c : Char) : List Char :=
  if c = '"' then ['\\', '"']
  else if c = '\\' then ['\\', '\\']
  else if c = '\n' then ['\\', 'n']
  else if c = '\t' then ['\\', 't']
  else if c = '\r' then ['\\', 'r']
  else [c]

def Atom.chars : Atom → List Char
  | .number x => (Number.plain? x).getD []
  | .text s => '"' :: (s.toList.flatMap escaped ++ ['"'])
  | .boolean b => [if b then '1' else '0', 'b']
  | .date d => d.toChars
  | .symbol s => Lexer.symbolMark :: s.toList

def Token.chars : Token → List Char
  | .literal a => a.chars
  | .function source => source.toList
  | .name n => n.toList
  | .mark m => m.chars

def Token.write (ts : List Token) : String :=
  String.ofList ([' '].intercalate (ts.map Token.chars))

/-- A finite number without a sign; minus zero has one. -/
def Number.isUnsigned (x : Float) : Bool :=
  (Binary.ofFloat? x).any (!·.negative)

theorem Number.exists_of_isUnsigned {x : Float} (h : isUnsigned x = true) :
    ∃ b, Binary.ofFloat? x = some b ∧ b.negative = false := by
  simpa [isUnsigned, Option.any_eq_true] using h

/-- Braces that are open behind a text, outside string literals. -/
def Text.braceDepth (q : Quoting) : List Char → Int
  | [] => 0
  | c :: cs => Lexer.braceStep q c + braceDepth (q.next c) cs

/-- The brace that closes the first one is the last character. -/
structure Text.IsFunctionLiteral (cs : List Char) : Prop where
  opens : cs.head? = some '{'
  inside : ∀ front, front <+: cs → front ≠ [] → front ≠ cs → 0 < braceDepth .code front
  closes : braceDepth .code cs = 0

def Atom.Lexable : Atom → Prop
  | .number x => Number.isUnsigned x = true
  | .date d => d.HasPlainYear
  | .symbol s => ∀ c ∈ s.toList, Lexer.isSymbolChar c = true
  | .text _ | .boolean _ => True

def Token.Lexable : Token → Prop
  | .literal a => a.Lexable
  | .function source => IsFunctionLiteral source.toList
  | .name n => isIdentifier n.toList = true ∧ String.ofList (n.toList.map Char.toLower) ∉ keywords
  | .mark _ => True

instance (cs : List Char) : Decidable (IsFunctionLiteral cs) :=
  decidable_of_iff
    (cs.head? = some '{' ∧
      (∀ front ∈ cs.inits, front ≠ [] → front ≠ cs → 0 < braceDepth .code front) ∧
      braceDepth .code cs = 0)
    ⟨fun ⟨h, h', h''⟩ => ⟨h, fun front hfront => h' front (List.mem_inits _ _ |>.mpr hfront), h''⟩,
      fun ⟨h, h', h''⟩ => ⟨h, fun front hfront => h' front (List.mem_inits _ _ |>.mp hfront), h''⟩⟩

instance (d : Date) : Decidable d.HasPlainYear :=
  inferInstanceAs (Decidable (_ ∧ _))

instance (t : Token) : Decidable t.Lexable :=
  match t with
  | .literal (.number x) => inferInstanceAs (Decidable (Number.isUnsigned x = true))
  | .literal (.date d) => inferInstanceAs (Decidable d.HasPlainYear)
  | .literal (.symbol s) =>
    decidable_of_iff (s.toList.all Lexer.isSymbolChar = true) List.all_eq_true
  | .literal (.text _) | .literal (.boolean _) | .mark _ => isTrue trivial
  | .function source => inferInstanceAs (Decidable (IsFunctionLiteral source.toList))
  | .name _ => inferInstanceAs (Decidable (_ ∧ _))

namespace Lexer

/-- The text is one lexeme, and does not start with a blank. -/
inductive Reads : List Char → Token → Prop
  | of {c : Char} {cs : List Char} {t : Token} :
    isBlank c = false → read c cs = .ok (t, []) → Reads (c :: cs) t

theorem reads_identifier {word : List Char} (h : isIdentifier word = true) :
    Reads word (wordToken word) := by
  obtain ⟨c, cs, rfl, hblank, hread⟩ := @read_identifier word [] h rfl
  rw [List.append_nil] at hread
  exact .of hblank hread

theorem reads_mark (m : Mark) : Reads m.chars (.mark m) := by
  cases m with
  | kwSelect => exact @reads_identifier "select".toList (by decide +kernel)
  | kwBy => exact @reads_identifier "by".toList (by decide +kernel)
  | kwFrom => exact @reads_identifier "from".toList (by decide +kernel)
  | kwWhere => exact @reads_identifier "where".toList (by decide +kernel)
  | kwIn => exact @reads_identifier "in".toList (by decide +kernel)
  | kwWavg => exact @reads_identifier "wavg".toList (by decide +kernel)
  | _ => exact .of rfl rfl

theorem textBody_escaped (c : Char) (cs : List Char) :
    textBody (escaped c ++ cs) = (textBody cs).map fun (body, rest) => (c :: body, rest) := by
  unfold escaped
  split_ifs with hquote hslash hfeed htab hreturn
  · exact textBody_escape (by rw [hquote]; rfl) cs
  · exact textBody_escape (by rw [hslash]; rfl) cs
  · exact textBody_escape (by rw [hfeed]; rfl) cs
  · exact textBody_escape (by rw [htab]; rfl) cs
  · exact textBody_escape (by rw [hreturn]; rfl) cs
  · exact textBody_char hquote hslash cs

theorem textBody_flatMap_escaped (cs : List Char) :
    textBody (cs.flatMap escaped ++ ['"']) = .ok (cs, []) := by
  induction cs with
  | nil => exact textBody_quote []
  | cons c cs ih =>
    rw [List.flatMap_cons, List.append_assoc, textBody_escaped, ih]
    rfl

theorem reads_text (s : String) : Reads (Atom.text s).chars (.literal (.text s)) := by
  refine .of (by decide) ?_
  have hread (cs : List Char) : read '"' cs = readText cs := rfl
  rw [hread, readText, textBody_flatMap_escaped]
  dsimp only
  rw [String.ofList_toList]

theorem reads_symbol {s : String} (h : ∀ c ∈ s.toList, isSymbolChar c = true) :
    Reads (Atom.symbol s).chars (.literal (.symbol s)) := by
  refine .of (by decide) ?_
  have htake : s.toList.takeWhile isSymbolChar = s.toList := List.takeWhile_eq_self_iff.mpr h
  have hdrop : s.toList.dropWhile isSymbolChar = [] := List.dropWhile_eq_nil_iff.mpr h
  have hread : read symbolMark s.toList = .ok (readSymbol s.toList) := rfl
  rw [hread, readSymbol, htake, hdrop, String.ofList_toList]

theorem reads_boolean (b : Bool) : Reads (Atom.boolean b).chars (.literal (.boolean b)) := by
  cases b <;> exact .of rfl rfl

theorem functionBody?_of_braceDepth {q : Quoting} {depth : Nat} {cs : List Char}
    (hinside : ∀ front, front <+: cs → front ≠ cs → 0 ≤ depth + braceDepth q front)
    (hcloses : depth + braceDepth q cs = -1) : functionBody? q depth cs = some (cs, []) := by
  induction cs generalizing q depth with
  | nil =>
    rw [braceDepth] at hcloses
    omega
  | cons c cs ih =>
    rw [braceDepth] at hcloses
    rw [functionBody?_cons]
    split
    · rename_i hclose
      have hnil : cs = [] := by
        by_contra hne
        have hstep := hinside [c] (List.cons_prefix_cons.mpr ⟨rfl, List.nil_prefix⟩)
          (by simpa using Ne.symm hne)
        rw [braceDepth, braceDepth] at hstep
        omega
      rw [hnil]
    · rename_i hopen
      have hdepth : (((depth : Int) + braceStep q c).toNat : Int) = depth + braceStep q c :=
        Int.toNat_of_nonneg (by omega)
      have hrest := @ih (q.next c) ((depth : Int) + braceStep q c).toNat ?_ ?_
      · rw [hrest]
        rfl
      · intro front hfront hne
        have hcons := hinside (c :: front) (List.cons_prefix_cons.mpr ⟨rfl, hfront⟩)
          (by simpa using hne)
        rw [braceDepth] at hcons
        omega
      · omega

theorem reads_function {source : String} (h : IsFunctionLiteral source.toList) :
    Reads source.toList (.function source) := by
  obtain ⟨body, hsource⟩ : ∃ body, source.toList = '{' :: body :=
    List.head?_eq_some_iff.mp h.opens
  have hdepth (cs : List Char) : braceDepth .code ('{' :: cs) = 1 + braceDepth .code cs := rfl
  have hbody : functionBody? .code 0 body = some (body, []) := by
    refine functionBody?_of_braceDepth ?_ ?_
    · intro front hfront hne
      have hpos := h.inside ('{' :: front)
        (by rw [hsource]; exact List.cons_prefix_cons.mpr ⟨rfl, hfront⟩)
        (List.cons_ne_nil _ _) (by rw [hsource]; simpa using hne)
      rw [hdepth] at hpos
      omega
    · have hcloses := h.closes
      rw [hsource, hdepth] at hcloses
      omega
  have hread : read '{' body = readFunction body := rfl
  rw [hsource]
  refine .of (by decide) ?_
  rw [hread, readFunction, hbody]
  dsimp only
  rw [← hsource, String.ofList_toList]

section Digits

variable {digits : List Char} (h : ∀ c ∈ digits, c.isDigit = true) (rest : List Char)

include h

theorem numberRun_digits :
    numberRun (digits ++ rest) = (digits ++ (numberRun rest).1, (numberRun rest).2) := by
  induction digits with
  | nil => rfl
  | cons c digits ih =>
    obtain ⟨hc, hdigits⟩ := List.forall_mem_cons.mp h
    rw [List.cons_append, numberRun, hc, Bool.true_or, if_pos rfl, ih hdigits]
    rfl

/-- A point is part of the number if a digit follows it. -/
theorem numberRun_point (hne : digits ≠ []) :
    numberRun ('.' :: (digits ++ rest)) =
      ('.' :: (digits ++ (numberRun rest).1), (numberRun rest).2) := by
  obtain ⟨c, cs, rfl⟩ := List.exists_cons_of_ne_nil hne
  have hstarts : startsDigit (c :: cs ++ rest) = true := h c List.mem_cons_self
  rw [numberRun, hstarts, numberRun_digits h]
  rfl

theorem not_point_of_digits : '.' ∉ digits := by
  intro hmem
  cases h '.' hmem

end Digits

theorem binaryDigit?_nil (run : List Char) : binaryDigit? run [] = none := by
  unfold binaryDigit?
  split
  · rename_i heq
    cases heq
  · rfl

theorem isBlank_of_isDigit {c : Char} (h : c.isDigit = true) : isBlank c = false := by
  by_contra hblank
  rw [Bool.not_eq_false] at hblank
  have hnot := not_of_isBlank (p := Char.isDigit) (by decide) hblank
  rw [h] at hnot
  cases hnot

theorem reads_of_readNumber {digits tail : List Char} {t : Token} (hne : digits ≠ [])
    (hdigits : ∀ c ∈ digits, c.isDigit = true) (h : readNumber (digits ++ tail) = .ok (t, [])) :
    Reads (digits ++ tail) t := by
  obtain ⟨c, cs, rfl⟩ := List.exists_cons_of_ne_nil hne
  have hc := hdigits c List.mem_cons_self
  exact .of (isBlank_of_isDigit hc) ((read_of_isDigit hc _).trans h)

theorem readNumber_pointed {whole fraction : List Char}
    (h : ∀ c ∈ whole ++ fraction, c.isDigit = true) :
    readNumber (whole ++ Number.pointed fraction) =
      .ok (.literal (.number (Number.ofPositional whole fraction)), []) := by
  obtain ⟨hwhole, hfraction⟩ := List.forall_mem_append.mp h
  have hpoint : ∀ c ∈ whole, (c != '.') = true := fun c hc =>
    bne_iff_ne.mpr fun heq => not_point_of_digits hwhole (heq ▸ hc)
  have hcount (cs : List Char) (hcs : ∀ c ∈ cs, c.isDigit = true) : cs.count '.' = 0 :=
    List.count_eq_zero.mpr (not_point_of_digits hcs)
  have hrun : numberRun (whole ++ Number.pointed fraction) =
      (whole ++ Number.pointed fraction, []) := by
    rw [numberRun_digits hwhole]
    cases fraction with
    | nil => rfl
    | cons c cs =>
      have hfraction := numberRun_point hfraction [] (List.cons_ne_nil c cs)
      rw [List.append_nil] at hfraction
      rw [Number.pointed, hfraction]
      simp [numberRun]
  have hpoints : (whole ++ Number.pointed fraction).count '.' ≤ 1 := by
    rw [List.count_append, hcount whole hwhole]
    cases fraction with
    | nil => simp [Number.pointed]
    | cons c cs => simp [Number.pointed, hcount _ hfraction]
  have htake : (whole ++ Number.pointed fraction).takeWhile (· != '.') = whole := by
    rw [List.takeWhile_append_of_pos hpoint]
    cases fraction <;> simp [Number.pointed]
  have hdrop : ((whole ++ Number.pointed fraction).dropWhile (· != '.')).drop 1 = fraction := by
    rw [List.dropWhile_append_of_pos hpoint]
    cases fraction <;> simp [Number.pointed]
  simp only [readNumber, hrun, binaryDigit?_nil, if_pos hpoints, htake, hdrop]

theorem reads_number {x : Float} (h : Number.isUnsigned x = true) :
    Reads (Atom.number x).chars (.literal (.number x)) := by
  obtain ⟨b, hb, hsign⟩ := Number.exists_of_isUnsigned h
  obtain ⟨whole, fraction, hplain, hne, hdigits, hvalue⟩ := Number.exists_plain hb hsign
  have hwhole : ∀ c ∈ whole, c.isDigit = true := (List.forall_mem_append.mp hdigits).1
  rw [Atom.chars, hplain, Option.getD_some]
  exact reads_of_readNumber hne hwhole (hvalue ▸ readNumber_pointed hdigits)

theorem readNumber_date {d : Date} (h : d.HasPlainYear) :
    readNumber d.toChars = .ok (.literal (.date d), []) := by
  have hdigits {width n : Nat} : ∀ c ∈ Date.padded width n, c.isDigit = true := fun c =>
    Date.isDigit_of_mem_padded
  have hcount {width n : Nat} : (Date.padded width n).count '.' = 0 :=
    List.count_eq_zero.mpr (not_point_of_digits hdigits)
  have htext : d.toChars = Date.padded 4 d.year.natAbs ++
      '.' :: (Date.padded 2 d.month ++ '.' :: Date.padded 2 d.day) := by
    rw [Date.toChars, Date.yearChars_eq h, List.append_assoc]
    rfl
  have hrun : numberRun d.toChars = (d.toChars, []) := by
    have hday := numberRun_point (@hdigits 2 d.day) [] Date.padded_ne_nil
    rw [List.append_nil] at hday
    rw [htext, numberRun_digits hdigits, numberRun_point hdigits _ Date.padded_ne_nil, hday]
    simp [numberRun]
  have hpoints : d.toChars.count '.' = 2 := by
    rw [htext]
    simp [hcount]
  simp only [readNumber, hrun, binaryDigit?_nil, hpoints, Date.ofChars?_toChars h]
  rfl

theorem reads_date {d : Date} (h : d.HasPlainYear) :
    Reads (Atom.date d).chars (.literal (.date d)) := by
  have hread := readNumber_date h
  rw [Atom.chars]
  rw [Date.toChars, Date.yearChars_eq h, List.append_assoc] at hread ⊢
  exact reads_of_readNumber Date.padded_ne_nil (fun c => Date.isDigit_of_mem_padded) hread

theorem reads_chars {t : Token} (h : t.Lexable) : Reads t.chars t := by
  cases t with
  | literal a =>
    cases a with
    | number x => exact reads_number h
    | text s => exact reads_text s
    | boolean b => exact reads_boolean b
    | date d => exact reads_date h
    | symbol s => exact reads_symbol h
  | function source => exact reads_function h
  | name n =>
    have hread := reads_identifier h.1
    rwa [wordToken_of_not_keyword h.2, String.ofList_toList] at hread
  | mark m => exact reads_mark m

theorem Reads.lexes {word : List Char} {t : Token} (h : Reads word t) : Lexes word [t] := by
  obtain ⟨hblank, hread⟩ := h
  exact .cons hblank hread .nil

theorem readAll_write {ts : List Token} (h : ∀ t ∈ ts, t.Lexable) {limit : Nat}
    (hlimit : ([' '].intercalate (ts.map Token.chars)).length ≤ limit) :
    readAll limit ([' '].intercalate (ts.map Token.chars)) = .ok ts := by
  have hread : Lexes ([' '].intercalate (ts.map Token.chars)) (ts.map id) :=
    lexes_spaced fun t ht => (reads_chars (h t ht)).lexes
  rw [List.map_id] at hread
  exact hread.readAll hlimit

end Lexer

/-- Every list of tokens with a text is read back from it. -/
theorem Token.ofText_write {ts : List Token} (h : ∀ t ∈ ts, t.Lexable) :
    Token.ofText (Token.write ts) = .ok ts := by
  rw [Token.ofText, Token.ofChars, Except.mapError_eq_ok_iff, Token.write, String.toList_ofList]
  exact Lexer.readAll_write h le_rfl

/-- Tokens of all kinds, with neighbours that would run into each other without the spaces. -/
theorem Token.ofText_write_kinds :
    let ts : List Token :=
      [.mark .kwSelect, .name "by1", .literal (.number 0.1), .literal (.number 1e21),
        .literal (.date ⟨7, 1, 31, by decide⟩), .literal (.text "a\"\\\n\x7b"),
        .literal (.symbol ""), .literal (.symbol "a.1"), .literal (.boolean true), .name "b",
        .mark .less, .mark .greater, .mark .equal, .function "\x7b\"\x7d\\\"\";\x7bx\x7d\x7d"]
    (∀ t ∈ ts, t.Lexable) ∧
      Token.write ts = "select by1 0.1 1000000000000000000000 0007.01.31 \"a\\\"\\\\\\n\x7b\" " ++
        "\x60 \x60a.1 1b b < > = \x7b\"\x7d\\\"\";\x7bx\x7d\x7d" ∧
      Token.ofText (Token.write ts) = .ok ts := by
  intro ts
  have hlexable : ∀ t ∈ ts, t.Lexable := by decide +kernel
  exact ⟨hlexable, by decide +kernel, ofText_write hlexable⟩

end TableConsole
