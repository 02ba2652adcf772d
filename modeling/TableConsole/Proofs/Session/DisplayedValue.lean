import TableConsole.Display.Value
import TableConsole.Proofs.Eval.Literals
import TableConsole.Proofs.Number.Equality
import TableConsole.Proofs.Session.Unnamed
import TableConsole.Proofs.Syntax.Writing

/-! # Reading displayed values

The text on display for an atom or a flat list is a statement that gives the value again. Texts are
shown without escapes, so a quote or a backslash in a text would be read as something else, and a
list of one item is shown like the item.
-/

namespace TableConsole

set_option autoImplicit false

open Text

/-- What is on display for the atom is a literal of it. -/
def Atom.Legible : Atom → Prop
  | .text s => '"' ∉ s.toList ∧ '\\' ∉ s.toList
  | a => a.Lexable

instance (a : Atom) : Decidable a.Legible :=
  match a with
  | .text _ => inferInstanceAs (Decidable (_ ∧ _))
  | .number x => inferInstanceAs (Decidable (Token.literal (.number x)).Lexable)
  | .boolean b => inferInstanceAs (Decidable (Token.literal (.boolean b)).Lexable)
  | .date d => inferInstanceAs (Decidable (Token.literal (.date d)).Lexable)
  | .symbol s => inferInstanceAs (Decidable (Token.literal (.symbol s)).Lexable)

/-- Flat values with a text that reads as the value. -/
inductive Value.Legible : Value → Prop
  | atom {a : Atom} : a.Legible → Legible (.atom a)
  | list {as : List Atom} :
    as.length ≠ 1 → (∀ a ∈ as, a.Legible) → Legible (.list (as.map .atom))

def Atom.shown (a : Atom) : List Char :=
  (Value.atom a).literalText.toList

theorem Value.Legible.exists_ofAtoms {v : Value} (h : v.Legible) :
    ∃ as : List Atom, (∀ a ∈ as, a.Legible) ∧ v = Value.ofAtoms as := by
  cases h with
  | @atom a ha => exact ⟨[a], List.forall_mem_singleton.mpr ha, rfl⟩
  | @list as hlength has =>
    refine ⟨as, has, ?_⟩
    match as with
    | [] | _ :: _ :: _ => rfl
    | [a] => exact absurd rfl hlength

theorem Number.form_zero : form 0 = .zero .positive := by
  have hunpack : (0 : Float).toModel.unpack = .zero .positive := rfl
  rw [form, hunpack]
  rfl

/-- Of the two zeros only one has no sign. -/
theorem Number.eq_zero_of_isUnsigned {x : Float} (h : isUnsigned x = true)
    (hzero : (x == 0) = true) : x = 0 := by
  obtain ⟨b, hb, hsign⟩ := exists_of_isUnsigned h
  have hform : form x = .zero .positive := ((beq_iff_form x 0).mp hzero).1.trans form_zero
  have hview : Binary.ofFloat? x = some ⟨b.negative, 0, -1074⟩ := by
    rw [Binary.ofFloat?_eq] at hb ⊢
    rw [form] at hform
    cases hunpack : x.toModel.unpack with
    | zero s =>
      rw [hunpack] at hb
      cases hb
      rfl
    | infinity | notANumber | finite =>
      rw [hunpack] at hform
      cases hform
  rw [hsign] at hview
  exact Binary.eq_of_ofFloat? hview rfl

theorem Number.toList_display {x : Float} (h : isUnsigned x = true) :
    (display x).toList = (plain? x).getD [] := by
  obtain ⟨b, hb, hsign⟩ := exists_of_isUnsigned h
  obtain ⟨whole, fraction, hplain, -⟩ := exists_plain hb hsign
  unfold display
  split
  · rename_i hzero
    rw [eq_zero_of_isUnsigned h hzero]
    decide +kernel
  · simp [hplain]

namespace Atom

theorem shown_number {x : Float} (h : Number.isUnsigned x = true) :
    shown (.number x) = (number x).chars :=
  Number.toList_display h

theorem shown_text (s : String) : shown (.text s) = '"' :: (s.toList ++ ['"']) := by
  simp [shown, Value.literalText]

theorem shown_boolean (b : Bool) : shown (.boolean b) = (boolean b).chars := by
  cases b <;> decide

theorem shown_date (d : Date) : shown (.date d) = (date d).chars :=
  String.toList_ofList

theorem shown_symbol (s : String) : shown (.symbol s) = (symbol s).chars := by
  simp [shown, Value.literalText, Atom.chars, Lexer.symbolMark]

end Atom

namespace Lexer

theorem textBody_of_not_mem {cs : List Char} (hquote : '"' ∉ cs) (hslash : '\\' ∉ cs) :
    textBody (cs ++ ['"']) = .ok (cs, []) := by
  induction cs with
  | nil => exact textBody_quote []
  | cons c cs ih =>
    rw [List.mem_cons, not_or] at hquote hslash
    rw [List.cons_append, textBody_char (Ne.symm hquote.1) (Ne.symm hslash.1),
      ih hquote.2 hslash.2]
    rfl

theorem reads_shown {a : Atom} (h : a.Legible) : Reads a.shown (.literal a) := by
  cases a with
  | number x => exact Atom.shown_number h ▸ reads_number h
  | text s =>
    have hread (cs : List Char) : read '"' cs = readText cs := rfl
    rw [Atom.shown_text]
    refine .of (by decide) ?_
    rw [hread, readText, textBody_of_not_mem h.1 h.2]
    dsimp only
    rw [String.ofList_toList]
  | boolean b => exact Atom.shown_boolean b ▸ reads_boolean b
  | date d => exact Atom.shown_date d ▸ reads_date h
  | symbol s => exact Atom.shown_symbol s ▸ reads_symbol h

def IsLiteralStart (c : Char) : Prop :=
  c.isDigit = true ∨ c = '"' ∨ c = symbolMark

theorem IsLiteralStart.not_isWordStart {c : Char} (h : IsLiteralStart c) :
    isWordStart c = false := by
  obtain hdigit | rfl | rfl := h
  · by_contra hword
    rw [Bool.not_eq_false] at hword
    rw [isDigit_of_isWordStart hword] at hdigit
    cases hdigit
  · decide +kernel
  · decide +kernel

theorem IsLiteralStart.not_isBlank {c : Char} (h : IsLiteralStart c) : isBlank c = false := by
  obtain hdigit | rfl | rfl := h
  · exact isBlank_of_isDigit hdigit
  · decide
  · decide

theorem IsLiteralStart.ne_paren {c : Char} (h : IsLiteralStart c) : c ≠ '(' := by
  rintro rfl
  obtain hdigit | hquote | hmark := h
  · cases hdigit
  · cases hquote
  · cases hmark

theorem exists_shown_eq_cons {a : Atom} (h : a.Legible) :
    ∃ c cs, a.shown = c :: cs ∧ IsLiteralStart c := by
  have ofDigits {digits tail : List Char} (hne : digits ≠ [])
      (hdigits : ∀ c ∈ digits, c.isDigit = true) :
      ∃ c cs, digits ++ tail = c :: cs ∧ IsLiteralStart c := by
    obtain ⟨c, cs, rfl⟩ := List.exists_cons_of_ne_nil hne
    exact ⟨c, cs ++ tail, rfl, .inl (hdigits c List.mem_cons_self)⟩
  cases a with
  | number x =>
    obtain ⟨b, hb, hsign⟩ := Number.exists_of_isUnsigned h
    obtain ⟨whole, fraction, hplain, hne, hdigits, -⟩ := Number.exists_plain hb hsign
    rw [Atom.shown_number h, Atom.chars, hplain]
    exact ofDigits hne (List.forall_mem_append.mp hdigits).1
  | text s => exact ⟨'"', _, Atom.shown_text s, .inr (.inl rfl)⟩
  | boolean b =>
    rw [Atom.shown_boolean]
    exact ⟨_, ['b'], rfl, .inl (by cases b <;> rfl)⟩
  | date d =>
    rw [Atom.shown_date, Atom.chars, Date.toChars, Date.yearChars_eq h, List.append_assoc]
    exact ofDigits Date.padded_ne_nil fun c => Date.isDigit_of_mem_padded
  | symbol s => exact ⟨symbolMark, _, Atom.shown_symbol s, .inr (.inr rfl)⟩

end Lexer

namespace Value

def flatText : Value → String
  | .list items => listText items
  | v => v.literalText

theorem exists_display?_ofAtoms (as : List Atom) :
    ∃ line, (Value.ofAtoms as).display? = some line ∧ line.text = (Value.ofAtoms as).flatText := by
  match as with
  | [] => exact ⟨_, rfl, rfl⟩
  | [a] => cases a <;> exact ⟨_, rfl, rfl⟩
  | a :: b :: as => exact ⟨_, rfl, rfl⟩

theorem toList_flatText_list {as : List Atom} (h : as ≠ []) :
    (Value.list (as.map .atom)).flatText.toList =
      (if as.all fun a => (Value.atom a).isSymbol then [] else [' ']).intercalate
        (as.map Atom.shown) := by
  have hatoms : (as.map Value.atom).any (!·.isAtom) = false := by simp [Value.isAtom]
  have hall : (as.map Value.atom).all Value.isSymbol = as.all fun a => (Value.atom a).isSymbol := by
    rw [List.all_map]
    rfl
  have htexts : (as.map Value.atom).map Value.literalText =
      as.map fun a => (Value.atom a).literalText := List.map_map
  have hshown : (as.map fun a => (Value.atom a).literalText).map String.toList =
      as.map Atom.shown := List.map_map
  have hempty : (as.map Value.atom).isEmpty = false := by simpa using h
  simp only [flatText, listText, hempty, hatoms, hall, htexts, Bool.false_eq_true, if_false]
  rw [String.toList_intercalate, hshown]
  split <;> rfl

theorem exists_flatText_eq_append (a : Atom) (as : List Atom) :
    ∃ rest, (Value.ofAtoms (a :: as)).flatText.toList = a.shown ++ rest := by
  cases as with
  | nil => exact ⟨[], by rw [Value.ofAtoms, List.append_nil]; rfl⟩
  | cons b as =>
    have hlist : Value.ofAtoms (a :: b :: as) = .list ((a :: b :: as).map .atom) := rfl
    rw [hlist, toList_flatText_list (List.cons_ne_nil a _), List.map_cons, List.map_cons,
      List.intercalate_cons_cons, List.append_assoc]
    exact ⟨_, rfl⟩

theorem exists_flatText_eq_cons {as : List Atom} (h : ∀ a ∈ as, a.Legible) :
    ∃ c cs, (Value.ofAtoms as).flatText.toList = c :: cs ∧ isBlank c = false ∧
      isWordStart c = false ∧ (c = '(' → cs = [')']) := by
  cases as with
  | nil => exact ⟨'(', [')'], rfl, by decide, by decide +kernel, fun _ => rfl⟩
  | cons a as =>
    obtain ⟨c, cs, hshown, hstart⟩ := Lexer.exists_shown_eq_cons (h a List.mem_cons_self)
    obtain ⟨rest, htext⟩ := exists_flatText_eq_append a as
    rw [hshown, List.cons_append] at htext
    exact ⟨c, cs ++ rest, htext, hstart.not_isBlank, hstart.not_isWordStart,
      fun hparen => absurd hparen hstart.ne_paren⟩

end Value

namespace Lexer

/-- Symbols are shown without spaces: the mark of each ends the one in front of it. -/
theorem lexes_symbols {as : List Atom} (h : ∀ a ∈ as, a.Legible)
    (hsymbols : ∀ a ∈ as, (Value.atom a).isSymbol = true) :
    Lexes ([].intercalate (as.map Atom.shown)) (as.map .literal) := by
  have hapart : ∀ a ∈ as, ∀ rest, Apart ([] ++ (a.shown ++ rest)) := by
    intro a ha rest
    have hsymbol := hsymbols a ha
    cases a with
    | symbol s =>
      rw [Atom.shown_symbol]
      exact apart_cons (by decide) _
    | number | text | boolean | date => cases hsymbol
  have hread : Lexes ([].intercalate (as.map Atom.shown))
      ([].intercalate (as.map fun a => [.literal a])) :=
    .intercalate id hapart fun a ha => (reads_shown (h a ha)).lexes
  rwa [intercalate_singletons] at hread

theorem lexes_flatText {as : List Atom} (h : ∀ a ∈ as, a.Legible) :
    Lexes (Value.ofAtoms as).flatText.toList (Token.ofAtoms as) := by
  have list {as : List Atom} (hne : as ≠ []) (h : ∀ a ∈ as, a.Legible) :
      Lexes (Value.list (as.map .atom)).flatText.toList (as.map .literal) := by
    rw [Value.toList_flatText_list hne]
    split
    · rename_i hsymbols
      exact lexes_symbols h (List.all_eq_true.mp hsymbols)
    · exact lexes_spaced fun a ha => (reads_shown (h a ha)).lexes
  match as with
  | [] => rfl
  | [a] => exact (reads_shown (h a List.mem_cons_self)).lexes
  | a :: b :: as => exact list (List.cons_ne_nil a _) h

end Lexer

/-- Evaluating what is on display for a flat value gives the value, in every mode. -/
theorem evaluate_display {v : Value} (h : v.Legible) (settings : Settings) (symbols : Symbols) :
    ∃ line, v.display? = some line ∧
      evaluate settings symbols line.text = (.ok (.value v), symbols) := by
  obtain ⟨as, has, rfl⟩ := h.exists_ofAtoms
  obtain ⟨line, hline, hshown⟩ := Value.exists_display?_ofAtoms as
  obtain ⟨c, cs, htext, hblank, hword, hparen⟩ := Value.exists_flatText_eq_cons has
  have htokens := Token.ofText_of_lexes (Lexer.lexes_flatText has)
  refine ⟨line, hline, hshown ▸ evaluate_of_expression htext hblank hword htokens
    (fun source => Token.function_not_mem_ofAtoms source as) (Grammar.derives_ofAtoms 0 as)
    (by decide) (Expr.eval_ofAtoms _ as) fun rest hrest => ?_⟩
  rw [htext] at hrest
  cases hrest
  cases hparen rfl

theorem evaluate_display_mixed :
    let v := Value.list (([.text "select a, b: \x7bc", .text "x: ([] y", .symbol "", .symbol "a.1",
      .number 0.1, .number 1e21, .boolean true, .date ⟨7, 1, 31, by decide⟩, .text "", .number 0,
      .boolean false] : List Atom).map .atom)
    v.Legible ∧ ∃ line, v.display? = some line ∧
      v.display?.map (·.text) = some ("\"select a, b: \x7bc\" \"x: ([] y\" \x60 \x60a.1 0.1 " ++
        "1000000000000000000000 1b 0007.01.31 \"\" 0 0b") ∧
      evaluate {} Sample.symbols line.text = (.ok (.value v), Sample.symbols) := by
  intro v
  have hlegible : v.Legible := .list (by decide) (by decide +kernel)
  obtain ⟨line, hline, hevaluate⟩ := evaluate_display hlegible {} Sample.symbols
  exact ⟨hlegible, line, hline, by decide +kernel, hevaluate⟩

end TableConsole
