import TableConsole.Proofs.Syntax.Lexeme
import TableConsole.Proofs.Text.Blank

/-! # Identifiers

An identifier is one word of the language: its lexeme ends where it ends, and its token is a name
unless the language keeps the word for itself.
-/

namespace TableConsole

set_option autoImplicit false

open Text

theorem exists_cons_of_isIdentifier {cs : List Char} (h : isIdentifier cs = true) :
    ∃ c ds, cs = c :: ds ∧ isWordStart c = true ∧ ∀ d ∈ cs, isWordChar d = true := by
  cases cs with
  | nil => cases h
  | cons c ds =>
    exact ⟨c, ds, rfl, (Bool.and_eq_true_iff.mp h).1, Lexer.isWordChar_of_isIdentifier h⟩

theorem isIdentifier_trim {cs : List Char} (h : isIdentifier cs = true) : trim cs = cs := by
  obtain ⟨_, _, -, -, hword⟩ := exists_cons_of_isIdentifier h
  exact trim_of_not_blank fun c hc => isBlank_of_isWordChar (hword c hc)

theorem not_mem_of_isIdentifier {cs : List Char} (h : isIdentifier cs = true) {c : Char}
    (hc : isWordChar c = false) : c ∉ cs := by
  obtain ⟨_, _, -, -, hword⟩ := exists_cons_of_isIdentifier h
  intro hmem
  rw [hword c hmem] at hc
  cases hc

/-- The words that the language keeps for itself, in capitals as well as in small letters. -/
def keywords : List String :=
  ["select", "by", "from", "where", "in", "wavg", "true", "false"]

theorem wordToken_of_not_keyword {word : List Char}
    (h : String.ofList (word.map Char.toLower) ∉ keywords) :
    Lexer.wordToken word = .name (String.ofList word) := by
  unfold Lexer.wordToken
  split <;> simp_all [keywords]

namespace Lexer

section Identifier

variable {word tail : List Char} (hword : isIdentifier word = true)
  (htail : startsWordChar tail = false)

include hword htail

theorem readWord_identifier : readWord (word ++ tail) = (wordToken word, tail) := by
  have hchars := isWordChar_of_isIdentifier hword
  have hstop : tail.takeWhile isWordChar = [] ∧ tail.dropWhile isWordChar = tail := by
    cases tail with
    | nil => exact ⟨rfl, rfl⟩
    | cons d tail => simpa [startsWordChar] using htail
  rw [readWord, List.takeWhile_append_of_pos hchars, List.dropWhile_append_of_pos hchars, hstop.1,
    hstop.2, List.append_nil]

theorem read_identifier :
    ∃ c cs, word = c :: cs ∧ isBlank c = false ∧
      read c (cs ++ tail) = .ok (wordToken word, tail) := by
  have hread := readWord_identifier hword htail
  obtain ⟨c, cs, rfl, hc, -⟩ := exists_cons_of_isIdentifier hword
  rw [List.cons_append] at hread
  refine ⟨c, cs, rfl, isBlank_of_isWordChar (isWordChar_of_isWordStart hc), ?_⟩
  rw [read_of_isWordStart hc, hread]

theorem readAll_identifier (limit : Nat) :
    readAll (limit + 1) (word ++ tail) = (readAll limit tail).map (wordToken word :: ·) := by
  obtain ⟨c, cs, rfl, hblank, hread⟩ := read_identifier hword htail
  rw [List.cons_append, readAll, dropBlank_eq_self hblank]
  simp only [hread, Except.ok_bind]
  cases readAll limit tail <;> rfl

end Identifier

end Lexer

end TableConsole
