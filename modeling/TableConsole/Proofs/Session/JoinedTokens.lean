import TableConsole.Proofs.Session.JoinedLines
import TableConsole.Proofs.Syntax.Joining

/-! # Tokens of joined lines

Blanks between two texts keep their tokens apart, whatever the texts end and start with. So lines
that are joined with spaces have the tokens of the lines, one line after the other.
-/

namespace TableConsole

set_option autoImplicit false

open Text

namespace Lexer

variable {cs ds : List Char} {ts us : List Token}

theorem Lexes.blanks {gap : List Char} (hgap : ∀ b ∈ gap, isBlank b = true) (h : Lexes cs ts) :
    Lexes (gap ++ cs) ts := by
  induction gap with
  | nil => exact h
  | cons b gap ih =>
    obtain ⟨hb, hgap⟩ := List.forall_mem_cons.mp hgap
    exact (ih hgap).blank hb

/-- A gap ends each lexeme in front of it: no reader looks across a blank. -/
theorem Lexes.append_blanks {gap : List Char} (hne : gap ≠ []) (hgap : ∀ b ∈ gap, isBlank b = true)
    (h : Lexes cs ts) (hds : Lexes ds us) : Lexes (cs ++ (gap ++ ds)) (ts ++ us) := by
  refine h.append (hds.blanks hgap) ?_
  obtain ⟨b, gap, rfl⟩ := List.exists_cons_of_ne_nil hne
  exact apart_cons (isBreak_of_isBlank (hgap b List.mem_cons_self)) (gap ++ ds)

theorem Lexes.spaced {tokens : Statement.Line → List Token} {group : List Statement.Line}
    (h : ∀ line ∈ group, Lexes line (tokens line)) :
    Lexes (Statement.spaced group) (group.flatMap tokens) := by
  induction group with
  | nil => exact .nil
  | cons line group ih =>
    obtain ⟨hline, hgroup⟩ := List.forall_mem_cons.mp h
    cases group with
    | nil => simpa [Statement.spaced] using hline
    | cons next group =>
      have hjoined :=
        hline.append_blanks (List.cons_ne_nil ' ' []) (List.all_eq_true.mp rfl) (ih hgroup)
      simpa [Statement.spaced] using hjoined

end Lexer

open Lexer

theorem Token.lexes_of_ofText {s : String} {ts : List Token} (h : Token.ofText s = .ok ts) :
    Lexes s.toList ts :=
  Except.mapError_eq_ok_iff.mp h

theorem Token.ofText_append_blanks {a b gap : String} {ts us : List Token}
    (ha : Token.ofText a = .ok ts) (hb : Token.ofText b = .ok us) (hne : gap ≠ "")
    (hgap : ∀ c ∈ gap.toList, isBlank c = true) :
    Token.ofText (a ++ gap ++ b) = .ok (ts ++ us) := by
  have hne : gap.toList ≠ [] := by simpa using hne
  apply Token.ofText_of_lexes
  rw [String.toList_append, String.toList_append, List.append_assoc]
  exact (Token.lexes_of_ofText ha).append_blanks hne hgap (Token.lexes_of_ofText hb)

/-- Two texts with a space or other blanks between them have the tokens of the one and then those of
the other. So if each line of a source can be read, each statement that the lines are joined to has
the tokens of its group of lines. -/
theorem tokens_of_joined :
    (∀ a b ts us, Token.ofText a = .ok ts → Token.ofText b = .ok us →
      Token.ofText (a ++ " " ++ b) = .ok (ts ++ us) ∧
      ∀ gap : String, gap ≠ "" → (∀ c ∈ gap.toList, isBlank c = true) →
        Token.ofText (a ++ gap ++ b) = .ok (ts ++ us)) ∧
    ∀ (lines : List Statement.Line) (tokens : Statement.Line → List Token),
      (∀ line ∈ lines, Token.ofText (String.ofList line) = .ok (tokens line)) →
      ∃ groups, Statement.Grouped lines groups ∧
        (Statement.joinLines lines).map (Token.ofText ∘ String.ofList) =
          groups.map fun group => .ok (group.flatMap tokens) := by
  constructor
  · intro a b ts us ha hb
    have hgap (gap : String) := @Token.ofText_append_blanks a b gap ts us ha hb
    exact ⟨hgap " " (by decide) (List.all_eq_true.mp rfl), hgap⟩
  · intro lines tokens hlines
    obtain ⟨groups, hgroups, hjoined⟩ := Statement.exists_grouped lines
    refine ⟨groups, hgroups, ?_⟩
    rw [hjoined, List.map_map]
    refine List.map_congr_left fun group hgroup => Token.ofText_of_lexes ?_
    rw [String.toList_ofList]
    refine Lexes.spaced fun line hline => ?_
    have hmem : line ∈ lines := hgroups.flatten ▸ List.mem_flatten_of_mem hgroup hline
    simpa using Token.lexes_of_ofText (hlines line hmem)

/-- A number and a word that would run together to a boolean, and two lines of a call. -/
theorem tokens_of_joined_apart :
    (∃ ts us, Token.ofText "a<1" = .ok ts ∧ Token.ofText "b>=0" = .ok us ∧
      Token.ofText ("a<1" ++ " " ++ "b>=0") = .ok (ts ++ us) ∧
      Token.ofText ("a<1" ++ "\t\n" ++ "b>=0") = .ok (ts ++ us)) ∧
    ∃ groups, Statement.Grouped ["f[x;".toList, "`s]".toList] groups ∧
      (Statement.joinLines ["f[x;".toList, "`s]".toList]).map (Token.ofText ∘ String.ofList) =
        groups.map fun group =>
          .ok (group.flatMap fun line => ((Token.ofText (String.ofList line)).toOption.getD [])) := by
  have reads {s : String} (h : (Token.ofText s).toOption.isSome = true) :
      Token.ofText s = .ok ((Token.ofText s).toOption.getD []) := by
    obtain ⟨ts, hts⟩ := Option.isSome_iff_exists.mp h
    rw [hts, Except.toOption_eq_some_iff.mp hts, Option.getD_some]
  constructor
  · have ha := reads (s := "a<1") (by decide +kernel)
    have hb := reads (s := "b>=0") (by decide +kernel)
    obtain ⟨hspace, hgap⟩ := tokens_of_joined.1 _ _ _ _ ha hb
    exact ⟨_, _, ha, hb, hspace, hgap "\t\n" (by decide) (List.all_eq_true.mp rfl)⟩
  · refine tokens_of_joined.2 ["f[x;".toList, "`s]".toList]
      (fun line => (Token.ofText (String.ofList line)).toOption.getD []) ?_
    intro line hline
    refine reads ?_
    have hall : ∀ line ∈ ["f[x;".toList, "`s]".toList],
        (Token.ofText (String.ofList line)).toOption.isSome = true := by decide +kernel
    exact hall line hline

end TableConsole
