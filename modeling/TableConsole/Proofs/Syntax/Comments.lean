import TableConsole.Proofs.Syntax.Joining
import TableConsole.Proofs.Text.Lines

/-! # Comments and string literals

Comments are stripped by a scanner that knows nothing of tokens. On a text that can be read it sees
the string literals that the readers see, those inside function literals included: with all of them
covered, place by place, the text looks the same to both. So a comment is cut off exactly at its
slashes, and slashes in string literals are no comment.
-/

namespace TableConsole

set_option autoImplicit false

open Text

namespace Lexer

/-- Quotes in place of the characters of string literals, from outside or from inside of one. A
backslash in a literal hides the character behind it. -/
def coverStrings : Bool → List Char → List Char
  | _, [] => []
  | false, c :: cs => c :: coverStrings (c == '"') cs
  | true, '\\' :: _ :: cs => '"' :: '"' :: coverStrings true cs
  | true, c :: cs => '"' :: coverStrings (c != '"') cs

def coverLexeme : Token → List Char → List Char
  | .literal (.text _), word => List.replicate word.length '"'
  | .function _, word => coverStrings false word
  | _, word => word

def coverLexemes : Nat → List Char → List Char
  | 0, cs => cs
  | limit + 1, cs =>
    match dropBlank cs with
    | [] => cs
    | c :: ds =>
      match read c ds with
      | .ok (t, rest) =>
        cs.takeWhile isBlank ++ coverLexeme t (c :: ds.take (ds.length - rest.length)) ++
          coverLexemes limit rest
      | .error _ => cs

def covered (cs : List Char) : List Char :=
  coverLexemes cs.length cs

end Lexer

namespace Text

/-- Quotes in place of the characters that do not stand in code. -/
def coverFrom : Quoting → List Char → List Char
  | _, [] => []
  | q, c :: cs => (if q = .code then c else '"') :: coverFrom (q.next c) cs

section Cover

variable {q : Quoting} {cs : List Char}

theorem coverFrom_append (q : Quoting) (cs ds : List Char) :
    coverFrom q (cs ++ ds) = coverFrom q cs ++ coverFrom (q.after cs) ds := by
  induction cs generalizing q with
  | nil => rfl
  | cons c cs ih => simp [coverFrom, ih]

theorem coverFrom_code_of_inert (h : ∀ c ∈ cs, isInert c = true) : coverFrom .code cs = cs := by
  induction cs with
  | nil => rfl
  | cons c cs ih =>
    obtain ⟨hc, hcs⟩ := List.forall_mem_cons.mp h
    rw [coverFrom, if_pos rfl, Quoting.next, if_neg (isInert_iff.mp hc).1, ih hcs]

theorem beforeComment_eq_self_iff :
    beforeComment q cs = cs ↔ ¬ ['/', '/'] <:+: coverFrom q cs := by
  induction cs generalizing q with
  | nil => simp [beforeComment, coverFrom]
  | cons c cs ih =>
    have hstart : ['/', '/'] <+: coverFrom q (c :: cs) ↔
        q = .code ∧ c = '/' ∧ cs.head? = some '/' := by
      by_cases hc : q = .code ∧ c = '/'
      · obtain ⟨rfl, rfl⟩ := hc
        cases cs <;> simp [coverFrom, Quoting.next, eq_comm]
      · rw [coverFrom]
        grind
    have hcover : ['/', '/'] <:+: coverFrom q (c :: cs) ↔
        ['/', '/'] <+: coverFrom q (c :: cs) ∨ ['/', '/'] <:+: coverFrom (q.next c) cs :=
      List.infix_cons_iff
    rw [hcover, hstart, not_or, ← ih, beforeComment]
    split <;> simp_all

/-- Two slashes behind such a text are the first, unless a third one stands in front of them. -/
theorem beforeComment_append (h : beforeComment q cs = cs) (hcode : q.after cs = .code)
    (hlast : cs.getLast? ≠ some '/') (ds : List Char) :
    beforeComment q (cs ++ '/' :: '/' :: ds) = cs := by
  induction cs generalizing q with
  | nil =>
    obtain rfl : q = .code := hcode
    rfl
  | cons c cs ih =>
    rw [beforeComment] at h
    split at h
    · cases h
    · rename_i hc
      have hrest : beforeComment (q.next c) cs = cs := (List.cons_inj_right c).mp h
      have hnone : ¬ (q = .code ∧ c = '/' ∧ (cs ++ '/' :: '/' :: ds).head? = some '/') := by
        cases cs with
        | nil => simp_all
        | cons d cs => exact hc
      have hlast : cs.getLast? ≠ some '/' := by
        cases cs with
        | nil => simp
        | cons d cs => simpa using hlast
      rw [List.cons_append, beforeComment, if_neg hnone, ih hrest hcode hlast]

end Cover

end Text

namespace Lexer

variable {c : Char} {cs rest : List Char}

theorem coverFrom_quoted {body : List Char} (h : textBody cs = .ok (body, [])) :
    coverFrom .quoted cs = List.replicate cs.length '"' := by
  fun_induction textBody cs generalizing body with
  | case1 | case3 | case4 => cases h
  | case2 cs =>
    cases h
    rfl
  | case5 e cs x _ _ ih =>
    obtain ⟨⟨body', _⟩, hread, heq⟩ := Except.map_eq_ok_iff.mp h
    cases heq
    have hslash : Quoting.quoted.next '\\' = .escaped := rfl
    have hescaped : Quoting.escaped.next e = .quoted := rfl
    simp [coverFrom, hslash, hescaped, ih hread, List.replicate_succ]
  | case6 c cs hquote hslash ih =>
    obtain ⟨⟨body', _⟩, hread, heq⟩ := Except.map_eq_ok_iff.mp h
    cases heq
    have hnext : Quoting.quoted.next c = .quoted := by simp [Quoting.next, hquote, hslash]
    simp [coverFrom, hnext, ih hread, List.replicate_succ]

theorem coverStrings_eq (inside : Bool) (cs : List Char) :
    coverStrings inside cs = coverFrom (if inside then .quoted else .code) cs := by
  fun_induction coverStrings inside cs with
  | case1 => rfl
  | case2 c cs ih =>
    rw [ih]
    by_cases hc : c = '"' <;> simp [coverFrom, Quoting.next, hc]
  | case3 e cs ih => simp [coverFrom, Quoting.next, ih]
  | case4 c cs hslash ih =>
    rw [ih]
    by_cases hc : c = '"'
    · simp [coverFrom, Quoting.next, hc]
    · by_cases hback : c = '\\'
      · cases cs with
        | nil => rfl
        | cons e cs => exact absurd rfl (hslash e cs hback)
      · simp [coverFrom, Quoting.next, hc, hback]

theorem coverLexeme_wordToken (word cs : List Char) : coverLexeme (wordToken word) cs = cs := by
  unfold wordToken
  split <;> rfl

theorem readNumber_ne_text (cs rest : List Char) (s : String) :
    readNumber cs ≠ .ok (.literal (.text s), rest) := by
  unfold readNumber
  dsimp only
  split
  · nofun
  split
  · nofun
  split
  · split <;> nofun
  · nofun

theorem eq_quote_of_read {s : String} (h : read c cs = .ok (.literal (.text s), rest)) :
    c = '"' := by
  by_contra hquote
  unfold read at h
  split at h
  · unfold readLess at h
    split at h <;> cases h
  split at h
  · unfold readGreater at h
    split at h <;> cases h
  split at h
  · cases h
  split at h
  · unfold readFunction at h
    split at h <;> cases h
  split at h
  · cases h
  split at h
  · exact readNumber_ne_text _ _ _ h
  split at h
  · have hword : wordToken _ = Token.literal (.text s) := congrArg Prod.fst (Except.ok.inj h)
    unfold wordToken at hword
    split at hword <;> cases hword
  · cases h

theorem cover_read {t : Token} (h : read c cs = .ok (t, rest)) :
    ∃ word, cs = word ++ rest ∧ Quoting.code.after (c :: word) = .code ∧
      coverLexeme t (c :: word) = coverFrom .code (c :: word) := by
  obtain ⟨word, rfl, hword⟩ := read_word h
  refine ⟨word, rfl, hword.spells.ends, ?_⟩
  generalize hlexeme : c :: word = lexeme at hword
  cases hword with
  | less | notEqual | lessEqual | greater | greaterEqual | punctuation => rfl
  | @text cs _ hbody =>
    have hcover : coverFrom .code ('"' :: cs) = '"' :: coverFrom .quoted cs := rfl
    rw [hcover, coverFrom_quoted hbody]
    rfl
  | symbol hcs =>
    have hinert := fun c hc => isInert_of_isSymbolChar (hcs c hc)
    exact (coverFrom_code_of_inert (List.forall_mem_cons.mpr ⟨by decide, hinert⟩)).symm
  | function hbody => exact coverStrings_eq false _
  | numeric a hword =>
    have hinert := fun c hc => isInert_of_isNumeric (hword c hc)
    rw [coverFrom_code_of_inert hinert]
    cases a with
    | text s =>
      obtain rfl := eq_quote_of_read h
      have hquote := hword '"' (hlexeme ▸ List.mem_cons_self)
      cases hquote
    | number | boolean | date | symbol => rfl
  | identifier hword =>
    have hinert := fun c hc => isInert_of_isWordChar (isWordChar_of_isIdentifier hword c hc)
    rw [coverFrom_code_of_inert hinert, coverLexeme_wordToken]

theorem coverLexemes_eq {limit : Nat} {ts : List Token} (hlimit : cs.length ≤ limit)
    (h : readAll limit cs = .ok ts) :
    coverLexemes limit cs = coverFrom .code cs ∧ Quoting.code.after cs = .code := by
  induction limit generalizing cs ts with
  | zero =>
    obtain rfl := List.length_eq_zero_iff.mp (Nat.le_zero.mp hlimit)
    exact ⟨rfl, rfl⟩
  | succ limit ih =>
    rw [readAll] at h
    have hcs : cs.takeWhile isBlank ++ dropBlank cs = cs := List.takeWhile_append_dropWhile
    have hblank : ∀ b ∈ cs.takeWhile isBlank, isInert b = true :=
      fun b hb => isInert_of_isBlank (List.mem_takeWhile_imp hb)
    split at h
    · rename_i hnil
      rw [hnil, List.append_nil] at hcs
      rw [hcs] at hblank
      simp only [coverLexemes, hnil]
      exact ⟨(coverFrom_code_of_inert hblank).symm, after_code_of_inert hblank⟩
    · rename_i c ds hcons
      obtain ⟨⟨t, rest⟩, hread, h⟩ := Except.bind_eq_ok_iff.mp h
      obtain ⟨ts', hts', h⟩ := Except.bind_eq_ok_iff.mp h
      obtain ⟨word, rfl, hcode, hcover⟩ := cover_read hread
      rw [hcons] at hcs
      have hrest : rest.length ≤ limit := by
        rw [← hcs] at hlimit
        simp only [List.length_append, List.length_cons] at hlimit
        omega
      obtain ⟨hcoverRest, hcodeRest⟩ := ih hrest hts'
      have hword : (word ++ rest).take ((word ++ rest).length - rest.length) = word := by
        rw [List.length_append, Nat.add_sub_cancel, List.take_left]
      simp only [coverLexemes, hcons, hread, hword]
      rw [← List.cons_append, ← List.append_assoc] at hcs
      generalize cs.takeWhile isBlank = blanks at hcs hblank ⊢
      subst hcs
      simp only [coverFrom_append, Quoting.after_append, coverFrom_code_of_inert hblank,
        after_code_of_inert hblank, hcode, hcover, hcoverRest, hcodeRest, and_self]

end Lexer

open Lexer

/-- The slashes of a text that can be read start a comment exactly if they are next to each other
outside of string literals. Behind a text where they do not, and that does not end in a slash, a
comment is stripped as it was added, whatever stands in it, and leaves the tokens of the text. -/
theorem stripComment_agrees {a : String} {ts : List Token} (ha : Token.ofText a = .ok ts) :
    (stripComment a.toList = a.toList ↔ ¬ ['/', '/'] <:+: covered a.toList) ∧
      (¬ ['/', '/'] <:+: covered a.toList → a.toList.getLast? ≠ some '/' → ∀ c : String,
        stripComment (a ++ "//" ++ c).toList = a.toList ∧
          Token.ofText (String.ofList (stripComment (a ++ "//" ++ c).toList)) = .ok ts) := by
  obtain ⟨hcover, hcode⟩ := coverLexemes_eq le_rfl (Except.mapError_eq_ok_iff.mp ha)
  have hiff : stripComment a.toList = a.toList ↔ ¬ ['/', '/'] <:+: covered a.toList := by
    rw [covered, hcover]
    exact beforeComment_eq_self_iff
  refine ⟨hiff, fun hslash hlast c => ?_⟩
  have hstrip : stripComment (a ++ "//" ++ c).toList = a.toList := by
    rw [String.toList_append, String.toList_append, List.append_assoc]
    exact beforeComment_append (hiff.mpr hslash) hcode hlast c.toList
  exact ⟨hstrip, by rw [hstrip, String.ofList_toList, ha]⟩

/-- Slashes in a string literal, behind an escaped quote, in a function literal and around a string
literal, and a comment with a quote in it. -/
theorem stripComment_agrees_literals :
    let a := "f[\"//\\\"//\"; \x7bx/\"\\//\"/y\x7d; z/\"\"/1]"
    ∃ ts, Token.ofText a = .ok ts ∧ ¬ ['/', '/'] <:+: covered a.toList ∧
      a.toList.getLast? ≠ some '/' ∧ stripComment a.toList = a.toList ∧
      stripComment (a ++ "//" ++ " \" / // \x7d").toList = a.toList ∧
      Token.ofText (String.ofList (stripComment (a ++ "//" ++ " \" / // \x7d").toList)) = .ok ts := by
  intro a
  obtain ⟨ts, hts⟩ := Option.isSome_iff_exists.mp
    (show (Token.ofText a).toOption.isSome = true by decide +kernel)
  have ha : Token.ofText a = .ok ts := Except.toOption_eq_some_iff.mp hts
  have hslash : ¬ ['/', '/'] <:+: covered a.toList := by decide +kernel
  have hlast : a.toList.getLast? ≠ some '/' := by decide +kernel
  obtain ⟨hiff, hcomment⟩ := stripComment_agrees ha
  obtain ⟨hstrip, htokens⟩ := hcomment hslash hlast " \" / // \x7d"
  exact ⟨ts, ha, hslash, hlast, hiff.mpr hslash, hstrip, htokens⟩

end TableConsole
