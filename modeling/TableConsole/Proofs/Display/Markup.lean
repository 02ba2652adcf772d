import Mathlib.Data.List.DropRight
import TableConsole.Display.Line

/-! # Markup of display lines

The markup of a line is its text, written character by character between two runs of tags that
depend on the style alone. In the text no tag is opened or closed but that of a line break, and no
character is lost: the line can be read back from its markup, the style from the tags in front, the
text from what stands behind them.
-/

namespace TableConsole

set_option autoImplicit false

namespace Style

def openingTags : Style → String
  | .prompt => "<div class=\"text-white\"><span class=\"text-[#0078d4]\">q) </span>"
  | .value => "<div class=\"text-white\">"
  | .table => "<div class=\"text-white\"><pre>"
  | .text => "<div class=\"text-[#ce9178]\">"
  | .comment => "<div class=\"text-[#6A9955]\">"
  | .error => "<div class=\"text-[#d83b01]\">"

def closingTags : Style → String
  | .table => "</pre></div>"
  | _ => "</div>"

def keepsBreaks : Style → Bool
  | .prompt | .table => true
  | _ => false

def write (style : Style) : Char → List Char :=
  if style.keepsBreaks then DisplayLine.escapedChar else DisplayLine.breakChar

def writeAll (style : Style) (cs : List Char) : List Char :=
  cs.flatMap style.write

end Style

namespace DisplayLine

def body (line : DisplayLine) : List Char :=
  line.style.writeAll line.text.toList

theorem toList_markup (line : DisplayLine) :
    line.markup.toList =
      line.style.openingTags.toList ++ (line.body ++ line.style.closingTags.toList) := by
  obtain ⟨style, text⟩ := line
  cases style <;>
    simp [markup, body, escaped, escapedBreaks, opening, Style.openingTags, Style.closingTags,
      Style.writeAll, Style.write, Style.keepsBreaks, Style.cssClass]

end DisplayLine

namespace Style

def isSpecial (c : Char) : Bool :=
  c == '&' || c == '<' || c == '>' || c == '"'

def entities : List (Char × List Char) :=
  [('&', ['&', 'a', 'm', 'p', ';']), ('<', ['&', 'l', 't', ';']), ('>', ['&', 'g', 't', ';']),
    ('"', ['&', 'q', 'u', 'o', 't', ';'])]

def breakTag : List Char :=
  ['<', 'b', 'r', '>']

theorem write_cases (style : Style) (c : Char) :
    (c, style.write c) ∈ entities ∨
      (style.keepsBreaks = false ∧ c = '\n' ∧ style.write c = breakTag) ∨
        isSpecial c = false ∧ style.write c = [c] := by
  have hescaped : (c, DisplayLine.escapedChar c) ∈ entities ∨
      isSpecial c = false ∧ DisplayLine.escapedChar c = [c] := by
    simp only [DisplayLine.escapedChar]
    split_ifs with hamp hlt hgt hquot
    iterate 4 exact .inl (by simp [entities, *])
    exact .inr ⟨by simp [isSpecial, hamp, hlt, hgt, hquot], rfl⟩
  rw [write]
  split
  · exact hescaped.imp_right .inr
  · rename_i hkeeps
    rw [DisplayLine.breakChar]
    split
    · rename_i hbreak
      exact .inr (.inl ⟨by simpa using hkeeps, hbreak, rfl⟩)
    · exact hescaped.imp_right .inr

theorem exists_cons_of_entity {entity : Char × List Char} (h : entity ∈ entities) :
    ∃ tail, entity.2 = '&' :: tail ∧ ∀ c ∈ tail, isSpecial c = false := by
  simp only [entities, List.mem_cons, List.not_mem_nil, or_false] at h
  obtain rfl | rfl | rfl | rfl := h <;> exact ⟨_, rfl, by simp [isSpecial]⟩

section Places

variable {style : Style} {c d : Char} {cs before behind front rest : List Char}

theorem special_of_breakTag (h : breakTag = front ++ d :: rest) (hd : isSpecial d = true) :
    (d = '<' ∧ front = [] ∧ rest = ['b', 'r', '>']) ∨
      d = '>' ∧ front = ['<', 'b', 'r'] ∧ rest = [] := by
  -- On the place of the character in the tag.
  simp only [breakTag, List.cons_eq_append_iff] at h
  obtain ⟨rfl, h⟩ | ⟨_, rfl, ⟨rfl, h⟩ | ⟨_, rfl, ⟨rfl, h⟩ | ⟨_, rfl, ⟨rfl, h⟩ | ⟨_, rfl, h⟩⟩⟩⟩ := h
  · cases h
    exact .inl ⟨rfl, rfl, rfl⟩
  · cases h
    cases hd
  · cases h
    cases hd
  · cases h
    exact .inr ⟨rfl, rfl, rfl⟩
  · simp at h

/-- A special character in what is written for one character starts an entity, or it is an end of
the tag of a line break. -/
theorem special_of_write (h : style.write c = front ++ d :: rest) (hd : isSpecial d = true) :
    (d = '&' ∧ front = [] ∧ (c, '&' :: rest) ∈ entities) ∨
      style.keepsBreaks = false ∧ c = '\n' ∧
        ((d = '<' ∧ front = [] ∧ rest = ['b', 'r', '>']) ∨
          d = '>' ∧ front = ['<', 'b', 'r'] ∧ rest = []) := by
  obtain hentity | ⟨hkeeps, hc, htag⟩ | ⟨hc, hplain⟩ := style.write_cases c
  · obtain ⟨tail, htail, hplain⟩ := exists_cons_of_entity hentity
    rw [h] at hentity htail
    cases front with
    | nil =>
      obtain ⟨rfl, rfl⟩ := List.cons.inj htail
      exact .inl ⟨rfl, rfl, hentity⟩
    | cons e front =>
      have hmem : d ∈ tail := by simp [← (List.cons.inj htail).2]
      simp [hplain d hmem] at hd
  · exact .inr ⟨hkeeps, hc, special_of_breakTag (htag.symm.trans h) hd⟩
  · rw [hplain] at h
    obtain ⟨rfl, hnil⟩ | ⟨front, rfl, h⟩ := List.cons_eq_append_iff.mp h
    · cases hnil
      simp [hc] at hd
    · simp at h

theorem exists_of_writeAll_eq (h : style.writeAll cs = before ++ d :: behind) :
    ∃ first c second front rest, cs = first ++ c :: second ∧ style.write c = front ++ d :: rest ∧
      before = style.writeAll first ++ front ∧ behind = rest ++ style.writeAll second := by
  induction cs generalizing before with
  | nil => simp [writeAll] at h
  | cons c cs ih =>
    rw [writeAll, List.flatMap_cons, ← writeAll, List.append_eq_append_iff] at h
    obtain ⟨before, rfl, h⟩ | ⟨ends, hc, h⟩ := h
    · obtain ⟨first, e, second, front, rest, rfl, he, rfl, rfl⟩ := ih h
      exact ⟨c :: first, e, second, front, rest, rfl, he, by simp [writeAll], rfl⟩
    · cases ends with
      | nil =>
        have h : style.writeAll cs = [] ++ d :: behind := h.symm
        obtain ⟨first, e, second, front, rest, rfl, he, hnil, rfl⟩ := ih h
        rw [List.append_nil] at hc
        refine ⟨c :: first, e, second, front, rest, rfl, he, ?_, rfl⟩
        rw [writeAll, List.flatMap_cons, ← writeAll, List.append_assoc, ← hnil, List.append_nil, hc]
      | cons _ rest =>
        obtain ⟨rfl, rfl⟩ := List.cons.inj h
        exact ⟨[], c, cs, before, rest, rfl, hc, rfl, rfl⟩

end Places

end Style

namespace DisplayLine

/-- A line break of the text is written as a tag, with these parts of the body around it. -/
def BreakBetween (line : DisplayLine) (before behind : List Char) : Prop :=
  line.style.keepsBreaks = false ∧
    ∃ first second, line.text.toList = first ++ '\n' :: second ∧
      before = line.style.writeAll first ∧ behind = line.style.writeAll second

/-- The text stays between the tags of its style. -/
structure Contained (line : DisplayLine) : Prop where
  markup_eq : line.markup =
    line.style.openingTags ++ String.ofList line.body ++ line.style.closingTags
  quote : '"' ∉ line.body
  less : ∀ before behind, line.body = before ++ '<' :: behind →
    ∃ rest, behind = ['b', 'r', '>'] ++ rest ∧ line.BreakBetween before rest
  greater : ∀ before behind, line.body = before ++ '>' :: behind →
    ∃ front, before = front ++ ['<', 'b', 'r'] ∧ line.BreakBetween front behind
  ampersand : ∀ before behind, line.body = before ++ '&' :: behind →
    ∃ entity ∈ Style.entities, entity.2 <+: '&' :: behind

theorem special_of_body {line : DisplayLine} {before behind : List Char} {d : Char}
    (h : line.body = before ++ d :: behind) (hd : Style.isSpecial d = true) :
    (d = '&' ∧ ∃ entity ∈ Style.entities, entity.2 <+: '&' :: behind) ∨
      (d = '<' ∧ ∃ rest, behind = ['b', 'r', '>'] ++ rest ∧ line.BreakBetween before rest) ∨
        d = '>' ∧ ∃ front, before = front ++ ['<', 'b', 'r'] ∧ line.BreakBetween front behind := by
  obtain ⟨first, c, second, front, rest, htext, hwrite, rfl, rfl⟩ := Style.exists_of_writeAll_eq h
  obtain ⟨rfl, rfl, hentity⟩ | ⟨hkeeps, rfl, hends⟩ := Style.special_of_write hwrite hd
  · exact .inl ⟨rfl, _, hentity, List.prefix_append _ _⟩
  · have hbreak : line.BreakBetween (line.style.writeAll first) (line.style.writeAll second) :=
      ⟨hkeeps, first, second, htext, rfl, rfl⟩
    obtain ⟨rfl, rfl, rfl⟩ | ⟨rfl, rfl, rfl⟩ := hends
    · exact .inr (.inl ⟨rfl, _, rfl, by simpa using hbreak⟩)
    · exact .inr (.inr ⟨rfl, _, rfl, hbreak⟩)

theorem contained (line : DisplayLine) : line.Contained where
  markup_eq := by
    rw [← String.toList_inj, toList_markup]
    simp
  quote hquote := by
    obtain ⟨before, behind, h⟩ := List.append_of_mem hquote
    simpa using special_of_body h rfl
  less before behind h := by simpa using special_of_body h rfl
  greater before behind h := by simpa using special_of_body h rfl
  ampersand before behind h := by simpa using special_of_body h rfl

def readText : List Char → List Char
  | '&' :: 'a' :: 'm' :: 'p' :: ';' :: cs => '&' :: readText cs
  | '&' :: 'l' :: 't' :: ';' :: cs => '<' :: readText cs
  | '&' :: 'g' :: 't' :: ';' :: cs => '>' :: readText cs
  | '&' :: 'q' :: 'u' :: 'o' :: 't' :: ';' :: cs => '"' :: readText cs
  | '<' :: 'b' :: 'r' :: '>' :: cs => '\n' :: readText cs
  | c :: cs => c :: readText cs
  | [] => []

theorem readText_cons {c : Char} (h : Style.isSpecial c = false) (cs : List Char) :
    readText (c :: cs) = c :: readText cs := by
  rw [readText] <;> rintro _ rfl <;> cases h

theorem readText_entity {entity : Char × List Char} (h : entity ∈ Style.entities)
    (cs : List Char) : readText (entity.2 ++ cs) = entity.1 :: readText cs := by
  simp only [Style.entities, List.mem_cons, List.not_mem_nil, or_false] at h
  obtain rfl | rfl | rfl | rfl := h <;> rfl

theorem readText_write (style : Style) (c : Char) (cs : List Char) :
    readText (style.write c ++ cs) = c :: readText cs := by
  obtain hentity | ⟨-, rfl, htag⟩ | ⟨hc, hplain⟩ := style.write_cases c
  · exact readText_entity hentity cs
  · rw [htag]
    rfl
  · rw [hplain]
    exact readText_cons hc cs

theorem readText_writeAll (style : Style) (cs : List Char) : readText (style.writeAll cs) = cs := by
  induction cs with
  | nil => rfl
  | cons c cs ih => rw [Style.writeAll, List.flatMap_cons, ← Style.writeAll, readText_write, ih]

/-- What stands behind the opening tags does not look like a further opening tag. -/
theorem not_isPrefixOf_body (line : DisplayLine) {c : Char} (hbreak : c ≠ 'b') (hclosing : c ≠ '/')
    (cs rest : List Char) :
    ('<' :: c :: cs).isPrefixOf (line.body ++ '<' :: '/' :: rest) = false := by
  cases hbody : line.body with
  | nil => simp [List.isPrefixOf, hclosing]
  | cons d ds =>
    by_cases hd : d = '<'
    · obtain ⟨behind, hds, -⟩ := line.contained.less [] ds (by rw [hbody, hd]; rfl)
      simp [List.isPrefixOf, hds, hbreak]
    · simp [List.isPrefixOf, Ne.symm hd]

/-- The style with these opening tags. Those with inner tags come before the one that shares their
class. -/
def style? (markup : List Char) : Option Style :=
  [.prompt, .table, .value, .text, .comment, .error].find?
    fun style : Style => style.openingTags.toList.isPrefixOf markup

theorem style?_markup (line : DisplayLine) : style? line.markup.toList = some line.style := by
  rw [toList_markup]
  obtain ⟨style, text⟩ := line
  cases style with
  | value => simp [style?, Style.openingTags, Style.closingTags, not_isPrefixOf_body]
  | prompt | table | text | comment | error => simp [style?, Style.openingTags]

def ofMarkup? (markup : List Char) : Option DisplayLine :=
  (style? markup).map fun style =>
    ⟨style, String.ofList (readText
      ((markup.drop style.openingTags.length).rdrop style.closingTags.length))⟩

theorem ofMarkup?_markup (line : DisplayLine) : ofMarkup? line.markup.toList = some line := by
  rw [ofMarkup?, style?_markup, toList_markup, Option.map_some, ← String.length_toList,
    ← String.length_toList, List.drop_left, List.rdrop_append_length, body, readText_writeAll,
    String.ofList_toList]

/-- No text leaves the tags of its style, and no two lines have the same markup. -/
theorem markup_contained_injective :
    (∀ line : DisplayLine, line.Contained) ∧ Function.Injective markup := by
  refine ⟨contained, fun first second h => ?_⟩
  have hread := ofMarkup?_markup first
  rw [h, ofMarkup?_markup] at hread
  exact (Option.some.inj hread).symm

end DisplayLine

end TableConsole
