import Mathlib.Data.List.DropRight
import TableConsole.Text.Blank
import TableConsole.Text.Letter

/-! # Blank characters in texts

No word has a blank in it, and a text without blanks is trimmed.
-/

namespace TableConsole.Text

set_option autoImplicit false

def blanks : List Char :=
  [9, 10, 11, 12, 13, 0x20, 0x85, 0xA0, 0x1680, 0x2000, 0x2001, 0x2002, 0x2003, 0x2004, 0x2005,
    0x2006, 0x2007, 0x2008, 0x2009, 0x200A, 0x2028, 0x2029, 0x202F, 0x205F, 0x3000].map Char.ofNat

theorem mem_blanks {c : Char} (h : isBlank c = true) : c ∈ blanks := by
  rw [← Char.ofNat_toNat c]
  refine List.mem_map_of_mem ?_
  simp only [isBlank, Bool.or_eq_true, Bool.and_eq_true, decide_eq_true_eq, beq_iff_eq] at h
  simp only [List.mem_cons, List.not_mem_nil, or_false]
  omega

theorem not_of_isBlank {p : Char → Bool} (hp : blanks.all (!p ·) = true) {c : Char}
    (h : isBlank c = true) : p c = false := by
  simpa using List.all_eq_true.mp hp c (mem_blanks h)

theorem not_isWordChar_of_isBlank {c : Char} (h : isBlank c = true) : isWordChar c = false :=
  not_of_isBlank (by decide +kernel) h

theorem isBlank_of_isWordChar {c : Char} (h : isWordChar c = true) : isBlank c = false := by
  by_contra hblank
  have hc := not_isWordChar_of_isBlank (by simpa using hblank)
  simp [h] at hc

theorem dropBlankEnd_eq_rdropWhile (cs : List Char) : dropBlankEnd cs = cs.rdropWhile isBlank := rfl

theorem trim_of_not_blank {cs : List Char} (h : ∀ c ∈ cs, isBlank c = false) : trim cs = cs := by
  have hdrop : dropBlank cs = cs := by
    cases cs with
    | nil => rfl
    | cons c cs => exact dropBlank_eq_self (h c List.mem_cons_self)
  rw [trim, hdrop, dropBlankEnd_eq_rdropWhile, List.rdropWhile_eq_self_iff]
  intro hne
  simp [h _ (List.getLast_mem hne)]

theorem isBlank_of_trim_eq_cons {cs ds : List Char} {c : Char} (h : trim cs = c :: ds) :
    isBlank c = false := by
  have hprefix : trim cs <+: dropBlank cs := List.rdropWhile_prefix isBlank (dropBlank cs)
  obtain ⟨behind, hcs⟩ := hprefix
  rw [h, List.cons_append, dropBlank] at hcs
  have hhead := List.head?_dropWhile_not isBlank cs
  rwa [← hcs] at hhead

end TableConsole.Text
