import Mathlib.Algebra.Group.Nat.Defs
import TableConsole.Text.Blank
import TableConsole.Text.Letter
import TableConsole.Text.Quoting

/-! # Quoting in longer texts

The state behind a text, and the depth of a text that is put together from others. Characters that
are neither quotes nor brackets move neither of the two while they stand in code.
-/

namespace TableConsole.Text

set_option autoImplicit false

def Quoting.after (q : Quoting) (cs : List Char) : Quoting :=
  cs.foldl Quoting.next q

section States

variable (q : Quoting) (c : Char) (cs ds : List Char)

@[simp] theorem Quoting.after_nil : q.after [] = q := rfl

@[simp] theorem Quoting.after_cons : q.after (c :: cs) = (q.next c).after cs := rfl

@[simp] theorem Quoting.after_append : q.after (cs ++ ds) = (q.after cs).after ds :=
  List.foldl_append

theorem depthFrom_append :
    depthFrom q (cs ++ ds) = depthFrom q cs + depthFrom (q.after cs) ds := by
  induction cs generalizing q with
  | nil => simp [depthFrom]
  | cons c cs ih => simp [depthFrom, ih, Int.add_assoc]

theorem Quoting.natAbs_bracketStep_le : (q.bracketStep c).natAbs ≤ 1 := by
  unfold Quoting.bracketStep Text.bracketStep
  split
  · split
    · decide
    · split <;> decide
  · decide

theorem natAbs_depthFrom_le : (depthFrom q cs).natAbs ≤ cs.length := by
  induction cs generalizing q with
  | nil => exact Nat.le_refl 0
  | cons c cs ih =>
    have hstep := q.natAbs_bracketStep_le c
    have hrest := ih (q.next c)
    rw [depthFrom, List.length_cons]
    omega

/-- A counter of 32 bits that follows the depth stays in its range at every place of the text. -/
theorem natAbs_depthFrom_lt {start : List Char} (h : start <+: cs) (hlength : cs.length < 2 ^ 31) :
    (depthFrom q start).natAbs < 2 ^ 31 :=
  Nat.lt_of_le_of_lt (Nat.le_trans (natAbs_depthFrom_le q start) h.length_le) hlength

end States

def isInert (c : Char) : Bool :=
  c != '"' && bracketStep c == 0

theorem isInert_iff {c : Char} : isInert c = true ↔ c ≠ '"' ∧ bracketStep c = 0 := by
  simp [isInert]

theorem isInert_of_class {p : Char → Bool} (h : ['"', '(', ')', '[', ']', '{', '}'].all (!p ·) = true)
    {c : Char} (hc : p c = true) : isInert c = true := by
  have hne : ∀ d ∈ ['"', '(', ')', '[', ']', '{', '}'], c ≠ d := by
    rintro d hd rfl
    simpa [hc] using List.all_eq_true.mp h c hd
  simp only [List.forall_mem_cons] at hne
  simp [isInert, bracketStep, hne]

theorem isInert_of_isBlank {c : Char} (h : isBlank c = true) : isInert c = true :=
  isInert_of_class (by decide) h

theorem isInert_of_isWordChar {c : Char} (h : isWordChar c = true) : isInert c = true :=
  isInert_of_class (by decide +kernel) h

section Inert

variable {cs : List Char} (h : ∀ c ∈ cs, isInert c = true)

include h

theorem after_code_of_inert : Quoting.code.after cs = .code := by
  induction cs with
  | nil => rfl
  | cons c cs ih =>
    obtain ⟨hc, hcs⟩ := List.forall_mem_cons.mp h
    rw [Quoting.after_cons, Quoting.next, if_neg (isInert_iff.mp hc).1, ih hcs]

theorem depthFrom_of_inert (q : Quoting) : depthFrom q cs = 0 := by
  induction cs generalizing q with
  | nil => rfl
  | cons c cs ih =>
    obtain ⟨hc, hcs⟩ := List.forall_mem_cons.mp h
    simp [depthFrom, Quoting.bracketStep, (isInert_iff.mp hc).2, ih hcs]

end Inert

section Colon

variable {q : Quoting} {depth : Int} {cs : List Char}

theorem splitColonFrom_eq_none (h : ':' ∉ cs) : splitColonFrom q depth cs = none := by
  induction cs generalizing q depth with
  | nil => rfl
  | cons c cs ih =>
    have hc : c ≠ ':' := (List.ne_of_not_mem_cons h).symm
    have hcs : ':' ∉ cs := List.not_mem_of_not_mem_cons h
    simp [splitColonFrom, hc, ih hcs]

theorem eq_of_splitColonFrom {before after : List Char}
    (h : splitColonFrom q depth cs = some (before, after)) : cs = before ++ ':' :: after := by
  induction cs generalizing q depth before with
  | nil => cases h
  | cons c cs ih =>
    rw [splitColonFrom] at h
    split at h
    · rename_i hcolon
      cases h
      rw [hcolon.2.2]
      rfl
    · obtain ⟨⟨before, after⟩, hsplit, heq⟩ := Option.map_eq_some_iff.mp h
      cases heq
      rw [ih hsplit]
      rfl

/-- Behind a text without such a colon the scan goes on where it stands. -/
theorem splitColonFrom_append (h : splitColonFrom q depth cs = none) (ds : List Char) :
    splitColonFrom q depth (cs ++ ds) =
      (splitColonFrom (q.after cs) (depth + depthFrom q cs) ds).map
        fun (before, after) => (cs ++ before, after) := by
  induction cs generalizing q depth with
  | nil => simp [depthFrom]
  | cons c cs ih =>
    rw [splitColonFrom] at h
    split at h
    · cases h
    · rename_i hc
      rw [List.cons_append, splitColonFrom, if_neg hc, ih (Option.map_eq_none_iff.mp h)]
      simp [depthFrom, Int.add_assoc, Function.comp_def]

theorem splitColonFrom_append_of_some {before after : List Char}
    (h : splitColonFrom q depth cs = some (before, after)) (ds : List Char) :
    splitColonFrom q depth (cs ++ ds) = some (before, after ++ ds) := by
  induction cs generalizing q depth before with
  | nil => cases h
  | cons c cs ih =>
    rw [splitColonFrom] at h
    rw [List.cons_append, splitColonFrom]
    split at h
    · rename_i hc
      cases h
      rw [if_pos hc]
    · rename_i hc
      obtain ⟨⟨before', _⟩, hsplit, heq⟩ := Option.map_eq_some_iff.mp h
      cases heq
      rw [if_neg hc, ih hsplit]
      rfl

end Colon

end TableConsole.Text
