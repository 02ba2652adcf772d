import Mathlib.Data.List.DropRight
import TableConsole.Proofs.Text.Blank
import TableConsole.Proofs.Text.Quoting
import TableConsole.Text.Lines

/-! # Lines, comments and blanks

How a text with line feeds falls into lines, the comment of a line as its own text, and what a
scanner sees of a line once its comment and its outer blanks are gone. A scanner that goes on
behind a line is never right behind a backslash, so blanks and comments leave it where it is.
-/

namespace TableConsole.Text

set_option autoImplicit false

def dropReturn (cs : List Char) : List Char :=
  if cs.getLast? = some '\r' then cs.dropLast else cs

theorem lines_of_no_feed {cs : List Char} (h : '\n' ∉ cs) :
    lines cs = if cs.isEmpty then [] else [cs] := by
  induction cs with
  | nil => rfl
  | cons c cs ih =>
    simp only [List.mem_cons, not_or] at h
    cases cs with
    | nil => simp [lines, Ne.symm h.1]
    | cons d cs =>
      have hd : d ≠ '\n' := fun hd => h.2 (hd ▸ List.mem_cons_self)
      rw [lines, ih h.2]
      · rfl
      · exact fun hc => h.1 hc.symm
      · simp [hd]

theorem lines_append_feed {cs : List Char} (h : '\n' ∉ cs) (ds : List Char) :
    lines (cs ++ '\n' :: ds) = dropReturn cs :: lines ds := by
  induction cs with
  | nil => rfl
  | cons c cs ih =>
    simp only [List.mem_cons, not_or] at h
    have hc : c ≠ '\n' := fun hc => h.1 hc.symm
    cases cs with
    | nil =>
      by_cases hr : c = '\r'
      · subst hr
        rfl
      · simp [lines, dropReturn, hr]
    | cons d cs =>
      have hd : d ≠ '\n' := fun hd => h.2 (hd ▸ List.mem_cons_self)
      rw [List.cons_append, lines, ih h.2]
      · simp only [dropReturn, List.getLast?_cons_cons, List.dropLast_cons_cons]
        split <;> rfl
      · exact hc
      · simp [hd]

theorem no_feed_of_mem_lines (cs : List Char) : ∀ l ∈ lines cs, '\n' ∉ l := by
  induction cs using lines.induct with
  | case1 => simp [lines]
  | case2 cs ih => simpa [lines] using ih
  | case3 cs ih => simpa [lines] using ih
  | case4 c cs hc hr hnil _ => simpa [lines, hnil] using fun h => hc h.symm
  | case5 c cs hc hr l ls hcons ih =>
    rw [hcons, List.forall_mem_cons] at ih
    have hfeed : '\n' ≠ c := fun h => hc h.symm
    simpa [lines, hcons, hfeed] using ih

theorem trim_concat {b : Char} (h : isBlank b = true) (cs : List Char) :
    trim (cs ++ [b]) = trim cs := by
  have hend (ds : List Char) : dropBlankEnd (ds ++ [b]) = dropBlankEnd ds :=
    List.rdropWhile_concat_pos isBlank ds b h
  rw [trim, trim, dropBlank, List.dropWhile_append]
  split
  · rename_i hnil
    rw [dropBlank, List.isEmpty_iff.mp hnil, List.dropWhile_cons_of_pos h]
    rfl
  · exact hend _

theorem exists_trim (cs : List Char) :
    ∃ before behind, cs = before ++ trim cs ++ behind ∧
      (∀ b ∈ before, isBlank b = true) ∧ ∀ b ∈ behind, isBlank b = true := by
  refine ⟨cs.takeWhile isBlank, (dropBlank cs).rtakeWhile isBlank, ?_, ?_, ?_⟩
  · rw [List.append_assoc, trim, dropBlankEnd_eq_rdropWhile, List.rdropWhile_append_rtakeWhile,
      dropBlank, List.takeWhile_append_dropWhile]
  · exact fun b => List.mem_takeWhile_imp
  · exact fun b => List.mem_rtakeWhile_imp

theorem mem_trim {c : Char} {cs : List Char} (hc : c ∈ cs) (hblank : isBlank c = false) :
    c ∈ trim cs := by
  obtain ⟨before, behind, hcs, hbefore, hbehind⟩ := exists_trim cs
  rw [hcs] at hc
  simp only [List.mem_append] at hc
  obtain (hc | hc) | hc := hc
  · simp [hbefore c hc] at hblank
  · exact hc
  · simp [hbehind c hc] at hblank

theorem trim_eq_nil_iff {cs : List Char} : trim cs = [] ↔ ∀ c ∈ cs, isBlank c = true := by
  constructor
  · intro h c hc
    by_contra hblank
    simpa [h] using mem_trim hc (by simpa using hblank)
  · intro h
    have hdrop : dropBlank cs = [] := List.dropWhile_eq_nil_iff.mpr h
    rw [trim, hdrop]
    rfl

def comment (cs : List Char) : List Char :=
  cs.drop (stripComment cs).length

theorem beforeComment_isPrefix (q : Quoting) (cs : List Char) : beforeComment q cs <+: cs := by
  fun_induction beforeComment q cs with
  | case1 => exact List.nil_prefix
  | case2 => exact List.nil_prefix
  | case3 q c cs _ ih => exact (List.prefix_cons_inj c).mpr ih

theorem stripComment_append_comment (cs : List Char) : stripComment cs ++ comment cs = cs := by
  exact List.prefix_iff_eq_append.mp (beforeComment_isPrefix .code cs)

theorem beforeComment_eq_self {cs : List Char} (h : '/' ∉ cs) (q : Quoting) :
    beforeComment q cs = cs := by
  fun_induction beforeComment q cs with
  | case1 => rfl
  | case2 q c cs hcomment =>
    rw [hcomment.2.1] at h
    exact absurd List.mem_cons_self h
  | case3 q c cs _ ih => rw [ih (mt (List.mem_cons_of_mem c) h)]

/-- What stands in front of a comment has none in it. -/
theorem beforeComment_of_isPrefix {q : Quoting} {cs ds : List Char}
    (h : ds <+: beforeComment q cs) : beforeComment q ds = ds := by
  fun_induction beforeComment q cs generalizing ds with
  | case1 => rw [List.prefix_nil.mp h, beforeComment]
  | case2 => rw [List.prefix_nil.mp h, beforeComment]
  | case3 q c cs hc ih =>
    cases ds with
    | nil => rw [beforeComment]
    | cons d ds =>
      obtain ⟨rfl, hds⟩ := List.cons_prefix_cons.mp h
      have hd : ¬ (q = .code ∧ d = '/' ∧ ds.head? = some '/') := by
        rintro ⟨hq, hd, hhead⟩
        obtain ⟨rest, rfl⟩ := hds.trans (beforeComment_isPrefix _ cs)
        exact hc ⟨hq, hd, by simp [List.head?_append, hhead]⟩
      rw [beforeComment, if_neg hd, ih hds]

theorem stripComment_append_of_isBlank {before : List Char}
    (h : ∀ b ∈ before, isBlank b = true) (cs : List Char) :
    stripComment (before ++ cs) = before ++ stripComment cs := by
  induction before with
  | nil => rfl
  | cons b before ih =>
    obtain ⟨hb, hbefore⟩ := List.forall_mem_cons.mp h
    have hquote : b ≠ '"' := (isInert_iff.mp (isInert_of_isBlank hb)).1
    have hslash : b ≠ '/' := by
      rintro rfl
      cases hb
    have hnext : Quoting.code.next b = .code := by simp [Quoting.next, hquote]
    rw [stripComment, List.cons_append, beforeComment, if_neg (fun hc => hslash hc.2.1), hnext,
      ← stripComment, ih hbefore]
    rfl

theorem beforeComment_concat {c : Char} (h : c ≠ '/') (q : Quoting) (cs : List Char) :
    beforeComment q (cs ++ [c]) = beforeComment q cs ∨
      beforeComment q cs = cs ∧ beforeComment q (cs ++ [c]) = cs ++ [c] := by
  fun_induction beforeComment q cs with
  | case1 q => exact .inr ⟨rfl, by simp [beforeComment]⟩
  | case2 q d cs hd =>
    have hhead : (cs ++ [c]).head? = some '/' := by simp [List.head?_append, hd.2.2]
    exact .inl (by simp [beforeComment, hd.1, hd.2.1, hhead])
  | case3 q d cs hd ih =>
    have hhead : ¬ (q = .code ∧ d = '/' ∧ (cs ++ [c]).head? = some '/') := by
      cases cs with
      | nil => simp [h]
      | cons e cs => simpa using hd
    rw [List.cons_append, beforeComment, if_neg hhead]
    obtain ih | ⟨ih, ih'⟩ := ih
    · exact .inl (by rw [ih])
    · exact .inr ⟨by rw [ih], by rw [ih']⟩

def content (line : List Char) : List Char :=
  trim (stripComment line)

theorem stripComment_of_isPrefix_content {line cs : List Char} (h : cs <+: content line) :
    stripComment cs = cs := by
  obtain ⟨before, behind, hline, hbefore, -⟩ := exists_trim (stripComment line)
  have hprefix : before ++ cs <+: stripComment line := by
    rw [hline, ← content, List.append_assoc]
    exact (List.prefix_append_right_inj before).mpr (h.trans (List.prefix_append _ behind))
  have hstrip : stripComment (before ++ cs) = before ++ cs := beforeComment_of_isPrefix hprefix
  rwa [stripComment_append_of_isBlank hbefore, List.append_cancel_left_eq] at hstrip

theorem content_dropReturn (line : List Char) : content (dropReturn line) = content line := by
  rw [dropReturn]
  split
  · rename_i h
    obtain ⟨cs, rfl⟩ := List.getLast?_eq_some_iff.mp h
    rw [List.dropLast_concat, content, content]
    obtain hstrip | ⟨hstrip, hstrip'⟩ :=
      beforeComment_concat (c := '\r') (by decide) .code cs
    · rw [stripComment, stripComment, hstrip]
    · rw [stripComment, stripComment, hstrip, hstrip', trim_concat (by decide)]
  · rfl

/-- The state at the start of the next line, after a line feed or a blank in its place. -/
def Quoting.newLine (q : Quoting) : Quoting :=
  q.next '\n'

theorem Quoting.next_of_isInert {c : Char} (h : isInert c = true) (q : Quoting) :
    (q.next c).newLine = q.newLine := by
  have hc := (isInert_iff.mp h).1
  cases q with
  | code => simp [Quoting.next, hc]
  | quoted =>
    simp only [Quoting.next, if_neg hc]
    split <;> rfl
  | escaped => rfl

theorem Quoting.newLine_after_of_inert {cs : List Char} (h : ∀ c ∈ cs, isInert c = true)
    (q : Quoting) : (q.after cs).newLine = q.newLine := by
  induction cs generalizing q with
  | nil => rfl
  | cons c cs ih =>
    obtain ⟨hc, hcs⟩ := List.forall_mem_cons.mp h
    rw [Quoting.after_cons, ih hcs, Quoting.next_of_isInert hc]

theorem Quoting.after_of_isBlank {cs : List Char} (h : ∀ c ∈ cs, isBlank c = true) (q : Quoting) :
    q.newLine.after cs = q.newLine := by
  induction cs with
  | nil => rfl
  | cons c cs ih =>
    obtain ⟨hc, hcs⟩ := List.forall_mem_cons.mp h
    have hquote : c ≠ '"' := (isInert_iff.mp (isInert_of_isBlank hc)).1
    have hslash : c ≠ '\\' := by
      rintro rfl
      cases hc
    have hstep : q.newLine.next c = q.newLine := by
      cases q <;> simp [Quoting.newLine, Quoting.next, hquote, hslash]
    rw [Quoting.after_cons, hstep, ih hcs]

section Content

variable (q : Quoting) (cs : List Char)

theorem depthFrom_trim : depthFrom q.newLine (trim cs) = depthFrom q.newLine cs := by
  obtain ⟨before, behind, hcs, hbefore, hbehind⟩ := exists_trim cs
  have hinert {ds : List Char} (h : ∀ b ∈ ds, isBlank b = true) (q : Quoting) :
      depthFrom q ds = 0 :=
    depthFrom_of_inert (fun b hb => isInert_of_isBlank (h b hb)) q
  conv_rhs => rw [hcs]
  simp only [depthFrom_append, Quoting.after_append, Quoting.after_of_isBlank hbefore,
    hinert hbefore, hinert hbehind, Int.zero_add, Int.add_zero]

theorem newLine_after_trim :
    (q.newLine.after (trim cs)).newLine = (q.newLine.after cs).newLine := by
  obtain ⟨before, behind, hcs, hbefore, hbehind⟩ := exists_trim cs
  conv_rhs => rw [hcs]
  rw [Quoting.after_append, Quoting.after_append, Quoting.after_of_isBlank hbefore,
    Quoting.newLine_after_of_inert fun b hb => isInert_of_isBlank (hbehind b hb)]

variable {cs} (h : ∀ c ∈ comment cs, isInert c = true)

include h

theorem depthFrom_content : depthFrom q.newLine (content cs) = depthFrom q.newLine cs := by
  conv_rhs => rw [← stripComment_append_comment cs]
  rw [content, depthFrom_trim, depthFrom_append, depthFrom_of_inert h, Int.add_zero]

theorem newLine_after_content :
    (q.newLine.after (content cs)).newLine = (q.newLine.after cs).newLine := by
  conv_rhs => rw [← stripComment_append_comment cs]
  rw [content, newLine_after_trim, Quoting.after_append, Quoting.newLine_after_of_inert h]

end Content

end TableConsole.Text
